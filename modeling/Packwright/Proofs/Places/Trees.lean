import Packwright.Proofs.Parts
import Packwright.Proofs.Parsing.Statements
import Packwright.Proofs.Places.States

/-!
# Where trees stand

Every node of an expression lies in the source and around its parts, and every statement lies around
its expressions and the statements inside it.  That holds of a statement that could not be read as
well: its place goes from its first token to where reading went on.

* `Expr.Placed`, `Stmt.Placed`: such trees.
* `Expr.Made.placed`, `Stmt.Leaf.placed`, `BodyMade.placed`: what reading makes, between the tokens
  around it.
* `parseScript_placed`: whole scripts.
-/

namespace Packwright

open Parsing

/-! ## Trees with places -/

namespace Expr

/-- The node lies in the source and around its parts. -/
structure PlacedNode (source : String) (e : Expr) : Prop where
  fits : e.span.Fits source
  holds : ∀ c ∈ e.children, e.span.Holds c.span

/-- All nodes of the expression lie in the source and around their parts. -/
def Placed (source : String) (e : Expr) : Prop := ∀ p : Expr, p.Part e → p.PlacedNode source

namespace Placed

variable {source : String} {e : Expr} {span : Span}

theorem intro (hfits : e.span.Fits source)
    (hc : ∀ c ∈ e.children, c.Placed source ∧ e.span.Holds c.span) : e.Placed source := by
  intro p hp
  cases hp with
  | self => exact ⟨hfits, fun c h => (hc c h).2⟩
  | child hchild hp => exact (hc _ hchild).1 p hp

/-- A node without parts. -/
theorem leaf (hfits : e.span.Fits source) (hleaf : e.children = []) : e.Placed source :=
  .intro hfits (hleaf ▸ List.forall_mem_nil _)

theorem fits (h : e.Placed source) : e.span.Fits source := (h e .self).fits

theorem child (h : e.Placed source) {c : Expr} (hc : c ∈ e.children) : c.Placed source :=
  fun p hp => h p (.child hc hp)

/-- A node may take more room. -/
theorem withInfo (h : e.Placed source) (ty : Ty) (hfits : span.Fits source)
    (hholds : span.Holds e.span) : (e.withInfo ⟨ty, span⟩).Placed source := by
  have hspan := span_withInfo ⟨ty, span⟩ e
  refine .intro (hspan.symm ▸ hfits) fun c hc => ?_
  rw [children_withInfo] at hc
  exact ⟨h.child hc, hspan.symm ▸ hholds.trans ((h e .self).holds c hc)⟩

theorem casted (h : e.Placed source) (c : Option Cast) : (e.casted c).Placed source := by
  cases c with
  | none => exact h
  | some c => exact .intro h.fits (List.forall_mem_singleton.mpr ⟨h, .refl _⟩)

theorem asCondition (h : e.Placed source) : (Parse.asCondition e).Placed source := by
  unfold Parse.asCondition
  split
  · exact h
  · exact h.casted _

end Placed

end Expr

namespace Stmt

/-- The places of the names that a statement declares, and of its annotations. -/
def marks : Stmt → List Span
  | letBinding _ name _ | var _ name _ _ | enum _ name _ => [name.span]
  | function _ name annotations _ => name.span :: annotations.map (·.span)
  | assign _ _ _ _ _ | expr _ _ | block _ _ | ifElse _ _ _ _ | .while _ _ _ | context _ _ _ _
  | command _ _ | .return _ | error _ => []

/-- The statement lies in the source, and around its expressions and the statements inside it. -/
structure PlacedNode (source : String) (t : Stmt) : Prop where
  fits : t.span.Fits source
  marks : ∀ m ∈ t.marks, m.Fits source
  operands : ∀ e ∈ t.operands, e.Placed source ∧ t.span.Holds e.span
  children : ∀ u ∈ t.children, t.span.Holds u.span

/-- All statements in the statement lie in the source, and around what is inside them. -/
def Placed (source : String) (t : Stmt) : Prop := ∀ p : Stmt, p.Part t → p.PlacedNode source

variable {source : String} {t : Stmt}

theorem Placed.intro (hfits : t.span.Fits source) (hmarks : ∀ m ∈ t.marks, m.Fits source)
    (hoperands : ∀ e ∈ t.operands, e.Placed source ∧ t.span.Holds e.span)
    (hchildren : ∀ u ∈ t.children, u.Placed source ∧ t.span.Holds u.span) : t.Placed source := by
  intro p hp
  cases hp with
  | self => exact ⟨hfits, hmarks, hoperands, fun u hu => (hchildren u hu).2⟩
  | child hc hp => exact (hchildren _ hc).1 p hp

end Stmt

/-! ## Between tokens -/

namespace Span

variable {source : String} {s s₀ s₁ s' : Parsing} {a b span : Span}

theorem around_holds (span : Span) (o : Option Expr) :
    (span.around o).Holds span ∧ ∀ e ∈ o, (span.around o).Holds e.span := by
  cases o with
  | none => exact ⟨.refl _, fun _ he => absurd he (Option.not_mem_none _)⟩
  | some e =>
    refine ⟨holds_merge_left _ _, ?_⟩
    rintro _ ⟨⟩
    exact holds_merge_right _ _

/-- Places that begin and end apart lie around what is between them. -/
theorem holds_merge (ha : a.start ≤ span.start) (hb : span.stop ≤ b.stop) :
    (a.merge b).Holds span :=
  ⟨(min_le_left _ _).trans ha, hb.trans (le_max_right _ _)⟩

theorem Between.widen (h : span.Between s s') (h₀ : s₀.Past s) (h₁ : s'.Past s₁) :
    span.Between s₀ s₁ :=
  ⟨h₀.stop.trans h.1, h.2.trans h₁.stop⟩

theorem Between.declare (h : span.Between s s') (name : String) (ty : Ty) :
    span.Between s (s'.declare name ty) :=
  ⟨h.1, (last_declare s' name ty).symm ▸ h.2⟩

/-- What stands behind a token lies in a place that begins with it. -/
theorem Between.held (h : span.Between s.advance s') (hs : s.Laid source)
    (hb : s'.last.stop ≤ b.stop) : (s.here.merge b).Holds span := by
  obtain ⟨hstart, hstop⟩ := h
  rw [last_advance] at hstart
  exact holds_merge (hs.here.1.ordered.trans hstart) (hstop.trans hb)

/-- The place from a token to one behind it. -/
theorem between_since (hs : s.Laid source) (hb : s.here.start ≤ b.start ∧ s.here.stop ≤ b.stop)
    (hstop : b.stop ≤ s'.last.stop) : (s.here.merge b).Between s s' :=
  merge_between ⟨hs.here.2, hb.2.trans hstop⟩ ⟨hs.here.2.trans hb.1, hstop⟩

/-- A place behind a token. -/
theorem Between.behind (h : span.Between s.advance s') (hs : s.Laid source)
    (hspan : span.Fits source) : s.here.start ≤ span.start ∧ s.here.stop ≤ span.stop := by
  obtain ⟨hstart, -⟩ := h
  rw [last_advance] at hstart
  exact ⟨hs.here.1.ordered.trans hstart, hstart.trans hspan.ordered⟩

end Span

/-- Behind a token, none in front of it is the last one. -/
theorem Parsing.Past.behind {s s' : Parsing} (h : s.advance.Past s') :
    s.here.start ≤ s'.last.start ∧ s.here.stop ≤ s'.last.stop := by
  obtain ⟨hstart, hstop, -⟩ := h
  rw [last_advance] at hstart hstop
  exact ⟨hstart, hstop⟩

theorem Parsing.Laid.last_le_here {source : String} {s : Parsing} (hs : s.Laid source) :
    s.last.stop ≤ s.here.stop :=
  hs.here.2.trans hs.here.1.ordered

theorem Parsing.Past.here_behind {source : String} {s s' : Parsing} (h : s.advance.Past s')
    (h' : s'.Laid source) : s.here.start ≤ s'.here.start ∧ s.here.stop ≤ s'.here.stop :=
  ⟨h.behind.1.trans (h'.last.ordered.trans h'.here.2), h.behind.2.trans h'.last_le_here⟩

theorem Expr.span_asCondition (e : Expr) : (Parse.asCondition e).span = e.span := by
  unfold Parse.asCondition
  split
  · rfl
  · exact span_casted _ _

namespace Stmt

variable {source : String} {s r s' : Parsing} {t : Stmt} {b : Span}

/-- A statement that begins with a token: what is inside stands behind it and in front of the token
at which the statement ends. -/
theorem placed_since (hs : s.Laid source) (hspan : t.span = s.here.merge b) (hfits : b.Fits source)
    (hb : s.here.start ≤ b.start ∧ s.here.stop ≤ b.stop) (hr : r.last.stop ≤ b.stop)
    (hstop : b.stop ≤ s'.last.stop) (hmarks : ∀ m ∈ t.marks, m.Fits source)
    (hoperands : ∀ e ∈ t.operands, e.Placed source ∧ e.span.Between s.advance r)
    (hchildren : ∀ u ∈ t.children, u.Placed source ∧ u.span.Between s.advance r) :
    t.Placed source ∧ t.span.Between s s' := by
  refine ⟨.intro (hspan ▸ hs.here.1.merge hfits) hmarks (fun e he => ?_) fun u hu => ?_,
    hspan ▸ Span.between_since hs hb hstop⟩
  · exact ⟨(hoperands e he).1, hspan ▸ (hoperands e he).2.held hs hr⟩
  · exact ⟨(hchildren u hu).1, hspan ▸ (hchildren u hu).2.held hs hr⟩

/-- A statement that ends with the token that was taken last. -/
theorem placed_since_last (hs : s.Laid source) (h' : s'.Laid source ∧ s.advance.Past s')
    (hspan : t.span = s.here.merge s'.last) (hmarks : ∀ m ∈ t.marks, m.Fits source)
    (hoperands : ∀ e ∈ t.operands, e.Placed source ∧ e.span.Between s.advance s')
    (hchildren : ∀ u ∈ t.children, u.Placed source ∧ u.span.Between s.advance s') :
    t.Placed source ∧ t.span.Between s s' :=
  placed_since hs hspan h'.1.last h'.2.behind le_rfl le_rfl hmarks hoperands hchildren

/-- A statement that ends with the next token. -/
theorem placed_since_here (hs : s.Laid source) (hr : r.Laid source ∧ s.advance.Past r)
    (hspan : t.span = s.here.merge r.here) (hstop : s'.last = r.here)
    (hmarks : ∀ m ∈ t.marks, m.Fits source)
    (hoperands : ∀ e ∈ t.operands, e.Placed source ∧ e.span.Between s.advance r)
    (hchildren : ∀ u ∈ t.children, u.Placed source ∧ u.span.Between s.advance r) :
    t.Placed source ∧ t.span.Between s s' :=
  placed_since hs hspan hr.1.here.1 (hr.2.here_behind hr.1) hr.1.last_le_here (hstop ▸ le_rfl)
    hmarks hoperands hchildren

/-- Two expressions and the place around both. -/
theorem placed_assign {target e : Expr} (htarget : target.Placed source ∧ target.span.Between s s')
    (he : e.Placed source ∧ e.span.Between s s') (op : BinaryOp) (o : Option Operation) :
    (assign (target.span.merge e.span) target op e o).Placed source ∧
      (target.span.merge e.span).Between s s' := by
  refine ⟨.intro (htarget.1.fits.merge he.1.fits) (List.forall_mem_nil _) ?_
    (List.forall_mem_nil _), Span.merge_between htarget.2 he.2⟩
  exact List.forall_mem_cons.mpr ⟨⟨htarget.1, Span.holds_merge_left _ _⟩,
    List.forall_mem_singleton.mpr ⟨he.1, Span.holds_merge_right _ _⟩⟩

end Stmt

section Placed

variable {source : String} {tokens : List Located} {b n : Bool} {s s₁ u u' s' : Parsing} {e : Expr}
  {t : Stmt} {ts : List Stmt} (hfits : ∀ {span}, Spot tokens span → span.Fits source)

include hfits

/-- What stands in brackets lies in the place from one of them to the other. -/
theorem Enclosed.held (h : Enclosed tokens s s₁) (hs : s.Laid source) {span : Span}
    (hspan : span.Between s.advance s₁) : (s.here.merge s₁.here).Holds span := by
  exact hspan.held hs (h.inner.laid hfits hs.advance.1).1.last_le_here

/-- **Expressions** lie around their parts. -/
theorem Expr.Made.placed (h : e.Made tokens b s s') (hs : s.Laid source) : e.Placed source := by
  have hspot := hfits h.spot
  induction h with
  | widen h₀ _ _ ih => exact ih (h₀.laid hfits hs).1 hspot
  | operand _ ih => exact ih hs hspot
  | cast h _ ih => exact (ih hs (hfits h.spot)).casted _
  | literal | item | unresolved | name | variant | call => exact .leaf hspot rfl
  | @binary _ _ _ _ l r _ hl hr _ _ ihl ihr =>
    have hplaced := (ihl hs (hfits hl.spot)).casted
    refine .intro hspot (List.forall_mem_cons.mpr ⟨⟨hplaced _, ?_⟩, List.forall_mem_singleton.mpr
      ⟨(ihr hs (hfits hr.spot)).casted _, ?_⟩⟩)
    · rw [span_casted]
      exact Span.holds_merge_left _ _
    · rw [span_casted]
      exact Span.holds_merge_right _ _
  | failedBinary hl hr _ ihl ihr =>
    exact .intro hspot (List.forall_mem_cons.mpr
      ⟨⟨ihl hs (hfits hl.spot), Span.holds_merge_left _ _⟩,
        List.forall_mem_singleton.mpr ⟨ihr hs (hfits hr.spot), Span.holds_merge_right _ _⟩⟩)
  | unary _ he _ ih =>
    refine .intro hspot (List.forall_mem_singleton.mpr ⟨(ih hs (hfits he.spot)).casted _, ?_⟩)
    rw [span_casted]
    exact Span.holds_merge_right _ _
  | failedUnary _ he _ ih =>
    exact .intro hspot
      (List.forall_mem_singleton.mpr ⟨ih hs (hfits he.spot), Span.holds_merge_right _ _⟩)
  | @range _ _ _ min max dots _ hmin hmax _ _ ihmin ihmax
  | @failedRange _ _ _ min max dots _ hmin hmax _ _ ihmin ihmax =>
    obtain ⟨hinner, hmaxHolds⟩ := Span.around_holds (dots.around min) max
    obtain ⟨-, hminHolds⟩ := Span.around_holds dots min
    refine .intro hspot fun c hc => ?_
    rcases List.mem_append.mp hc with hc | hc
    · have hc := Option.mem_toList.mp hc
      exact ⟨ihmin c hc hs (hfits (hmin c hc).spot), hinner.trans (hminHolds c hc)⟩
    · have hc := Option.mem_toList.mp hc
      exact ⟨ihmax c hc hs (hfits (hmax c hc).spot), hmaxHolds c hc⟩
  | list h hitems _ _ _ ih =>
    refine .intro hspot fun c hc => ⟨ih c hc hs.advance.1 (hfits (hitems c hc).spot), ?_⟩
    exact h.held hfits hs ((hitems c hc).lies.between hfits hs.advance.1)
  | compound h hentries ih =>
    refine .intro hspot (List.forall_mem_map.mpr fun entry hentry => ?_)
    have he := hentries entry hentry
    refine ⟨ih entry hentry hs.advance.1 (hfits he.spot), ?_⟩
    exact h.held hfits hs (he.lies.between hfits hs.advance.1)
  | parenthesized h he ih =>
    rw [moved, span_withInfo] at hspot
    refine (ih hs.advance.1 (hfits he.spot)).withInfo _ hspot ?_
    exact h.held hfits hs (he.lies.between hfits hs.advance.1)
  | extended he _ ih =>
    rw [moved, span_withInfo] at hspot
    exact (ih hs (hfits he.spot)).withInfo _ hspot (Span.holds_merge_left _ _)
  | failed he _ _ ih =>
    rw [Expr.failed, span_withInfo] at hspot
    exact (ih hs (hfits he.spot)).withInfo _ hspot (Span.holds_merge_left _ _)
  | @member _ s s₁ s' e _ _ args he h _ _ hargs ih ihargs =>
    have hplaced := ih hs (hfits he.spot)
    obtain ⟨hlaid, -⟩ := he.moves.laid hfits hs
    refine .intro hspot (List.forall_mem_cons.mpr
      ⟨⟨hplaced, Span.holds_merge_left _ _⟩, fun a ha => ?_⟩)
    have hstop := (he.lies.between hfits hs).2
    obtain ⟨hbehind, hright⟩ := (hargs a ha).lies.between hfits hlaid.advance.1
    rw [last_advance] at hbehind
    have hhere := hlaid.here
    refine ⟨ihargs a ha hlaid.advance.1 (hfits (hargs a ha).spot), Span.holds_merge ?_ hright⟩
    calc e.span.start ≤ e.span.stop := hplaced.fits.ordered
      _ ≤ s₁.last.stop := hstop
      _ ≤ s₁.here.start := hhere.2
      _ ≤ s₁.here.stop := hhere.1.ordered
      _ ≤ a.span.start := hbehind
  | dataPath he _ _ _ ih =>
    exact .intro hspot
      (List.forall_mem_singleton.mpr ⟨ih hs (hfits he.spot), Span.holds_merge_left _ _⟩)

theorem Expr.Made.between (h : e.Made tokens b s s') (hs : s.Laid source) :
    e.Placed source ∧ e.span.Between s s' :=
  ⟨h.placed hfits hs, h.lies.between hfits hs⟩

theorem Storing.between {op : BinaryOp} {o : Option Operation} (h : Storing tokens op s s' e o)
    (hs : s.Laid source) : e.Placed source ∧ e.span.Between s s' := by
  cases h with
  | resolved he _ =>
    rw [Expr.span_casted]
    exact ⟨(he.placed hfits hs).casted _, he.lies.between hfits hs⟩
  | failed he _ => exact he.between hfits hs

/-- A condition stands where its expression does. -/
theorem Expr.Made.condition (h : e.Made tokens b s s') (hs : s.Laid source) :
    (Parse.asCondition e).Placed source ∧ (Parse.asCondition e).span.Between s s' := by
  rw [span_asCondition]
  exact ⟨(h.placed hfits hs).asCondition, h.lies.between hfits hs⟩

/-- **Statements** with no others inside. -/
theorem Stmt.Leaf.placed (h : t.Leaf tokens s s') (hs : s.Laid source) :
    t.Placed source ∧ t.span.Between s s' := by
  cases h with
  | letPlain _ hx he | letTyped _ hx he _ _ =>
    obtain ⟨hplaced, hbetween⟩ := he.between hfits hs.advance.1
    refine ⟨.intro (hs.here.1.merge hplaced.fits) (List.forall_mem_singleton.mpr (hfits hx.spot))
      (List.forall_mem_singleton.mpr ⟨hplaced, Span.holds_merge_right _ _⟩)
      (List.forall_mem_nil _), ?_⟩
    refine Span.Between.declare ?_ _ _
    exact Span.between_since hs (hbetween.behind hs hplaced.fits) hbetween.2
  | varPlain _ hx h =>
    refine And.imp_right (Span.Between.declare · _ _) ?_
    exact placed_since_last hs (h.laid hfits hs.advance.1) rfl
      (List.forall_mem_singleton.mpr (hfits hx.spot)) (List.forall_mem_nil _)
      (List.forall_mem_nil _)
  | var _ hx he =>
    refine And.imp_right (Span.Between.declare · _ _) ?_
    exact placed_since_last hs (he.moves.laid hfits hs.advance.1) rfl
      (List.forall_mem_singleton.mpr (hfits hx.spot))
      (List.forall_mem_singleton.mpr (he.between hfits hs.advance.1)) (List.forall_mem_nil _)
  | assign htarget _ he => exact placed_assign (htarget.between hfits hs) (he.between hfits hs) _ _
  | misassign htarget _ he =>
    exact placed_assign (htarget.between hfits hs) (he.between hfits hs) _ _
  | expr he =>
    obtain ⟨hplaced, hbetween⟩ := he.between hfits hs
    exact ⟨.intro hplaced.fits (List.forall_mem_nil _)
      (List.forall_mem_singleton.mpr ⟨hplaced, .refl _⟩) (List.forall_mem_nil _), hbetween⟩
  | enum _ hx h hopen h' _ =>
    obtain ⟨hlaid, hpast⟩ := h.laid hfits hs.advance.1
    obtain ⟨hlaid', hpast'⟩ := h'.laid hfits hlaid.advance.1
    refine placed_since_here hs ⟨hlaid', hpast.trans (hlaid.advance.2.trans hpast')⟩ rfl
      (last_advance _) (List.forall_mem_singleton.mpr (hfits hx.spot)) (List.forall_mem_nil _)
      (List.forall_mem_nil _)
  | command _ h hc =>
    exact placed_since_last hs (h.laid hfits hs.advance.1) rfl (List.forall_mem_nil _)
      (fun e he => (hc e he).between hfits hs.advance.1) (List.forall_mem_nil _)
  | «return» =>
    refine ⟨.intro hs.here.1 (List.forall_mem_nil _) (List.forall_mem_nil _)
      (List.forall_mem_nil _), hs.here.2, ?_⟩
    rw [last_advance]
    exact le_rfl

omit hfits in
theorem Nests.between (h : Nests s u u' s') {span : Span} (hspan : span.Between u u') :
    span.Between s s' := by
  cases h with
  | same | scope => exact hspan

omit hfits in
theorem Nests.laid (h : Nests s u u' s') (hs : s.Laid source) : u.Laid source := by
  cases h with
  | same => exact hs
  | scope => exact hs.enterScope

/-- A statement that governs another one lies around its operand and that one. -/
theorem Nests.governs_placed {c : Expr} (hn : Nests s₁ u u' s') (hs : s.Laid source)
    (hmoves : s.advance.Moves tokens s₁) (hc : c.Placed source ∧ c.span.Between s.advance s₁)
    {inner : Stmt} (hu : BodyMade tokens true u [inner] u')
    (ht : u.Laid source → ∀ t ∈ [inner], t.Placed source ∧ t.span.Between u u')
    (hspan : t.span = s.here.merge s'.last) (hmarks : t.marks = []) (hoperands : t.operands = [c])
    (hchildren : t.children = [inner]) : t.Placed source ∧ t.span.Between s s' := by
  obtain ⟨hlaid₁, hpast₁⟩ := hmoves.laid hfits hs.advance.1
  obtain ⟨hlaid, hpast⟩ := (hn.passage hu.passage).laid hfits hlaid₁
  obtain ⟨hplaced, hbetween⟩ := ht (hn.laid hlaid₁) _ List.mem_cons_self
  refine Stmt.placed_since_last hs ⟨hlaid, hpast₁.trans hpast⟩ hspan ?_ ?_ ?_
  · rw [hmarks]
    exact List.forall_mem_nil _
  · rw [hoperands]
    exact List.forall_mem_singleton.mpr ⟨hc.1, hc.2.widen (.refl _) hpast⟩
  · rw [hchildren]
    exact List.forall_mem_singleton.mpr ⟨hplaced, (hn.between hbetween).widen hpast₁ (.refl _)⟩

/-- **Bodies**: each statement lies between the tokens around it. -/
theorem BodyMade.placed (h : BodyMade tokens n s ts s') (hs : s.Laid source) :
    ∀ t ∈ ts, t.Placed source ∧ t.span.Between s s' := by
  induction h with
  | moves => exact List.forall_mem_nil _
  | append h h' ih ih' =>
    obtain ⟨hlaid, hpast⟩ := h.passage.laid hfits hs
    obtain ⟨-, hpast'⟩ := h'.passage.laid hfits hlaid
    refine List.forall_mem_append.mpr ⟨fun t ht => ?_, fun t ht => ?_⟩
    · exact ⟨(ih hs t ht).1, (ih hs t ht).2.widen (.refl _) hpast'⟩
    · exact ⟨(ih' hlaid t ht).1, (ih' hlaid t ht).2.widen hpast (.refl _)⟩
  | leaf h => exact List.forall_mem_singleton.mpr (h.placed hfits hs)
  | block _ h _ ih =>
    have hinner := hs.advance.1.enterScope
    exact List.forall_mem_singleton.mpr (Stmt.placed_since_here hs
      ((Passage.scope h.passage).laid hfits hs.advance.1) rfl (last_advance _)
      (List.forall_mem_nil _) (List.forall_mem_nil _) (ih hinner))
  | ifThen _ he hn ht ih | «while» _ he hn ht ih =>
    exact List.forall_mem_singleton.mpr (hn.governs_placed hfits hs he.moves
      (he.condition hfits hs.advance.1) ht ih rfl rfl rfl rfl)
  | context _ he hn ht ih =>
    exact List.forall_mem_singleton.mpr (hn.governs_placed hfits hs he.moves
      (he.between hfits hs.advance.1) ht ih rfl rfl rfl rfl)
  | ifElse _ he hn ht _ h hn' ht' ih ih' =>
    obtain ⟨hlaid₁, hpast₁⟩ := he.moves.laid hfits hs.advance.1
    obtain ⟨hlaid₂, hpast₂⟩ := (hn.passage ht.passage).laid hfits hlaid₁
    obtain ⟨hlaid₃, hpast₃⟩ := h.laid hfits hlaid₂.advance.1
    obtain ⟨hlaid, hpast⟩ := (hn'.passage ht'.passage).laid hfits hlaid₃
    have hbehind := (hlaid₂.advance.2.trans hpast₃).trans hpast
    obtain ⟨hplaced, hbetween⟩ := he.condition hfits hs.advance.1
    obtain ⟨hthen, hthen'⟩ := ih (hn.laid hlaid₁) _ List.mem_cons_self
    obtain ⟨helse, helse'⟩ := ih' (hn'.laid hlaid₃) _ List.mem_cons_self
    refine List.forall_mem_singleton.mpr (Stmt.placed_since_last hs
      ⟨hlaid, hpast₁.trans (hpast₂.trans hbehind)⟩ rfl (List.forall_mem_nil _) ?_ ?_)
    · exact List.forall_mem_singleton.mpr
        ⟨hplaced, hbetween.widen (.refl _) (hpast₂.trans hbehind)⟩
    · refine List.forall_mem_cons.mpr ⟨⟨hthen, (hn.between hthen').widen hpast₁ hbehind⟩,
        List.forall_mem_singleton.mpr ⟨helse, (hn'.between helse').widen ?_ (.refl _)⟩⟩
      exact hpast₁.trans (hpast₂.trans (hlaid₂.advance.2.trans hpast₃))
  | @function s s₁ u _ _ _ _ hx hnotes h _ hbody _ ih =>
    obtain ⟨hlaid₁, hpast₁⟩ := h.laid hfits hs.advance.1
    obtain ⟨hlaid, hpast⟩ := (Passage.scope hbody.passage).laid hfits hlaid₁.advance.1
    have hfitsBraces := hlaid₁.here.1.merge hlaid.here.1
    have hbraces : (s₁.here.merge u.here).Between s.advance u.leaveScope.advance := by
      refine (Span.between_since hlaid₁ (hpast.here_behind hlaid) ?_).widen hpast₁ (.refl _)
      exact (last_advance u.leaveScope).symm ▸ le_rfl
    have hmarks := List.forall_mem_cons.mpr
      ⟨hfits hx.spot, List.forall_mem_map.mpr fun a ha => hfits (hnotes a ha)⟩
    refine List.forall_mem_singleton.mpr (Stmt.placed_since (r := u.leaveScope) hs rfl hfitsBraces
      (hbraces.behind hs hfitsBraces) (hlaid.last_le_here.trans (le_max_right _ _)) hbraces.2 hmarks
      (List.forall_mem_nil _) fun t ht => ?_)
    obtain ⟨hplaced, hbetween⟩ := ih hlaid₁.advance.1.enterScope t ht
    have hfront : s.advance.Past s₁.advance.enterScope :=
      (hpast₁.trans hlaid₁.advance.2).trans (.of_eq rfl rfl)
    exact ⟨hplaced, hbetween.widen hfront (.of_eq rfl rfl)⟩
  | @error _ s s₁ d hbrace hend h =>
    have hmade : BodyMade tokens n s [_] _ := .error hbrace hend h
    obtain ⟨hlaid, hpast⟩ := hmade.passage.laid hfits hs
    have hate := hmade.ate (List.cons_ne_nil _ _) hs.row.ended
    have hbehind := hpast.moved.resolve_left fun hsame => absurd hate (hsame.2 ▸ lt_irrefl _)
    have hbetween := Span.between_since hs hbehind le_rfl
    exact List.forall_mem_singleton.mpr ⟨.intro (hs.here.1.merge hlaid.last) (List.forall_mem_nil _)
      (List.forall_mem_nil _) (List.forall_mem_nil _), hbetween⟩

theorem ScriptMade.placed (h : ScriptMade tokens n s ts s') (hs : s.Laid source) :
    s'.report.Fits source ∧ ∀ t ∈ ts, t.Placed source := by
  induction h with
  | stop h =>
    exact ⟨(h.passage.laid hfits hs).1.report, fun t ht => (h.placed hfits hs t ht).1⟩
  | step h _ _ ih =>
    obtain ⟨hlaid, -⟩ := h.passage.laid hfits hs
    obtain ⟨hreport, hrest⟩ := ih (hlaid.advance.1.complain _ hlaid.here.1)
    exact ⟨hreport, List.forall_mem_append.mpr ⟨fun t ht => (h.placed hfits hs t ht).1, hrest⟩⟩

end Placed

/-- **Scripts**: all statements lie in the source, and all that is found wrong as well. -/
theorem parseScript_placed {source : String} {tokens : List Located} (h : Row source 0 tokens)
    (hzero : (Span.mk 0 0).Fits source) :
    (∀ t ∈ (parseScript tokens).1.body, t.Placed source) ∧ (parseScript tokens).2.Fits source := by
  obtain ⟨s', hreport, hmade, -⟩ := parseScript_made tokens
  have hlaid : Parsing.Laid source { rest := tokens } := ⟨h, hzero, .empty⟩
  rw [hreport]
  exact (hmade.placed (Spot.fits hzero h.fits) hlaid).symm

end Packwright
