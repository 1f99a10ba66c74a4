import Packwright.Proofs.Core.Truths
import Packwright.Proofs.Lowering
import Packwright.Proofs.Once
import Packwright.Proofs.Parts
import Packwright.Proofs.Scopes

/-!
# What conditions read

The lines in front of a condition prepare its operands in scores that were drawn for them.  So
neither these lines nor the condition touch a score that is drawn later, such as a flag of its own
guard: they name variables, scores of entities, and scores that were drawn before.

* `Value.Settled d v`: the names in the value are words, and it reads no score that is drawn later
  than `d`.
* `Draft.Settled d`: names stand for such values.
* `Draft.Prepares d lines d'`: the lines that were written on the way neither leave their list nor
  touch a score that is drawn later, and no more do the lists that they call.
* `Expr.supplies_generateCondition`: an expression with words for names comes to a settled condition
  over such lines.
* `Stmt.settled_generate`: statements lead from settled drafts to settled drafts.
-/

namespace Packwright

open Gen Words

/-! ## Settled values -/

/-- The names in the predicate are words, and it reads no score that is drawn later. -/
def Predicate.Settled (d : Draft) (p : Predicate) : Prop :=
  p.Worded ∧ ∀ s ∈ p.test.scores, d.Old s

/-- The predicates are settled. -/
def Condition.Settled (d : Draft) (c : Condition) : Prop := ∀ p ∈ c.predicates, p.Settled d

/-- The names in the value are words, and it reads no score that is drawn later. -/
def Value.Settled (d : Draft) : Value → Prop
  | .score s => s.Worded ∧ d.Old s
  | .condition c => c.Settled d
  | .selector s => IsWord s.text
  | .data path => (Predicate.data path).Worded
  | _ => True

/-- The value is constant, and the names in it are words. -/
def Value.Fixed : Value → Prop
  | .score _ | .condition _ | .data _ => False
  | .selector s => IsWord s.text
  | _ => True

instance : DecidablePred Value.Fixed := fun v => by
  cases v <;> unfold Value.Fixed <;> infer_instance

theorem Value.Fixed.settled {v : Value} (h : v.Fixed) (d : Draft) : v.Settled d := by
  cases v with
  | selector s => exact h
  | score | condition | data => exact h.elim
  | _ => trivial

/-- The options are plain, and names stand for settled values. -/
structure Draft.Settled (d : Draft) : Prop where
  plain : d.options.Plain
  bound : ∀ x v, d.lookup? x = some v → v.Settled d

section Grow

variable {d d' : Draft} {lines : List String} (hg : d.Grows lines d')

include hg

theorem Condition.Settled.grow {c : Condition} (h : c.Settled d) : c.Settled d' :=
  fun p hp => ⟨(h p hp).1, fun s hs => ((h p hp).2 s hs).grow hg⟩

theorem Value.Settled.grow {v : Value} (h : v.Settled d) : v.Settled d' := by
  cases v with
  | score s => exact ⟨h.1, h.2.grow hg⟩
  | condition c => exact Condition.Settled.grow hg h
  | selector | data => exact h
  | _ => trivial

theorem Draft.Settled.grow (h : d.Settled) (hs : d'.scopes = d.scopes) : d'.Settled := by
  refine ⟨hg.options ▸ h.plain, fun x v hv => ?_⟩
  rw [Draft.lookup?, hs] at hv
  exact (h.bound x v hv).grow hg

end Grow

/-- A score of an entity is none that is drawn. -/
theorem Draft.old_selector (d : Draft) (s : Selector) (objective : String) :
    d.Old ⟨s.text, objective⟩ := by
  intro d' hmem
  have hhead : s.text.toList.head? = some '#' := head?_of_mem_fresh hmem
  unfold Selector.text at hhead
  split at hhead <;> simp at hhead

/-! ## Lines in front of a condition -/

/-- The line does not leave its list, touches no score that is drawn later than `d'`, and calls only
a list that was added since `d`. -/
structure Line.Calm (d d' : Draft) (line : String) : Prop where
  stays : (Order.ofText line).leaves = false
  old : ∀ s ∈ (Order.ofText line).scores, d'.Old s
  target : ∀ t, (Order.ofText line).target? = some t → t ∈ d.listed d'

namespace Line.Calm

variable {d d₁ d₂ d' : Draft} {line : String} {l l' : List String} {s t : Score}

theorem mono (h : Calm d₁ d₂ line) (hg : d.Grows l d₁) (hg' : d₂.Grows l' d') : Calm d d' line :=
  ⟨h.stays, fun s hs => (h.old s hs).grow hg',
    fun t ht => hg.listed_right (hg'.listed_left (h.target t ht))⟩

/-- A line whose order changes a score. -/
theorem of_order {o : Order} (horder : Order.ofText line = o) (hstays : o.leaves = false)
    (hold : ∀ s ∈ o.scores, d'.Old s) (htarget : o.target? = none) : Calm d d' line := by
  subst horder
  refine ⟨hstays, hold, fun t ht => ?_⟩
  rw [htarget] at ht
  cases ht

theorem set (hs : s.Worded) (hold : d'.Old s) (n : Amount) : Calm d d' (Line.set s n) :=
  of_order (Order.ofText_set hs n) rfl (List.forall_mem_singleton.mpr hold) rfl

theorem add (hs : s.Worded) (hold : d'.Old s) (n : Amount) : Calm d d' (Line.add s n) :=
  of_order (Order.ofText_add hs n) rfl (List.forall_mem_singleton.mpr hold) rfl

theorem remove (hs : s.Worded) (hold : d'.Old s) (n : Amount) : Calm d d' (Line.remove s n) :=
  of_order (Order.ofText_remove hs n) rfl (List.forall_mem_singleton.mpr hold) rfl

theorem operation (hs : s.Worded) (ht : t.Worded) (hold : d'.Old s) (hold' : d'.Old t)
    {sign : String} (hsign : IsWord sign) {c : Combination}
    (hc : Combination.ofText? sign = some c) : Calm d d' (Line.operation s sign t) :=
  of_order (Order.ofText_operation hs ht hsign hc) rfl
    (List.forall_mem_cons.mpr ⟨hold, List.forall_mem_singleton.mpr hold'⟩) rfl

theorem fetch (hs : s.Worded) (hold : d'.Old s) {path : DataPath}
    (hpath : (Predicate.data path).Worded) : Calm d d' (Line.fetch s path) :=
  of_order (Order.ofText_fetch hs hpath) rfl (List.forall_mem_singleton.mpr hold) rfl

end Line.Calm

/-- The lines of a settled condition are calm if its command is. -/
theorem Line.closed_calm {ps : List Predicate} {d d' : Draft} {l : List String}
    (hg : d.Grows l d') (hd : d.options.Plain) (hps : ∀ p ∈ ps, p.Settled d) :
    Line.Closed (fun run => Joined run ∧ Line.Calm d d' run) (Line.Calm d d') ps d d' where
  alone hrun := hrun.2
  guard q hq hc negated run hrun := by
    obtain ⟨hjoined, hcalm⟩ := hrun
    obtain ⟨hworded, hold⟩ := hps q hq
    have horder := Order.ofText_guard hc hworded hjoined negated
    refine ⟨by rw [horder]; exact hcalm.stays, ?_, by rw [horder]; exact hcalm.target⟩
    rw [horder]
    exact List.forall_mem_append.mpr ⟨fun s hs => (hold s hs).grow hg, hcalm.old⟩
  guardAmount s hs n run hrun := by
    obtain ⟨hjoined, hcalm⟩ := hrun
    have hold : d'.Old s := fun d'' => hg.fresh_disjoint hs
    obtain ⟨purpose, k, hp, -, -, rfl⟩ := hs
    have horder := Order.ofText_guardAmount (hd.worded_temp hp k) n hjoined false
    refine ⟨by rw [horder]; exact hcalm.stays, ?_, by rw [horder]; exact hcalm.target⟩
    rw [horder]
    exact List.forall_mem_append.mpr ⟨List.forall_mem_singleton.mpr hold, hcalm.old⟩
  set s hs n := by
    have hold : d'.Old s := fun d'' => hg.fresh_disjoint hs
    obtain ⟨purpose, k, hp, -, -, rfl⟩ := hs
    have hworded := hd.worded_temp hp k
    exact ⟨Line.joined_set hworded n, .set hworded hold n⟩
  call id hid body _ _ _ := by
    have hworded : id.Worded := by
      obtain ⟨purpose, k, hp, -, -, rfl⟩ := hid
      exact hd.worded_list hp k
    have horder := Order.ofText_call hworded
    refine ⟨Line.joined_call hworded, by rw [horder]; rfl, ?_, ?_⟩
    · rw [horder]
      exact List.forall_mem_nil _
    · rw [horder]
      rintro t ht
      obtain rfl := Option.some.inj ht
      exact hid

namespace Draft

variable {d d₁ d₂ : Draft} {lines lines' : List String}

/-- Calm lines were written on the way, and the lists that were added are made of such lines. -/
structure Prepares (d : Draft) (lines : List String) (d' : Draft) : Prop extends
    d.Grows lines d' where
  scopes_eq : d'.scopes = d.scopes
  calm : Wrote (Line.Calm d d') d d' lines

namespace Prepares

theorem refl (d : Draft) : d.Prepares [] d := ⟨.refl d, rfl, .same d (List.forall_mem_nil _)⟩

theorem trans (h : d.Prepares lines d₁) (h' : d₁.Prepares lines' d₂) :
    d.Prepares (lines ++ lines') d₂ := by
  have hleft : Wrote (Line.Calm d d₂) d d₁ lines :=
    h.calm.mono fun _ hline => hline.mono (.refl d) h'.toGrows
  have hright : Wrote (Line.Calm d d₂) d₁ d₂ lines' :=
    h'.calm.mono fun _ hline => hline.mono h.toGrows (.refl d₂)
  exact ⟨h.toGrows.trans h'.toGrows, h'.scopes_eq.trans h.scopes_eq,
    hleft.append hright h.toGrows h'.toGrows⟩

theorem temp (d : Draft) (purpose : String) : d.Prepares [] (d.draw (.temp purpose)) := by
  refine ⟨.draw d _, rfl, .of_count (fun other => ?_) (List.forall_mem_nil _)⟩
  rw [count_draw, if_neg (by simp)]
  rfl

theorem write {line : String} (h : Line.Calm d d line) : d.Prepares [line] (d.write [line]) :=
  ⟨.write d [line], rfl, .of_count (fun _ => rfl)
    (List.forall_mem_singleton.mpr (h.mono (.refl d) (.write d [line])))⟩

/-- The lines of a condition are written. -/
theorem lowered {c : Condition} {run : String} {tests : List String} (hd : d.options.Plain)
    (hc : c.Settled d) (hlower : (c.lower run).run d = (tests, d₁)) (hjoined : Joined run)
    (hrun : Line.Calm d d run) : d.Prepares tests (d₁.write tests) := by
  have hg := Condition.grows_of_lower hlower
  have hwrite := Grows.write d₁ tests
  have hcalm := Condition.wrote_lower c hlower (Line.closed_calm hg hd hc)
    ⟨hjoined, hrun.mono (.refl d) hg⟩
  have hscopes : d₁.scopes = d.scopes := Condition.scopes_of_lower hlower
  refine ⟨hg.trans hwrite, hscopes, ?_⟩
  obtain ⟨hlines, hbodies⟩ := hcalm.mono fun _ hline => hline.mono (.refl d) hwrite
  exact ⟨hlines, hbodies⟩

/-- The lists that are called do not touch what is drawn later. -/
theorem ignores (h : d.Prepares lines d₁) {p : Program} (hp : p.Holds d d₁) :
    ∀ line ∈ lines, (Order.ofText line).Ignores p (d₁.fresh d₂) := by
  have havoids : p.Avoids (d₁.fresh d₂) (d.listed d₁) := by
    intro id hid os hos o ho
    rw [hp id hid, Pack.get?_program] at hos
    obtain ⟨body, hbody, rfl⟩ := Option.map_eq_some_iff.mp hos
    obtain ⟨line, hline, rfl⟩ := List.mem_map.mp ho
    have hcalm := h.calm.bodies id hid body hbody line hline
    exact ⟨fun s hs => hcalm.old s hs d₂, hcalm.target⟩
  intro line hline
  have hcalm := h.calm.lines line hline
  exact ⟨d.listed d₁, havoids, fun s hs => hcalm.old s hs d₂, hcalm.target⟩

end Prepares

end Draft

/-! ## Computations -/

namespace Gen

variable {α β : Type} {d : Draft} {Q : Draft → α → Prop} {R : Draft → β → Prop}

/-- The computation writes calm lines, and its result satisfies `Q` in the draft behind it. -/
def Supplies (d : Draft) (m : Gen α) (Q : Draft → α → Prop) : Prop :=
  (∃ lines, d.Prepares lines (m.run d).2) ∧ Q (m.run d).2 (m.run d).1

/-- The same for a computation that may have no result: nothing is said if it has none. -/
def SuppliesSome (d : Draft) (m : OptionT Gen α) (Q : Draft → α → Prop) : Prop :=
  ∀ a d', m.run.run d = (some a, d') → (∃ lines, d.Prepares lines d') ∧ Q d' a

namespace Supplies

theorem pure {a : α} (h : Q d a) : Supplies d (Pure.pure a : Gen α) Q := ⟨⟨[], .refl d⟩, h⟩

theorem bind {m : Gen α} {f : α → Gen β} (hm : Supplies d m Q)
    (hf : ∀ a d₁ lines, d.Prepares lines d₁ → Q d₁ a → Supplies d₁ (f a) R) :
    Supplies d (m >>= f) R := by
  obtain ⟨⟨lines, hlines⟩, ha⟩ := hm
  obtain ⟨⟨lines', hlines'⟩, hb⟩ := hf _ _ lines hlines ha
  exact ⟨⟨_, hlines.trans hlines'⟩, hb⟩

theorem temp (hd : d.options.Plain) {purpose : String} (hp : Lettered purpose) :
    Supplies d (Gen.temp purpose) fun d' s => s.Worded ∧ d'.Old s :=
  ⟨⟨[], .temp d purpose⟩, hd.worded_temp hp _, Draft.old_draw hp⟩

theorem emit {line : String} (h : Line.Calm d d line) :
    Supplies d (Gen.emit line) fun _ _ => True := by
  rw [Supplies, run_emit]
  exact ⟨⟨[line], .write h⟩, trivial⟩

/-- The lines of a condition, and what comes behind them. -/
theorem lowered {c : Condition} {run : String} (hd : d.options.Plain) (hc : c.Settled d)
    (hjoined : Joined run) (hrun : Line.Calm d d run) {m : Gen β}
    (hm : ∀ d₁ lines, d.Prepares lines d₁ → Supplies d₁ m R) :
    Supplies d (do
      let tests ← c.lower run
      emitAll tests
      m) R := by
  have hboth : Supplies d (do
      let tests ← c.lower run
      emitAll tests) fun _ _ => True := by
    rw [Supplies, run_bind, run_emitAll]
    exact ⟨⟨_, .lowered hd hc rfl hjoined hrun⟩, trivial⟩
  rw [← bind_assoc]
  exact bind hboth fun _ d₁ lines hlines _ => hm d₁ lines hlines

end Supplies

namespace SuppliesSome

theorem some {a : α} (h : Q d a) : SuppliesSome d (Pure.pure a : OptionT Gen α) Q := by
  intro b d' hrun
  obtain ⟨hb, rfl⟩ := Prod.mk.inj hrun
  obtain rfl := Option.some.inj hb
  exact ⟨⟨[], .refl d⟩, h⟩

theorem none : SuppliesSome d (failure : OptionT Gen α) Q := by
  intro a d' hrun
  cases (Prod.mk.inj hrun).1

theorem ofOption {o : Option α} (h : ∀ a ∈ o, Q d a) :
    SuppliesSome d (OptionT.mk (Pure.pure o) : OptionT Gen α) Q := by
  intro a d' hrun
  obtain ⟨ha, rfl⟩ := Prod.mk.inj hrun
  exact ⟨⟨[], .refl d⟩, h a ha⟩

theorem lift {m : Gen α} (h : Supplies d m Q) : SuppliesSome d (liftM m : OptionT Gen α) Q := by
  intro a d' hrun
  rw [run_lift] at hrun
  obtain ⟨ha, rfl⟩ := Prod.mk.inj hrun
  obtain rfl := Option.some.inj ha
  exact h

theorem bind {m : OptionT Gen α} {f : α → OptionT Gen β} (hm : SuppliesSome d m Q)
    (hf : ∀ a d₁ lines, d.Prepares lines d₁ → Q d₁ a → SuppliesSome d₁ (f a) R) :
    SuppliesSome d (m >>= f) R := by
  intro b d' hrun
  obtain ⟨o, d₁, hfirst⟩ : ∃ o d₁, m.run.run d = (o, d₁) := ⟨_, _, rfl⟩
  cases o with
  | none =>
    rw [run_andThen_none hfirst] at hrun
    cases (Prod.mk.inj hrun).1
  | some a =>
    rw [run_andThen hfirst] at hrun
    obtain ⟨⟨lines, hlines⟩, ha⟩ := hm a d₁ hfirst
    obtain ⟨⟨lines', hlines'⟩, hb⟩ := hf a d₁ lines hlines ha b d' hrun
    exact ⟨⟨_, hlines.trans hlines'⟩, hb⟩

/-- A computation that fails in the end has no result. -/
theorem fails (m : OptionT Gen α) : SuppliesSome d (do let _ ← m; failure : OptionT Gen β) R := by
  intro b d' hrun
  obtain ⟨o, d₁, hfirst⟩ : ∃ o d₁, m.run.run d = (o, d₁) := ⟨_, _, rfl⟩
  cases o with
  | none =>
    rw [run_andThen_none hfirst] at hrun
    cases (Prod.mk.inj hrun).1
  | some a =>
    rw [run_andThen hfirst] at hrun
    cases (Prod.mk.inj hrun).1

end SuppliesSome

end Gen

/-! ## Operations -/

namespace Score

variable {d : Draft} {s t : Score} {v w : Value}

theorem supplies_modify (hd : d.options.Plain) (hs : s.Worded ∧ d.Old s) (op : Arith)
    (hv : v.Settled d) : SuppliesSome d (s.modify op v) fun _ _ => True := by
  have hoperation : ∀ {d₁ : Draft} {t : Score}, d₁.Old s → t.Worded ∧ d₁.Old t →
      Line.Calm d₁ d₁ (Line.operation s op.sign t) := fun hold ht =>
    .operation hs.1 ht.1 hold ht.2 op.isPlain_sign.isWord op.ofText?_sign
  unfold modify
  split
  · split
    · split
      · exact .lift (.emit (.add hs.1 hs.2 _))
      · exact .lift (.emit (.remove hs.1 hs.2 _))
    · refine (SuppliesSome.lift (.temp hd (by decide))).bind fun constant d₁ _ h₁ hconstant => ?_
      refine (SuppliesSome.lift (.emit (.set hconstant.1 hconstant.2 _))).bind
        fun _ d₂ _ h₂ _ => ?_
      exact .lift (.emit (hoperation (hs.2.grow (h₁.trans h₂).toGrows)
        ⟨hconstant.1, hconstant.2.grow h₂.toGrows⟩))
  · exact .lift (.emit (hoperation hs.2 hv))
  · exact .none

theorem supplies_compute (hd : d.options.Plain) (op : Arith) (hs : s.Worded ∧ d.Old s)
    (hv : v.Settled d) : SuppliesSome d (compute op s v) fun d' w => w.Settled d' := by
  refine (SuppliesSome.lift (.temp hd (by decide))).bind fun result d₁ _ h₁ hresult => ?_
  refine (SuppliesSome.lift (.emit (.operation hresult.1 hs.1 hresult.2 (hs.2.grow h₁.toGrows)
    (by decide) rfl))).bind fun _ d₂ _ h₂ _ => ?_
  have hresult₂ := And.intro hresult.1 (hresult.2.grow h₂.toGrows)
  have hd₂ : d₂.options.Plain := (h₁.trans h₂).options ▸ hd
  refine (supplies_modify hd₂ hresult₂ op (hv.grow (h₁.trans h₂).toGrows)).bind
    fun _ d₃ _ h₃ _ => ?_
  exact .some ⟨hresult.1, hresult₂.2.grow h₃.toGrows⟩

theorem supplies_opposite (hd : d.options.Plain) (hs : s.Worded ∧ d.Old s) :
    Supplies d s.opposite fun d' w => w.Settled d' := by
  refine (Supplies.temp hd (by decide)).bind fun result d₁ _ h₁ hresult => ?_
  refine (Supplies.emit (.set hresult.1 hresult.2 0)).bind fun _ d₂ _ h₂ _ => ?_
  have hresult₂ := hresult.2.grow h₂.toGrows
  refine (Supplies.emit (.operation hresult.1 hs.1 hresult₂ (hs.2.grow (h₁.trans h₂).toGrows)
    (by decide) rfl)).bind fun _ d₃ _ h₃ _ => ?_
  exact .pure ⟨hresult.1, hresult₂.grow h₃.toGrows⟩

theorem supplies_ofCondition (hd : d.options.Plain) {c : Condition} (hc : c.Settled d) :
    Supplies d (ofCondition c) fun d' s => s.Worded ∧ d'.Old s := by
  refine (Supplies.temp hd (by decide)).bind fun flag d₁ _ h₁ hflag => ?_
  refine (Supplies.emit (.set hflag.1 hflag.2 0)).bind fun _ d₂ _ h₂ _ => ?_
  have hold := hflag.2.grow h₂.toGrows
  have h₁₂ := h₁.trans h₂
  refine .lowered (h₁₂.options ▸ hd) (hc.grow h₁₂.toGrows) (Line.joined_set hflag.1 1)
    (.set hflag.1 hold 1) fun d₃ _ h₃ => ?_
  exact .pure ⟨hflag.1, hold.grow h₃.toGrows⟩

theorem supplies_store (hd : d.options.Plain) (hs : s.Worded ∧ d.Old s) (hv : v.Settled d) :
    SuppliesSome d (s.store v) fun _ _ => True := by
  have hcopy : ∀ {d₁ : Draft} {t : Score}, d₁.Old s → t.Worded ∧ d₁.Old t →
      Line.Calm d₁ d₁ (Line.operation s "=" t) := fun hold ht =>
    .operation hs.1 ht.1 hold ht.2 (by decide) rfl
  unfold store
  split
  · exact .lift (.emit (.set hs.1 hs.2 _))
  · exact .lift (.emit (.set hs.1 hs.2 _))
  · split
    · exact .some trivial
    · exact .lift (.emit (hcopy hs.2 hv))
  · refine (SuppliesSome.lift (supplies_ofCondition hd hv)).bind fun flag d₁ _ h₁ hflag => ?_
    exact .lift (.emit (hcopy (hs.2.grow h₁.toGrows) hflag))
  · exact .lift (.emit (.fetch hs.1 hs.2 hv))
  · exact .none

theorem supplies_ofValue (hd : d.options.Plain) (hv : v.Settled d) :
    SuppliesSome d (ofValue v) fun d' w => w.Settled d' := by
  have hstore : ∀ {v : Value}, v.Settled d → SuppliesSome d (do
      let constant ← liftM (Gen.temp "const")
      constant.store v
      return .score constant : OptionT Gen Value) fun d' w => w.Settled d' := by
    intro v hv
    refine (SuppliesSome.lift (.temp hd (by decide))).bind fun constant d₁ _ h₁ hconstant => ?_
    refine (supplies_store (h₁.options ▸ hd) hconstant (hv.grow h₁.toGrows)).bind
      fun _ d₂ _ h₂ _ => ?_
    exact .some ⟨hconstant.1, hconstant.2.grow h₂.toGrows⟩
  unfold ofValue
  split
  · exact (SuppliesSome.lift (supplies_ofCondition hd hv)).bind fun flag d₁ _ _ hflag =>
      .some hflag
  · exact hstore hv
  · exact hstore hv
  · exact hstore hv
  · exact .none

end Score

namespace Condition

variable {d : Draft}

theorem settled_leaf {p : Predicate} (h : p.Settled d) (negated : Bool) :
    (leaf negated p).Settled d :=
  List.forall_mem_singleton.mpr h

theorem settled_constant (d : Draft) (b : Bool) : (constant b).Settled d :=
  settled_leaf (p := .constant b) ⟨trivial, List.forall_mem_nil _⟩ false

end Condition

section Relations

variable {d : Draft} {s t : Score}

theorem settled_within (hs : s.Worded ∧ d.Old s) (negated : Bool) (range : Range) :
    (Condition.leaf negated (.within s range)).Settled d :=
  Condition.settled_leaf (p := .within s range) ⟨hs.1, List.forall_mem_singleton.mpr hs.2⟩ negated

theorem Score.settled_relateAmount (hs : s.Worded ∧ d.Old s) (r : Relation) (n : Amount) :
    (s.relateAmount r n).Settled d := by
  unfold relateAmount
  cases r with
  | gt | lt =>
    dsimp only
    split
    · exact Condition.settled_constant d false
    · exact settled_within hs _ _
  | ge | le | eq | ne => exact settled_within hs _ _

theorem Score.settled_relateScore (hs : s.Worded ∧ d.Old s) (r : Relation)
    (ht : t.Worded ∧ d.Old t) : (s.relateScore r t).Settled d := by
  have hcompare : ∀ (negated : Bool) (c : Comparison),
      (Condition.leaf negated (.compare s c t)).Settled d := fun negated c =>
    Condition.settled_leaf (p := .compare s c t) ⟨⟨hs.1, ht.1⟩,
      List.forall_mem_cons.mpr ⟨hs.2, List.forall_mem_singleton.mpr ht.2⟩⟩ negated
  unfold relateScore
  cases r <;> exact hcompare _ _

theorem Score.settled_relate? {r : Relation} {v w : Value} (hv : v.Settled d) (hw : w.Settled d)
    {c : Condition} (h : relate? r v w = some c) : c.Settled d := by
  unfold relate? at h
  split at h
  · cases h
    exact settled_relateAmount hv r _
  · cases h
    exact settled_relateScore hv r hw
  · cases h

end Relations

namespace Value

variable {d : Draft} {v w : Value}

/-- Folding gives numbers. -/
theorem settled_arith {op : Arith} {l r : Value} (h : l.arith op r = some v) : v.Settled d := by
  unfold arith at h
  split at h
  case h_7 => cases h
  case h_5 | h_6 =>
    cases h
    trivial
  all_goals
    obtain ⟨n, -, rfl⟩ := Option.map_eq_some_iff.mp h
    trivial

theorem settled_negate? (h : w.negate? = some v) : v.Settled d := by
  unfold negate? at h
  split at h <;> cases h <;> trivial

theorem settled_toInt? (h : w.toInt? = some v) : v.Settled d := by
  unfold toInt? at h
  split at h <;> cases h <;> trivial

theorem settled_toLong? (h : w.toLong? = some v) : v.Settled d := by
  unfold toLong? at h
  split at h <;> cases h <;> trivial

theorem settled_toSingle? (h : w.toSingle? = some v) : v.Settled d := by
  unfold toSingle? at h
  split at h <;> cases h <;> trivial

theorem settled_toDouble? (h : w.toDouble? = some v) : v.Settled d := by
  unfold toDouble? at h
  split at h <;> cases h <;> trivial

theorem settled_condition? (hw : w.Settled d) {c : Condition} (h : w.condition? = some c) :
    c.Settled d := by
  unfold condition? at h
  split at h
  · cases h
    exact hw
  · cases h
    exact Condition.settled_constant d _
  · cases h

theorem settled_toCondition? (hw : w.Settled d) (h : w.toCondition? = some v) : v.Settled d := by
  unfold toCondition? at h
  split at h <;> cases h
  · exact Condition.settled_constant d _
  · exact settled_within hw _ _
  · exact Condition.settled_leaf (p := .entity _) ⟨hw, List.forall_mem_nil _⟩ _
  · exact Condition.settled_leaf (p := .data _) ⟨hw, List.forall_mem_nil _⟩ _

end Value

theorem BinaryRule.supplies_apply {d : Draft} (hd : d.options.Plain) (rule : BinaryRule)
    {l r : Value} (hl : l.Settled d) (hr : r.Settled d) :
    SuppliesSome d (rule.apply l r) fun d' v => v.Settled d' := by
  have hrelate : ∀ {relation : Relation} {v w : Value}, v.Settled d → w.Settled d →
      SuppliesSome d (OptionT.mk (return (Score.relate? relation v w).map .condition) :
        OptionT Gen Value) fun d' v => v.Settled d' := by
    intro relation v w hv hw
    refine .ofOption fun u hu => ?_
    obtain ⟨c, hc, rfl⟩ := Option.map_eq_some_iff.mp hu
    exact Score.settled_relate? hv hw hc
  unfold apply
  split
  case h_1 => exact .ofOption fun v hv => Value.settled_arith hv
  case h_2 =>
    refine .ofOption fun v hv => ?_
    obtain ⟨b, -, rfl⟩ := Option.map_eq_some_iff.mp hv
    trivial
  case h_3 | h_4 | h_5 | h_6 => exact .some trivial
  case h_7 =>
    split
    · rename_i a b ha hb
      exact .some (Condition.forall_and (l.settled_condition? hl ha) (r.settled_condition? hr hb))
    · exact .none
  case h_8 =>
    split
    · rename_i a b ha hb
      exact .some (Condition.forall_or (l.settled_condition? hl ha) (r.settled_condition? hr hb))
    · exact .none
  case h_9 => exact hrelate hl hr
  case h_10 => exact hrelate hr hl
  case h_11 => exact .some (settled_within hl false _)
  case h_12 => exact Score.supplies_compute hd _ hl hr
  case h_13 => exact Score.supplies_compute hd _ hr hl
  case h_14 | h_15 => exact .fails _
  case h_16 => exact .none

theorem UnaryRule.supplies_apply {d : Draft} (hd : d.options.Plain) (rule : UnaryRule) {v : Value}
    (hv : v.Settled d) : SuppliesSome d (rule.apply v) fun d' w => w.Settled d' := by
  unfold apply
  split
  · exact .ofOption fun w hw => Value.settled_negate? hw
  · exact .some trivial
  · exact .some (Condition.forall_negate hv)
  · exact .lift (Score.supplies_opposite hd hv)
  · exact .none

theorem Cast.supplies_apply {d : Draft} (hd : d.options.Plain) (c : Cast) {v : Value}
    (hv : v.Settled d) : SuppliesSome d (c.apply v) fun d' w => w.Settled d' := by
  unfold apply
  split
  · exact .ofOption fun w hw => Value.settled_toInt? hw
  · exact .ofOption fun w hw => Value.settled_toLong? hw
  · exact .ofOption fun w hw => Value.settled_toSingle? hw
  · exact .ofOption fun w hw => Value.settled_toDouble? hw
  · exact .some trivial
  · exact .some trivial
  · exact .some trivial
  · exact .ofOption fun w hw => Value.settled_toCondition? hv hw
  · exact Score.supplies_ofValue hd hv
  · exact .none

theorem MemberRule.supplies_apply {d : Draft} (rule : MemberRule) {v : Value} (hv : v.Settled d)
    {name : String} (hname : IsWord name) :
    SuppliesSome d (rule.apply v name) fun d' w => w.Settled d' := by
  have hint : ∀ {o : Option Amount}, SuppliesSome d
      (OptionT.mk (return o.map .int) : OptionT Gen Value) fun d' w => w.Settled d' := by
    intro o
    refine .ofOption fun w hw => ?_
    obtain ⟨n, -, rfl⟩ := Option.map_eq_some_iff.mp hw
    trivial
  unfold apply
  split
  · exact .some ⟨⟨hv, hname⟩, Draft.old_selector d _ name⟩
  · exact .fails _
  · exact hint
  · exact hint
  · exact hint
  · exact .some trivial
  · exact .none

/-! ## Expressions -/

namespace Expr

/-- Literals are constant, and the names in the node are words. -/
def WordedNode : Expr → Prop
  | literal _ v => v.Fixed
  | member _ _ x _ _ => IsWord x
  | dataPath _ _ path => IsWord path
  | _ => True

instance : DecidablePred WordedNode := fun e => by
  cases e <;> unfold WordedNode <;> infer_instance

/-- Literals in the expression are constant, and the names in it are words. -/
def Worded (e : Expr) : Prop := ∀ p : Expr, p.Part e → p.WordedNode

instance (e : Expr) : Decidable e.Worded :=
  inferInstanceAs (Decidable (∀ p : Expr, p.Part e → p.WordedNode))

theorem Worded.node {e : Expr} (h : e.Worded) : e.WordedNode := h e .self

theorem Worded.child {e c : Expr} (h : e.Worded) (hc : c ∈ e.children) : c.Worded :=
  fun p hp => h p (.child hc hp)

mutual

/-- **Expressions** come to settled values over calm lines. -/
theorem supplies_generate : ∀ (e : Expr), e.Worded → ∀ {d : Draft}, d.Settled →
    SuppliesSome d e.generate fun d' v => v.Settled d'
  | .literal _ v, h, _, _ => .some (Value.Fixed.settled h.node _)
  | .name _ x, _, d, hd => .ofOption fun v hv => hd.bound x v hv
  | .binary _ _ l r none, _, _, _ => .none
  | .binary _ _ l r (some o), h, d, hd =>
    (supplies_generate l (h.child (by simp [children])) hd).bind fun _ d₁ _ h₁ hleft =>
      have hd₁ := hd.grow h₁.toGrows h₁.scopes_eq
      (supplies_generate r (h.child (by simp [children])) hd₁).bind fun _ _ _ h₂ hright =>
        o.rule.supplies_apply (h₂.options ▸ hd₁.plain) (hleft.grow h₂.toGrows) hright
  | .unary _ _ e none, _, _, _ => .none
  | .unary _ _ e (some o), h, d, hd =>
    (supplies_generate e (h.child (by simp [children])) hd).bind fun _ _ _ h₁ hv =>
      o.rule.supplies_apply (h₁.options ▸ hd.plain) hv
  | .cast _ e c, h, d, hd =>
    (supplies_generate e (h.child (by simp [children])) hd).bind fun _ _ _ h₁ hv =>
      c.supplies_apply (h₁.options ▸ hd.plain) hv
  | .range _ l r, h, _, hd =>
    (supplies_generateBound l (fun e he => h.child (by simp_all [children])) hd).bind
      fun _ _ _ h₁ _ => (supplies_generateBound r (fun e he => h.child (by simp_all [children]))
        (hd.grow h₁.toGrows h₁.scopes_eq)).bind fun _ _ _ _ _ => .some trivial
  | .list _ es, h, d, hd =>
    (supplies_generateAll es (fun e he => h.child he) hd).bind fun _ _ _ _ _ => .some trivial
  | .compound _ es, h, d, hd =>
    (supplies_generateEntries es (fun e he => h.child (List.mem_map_of_mem he)) hd).bind
      fun _ _ _ _ _ => .some trivial
  | .member _ e x m as, h, d, hd =>
    (supplies_generate e (h.child (by simp [children])) hd).bind fun _ d₁ _ h₁ hv =>
      (supplies_generateAll as (fun a ha => h.child (List.mem_cons_of_mem _ ha))
        (hd.grow h₁.toGrows h₁.scopes_eq)).bind fun _ _ _ h₂ _ =>
          m.rule.supplies_apply (hv.grow h₂.toGrows) h.node
  | .dataPath _ e path, h, d, hd =>
    (supplies_generate e (h.child (by simp [children])) hd).bind fun v _ _ _ hv => by
      split
      · exact .some ⟨hv, h.node⟩
      · exact .none
  | .variant _ _ _, _, _, _ => .some trivial
  | .call _ target, _, d, _ => by
    intro v d' hrun
    cases (Prod.mk.inj hrun).1
  | .error _, _, _, _ => .none

theorem supplies_generateAll : ∀ (es : List Expr), (∀ e ∈ es, e.Worded) → ∀ {d : Draft}, d.Settled →
    SuppliesSome d (generateAll es) fun _ _ => True
  | [], _, _, _ => .some trivial
  | e :: es, h, _, hd =>
    (supplies_generate e (List.forall_mem_cons.mp h).1 hd).bind fun _ _ _ h₁ _ =>
      (supplies_generateAll es (List.forall_mem_cons.mp h).2
        (hd.grow h₁.toGrows h₁.scopes_eq)).bind fun _ _ _ _ _ => .some trivial

theorem supplies_generateEntries : ∀ (es : List (String × Expr)), (∀ e ∈ es, e.2.Worded) →
    ∀ {d : Draft}, d.Settled → SuppliesSome d (generateEntries es) fun _ _ => True
  | [], _, _, _ => .some trivial
  | (_, e) :: es, h, _, hd =>
    (supplies_generate e (List.forall_mem_cons.mp h).1 hd).bind fun _ _ _ h₁ _ =>
      (supplies_generateEntries es (List.forall_mem_cons.mp h).2
        (hd.grow h₁.toGrows h₁.scopes_eq)).bind fun _ _ _ _ _ => .some trivial

theorem supplies_generateBound : ∀ (e : Option Expr), (∀ c ∈ e, c.Worded) → ∀ {d : Draft},
    d.Settled → SuppliesSome d (generateBound e) fun _ _ => True
  | none, _, _, _ => .some trivial
  | some e, h, d, hd => (supplies_generate e (h e rfl) hd).bind fun v _ _ _ _ => by
    split
    · exact .some trivial
    · exact .none

end

/-- **Conditions** are settled, and the lines in front of them are calm. -/
theorem supplies_generateCondition {e : Expr} (he : e.Worded) {d : Draft} (hd : d.Settled) :
    SuppliesSome d e.generateCondition fun d' c => c.Settled d' := by
  refine (supplies_generate e he hd).bind fun v d₁ _ h₁ hv => ?_
  split
  · exact .some hv
  · exact .some (Condition.settled_constant d₁ _)
  · split
    · exact .none
    · rename_i c _
      refine (c.supplies_apply (h₁.options ▸ hd.plain) hv).bind fun w _ _ _ hw => ?_
      split
      · exact .some hw
      · exact .none

end Expr

/-! ## Statements -/

namespace Draft.Settled

variable {α : Type} {d : Draft}

/-- The draft of an empty pack binds no name. -/
theorem empty {options : Options} (h : options.Plain) : (Draft.empty options).Settled :=
  ⟨h, fun _ _ hv => absurd hv (by simp [Draft.empty, Draft.lookup?, Table.get?])⟩

theorem pushFrame (h : d.Settled) : d.pushFrame.Settled := ⟨h.plain, h.bound⟩

theorem pushScope (h : d.Settled) : d.pushScope.Settled := by
  refine ⟨h.plain, fun x v hv => ?_⟩
  exact h.bound x v hv

theorem bind (h : d.Settled) (x : String) {v : Value} (hv : v.Settled d) :
    (d.bind x v).Settled := by
  have hg := Grows.bind d x v
  refine ⟨hg.options ▸ h.plain, fun y u hu => ?_⟩
  by_cases hscopes : d.scopes = []
  · rw [Draft.bind, hscopes] at hu
    exact (h.bound y u hu).grow hg
  · rw [lookup?_bind hscopes] at hu
    split at hu
    · exact Option.some.inj hu ▸ hv.grow hg
    · exact (h.bound y u hu).grow hg

/-- What writes lines and binds no name leaves names settled. -/
theorem run (h : d.Settled) {m : Gen α} (hgrows : Gen.Grows m) (hkeeps : Gen.Keeps m) :
    (m.run d).2.Settled := by
  obtain ⟨lines, hlines⟩ := hgrows d
  exact h.grow hlines (hkeeps d)

end Draft.Settled

/-- A new variable, with the lines that give it its first value. -/
theorem Draft.Settled.declaration {d : Draft} (hd : d.Settled) {x : String}
    (hx : ∀ c ∈ x.toList, isInner c = true) {f : Score → Gen Unit} (hgrows : ∀ s, Gen.Grows (f s))
    (hkeeps : ∀ s, Gen.Keeps (f s)) :
    ((do
      let score ← newVariable x
      f score
      Gen.bind x (.score score)).run d).2.Settled := by
  obtain ⟨s, d₁, hnew⟩ : ∃ s d₁, (newVariable x).run d = (s, d₁) := ⟨_, _, rfl⟩
  obtain ⟨hvar, hplain, -⟩ := newVariable_spec hx hd.plain hnew
  have hd₁ : d₁.Settled := by
    have hrun := hd.run (Silent.newVariable x).grows (Silent.newVariable x).scopes
    rw [hnew] at hrun
    exact hrun
  rw [run_bind, hnew]
  exact (hd₁.run (hgrows s) (hkeeps s)).bind x ⟨hplain.worded, old_of_isVariable hvar⟩

namespace Stmt

/-- What the statement binds a name to has words for names. -/
def BindsWords : Stmt → Prop
  | letBinding _ _ e => e.Worded
  | var _ x _ _ => ∀ c ∈ x.name.toList, isInner c = true
  | _ => True

/-- **Statements** leave names settled. -/
theorem settled_generate {t : Stmt} (hflat : t.flat = true) (ht : t.BindsWords) {d : Draft}
    (hd : d.Settled) : (t.generate.run d).2.Settled := by
  have hvalue : ∀ e : Expr, (e.generate.run.run d).2.Settled := fun e =>
    hd.run (Grows.writes.generate e) (Keeps.writes.generate e)
  cases hbinds : t.binds with
  | false => exact hd.run (Grows.makes.branch t (names_of_flat hflat)) (keeps_generate hbinds)
  | true =>
    cases t with
    | letBinding span x e =>
      obtain ⟨o, d₁, hrun⟩ : ∃ o d₁, e.generate.run.run d = (o, d₁) := ⟨_, _, rfl⟩
      have hd₁ := hvalue e
      rw [hrun] at hd₁
      rw [generate, run_bind, hrun]
      cases o with
      | none => exact hd₁
      | some v => exact hd₁.bind x.name (e.supplies_generate ht hd v d₁ hrun).2
    | var span x e o =>
      have hplain := fun {d : Draft} (hd : d.Settled) => hd.declaration ht (f := fun _ => pure ())
        (fun _ => .pure ()) fun _ => .pure ()
      cases e with
      | none => exact hplain hd
      | some e =>
        have hd₁ := hvalue e
        rw [generate, run_bind]
        cases (e.generate.run.run d).1 with
        | none => exact hplain hd₁
        | some v =>
          cases o with
          | none => exact hplain hd₁
          | some o =>
            exact hd₁.declaration ht
              (fun s => Grows.writes.discard (Grows.writes.binary o.rule _ v))
              fun s => Keeps.writes.discard (Keeps.writes.binary o.rule _ v)
    | _ => cases hbinds

end Stmt

end Packwright
