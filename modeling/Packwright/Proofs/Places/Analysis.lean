import Packwright.Analysis
import Packwright.Proofs.Places.Trees

/-!
# Places are sound

All that `analyze` says about a source is about places in it: the spans of the tree, of the
diagnostics and of the suggestions start and end where characters do, and a node of the tree lies
around the nodes inside it.

* `Expr.Placed.check`, `Stmt.Placed.check`: the check of a tree reports places of its nodes.
* `analyze_placed`: whole sources.
-/

namespace Packwright

variable {source : String}

/-! ## Checks -/

namespace Report.Fits

theorem single {span : Span} (hspan : span.Fits source) (issue : Issue) (candidates : List String) :
    (Report.single issue span candidates).Fits source :=
  (empty.add hspan).suggest hspan candidates

theorem ite {c : Prop} [Decidable c] {r r' : Report} (h : c → r.Fits source)
    (h' : ¬ c → r'.Fits source) : (if c then r else r').Fits source := by
  split
  · exact h ‹c›
  · exact h' ‹¬ c›

theorem foldl : ∀ {rs : List Report} {r : Report}, r.Fits source → (∀ r' ∈ rs, r'.Fits source) →
    (rs.foldl Report.append r).Fits source
  | [], _, h, _ => h
  | r' :: rs, r, h, hrs => by
    obtain ⟨hfirst, hrs⟩ := List.forall_mem_cons.mp hrs
    rw [List.foldl_cons]
    exact foldl (h.append hfirst) hrs

end Report.Fits

namespace Context

variable {span : Span} (hspan : span.Fits source) (c : Context)

include hspan

theorem checkId_fits (registry what : String) (id : ResourceId) :
    (c.checkId registry what id span).Fits source :=
  .ite (fun _ => .single hspan _ _) fun _ => .empty

theorem checkKey_fits (schema : Table String Kind) (id : ResourceId) (key : String) (kind : Kind) :
    (checkKey schema id span key kind).Fits source := by
  unfold checkKey
  split
  · exact .single hspan _ _
  · exact .ite (fun _ => .single hspan _ _) fun _ => .empty

theorem checkKeys_fits (registry : String) (id : ResourceId) (keys : List (String × Kind)) :
    (c.checkKeys registry id span keys).Fits source := by
  unfold checkKeys
  split
  · exact .empty
  · exact .foldl .empty (List.forall_mem_map.mpr fun _ _ => checkKey_fits hspan _ id _ _)

theorem checkItem_fits (id : ResourceId) (data : Option (List (String × Value))) :
    (c.checkItem id data span).Fits source := by
  refine (checkId_fits hspan c _ _ id).append ?_
  split
  · exact .empty
  · exact checkKeys_fits hspan c _ id _

theorem checkVariant_fits (enum name : String) : (c.checkVariant enum name span).Fits source := by
  unfold checkVariant
  split
  · exact .single hspan _ _
  · exact .ite (fun _ => .empty) fun _ => .single hspan _ _

theorem checkCall_fits (name : String) : (c.checkCall name span).Fits source :=
  .ite (fun _ => .empty) fun _ => .single hspan _ _

theorem declare_fits (name : String) : (c.declare name span).1.Fits source := by
  unfold declare
  split
  · split
    · exact Report.Fits.single hspan (.duplicateVariable name) []
    · exact .empty
  · exact .empty

end Context

namespace Expr

variable {c : Context} {e : Expr}

theorem checkOption_fits {o : Option Expr} (h : ∀ e ∈ o, (e.check c).Fits source) :
    (checkOption c o).Fits source := by
  cases o with
  | none => exact .empty
  | some e => exact h e rfl

theorem checkAll_fits : ∀ {es : List Expr}, (∀ e ∈ es, (e.check c).Fits source) →
    (checkAll c es).Fits source
  | [], _ => .empty
  | _ :: _, h => by
    obtain ⟨he, hes⟩ := List.forall_mem_cons.mp h
    exact he.append (checkAll_fits hes)

theorem checkEntries_fits : ∀ {es : List (String × Expr)},
    (∀ e ∈ es.map Prod.snd, (e.check c).Fits source) → (checkEntries c es).Fits source
  | [], _ => .empty
  | _ :: _, h => by
    obtain ⟨he, hes⟩ := List.forall_mem_cons.mp h
    exact he.append (checkEntries_fits hes)

/-- **Checks of expressions** report places of nodes. -/
theorem Placed.check (h : e.Placed source) (c : Context) : (e.check c).Fits source := by
  induction e using induction_children with
  | h e ih =>
    have hchild : ∀ d ∈ e.children, (d.check c).Fits source := fun d hd => ih d hd (h.child hd)
    have hfits := h.fits
    cases e with
    | literal i v =>
      cases v with
      | item id data => exact Context.checkItem_fits hfits c id data
      | _ => exact .empty
    | name i n =>
      rw [Expr.check]
      exact .ite (fun _ => .empty) fun _ => .single hfits _ _
    | binary i op l r o =>
      exact (hchild l (by simp [children])).append (hchild r (by simp [children]))
    | unary i op e o => exact hchild e (by simp [children])
    | cast i e k =>
      refine (hchild e (by simp [children])).append ?_
      split
      · exact Context.checkItem_fits (h.child (c := _) List.mem_cons_self).fits c _ none
      · exact .empty
    | range i l u =>
      refine .append (checkOption_fits fun e he => hchild e ?_)
        (checkOption_fits fun e he => hchild e ?_)
      · exact List.mem_append_left _ (Option.mem_toList.mpr he)
      · exact List.mem_append_right _ (Option.mem_toList.mpr he)
    | list i es => exact checkAll_fits hchild
    | compound i es => exact checkEntries_fits hchild
    | member i e n m as =>
      obtain ⟨he, has⟩ := List.forall_mem_cons.mp hchild
      exact he.append (checkAll_fits has)
    | dataPath i e path => exact hchild e (by simp [children])
    | variant i enum n => exact Context.checkVariant_fits hfits c enum n
    | call i target =>
      cases target with
      | here n => exact Context.checkCall_fits hfits c n
      | elsewhere id => exact .empty
    | error i => exact .empty

theorem Placed.checkCondition (h : e.Placed source) (c : Context) :
    (e.checkCondition c).Fits source :=
  (h.check c).append (.ite (fun _ => .single h.fits _ _) fun _ => .empty)

end Expr

theorem Context.declareGlobal_fits (c : Context) {declared : Declared}
    (hspan : declared.span.Fits source) (kind : GlobalKind) :
    (c.declareGlobal declared kind).1.Fits source := by
  unfold declareGlobal
  split
  · rename_i other _
    exact Report.Fits.single hspan (.alreadyDeclared declared.name other) []
  · exact .empty

theorem Context.checkEntity_fits (c : Context) {entity : Expr} (hentity : entity.Placed source)
    {data : Option Expr} (hdata : ∀ e ∈ data, e.Placed source) :
    (c.checkEntity entity data).Fits source := by
  unfold checkEntity
  split
  · exact .empty
  · refine (checkId_fits hentity.fits c _ _ _).append ?_
    cases data with
    | none => exact .empty
    | some e =>
      simp only
      split
      · exact checkKeys_fits (hdata e rfl).fits c _ _ _
      · exact .empty

theorem Command.check_fits {command : Command} (h : ∀ e ∈ command.operands, e.Placed source)
    (c : Context) : (command.check c).Fits source := by
  have hcheck : ∀ e ∈ command.operands, (e.check c).Fits source := fun e he => (h e he).check c
  cases command with
  | say e | raw e | tag e _ _ => exact hcheck e List.mem_cons_self
  | tellraw target parts =>
    obtain ⟨htarget, hparts⟩ := List.forall_mem_cons.mp hcheck
    exact htarget.append (Expr.checkAll_fits hparts)
  | give target item count =>
    obtain ⟨htarget, hrest⟩ := List.forall_mem_cons.mp hcheck
    obtain ⟨hitem, hcount⟩ := List.forall_mem_cons.mp hrest
    refine (htarget.append hitem).append (Expr.checkOption_fits fun e he => hcount e ?_)
    exact Option.mem_toList.mpr he
  | kill target => exact Expr.checkOption_fits fun e he => hcheck e (Option.mem_toList.mpr he)
  | summon entity data =>
    obtain ⟨hentity, hdata⟩ := List.forall_mem_cons.mp h
    have hdata' : ∀ e ∈ data, e.Placed source := fun e he => hdata e (Option.mem_toList.mpr he)
    refine ((hentity.check c).append ?_).append (c.checkEntity_fits hentity hdata')
    exact Expr.checkOption_fits fun e he => (hdata' e he).check c

theorem Annotation.check_fits {a : Annotation} (h : a.span.Fits source) : a.check.Fits source :=
  .ite (fun _ => .empty) fun _ => .single h _ _

theorem Stmt.Placed.child {t u : Stmt} (h : t.Placed source) (hu : u ∈ t.children) :
    u.Placed source :=
  fun p hp => h p (.child hu hp)

mutual

/-- **Checks of statements** report places of nodes, names and annotations. -/
theorem Stmt.Placed.check : ∀ {t : Stmt}, t.Placed source → ∀ c : Context,
    (t.check c).1.Fits source
  | .letBinding _ declared value, h, c => by
    obtain ⟨-, hmarks, hoperands, -⟩ := h _ .self
    have hvalue := (hoperands value List.mem_cons_self).1
    exact (hvalue.check c).append (Context.declare_fits (hmarks _ List.mem_cons_self) c _)
  | .var _ declared value _, h, c => by
    obtain ⟨-, hmarks, hoperands, -⟩ := h _ .self
    refine .append (Expr.checkOption_fits fun e he => ?_)
      (Context.declare_fits (hmarks _ List.mem_cons_self) c _)
    exact (hoperands e (Option.mem_toList.mpr he)).1.check c
  | .assign _ target _ value _, h, c => by
    obtain ⟨-, -, hoperands, -⟩ := h _ .self
    obtain ⟨htarget, hrest⟩ := List.forall_mem_cons.mp hoperands
    have hvalue := (hrest value List.mem_cons_self).1
    exact ((htarget.1.check c).append (hvalue.check c)).append
      (.ite (fun _ => .single htarget.1.fits _ _) fun _ => .empty)
  | .expr _ e, h, c => ((h _ .self).operands e List.mem_cons_self).1.check c
  | .block _ body, h, c => checkBody_fits (fun t ht => h.child ht) c.enter
  | .ifElse _ e t none, h, c => by
    have he := ((h _ .self).operands e List.mem_cons_self).1
    have ht : t.Placed source := h.child List.mem_cons_self
    exact (he.checkCondition c).append (ht.check c.enter)
  | .ifElse _ e t (some u), h, c => by
    have he := ((h _ .self).operands e List.mem_cons_self).1
    have ht : t.Placed source := h.child List.mem_cons_self
    have hu : u.Placed source := h.child (List.mem_cons_of_mem _ List.mem_cons_self)
    exact ((he.checkCondition c).append (ht.check c.enter)).append (hu.check c.enter)
  | .while _ e t, h, c => by
    have he := ((h _ .self).operands e List.mem_cons_self).1
    have ht : t.Placed source := h.child List.mem_cons_self
    exact (he.checkCondition c).append (ht.check c.enter)
  | .function _ declared annotations body, h, c => by
    obtain ⟨-, hmarks, -, -⟩ := h _ .self
    have hnotes := List.forall_mem_map.mp (List.forall_mem_cons.mp hmarks).2
    refine .append (.foldl .empty (List.forall_mem_map.mpr fun a ha => ?_))
      (checkBody_fits (fun t ht => h.child ht) c.enterFunction)
    exact Annotation.check_fits (hnotes a ha)
  | .enum _ _ _, _, _ => .empty
  | .context _ _ e t, h, c => by
    have he := ((h _ .self).operands e List.mem_cons_self).1
    have ht : t.Placed source := h.child List.mem_cons_self
    exact (he.check c).append (ht.check c.enter)
  | .command _ command, h, c =>
    Command.check_fits (fun e he => ((h _ .self).operands e he).1) c
  | .return _, h, c => .ite (fun _ => .empty) fun _ => .single (h _ .self).fits _ _
  | .error _, _, _ => .empty

theorem checkBody_fits : ∀ {ts : List Stmt}, (∀ t ∈ ts, t.Placed source) → ∀ c : Context,
    (checkBody c ts).Fits source
  | [], _, _ => .empty
  | t :: ts, h, c => by
    obtain ⟨ht, hts⟩ := List.forall_mem_cons.mp h
    exact (ht.check c).append (checkBody_fits hts _)

end

theorem Context.declareGlobals_fits : ∀ {ts : List Stmt}, (∀ t ∈ ts, t.Placed source) →
    ∀ c : Context, (c.declareGlobals ts).1.Fits source
  | [], _, _ => .empty
  | t :: ts, h, c => by
    obtain ⟨ht, hts⟩ := List.forall_mem_cons.mp h
    have hmarks := (ht _ .self).marks
    cases t with
    | function _ declared _ _ =>
      have hfirst := c.declareGlobal_fits (hmarks _ List.mem_cons_self) .function
      exact hfirst.append (declareGlobals_fits hts _)
    | enum _ declared variants =>
      have hfirst := (c.declareVariants declared.name variants).declareGlobal_fits
        (hmarks _ List.mem_cons_self) .enumeration
      exact hfirst.append (declareGlobals_fits hts _)
    | _ => exact Report.Fits.empty.append (declareGlobals_fits hts _)

theorem Script.check_fits {script : Script} (h : ∀ t ∈ script.body, t.Placed source)
    (registry : Registry) : (script.check registry).Fits source :=
  (Context.declareGlobals_fits h _).append (checkBody_fits h _)

/-- **Places are sound**: in the tree of any source, the spans of all statements and expressions
start and end where characters of the source do and lie around the spans of the statements and
expressions inside them, also where something could not be read; and so do the spans of the names
that are declared, of the annotations, and of all that is found wrong or suggested. -/
theorem analyze_placed (source : String) (registry : Registry) :
    (∀ t, (analyze source registry).1.Contains t → t.PlacedNode source) ∧
      (∀ d ∈ (analyze source registry).2.diagnostics, d.span.Fits source) ∧
      ∀ g ∈ (analyze source registry).2.suggestions, g.span.Fits source := by
  have hzero : (Span.mk 0 0).Covers source.toList [] := ⟨[], source.toList, rfl, rfl, rfl⟩
  obtain ⟨hbody, hreport⟩ := parseScript_placed (tokenize_row source) hzero.fits
  have htokens : Report.Fits source ⟨(tokenize source).2, []⟩ := by
    refine ⟨fun d hd => ?_, List.forall_mem_nil _⟩
    obtain ⟨cs, hcovers⟩ := tokenize_places source d hd
    exact hcovers.fits
  have hall : (analyze source registry).2.Fits source :=
    (htokens.append hreport).append (Script.check_fits hbody registry)
  refine ⟨?_, hall.diagnostics, hall.suggestions⟩
  rintro t ⟨u, hu, ht⟩
  exact hbody u hu t ht

end Packwright
