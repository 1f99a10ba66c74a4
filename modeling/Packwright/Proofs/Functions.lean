import Packwright.Proofs.Core.Finish
import Packwright.Proofs.Fresh
import Packwright.Proofs.Parsing.Sourced

/-!
# The functions of several sources

Sources that are compiled together share one space.  Within a source the name of a function is
declared once, or that is reported; a function of a later source takes the place of an earlier one
of its name.

* `Gen.Spares.makes`: generation changes the list of a function only where it comes to one of its
  name.
* `Context.nodup_of_declareGlobals`: in a source without errors the names of functions are
  different.
* `compileAll_function`: the last function of a name is in the finished pack.
-/

namespace Packwright

open Gen

/-! ## Lists of other names -/

/-- The list of the function `x` is in both drafts the same, and issues are kept. -/
structure Draft.Spares (x : String) (d d' : Draft) : Prop where
  options : d'.options = d.options
  kept : d'.pack.function? ⟨d.options.space, x⟩ = d.pack.function? ⟨d.options.space, x⟩
  issues : d.issues ⊆ d'.issues

theorem Draft.Spares.refl (x : String) (d : Draft) : d.Spares x d := ⟨rfl, rfl, fun _ h => h⟩

theorem Draft.Spares.trans {x : String} {d d₁ d₂ : Draft} (h : d.Spares x d₁)
    (h' : d₁.Spares x d₂) : d.Spares x d₂ := by
  refine ⟨h'.options.trans h.options, ?_, fun _ hi => h'.issues (h.issues hi)⟩
  have hkept := h'.kept
  rw [h.options] at hkept
  exact hkept.trans h.kept

namespace Gen

variable {α β : Type} {x : String}

/-- The computation leaves the list of the function `x` as it is, and takes no issue back. -/
def Spares (x : String) (m : Gen α) : Prop := ∀ d : Draft, d.Spares x (m.run d).2

namespace Spares

theorem pure (a : α) : Spares x (Pure.pure a : Gen α) := .refl x

theorem bind {m : Gen α} {f : α → Gen β} (hm : Spares x m) (hf : ∀ a, Spares x (f a)) :
    Spares x (m >>= f) := fun d => (hm d).trans (hf (m.run d).1 (m.run d).2)

/-- A list goes under another id. -/
theorem addFunction {id : ResourceId} (hid : id.path ≠ x) (lines : List String) :
    Spares x (Gen.addFunction id lines) := by
  intro d
  refine ⟨rfl, Table.get?_put_of_ne _ _ ?_, fun _ h => h⟩
  rintro rfl
  exact hid rfl

/-- A list of its own goes under an id that is not that of a function. -/
theorem reserve (hx : isIdentifier x = true) (purpose : String) {f : ResourceId → Gen α}
    (hf : ∀ id, id.path ≠ x → Spares x (f id)) : Spares x (Gen.reserve purpose >>= f) := by
  intro d
  have hdraw : d.Spares x (d.draw (.list purpose)) := ⟨rfl, rfl, fun _ h => h⟩
  exact hdraw.trans (hf _ (Options.list_path_ne d.options purpose _ hx) _)

theorem emit (line : String) : Spares x (Gen.emit line) := by
  intro d
  rw [run_emit]
  exact ⟨rfl, rfl, fun _ h => h⟩

theorem capture {m : Gen α} (h : Spares x m) : Spares x (Gen.capture m) := fun d =>
  ⟨(h d.pushFrame).options, (h d.pushFrame).kept, (h d.pushFrame).issues⟩

theorem inScope {m : Gen α} (h : Spares x m) : Spares x (Gen.inScope m) := fun d =>
  ⟨(h d.pushScope).options, (h d.pushScope).kept, (h d.pushScope).issues⟩

theorem writes (hx : isIdentifier x = true) : Writes (Spares x) where
  pure := .pure
  bind := .bind
  temp _ _ := ⟨rfl, rfl, fun _ h => h⟩
  synthesize {purpose} _ lines := reserve hx purpose fun _ hid =>
    (addFunction hid lines).bind fun _ => .pure _
  read _ _ := .refl x
  emit := .emit
  complain _ _ _ := ⟨rfl, rfl, List.subset_append_left _ _⟩

theorem loop (hx : isIdentifier x = true) {condition : Gen (Option Condition)} {body : Gen Unit}
    (hcondition : Spares x condition) (hbody : Spares x body) :
    Spares x (generateLoop condition body) := by
  refine reserve hx _ fun id hid => hcondition.capture.bind fun result => ?_
  split
  · exact .pure _
  · rename_i c setup
    have hwrites := writes hx
    exact bind (hwrites.lower c _) fun guard => hbody.capture.bind fun _ =>
      (addFunction hid _).bind fun _ =>
        bind (hwrites.emitAll setup) fun _ => hwrites.emitAll guard

theorem addTagged {id : ResourceId} (hid : id.path ≠ x) (annotations : List Annotation)
    (lines : List String) : Spares x (Packwright.addTagged id annotations lines) := by
  refine (addFunction hid lines).bind fun _ d => ⟨rfl, ?_, fun _ h => h⟩
  exact congrArg (Table.get? · _) (Pack.functions_foldl_addTag id _ d.pack)

theorem function {y : Declared} {annotations : List Annotation} {body : Gen Unit}
    (hy : y.name ≠ x) (hbody : Spares x body) : Spares x (generateFunction y annotations body) := by
  have hget : Spares x (MonadState.get : Gen Draft) := .refl x
  refine hget.bind fun d => ?_
  dsimp only
  split
  · exact fun _ => ⟨rfl, rfl, List.subset_append_left _ _⟩
  · exact hbody.capture.bind fun _ => addTagged hy _ _

/-- **All of generation** leaves the list of `x` as it is, if no function of that name is
declared. -/
theorem makes (hx : isIdentifier x = true) : Makes (Spares x) (Spares x) (· ≠ x) where
  toWrites := writes hx
  weaken h := h
  andThen := .bind
  newVariable y d := by
    rw [run_newVariable]
    split <;> exact ⟨rfl, rfl, fun _ h => h⟩
  declare y v d := by
    show d.Spares x (d.bind y v)
    unfold Draft.bind
    split <;> exact ⟨rfl, rfl, fun _ h => h⟩
  capture := .capture
  inScope := .inScope
  loop := .loop hx
  function := .function

end Spares

end Gen

/-! ## Names of one source -/

/-- The name of a function. -/
def Stmt.functionName? : Stmt → Option String
  | function _ x _ _ => some x.name
  | _ => none

theorem Stmt.eq_function_of_functionName? {t : Stmt} {x : String} (h : t.functionName? = some x) :
    ∃ span y annotations body, t = .function span y annotations body ∧ y.name = x := by
  cases t with
  | function span y annotations body => exact ⟨span, y, annotations, body, rfl, Option.some.inj h⟩
  | _ => cases h

/-- A function of the name is declared somewhere in the script. -/
def Script.Declares (s : Script) (x : String) : Prop :=
  ∃ span y annotations body, s.Contains (.function span y annotations body) ∧ y.name = x

namespace Context

theorem declareGlobal_clean {c : Context} {x : Declared} {kind : GlobalKind}
    (h : (c.declareGlobal x kind).1.hasErrors = false) :
    c.globals.get? x.name = none ∧
      (c.declareGlobal x kind).2.globals = c.globals.put x.name kind := by
  unfold declareGlobal at h ⊢
  split at h
  · cases h
  · rename_i hnone
    exact ⟨hnone, by simp⟩

/-- **Names are declared once** in a script without errors. -/
theorem nodup_of_declareGlobals {c : Context} {ts : List Stmt}
    (h : (c.declareGlobals ts).1.hasErrors = false) :
    (ts.filterMap Stmt.functionName?).Nodup ∧
      ∀ x ∈ ts.filterMap Stmt.functionName?, c.globals.get? x = none := by
  induction ts generalizing c with
  | nil => exact ⟨List.nodup_nil, fun _ hx => nomatch hx⟩
  | cons t ts ih =>
    -- what is declared here is declared nowhere behind
    have hput : ∀ {c' : Context} {x : Declared} {kind : GlobalKind},
        c'.globals = c.globals → (c'.declareGlobal x kind).1.hasErrors = false →
        ((c'.declareGlobal x kind).2.declareGlobals ts).1.hasErrors = false →
        (ts.filterMap Stmt.functionName?).Nodup ∧ c.globals.get? x.name = none ∧
          ∀ y ∈ ts.filterMap Stmt.functionName?, y ≠ x.name ∧ c.globals.get? y = none := by
      intro c' x kind hc' hhead htail
      obtain ⟨hnone, hglobals⟩ := declareGlobal_clean hhead
      obtain ⟨hnodup, hrest⟩ := ih htail
      rw [hc'] at hnone hglobals
      refine ⟨hnodup, hnone, fun y hy => ?_⟩
      have hfree := hrest y hy
      rw [hglobals] at hfree
      have hne : y ≠ x.name := by
        rintro rfl
        rw [Table.get?_put_self] at hfree
        cases hfree
      exact ⟨hne, (Table.get?_put_of_ne _ _ hne).symm.trans hfree⟩
    unfold declareGlobals at h
    cases t with
    | function span x annotations body =>
      obtain ⟨hhead, htail⟩ := Report.append_clean.mp h
      obtain ⟨hnodup, hnone, hrest⟩ := hput rfl hhead htail
      refine ⟨List.nodup_cons.mpr ⟨fun hx => (hrest _ hx).1 rfl, hnodup⟩, ?_⟩
      exact List.forall_mem_cons.mpr ⟨hnone, fun y hy => (hrest y hy).2⟩
    | enum span x variants =>
      have hvariants : (c.declareVariants x.name variants).globals = c.globals := by
        unfold declareVariants
        split <;> rfl
      obtain ⟨hhead, htail⟩ := Report.append_clean.mp h
      obtain ⟨hnodup, -, hrest⟩ := hput hvariants hhead htail
      exact ⟨hnodup, fun y hy => (hrest y hy).2⟩
    | _ => exact ih (Report.append_clean.mp h).2

end Context

section Source

variable {source : String} {registry : Registry}

theorem analyze_sourced (source : String) (registry : Registry) :
    ∀ t ∈ (analyze source registry).1.body, t.Sourced True (tokenize source).1 :=
  parseScript_sourced (tokenize source).1 (.inr trivial)

/-- The functions of a source stand at its top, so their names can be listed. -/
theorem declares_iff {x : String} : (analyze source registry).1.Declares x ↔
    x ∈ (analyze source registry).1.body.filterMap Stmt.functionName? := by
  constructor
  · rintro ⟨span, y, annotations, body, ⟨t, ht, hpart⟩, rfl⟩
    obtain rfl := (analyze_sourced source registry t ht).eq_of_part rfl hpart
    exact List.mem_filterMap.mpr ⟨_, ht, rfl⟩
  · intro hx
    obtain ⟨t, ht, hname⟩ := List.mem_filterMap.mp hx
    obtain ⟨span, y, annotations, body, rfl, hy⟩ := Stmt.eq_function_of_functionName? hname
    exact ⟨span, y, annotations, body, ⟨_, ht, .self⟩, hy⟩

/-- A function of a source without errors stands between statements that declare no other function
of its name. -/
theorem analyze_split (h : (analyze source registry).2.hasErrors = false) {span : Span}
    {x : Declared} {annotations : List Annotation} {body : List Stmt}
    (hf : (analyze source registry).1.Contains (.function span x annotations body)) :
    ∃ before after,
      (analyze source registry).1.body = before ++ .function span x annotations body :: after ∧
        (∀ t ∈ before, t.Names (· ≠ x.name)) ∧ ∀ t ∈ after, t.Names (· ≠ x.name) := by
  obtain ⟨u, hu, hpart⟩ := hf
  have hsourced := analyze_sourced source registry
  obtain rfl := (hsourced u hu).eq_of_part rfl hpart
  obtain ⟨before, after, hbody⟩ := List.append_of_mem hu
  have hcheck := (Report.append_clean.mp (Report.append_clean.mp h).2).1
  have hnodup := (Context.nodup_of_declareGlobals hcheck).1
  change ((analyze source registry).1.body.filterMap Stmt.functionName?).Nodup at hnodup
  rw [hbody, List.filterMap_append, List.filterMap_cons] at hnodup
  -- a function in one of the other statements is that statement, so its name is among theirs
  have hnames : ∀ {ts : List Stmt}, ts ⊆ (analyze source registry).1.body →
      x.name ∉ ts.filterMap Stmt.functionName? → ∀ t ∈ ts, t.Names (· ≠ x.name) := by
    intro ts hts hx t ht span' y annotations' body' hpart' hy
    obtain rfl := (hsourced t (hts ht)).eq_of_part rfl hpart'
    exact hx (List.mem_filterMap.mpr ⟨_, ht, congrArg some hy⟩)
  obtain ⟨-, hafter, hdisjoint⟩ := List.nodup_append'.mp hnodup
  refine ⟨before, after, hbody, hnames ?_ ?_, hnames ?_ (List.nodup_cons.mp hafter).1⟩
  · rw [hbody]
    exact List.subset_append_left _ _
  · exact fun hx => hdisjoint hx List.mem_cons_self
  · rw [hbody]
    exact fun _ ht => List.mem_append_right _ (List.mem_cons_of_mem _ ht)

end Source

/-! ## Several sources -/

/-- The lines that generation makes of the body of a function. -/
def Draft.bodyLines (d : Draft) (body : List Stmt) : List String :=
  ((capture (inScope (generateAll body))).run d).1.2

namespace Draft

variable {registry : Registry} {d : Draft} {x : String}

theorem addSources_cons (registry : Registry) (d : Draft) (source : String)
    (sources : List String) :
    d.addSources registry (source :: sources) =
      (⟨(analyze source registry).2, (d.addScript (analyze source registry).1).1⟩ ::
        ((d.addScript (analyze source registry).1).2.addSources registry sources).1,
        ((d.addScript (analyze source registry).1).2.addSources registry sources).2) := rfl

theorem addSources_append (registry : Registry) (d : Draft) (earlier later : List String) :
    d.addSources registry (earlier ++ later) =
      ((d.addSources registry earlier).1 ++
        ((d.addSources registry earlier).2.addSources registry later).1,
        ((d.addSources registry earlier).2.addSources registry later).2) := by
  induction earlier generalizing d with
  | nil => rfl
  | cons source earlier ih =>
    rw [List.cons_append, addSources_cons, addSources_cons, ih]
    rfl

theorem spares_addSources (hx : isIdentifier x = true) {sources : List String}
    (h : ∀ source ∈ sources, ¬ (analyze source registry).1.Declares x) :
    (d.addSources registry sources).2.options = d.options ∧
      (d.addSources registry sources).2.pack.function? ⟨d.options.space, x⟩ =
        d.pack.function? ⟨d.options.space, x⟩ := by
  induction sources generalizing d with
  | nil => exact ⟨rfl, rfl⟩
  | cons source sources ih =>
    obtain ⟨hhead, htail⟩ := List.forall_mem_cons.mp h
    have hnames : ∀ t ∈ (analyze source registry).1.body, t.Names (· ≠ x) :=
      fun t ht span y annotations body hpart hy =>
        hhead ⟨span, y, annotations, body, ⟨t, ht, hpart⟩, hy⟩
    have hspares := ((Gen.Spares.makes hx).body _ hnames).inScope d
    obtain ⟨hoptions, hkept⟩ := ih htail (d := (d.addScript (analyze source registry).1).2)
    rw [show (d.addScript (analyze source registry).1).2.options = d.options from
      hspares.options] at hoptions hkept
    exact ⟨hoptions, hkept.trans hspares.kept⟩

/-- Behind the statement that declares it, a function has the lines of its body. -/
theorem function?_generate {span : Span} {x : Declared} {annotations : List Annotation}
    {body : List Stmt} (hmain : x.name ≠ d.options.main) :
    ((Stmt.function span x annotations body).generate.run d).2.pack.function?
      ⟨d.options.space, x.name⟩ = some (d.bodyLines body) := by
  rw [Stmt.generate, run_generateFunction, if_neg hmain, run_bind]
  show (List.foldl _ _ _ : Pack).functions.get? _ = _
  rw [Pack.functions_foldl_addTag]
  exact Table.get?_put_self _ _ _

/-- A function under the name of the main list is reported. -/
theorem mem_issues_generate {span : Span} {x : Declared} {annotations : List Annotation}
    {body : List Stmt} (hmain : x.name = d.options.main) :
    ⟨.reservedName x.name, x.span⟩ ∈
      ((Stmt.function span x annotations body).generate.run d).2.issues := by
  rw [Stmt.generate, run_generateFunction, if_pos hmain]
  exact List.mem_append_right _ List.mem_cons_self

/-- The list of a function is not touched when the pack is finished. -/
theorem function?_finish (hcleanup : d.options.cleanup = false) (hx : isIdentifier x = true)
    (hmain : x ≠ d.options.main) :
    d.finish.function? ⟨d.options.space, x⟩ = d.pack.function? ⟨d.options.space, x⟩ := by
  have hinit : (⟨d.options.space, x⟩ : ResourceId) ≠ initId d.options := by
    intro heq
    refine slash_notMem_of_isIdentifier hx ?_
    rw [show x = d.options.generatedDir ++ "/init" from congrArg ResourceId.path heq]
    simp [String.toList_append]
  rw [finish_eq, if_neg (by simp [hcleanup])]
  show (d.withMain.functions.put (initId d.options) _).get? _ = _
  rw [Table.get?_put_of_ne _ _ hinit]
  unfold withMain
  split
  · rfl
  · refine Table.get?_put_of_ne _ _ fun heq => hmain ?_
    exact congrArg ResourceId.path heq

/-- A script is added: a function whose name it declares once is there behind it, and its name is
not that of the main list, or that is reported. -/
theorem addScript_function {script : Script} {before after : List Stmt} {span : Span}
    {x : Declared} {annotations : List Annotation} {body : List Stmt}
    (hscript : script.body = before ++ .function span x annotations body :: after)
    (hnames : ∀ t ∈ script.body, t.Names fun y => isIdentifier y = true)
    (hbefore : ∀ t ∈ before, t.Names (· ≠ x.name)) (hafter : ∀ t ∈ after, t.Names (· ≠ x.name))
    (hclean : (⟨(d.addScript script).1, []⟩ : Report).hasErrors = false) :
    (d.addScript script).2.options = d.options ∧ x.name ≠ d.options.main ∧
      (d.addScript script).2.pack.function? ⟨d.options.space, x.name⟩ =
        some (((generateAll before).run d.pushScope).2.bodyLines body) := by
  have hmem : Stmt.function span x annotations body ∈ script.body := by simp [hscript]
  have hx : isIdentifier x.name = true := hnames _ hmem _ _ _ _ .self
  set d₁ := ((generateAll before).run d.pushScope).2
  set d₂ := ((Stmt.function span x annotations body).generate.run d₁).2
  set d₃ := ((generateAll after).run d₂).2
  have hadd : d.addScript script = (d₃.issues, { d₃.popScope with issues := [] }) := by
    have hrun : (generateAll script.body).run d.pushScope = ((generateAll after).run d₂) := by
      rw [hscript, run_generateAll_append, generateAll, run_bind]
    rw [addScript, run_inScope, hrun]
    rfl
  rw [hadd] at hclean ⊢
  have ho₁ : d₁.options = d.options :=
    ((Gen.Spares.makes hx).body before hbefore d.pushScope).options
  have ho₂ : d₂.options = d.options := by
    obtain ⟨events, htrace⟩ := Gen.Traced.makes.branch _ (hnames _ hmem) d₁
    exact htrace.accounts.options.trans ho₁
  have hspares : d₂.Spares x.name d₃ := (Gen.Spares.makes hx).body after hafter d₂
  have hmain : x.name ≠ d₁.options.main := by
    intro hmain
    have hissue := hspares.issues (mem_issues_generate hmain)
    have herror : (⟨d₃.issues, []⟩ : Report).hasErrors = true :=
      List.any_eq_true.mpr ⟨_, hissue, rfl⟩
    rw [herror] at hclean
    cases hclean
  refine ⟨hspares.options.trans ho₂, ho₁ ▸ hmain, ?_⟩
  have hkept := hspares.kept
  rw [ho₂] at hkept
  have hlines : d₂.pack.function? ⟨d₁.options.space, x.name⟩ = some (d₁.bodyLines body) :=
    function?_generate hmain
  rw [ho₁] at hlines
  exact hkept.trans hlines

end Draft

/-- **The last function of a name is kept**: if no source and no script that is added has an error,
a function whose name no later source declares is in the finished pack, with the lines of its own
body. -/
theorem compileAll_function (options : Options) (registry : Registry)
    (earlier : List String) (source : String) (later : List String)
    (hcleanup : options.cleanup = false)
    (hclean : ∀ f ∈ (compileAll (earlier ++ source :: later) options registry).2,
      (f.front.append ⟨f.back, []⟩).hasErrors = false)
    {span : Span} {x : Declared} {annotations : List Annotation} {body : List Stmt}
    (hf : (analyze source registry).1.Contains (.function span x annotations body))
    (hlast : ∀ s ∈ later, ¬ (analyze s registry).1.Declares x.name) :
    ∃ before after,
      (analyze source registry).1.body = before ++ .function span x annotations body :: after ∧
        (compileAll (earlier ++ source :: later) options registry).1.function?
          ⟨options.space, x.name⟩ =
            some (((generateAll before).run
              ((Draft.empty options).addSources registry earlier).2.pushScope).2.bodyLines
                body) := by
  set d := ((Draft.empty options).addSources registry earlier).2
  have ho : d.options = options := Draft.options_addSources registry (.empty options) earlier
  -- what was found in the source and while it was added
  have hall : compileAll (earlier ++ source :: later) options registry =
      (((d.addScript (analyze source registry).1).2.addSources registry later).2.finish,
        ((Draft.empty options).addSources registry earlier).1 ++
          ⟨(analyze source registry).2, (d.addScript (analyze source registry).1).1⟩ ::
            ((d.addScript (analyze source registry).1).2.addSources registry later).1) := by
    rw [compileAll, Draft.addSources_append, Draft.addSources_cons]
  rw [hall] at hclean ⊢
  obtain ⟨hfront, hback⟩ := Report.append_clean.mp
    (hclean _ (List.mem_append_right _ List.mem_cons_self))
  obtain ⟨before, after, hbody, hbefore, hafter⟩ := analyze_split hfront hf
  have hnames := analyze_names source registry
  have hx : isIdentifier x.name = true := by
    obtain ⟨t, ht, hpart⟩ := hf
    exact hnames t ht _ _ _ _ hpart
  obtain ⟨hoptions, hmain, hlines⟩ := Draft.addScript_function hbody hnames hbefore hafter hback
  obtain ⟨hfinal, hkept⟩ := Draft.spares_addSources hx hlast
    (d := (d.addScript (analyze source registry).1).2)
  rw [hoptions, ho] at hfinal hkept
  rw [ho] at hmain hlines
  refine ⟨before, after, hbody, ?_⟩
  have hfinish := Draft.function?_finish
    (d := ((d.addScript (analyze source registry).1).2.addSources registry later).2)
    (hfinal ▸ hcleanup) hx (hfinal ▸ hmain)
  rw [hfinal] at hfinish
  exact hfinish.trans (hkept.trans hlines)

namespace SameName

/-- A source with a function. -/
def first : String := "function f \x7b say \"a\" \x7d"

/-- A source with another function of the same name. -/
def second : String := "say \"top\"\nfunction f \x7b say \"b\"\n say \"c\" \x7d"

/-- A source with nothing but a function of the same name. -/
def again : String := "function f \x7b say \"b\" \x7d"

/-- A source with a function of another name. -/
def third : String := "function g \x7b say \"d\" \x7d"

/-- Nothing is cleaned up. -/
def options : Options := { cleanup := false }

end SameName

open SameName in
theorem compileAll_function_sameName :
    (∀ f ∈ (compileAll [first, second, third] options {}).2,
      (f.front.append ⟨f.back, []⟩).hasErrors = false) ∧
    (∀ s ∈ [third], ¬ (analyze s {}).1.Declares "f") ∧
    ∃ (span : Span) (x : Declared) (annotations : List Annotation) (body : List Stmt),
      (analyze second {}).1.Contains (.function span x annotations body) ∧ x.name = "f" ∧
        ∃ before after,
          (analyze second {}).1.body = before ++ .function span x annotations body :: after ∧
            (compileAll [first, second, third] options {}).1.function? ⟨"datascript", x.name⟩ =
              some (((generateAll before).run
                ((Draft.empty options).addSources {} [first]).2.pushScope).2.bodyLines body) := by
  have hclean : ∀ f ∈ (compileAll [first, second, third] options {}).2,
      (f.front.append ⟨f.back, []⟩).hasErrors = false := by decide +kernel
  have hlast : ∀ s ∈ [third], ¬ (analyze s {}).1.Declares "f" := by
    refine List.forall_mem_singleton.mpr fun h => ?_
    have hnot : "f" ∉ (analyze third {}).1.body.filterMap Stmt.functionName? := by decide +kernel
    exact hnot (declares_iff.mp h)
  have hmem : "f" ∈ (analyze second {}).1.body.filterMap Stmt.functionName? := by decide +kernel
  obtain ⟨span, x, annotations, body, hf, hx⟩ := declares_iff.mpr hmem
  refine ⟨hclean, hlast, span, x, annotations, body, hf, hx, ?_⟩
  exact compileAll_function options {} [first] second [third] rfl hclean hf (hx ▸ hlast)

open SameName in
/-- A function of an earlier source may be lost, and nothing is reported. -/
theorem compileAll_loses_function :
    (∀ f ∈ (compileAll [first, again] options {}).2,
      (f.front.append ⟨f.back, []⟩).diagnostics.isEmpty = true) ∧
    ∃ (span : Span) (x : Declared) (annotations : List Annotation) (body : List Stmt),
      (analyze first {}).1.Contains (.function span x annotations body) ∧ x.name = "f" ∧
        (Draft.empty options).pushScope.bodyLines body = ["say a"] ∧
        (compileAll [first, again] options {}).1.function? ⟨"datascript", x.name⟩ =
          some ["say b"] := by
  have hbody : ∃ t ∈ (analyze first {}).1.body, t.functionName? = some "f" ∧
      (Draft.empty options).pushScope.bodyLines t.children = ["say a"] := by
    decide +kernel
  obtain ⟨t, ht, hname, hlines⟩ := hbody
  obtain ⟨span, x, annotations, body, rfl, hx⟩ := Stmt.eq_function_of_functionName? hname
  refine ⟨by decide +kernel, span, x, annotations, body, ⟨_, ht, .self⟩, hx, hlines, ?_⟩
  rw [hx]
  decide +kernel

end Packwright
