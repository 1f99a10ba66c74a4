import Packwright.Proofs.Generation

/-!
# Scopes while code is generated

Only a declaration binds a name, and it binds it in the innermost scope.  All else leaves the scopes
as they are, so the names in an expression have the same values wherever generation comes to them.

* `Gen.Keeps.makes`: the walk through generation, for scopes.
* `Expr.Meets p d' e d`: generation of `e` from the draft `d` comes to the part `p` with the draft
  `d'`.
-/

namespace Packwright

namespace Gen

variable {α β : Type}

/-- The computation leaves the scopes as they are. -/
def Keeps (m : Gen α) : Prop := ∀ d : Draft, (m.run d).2.scopes = d.scopes

/-- The computation leaves all scopes but the innermost as they are. -/
def KeepsOuter (m : Gen α) : Prop := ∀ d : Draft, (m.run d).2.scopes.drop 1 = d.scopes.drop 1

namespace Keeps

theorem pure (a : α) : Keeps (Pure.pure a : Gen α) := fun _ => rfl

theorem bind {m : Gen α} {f : α → Gen β} (hm : Keeps m) (hf : ∀ a, Keeps (f a)) :
    Keeps (m >>= f) := fun d => (hf (m.run d).1 (m.run d).2).trans (hm d)

theorem emit (line : String) : Keeps (Gen.emit line) := fun d => by
  rw [run_emit]
  rfl

theorem capture {m : Gen α} (h : Keeps m) : Keeps (Gen.capture m) := fun d => h d.pushFrame

theorem inScope {m : Gen α} (h : KeepsOuter m) : Keeps (Gen.inScope m) := fun d => h d.pushScope

theorem writes : Writes Keeps where
  pure := .pure
  bind := .bind
  temp _ _ := rfl
  synthesize _ _ _ := rfl
  read _ _ _ := rfl
  emit := .emit
  complain _ _ _ := rfl

theorem loop {condition : Gen (Option Condition)} {body : Gen Unit} (hcondition : Keeps condition)
    (hbody : Keeps body) : Keeps (generateLoop condition body) := by
  have hreserve : Keeps (reserve "while") := fun _ => rfl
  refine hreserve.bind fun id => hcondition.capture.bind fun result => ?_
  split
  · exact .pure _
  · rename_i c setup
    have hput : ∀ lines, Keeps (addFunction id lines) := fun _ _ => rfl
    exact bind (writes.lower c _) fun guard => hbody.capture.bind fun _ => (hput _).bind fun _ =>
      bind (writes.emitAll setup) fun _ => writes.emitAll guard

theorem function {x : Declared} {annotations : List Annotation} {body : Gen Unit}
    (hbody : Keeps body) : Keeps (generateFunction x annotations body) := by
  have hget : Keeps (MonadState.get : Gen Draft) := fun _ => rfl
  refine hget.bind fun d => ?_
  dsimp only
  split
  · exact writes.complain _ _
  · have hput : ∀ lines, Keeps (addTagged ⟨d.options.space, x.name⟩ annotations lines) :=
      fun _ _ => rfl
    exact hbody.capture.bind fun _ => hput _

/-- **Scopes**: what binds no name leaves them as they are, and what does changes the innermost. -/
theorem makes : Makes Keeps KeepsOuter fun _ => True where
  toWrites := writes
  weaken h d := congrArg _ (h d)
  andThen {_ _ m _} hm hf d := (hf (m.run d).1 (m.run d).2).trans (hm d)
  newVariable x d := (Silent.newVariable x).scopes d
  declare x v d := by
    show (d.bind x v).scopes.drop 1 = _
    unfold Draft.bind
    split
    · rename_i hscopes
      rw [hscopes]
      rfl
    · rfl
  capture := .capture
  inScope := .inScope
  loop := .loop
  function _ := .function

end Keeps

end Gen

/-- A statement that binds no name leaves the scopes as they are. -/
theorem Stmt.keeps_generate {t : Stmt} (h : t.binds = false) : Gen.Keeps t.generate := by
  have hnames : t.Names fun _ => True := fun _ _ _ _ _ => trivial
  exact (Gen.Keeps.makes.statement t hnames).resolve_right (by simp [h])

theorem Draft.lookup?_bind {d : Draft} (h : d.scopes ≠ []) (x : String) (v : Value) (y : String) :
    (d.bind x v).lookup? y = if x = y then some v else d.lookup? y := by
  obtain ⟨scope, outer, hscopes⟩ := List.exists_cons_of_ne_nil h
  simp only [Draft.bind, Draft.lookup?, hscopes, List.findSome?_cons]
  by_cases hxy : x = y
  · subst hxy
    simp
  · rw [Table.get?_put_of_ne _ _ (Ne.symm hxy), if_neg hxy]

namespace Expr

/-- Generation of an expression from a draft comes to the part `p` with the draft `d'`: those parts
that stand before it have values. -/
inductive Meets (p : Expr) (d' : Draft) : Expr → Draft → Prop
  | self : Meets p d' p d'
  | child {e c : Expr} {before after : List Expr} {values : List Value} {d d₁ : Draft}
    (hc : e.children = before ++ c :: after)
    (hbefore : (generateAll before).run.run d = (some values, d₁)) (h : Meets p d' c d₁) :
    Meets p d' e d

namespace Meets

variable {p e : Expr} {d d' : Draft}

theorem part (h : p.Meets d' e d) : p.Part e := by
  induction h with
  | self => exact .self
  | child hc _ _ ih =>
    refine .child ?_ ih
    rw [hc]
    simp

theorem scopes_eq (h : p.Meets d' e d) : d'.scopes = d.scopes := by
  induction h with
  | self => rfl
  | @child e c before after values d d₁ hc hbefore _ ih =>
    have hkeeps := Gen.Keeps.writes.generateAll before d
    rw [hbefore] at hkeeps
    exact ih.trans hkeeps

end Meets

end Expr

end Packwright
