import Packwright.Proofs.Parsing.Statements
import Packwright.Proofs.Braces.Depth

/-!
# Braces that failures leave open

A statement that is read leaves as many braces open as it found, apart from those that were left
open where a statement inside of it could not be read.  Such a statement is given up with its line,
and the tokens within its place are exactly those that were passed over.

* `Stmt.failures`: the places of the statements that were given up.
* `Parsing.Behind`: the states behind statements, with the braces that failures have left open.
* `BodyMade.behind`: statements of a block.
* `ScriptMade.unmatched`: each brace that a failure has left open is found to close nothing.
-/

namespace Packwright

open Parsing

mutual

/-- The places of the statements in a statement that could not be read. -/
def Stmt.failures : Stmt → List Span
  | .error span => [span]
  | .block _ body | .function _ _ _ body => Stmt.failuresOfAll body
  | .ifElse _ _ t u => t.failures ++ Stmt.failuresOfBranch u
  | .while _ _ t | .context _ _ _ t => t.failures
  | .letBinding _ _ _ | .var _ _ _ _ | .assign _ _ _ _ _ | .expr _ _ | .enum _ _ _ | .command _ _
  | .return _ => []

/-- The places of the statements in several statements that could not be read. -/
def Stmt.failuresOfAll : List Stmt → List Span
  | [] => []
  | t :: ts => t.failures ++ Stmt.failuresOfAll ts

/-- The places of the statements in a branch that could not be read. -/
def Stmt.failuresOfBranch : Option Stmt → List Span
  | none => []
  | some t => t.failures

end

theorem Stmt.failuresOfAll_append (ts us : List Stmt) :
    failuresOfAll (ts ++ us) = failuresOfAll ts ++ failuresOfAll us := by
  induction ts with
  | nil => rfl
  | cons t ts ih => rw [List.cons_append, failuresOfAll, failuresOfAll, ih, List.append_assoc]

/-- How many braces the tokens within several places leave open. -/
def lost (tokens : List Located) : List Span → Int
  | [] => 0
  | span :: spans => span.opened tokens + lost tokens spans

theorem lost_append (tokens : List Located) (xs ys : List Span) :
    lost tokens (xs ++ ys) = lost tokens xs + lost tokens ys := by
  induction xs with
  | nil => simp [lost]
  | cons x xs ih => rw [List.cons_append, lost, lost, ih, Int.add_assoc]

theorem lost_nonneg {tokens : List Located} {spans : List Span}
    (h : ∀ span ∈ spans, 0 ≤ span.opened tokens) : 0 ≤ lost tokens spans := by
  induction spans with
  | nil => exact le_rfl
  | cons span spans ih =>
    obtain ⟨hspan, hspans⟩ := List.forall_mem_cons.mp h
    exact Int.add_nonneg hspan (ih hspans)

theorem lost_eq_zero_iff {tokens : List Located} {spans : List Span}
    (h : ∀ span ∈ spans, 0 ≤ span.opened tokens) :
    lost tokens spans = 0 ↔ ∀ span ∈ spans, span.opened tokens = 0 := by
  induction spans with
  | nil => exact ⟨fun _ => List.forall_mem_nil _, fun _ => rfl⟩
  | cons span spans ih =>
    obtain ⟨hspan, hspans⟩ := List.forall_mem_cons.mp h
    have hrest := lost_nonneg hspans
    rw [lost, List.forall_mem_cons, ← ih hspans]
    omega

theorem Stmt.failuresOfAll_singleton (t : Stmt) : failuresOfAll [t] = t.failures := by
  rw [failuresOfAll, failuresOfAll, List.append_nil]

theorem Stmt.Leaf.failures {tokens : List Located} {s s' : Parsing} {t : Stmt}
    (h : t.Leaf tokens s s') : t.failures = [] := by
  cases h <;> rfl

/-- Behind statements of which those at `spans` could not be read.  The braces that these have left
open are open besides those in front. -/
structure Parsing.Behind (tokens : List Located) (s : Parsing) (spans : List Span) (s₁ : Parsing) :
    Prop where
  along : s₁.Along tokens
  rest : s₁.rest <:+ s.rest
  depth : s₁.depth = s.depth + lost tokens spans
  nonneg : ∀ span ∈ spans, 0 ≤ span.opened tokens

variable {tokens : List Located} {n : Bool} {s s₁ s₂ u u' s' : Parsing} {ts : List Stmt}
  {xs ys : List Span}

/-- Statements behind others. -/
theorem Parsing.Behind.trans (h : s.Behind tokens xs s₁) (h' : s₁.Behind tokens ys s₂) :
    s.Behind tokens (xs ++ ys) s₂ := by
  refine ⟨h'.along, h'.rest.trans h.rest, ?_, List.forall_mem_append.mpr ⟨h.nonneg, h'.nonneg⟩⟩
  rw [h'.depth, h.depth, lost_append, Int.add_assoc]

/-- A statement inside another. -/
theorem Nests.behind (h : Nests s u u' s') (hu : u.Behind tokens xs u') :
    s.Behind tokens xs s' := by
  cases h with
  | same => exact hu
  | scope => exact ⟨hu.along.congr rfl rfl, hu.rest, hu.depth, hu.nonneg⟩

theorem Nests.along (h : Nests s u u' s') (hs : s.Along tokens) : u.Along tokens := by
  cases h with
  | same => exact hs
  | scope => exact hs.congr rfl rfl

section Behind

variable (hended : Ended tokens) (ho : Orderly tokens)

include hended ho

/-- Where no statement is given up, as many braces are open as in front. -/
theorem Passage.behind {A : Manner} (h : Passage tokens A s none s') (hA : ¬ A.givesUp)
    (hs : s.Along tokens) : s.Behind tokens [] s' := by
  refine ⟨h.along hended hs, h.takes.rest, ?_, List.forall_mem_nil _⟩
  rw [(h.depth hended ho hs).2 rfl hA]
  exact (Int.add_zero _).symm

omit ho in
/-- What stands in braces. -/
theorem Parsing.Behind.enclose (hs : s.Along tokens) (hopen : s.peek = .mark .lbrace)
    (h : s.advance.Behind tokens xs s₁) (hclose : s₁.peek = .mark .rbrace) :
    s.Behind tokens xs s₁.advance := by
  have hdepth := depth_open (hs.ended hended) hopen
  have hdepth' := depth_close (h.along.ended hended) hclose
  have hinside := h.depth
  refine ⟨h.along.advance hended (not_isEnd_of_mark hclose), ?_, by omega, h.nonneg⟩
  exact s₁.advance_suffix.trans (h.rest.trans s.advance_suffix)

/-- **Statements** leave only those braces open that failures have left open. -/
theorem BodyMade.behind (h : BodyMade tokens n s ts s') (hs : s.Along tokens) :
    s.Behind tokens (Stmt.failuresOfAll ts) s' := by
  have htake : ∀ {s : Parsing}, s.peek.isPlain = true → s.Along tokens →
      s.Behind tokens [] s.advance := fun hplain hs =>
    Passage.behind hended ho (A := .plain) (.take hplain) id hs
  induction h with
  | moves h => exact h.behind hended ho id hs
  | append _ _ ih ih' =>
    rw [Stmt.failuresOfAll_append]
    exact (ih hs).trans (ih' (ih hs).along)
  | leaf h =>
    rw [Stmt.failuresOfAll_singleton, h.failures]
    exact h.passage.behind hended ho id hs
  | block hopen _ hclose ih =>
    rw [Stmt.failuresOfAll_singleton, Stmt.failures]
    have hinner := hs.advance hended (not_isEnd_of_mark hopen)
    exact .enclose hended hs hopen (Nests.scope.behind (ih (hinner.congr rfl rfl))) hclose
  | ifThen hplain he hn _ ih =>
    have hfirst := htake hplain hs
    have hcondition := he.moves.behind hended ho id hfirst.along
    have hthen := ih (hn.along hcondition.along)
    rw [Stmt.failuresOfAll_singleton] at hthen ⊢
    rw [Stmt.failures, Stmt.failuresOfBranch, List.append_nil]
    exact hfirst.trans (hcondition.trans (hn.behind hthen))
  | «while» hplain he hn _ ih | context hplain he hn _ ih =>
    have hfirst := htake hplain hs
    have hcondition := he.moves.behind hended ho id hfirst.along
    have hinner := ih (hn.along hcondition.along)
    rw [Stmt.failuresOfAll_singleton] at hinner ⊢
    exact hfirst.trans (hcondition.trans (hn.behind hinner))
  | ifElse hplain he hn _ helse h hn' _ ih ih' =>
    have hfirst := htake hplain hs
    have hcondition := he.moves.behind hended ho id hfirst.along
    have hthen := hn.behind (ih (hn.along hcondition.along))
    have hsecond := htake helse hthen.along
    have hmoves := h.behind hended ho id hsecond.along
    have hother := hn'.behind (ih' (hn'.along hmoves.along))
    rw [Stmt.failuresOfAll_singleton] at hthen hother ⊢
    exact hfirst.trans (hcondition.trans (hthen.trans (hsecond.trans (hmoves.trans hother))))
  | function hplain _ _ h hopen _ hclose ih =>
    rw [Stmt.failuresOfAll_singleton, Stmt.failures]
    have hfirst := htake hplain hs
    have hmoves := h.behind hended ho id hfirst.along
    have hinner := hmoves.along.advance hended (not_isEnd_of_mark hopen)
    refine hfirst.trans (hmoves.trans ?_)
    exact .enclose hended hmoves.along hopen (Nests.scope.behind (ih (hinner.congr rfl rfl))) hclose
  | error hbrace hend h =>
    have hmade := BodyMade.error (n := n) hbrace hend h
    have hless := hmade.ate (List.cons_ne_nil _ _) (hs.ended hended)
    have halong := hmade.passage.along hended hs
    have hle := (hmade.passage.depth hended ho hs).1
    have hopened := hs.opened_since halong hended ho hless
    rw [Stmt.failuresOfAll_singleton, Stmt.failures]
    refine ⟨halong, hmade.takes.rest, ?_, List.forall_mem_singleton.mpr (by omega)⟩
    rw [lost, lost]
    omega

/-- **Scripts**: each brace that a failure has left open, and each that was open in front, is found
to close nothing, as far as it is closed. -/
theorem ScriptMade.unmatched (h : ScriptMade tokens n s ts s') (hs : s.Along tokens) :
    s'.depth + s'.report.unmatched =
        s.depth + s.report.unmatched + lost tokens (Stmt.failuresOfAll ts) ∧
      ∀ span ∈ Stmt.failuresOfAll ts, 0 ≤ span.opened tokens := by
  induction h with
  | stop h =>
    have hbehind := h.behind hended ho hs
    refine ⟨?_, hbehind.nonneg⟩
    rw [hbehind.depth, h.passage.unmatched]
    omega
  | @step s s₁ _ ts us h hpeek _ ih =>
    have hbehind := h.behind hended ho hs
    have hnext := hbehind.along.advance hended (not_isEnd_of_mark hpeek)
    obtain ⟨hsum, hnonneg⟩ := ih (hnext.congr rfl rfl)
    have hdepth : (s₁.advance.complain .unmatchedBrace s₁.here).depth = s₁.depth - 1 :=
      depth_close (hbehind.along.ended hended) hpeek
    have hreport : (s₁.advance.complain .unmatchedBrace s₁.here).report.unmatched =
        s.report.unmatched + 1 := by
      refine (Report.unmatched_add _ _).trans ?_
      rw [report_advance, h.passage.unmatched]
      rfl
    have hfirst := hbehind.depth
    rw [Stmt.failuresOfAll_append, lost_append]
    refine ⟨?_, List.forall_mem_append.mpr ⟨hbehind.nonneg, hnonneg⟩⟩
    rw [hdepth, hreport] at hsum
    omega

end Behind

end Packwright
