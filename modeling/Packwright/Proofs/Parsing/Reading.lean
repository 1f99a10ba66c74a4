import Packwright.Tree.Parsing
import Mathlib.Data.List.Basic
import Mathlib.Logic.Function.Basic

/-!
# States of reading

Small facts about the state of reading and the basic readers.

* `TypeEnv`, `Parsing.env`: the types of the names in scope.
* `Parsing.Clean`: nothing was found to be wrong.
* `Parse.bind_ok`, `Parse.bind_run`: sequences.
* `Parse.expect_ok`, `Parse.expectName_ok`, …: basic readers in front of known tokens.
-/

namespace Packwright

/-- The types of the names in scope. -/
abbrev TypeEnv := String → Option Ty

/-- The environment with a name declared. -/
def TypeEnv.declare (Γ : TypeEnv) (name : String) (ty : Ty) : TypeEnv :=
  Function.update Γ name (some ty)

/-- The token stands among others. -/
def Token.Among (T : List Located) (t : Token) : Prop := ∃ span, ⟨t, span⟩ ∈ T

/-- A name stands among the tokens. -/
def Named (tokens : List Located) (x : String) : Prop := ∃ span, ⟨.name x, span⟩ ∈ tokens

theorem Token.eq_of_isMark {t : Token} {m : Mark} (h : t.isMark m = true) : t = .mark m := by
  cases t with
  | mark n => rw [of_decide_eq_true h]
  | _ => cases h

namespace Report

theorem hasErrors_suggest (r : Report) (span : Span) (candidates : List String) :
    (r.suggest span candidates).hasErrors = r.hasErrors := by
  unfold suggest
  split <;> rfl

theorem hasErrors_add (r : Report) (d : Diagnostic) :
    (r.add d).hasErrors = (r.hasErrors || d.isError) := by
  simp [hasErrors, add]

theorem hasErrors_append (r s : Report) :
    (r.append s).hasErrors = (r.hasErrors || s.hasErrors) := by
  simp [hasErrors, append]

end Report

namespace Parsing

/-- Nothing was found to be wrong. -/
def Clean (s : Parsing) : Prop := s.report.hasErrors = false

/-- The types of the names in scope. -/
def env (s : Parsing) : TypeEnv := fun x => (s.lookup? x).map (·.ty)

variable {s s₁ : Parsing}

theorem env_of_scopes (h : s₁.scopes = s.scopes) : s₁.env = s.env := by
  funext x
  rw [env, env, lookup?, lookup?, h]

theorem env_declare (h : s.scopes ≠ []) (name : String) (ty : Ty) :
    (s.declare name ty).env = s.env.declare name ty := by
  obtain ⟨scope, outer, hscopes⟩ := List.exists_cons_of_ne_nil h
  funext x
  by_cases hx : x = name
  · subst hx
    simp [env, lookup?, Parsing.declare, hscopes, TypeEnv.declare]
  · have hne : ¬ name = x := fun h => hx h.symm
    have hlookup : (s.declare name ty).lookup? x = s.lookup? x := by
      simp [lookup?, Parsing.declare, hscopes, List.findSome?_cons, hne]
    rw [TypeEnv.declare, Function.update_of_ne hx, env, env, hlookup]

theorem clean_of_complain {issue : Issue} {span : Span} (h : (s.complain issue span).Clean) :
    s.Clean :=
  (Bool.or_eq_false_iff.mp ((s.report.hasErrors_add _).symm.trans h)).1

theorem not_clean_complain (s : Parsing) {issue : Issue} (hissue : issue.severity = .error)
    (span : Span) : ¬ (s.complain issue span).Clean := by
  intro h
  have herror := (Bool.or_eq_false_iff.mp ((s.report.hasErrors_add _).symm.trans h)).2
  simp [Diagnostic.isError, hissue] at herror

theorem clean_of_suggest {span : Span} {candidates : List String}
    (h : (s.suggest span candidates).Clean) : s.Clean :=
  (s.report.hasErrors_suggest span candidates).symm.trans h

theorem last_advance (s : Parsing) : s.advance.last = s.here := by
  unfold advance here
  split
  · rename_i t u ts hrest
    rw [hrest]
  · rfl

theorem report_advance (s : Parsing) : s.advance.report = s.report := by
  unfold advance
  split <;> rfl

theorem scopes_advance (s : Parsing) : s.advance.scopes = s.scopes := by
  unfold advance
  split <;> rfl

end Parsing

namespace Parse

variable {α β : Type}

theorem bind_ok {p : Parse α} {f : α → Parse β} {s s' : Parsing} {b : β} :
    (p >>= f) s = .ok b s' ↔ ∃ a s₁, p s = .ok a s₁ ∧ f a s₁ = .ok b s' := by
  show EStateM.bind p f s = _ ↔ _
  unfold EStateM.bind
  cases p s with
  | ok a s₁ => simp
  | error d s₁ => simp

theorem bind_run {p : Parse α} {s s₁ : Parsing} {a : α} (h : p s = .ok a s₁) (f : α → Parse β) :
    (p >>= f) s = f a s₁ := by
  show EStateM.bind p f s = _
  rw [EStateM.bind, h]

/-! ## Readers in front of known tokens -/

section Known

variable {s : Parsing} {t : Located} {ts : List Located} {m : Mark} {span : Span}

theorem peek_of_rest (hs : s.rest = t :: ts) : s.peek = t.token := by rw [Parsing.peek, hs]

theorem here_of_rest (hs : s.rest = t :: ts) : s.here = t.span := by rw [Parsing.here, hs]

theorem isMark_peek (hs : s.rest = ⟨.mark m, span⟩ :: ts) : s.peek.isMark m = true := by
  rw [peek_of_rest hs]
  exact decide_eq_true rfl

theorem advance_of_rest (hs : s.rest = t :: ts) (hne : ts ≠ []) :
    s.advance = { s with rest := ts, last := t.span } := by
  obtain ⟨u, ts, rfl⟩ := List.exists_cons_of_ne_nil hne
  rw [Parsing.advance, hs]

theorem advance_ok (hs : s.rest = t :: ts) (hne : ts ≠ []) :
    advance s = .ok t.span { s with rest := ts, last := t.span } := by
  show EStateM.Result.ok s.here s.advance = _
  rw [here_of_rest hs, advance_of_rest hs hne]

theorem expect_ok (hs : s.rest = ⟨.mark m, span⟩ :: ts) (hne : ts ≠ []) :
    expect m s = .ok span { s with rest := ts, last := span } := by
  show (if s.peek.isMark m then advance else failExpecting _) s = _
  rw [if_pos (isMark_peek hs)]
  exact advance_ok hs hne

theorem eat_ok (hs : s.rest = ⟨.mark m, span⟩ :: ts) (hne : ts ≠ []) :
    eat m s = .ok true { s with rest := ts, last := span } := by
  show (if s.peek.isMark m then (do modify Parsing.advance; return true) else return false :
    Parse Bool) s = _
  rw [if_pos (isMark_peek hs)]
  show EStateM.Result.ok true s.advance = _
  rw [advance_of_rest hs hne]

theorem eat_other (hs : s.rest = t :: ts) (ht : t.token.isMark m = false) :
    eat m s = .ok false s := by
  show (if s.peek.isMark m then (do modify Parsing.advance; return true) else return false :
    Parse Bool) s = _
  rw [peek_of_rest hs, ht, if_neg Bool.false_ne_true]
  rfl

theorem peek_ok {token : Token} (h : s.peek = token) : peek s = .ok token s := by
  show EStateM.Result.ok s.peek s = _
  rw [h]

theorem expectName_ok {text : String} (hs : s.rest = ⟨.name text, span⟩ :: ts) (hne : ts ≠ []) :
    expectName s = .ok ⟨text, span⟩ { s with rest := ts, last := span } :=
  (bind_run (peek_ok (peek_of_rest hs)) _).trans
    (bind_ok.mpr ⟨span, _, advance_ok hs hne, rfl⟩)

theorem skipWhile_of_peek {p : Token → Bool} (h : p s.peek = false) : s.skipWhile p = s := by
  have hskip : Parsing.skipTokens p s.last s.rest = (s.last, s.rest) := by
    unfold Parsing.peek at h
    split at h
    · rename_i t ts hs
      rw [hs]
      cases ts with
      | nil => rfl
      | cons u ts => rw [Parsing.skipTokens, h, if_neg Bool.false_ne_true]
    · rename_i hs
      rw [hs]
      rfl
  rw [Parsing.skipWhile, hskip]

theorem skipNewlines_ok (h : s.peek.isNewline = false) : skipNewlines s = .ok () s := by
  show EStateM.Result.ok () (s.skipWhile Token.isNewline) = _
  rw [skipWhile_of_peek h]

end Known

end Parse

end Packwright
