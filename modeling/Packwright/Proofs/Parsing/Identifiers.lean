import Packwright.Proofs.Parsing.Reading
import Packwright.Proofs.Numerals
import Packwright.Token.Stream

/-!
# The names among the tokens of a source

A name token is an identifier: a letter or an underscore, and letters, digits and underscores behind
it.  So no name has a slash in it, and every name is plain in a command.

* `scan_name`: a piece that is a name is an identifier.
* `isIdentifier_of_named`: the names among the tokens of a source are identifiers.
-/

namespace Packwright

open Lexical Words

/-- Whether a text is a name of the language. -/
def isIdentifier (x : String) : Bool :=
  match x.toList with
  | [] => false
  | c :: cs => isNameStart c && cs.all isNamePart

theorem isNamePart_of_isNameStart {c : Char} (h : isNameStart c = true) : isNamePart c = true := by
  simp only [isNameStart, isNamePart, Char.isAlphanum, Bool.or_eq_true] at h ⊢
  tauto

theorem isNamePart_of_isIdentifier {x : String} (h : isIdentifier x = true) :
    ∀ c ∈ x.toList, isNamePart c = true := by
  unfold isIdentifier at h
  split at h
  · cases h
  · rename_i c cs hx
    obtain ⟨hc, hcs⟩ := Bool.and_eq_true_iff.mp h
    rw [hx]
    exact List.forall_mem_cons.mpr ⟨isNamePart_of_isNameStart hc, List.all_eq_true.mp hcs⟩

/-- The characters of names lie in four ranges. -/
theorem toNat_of_isNamePart {c : Char} (h : isNamePart c = true) :
    (48 ≤ c.toNat ∧ c.toNat ≤ 57) ∨ (65 ≤ c.toNat ∧ c.toNat ≤ 90) ∨ c.toNat = 95 ∨
      (97 ≤ c.toNat ∧ c.toNat ≤ 122) := by
  rcases Bool.or_eq_true_iff.mp h with h | h
  · rcases Bool.or_eq_true_iff.mp h with h | h
    · exact Or.inr ((toNat_of_isAlpha h).imp_right Or.inr)
    · exact Or.inl (toNat_of_isDigit h)
  · obtain rfl : c = '_' := of_decide_eq_true h
    exact Or.inr (Or.inr (Or.inl rfl))

/-- The characters of names mean nothing to the reader of commands. -/
theorem isInner_of_isNamePart {c : Char} (h : isNamePart c = true) : isInner c = true := by
  have hrange := toNat_of_isNamePart h
  have hblank : Text.isBlank c = false := by
    unfold Text.isBlank
    rw [if_pos (by omega)]
    simp only [Bool.or_eq_false_iff, beq_eq_false_iff_ne, Bool.and_eq_false_iff,
      decide_eq_false_iff_not]
    omega
  have hlist : c ∉ ['"', '[', ']', '\x7b', '\x7d'] := by
    intro hmem
    simp only [List.mem_cons, List.not_mem_nil, or_false] at hmem
    rcases hmem with rfl | rfl | rfl | rfl | rfl <;> revert h <;> decide
  simp [isInner, hblank, hlist]

theorem isIdentifier_taken {c : Char} (hc : isNameStart c = true) (cs : List Char) :
    isIdentifier (taken (c :: cs) (run isNamePart cs + 1)) = true := by
  have htake : cs.take (run isNamePart cs) = cs.takeWhile isNamePart := by
    rw [run, ← List.prefix_iff_eq_take.mp (List.takeWhile_prefix _)]
  rw [isIdentifier, taken, String.toList_ofList, List.take_succ_cons, htake]
  simp only [hc, Bool.true_and]
  exact List.all_takeWhile

namespace Piece

theorem scanName_name {c : Char} (hc : isNameStart c = true) {cs : List Char} {x : String}
    {issue : Option Issue} (h : (scanName c cs).1 = .token (.name x) issue) :
    isIdentifier x = true := by
  have hword : ∀ {text : String}, isIdentifier text = true →
      token (scanName.word text) none = .token (.name x) issue → isIdentifier x = true := by
    intro text htext hx
    unfold scanName.word at hx
    split at hx
    · cases hx
    · cases hx
      exact htext
  unfold scanName at h
  simp only at h
  split at h
  · split at h
    · cases h
    · exact hword (isIdentifier_taken hc cs) h
  · exact hword (isIdentifier_taken hc cs) h

theorem scanAt_ne_name (cs : List Char) (x : String) (issue : Option Issue) :
    (scanAt cs).1 ≠ .token (.name x) issue := by
  unfold scanAt
  intro h
  simp only at h
  split at h
  · cases h
  · split at h
    · cases h
    · cases h
  · cases h

theorem numberToken_ne_name (n : NumberBody) (text x : String) : (n.token text).1 ≠ .name x := by
  unfold NumberBody.token
  intro h
  simp only at h
  split at h
  all_goals first | cases h | (split at h <;> cases h)

theorem scanMark_ne_name (c : Char) (cs : List Char) (x : String) (issue : Option Issue) :
    (scanMark c cs).1 ≠ .token (.name x) issue := by
  unfold scanMark
  intro h
  split at h <;> cases h

/-- A piece that is a name is an identifier. -/
theorem scan_name {c : Char} {cs : List Char} {x : String} {issue : Option Issue}
    (h : (scan c cs).1 = .token (.name x) issue) : isIdentifier x = true := by
  unfold scan at h
  split at h
  · cases h
  split at h
  · cases h
  split at h
  · cases h
  split at h
  · cases h
  split at h
  · exact absurd h (scanAt_ne_name cs x issue)
  split at h
  · have hnumber := numberToken_ne_name (NumberBody.read (c :: cs))
      (taken (c :: cs) (NumberBody.read (c :: cs)).length) x
    exact absurd (Piece.token.inj h).1 hnumber
  split at h
  · rename_i hstart
    exact scanName_name hstart h
  · exact absurd h (scanMark_ne_name c cs x issue)

end Piece

theorem mem_pieces {p : LocatedPiece} : ∀ {here : Nat} {cs : List Char}, p ∈ pieces here cs →
    ∃ c cs, p.piece = (Piece.scan c cs).1
  | _, [], h => by
    rw [pieces] at h
    cases h
  | here, c :: cs, h => by
    rw [pieces] at h
    rcases List.mem_cons.mp h with rfl | h
    · exact ⟨c, cs, rfl⟩
    · exact mem_pieces h
termination_by _ cs => cs.length
decreasing_by simp only [List.length_drop, List.length_cons]; omega

namespace Located

/-- A name on the stack of tokens comes from a piece. -/
theorem mem_settleOne {stack : List Located} {p : LocatedPiece} {x : String} {span : Span}
    (h : ⟨.name x, span⟩ ∈ settleOne stack p) :
    ⟨.name x, span⟩ ∈ stack ∨ ∃ issue, p.piece = .token (.name x) issue := by
  unfold settleOne at h
  split at h
  · exact Or.inl h
  · split at h
    · cases h
    · split at h
      · exact Or.inl h
      · rcases List.mem_cons.mp h with h | h
        · cases h
        · exact Or.inl h
  · rename_i token issue hpiece
    have hpush : ∀ {t : Located}, (⟨.name x, span⟩ : Located) ∈ push stack t →
        ⟨.name x, span⟩ = t ∨ ⟨.name x, span⟩ ∈ stack := by
      intro t ht
      unfold push at ht
      split at ht
      · split at ht
        · exact (List.mem_cons.mp ht).imp_right (List.mem_cons_of_mem _)
        · exact List.mem_cons.mp ht
      · exact Or.inl (List.mem_singleton.mp ht)
    rcases hpush h with h | h
    · cases h
      exact Or.inr ⟨issue, hpiece⟩
    · exact Or.inl h

theorem mem_settled {x : String} {span : Span} (ps : List LocatedPiece) :
    ∀ {stack : List Located}, ⟨.name x, span⟩ ∈ ps.foldl settleOne stack →
      ⟨.name x, span⟩ ∈ stack ∨ ∃ p ∈ ps, ∃ issue, p.piece = .token (.name x) issue := by
  induction ps with
  | nil => exact fun h => Or.inl h
  | cons p ps ih =>
    intro stack h
    rcases ih h with h | ⟨q, hq, hpiece⟩
    · rcases mem_settleOne h with h | hpiece
      · exact Or.inl h
      · exact Or.inr ⟨p, List.mem_cons_self, hpiece⟩
    · exact Or.inr ⟨q, List.mem_cons_of_mem _ hq, hpiece⟩

end Located

/-- **The names of a source** are identifiers. -/
theorem isIdentifier_of_named {source x : String} (h : Named (tokenize source).1 x) :
    isIdentifier x = true := by
  obtain ⟨span, h⟩ := h
  have hstack : ⟨.name x, span⟩ ∈ (pieces 0 source.toList).foldl Located.settleOne [] := by
    unfold tokenize Located.settle at h
    simp only [List.mem_reverse] at h
    rcases List.mem_cons.mp h with h | h
    · cases h
    · split at h
      · rename_i last rest hlast
        rw [hlast]
        split at h
        · exact List.mem_cons_of_mem _ h
        · rwa [hlast] at h
      · cases h
  rcases Located.mem_settled _ hstack with h | ⟨p, hp, issue, hpiece⟩
  · cases h
  · obtain ⟨c, cs, hscan⟩ := mem_pieces hp
    exact Piece.scan_name (hscan.symm.trans hpiece)

end Packwright
