import Packwright.Proofs.Words

/-!
# Numbers in commands

The decimal text of a word is read back as the word, and the text of a range as the range.  Both are
words of a command, so that a line which holds them falls apart where it should.

* `Word.parse?_text`: the text of a word of any width reads back.
* `Range.ofText?_text`: so does the text of a range, with or without its bounds.
-/

namespace Packwright

open Words

/-! ## Digits -/

theorem isInner_of_toNat {c : Char} (hlow : 33 ≤ c.toNat) (hhigh : c.toNat < 128)
    (hne : ∀ n ∈ [34, 91, 93, 123, 125], c.toNat ≠ n) : isInner c = true := by
  have hblank : Text.isBlank c = false := by
    simp only [Text.isBlank]
    rw [if_pos hhigh]
    simp only [Bool.or_eq_false_iff, Bool.and_eq_false_iff, beq_eq_false_iff_ne,
      decide_eq_false_iff_not]
    omega
  have hmark : c ∉ ['"', '[', ']', '\x7b', '\x7d'] := by
    intro hc
    refine hne c.toNat ?_ rfl
    have : c.toNat ∈ ['"', '[', ']', '\x7b', '\x7d'].map Char.toNat := List.mem_map_of_mem hc
    simpa using this
  simp only [isInner, hblank, hmark, not_false_eq_true, decide_true, Bool.not_false, Bool.and_true]

theorem toNat_of_isDigit {c : Char} (h : c.isDigit = true) : 48 ≤ c.toNat ∧ c.toNat ≤ 57 := by
  simp only [Char.isDigit, Bool.and_eq_true, decide_eq_true_eq, ge_iff_le,
    UInt32.le_iff_toNat_le] at h
  exact h

/-- Digits mean nothing to the reader of words. -/
theorem isInner_of_isDigit {c : Char} (h : c.isDigit = true) : isInner c = true := by
  obtain ⟨hl, hh⟩ := toNat_of_isDigit h
  refine isInner_of_toNat (by omega) (by omega) fun n hn => ?_
  simp only [List.mem_cons, List.not_mem_nil, or_false] at hn
  omega

theorem toNat_of_isAlpha {c : Char} (h : c.isAlpha = true) :
    (65 ≤ c.toNat ∧ c.toNat ≤ 90) ∨ (97 ≤ c.toNat ∧ c.toNat ≤ 122) := by
  rcases Bool.or_eq_true_iff.mp h with h | h
  · have h : 65 ≤ c.val ∧ c.val ≤ 90 := of_decide_eq_true h
    exact Or.inl (h.imp UInt32.le_iff_toNat_le.mp UInt32.le_iff_toNat_le.mp)
  · obtain ⟨hl, hh⟩ := Bool.and_eq_true_iff.mp h
    have hl : 97 ≤ c.val := of_decide_eq_true hl
    have hh : c.val ≤ 122 := of_decide_eq_true hh
    exact Or.inr ⟨UInt32.le_iff_toNat_le.mp hl, UInt32.le_iff_toNat_le.mp hh⟩

theorem isInner_of_isAlpha {c : Char} (h : c.isAlpha = true) : isInner c = true := by
  have := toNat_of_isAlpha h
  refine isInner_of_toNat (by omega) (by omega) fun n hn => ?_
  simp only [List.mem_cons, List.not_mem_nil, or_false] at hn
  omega

theorem isDigit_of_mem_toString {n : Nat} {c : Char} (h : c ∈ (toString n).toList) :
    c.isDigit = true := by
  rw [Nat.toString_eq_repr, Nat.toList_repr] at h
  exact Nat.isDigit_of_mem_toDigits (by decide) (by decide) h

theorem isInner_of_mem_toString {n : Nat} {c : Char} (h : c ∈ (toString n).toList) :
    isInner c = true :=
  isInner_of_isDigit (isDigit_of_mem_toString h)

namespace Word

theorem foldl_digits (n : Nat) :
    (Nat.toDigits 10 n).foldl (fun n d => n * 10 + (d.toNat - '0'.toNat)) 0 = n := by
  have h := Nat.ofDigitChars_ten_toDigits (n := n)
  rw [Nat.ofDigitChars_eq_foldl] at h
  simpa only [Nat.mul_comm 10] using h

theorem parseInt?_toDigits (n : Nat) : parseInt? (Nat.toDigits 10 n) = some (n : Int) := by
  have hdigit : ∀ c ∈ Nat.toDigits 10 n, c.isDigit = true := fun c hc =>
    Nat.isDigit_of_mem_toDigits (by decide) (by decide) hc
  have hall : (Nat.toDigits 10 n).all Char.isDigit = true := List.all_eq_true.mpr hdigit
  have hne : (Nat.toDigits 10 n).isEmpty = false := by simp
  unfold parseInt?
  split
  · rename_i ds hds
    exact absurd (hdigit '-' (by simp [hds])) (by decide)
  · rename_i ds hds
    exact absurd (hdigit '+' (by simp [hds])) (by decide)
  · have := foldl_digits n
    simp only [hne, hall, Bool.not_true, Bool.or_self, Bool.false_eq_true, if_false, this]

theorem parseInt?_neg_toDigits (n : Nat) :
    parseInt? ('-' :: Nat.toDigits 10 n) = some (-(n : Int)) := by
  have hall : (Nat.toDigits 10 n).all Char.isDigit = true := List.all_eq_true.mpr fun c hc =>
    Nat.isDigit_of_mem_toDigits (by decide) (by decide) hc
  have hne : (Nat.toDigits 10 n).isEmpty = false := by simp
  have := foldl_digits n
  simp only [parseInt?, hne, hall, Bool.not_true, Bool.or_self, Bool.false_eq_true, if_false, this,
    Option.map_some]

theorem toList_toString_ofNat (n : Nat) : (toString (n : Int)).toList = Nat.toDigits 10 n := by
  rw [Int.toString_eq_repr]
  exact Nat.toList_repr

theorem toList_toString_neg (n : Nat) :
    (toString (Int.negSucc n)).toList = '-' :: Nat.toDigits 10 (n + 1) := by
  rw [Int.toString_eq_repr, Int.repr, String.toList_append, Nat.toList_repr]
  rfl

theorem parseInt?_toString : ∀ n : Int, parseInt? (toString n).toList = some n
  | .ofNat n => by
    rw [Int.ofNat_eq_natCast, toList_toString_ofNat, parseInt?_toDigits]
  | .negSucc n => by
    rw [toList_toString_neg, parseInt?_neg_toDigits]
    rfl

theorem holds_toInt {w : Width} (v : Word w) : w.holds v.toInt = true := by
  have hl := BitVec.le_toInt v
  have hg := BitVec.toInt_le (x := v)
  rw [Width.holds, Bool.and_eq_true]
  exact ⟨decide_eq_true hl, decide_eq_true hg⟩

/-- **Words read back**: the decimal text of a word is read as the word. -/
theorem parse?_text {w : Width} (v : Word w) : parse? w v.text.toList = some v := by
  rw [parse?, text, parseInt?_toString, Option.bind_some, ofInt?, if_pos (holds_toInt v),
    BitVec.ofInt_toInt]

theorem isInner_of_mem_text {w : Width} (v : Word w) {c : Char} (h : c ∈ v.text.toList) :
    isInner c = true := by
  unfold text at h
  cases hv : v.toInt with
  | ofNat n =>
    rw [hv, Int.ofNat_eq_natCast, toList_toString_ofNat] at h
    exact isInner_of_isDigit (Nat.isDigit_of_mem_toDigits (by decide) (by decide) h)
  | negSucc n =>
    rw [hv, toList_toString_neg] at h
    rcases List.mem_cons.mp h with rfl | h
    · decide
    · exact isInner_of_isDigit (Nat.isDigit_of_mem_toDigits (by decide) (by decide) h)

theorem text_ne_empty {w : Width} (v : Word w) : v.text ≠ "" := by
  intro h
  have := parse?_text v
  rw [h] at this
  simp [parse?, parseInt?] at this

theorem isPlain_text {w : Width} (v : Word w) : IsPlain v.text :=
  ⟨text_ne_empty v, fun _ h => isInner_of_mem_text v h⟩

/-- No point occurs in the text of a word. -/
theorem dot_not_mem_text {w : Width} (v : Word w) : '.' ∉ v.text.toList := by
  unfold text
  intro h
  cases hv : v.toInt with
  | ofNat n =>
    rw [hv, Int.ofNat_eq_natCast, toList_toString_ofNat] at h
    exact absurd (Nat.isDigit_of_mem_toDigits (by decide) (by decide) h) (by decide)
  | negSucc n =>
    rw [hv, toList_toString_neg] at h
    rcases List.mem_cons.mp h with h | h
    · exact absurd h (by decide)
    · exact absurd (Nat.isDigit_of_mem_toDigits (by decide) (by decide) h) (by decide)

end Word

/-! ## Ranges -/

theorem after?_append (sep rest : List Char) : Text.after? sep (sep ++ rest) = some rest := by
  induction sep with
  | nil => rfl
  | cons a sep ih => simp [Text.after?, ih]

/-- A separator whose first character is not in `l` is first found behind `l`. -/
theorem splitOnce_append {a : Char} {sep : List Char} : ∀ {l : List Char} (r : List Char), a ∉ l →
    Text.splitOnce (a :: sep) (l ++ (a :: sep) ++ r) = some (l, r)
  | [], r, _ => by
    rw [List.nil_append, List.cons_append, Text.splitOnce, ← List.cons_append, after?_append]
  | c :: l, r, h => by
    have hc : a ≠ c := fun hc => h (by rw [hc]; simp)
    have hl : a ∉ l := fun hl => h (by simp [hl])
    rw [List.cons_append, List.cons_append, Text.splitOnce, splitOnce_append r hl]
    simp [Text.after?, hc]

theorem splitOnce_none {a : Char} {sep : List Char} : ∀ {l : List Char}, a ∉ l →
    Text.splitOnce (a :: sep) l = none
  | [], _ => rfl
  | c :: l, h => by
    have hc : a ≠ c := fun hc => h (by rw [hc]; simp)
    have hl : a ∉ l := fun hl => h (by simp [hl])
    rw [Text.splitOnce, splitOnce_none hl]
    simp [Text.after?, hc]

namespace Range

/-- The text of a bound that may be absent. -/
def boundText (b : Option Amount) : String := (b.map Word.text).getD ""

theorem text_eq (r : Range) : r.text = boundText r.min ++ ".." ++ boundText r.max := rfl

theorem dot_not_mem_boundText (b : Option Amount) : '.' ∉ (boundText b).toList := by
  cases b with
  | none => simp [boundText]
  | some v => exact Word.dot_not_mem_text v

theorem boundText_isEmpty_iff (b : Option Amount) : (boundText b).toList.isEmpty = b.isNone := by
  cases b with
  | none => rfl
  | some v =>
    have := Word.text_ne_empty v
    simpa [boundText] using this

theorem toList_text (r : Range) :
    r.text.toList = (boundText r.min).toList ++ ['.', '.'] ++ (boundText r.max).toList := by
  simp [text_eq]

/-- **Ranges read back**: the text of a range is read as the range. -/
theorem ofText?_text (r : Range) : ofText? r.text = some r := by
  have hbound : ∀ b : Option Amount,
      (if (boundText b).toList.isEmpty then some none
        else (Word.parse? .int (boundText b).toList).map some) = some b := by
    intro b
    rw [boundText_isEmpty_iff]
    cases b with
    | none => rfl
    | some v =>
      have := Word.parse?_text v
      simp [boundText, this]
  unfold ofText?
  rw [toList_text, splitOnce_append _ (dot_not_mem_boundText r.min)]
  simp only [hbound]

/-- A single number reads as the range of one amount. -/
theorem ofText?_amount (n : Amount) : ofText? n.text = some (.exactly n) := by
  unfold ofText?
  rw [splitOnce_none (Word.dot_not_mem_text n)]
  simp [Word.parse?_text]

theorem isPlain_text (r : Range) : IsPlain r.text := by
  have hbound : ∀ b : Option Amount, ∀ c ∈ (boundText b).toList, isInner c = true := by
    intro b c hc
    cases b with
    | none => simp [boundText] at hc
    | some v => exact Word.isInner_of_mem_text v hc
  refine ⟨fun h => ?_, fun c hc => ?_⟩
  · have := congrArg String.toList h
    simp [toList_text] at this
  · rw [toList_text, List.mem_append, List.mem_append] at hc
    rcases hc with (hc | hc) | hc
    · exact hbound _ c hc
    · exact isInner_of_mem (by decide) hc
    · exact hbound _ c hc

end Range

end Packwright
