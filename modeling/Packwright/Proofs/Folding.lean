import Packwright.Operator.Fold
import Mathlib.Data.Rat.Floor

/-!
# Folding integers

Two words are folded in 128 binary digits.  A quotient is rounded towards zero first and mended by a
look at the signs, and every result is brought back to the width.  What comes of it is arithmetic of
the integers modulo the width, with quotients rounded down.

* `fdiv_eq_ite`, `floor_div_eq_fdiv`: the mended quotient is the fraction rounded down.
* `Arith.onInt_eq`: words have so few digits that no number on the way overflows.
* `integers_fold`: what folding gives, for all widths.
-/

namespace Packwright

/-! ## Rounding down -/

section Rounding

variable {b : Int}

/-- The remainder lies between zero and the divisor. -/
theorem fmod_between (a : Int) (hb : b ≠ 0) :
    0 < b ∧ 0 ≤ a.fmod b ∧ a.fmod b < b ∨ b < 0 ∧ b < a.fmod b ∧ a.fmod b ≤ 0 := by
  rcases lt_or_gt_of_ne hb with hneg | hpos
  · right
    have hflip := Int.neg_fmod_neg a b
    have hlo := Int.fmod_nonneg_of_pos (-a) (Int.neg_pos.mpr hneg)
    have hhi := Int.fmod_lt_of_pos (-a) (Int.neg_pos.mpr hneg)
    omega
  · exact .inl ⟨hpos, Int.fmod_nonneg_of_pos a hpos, Int.fmod_lt_of_pos a hpos⟩

theorem fmod_sign (a : Int) (hb : b ≠ 0) :
    a.fmod b = 0 ∨ (a.fmod b).sign = b.sign ∧ |a.fmod b| < |b| := by
  rcases fmod_between a hb with ⟨hpos, hlo, hhi⟩ | ⟨hneg, hlo, hhi⟩
  · refine hlo.eq_or_lt.imp Eq.symm fun hr => ?_
    rw [Int.sign_eq_one_of_pos hr, Int.sign_eq_one_of_pos hpos, abs_of_pos hr, abs_of_pos hpos]
    exact ⟨rfl, hhi⟩
  · refine hhi.eq_or_lt.imp_right fun hr => ?_
    rw [Int.sign_eq_neg_one_of_neg hr, Int.sign_eq_neg_one_of_neg hneg, abs_of_neg hr,
      abs_of_neg hneg]
    exact ⟨rfl, Int.neg_lt_neg hlo⟩

/-- **Mending a quotient**: the one that is rounded towards zero is too great by one if there is a
remainder and the signs differ. -/
theorem fdiv_eq_ite (a : Int) (hb : b ≠ 0) : a.fdiv b =
    if a.tmod b ≠ 0 ∧ decide (a < 0) ≠ decide (b < 0) then a.tdiv b - 1 else a.tdiv b := by
  have hdvd : a.tmod b ≠ 0 ↔ ¬ b ∣ a := Int.dvd_iff_tmod_eq_zero.symm.not
  rw [Int.fdiv_eq_tdiv, if_congr (and_congr_left' hdvd) rfl rfl]
  by_cases hab : b ∣ a
  · simp [hab]
  · rcases lt_or_gt_of_ne hb with hneg | hpos
    · by_cases ha : 0 ≤ a <;> simp [hab, ha, hneg, hneg.not_ge, Int.sign_eq_neg_one_of_neg]
    · by_cases ha : 0 ≤ a <;> simp [hab, ha, hpos.le, hpos.not_gt, Int.sign_eq_one_of_pos hpos]

/-- The quotient rounded down is the greatest integer that is not above the fraction. -/
theorem floor_div_eq_fdiv (a : Int) (hb : b ≠ 0) : ⌊(a : ℚ) / b⌋ = a.fdiv b := by
  have hsum : (a : ℚ) / b = a.fdiv b + a.fmod b / b := by
    have hb : (b : ℚ) ≠ 0 := Int.cast_ne_zero.mpr hb
    rw [div_eq_iff hb, add_mul, div_mul_cancel₀ _ hb, mul_comm]
    exact_mod_cast (Int.mul_fdiv_add_fmod a b).symm
  have hrest : (0 : ℚ) ≤ a.fmod b / b ∧ (a.fmod b : ℚ) / b < 1 := by
    rcases fmod_between a hb with ⟨hpos, hlo, hhi⟩ | ⟨hneg, hlo, hhi⟩
    · have hpos : (0 : ℚ) < b := Int.cast_pos.mpr hpos
      exact ⟨div_nonneg (Int.cast_nonneg hlo) hpos.le, (div_lt_one hpos).mpr (Int.cast_lt.mpr hhi)⟩
    · have hneg : (b : ℚ) < 0 := Int.cast_lt_zero.mpr hneg
      exact ⟨div_nonneg_of_nonpos (Int.cast_nonpos.mpr hhi) hneg.le,
        (div_lt_one_of_neg hneg).mpr (Int.cast_lt.mpr hlo)⟩
  rw [hsum, Int.floor_intCast_add, Int.floor_eq_zero_iff.mpr hrest, add_zero]

end Rounding

/-! ## Numbers on the way -/

namespace Arith

/-- The operator on integers without bounds.  Division rounds down. -/
def result? (op : Arith) (a b : Int) : Option Int :=
  match op with
  | add => some (a + b)
  | sub => some (a - b)
  | mul => some (a * b)
  | div => if b = 0 then none else some (a.fdiv b)
  | mod => if b = 0 then none else some (a.fmod b)

variable {a b : Int}

theorem checked_ok {n : Int} (h : n.natAbs ≤ 2 ^ 126) : checked n = .ok n := by
  have hpow : Int.pow 2 127 = 2 * 2 ^ 126 := by decide
  unfold checked
  rw [hpow, if_pos]
  omega

theorem floorDiv_ok (ha : a.natAbs ≤ 2 ^ 63) (hb : b ≠ 0) : floorDiv a b = .ok (a.fdiv b) := by
  have hquotient := Int.natAbs_tdiv_le_natAbs a b
  have hremainder : (a.tmod b).natAbs ≤ a.natAbs := by
    rw [Int.natAbs_tmod]
    exact Nat.mod_le _ _
  rw [floorDiv, if_neg hb, checked_ok (by omega), checked_ok (by omega), fdiv_eq_ite a hb]
  show (if _ then _ else _) = _
  split
  · exact checked_ok (by omega)
  · rfl

theorem floorMod_ok (ha : a.natAbs ≤ 2 ^ 63) (hle : b.natAbs ≤ 2 ^ 63) (hb : b ≠ 0) :
    floorMod a b = .ok (a.fmod b) := by
  -- the product is the dividend less the remainder, so it is hardly greater than the operands
  have hsum := Int.mul_fdiv_add_fmod a b
  have hrest := fmod_between a hb
  rw [floorMod, floorDiv_ok ha hb]
  show (checked (b * a.fdiv b) >>= fun product => checked (a - product)) = _
  rw [checked_ok (by omega)]
  show checked (a - b * a.fdiv b) = _
  rw [← Int.fmod_def]
  exact checked_ok (by omega)

/-- **Nothing overflows** on the way from two numbers of 64 binary digits. -/
theorem onInt_eq (op : Arith) (ha : a.natAbs ≤ 2 ^ 63) (hb : b.natAbs ≤ 2 ^ 63) :
    op.onInt a b = (op.result? a b).elim (.error .zeroDivisor) .ok := by
  cases op with
  | add => exact checked_ok (by omega)
  | sub => exact checked_ok (by omega)
  | mul =>
    refine checked_ok ?_
    calc (a * b).natAbs = a.natAbs * b.natAbs := Int.natAbs_mul a b
      _ ≤ 2 ^ 63 * 2 ^ 63 := Nat.mul_le_mul ha hb
      _ = 2 ^ 126 := by decide
  | div =>
    by_cases hzero : b = 0
    · simp [onInt, result?, floorDiv, hzero]
    · simp [onInt, result?, floorDiv_ok ha hzero, hzero]
  | mod =>
    by_cases hzero : b = 0
    · simp [onInt, result?, floorMod, floorDiv, hzero, bind, Except.bind]
    · simp [onInt, result?, floorMod_ok ha hb hzero, hzero]

end Arith

/-! ## Words -/

section Words

variable {w : Width}

theorem Word.natAbs_toInt_le (a : Word w) : a.toInt.natAbs ≤ 2 ^ 63 := by
  have hlo := a.le_toInt
  have hhi := a.toInt_lt
  have hbits : (2 : Int) ^ (w.bits - 1) ≤ 2 ^ 63 := by cases w <;> decide
  omega

/-- A remainder of two words needs no reduction. -/
theorem Word.toInt_ofInt_fmod (a : Word w) {b : Word w} (hb : b.toInt ≠ 0) :
    (BitVec.ofInt w.bits (a.toInt.fmod b.toInt)).toInt = a.toInt.fmod b.toInt := by
  have hrest := fmod_between a.toInt hb
  have hlo := b.le_toInt
  have hhi := b.toInt_lt
  have hbits : 0 < w.bits := by cases w <;> decide
  exact BitVec.toInt_ofInt_eq_self hbits (by omega) (by omega)

theorem Arith.onInt_toInt (op : Arith) (a b : Word w) :
    op.onInt a.toInt b.toInt = (op.result? a.toInt b.toInt).elim (.error .zeroDivisor) .ok :=
  onInt_eq op (Word.natAbs_toInt_le a) (Word.natAbs_toInt_le b)

theorem Arith.onWord_eq_result (op : Arith) (a b : Word w) :
    op.onWord a b = (op.result? a.toInt b.toInt).map (BitVec.ofInt w.bits) := by
  rw [onWord, onInt_toInt]
  cases op.result? a.toInt b.toInt <;> rfl

end Words

namespace Value

/-- The operator on two words gives an integer, reduced to the width. -/
def FoldsTo (op : Arith) {w : Width} (a b : Word w) (n : Int) : Prop :=
  ∃ c : Word w, arith op (.integer w a) (.integer w b) = some (.integer w c) ∧
    c.toInt = n.bmod (2 ^ w.bits)

variable {op : Arith} {w : Width} {a b : Word w}

theorem arith_integer (op : Arith) (a b : Word w) :
    arith op (.integer w a) (.integer w b) =
      (op.result? a.toInt b.toInt).map fun n => .integer w (BitVec.ofInt w.bits n) := by
  have hword := op.onWord_eq_result a b
  cases w <;> rw [arith, hword, Option.map_map] <;> rfl

theorem arith_integer_eq_none_iff :
    arith op (.integer w a) (.integer w b) = none ↔ op.result? a.toInt b.toInt = none := by
  rw [arith_integer, Option.map_eq_none_iff]

theorem foldsTo_of_result {n : Int} (h : op.result? a.toInt b.toInt = some n) :
    FoldsTo op a b n := by
  refine ⟨BitVec.ofInt w.bits n, ?_, BitVec.toInt_ofInt n⟩
  rw [arith_integer, h]
  rfl

end Value

/-- **Folding is arithmetic modulo the width.**  No number on the way overflows.

* A sum, a difference or a product is that of the integers, reduced to the width.
* A quotient or a remainder is missing just if the divisor is zero.
* Else the quotient is the fraction rounded down, reduced to the width, and the remainder is what it
  leaves of the dividend.  This is zero, or it has the sign of the divisor and is nearer to zero. -/
theorem integers_fold (w : Width) (a b : Word w) :
    (∀ op : Arith, op.onInt a.toInt b.toInt ≠ .error .overflow) ∧
    Value.FoldsTo .add a b (a.toInt + b.toInt) ∧
    Value.FoldsTo .sub a b (a.toInt - b.toInt) ∧
    Value.FoldsTo .mul a b (a.toInt * b.toInt) ∧
    (Value.arith .div (.integer w a) (.integer w b) = none ↔ b.toInt = 0) ∧
    (Value.arith .mod (.integer w a) (.integer w b) = none ↔ b.toInt = 0) ∧
    (b.toInt ≠ 0 → Value.FoldsTo .div a b ⌊(a.toInt : ℚ) / b.toInt⌋ ∧
      ∃ r : Word w, Value.arith .mod (.integer w a) (.integer w b) = some (.integer w r) ∧
        a.toInt = b.toInt * ⌊(a.toInt : ℚ) / b.toInt⌋ + r.toInt ∧
        (r.toInt = 0 ∨ r.toInt.sign = b.toInt.sign ∧ |r.toInt| < |b.toInt|)) := by
  have hnone : ∀ {n : Int}, (if b.toInt = 0 then none else some n) = none ↔ b.toInt = 0 := by simp
  refine ⟨fun op => ?_, Value.foldsTo_of_result rfl, Value.foldsTo_of_result rfl,
    Value.foldsTo_of_result rfl, Value.arith_integer_eq_none_iff.trans hnone,
    Value.arith_integer_eq_none_iff.trans hnone, fun hb => ?_⟩
  · rw [Arith.onInt_toInt]
    cases op.result? a.toInt b.toInt <;> simp
  · rw [floor_div_eq_fdiv a.toInt hb]
    refine ⟨Value.foldsTo_of_result (if_neg hb), BitVec.ofInt w.bits (a.toInt.fmod b.toInt), ?_, ?_⟩
    · rw [Value.arith_integer, Arith.result?, if_neg hb]
      rfl
    · rw [Word.toInt_ofInt_fmod a hb]
      exact ⟨(Int.mul_fdiv_add_fmod _ _).symm, fmod_sign _ hb⟩

/-- The quotient of the least number by -1 is brought back to the width, and a remainder has the
sign of the divisor. -/
theorem integers_fold_negative :
    let least : Word .long := BitVec.ofInt _ Width.long.least
    (-1 : Word .long).toInt ≠ 0 ∧ (-2 : Word .byte).toInt ≠ 0 ∧
    Value.FoldsTo .div least (-1) ⌊(least.toInt : ℚ) / (-1 : Word .long).toInt⌋ ∧
    Value.arith .div (.integer .long least) (.integer .long (-1)) = some (.integer .long least) ∧
    Value.FoldsTo .div (7 : Word .byte) (-2)
      ⌊((7 : Word .byte).toInt : ℚ) / (-2 : Word .byte).toInt⌋ ∧
    Value.arith .div (.integer .byte 7) (.integer .byte (-2)) = some (.integer .byte (-4)) ∧
    Value.arith .mod (.integer .byte 7) (.integer .byte (-2)) = some (.integer .byte (-1)) := by
  intro least
  have hlong : (-1 : Word .long).toInt ≠ 0 := by decide
  have hbyte : (-2 : Word .byte).toInt ≠ 0 := by decide
  obtain ⟨-, -, -, -, -, -, hleast⟩ := integers_fold .long least (-1)
  obtain ⟨-, -, -, -, -, -, hseven⟩ := integers_fold .byte 7 (-2)
  exact ⟨hlong, hbyte, (hleast hlong).1, rfl, (hseven hbyte).1, rfl, rfl⟩

end Packwright
