import Packwright.Proofs.Folding
import Packwright.Proofs.Generation
import Packwright.Proofs.Parsing.Trees
import Mathlib.Order.Compare

/-!
# What the rules of the tables give

The tables state the kinds of an entry apart from its rule.  Here the two are brought together: a
rule that gets values of the kinds of its entry gives a value of the kind of the result, or it has
none for one of few reasons.

* `unordered_isNaN`: numbers without an order are not both numbers.
* `BinaryRule.Signature`, `signature_of_mem_operations`: the kinds that a rule is meant for, and the
  entries of the tables have such kinds.
* `BinaryRule.returns`, `UnaryRule.returns`, `Cast.returns`, `MemberRule.returns`: what comes out.
-/

namespace Packwright

open Gen

/-! ## Order of numbers -/

section Order

open Float.Model

theorem compare_swap (a b : UnpackedFloat) : b.compare a = (a.compare b).map Ordering.swap := by
  have hint : ∀ x y : Int, compare y x = (compare x y).swap := fun _ _ => Std.OrientedOrd.eq_swap
  have hnat : ∀ x y : Nat, compare y x = (compare x y).swap := fun _ _ => Std.OrientedOrd.eq_swap
  cases a with
  | notANumber => cases b <;> rfl
  | infinity s =>
    cases b with
    | infinity t => cases s <;> cases t <;> rfl
    | _ => cases s <;> rfl
  | zero s =>
    cases b with
    | infinity t => cases t <;> rfl
    | finite t => cases t <;> rfl
    | _ => rfl
  | finite s m e =>
    cases b with
    | infinity t => cases t <;> rfl
    | finite t m' e' =>
      cases s with
      | positive =>
        cases t with
        | positive =>
          show some ((compare e' e).then (compare m' m)) =
            some ((compare e e').then (compare m m')).swap
          rw [hint e e', hnat m m', Ordering.swap_then]
        | negative => rfl
      | negative =>
        cases t with
        | positive => rfl
        | negative =>
          show some ((compare e' e).then (compare m' m)).swap =
            some ((compare e e').then (compare m m')).swap.swap
          rw [hint e e', hnat m m', ← Ordering.swap_then]
    | _ => cases s <;> rfl

theorem isNaN_of_compare_eq_none {a b : UnpackedFloat} (h : a.compare b = none) :
    a.isNaN = true ∨ b.isNaN = true := by
  cases a with
  | notANumber => exact .inl rfl
  | infinity s =>
    cases b with
    | notANumber => exact .inr rfl
    | _ => cases s <;> cases h
  | zero s =>
    cases b with
    | notANumber => exact .inr rfl
    | infinity t => cases t <;> cases h
    | finite t => cases t <;> cases h
    | zero t => cases h
  | finite s =>
    cases b with
    | notANumber => exact .inr rfl
    | infinity t => cases t <;> cases h
    | finite t => cases s <;> cases t <;> cases h
    | zero t => cases s <;> cases h

/-- Of two numbers that are in no order one is not a number. -/
theorem unordered_isNaN {a b : UnpackedFloat} (hlt : a.lt b = false) (heq : a.beq b = false)
    (hgt : b.lt a = false) : a.isNaN = true ∨ b.isNaN = true := by
  refine isNaN_of_compare_eq_none ?_
  unfold UnpackedFloat.lt at hlt hgt
  unfold UnpackedFloat.beq at heq
  rw [compare_swap a b] at hgt
  cases h : a.compare b with
  | none => rfl
  | some o =>
    rw [h] at hlt heq hgt
    cases o <;> simp_all [Ordering.swap]

end Order

namespace Value

/-- One of two numbers of a floating-point kind is not a number. -/
def NotNumbers : Value → Value → Prop
  | float a, float b => a.isNaN = true ∨ b.isNaN = true
  | double a, double b => a.isNaN = true ∨ b.isNaN = true
  | _, _ => False

/-- A value of the kind. -/
def IsOf (v : Value) : Kind → Prop
  | .int => ∃ n, v = integer .int n
  | .byte => ∃ n, v = integer .byte n
  | .short => ∃ n, v = integer .short n
  | .long => ∃ n, v = integer .long n
  | .float => ∃ x, v = float x
  | .double => ∃ x, v = double x
  | .string => ∃ s, v = string s
  | .bool => ∃ b, v = bool b
  | .condition => ∃ c, v = condition c
  | .score => ∃ s, v = score s
  | .selector => ∃ s, v = selector s
  | .compound => ∃ es, v = compound es
  | .list => ∃ vs, v = list vs
  | .range => ∃ r, v = range r
  | .enum => ∃ e n, v = variant e n
  | .item => ∃ id es, v = item id es
  | .resource => ∃ id, v = resource id
  | .data => ∃ p, v = data p
  | .void | .error => False

theorem isOf_kind (v : Value) : v.IsOf v.kind := by
  cases v with
  | integer w n => cases w <;> exact ⟨n, rfl⟩
  | variant e n => exact ⟨e, n, rfl⟩
  | item id es => exact ⟨id, es, rfl⟩
  | _ => exact ⟨_, rfl⟩

theorem isOf_of_kind {v : Value} {k : Kind} (h : v.kind = k) : v.IsOf k := h ▸ v.isOf_kind

theorem chain_eq_none {p q r : Prop} [Decidable p] [Decidable q] [Decidable r]
    (h : (if p then some Ordering.lt else if q then some .eq else if r then some .gt else none) =
      none) : ¬ p ∧ ¬ q ∧ ¬ r := by
  split_ifs at h with hp hq hr
  exact ⟨hp, hq, hr⟩

/-- Numbers of one kind are in an order, unless one of them is not a number. -/
theorem order?_eq_none {v w : Value} {k : Kind} (hk : k.isNumeric = true) (hv : v.kind = k)
    (hw : w.kind = k) (h : order? v w = none) : v.NotNumbers w := by
  have hv := isOf_of_kind hv
  have hw := isOf_of_kind hw
  cases k with
  | int | byte | short | long =>
    obtain ⟨a, rfl⟩ := hv
    obtain ⟨b, rfl⟩ := hw
    simp [order?] at h
  | float | double =>
    obtain ⟨a, rfl⟩ := hv
    obtain ⟨b, rfl⟩ := hw
    obtain ⟨hlt, heq, hgt⟩ := chain_eq_none h
    exact unordered_isNaN (Bool.eq_false_iff.mpr fun hl => hlt (decide_eq_true hl))
      (Bool.eq_false_iff.mpr heq) (Bool.eq_false_iff.mpr fun hl => hgt (decide_eq_true hl))
  | _ => cases hk

theorem relate_eq_none {v w : Value} {rel : Relation} (h : v.relate rel w = none) :
    rel ≠ .eq ∧ rel ≠ .ne ∧ order? v w = none := by
  cases rel <;> simp_all [relate]

/-- Arithmetic on two numbers of one kind gives such a number, unless it divides by zero. -/
theorem arith_kind (op : Arith) {v w : Value} {k : Kind} (hk : k.isNumeric = true)
    (hv : v.kind = k) (hw : w.kind = k) :
    (v.arith op w).elim ((op = .div ∨ op = .mod) ∧ ∃ width n, v = integer width n ∧
      w = integer width 0) fun u => u.kind = k := by
  have hword : ∀ {width : Width} (a b : Word width), op.onWord a b = none →
      (op = .div ∨ op = .mod) ∧ b = 0 := by
    intro width a b h
    rw [Arith.onWord_eq_result] at h
    have h : op.result? a.toInt b.toInt = none := Option.map_eq_none_iff.mp h
    cases op with
    | div | mod =>
      have hb : b.toInt = 0 := by simpa [Arith.result?] using h
      exact ⟨by simp, BitVec.eq_of_toInt_eq (by simpa using hb)⟩
    | _ => cases h
  have hv := isOf_of_kind hv
  have hw := isOf_of_kind hw
  cases k with
  | int | byte | short | long =>
    obtain ⟨a, rfl⟩ := hv
    obtain ⟨b, rfl⟩ := hw
    rw [arith]
    cases h : op.onWord a b with
    | none =>
      obtain ⟨hop, rfl⟩ := hword a b h
      exact ⟨hop, _, a, rfl, rfl⟩
    | some n => rfl
  | float | double =>
    obtain ⟨a, rfl⟩ := hv
    obtain ⟨b, rfl⟩ := hw
    rfl
  | _ => cases hk

end Value

/-! ## Operators -/

namespace Gen

/-- Whatever the draft, the result of the computation satisfies `Q`, or it has none and `N`
holds. -/
def Returns {α : Type} (m : OptionT Gen α) (Q : α → Prop) (N : Prop) : Prop :=
  ∀ d : Draft, (m.run.run d).1.elim N Q

namespace Returns

variable {α β : Type} {N : Prop}

theorem pure {Q : α → Prop} {a : α} (h : Q a) : Returns (Pure.pure a) Q N := fun _ => h

theorem ofOption {Q : α → Prop} {o : Option α} (h : o.elim N Q) :
    Returns (OptionT.mk (Pure.pure o)) Q N := fun _ => h

theorem lift {Q : α → Prop} {m : Gen α} (h : ∀ d : Draft, Q (m.run d).1) :
    Returns (liftM m : OptionT Gen α) Q N := fun d => h d

theorem bind {P : α → Prop} {Q : β → Prop} {m : OptionT Gen α} {f : α → OptionT Gen β}
    (hm : Returns m P N) (hf : ∀ a, P a → Returns (f a) Q N) : Returns (m >>= f) Q N := by
  intro d
  have hd := hm d
  rw [OptionT.run_bind, Option.elimM, run_bind]
  cases hresult : (m.run.run d).1 with
  | none =>
    rw [hresult] at hd
    exact hd
  | some a =>
    rw [hresult] at hd
    exact hf a hd _

theorem none {Q : α → Prop} (h : N) : Returns (failure : OptionT Gen α) Q N := fun _ => h

theorem imp {Q : α → Prop} {N' : Prop} {m : OptionT Gen α} (hm : Returns m Q N) (h : N → N') :
    Returns m Q N' := by
  intro d
  have hd := hm d
  cases hresult : (m.run.run d).1 with
  | none =>
    rw [hresult] at hd
    exact h hd
  | some a =>
    rw [hresult] at hd
    exact hd

end Returns

end Gen

namespace Score

theorem returns_modify (target : Score) (op : Arith) {v : Value} {N : Prop}
    (hv : v.kind = .int ∨ v.kind = .score) : Returns (target.modify op v) (fun _ => True) N := by
  rcases hv with hv | hv
  · obtain ⟨n, rfl⟩ := Value.isOf_of_kind hv
    unfold modify
    dsimp only
    split
    · exact .lift fun _ => trivial
    · exact .bind (P := fun _ => True) (.lift fun _ => trivial) fun _ _ =>
        .bind (P := fun _ => True) (.lift fun _ => trivial) fun _ _ => .lift fun _ => trivial
  · obtain ⟨s, rfl⟩ := Value.isOf_of_kind hv
    exact .lift fun _ => trivial

theorem returns_compute (op : Arith) (source : Score) {v : Value} {N : Prop}
    (hv : v.kind = .int ∨ v.kind = .score) :
    Returns (source.compute op v) (fun u => u.kind = .score) N :=
  .bind (P := fun _ => True) (.lift fun _ => trivial) fun result _ =>
    .bind (P := fun _ => True) (.lift fun _ => trivial) fun _ _ =>
      .bind (returns_modify result op hv) fun _ _ => .pure rfl

theorem returns_store (target : Score) {v : Value} {N : Prop}
    (hv : v.kind ∈ Kind.castSources .score) : Returns (target.store v) (fun _ => True) N := by
  have hcases : v.kind = .int ∨ v.kind = .bool ∨ v.kind = .condition ∨ v.kind = .data := by
    simpa [Kind.castSources] using hv
  rcases hcases with h | h | h | h
  all_goals obtain ⟨a, rfl⟩ := Value.isOf_of_kind h
  · exact .lift fun _ => trivial
  · exact .lift fun _ => trivial
  · exact .bind (P := fun _ => True) (.lift fun _ => trivial) fun _ _ => .lift fun _ => trivial
  · exact .lift fun _ => trivial

/-- Every value that the tables cast into a score gets one. -/
theorem returns_ofValue {v : Value} {N : Prop} (hv : v.kind ∈ Kind.castSources .score) :
    Returns (ofValue v) (fun u => u.kind = .score) N := by
  have hcases : v.kind = .int ∨ v.kind = .bool ∨ v.kind = .condition ∨ v.kind = .data := by
    simpa [Kind.castSources] using hv
  have hstore := fun constant : Score => returns_store constant (N := N) hv
  rcases hcases with h | h | h | h
  all_goals obtain ⟨a, rfl⟩ := Value.isOf_of_kind h
  case inr.inr.inl =>
    exact .bind (P := fun _ => True) (.lift fun _ => trivial) fun _ _ => .pure rfl
  all_goals
    exact .bind (P := fun _ => True) (.lift fun _ => trivial) fun constant _ =>
      .bind (hstore constant) fun _ _ => .pure rfl

end Score

namespace BinaryRule

/-- Whether a rule is meant for operands and a result of these kinds. -/
def signature : BinaryRule → (left right result : Kind) → Bool
  | fold _, l, r, res => l.isNumeric && r = l && res = l
  | decide rel, l, r, res => r = l && res = .bool && (l.isNumeric || rel = .eq || rel = .ne)
  | concat, _, _, res => res = .string
  | both, l, r, res | either, l, r, res => l = .bool && r = .bool && res = .bool
  | rangeHas, l, r, res => l = .int && r = .range && res = .bool
  | conjoin, l, r, res | disjoin, l, r, res =>
    (l = .bool || l = .condition) && r = .condition && res = .condition
  | compareScore _, l, r, res => l = .score && (r = .int || r = .score) && res = .condition
  | compareWithScore _, l, r, res => l = .int && r = .score && res = .condition
  | scoreWithin, l, r, res => l = .score && r = .range && res = .condition
  | scoreArith _, l, r, res => l = .score && (r = .int || r = .score) && res = .score
  | arithWithScore _, l, r, res => l = .int && r = .score && res = .score
  | store, _, _, _ | modify _, _, _, _ => false

/-- Why a rule has no result for two operands. -/
inductive Fails : BinaryRule → Value → Value → Prop
  /-- An integer is divided by zero. -/
  | division {op : Arith} {width : Width} {n : Word width} (hop : op = .div ∨ op = .mod) :
    Fails (fold op) (.integer width n) (.integer width 0)
  /-- What is not a number has no order. -/
  | order {rel : Relation} {v w : Value} (heq : rel ≠ .eq) (hne : rel ≠ .ne)
    (h : v.NotNumbers w) : Fails (decide rel) v w

/-- **Operators between two operands** give a value of the kind of the result, or fail. -/
theorem returns {rule : BinaryRule} {l r res : Kind} (h : rule.signature l r res = true)
    {v w : Value} (hv : v.kind = l) (hw : w.kind = r) :
    Returns (rule.apply v w) (fun u => u.kind = res) (rule.Fails v w) := by
  cases rule with
  | fold op =>
    simp only [signature, Bool.and_eq_true, decide_eq_true_eq] at h
    obtain ⟨⟨hk, rfl⟩, rfl⟩ := h
    have harith := Value.arith_kind op hk hv hw
    refine .ofOption ?_
    cases hresult : v.arith op w with
    | none =>
      rw [hresult] at harith
      obtain ⟨hop, width, n, rfl, rfl⟩ := harith
      exact .division hop
    | some u =>
      rw [hresult] at harith
      exact harith
  | decide rel =>
    simp only [signature, Bool.and_eq_true, Bool.or_eq_true, decide_eq_true_eq] at h
    obtain ⟨⟨rfl, rfl⟩, hk⟩ := h
    refine .ofOption ?_
    cases hresult : v.relate rel w with
    | none =>
      obtain ⟨heq, hne, horder⟩ := Value.relate_eq_none hresult
      have hk : r.isNumeric = true := by simpa [heq, hne] using hk
      exact .order heq hne (Value.order?_eq_none hk hv hw horder)
    | some b => rfl
  | concat =>
    obtain rfl : res = .string := by simpa [signature] using h
    exact .pure rfl
  | both | either =>
    simp only [signature, Bool.and_eq_true, decide_eq_true_eq] at h
    obtain ⟨⟨rfl, rfl⟩, rfl⟩ := h
    obtain ⟨a, rfl⟩ := Value.isOf_of_kind hv
    obtain ⟨b, rfl⟩ := Value.isOf_of_kind hw
    exact .pure rfl
  | rangeHas | scoreWithin =>
    simp only [signature, Bool.and_eq_true, decide_eq_true_eq] at h
    obtain ⟨⟨rfl, rfl⟩, rfl⟩ := h
    obtain ⟨a, rfl⟩ := Value.isOf_of_kind hv
    obtain ⟨b, rfl⟩ := Value.isOf_of_kind hw
    exact .pure rfl
  | conjoin | disjoin =>
    simp only [signature, Bool.and_eq_true, Bool.or_eq_true, decide_eq_true_eq] at h
    obtain ⟨⟨hl, rfl⟩, rfl⟩ := h
    obtain ⟨b, rfl⟩ := Value.isOf_of_kind hw
    rcases hl with rfl | rfl
    all_goals
      obtain ⟨a, rfl⟩ := Value.isOf_of_kind hv
      exact .pure rfl
  | compareScore rel =>
    simp only [signature, Bool.and_eq_true, Bool.or_eq_true, decide_eq_true_eq] at h
    obtain ⟨⟨rfl, hr⟩, rfl⟩ := h
    obtain ⟨s, rfl⟩ := Value.isOf_of_kind hv
    rcases hr with rfl | rfl
    all_goals
      obtain ⟨b, rfl⟩ := Value.isOf_of_kind hw
      exact .pure rfl
  | compareWithScore rel =>
    simp only [signature, Bool.and_eq_true, decide_eq_true_eq] at h
    obtain ⟨⟨rfl, rfl⟩, rfl⟩ := h
    obtain ⟨a, rfl⟩ := Value.isOf_of_kind hv
    obtain ⟨s, rfl⟩ := Value.isOf_of_kind hw
    exact .pure rfl
  | scoreArith op =>
    simp only [signature, Bool.and_eq_true, Bool.or_eq_true, decide_eq_true_eq] at h
    obtain ⟨⟨rfl, hr⟩, rfl⟩ := h
    obtain ⟨s, rfl⟩ := Value.isOf_of_kind hv
    subst hw
    exact Score.returns_compute op s hr
  | arithWithScore op =>
    simp only [signature, Bool.and_eq_true, decide_eq_true_eq] at h
    obtain ⟨⟨rfl, rfl⟩, rfl⟩ := h
    obtain ⟨s, rfl⟩ := Value.isOf_of_kind hw
    exact Score.returns_compute op s (.inl hv)
  | store | modify => cases h

end BinaryRule

/-- **Entries** of the tables have the kinds that their rules are meant for. -/
theorem Kind.signature_of_mem_operations {k : Kind} {o : Operation} (h : o ∈ k.operations)
    (hop : o.op.joins = true) : o.rule.signature k o.right o.result = true := by
  have hall :
      k.operations.all (fun o => o.op.joins → o.rule.signature k o.right o.result) = true := by
    cases k <;> decide
  exact of_decide_eq_true (List.all_eq_true.mp hall o h) hop

/-- **Operators in front of an operand** give a value of the kind of the result. -/
theorem UnaryRule.returns {k : Kind} {o : UnaryOperation} (h : o ∈ k.unaryOperations) {v : Value}
    (hv : v.kind = k) {N : Prop} : Returns (o.rule.apply v) (fun u => u.kind = o.result) N := by
  have hv := Value.isOf_of_kind hv
  cases k with
  | bool | condition | int | byte | short | long | float | double =>
    obtain rfl := List.mem_singleton.mp h
    obtain ⟨a, rfl⟩ := hv
    exact .pure rfl
  | score =>
    obtain rfl := List.mem_singleton.mp h
    obtain ⟨s, rfl⟩ := hv
    exact .lift fun _ => rfl
  | _ => cases h

/-- **Casts** give a value of the kind into which they cast. -/
theorem Cast.returns {k k' : Kind} {c : Cast} (h : Kind.cast? k k' = some c) {v : Value}
    (hv : v.kind = k) {N : Prop} : Returns (c.apply v) (fun u => u.kind = k') N := by
  obtain ⟨rfl, hk⟩ := Kind.mem_castSources_of_cast? h
  have hof := Value.isOf_of_kind hv
  cases k' with
  | score => exact Score.returns_ofValue (hv ▸ hk)
  | int | float | long =>
    simp only [Kind.castSources, List.mem_cons, List.not_mem_nil, or_false] at hk
    rcases hk with rfl | rfl | rfl
    all_goals
      obtain ⟨a, rfl⟩ := hof
      exact .ofOption rfl
  | double =>
    simp only [Kind.castSources, List.mem_cons, List.not_mem_nil, or_false] at hk
    rcases hk with rfl | rfl | rfl | rfl | rfl
    all_goals
      obtain ⟨a, rfl⟩ := hof
      exact .ofOption rfl
  | condition =>
    simp only [Kind.castSources, List.mem_cons, List.not_mem_nil, or_false] at hk
    rcases hk with rfl | rfl | rfl | rfl
    all_goals
      obtain ⟨a, rfl⟩ := hof
      exact .ofOption rfl
  | string | range | item =>
    obtain rfl := List.mem_singleton.mp hk
    obtain ⟨a, rfl⟩ := hof
    exact .pure rfl
  | _ => cases hk

theorem Word.greatest_lt_of_ofInt?_eq_none {n : Nat} (h : Word.ofInt? .int n = none) :
    Width.int.greatest < n := by
  by_contra hle
  have hleast : Width.int.least ≤ (n : Int) := (show Width.int.least ≤ 0 by decide).trans (by omega)
  have hholds : Width.int.holds n = true := by
    rw [Width.holds, decide_eq_true hleast, decide_eq_true (not_lt.mp hle)]
    rfl
  rw [Word.ofInt?, if_pos hholds] at h
  cases h

/-- A text or a list whose length is beyond the plain integers. -/
def Value.TooLong : Value → Prop
  | string s => Width.int.greatest < s.length
  | list vs => Width.int.greatest < vs.length
  | _ => False

namespace MemberRule

/-- Why a member has no value. -/
inductive Fails : MemberRule → Value → String → Prop
  /-- It is a method without a result. -/
  | reset {v : Value} {x : String} : Fails reset v x
  | length {v : Value} {x : String} (h : v.TooLong) : Fails length v x
  /-- The range has no such bound. -/
  | bound {r : Range} {x : String} (h : (if x = "min" then r.min else r.max) = none) :
    Fails rangeBound (.range r) x

/-- **Members** give a value of the kind of the result, or fail. -/
theorem returns {k : Kind} {name : String} {m : Member} (h : Kind.member? k name = some m)
    {v : Value} (hv : v.kind = k) : Returns (m.rule.apply v name) (fun u => u.kind = m.result)
      (m.rule.Fails v name) := by
  obtain ⟨hm, -⟩ := Kind.mem_members_of_member? h
  have hof := Value.isOf_of_kind hv
  cases k with
  | string | list =>
    obtain rfl := List.mem_singleton.mp hm
    obtain ⟨a, rfl⟩ := hof
    refine .ofOption ?_
    cases hresult : Word.ofInt? .int a.length with
    | none => exact .length (Word.greatest_lt_of_ofInt?_eq_none hresult)
    | some n => rfl
  | selector =>
    obtain rfl := List.mem_singleton.mp hm
    obtain ⟨s, rfl⟩ := hof
    exact .pure rfl
  | score =>
    obtain rfl := List.mem_singleton.mp hm
    obtain ⟨s, rfl⟩ := hof
    exact .bind (P := fun _ => True) (.lift fun _ => trivial) fun _ _ => .none .reset
  | range =>
    obtain ⟨r, rfl⟩ := hof
    have hbound : Returns (rangeBound.apply (.range r) name) (fun u => u.kind = .int)
        (rangeBound.Fails (.range r) name) := by
      refine .ofOption ?_
      cases hresult : (if name = "min" then r.min else r.max) with
      | none => exact .bound hresult
      | some n => rfl
    rcases List.mem_pair.mp hm with rfl | rfl
    · exact hbound
    · exact hbound
  | resource =>
    obtain ⟨id, rfl⟩ := hof
    rcases List.mem_pair.mp hm with rfl | rfl
    · exact .pure rfl
    · exact .pure rfl
  | _ => cases hm

end MemberRule

end Packwright
