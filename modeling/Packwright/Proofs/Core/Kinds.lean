import Packwright.Proofs.Core.Trees
import Packwright.Proofs.Parsing.Checked

/-!
# Kinds of core expressions

Reading resolves every operator by the kinds of its operands.  An expression of the shape of the
core has one of four kinds, and the operators between these kinds are resolved as the trees of the
core ask for it.

* `Expr.Sorted V e`: if the expression has the shape of the core, it is a tree of the core over the
  variables of `V`, and its kind is that of the tree.
* `Sorted.binary`, `Sorted.unary`: resolved operators keep expressions sorted.
* `Expr.Built.sorted`: where all names in scope are variables, expressions without errors are
  sorted.
-/

namespace Packwright

open Packwright.Core

namespace Expr

variable {V : Set String}

/-- An expression of the shape of the core is a tree of the core. -/
structure Sorted (V : Set String) (e : Expr) : Prop where
  number : ∀ a, e.number? = some a →
    (e.kind = .int ∨ e.kind = .score) ∧ NumberTree V e a e.kind
  truth : ∀ t, e.truth? = some t →
    ((e.kind = .bool ∨ e.kind = .condition) ∧ TruthTree V e t e.kind) ∨
      ∃ i x, e = .name i x ∧ e.kind = .score ∧ x ∈ V
  range : ∀ r, e.range? = some r → e.kind = .range

/-! ## Casts -/

theorem number?_casted (e : Expr) (c : Option Cast) : (e.casted c).number? = e.number? := by
  cases c <;> rfl

theorem truth?_casted (e : Expr) (c : Option Cast) : (e.casted c).truth? = e.truth? := by
  cases c <;> rfl

/-- The cast of an operand of a connective between conditions. -/
def ToCondition (k : Kind) (c : Option Cast) : Prop :=
  (c = none ∧ k ≠ .score) ∨ (c = some ⟨k, .condition⟩ ∧ k ≠ .condition)

namespace Sorted

variable {e l r : Expr}

theorem of_number (h : ∀ a, e.number? = some a →
      (e.kind = .int ∨ e.kind = .score) ∧ NumberTree V e a e.kind)
    (ht : e.truth? = none) (hr : e.range? = none) : e.Sorted V := by
  refine ⟨h, fun t ht' => ?_, fun r hr' => ?_⟩
  · rw [ht] at ht'
    cases ht'
  · rw [hr] at hr'
    cases hr'

theorem of_truth (h : ∀ t, e.truth? = some t →
      (e.kind = .bool ∨ e.kind = .condition) ∧ TruthTree V e t e.kind)
    (hn : e.number? = none) (hr : e.range? = none) : e.Sorted V := by
  refine ⟨fun a ha => ?_, fun t ht => Or.inl (h t ht), fun r hr' => ?_⟩
  · rw [hn] at ha
    cases ha
  · rw [hr] at hr'
    cases hr'

/-- A literal has the kind of its value. -/
theorem literal {i : Info} {v : Value} (hi : i.ty = .plain v.kind) :
    (Expr.literal i v).Sorted V := by
  obtain ⟨_, span⟩ := i
  obtain rfl := hi
  refine ⟨fun a ha => ?_, fun t ht => ?_, fun r hr => ?_⟩
  · cases v with
    | integer w n =>
      cases w with
      | int =>
        cases ha
        exact ⟨Or.inl rfl, .literal _ n⟩
      | _ => cases ha
    | _ => cases ha
  · cases v with
    | bool b =>
      cases ht
      exact Or.inl ⟨Or.inl rfl, .constant _ b⟩
    | _ => cases ht
  · cases hr

theorem name {x : String} (hx : x ∈ V) {i : Info} (hi : i.ty = .plain .score) :
    (Expr.name i x).Sorted V := by
  obtain ⟨_, span⟩ := i
  obtain rfl := hi
  refine ⟨fun a ha => ?_, fun t ht => Or.inr ⟨_, x, rfl, rfl, hx⟩, fun r hr => ?_⟩
  · cases ha
    exact ⟨Or.inr rfl, .variable _ hx⟩
  · cases hr

/-- What has no shape of the core is sorted. -/
theorem other (hn : e.number? = none) (ht : e.truth? = none) (hr : e.range? = none) :
    e.Sorted V :=
  of_number (fun a ha => by rw [hn] at ha; cases ha) ht hr

/-- A condition as an operand, cast where it is a variable or where a condition is asked for. -/
theorem casted (h : e.Sorted V) {t : Truth} (ht : e.truth? = some t) {c : Option Cast}
    (hc : ToCondition e.kind c) : ∃ k, TruthTree V (e.casted c) t k := by
  rcases h.truth t ht with ⟨hk, htree⟩ | ⟨i, x, rfl, hk, hx⟩
  · rcases hc with ⟨rfl, -⟩ | ⟨rfl, hne⟩
    · exact ⟨e.kind, htree⟩
    · rw [hk.resolve_right hne] at htree
      exact ⟨.condition, .toCondition htree rfl⟩
  · obtain rfl : Truth.variable x = t := Option.some.inj ht
    rcases hc with ⟨-, hne⟩ | ⟨rfl, -⟩
    · exact absurd hk hne
    · exact ⟨.condition, .variable hx rfl⟩

end Sorted

/-! ## Operators between kinds of the core -/

theorem resolve_arith {op : Arith} {k k' : Kind} {res : Resolved} (hk : k = .int ∨ k = .score)
    (hk' : k' = .int ∨ k' = .score) (h : resolveBinary? k (.arith op) k' = some res) :
    (k = .int ∧ k' = .int ∧ res = ⟨⟨.arith op, .int, .int, .fold op⟩, none, none⟩) ∨
      (k = .score ∧ res = ⟨⟨.arith op, k', .score, .scoreArith op⟩, none, none⟩) ∨
      (k = .int ∧ k' = .score ∧ (op = .add ∨ op = .mul) ∧
        res = ⟨⟨.arith op, .score, .score, .arithWithScore op⟩, none, none⟩) ∨
      (k = .int ∧ k' = .score ∧
        res = ⟨⟨.arith op, .score, .score, .scoreArith op⟩, some ⟨.int, .score⟩, none⟩) := by
  rcases hk with rfl | rfl <;> rcases hk' with rfl | rfl <;> cases op <;> cases h <;> simp

theorem resolve_relate {r : Relation} {k k' : Kind} {res : Resolved} (hk : k = .int ∨ k = .score)
    (hk' : k' = .int ∨ k' = .score) (h : resolveBinary? k (.relate r) k' = some res) :
    (k = .int ∧ k' = .int ∧ res = ⟨⟨.relate r, .int, .bool, .decide r⟩, none, none⟩) ∨
      (k = .score ∧ res = ⟨⟨.relate r, k', .condition, .compareScore r⟩, none, none⟩) ∨
      (k = .int ∧ k' = .score ∧
        res = ⟨⟨.relate r, .score, .condition, .compareWithScore r⟩, none, none⟩) := by
  rcases hk with rfl | rfl <;> rcases hk' with rfl | rfl <;> cases r <;> cases h <;> simp

theorem resolve_within {k : Kind} {res : Resolved} (hk : k = .int ∨ k = .score)
    (h : resolveBinary? k .within .range = some res) :
    (k = .int ∧ res = ⟨⟨.within, .range, .bool, .rangeHas⟩, none, none⟩) ∨
      (k = .score ∧ res = ⟨⟨.within, .range, .condition, .scoreWithin⟩, none, none⟩) := by
  rcases hk with rfl | rfl <;> cases h <;> simp

theorem resolve_connective {op : BinaryOp} {constant conditional : BinaryRule}
    (hop : (op = .and ∧ constant = .both ∧ conditional = .conjoin) ∨
      (op = .or ∧ constant = .either ∧ conditional = .disjoin))
    {k k' : Kind} {res : Resolved} (hk : k = .bool ∨ k = .condition ∨ k = .score)
    (hk' : k' = .bool ∨ k' = .condition ∨ k' = .score) (h : resolveBinary? k op k' = some res) :
    (k = .bool ∧ k' = .bool ∧ res = ⟨⟨op, .bool, .bool, constant⟩, none, none⟩) ∨
      (res.operation = ⟨op, .condition, .condition, conditional⟩ ∧ ToCondition k res.leftCast ∧
        ToCondition k' res.rightCast) := by
  unfold ToCondition
  rcases hop with ⟨rfl, rfl, rfl⟩ | ⟨rfl, rfl, rfl⟩ <;> rcases hk with rfl | rfl | rfl <;>
    rcases hk' with rfl | rfl | rfl <;> cases h <;> simp

namespace Sorted

variable {e l r : Expr}

theorem kind_of_truth (h : e.Sorted V) {t : Truth} (ht : e.truth? = some t) :
    e.kind = .bool ∨ e.kind = .condition ∨ e.kind = .score := by
  rcases h.truth t ht with ⟨hk | hk, -⟩ | ⟨-, -, -, hk, -⟩
  · exact Or.inl hk
  · exact Or.inr (Or.inl hk)
  · exact Or.inr (Or.inr hk)

theorem tree_of_bool (h : e.Sorted V) {t : Truth} (ht : e.truth? = some t) (hk : e.kind = .bool) :
    TruthTree V e t .bool := by
  rcases h.truth t ht with ⟨-, htree⟩ | ⟨-, -, -, hscore, -⟩
  · rwa [hk] at htree
  · rw [hk] at hscore
    cases hscore

/-- **Arithmetic** between numbers is a number. -/
theorem arith (hl : l.Sorted V) (hr : r.Sorted V) {op : Arith} {res : Resolved}
    (h : resolveBinary? l.kind (.arith op) r.kind = some res) {a b : Number}
    (ha : l.number? = some a) (hb : r.number? = some b) (i : Info) :
    (res.operation.result = .int ∨ res.operation.result = .score) ∧
      NumberTree V (.binary i (.arith op) (l.casted res.leftCast)
        (r.casted res.rightCast) (some res.operation)) (.arith op a b) res.operation.result := by
  obtain ⟨hkl, hltree⟩ := hl.number a ha
  obtain ⟨hkr, hrtree⟩ := hr.number b hb
  rcases resolve_arith hkl hkr h with ⟨hk, hk', rfl⟩ | ⟨hk, rfl⟩ | ⟨hk, hk', hop, rfl⟩ |
    ⟨hk, hk', rfl⟩
  · rw [hk] at hltree
    rw [hk'] at hrtree
    exact ⟨Or.inl rfl, .fold hltree hrtree rfl⟩
  · rw [hk] at hltree
    exact ⟨Or.inr rfl, .scoreArith hltree hrtree rfl⟩
  · rw [hk] at hltree
    rw [hk'] at hrtree
    exact ⟨Or.inr rfl, .arithWithScore hop hltree hrtree rfl⟩
  · rw [hk] at hltree
    exact ⟨Or.inr rfl, .scoreArith (.toScore hltree rfl) hrtree rfl⟩

/-- **Relations** between numbers are conditions. -/
theorem relate (hl : l.Sorted V) (hr : r.Sorted V) {relation : Relation} {res : Resolved}
    (h : resolveBinary? l.kind (.relate relation) r.kind = some res) {a b : Number}
    (ha : l.number? = some a) (hb : r.number? = some b) (i : Info) :
    (res.operation.result = .bool ∨ res.operation.result = .condition) ∧
      TruthTree V (.binary i (.relate relation)
        (l.casted res.leftCast) (r.casted res.rightCast) (some res.operation))
        (.relate relation a b) res.operation.result := by
  obtain ⟨hkl, hltree⟩ := hl.number a ha
  obtain ⟨hkr, hrtree⟩ := hr.number b hb
  rcases resolve_relate hkl hkr h with ⟨hk, hk', rfl⟩ | ⟨hk, rfl⟩ | ⟨hk, hk', rfl⟩
  · rw [hk] at hltree
    rw [hk'] at hrtree
    exact ⟨Or.inl rfl, .relateConstants hltree hrtree rfl⟩
  · rw [hk] at hltree
    exact ⟨Or.inr rfl, .compareScore hltree hrtree rfl⟩
  · rw [hk] at hltree
    rw [hk'] at hrtree
    exact ⟨Or.inr rfl, .compareWithScore hltree hrtree rfl⟩

/-- **Membership** of a number in a range is a condition. -/
theorem within (hl : l.Sorted V) (hr : r.Sorted V) {res : Resolved}
    (h : resolveBinary? l.kind .within r.kind = some res) {a : Number} {range : Range}
    (ha : l.number? = some a) (hrange : r.range? = some range) (i : Info) :
    (res.operation.result = .bool ∨ res.operation.result = .condition) ∧
      TruthTree V (.binary i .within (l.casted res.leftCast)
        (r.casted res.rightCast) (some res.operation)) (.within a range) res.operation.result := by
  obtain ⟨hkl, hltree⟩ := hl.number a ha
  rw [hr.range range hrange] at h
  rcases resolve_within hkl h with ⟨hk, rfl⟩ | ⟨hk, rfl⟩
  · rw [hk] at hltree
    exact ⟨Or.inl rfl, .rangeHas hltree hrange rfl⟩
  · rw [hk] at hltree
    exact ⟨Or.inr rfl, .scoreWithin hltree hrange rfl⟩

/-- **Connectives** between conditions are conditions. -/
theorem connective (hl : l.Sorted V) (hr : r.Sorted V) {op : BinaryOp}
    {constant conditional : BinaryRule}
    (hop : (op = .and ∧ constant = .both ∧ conditional = .conjoin) ∨
      (op = .or ∧ constant = .either ∧ conditional = .disjoin)) {res : Resolved}
    (h : resolveBinary? l.kind op r.kind = some res) {s t u : Truth}
    (hs : l.truth? = some s) (ht : r.truth? = some t)
    (hu : (op = .and ∧ u = .both s t) ∨ (op = .or ∧ u = .either s t)) (i : Info) :
    (res.operation.result = .bool ∨ res.operation.result = .condition) ∧
      TruthTree V (.binary i op (l.casted res.leftCast)
        (r.casted res.rightCast) (some res.operation)) u res.operation.result := by
  rcases resolve_connective hop (hl.kind_of_truth hs) (hr.kind_of_truth ht) h with
    ⟨hk, hk', rfl⟩ | ⟨hres, hlc, hrc⟩
  · have hltree := hl.tree_of_bool hs hk
    have hrtree := hr.tree_of_bool ht hk'
    refine ⟨Or.inl rfl, ?_⟩
    rcases hop with ⟨rfl, rfl, -⟩ | ⟨rfl, rfl, -⟩
    · obtain rfl : u = .both s t := by simpa using hu
      exact .both hltree hrtree rfl
    · obtain rfl : u = .either s t := by simpa using hu
      exact .either hltree hrtree rfl
  · obtain ⟨k, hltree⟩ := hl.casted hs hlc
    obtain ⟨k', hrtree⟩ := hr.casted ht hrc
    rw [hres]
    refine ⟨Or.inr rfl, ?_⟩
    rcases hop with ⟨rfl, -, rfl⟩ | ⟨rfl, -, rfl⟩
    · obtain rfl : u = .both s t := by simpa using hu
      exact .conjoin hltree hrtree rfl
    · obtain rfl : u = .either s t := by simpa using hu
      exact .disjoin hltree hrtree rfl

/-- **Resolved operators** keep expressions sorted. -/
theorem binary (hl : l.Sorted V) (hr : r.Sorted V) {op : BinaryOp} {res : Resolved}
    (h : resolveBinary? l.kind op r.kind = some res) {i : Info}
    (hi : i.ty = .plain res.operation.result) :
    (Expr.binary i op (l.casted res.leftCast) (r.casted res.rightCast)
      (some res.operation)).Sorted V := by
  obtain ⟨_, span⟩ := i
  obtain rfl := hi
  cases op with
  | arith op =>
    refine of_number (fun c hc => ?_) rfl rfl
    rw [number?, number?_casted, number?_casted] at hc
    obtain ⟨a, ha, hc⟩ := Option.bind_eq_some_iff.mp hc
    obtain ⟨b, hb, hc⟩ := Option.bind_eq_some_iff.mp hc
    cases hc
    exact hl.arith hr h ha hb _
  | relate relation =>
    refine of_truth (fun t ht => ?_) rfl rfl
    rw [truth?, number?_casted, number?_casted] at ht
    obtain ⟨a, ha, ht⟩ := Option.bind_eq_some_iff.mp ht
    obtain ⟨b, hb, ht⟩ := Option.bind_eq_some_iff.mp ht
    cases ht
    exact hl.relate hr h ha hb _
  | within =>
    refine of_truth (fun t ht => ?_) rfl rfl
    rw [truth?, number?_casted] at ht
    obtain ⟨a, ha, ht⟩ := Option.bind_eq_some_iff.mp ht
    obtain ⟨range, hrange, ht⟩ := Option.bind_eq_some_iff.mp ht
    cases ht
    cases hc : res.rightCast with
    | none =>
      rw [hc] at hrange
      have htree := hl.within hr h ha hrange ⟨.plain res.operation.result, span⟩
      rwa [hc] at htree
    | some c =>
      rw [hc] at hrange
      cases hrange
  | and =>
    refine of_truth (fun u hu => ?_) rfl rfl
    rw [truth?, truth?_casted, truth?_casted] at hu
    obtain ⟨s, hs, hu⟩ := Option.bind_eq_some_iff.mp hu
    obtain ⟨t, ht, hu⟩ := Option.bind_eq_some_iff.mp hu
    cases hu
    exact hl.connective hr (Or.inl ⟨rfl, rfl, rfl⟩) h hs ht (Or.inl ⟨rfl, rfl⟩) _
  | or =>
    refine of_truth (fun u hu => ?_) rfl rfl
    rw [truth?, truth?_casted, truth?_casted] at hu
    obtain ⟨s, hs, hu⟩ := Option.bind_eq_some_iff.mp hu
    obtain ⟨t, ht, hu⟩ := Option.bind_eq_some_iff.mp hu
    cases hu
    exact hl.connective hr (Or.inr ⟨rfl, rfl, rfl⟩) h hs ht (Or.inr ⟨rfl, rfl⟩) _
  | assign => exact other rfl rfl rfl
  | update op => exact other rfl rfl rfl

/-- **Resolved operators** in front of an expression keep it sorted. -/
theorem unary (h : e.Sorted V) {op : UnaryOp} {c : Option Cast} {o : UnaryOperation}
    (hres : resolveUnary? e.kind op = some (c, o)) {i : Info} (hi : i.ty = .plain o.result) :
    (Expr.unary i op (e.casted c) (some o)).Sorted V := by
  obtain ⟨_, span⟩ := i
  obtain rfl := hi
  cases op with
  | neg =>
    refine of_number (fun a ha => ?_) rfl rfl
    rw [number?, number?_casted] at ha
    obtain ⟨b, hb, rfl⟩ := Option.map_eq_some_iff.mp ha
    obtain ⟨hk, htree⟩ := h.number b hb
    rcases hk with hk | hk
    · rw [hk] at hres htree
      cases hres
      exact ⟨Or.inl rfl, .negate htree rfl⟩
    · rw [hk] at hres htree
      cases hres
      exact ⟨Or.inr rfl, .negateScore htree rfl⟩
  | not =>
    refine of_truth (fun t ht => ?_) rfl rfl
    rw [truth?, truth?_casted] at ht
    obtain ⟨s, hs, rfl⟩ := Option.map_eq_some_iff.mp ht
    rcases h.truth s hs with ⟨hk | hk, htree⟩ | ⟨i, x, rfl, hk, hx⟩
    · rw [hk] at hres htree
      cases hres
      exact ⟨Or.inl rfl, .invert htree rfl⟩
    · rw [hk] at hres htree
      cases hres
      exact ⟨Or.inr rfl, .invert htree rfl⟩
    · obtain rfl : Truth.variable x = s := Option.some.inj hs
      rw [hk] at hres
      cases hres
      exact ⟨Or.inr rfl, .invert (.variable hx rfl) rfl⟩

/-- The condition of a statement. -/
theorem asCondition (h : e.Sorted V) (herror : e.isError = false) {t : Truth}
    (ht : (Parse.asCondition e).truth? = some t) :
    TruthTree V (Parse.asCondition e) t .condition := by
  unfold Parse.asCondition at ht ⊢
  rw [herror, Bool.false_or] at ht ⊢
  split at ht
  · rename_i hsame
    have hk : e.kind = .condition := of_decide_eq_true hsame
    rw [if_pos hsame]
    rcases h.truth t ht with ⟨-, htree⟩ | ⟨-, -, -, hscore, -⟩
    · rwa [hk] at htree
    · rw [hk] at hscore
      cases hscore
  · rename_i hdiffer
    have hne : e.kind ≠ .condition := fun hk => hdiffer (decide_eq_true hk)
    rw [if_neg hdiffer]
    rw [truth?_casted] at ht
    rcases h.truth t ht with ⟨hk, htree⟩ | ⟨i, x, rfl, hk, hx⟩
    · rw [hk.resolve_right hne] at htree ⊢
      exact .toCondition htree rfl
    · obtain rfl : Truth.variable x = t := Option.some.inj ht
      rw [hk]
      exact .variable hx rfl

end Sorted

end Expr

/-! ## Expressions without errors -/

namespace TypeEnv

/-- The names in scope. -/
def names (Γ : TypeEnv) : Set String := {x | (Γ x).isSome = true}

theorem mem_names {Γ : TypeEnv} {x : String} : x ∈ Γ.names ↔ (Γ x).isSome = true := Iff.rfl

/-- The names in scope are variables. -/
def Scores (Γ : TypeEnv) : Prop := ∀ x, ∀ ty ∈ Γ x, ty = .plain .score

end TypeEnv

namespace Expr

theorem Sound.child {e c : Expr} (h : e.Sound) (hc : c ∈ e.children) : c.Sound :=
  fun p hp => h p (.child hc hp)

theorem Sound.of_casted {e : Expr} {c : Option Cast} (h : (e.casted c).Sound) : e.Sound := by
  cases c with
  | none => exact h
  | some c => exact h.child List.mem_cons_self

theorem Sound.ty_ne {e : Expr} (h : e.Sound) : e.ty ≠ .unresolved := by
  intro hty
  have herror := (h e .self).1
  rw [isError, ← ty, hty] at herror
  cases herror

/-- **Expressions without errors** are sorted where all names in scope are variables. -/
theorem Built.sorted {Γ : TypeEnv} {b : Bool} {e : Expr} (h : e.Built False Γ b) (hb : b = false)
    (hΓ : Γ.Scores) (hsound : e.Sound) : e.Sorted Γ.names := by
  induction h with
  | literal hty => exact .literal hty
  | @name _ i x hx => exact .name (by rw [TypeEnv.mem_names, hx]; rfl) (hΓ x i.ty hx)
  | binary hl hr hop hres hty ihl ihr =>
    refine Sorted.binary (ihl rfl ?_) (ihr rfl ?_) hres hty
    · exact (hsound.child List.mem_cons_self).of_casted
    · exact (hsound.child (List.mem_cons_of_mem _ List.mem_cons_self)).of_casted
  | unary he hres hty ih =>
    exact (ih rfl (hsound.child List.mem_cons_self).of_casted).unary hres hty
  | unknown _ hty | failedBinary _ _ _ hty | failedUnary _ _ hty | failedRange _ _ _ hty =>
    exact absurd hty hsound.ty_ne
  | cast => cases hb
  | range hmin hmax hkinds hty =>
    refine ⟨fun a ha => (nomatch ha), fun t ht => (nomatch ht), fun r hr => ?_⟩
    exact congrArg Ty.kind hty
  | list | compound | member | dataPath | variant | call => exact .other rfl rfl rfl
  | error h | failed _ _ h => exact h.elim

end Expr

end Packwright
