import Packwright.Proofs.Core.Numbers

/-!
# Conditions of the core

What generation makes of a condition of the core.  Constants are decided; every other condition
becomes predicates on scores, which lines in front of it have computed.

* `Score.holds_relateAmount`, `Score.holds_relateScore`: the predicates of a relation.
* `Condition.holds_and`, `Condition.holds_or`, `Condition.holds_negate`: conditions put together.
* `Tests d lines d' c t`: behind the lines, the condition `c` holds if the condition `t` does.
* `Prepares V e t`: generation of `e` writes such lines for `t`.  One rule for each node.
* `TruthTree.generates`: trees of conditions become such lines.
-/

namespace Packwright

open Gen Run Words Packwright.Core

/-! ## Conditions put together -/

namespace Condition

variable {w : World}

theorem holdsAll_append (cs ds : List Condition) :
    holdsAll w (cs ++ ds) = (holdsAll w cs && holdsAll w ds) := by
  induction cs with
  | nil => rfl
  | cons c cs ih => rw [List.cons_append, holdsAll, holdsAll, ih, Bool.and_assoc]

theorem holdsAny_append (cs ds : List Condition) :
    holdsAny w (cs ++ ds) = (holdsAny w cs || holdsAny w ds) := by
  induction cs with
  | nil => rfl
  | cons c cs ih => rw [List.cons_append, holdsAny, holdsAny, ih, Bool.or_assoc]

theorem predicatesAll_append (cs ds : List Condition) :
    predicatesAll (cs ++ ds) = predicatesAll cs ++ predicatesAll ds := by
  induction cs with
  | nil => rfl
  | cons c cs ih => rw [List.cons_append, predicatesAll, predicatesAll, ih, List.append_assoc]

theorem conjuncts_cases (c : Condition) : (∃ cs, c = all false cs ∧ c.conjuncts = cs) ∨
    c.conjuncts = [c] := by
  unfold conjuncts
  split
  · exact Or.inl ⟨_, rfl, rfl⟩
  · exact Or.inr rfl

theorem disjuncts_cases (c : Condition) : (∃ cs, c = any false cs ∧ c.disjuncts = cs) ∨
    c.disjuncts = [c] := by
  unfold disjuncts
  split
  · exact Or.inl ⟨_, rfl, rfl⟩
  · exact Or.inr rfl

theorem holdsAll_conjuncts (c : Condition) : holdsAll w c.conjuncts = c.holds w := by
  rcases conjuncts_cases c with ⟨cs, rfl, hcs⟩ | hc
  · rw [hcs, holds, Bool.bne_false]
  · rw [hc, holdsAll, holdsAll, Bool.and_true]

theorem holdsAny_disjuncts (c : Condition) : holdsAny w c.disjuncts = c.holds w := by
  rcases disjuncts_cases c with ⟨cs, rfl, hcs⟩ | hc
  · rw [hcs, holds, Bool.bne_false]
  · rw [hc, holdsAny, holdsAny, Bool.or_false]

theorem predicatesAll_conjuncts (c : Condition) : predicatesAll c.conjuncts = c.predicates := by
  rcases conjuncts_cases c with ⟨cs, rfl, hcs⟩ | hc
  · rw [hcs, predicates]
  · rw [hc, predicatesAll, predicatesAll, List.append_nil]

theorem predicatesAll_disjuncts (c : Condition) : predicatesAll c.disjuncts = c.predicates := by
  rcases disjuncts_cases c with ⟨cs, rfl, hcs⟩ | hc
  · rw [hcs, predicates]
  · rw [hc, predicatesAll, predicatesAll, List.append_nil]

theorem holds_and (a b : Condition) : (a.and b).holds w = (a.holds w && b.holds w) := by
  rw [Condition.and, holds, holdsAll_append, holdsAll_conjuncts, holdsAll_conjuncts, Bool.bne_false]

theorem holds_or (a b : Condition) : (a.or b).holds w = (a.holds w || b.holds w) := by
  rw [Condition.or, holds, holdsAny_append, holdsAny_disjuncts, holdsAny_disjuncts, Bool.bne_false]

theorem holds_negate (c : Condition) : c.negate.holds w = !c.holds w := by
  cases c <;> rw [negate, holds, holds, Bool.bne_not]

theorem predicates_and (a b : Condition) : (a.and b).predicates = a.predicates ++ b.predicates := by
  rw [Condition.and, predicates, predicatesAll_append, predicatesAll_conjuncts,
    predicatesAll_conjuncts]

theorem predicates_or (a b : Condition) : (a.or b).predicates = a.predicates ++ b.predicates := by
  rw [Condition.or, predicates, predicatesAll_append, predicatesAll_disjuncts,
    predicatesAll_disjuncts]

theorem predicates_negate (c : Condition) : c.negate.predicates = c.predicates := by
  cases c <;> rfl

section Predicates

variable {P : Predicate → Prop} {a b c : Condition}

theorem forall_and (ha : ∀ p ∈ a.predicates, P p) (hb : ∀ p ∈ b.predicates, P p) :
    ∀ p ∈ (a.and b).predicates, P p := by
  rw [predicates_and]
  exact List.forall_mem_append.mpr ⟨ha, hb⟩

theorem forall_or (ha : ∀ p ∈ a.predicates, P p) (hb : ∀ p ∈ b.predicates, P p) :
    ∀ p ∈ (a.or b).predicates, P p := by
  rw [predicates_or]
  exact List.forall_mem_append.mpr ⟨ha, hb⟩

theorem forall_negate (hc : ∀ p ∈ c.predicates, P p) : ∀ p ∈ c.negate.predicates, P p := by
  rw [predicates_negate]
  exact hc

end Predicates

theorem holds_constant (b : Bool) : (constant b).holds w = b := by cases b <;> rfl

/-- The predicates test scores with plain names that are not drawn later. -/
def Steady (d : Draft) (c : Condition) : Prop :=
  ∀ p ∈ c.predicates, p.Plain ∧ ∀ s ∈ p.test.scores, d.Old s

namespace Steady

variable {d d' : Draft} {a b c : Condition} {lines : List String}

theorem grow (h : c.Steady d) (hg : d.Grows lines d') : c.Steady d' := fun p hp =>
  ⟨(h p hp).1, fun s hs => ((h p hp).2 s hs).grow hg⟩

theorem spares (h : c.Steady d) (d' : Draft) : Spares c.predicates (d.fresh d') :=
  fun p hp s hs => (h p hp).2 s hs d'

theorem worded (h : c.Steady d) : Worded c.predicates := fun p hp => (h p hp).1.worded

theorem and (ha : a.Steady d) (hb : b.Steady d) : (a.and b).Steady d := forall_and ha hb

theorem or (ha : a.Steady d) (hb : b.Steady d) : (a.or b).Steady d := forall_or ha hb

theorem negate (hc : c.Steady d) : c.negate.Steady d := forall_negate hc

theorem constant (d : Draft) (b : Bool) : (Condition.constant b).Steady d := by
  intro p hp
  obtain rfl := List.mem_singleton.mp hp
  exact ⟨trivial, fun s hs => absurd hs List.not_mem_nil⟩

theorem within {s : Score} (hs : Value.Steady d (.score s)) (negated : Bool) (range : Range) :
    (leaf negated (.within s range)).Steady d := by
  cases hs with
  | score hplain hold =>
    intro p hp
    obtain rfl := List.mem_singleton.mp hp
    refine ⟨hplain, fun t ht => ?_⟩
    obtain rfl := List.mem_singleton.mp ht
    exact hold

theorem compare {s t : Score} (hs : Value.Steady d (.score s)) (ht : Value.Steady d (.score t))
    (negated : Bool) (o : Comparison) : (leaf negated (.compare s o t)).Steady d := by
  cases hs with
  | score hsp hso =>
    cases ht with
    | score htp hto =>
      intro p hp
      obtain rfl := List.mem_singleton.mp hp
      refine ⟨⟨hsp, htp⟩, fun u hu => ?_⟩
      rcases List.mem_cons.mp hu with rfl | hu
      · exact hso
      · obtain rfl := List.mem_singleton.mp hu
        exact hto

end Steady

end Condition

/-! ## Relations -/

namespace Core

theorem related_flipped (r : Relation) (a b : Int) : related r.flipped b a = related r a b := by
  cases r <;> simp [related, Relation.flipped, eq_comm]

theorem relate_int (r : Relation) (m n : Amount) :
    Value.relate r (.int m) (.int n) = some (related r m.toInt n.toInt) := by
  have horder : Value.order? (.int m) (.int n) = some (compare m.toInt n.toInt) := by
    simp [Value.order?]
  have hsame : Value.same (.int m) (.int n) = decide (m.toInt = n.toInt) := by
    simp [Value.same]
  have hcompare : compare m.toInt n.toInt =
      if m.toInt < n.toInt then .lt else if m.toInt = n.toInt then .eq else .gt := rfl
  cases r with
  | eq => rw [Value.relate, hsame, related]
  | ne => simp [Value.relate, hsame, related]
  | lt | le | gt | ge =>
    rw [Value.relate, horder, Option.map_some, hcompare, related]
    rcases Int.lt_trichotomy m.toInt n.toInt with h | h | h
    · simp [h, Int.le_of_lt h, Int.not_lt.mpr (Int.le_of_lt h), Int.not_le.mpr h]
    · simp [h]
    · simp [h, Int.le_of_lt h, Int.not_lt.mpr (Int.le_of_lt h), Int.not_le.mpr h, Int.ne_of_gt h]

end Core

namespace Score

variable {w : World} {s t : Score} {m n : Amount}

theorem holds_within (hs : w.score? s = some m) (negated : Bool) (range : Range) :
    (Condition.leaf negated (.within s range)).holds w = (range.contains m != negated) := by
  rw [Condition.holds, Predicate.holds, hs, Option.any_some]

/-- A score as a condition: it is not zero. -/
theorem holds_nonzero (hs : w.score? s = some m) :
    (Condition.leaf true (.within s (.exactly 0))).holds w = decide (m.toInt ≠ 0) := by
  rw [holds_within hs, contains_exactly]
  simp [toInt_eq_zero]

theorem toInt_add_one (h : n.toInt ≠ Width.int.greatest) : (n + 1).toInt = n.toInt + 1 := by
  have hlt : n.toInt < 2 ^ 31 := BitVec.toInt_lt
  have hle : -(2 ^ 31) ≤ n.toInt := BitVec.le_toInt n
  have hg : Width.int.greatest = 2 ^ 31 - 1 := rfl
  have hone : (1 : Amount).toInt = 1 := by decide
  rw [BitVec.toInt_add, hone]
  show (n.toInt + 1).bmod (2 ^ 32) = _
  exact Int.bmod_eq_of_le (by omega) (by omega)

theorem toInt_sub_one (h : n.toInt ≠ Width.int.least) : (n - 1).toInt = n.toInt - 1 := by
  have hlt : n.toInt < 2 ^ 31 := BitVec.toInt_lt
  have hle : -(2 ^ 31) ≤ n.toInt := BitVec.le_toInt n
  have hg : Width.int.least = -(2 ^ 31) := rfl
  have hone : (1 : Amount).toInt = 1 := by decide
  rw [BitVec.toInt_sub, hone]
  show (n.toInt - 1).bmod (2 ^ 32) = _
  exact Int.bmod_eq_of_le (by omega) (by omega)

/-- A score in a relation to an amount. -/
theorem holds_relateAmount (hs : w.score? s = some m) (r : Relation) (n : Amount) :
    (s.relateAmount r n).holds w = related r m.toInt n.toInt := by
  have hlt : m.toInt ≤ Width.int.greatest := by
    have : m.toInt < 2 ^ 31 := BitVec.toInt_lt
    have hg : Width.int.greatest = 2 ^ 31 - 1 := rfl
    omega
  have hle : Width.int.least ≤ m.toInt := by
    have : -(2 ^ 31) ≤ m.toInt := BitVec.le_toInt m
    have hg : Width.int.least = -(2 ^ 31) := rfl
    omega
  cases r with
  | lt =>
    by_cases hn : n.toInt = Width.int.least
    · simp [relateAmount, hn, Condition.holds_constant, related, hle]
    · simp only [relateAmount, if_neg hn, holds_within hs, Range.contains, Option.all_none,
        Option.all_some, Bool.true_and, Bool.bne_false, toInt_sub_one hn, related,
        Int.le_sub_one_iff]
  | le => simp [relateAmount, holds_within hs, Range.contains, related]
  | gt =>
    by_cases hn : n.toInt = Width.int.greatest
    · simp [relateAmount, hn, Condition.holds_constant, related, hlt]
    · simp only [relateAmount, if_neg hn, holds_within hs, Range.contains, Option.all_none,
        Option.all_some, Bool.and_true, Bool.bne_false, toInt_add_one hn, related,
        Int.add_one_le_iff]
  | ge => simp [relateAmount, holds_within hs, Range.contains, related]
  | eq => simp [relateAmount, holds_within hs, contains_exactly, related, BitVec.toInt_inj]
  | ne => simp [relateAmount, holds_within hs, contains_exactly, related, BitVec.toInt_inj]

/-- Two scores in a relation. -/
theorem holds_relateScore (hs : w.score? s = some m) (ht : w.score? t = some n) (r : Relation) :
    (s.relateScore r t).holds w = related r m.toInt n.toInt := by
  cases r <;>
    simp [relateScore, Condition.holds, Predicate.holds, hs, ht, Comparison.holds, related]

/-- The condition that a score is in a relation to a value. -/
theorem relate_spec {d : Draft} {v : Value} (hs : Value.Steady d (.score s)) (hv : v.Steady d)
    (r : Relation) : ∃ c, Score.relate? r (.score s) v = some c ∧ c.Steady d ∧
      ∀ w m n, Value.Denotes w (.score s) m → v.Denotes w n →
        c.holds w = related r m.toInt n.toInt := by
  cases hv with
  | int n₀ =>
    refine ⟨_, rfl, ?_, fun w m n hm hn => ?_⟩
    · cases r with
      | lt | gt =>
        rw [relateAmount]
        split
        · exact .constant d false
        · exact .within hs _ _
      | le | ge | eq | ne => exact .within hs _ _
    · cases hm with
      | score hm =>
        cases hn
        exact holds_relateAmount hm r n₀
  | score hplain hold =>
    refine ⟨_, rfl, ?_, fun w m n hm hn => ?_⟩
    · cases r <;> exact .compare hs (.score hplain hold) _ _
    · cases hm with
      | score hm =>
        cases hn with
        | score hn => exact holds_relateScore hm hn r

end Score

/-! ## Ranges -/

namespace Expr

theorem generateBound_of_constantBound? {e : Option Expr} {m : Option Amount}
    (h : constantBound? e = some m) (d : Draft) : (generateBound e).run.run d = (some m, d) := by
  cases e with
  | none =>
    obtain rfl := Option.some.inj h
    rfl
  | some e =>
    rw [constantBound?] at h
    split at h
    · rename_i n he
      obtain ⟨i, rfl⟩ := eq_literal_of_constant? he
      obtain rfl := Option.some.inj h
      rfl
    · cases h

/-- A range with literals for its bounds is known when the lines are written. -/
theorem generate_of_range? {e : Expr} {range : Range} (h : e.range? = some range) (d : Draft) :
    e.generate.run.run d = (some (.range range), d) := by
  cases e with
  | range i l u =>
    obtain ⟨min, hmin, h⟩ := Option.bind_eq_some_iff.mp h
    obtain ⟨max, hmax, h⟩ := Option.bind_eq_some_iff.mp h
    obtain rfl := Option.some.inj h
    rw [Expr.generate]
    rw [run_andThen (generateBound_of_constantBound? hmin d),
      run_andThen (generateBound_of_constantBound? hmax d)]
    rfl
  | _ => cases h

end Expr

/-! ## Truths -/

namespace Core

variable {V : Set String} {d : Draft}

/-- A constant condition is decided when the lines are written. -/
theorem TruthTree.decided : ∀ {e : Expr} {t : Truth}, TruthTree V e t .bool → t.safe = true →
    ∃ b, (∀ env, t.eval env = some b) ∧ ∀ d, e.generate.run.run d = (some (.bool b), d)
  | _, _, .constant _ b, _ => ⟨b, fun _ => rfl, fun _ => rfl⟩
  | _, _, @TruthTree.relateConstants _ i r e e' a b o hl hr ho, hsafe => by
    obtain ⟨hsl, hsr⟩ := Bool.and_eq_true_iff.mp hsafe
    obtain ⟨m, hm, hgl⟩ := hl.constant hsl
    obtain ⟨n, hn, hgr⟩ := hr.constant hsr
    refine ⟨related r m.toInt n.toInt, fun env => ?_, fun d => ?_⟩
    · rw [Truth.eval, Number.eval_of_constant? env hm, Number.eval_of_constant? env hn]
      rfl
    · rw [Expr.generate]
      rw [run_andThen (hgl d), run_andThen (hgr d), ho]
      show ((Value.relate _ (.int m) (.int n)).map Value.bool, d) = _
      rw [relate_int]
      rfl
  | _, _, @TruthTree.rangeHas _ i e e' a range o hl hr ho, hsafe => by
    obtain ⟨n, hn, hgl⟩ := hl.constant hsafe
    refine ⟨range.contains n, fun env => ?_, fun d => ?_⟩
    · rw [Truth.eval, Number.eval_of_constant? env hn]
      rfl
    · rw [Expr.generate]
      rw [run_andThen (hgl d), run_andThen (Expr.generate_of_range? hr d), ho]
      rfl
  | _, _, .both hl hr ho, hsafe => by
    obtain ⟨hsl, hsr⟩ := Bool.and_eq_true_iff.mp hsafe
    obtain ⟨b, hb, hgl⟩ := TruthTree.decided hl hsl
    obtain ⟨c, hc, hgr⟩ := TruthTree.decided hr hsr
    refine ⟨b && c, fun env => ?_, fun d => ?_⟩
    · rw [Truth.eval, hb, hc]
      rfl
    · rw [Expr.generate]
      rw [run_andThen (hgl d), run_andThen (hgr d), ho]
      rfl
  | _, _, .either hl hr ho, hsafe => by
    obtain ⟨hsl, hsr⟩ := Bool.and_eq_true_iff.mp hsafe
    obtain ⟨b, hb, hgl⟩ := TruthTree.decided hl hsl
    obtain ⟨c, hc, hgr⟩ := TruthTree.decided hr hsr
    refine ⟨b || c, fun env => ?_, fun d => ?_⟩
    · rw [Truth.eval, hb, hc]
      rfl
    · rw [Expr.generate]
      rw [run_andThen (hgl d), run_andThen (hgr d), ho]
      rfl
  | _, _, .invert he ho, hsafe => by
    obtain ⟨b, hb, hg⟩ := TruthTree.decided he hsafe
    refine ⟨!b, fun env => ?_, fun d => ?_⟩
    · rw [Truth.eval, hb]
      rfl
    · rw [Expr.generate]
      rw [run_andThen (hg d), ho]
      rfl

/-- Lines behind which a condition holds if a condition of the core does. -/
structure Tests (d : Draft) (lines : List String) (d' : Draft) (c : Condition) (t : Truth) :
    Prop where
  adds : d.Adds lines d'
  steady : c.Steady d'
  runs : ∀ callee w f w', d.Ready w → sequence callee (lines.map Order.ofText) w = .ok f w' →
    f = .next ∧ World.Agree (d.fresh d') w w' ∧ t.eval (d.env w) = some (c.holds w')

namespace Tests

variable {d₁ d₂ : Draft} {lines lines' : List String} {c c' : Condition} {s t : Truth}

theorem constant {b : Bool} (d : Draft) (h : ∀ env, t.eval env = some b) :
    Tests d [] d (.constant b) t := by
  refine ⟨.refl d, .constant d b, fun callee w f w' _ hrun => ?_⟩
  obtain ⟨rfl, rfl⟩ := sequence_nil_ok.mp hrun
  exact ⟨rfl, .refl _ _, by rw [h, Condition.holds_constant]⟩

/-- A condition on the result of lines that compute a number. -/
theorem of_computes {v : Value} {a : Number} (test : Amount → Bool)
    (h : Computes d lines d₁ v a) (hsteady : c.Steady d₁)
    (heval : ∀ env n, a.eval env = some n → t.eval env = some (test n))
    (hholds : ∀ w n, v.Denotes w n → c.holds w = test n) : Tests d lines d₁ c t := by
  refine ⟨h.adds, hsteady, fun callee w f w' hr hrun => ?_⟩
  obtain ⟨hf, hagree, n, hn, hvn⟩ := h.runs callee w f w' hr hrun
  exact ⟨hf, hagree, by rw [heval _ n hn, hholds w' n hvn]⟩

/-- A condition on the results of lines that compute two numbers. -/
theorem of_both {v v' : Value} {a b : Number} {r : Relation} (hd : d.Neat)
    (h : Computes d lines d₁ v a) (h' : Computes d₁ lines' d₂ v' b) (hsteady : c.Steady d₂)
    (hholds : ∀ w m n, v.Denotes w m → v'.Denotes w n → c.holds w = related r m.toInt n.toInt) :
    Tests d (lines ++ lines') d₂ c (.relate r a b) := by
  obtain ⟨hadds, -, hruns⟩ := h.both hd h'
  refine ⟨hadds, hsteady, fun callee w f w' hr hrun => ?_⟩
  obtain ⟨hf, hagree, m, n, hm, hn, hvm, hvn⟩ := hruns callee w f w' hr hrun
  refine ⟨hf, hagree, ?_⟩
  rw [Truth.eval, hm, hn, hholds w' m n hvm hvn]
  rfl

/-- Two conditions one behind the other: the lines of the second leave the truth of the first. -/
theorem andThen {u : Truth} {c'' : Condition} {f : Bool → Bool → Bool} (hd : d.Neat)
    (h : Tests d lines d₁ c s) (h' : Tests d₁ lines' d₂ c' t) (hsteady : c''.Steady d₂)
    (heval : ∀ env a b, s.eval env = some a → t.eval env = some b → u.eval env = some (f a b))
    (hholds : ∀ w, c''.holds w = f (c.holds w) (c'.holds w)) :
    Tests d (lines ++ lines') d₂ c'' u := by
  refine ⟨h.adds.trans h'.adds, hsteady, fun callee w g w' hr hrun => ?_⟩
  obtain ⟨v, hv, hrest⟩ := sequence_lines_append (fun g v hs => (h.runs callee w g v hr hs).1) hrun
  obtain ⟨-, hagree, hs⟩ := h.runs callee w _ v hr hv
  have hfresh : ∀ s ∈ d.fresh d₁, ¬ s.IsVariable := fun s hs => Draft.not_isVariable_of_mem_fresh hs
  obtain ⟨hf, hagree', ht⟩ := h'.runs callee v _ w'
    (hd.ready h.adds.scopes_eq hfresh hagree hr) hrest
  rw [hd.env_eq h.adds.scopes_eq hfresh hagree] at ht
  have hsame := hagree'.holds (h.steady.spares d₂)
  refine ⟨hf, (hagree.mono h'.adds.toGrows.fresh_left).trans
    (hagree'.mono h.adds.toGrows.fresh_right), ?_⟩
  rw [heval _ _ _ hs ht, hholds, hsame]

theorem negate (h : Tests d lines d₁ c t) : Tests d lines d₁ c.negate (.opposite t) := by
  refine ⟨h.adds, h.steady.negate, fun callee w f w' hr hrun => ?_⟩
  obtain ⟨hf, hagree, ht⟩ := h.runs callee w f w' hr hrun
  refine ⟨hf, hagree, ?_⟩
  rw [Truth.eval, ht, Condition.holds_negate]
  rfl

end Tests

theorem condition?_cases {v : Value} {c : Condition} (h : v.condition? = some c) :
    v = .condition c ∨ ∃ b, v = .bool b ∧ c = .constant b := by
  cases v with
  | condition c' =>
    obtain rfl := Option.some.inj h
    exact Or.inl rfl
  | bool b =>
    obtain rfl := Option.some.inj h
    exact Or.inr ⟨b, rfl, rfl⟩
  | _ => cases h

/-- In every draft that has the variables of `V`, generation of the expression comes to a value that
is a condition, behind lines that prepare its test. -/
def Prepares (V : Set String) (e : Expr) (t : Truth) : Prop :=
  ∀ d : Draft, d.Neat → d.Binds V → ∃ v c lines d',
    e.generate.run.run d = (some v, d') ∧ v.condition? = some c ∧ Tests d lines d' c t

/-! ### One rule for each node -/

namespace Prepares

variable {i i' : Info} {e e' : Expr} {s t u : Truth} {a b : Number} {o : Operation} {k : Kind}
  {cast : Cast} {r : Relation} {range : Range}

/-- A condition that is decided needs no lines. -/
theorem decided (h : TruthTree V e t .bool) (hsafe : t.safe = true) : Prepares V e t := by
  intro d _ _
  obtain ⟨b, hb, hg⟩ := h.decided hsafe
  exact ⟨_, _, [], d, hg d, rfl, .constant d hb⟩

theorem toCondition (h : TruthTree V e t .bool) (hc : cast.target = .condition)
    (hsafe : t.safe = true) : Prepares V (.cast i e cast) t := by
  intro d _ _
  obtain ⟨b, hb, hg⟩ := h.decided hsafe
  refine ⟨.condition (.constant b), _, [], d, ?_, rfl, .constant d hb⟩
  rw [Expr.generate, run_andThen (hg d), Cast.apply_condition hc]
  rfl

/-- A variable as a condition: its score is not zero. -/
theorem nonzero {x : String} (hx : x ∈ V) (hc : cast.target = .condition) :
    Prepares V (.cast i (.name i' x) cast) (.variable x) := by
  intro d hd hV
  obtain ⟨s, hs⟩ := hV _ hx
  have hcomputes := Computes.of_lookup? hd hs
  refine ⟨.condition (.leaf true (.within s (.exactly 0))), _, [], d, ?_, rfl,
    .of_computes (fun n => n.toInt ≠ 0) hcomputes (.within hcomputes.steady _ _)
      (fun env n hn => ?_) fun w n hn => ?_⟩
  · rw [Expr.generate, run_andThen (Expr.generate_name _ hs), Cast.apply_condition hc]
    rfl
  · rw [Truth.eval]
    rw [Number.eval] at hn
    rw [hn]
    rfl
  · cases hn with
    | score hn => exact Score.holds_nonzero hn

theorem compareScore (hl : NumberTree V e a .score) (hr : NumberTree V e' b k)
    (ho : o.rule = .compareScore r) (hsafe : (Truth.relate r a b).safe = true) :
    Prepares V (.binary i (.relate r) e e' (some o)) (.relate r a b) := by
  intro d hd hV
  obtain ⟨hsl, hsr⟩ := Bool.and_eq_true_iff.mp hsafe
  obtain ⟨left, lines, d₁, hgl, hkl, hcl⟩ := hl.generates hsl hd hV
  obtain ⟨right, lines', d₂, hgr, -, hcr⟩ := hr.generates hsr
    (hd.grow hcl.adds.toGrows hcl.adds.scopes_eq) (hV.of_scopes hcl.adds.scopes_eq)
  obtain ⟨s, rfl⟩ := hcl.steady.exists_score hkl
  obtain ⟨c, hrelate, hsteady, hholds⟩ := Score.relate_spec
    (hcl.steady.grow hcr.adds.toGrows) hcr.steady r
  refine ⟨.condition c, c, _, d₂, ?_, rfl, .of_both hd hcl hcr hsteady hholds⟩
  rw [Expr.generate, run_andThen hgl, run_andThen hgr, ho]
  show ((Score.relate? r (.score s) right).map Value.condition, d₂) = _
  rw [hrelate]
  rfl

/-- A constant in a relation to a score: the score in the opposite relation to the constant. -/
theorem compareWithScore (hl : NumberTree V e a .int) (hr : NumberTree V e' b .score)
    (ho : o.rule = .compareWithScore r) (hsafe : (Truth.relate r a b).safe = true) :
    Prepares V (.binary i (.relate r) e e' (some o)) (.relate r a b) := by
  intro d hd hV
  obtain ⟨hsl, hsr⟩ := Bool.and_eq_true_iff.mp hsafe
  obtain ⟨n, hn, hgl⟩ := hl.constant hsl
  obtain ⟨right, lines, d₁, hgr, hkr, hcr⟩ := hr.generates hsr hd hV
  obtain ⟨s, rfl⟩ := hcr.steady.exists_score hkr
  obtain ⟨c, hrelate, hsteady, hholds⟩ := Score.relate_spec hcr.steady (.int n) r.flipped
  refine ⟨.condition c, c, _, d₁, ?_, rfl, .of_both hd (.constant d hn) hcr hsteady
    fun w m k hm hk => ?_⟩
  · rw [Expr.generate, run_andThen (hgl d), run_andThen hgr, ho]
    show ((Score.relate? r.flipped (.score s) (.int n)).map Value.condition, d₁) = _
    rw [hrelate]
    rfl
  · rw [hholds w k m hk hm, related_flipped]

theorem within (hl : NumberTree V e a .score) (hr : e'.range? = some range)
    (ho : o.rule = .scoreWithin) (hsafe : a.safe = true) :
    Prepares V (.binary i .within e e' (some o)) (.within a range) := by
  intro d hd hV
  obtain ⟨v, lines, d₁, hg, hk, hc⟩ := hl.generates hsafe hd hV
  obtain ⟨s, rfl⟩ := hc.steady.exists_score hk
  refine ⟨.condition (.leaf false (.within s range)), _, lines, d₁, ?_, rfl,
    .of_computes range.contains hc (.within hc.steady _ _) (fun env n hn => ?_) fun w n hn => ?_⟩
  · rw [Expr.generate, run_andThen hg, run_andThen (Expr.generate_of_range? hr d₁), ho]
    rfl
  · rw [Truth.eval, hn]
    rfl
  · cases hn with
    | score hn => rw [Score.holds_within hn, Bool.bne_false]

/-- Two conditions that an operator joins to one. -/
theorem join {op : BinaryOp} {combine : Condition → Condition → Condition} {f : Bool → Bool → Bool}
    (hl : Prepares V e s) (hr : Prepares V e' t)
    (happly : ∀ {v v' c c'}, v.condition? = some c → v'.condition? = some c' → ∀ d,
      (o.rule.apply v v').run.run d = (some (.condition (combine c c')), d))
    (hsteady : ∀ {d c c'}, c.Steady d → c'.Steady d → (combine c c').Steady d)
    (heval : ∀ env a b, s.eval env = some a → t.eval env = some b → u.eval env = some (f a b))
    (hholds : ∀ w c c', (combine c c').holds w = f (c.holds w) (c'.holds w)) :
    Prepares V (.binary i op e e' (some o)) u := by
  intro d hd hV
  obtain ⟨v, c, lines, d₁, hgl, hvc, htl⟩ := hl d hd hV
  obtain ⟨v', c', lines', d₂, hgr, hvc', htr⟩ := hr d₁
    (hd.grow htl.adds.toGrows htl.adds.scopes_eq) (hV.of_scopes htl.adds.scopes_eq)
  refine ⟨.condition (combine c c'), _, _, d₂, ?_, rfl, htl.andThen hd htr
    (hsteady (htl.steady.grow htr.adds.toGrows) htr.steady) heval fun w => hholds w c c'⟩
  rw [Expr.generate, run_andThen hgl, run_andThen hgr]
  exact happly hvc hvc' d₂

theorem conjoin (hl : Prepares V e s) (hr : Prepares V e' t) (ho : o.rule = .conjoin) :
    Prepares V (.binary i .and e e' (some o)) (.both s t) := by
  refine hl.join hr (f := (· && ·)) (fun hc hc' d => ?_) .and (fun env a b ha hb => ?_)
    fun w => Condition.holds_and
  · rw [ho, BinaryRule.apply, hc, hc']
    rfl
  · rw [Truth.eval, ha, hb]
    rfl

theorem disjoin (hl : Prepares V e s) (hr : Prepares V e' t) (ho : o.rule = .disjoin) :
    Prepares V (.binary i .or e e' (some o)) (.either s t) := by
  refine hl.join hr (f := (· || ·)) (fun hc hc' d => ?_) .or (fun env a b ha hb => ?_)
    fun w => Condition.holds_or
  · rw [ho, BinaryRule.apply, hc, hc']
    rfl
  · rw [Truth.eval, ha, hb]
    rfl

theorem invert {o : UnaryOperation} (h : Prepares V e t) (ho : o.rule = .invert) :
    Prepares V (.unary i .not e (some o)) (.opposite t) := by
  intro d hd hV
  obtain ⟨v, c, lines, d₁, hg, hvc, ht⟩ := h d hd hV
  rcases condition?_cases hvc with rfl | ⟨b, rfl, rfl⟩
  · refine ⟨.condition c.negate, _, lines, d₁, ?_, rfl, ht.negate⟩
    rw [Expr.generate, run_andThen hg, ho]
    rfl
  · -- the opposite of a constant is a constant again
    refine ⟨.bool (!b), _, lines, d₁, ?_, rfl, ht.adds, .constant d₁ _,
      fun callee w f w' hr hrun => ?_⟩
    · rw [Expr.generate, run_andThen hg, ho]
      rfl
    · obtain ⟨hf, hagree, heval⟩ := ht.negate.runs callee w f w' hr hrun
      rw [Condition.holds_negate, Condition.holds_constant] at heval
      exact ⟨hf, hagree, by rw [heval, Condition.holds_constant]⟩

end Prepares

/-- **Conditions of the core** become lines that prepare their tests. -/
theorem TruthTree.generates {e : Expr} {t : Truth} {k : Kind} (h : TruthTree V e t k) :
    t.safe = true → Prepares V e t := by
  induction h with
  | constant i b => exact .decided (.constant i b)
  | relateConstants hl hr ho => exact .decided (.relateConstants hl hr ho)
  | rangeHas hl hr ho => exact .decided (.rangeHas hl hr ho)
  | both hl hr ho => exact .decided (.both hl hr ho)
  | either hl hr ho => exact .decided (.either hl hr ho)
  | toCondition he hc => exact .toCondition he hc
  | «variable» hx hc => exact fun _ => .nonzero hx hc
  | compareScore hl hr ho => exact .compareScore hl hr ho
  | compareWithScore hl hr ho => exact .compareWithScore hl hr ho
  | scoreWithin hl hr ho => exact .within hl hr ho
  | conjoin _ _ ho ihl ihr =>
    intro hsafe
    obtain ⟨hsl, hsr⟩ := Bool.and_eq_true_iff.mp hsafe
    exact .conjoin (ihl hsl) (ihr hsr) ho
  | disjoin _ _ ho ihl ihr =>
    intro hsafe
    obtain ⟨hsl, hsr⟩ := Bool.and_eq_true_iff.mp hsafe
    exact .disjoin (ihl hsl) (ihr hsr) ho
  | invert _ ho ih => exact fun hsafe => .invert (ih hsafe) ho

/-- The condition of a conditional or a loop. -/
theorem TruthTree.generateCondition {e : Expr} {t : Truth} {k : Kind} (h : TruthTree V e t k)
    (hsafe : t.safe = true) (hd : d.Neat) (hV : d.Binds V) :
    ∃ c lines d', e.generateCondition.run.run d = (some c, d') ∧ Tests d lines d' c t := by
  obtain ⟨v, c, lines, d', hg, hvc, ht⟩ := h.generates hsafe d hd hV
  refine ⟨c, lines, d', ?_, ht⟩
  rw [Expr.generateCondition, run_andThen hg]
  rcases condition?_cases hvc with rfl | ⟨b, rfl, rfl⟩ <;> rfl

end Core

end Packwright
