import Packwright.Proofs.Core.Variables

/-!
# Computing with scores

Lines that change scores by amounts and by one another.  No such line calls a list or is guarded, so
what a run of them does is the same wherever they stand.

* `Line.Steps lines f`: where there is room for the lines, a run of them changes the world by `f`.
* `Draft.Old d s`: the score `s` is not one that is drawn later than `d`.
* `Draft.Adds d lines d'`: lines without calls were written on the way, and no list was added.
* `Value.Denotes w v n`: the value `v` stands for the amount `n`.
* `Score.modify_steps`, `Score.compute_steps`, `Score.opposite_steps`: the lines of an operator
  leave the amount in the score that the interpreter computes.
* `Score.modify_spec`, …: the same for scores with plain names, whose lines are clear.
-/

namespace Packwright

open Gen Run Words Packwright.Core

/-! ## Amounts -/

theorem ofInt_toInt_add (a b : Amount) : wrap (a.toInt + b.toInt) = a + b := by
  rw [wrap, BitVec.ofInt_add, BitVec.ofInt_toInt, BitVec.ofInt_toInt]

theorem ofInt_toInt_sub (a b : Amount) : wrap (a.toInt - b.toInt) = a - b := by
  rw [wrap, Int.sub_eq_add_neg, BitVec.ofInt_add, BitVec.ofInt_neg, BitVec.ofInt_toInt,
    BitVec.ofInt_toInt, BitVec.sub_eq_add_neg]

theorem ofInt_toInt_mul (a b : Amount) : wrap (a.toInt * b.toInt) = a * b := by
  rw [wrap, BitVec.ofInt_mul, BitVec.ofInt_toInt, BitVec.ofInt_toInt]

theorem ofInt_toInt_neg (a : Amount) : wrap (-a.toInt) = -a := by
  rw [wrap, BitVec.ofInt_neg, BitVec.ofInt_toInt]

theorem toInt_eq_zero {a : Amount} : a.toInt = 0 ↔ a = 0 := by
  rw [← BitVec.toInt_inj]
  rfl

/-- How a machine combines two scores by an operator. -/
def Arith.combination : Arith → Combination
  | add => .add
  | sub => .sub
  | mul => .mul
  | div => .div
  | mod => .mod

theorem Arith.ofText?_sign (op : Arith) : Combination.ofText? op.sign = some op.combination := by
  cases op <;> decide

theorem Arith.isPlain_sign (op : Arith) : IsPlain op.sign := by
  cases op <;> decide

/-- The machine computes what the interpreter computes. -/
theorem Arith.result_combination (op : Arith) (a b : Amount) :
    op.combination.result a b = wrap (arithmetic op a.toInt b.toInt) := by
  have hstay : wrap a.toInt = a := BitVec.ofInt_toInt
  cases op with
  | add => exact (ofInt_toInt_add a b).symm
  | sub => exact (ofInt_toInt_sub a b).symm
  | mul => exact (ofInt_toInt_mul a b).symm
  | div =>
    show Amount.divide a b = wrap (if b.toInt = 0 then a.toInt else a.toInt.fdiv b.toInt)
    unfold Amount.divide
    by_cases hb : b = 0
    · rw [if_pos hb, if_pos (toInt_eq_zero.mpr hb), hstay]
    · rw [if_neg hb, if_neg fun h => hb (toInt_eq_zero.mp h), wrap]
  | mod =>
    show Amount.remainder a b = wrap (if b.toInt = 0 then a.toInt else a.toInt.fmod b.toInt)
    unfold Amount.remainder
    by_cases hb : b = 0
    · rw [if_pos hb, if_pos (toInt_eq_zero.mpr hb), hstay]
    · rw [if_neg hb, if_neg fun h => hb (toInt_eq_zero.mp h), wrap]

/-- Adding the change of an operator has the effect of the operator. -/
theorem Arith.add_change {op : Arith} {n change : Amount} (h : op.change? n = some change)
    (a : Amount) : a + change = wrap (arithmetic op a.toInt n.toInt) := by
  unfold Arith.change? at h
  split at h
  · cases h
  · cases op with
    | add =>
      obtain rfl := Option.some.inj h
      exact (ofInt_toInt_add a n).symm
    | sub =>
      obtain rfl := Option.some.inj h
      rw [← BitVec.sub_eq_add_neg]
      exact (ofInt_toInt_sub a n).symm
    | mul => cases h
    | div => cases h
    | mod => cases h

/-! ## Runs of lines -/

section Lines

variable {callee : ResourceId → Run Unit} {w w' : World} {f : Flow}

theorem amount_of_score? {s : Score} {n : Amount} (h : w.score? s = some n) : w.amount s = n := by
  rw [World.amount, h]
  rfl

theorem agree_set {F : Set Score} {s : Score} (hs : s ∈ F) (w : World) (n : Amount) :
    World.Agree F w (w.counted.setScore s n) :=
  (World.Agree.counted F w).trans (.setScore hs _ n)

theorem score?_counted_setScore (w : World) (s : Score) (n : Amount) :
    (w.counted.setScore s n).score? s = some n := by
  rw [World.score?_setScore, if_pos rfl]

/-- Lines that do not leave the list are behind it when the next ones begin. -/
theorem sequence_lines_append {lines lines' : List String}
    (hnext : ∀ g v, sequence callee (lines.map Order.ofText) w = .ok g v → g = .next)
    (h : sequence callee ((lines ++ lines').map Order.ofText) w = .ok f w') :
    ∃ v, sequence callee (lines.map Order.ofText) w = .ok .next v ∧
      sequence callee (lines'.map Order.ofText) v = .ok f w' := by
  rw [List.map_append] at h
  rcases sequence_append_ok.mp h with hrun | ⟨-, hleave⟩
  · exact hrun
  · cases hnext _ _ hleave

theorem sequence_lines_cons {line : String} {lines : List String}
    (hnext : ∀ g v, command callee (Order.ofText line) w = .ok g v → g = .next)
    (h : sequence callee ((line :: lines).map Order.ofText) w = .ok f w') :
    ∃ v, command callee (Order.ofText line) w = .ok .next v ∧
      sequence callee (lines.map Order.ofText) v = .ok f w' := by
  rw [List.map_cons] at h
  rcases sequence_cons_ok.mp h with hrun | ⟨-, hleave⟩
  · exact hrun
  · cases hnext _ _ hleave

end Lines

/-! ## Lines that change scores -/

/-- As many commands can be carried out before the budget is used up. -/
def World.Room (w : World) (n : Nat) : Prop := n = 0 ∨ w.executed + n ≤ budget

/-- The lines change the world by `f`.  A run of them ends without a fault if and only if there is
room for them, and it goes to their end. -/
structure Line.Steps (lines : List String) (f : World → World) : Prop where
  run : ∀ callee w g w', sequence callee (lines.map Order.ofText) w = .ok g w' ↔
    w.Room lines.length ∧ g = .next ∧ w' = f w
  executed : ∀ w, (f w).executed = w.executed + lines.length

namespace Line.Steps

variable {lines lines' : List String} {f f' : World → World}

theorem append (h : Steps lines f) (h' : Steps lines' f') :
    Steps (lines ++ lines') fun w => f' (f w) := by
  refine ⟨fun callee w g w' => ?_, fun w => ?_⟩
  · have hroom : w.Room (lines ++ lines').length ↔
        w.Room lines.length ∧ (f w).Room lines'.length := by
      have := h.executed w
      rw [World.Room, World.Room, World.Room, List.length_append]
      omega
    rw [List.map_append, sequence_append_ok, hroom]
    constructor
    · rintro (⟨v, hv, hrest⟩ | ⟨-, hleave⟩)
      · obtain ⟨hfirst, -, rfl⟩ := (h.run callee w _ v).mp hv
        obtain ⟨hsecond, hnext, hw'⟩ := (h'.run callee _ _ w').mp hrest
        exact ⟨⟨hfirst, hsecond⟩, hnext, hw'⟩
      · cases ((h.run callee w _ w').mp hleave).2.1
    · rintro ⟨⟨hfirst, hsecond⟩, hnext, hw'⟩
      exact Or.inl ⟨f w, (h.run callee w _ _).mpr ⟨hfirst, rfl, rfl⟩,
        (h'.run callee _ _ _).mpr ⟨hsecond, hnext, hw'⟩⟩
  · rw [h'.executed, h.executed, List.length_append, Nat.add_assoc]

/-- One line whose order changes scores. -/
theorem single {line : String} (hrun : ∀ callee w, order callee (Order.ofText line) w.counted =
    .ok .next (f w)) (hexecuted : ∀ w, (f w).executed = w.executed + 1) : Steps [line] f := by
  refine ⟨fun callee w g w' => ?_, hexecuted⟩
  have hroom : w.Room [line].length ↔ w.executed < budget := by
    rw [World.Room, List.length_singleton]
    omega
  rw [List.map_singleton, sequence_singleton_ok, command_ok, hroom, hrun]
  constructor
  · rintro ⟨hlt, h⟩
    cases h
    exact ⟨hlt, rfl, rfl⟩
  · rintro ⟨hlt, rfl, rfl⟩
    exact ⟨hlt, rfl⟩

theorem set {s : Score} (hs : s.Worded) (n : Amount) :
    Steps [Line.set s n] fun w => w.counted.setScore s n :=
  single (fun callee w => by rw [Order.ofText_set hs]; rfl) fun _ => rfl

theorem add {s : Score} (hs : s.Worded) (n : Amount) :
    Steps [Line.add s n] fun w => w.counted.setScore s (w.amount s + n) :=
  single (fun callee w => by rw [Order.ofText_add hs]; rfl) fun _ => rfl

theorem remove {s : Score} (hs : s.Worded) (n : Amount) :
    Steps [Line.remove s n] fun w => w.counted.setScore s (w.amount s - n) :=
  single (fun callee w => by rw [Order.ofText_remove hs]; rfl) fun _ => rfl

theorem operation {s t : Score} (hs : s.Worded) (ht : t.Worded) {sign : String}
    (hsign : IsWord sign) {c : Combination} (hc : Combination.ofText? sign = some c)
    (hswap : c ≠ .swap) : Steps [Line.operation s sign t] fun w =>
      w.counted.setScore s (c.result (w.amount s) (w.amount t)) := by
  refine single (fun callee w => ?_) fun _ => rfl
  rw [Order.ofText_operation hs ht hsign hc]
  show EStateM.Result.ok Flow.next (w.counted.combine s c t) = _
  unfold World.combine
  simp only [if_neg hswap]
  rfl

/-- A score gets the amount of another. -/
theorem copy {s t : Score} (hs : s.Worded) (ht : t.Worded) :
    Steps [Line.operation s "=" t] fun w => w.counted.setScore s (w.amount t) :=
  operation (c := .assign) hs ht (by decide) rfl (by decide)

/-- A score is changed by another, as an operator says. -/
theorem arith {s t : Score} (hs : s.Worded) (ht : t.Worded) (op : Arith) :
    Steps [Line.operation s op.sign t] fun w =>
      w.counted.setScore s (wrap (arithmetic op (w.amount s).toInt (w.amount t).toInt)) := by
  have h := operation hs ht op.isPlain_sign.isWord op.ofText?_sign (by cases op <;> decide)
  simpa only [op.result_combination] using h

end Line.Steps

theorem command_copy_ok {callee : ResourceId → Run Unit} {w w' : World} {g : Flow} {s t : Score}
    (hs : s.Worded) (ht : t.Worded)
    (h : command callee (Order.ofText (Line.operation s "=" t)) w = .ok g w') :
    g = .next ∧ w' = w.counted.setScore s (w.amount t) :=
  (((Line.Steps.copy hs ht).run callee w g w').mp (sequence_singleton_ok.mpr h)).2

/-! ## Lines without calls -/

namespace Draft

/-- The score is not one that is drawn later. -/
def Old (d : Draft) (s : Score) : Prop := ∀ d', s ∉ d.fresh d'

theorem old_of_isVariable {d : Draft} {s : Score} (h : s.IsVariable) : d.Old s :=
  fun _ hs => not_isVariable_of_mem_fresh hs h

theorem Old.grow {d d' : Draft} {lines : List String} {s : Score} (h : d.Old s)
    (hg : d.Grows lines d') : d'.Old s := fun d'' hs => h d'' (hg.fresh_right hs)

/-- A score that was drawn is not drawn again. -/
theorem old_draw {d : Draft} {purpose : String} (hp : Lettered purpose) :
    (d.draw (.temp purpose)).Old (d.options.temp purpose (d.count (.temp purpose))) :=
  fun _ => not_mem_fresh_draw hp

/-- The lines that were written on the way call no list, and no list was added. -/
structure Adds (d : Draft) (lines : List String) (d' : Draft) : Prop extends
    d.Grows lines d' where
  scopes_eq : d'.scopes = d.scopes
  pack_eq : d'.pack = d.pack
  lists : ∀ purpose, d'.count (.list purpose) = d.count (.list purpose)
  clear : ∀ line ∈ lines, Line.Clear ∅ line

namespace Adds

variable {d d₁ d₂ : Draft} {lines lines' : List String}

theorem refl (d : Draft) : d.Adds [] d :=
  ⟨.refl d, rfl, rfl, fun _ => rfl, fun _ h => absurd h List.not_mem_nil⟩

theorem trans (h : d.Adds lines d₁) (h' : d₁.Adds lines' d₂) : d.Adds (lines ++ lines') d₂ := by
  refine ⟨h.toGrows.trans h'.toGrows, h'.scopes_eq.trans h.scopes_eq, h'.pack_eq.trans h.pack_eq,
    fun purpose => (h'.lists purpose).trans (h.lists purpose), fun line hline => ?_⟩
  rcases List.mem_append.mp hline with hline | hline
  · exact h.clear line hline
  · exact h'.clear line hline

theorem temp (d : Draft) (purpose : String) : d.Adds [] (d.draw (.temp purpose)) := by
  refine ⟨.draw d _, rfl, rfl, fun other => ?_, fun _ h => absurd h List.not_mem_nil⟩
  rw [count_draw, if_neg (by simp)]
  rfl

theorem emit (d : Draft) {line : String} (h : Line.Clear ∅ line) : d.Adds [line] (d.emit line) := by
  have hclear : ∀ l ∈ [line], Line.Clear ∅ l := fun l hl => List.mem_singleton.mp hl ▸ h
  have hgrows := Grows.emit d line
  unfold Draft.emit at hgrows ⊢
  split at hgrows
  · exact ⟨hgrows, rfl, rfl, fun _ => rfl, hclear⟩
  · exact ⟨hgrows, rfl, rfl, fun _ => rfl, hclear⟩

theorem plain (h : d.Adds lines d₁) (hd : d.options.Plain) : d₁.options.Plain :=
  h.options ▸ hd

end Adds

end Draft

/-! ## Values -/

/-- The value stands for an amount: it is one, or it is a score that holds it. -/
inductive Value.Denotes (w : World) : Value → Amount → Prop
  | int (n : Amount) : Denotes w (.int n) n
  | score {s : Score} {n : Amount} (h : w.score? s = some n) : Denotes w (.score s) n

/-- The value is an amount, or a score that is not drawn later. -/
inductive Value.Steady (d : Draft) : Value → Prop
  | int (n : Amount) : Steady d (.int n)
  | score {s : Score} (hplain : s.Plain) (hold : d.Old s) : Steady d (.score s)

/-- The value is an amount, or a score whose names are words and that is not drawn later. -/
inductive Value.Ready (d : Draft) : Value → Prop
  | int (n : Amount) : Ready d (.int n)
  | score {s : Score} (hworded : s.Worded) (hold : d.Old s) : Ready d (.score s)

theorem Value.Steady.ready {d : Draft} {v : Value} (h : v.Steady d) : v.Ready d := by
  cases h with
  | int n => exact .int n
  | score hplain hold => exact .score hplain.worded hold

theorem Value.Steady.grow {d d' : Draft} {lines : List String} {v : Value} (h : v.Steady d)
    (hg : d.Grows lines d') : v.Steady d' := by
  cases h with
  | int n => exact .int n
  | score hplain hold => exact .score hplain (hold.grow hg)

theorem Value.Ready.grow {d d' : Draft} {lines : List String} {v : Value} (h : v.Ready d)
    (hg : d.Grows lines d') : v.Ready d' := by
  cases h with
  | int n => exact .int n
  | score hworded hold => exact .score hworded (hold.grow hg)

theorem Value.Ready.pushFrame {d : Draft} {v : Value} (h : v.Ready d) : v.Ready d.pushFrame := by
  cases h with
  | int n => exact .int n
  | score hworded hold => exact .score hworded hold

/-- What is drawn later does not change what a value stands for. -/
theorem Value.Denotes.keep {d d' : Draft} {v : Value} {n : Amount} {w w' : World}
    (h : v.Denotes w n) (hv : v.Ready d) (hw : World.Agree (d.fresh d') w w') :
    v.Denotes w' n := by
  cases hv with
  | int _ =>
    cases h
    exact .int n
  | score hworded hold =>
    cases h with
    | score hs => exact .score ((hw.score _ (hold d')).trans hs)

theorem Value.Denotes.agree {d d' : Draft} {v : Value} {n : Amount} {w w' : World}
    (h : v.Denotes w n) (hv : v.Steady d) (hw : World.Agree (d.fresh d') w w') :
    v.Denotes w' n := h.keep hv.ready hw

theorem Value.Steady.exists_score {d : Draft} {v : Value} (h : v.Steady d) (hk : v.kind = .score) :
    ∃ s, v = .score s := by
  cases h with
  | int n => cases hk
  | score _ _ => exact ⟨_, rfl⟩

theorem Cast.apply_score {c : Cast} (h : c.target = .score) (v : Value) :
    c.apply v = Score.ofValue v := by
  obtain ⟨source, target⟩ := c
  cases h
  rfl

theorem Cast.apply_condition {c : Cast} (h : c.target = .condition) (v : Value) :
    c.apply v = OptionT.mk (return v.toCondition?) := by
  obtain ⟨source, target⟩ := c
  cases h
  rfl

/-! ## Operators on scores -/

namespace Score

variable {d : Draft}

/-- The lines of an operator that changes a score in its place. -/
theorem modify_steps (hd : d.options.Plain) {target : Score} (ht : target.Worded)
    (ho : d.Old target) (op : Arith) {v : Value} (hv : v.Ready d) :
    ∃ lines d' f, (target.modify op v).run.run d = (some (), d') ∧ d.Grows lines d' ∧
      Line.Steps lines f ∧ (target.Plain → v.Steady d → d.Adds lines d') ∧
      ∀ w m n, w.score? target = some m → v.Denotes w n →
        World.Agree (insert target (d.fresh d')) w (f w) ∧
          (f w).score? target = some (wrap (arithmetic op m.toInt n.toInt)) := by
  have hmem : ∀ F : Set Score, target ∈ insert target F := fun F => Set.mem_insert target F
  cases hv with
  | @score source hsource _ =>
    refine ⟨[Line.operation target op.sign source], _, _, rfl, .emit d _, .arith ht hsource op,
      fun hp hv => ?_, fun w m n hm hn => ?_⟩
    · cases hv with
      | score hplain _ => exact .emit d (.operation hp hplain op.isPlain_sign op.ofText?_sign)
    · cases hn with
      | score hn =>
        refine ⟨agree_set (hmem _) w _, ?_⟩
        rw [score?_counted_setScore, amount_of_score? hm, amount_of_score? hn]
  | int n₀ =>
    cases hchange : op.change? n₀ with
    | some change =>
      by_cases hsign : 0 ≤ change.toInt
      · refine ⟨[Line.add target change], _, _, ?_, .emit d _, .add ht change,
          fun hp _ => .emit d (.add hp change), fun w m n hm hn => ?_⟩
        · rw [modify]
          simp only [hchange, if_pos hsign]
          rfl
        · cases hn
          refine ⟨agree_set (hmem _) w _, ?_⟩
          rw [score?_counted_setScore, amount_of_score? hm, Arith.add_change hchange]
      · refine ⟨[Line.remove target (-change)], _, _, ?_, .emit d _, .remove ht (-change),
          fun hp _ => .emit d (.remove hp (-change)), fun w m n hm hn => ?_⟩
        · rw [modify]
          simp only [hchange, if_neg hsign]
          rfl
        · cases hn
          refine ⟨agree_set (hmem _) w _, ?_⟩
          rw [score?_counted_setScore, amount_of_score? hm, BitVec.sub_eq_add_neg, BitVec.neg_neg,
            Arith.add_change hchange]
    | none =>
      -- the amount goes through a score of its own
      have hlet : Lettered "const" := by decide
      obtain ⟨constant, hconstant⟩ : ∃ s, s = d.options.temp "const" (d.count (.temp "const")) :=
        ⟨_, rfl⟩
      have hplain : constant.Plain := hconstant ▸ hd.plain_temp hlet _
      have hgrows := (Draft.Grows.emit (d.draw (.temp "const")) (Line.set constant n₀)).trans
        (.emit _ (Line.operation target op.sign constant))
      have hfresh := Draft.mem_fresh_draw hlet hgrows
      rw [← hconstant] at hfresh
      have hne : target ≠ constant := by
        rintro rfl
        exact ho _ hfresh
      refine ⟨_, _, _, ?_, (Draft.Grows.draw d _).trans hgrows,
        (Line.Steps.set hplain.worded n₀).append (.arith ht hplain.worded op),
        fun hp _ => (Draft.Adds.temp d "const").trans ((Draft.Adds.emit _ (.set hplain n₀)).trans
          (.emit _ (.operation hp hplain op.isPlain_sign op.ofText?_sign))), fun w m n hm hn => ?_⟩
      · rw [modify, hconstant]
        simp only [hchange]
        rfl
      · cases hn
        refine ⟨(agree_set (Set.mem_insert_of_mem _ hfresh) w _).trans (agree_set (hmem _) _ _), ?_⟩
        have hm' : (w.counted.setScore constant n₀).score? target = some m := by
          rw [World.score?_setScore, if_neg hne]
          exact hm
        rw [score?_counted_setScore, amount_of_score? hm',
          amount_of_score? (score?_counted_setScore w _ n₀)]

/-- The lines of an operator whose result goes into a score of its own. -/
theorem compute_steps (hd : d.options.Plain) (op : Arith) {source : Score} (hs : source.Worded)
    {v : Value} (hv : v.Ready d) :
    ∃ s lines d' f, (compute op source v).run.run d = (some (.score s), d') ∧ d.Grows lines d' ∧
      Line.Steps lines f ∧ (source.Plain → v.Steady d → d.Adds lines d') ∧ s.Plain ∧ d'.Old s ∧
      s ∈ d.fresh d' ∧ ∀ w m n, w.score? source = some m → v.Denotes w n →
        World.Agree (d.fresh d') w (f w) ∧
          (f w).score? s = some (wrap (arithmetic op m.toInt n.toInt)) := by
  have hlet : Lettered "expr" := by decide
  obtain ⟨result, hresult⟩ : ∃ s, s = d.options.temp "expr" (d.count (.temp "expr")) := ⟨_, rfl⟩
  have hplain : result.Plain := hresult ▸ hd.plain_temp hlet _
  have hcopy := Draft.Grows.emit (d.draw (.temp "expr")) (Line.operation result "=" source)
  have hfirst := (Draft.Grows.draw d (.temp "expr")).trans hcopy
  have hold : (d.draw (.temp "expr")).Old result := hresult ▸ Draft.old_draw hlet
  obtain ⟨lines, d', f, hrun, hgrows, hsteps, hadds, hdoes⟩ := modify_steps
    (hfirst.options.symm ▸ hd) hplain.worded (hold.grow hcopy) op (hv.grow hfirst)
  have hmem : result ∈ d.fresh d' := hresult ▸ Draft.mem_fresh_draw hlet (hcopy.trans hgrows)
  refine ⟨result, _, d', _, ?_, hfirst.trans hgrows,
    (Line.Steps.copy hplain.worded hs).append hsteps, fun hp hv => ?_, hplain,
    (hold.grow hcopy).grow hgrows, hmem, fun w m n hm hn => ?_⟩
  · rw [compute, run_andThen (run_lift _ d), run_temp, ← hresult, run_andThen (run_lift _ _)]
    exact run_andThen hrun
  · have hcopied : (d.draw (.temp "expr")).Adds [Line.operation result "=" source] _ :=
      .emit _ (.operation hplain hp (by decide) (c := .assign) rfl)
    exact ((Draft.Adds.temp d "expr").trans hcopied).trans (hadds hplain (hv.grow hfirst))
  · have hset := agree_set hmem w (w.amount source)
    have hone := score?_counted_setScore w result (w.amount source)
    rw [amount_of_score? hm] at hset hone
    rw [amount_of_score? hm]
    obtain ⟨hagree, hscore⟩ := hdoes _ m n hone (hn.keep hv hset)
    exact ⟨hset.trans (hagree.mono (Set.insert_subset hmem hfirst.fresh_right)), hscore⟩

/-- The lines of the opposite of a score. -/
theorem opposite_steps (hd : d.options.Plain) {source : Score} (hs : source.Worded)
    (ho : d.Old source) :
    ∃ s lines d' f, source.opposite.run d = (.score s, d') ∧ d.Grows lines d' ∧ Line.Steps lines f ∧
      (source.Plain → d.Adds lines d') ∧ s.Plain ∧ d'.Old s ∧ s ∈ d.fresh d' ∧
      ∀ w m, w.score? source = some m →
        World.Agree (d.fresh d') w (f w) ∧ (f w).score? s = some (wrap (-m.toInt)) := by
  have hlet : Lettered "expr" := by decide
  obtain ⟨result, hresult⟩ : ∃ s, s = d.options.temp "expr" (d.count (.temp "expr")) := ⟨_, rfl⟩
  have hplain : result.Plain := hresult ▸ hd.plain_temp hlet _
  have hset := Draft.Grows.emit (d.draw (.temp "expr")) (Line.set result 0)
  have hsub := Draft.Grows.emit ((d.draw (.temp "expr")).emit (Line.set result 0))
    (Line.operation result "-=" source)
  have hold : (d.draw (.temp "expr")).Old result := hresult ▸ Draft.old_draw hlet
  have hmem := Draft.mem_fresh_draw hlet (hset.trans hsub)
  rw [← hresult] at hmem
  have hne : source ≠ result := by
    rintro rfl
    exact ho _ hmem
  refine ⟨result, _, _, _, by rw [hresult]; rfl, (Draft.Grows.draw d _).trans (hset.trans hsub),
    (Line.Steps.set hplain.worded 0).append (.operation (c := .sub) hplain.worded hs (by decide) rfl
      (by decide)),
    fun hp => (Draft.Adds.temp d "expr").trans ((Draft.Adds.emit _ (.set hplain 0)).trans
      (.emit _ (.operation hplain hp (by decide) (c := .sub) rfl))),
    hplain, (hold.grow hset).grow hsub, hmem, fun w m hm => ?_⟩
  refine ⟨(agree_set hmem w 0).trans (agree_set hmem _ _), ?_⟩
  have hm' : (w.counted.setScore result 0).score? source = some m := by
    rw [World.score?_setScore, if_neg hne]
    exact hm
  rw [score?_counted_setScore, amount_of_score? hm',
    amount_of_score? (score?_counted_setScore w _ 0), ofInt_toInt_neg]
  exact congrArg some (BitVec.zero_sub m)

/-- The lines of an amount in a score of its own. -/
theorem ofValue_steps (hd : d.options.Plain) (n : Amount) :
    ∃ s lines d' f, (ofValue (.int n)).run.run d = (some (.score s), d') ∧ d.Adds lines d' ∧
      Line.Steps lines f ∧ s.Plain ∧ d'.Old s ∧
      ∀ w, World.Agree (d.fresh d') w (f w) ∧ (f w).score? s = some n := by
  have hlet : Lettered "const" := by decide
  obtain ⟨constant, hconstant⟩ : ∃ s, s = d.options.temp "const" (d.count (.temp "const")) :=
    ⟨_, rfl⟩
  have hplain : constant.Plain := hconstant ▸ hd.plain_temp hlet _
  have hset : (d.draw (.temp "const")).Adds [Line.set constant n] _ := .emit _ (.set hplain n)
  have hold : (d.draw (.temp "const")).Old constant := hconstant ▸ Draft.old_draw hlet
  have hmem := Draft.mem_fresh_draw hlet hset.toGrows
  rw [← hconstant] at hmem
  exact ⟨constant, _, _, _, by rw [hconstant]; rfl, (Draft.Adds.temp d "const").trans hset,
    .set hplain.worded n, hplain, hold.grow hset.toGrows,
    fun w => ⟨agree_set hmem w n, score?_counted_setScore w _ n⟩⟩

/-! ### Scores with plain names -/

theorem modify_spec (hd : d.options.Plain) {target : Score} (hp : target.Plain) (ho : d.Old target)
    (op : Arith) {v : Value} (hv : v.Steady d) :
    ∃ lines d', (target.modify op v).run.run d = (some (), d') ∧ d.Adds lines d' ∧
      ∀ callee w f w' m n, w.score? target = some m → v.Denotes w n →
        sequence callee (lines.map Order.ofText) w = .ok f w' →
        f = .next ∧ World.Agree (insert target (d.fresh d')) w w' ∧
          w'.score? target = some (wrap (arithmetic op m.toInt n.toInt)) := by
  obtain ⟨lines, d', f, hrun, -, hsteps, hadds, hdoes⟩ := modify_steps hd hp.worded ho op hv.ready
  refine ⟨lines, d', hrun, hadds hp hv, fun callee w g w' m n hm hn h => ?_⟩
  obtain ⟨-, rfl, rfl⟩ := (hsteps.run callee w g w').mp h
  exact ⟨rfl, hdoes w m n hm hn⟩

theorem compute_spec (hd : d.options.Plain) (op : Arith) {source : Score} (hp : source.Plain)
    {v : Value} (hv : v.Steady d) :
    ∃ s lines d', (compute op source v).run.run d = (some (.score s), d') ∧ d.Adds lines d' ∧
      s.Plain ∧ d'.Old s ∧ ∀ callee w f w' m n, w.score? source = some m → v.Denotes w n →
        sequence callee (lines.map Order.ofText) w = .ok f w' →
        f = .next ∧ World.Agree (d.fresh d') w w' ∧
          w'.score? s = some (wrap (arithmetic op m.toInt n.toInt)) := by
  obtain ⟨s, lines, d', f, hrun, -, hsteps, hadds, hplain, hold, -, hdoes⟩ :=
    compute_steps hd op hp.worded hv.ready
  refine ⟨s, lines, d', hrun, hadds hp hv, hplain, hold, fun callee w g w' m n hm hn h => ?_⟩
  obtain ⟨-, rfl, rfl⟩ := (hsteps.run callee w g w').mp h
  exact ⟨rfl, hdoes w m n hm hn⟩

theorem opposite_spec (hd : d.options.Plain) {source : Score} (hp : source.Plain)
    (ho : d.Old source) :
    ∃ s lines d', source.opposite.run d = (.score s, d') ∧ d.Adds lines d' ∧ s.Plain ∧ d'.Old s ∧
      ∀ callee w f w' m, w.score? source = some m →
        sequence callee (lines.map Order.ofText) w = .ok f w' →
        f = .next ∧ World.Agree (d.fresh d') w w' ∧ w'.score? s = some (wrap (-m.toInt)) := by
  obtain ⟨s, lines, d', f, hrun, -, hsteps, hadds, hplain, hold, -, hdoes⟩ :=
    opposite_steps hd hp.worded ho
  refine ⟨s, lines, d', hrun, hadds hp, hplain, hold, fun callee w g w' m hm h => ?_⟩
  obtain ⟨-, rfl, rfl⟩ := (hsteps.run callee w g w').mp h
  exact ⟨rfl, hdoes w m hm⟩

theorem ofValue_spec (hd : d.options.Plain) (n : Amount) :
    ∃ s lines d', (ofValue (.int n)).run.run d = (some (.score s), d') ∧ d.Adds lines d' ∧
      s.Plain ∧ d'.Old s ∧ ∀ callee w f w',
        sequence callee (lines.map Order.ofText) w = .ok f w' →
        f = .next ∧ World.Agree (d.fresh d') w w' ∧ w'.score? s = some n := by
  obtain ⟨s, lines, d', f, hrun, hadds, hsteps, hplain, hold, hdoes⟩ := ofValue_steps hd n
  refine ⟨s, lines, d', hrun, hadds, hplain, hold, fun callee w g w' h => ?_⟩
  obtain ⟨-, rfl, rfl⟩ := (hsteps.run callee w g w').mp h
  exact ⟨rfl, hdoes w⟩

end Score

end Packwright
