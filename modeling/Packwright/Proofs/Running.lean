import Packwright.Machine.Run
import Mathlib.Data.Set.Basic

/-!
# Runs of commands

What a run that ends without a fault did, order by order, and what such a run depends on.

* `sequence`: the orders of a list in turn, with the flow behind them.  `commands` forgets the flow.
* `order_guard_ok`, `command_ok`, `sequence_append_ok`, …: what it means that a run ends without a
  fault.
* `World.Agree F w v`: the two worlds are the same to a command that does not touch the scores in
  `F`; counts of commands and of tests are left out.
* `order_transfer`, `sequence_transfer`, `function_transfer`: a run without a fault that does not
  touch `F` goes the same way in a world that agrees, has no more commands behind it and no less
  depth before it.
-/

namespace Packwright

/-! ## Worlds and scores -/

theorem Table.get?_erase {κ α : Type} [DecidableEq κ] (t : Table κ α) (key other : κ) :
    (t.erase key).get? other = if other = key then none else t.get? other := by
  induction t with
  | nil => simp [Table.erase, Table.get?]
  | cons p t ih =>
    obtain ⟨k, v⟩ := p
    unfold Table.erase at ih ⊢
    by_cases hk : k = key
    · subst hk
      rw [List.filter_cons_of_neg (by simp), ih, Table.get?]
      by_cases ho : other = k
      · simp [ho]
      · simp [ho, Ne.symm ho]
    · rw [List.filter_cons_of_pos (by simp [hk]), Table.get?, Table.get?, ih]
      by_cases ho : k = other
      · subst ho
        simp [hk]
      · simp [ho]

namespace World

/-- The world in which one more command was carried out. -/
def counted (w : World) : World := { w with executed := w.executed + 1 }

theorem score?_setScore (w : World) (s t : Score) (n : Amount) :
    (w.setScore s n).score? t = if t = s then some n else w.score? t := by
  unfold score? setScore
  by_cases h : t = s
  · subst h
    simp
  · rw [if_neg h]
    exact Table.get?_put_of_ne w.scores n h

theorem score?_resetScore (w : World) (s t : Score) :
    (w.resetScore s).score? t = if t = s then none else w.score? t :=
  Table.get?_erase w.scores s t

@[simp] theorem score?_evaluated (w : World) (text : String) (s : Score) :
    (w.evaluated text).score? s = w.score? s := rfl

@[simp] theorem score?_counted (w : World) (s : Score) : w.counted.score? s = w.score? s := rfl

@[simp] theorem executed_counted (w : World) : w.counted.executed = w.executed + 1 := rfl

@[simp] theorem executed_evaluated (w : World) (text : String) :
    (w.evaluated text).executed = w.executed := rfl

@[simp] theorem executed_setScore (w : World) (s : Score) (n : Amount) :
    (w.setScore s n).executed = w.executed := rfl

@[simp] theorem executed_combine (w : World) (s : Score) (c : Combination) (t : Score) :
    (w.combine s c t).executed = w.executed := by
  unfold combine
  dsimp only
  split <;> rfl

/-- The worlds differ in the scores of `F` and in what was counted, and in nothing else. -/
structure Agree (F : Set Score) (w v : World) : Prop where
  score : ∀ s, s ∉ F → v.score? s = w.score? s
  answers : v.answers = w.answers
  data : v.data = w.data
  output : v.output = w.output

namespace Agree

variable {F G : Set Score} {u v w : World}

theorem refl (F : Set Score) (w : World) : Agree F w w := ⟨fun _ _ => rfl, rfl, rfl, rfl⟩

theorem symm (h : Agree F w v) : Agree F v w :=
  ⟨fun s hs => (h.score s hs).symm, h.answers.symm, h.data.symm, h.output.symm⟩

theorem trans (h : Agree F w v) (h' : Agree F v u) : Agree F w u :=
  ⟨fun s hs => (h'.score s hs).trans (h.score s hs), h'.answers.trans h.answers,
    h'.data.trans h.data, h'.output.trans h.output⟩

theorem mono (h : Agree F w v) (hFG : F ⊆ G) : Agree G w v :=
  ⟨fun s hs => h.score s fun hF => hs (hFG hF), h.answers, h.data, h.output⟩

theorem counted (F : Set Score) (w : World) : Agree F w w.counted := ⟨fun _ _ => rfl, rfl, rfl, rfl⟩

theorem evaluated (F : Set Score) (w : World) (text : String) : Agree F w (w.evaluated text) :=
  ⟨fun _ _ => rfl, rfl, rfl, rfl⟩

theorem setScore {s : Score} (hs : s ∈ F) (w : World) (n : Amount) :
    Agree F w (w.setScore s n) := by
  refine ⟨fun t ht => ?_, rfl, rfl, rfl⟩
  rw [score?_setScore, if_neg]
  rintro rfl
  exact ht hs

theorem amount (h : Agree F w v) {s : Score} (hs : s ∉ F) : v.amount s = w.amount s := by
  rw [World.amount, World.amount, h.score s hs]

/-- The same change on both sides keeps the agreement. -/
theorem setScore_setScore (h : Agree F w v) (s : Score) (n : Amount) :
    Agree F (w.setScore s n) (v.setScore s n) := by
  refine ⟨fun t ht => ?_, h.answers, h.data, h.output⟩
  rw [score?_setScore, score?_setScore, h.score t ht]

theorem resetScore_resetScore (h : Agree F w v) (s : Score) :
    Agree F (w.resetScore s) (v.resetScore s) := by
  refine ⟨fun t ht => ?_, h.answers, h.data, h.output⟩
  rw [score?_resetScore, score?_resetScore, h.score t ht]

end Agree

end World

/-- The scores that a test reads. -/
def Test.scores : Test → List Score
  | .within s _ => [s]
  | .compare l _ r => [l, r]
  | .ask => []

/-- A test has the same outcome in worlds that agree on its scores. -/
theorem World.Agree.outcome {F : Set Score} {w v : World} (h : World.Agree F w v) {t : Test}
    (ht : ∀ s ∈ t.scores, s ∉ F) (text : String) : v.outcome text t = w.outcome text t := by
  cases t with
  | within s r => rw [World.outcome, World.outcome, h.score s (ht s (by simp [Test.scores]))]
  | compare l c r =>
    rw [World.outcome, World.outcome, h.score l (ht l (by simp [Test.scores])),
      h.score r (ht r (by simp [Test.scores]))]
  | ask => rw [World.outcome, World.outcome, h.answers]

/-! ## Runs without a fault -/

namespace Run

theorem bind_ok {α β : Type} {m : Run α} {f : α → Run β} {w w' : World} {b : β} :
    (m >>= f) w = .ok b w' ↔ ∃ a v, m w = .ok a v ∧ f a v = .ok b w' := by
  show EStateM.bind m f w = .ok b w' ↔ _
  unfold EStateM.bind
  cases hm : m w with
  | ok a v =>
    constructor
    · exact fun h => ⟨a, v, rfl, h⟩
    · rintro ⟨a', v', h, h'⟩
      cases h
      exact h'
  | error e v => simp

/-- Whether a run ends without a fault. -/
def succeeds {α : Type} (m : Run α) (w : World) : Bool :=
  match m w with
  | .ok _ _ => true
  | .error _ _ => false

theorem exists_of_succeeds {α : Type} {m : Run α} {w : World} (h : succeeds m w = true) :
    ∃ a w', m w = .ok a w' := by
  unfold succeeds at h
  cases hm : m w with
  | ok a w' => exact ⟨a, w', rfl⟩
  | error e w' =>
    rw [hm] at h
    cases h

/-- The world in which a run ends. -/
def after {α : Type} (m : Run α) (w : World) : World :=
  match m w with
  | .ok _ v => v
  | .error _ v => v

/-- Whether a list is carried out to its end. -/
def passes (m : Run Flow) (w : World) : Bool :=
  match m w with
  | .ok .next _ => true
  | _ => false

theorem eq_after_of_passes {m : Run Flow} {w : World} (h : passes m w = true) :
    m w = .ok .next (after m w) := by
  unfold passes at h
  unfold after
  split at h
  · rename_i v hm
    rw [hm]
  · cases h

theorem count_ok {w w' : World} :
    count w = .ok () w' ↔ w.executed < budget ∧ w' = w.counted := by
  have hcount : count w = if w.counted.executed > budget then .error .budgetExhausted w.counted
      else .ok () w.counted := by
    show (if w.counted.executed > budget then throw Fault.budgetExhausted else pure () : Run Unit)
      w.counted = _
    split <;> rfl
  rw [hcount]
  by_cases h : w.counted.executed > budget
  · rw [if_pos h]
    constructor
    · intro hc; cases hc
    · rintro ⟨hlt, -⟩
      rw [World.executed_counted] at h
      omega
  · rw [if_neg h]
    rw [World.executed_counted] at h
    constructor
    · intro hc
      cases hc
      exact ⟨by omega, rfl⟩
    · rintro ⟨-, rfl⟩
      rfl

variable {callee : ResourceId → Run Unit} {w w' : World} {f : Flow}

theorem command_ok {o : Order} : command callee o w = .ok f w' ↔
    w.executed < budget ∧ order callee o w.counted = .ok f w' := by
  rw [command, bind_ok]
  constructor
  · rintro ⟨⟨⟩, v, hc, ho⟩
    obtain ⟨hlt, rfl⟩ := count_ok.mp hc
    exact ⟨hlt, ho⟩
  · rintro ⟨hlt, ho⟩
    exact ⟨(), w.counted, count_ok.mpr ⟨hlt, rfl⟩, ho⟩

theorem order_run (o : Order) : order callee (.run o) = command callee o := rfl

theorem order_call_ok {id : ResourceId} : order callee (.call id) w = .ok f w' ↔
    f = .next ∧ callee id w = .ok () w' := by
  rw [order, bind_ok]
  constructor
  · rintro ⟨⟨⟩, v, hc, ho⟩
    cases ho
    exact ⟨rfl, hc⟩
  · rintro ⟨rfl, hc⟩
    exact ⟨(), w', hc, rfl⟩

theorem order_guard {expected : Bool} {t : Test} {text : String} {o : Order} :
    order callee (.guard expected t text o) w =
      if w.outcome text t = expected then order callee o (w.evaluated text)
      else .ok .next (w.evaluated text) := by
  rw [order]
  show (if w.outcome text t = expected then order callee o else pure Flow.next : Run Flow)
    (w.evaluated text) = _
  split <;> rfl

/-! ### Lists with their flow -/

/-- Carries out commands until one leaves the list, and says whether one has. -/
def sequence (callee : ResourceId → Run Unit) : List Order → Run Flow
  | [] => return .next
  | o :: os => do
    match ← command callee o with
    | .leave => return .leave
    | .next => sequence callee os

theorem sequence_nil_ok : sequence callee [] w = .ok f w' ↔ f = .next ∧ w' = w := by
  show EStateM.Result.ok Flow.next w = .ok f w' ↔ _
  constructor
  · intro h; cases h; exact ⟨rfl, rfl⟩
  · rintro ⟨rfl, rfl⟩; rfl

theorem sequence_cons_ok {o : Order} {os : List Order} : sequence callee (o :: os) w = .ok f w' ↔
    (∃ v, command callee o w = .ok .next v ∧ sequence callee os v = .ok f w') ∨
      (f = .leave ∧ command callee o w = .ok .leave w') := by
  rw [sequence, bind_ok]
  constructor
  · rintro ⟨g, v, hc, hs⟩
    cases g with
    | next => exact Or.inl ⟨v, hc, hs⟩
    | leave =>
      cases hs
      exact Or.inr ⟨rfl, hc⟩
  · rintro (⟨v, hc, hs⟩ | ⟨rfl, hc⟩)
    · exact ⟨.next, v, hc, hs⟩
    · exact ⟨.leave, w', hc, rfl⟩

theorem sequence_append_ok {os ps : List Order} : sequence callee (os ++ ps) w = .ok f w' ↔
    (∃ v, sequence callee os w = .ok .next v ∧ sequence callee ps v = .ok f w') ∨
      (f = .leave ∧ sequence callee os w = .ok .leave w') := by
  induction os generalizing w with
  | nil =>
    simp only [List.nil_append, sequence_nil_ok]
    constructor
    · intro h
      exact Or.inl ⟨w, ⟨trivial, rfl⟩, h⟩
    · rintro (⟨v, ⟨-, rfl⟩, h⟩ | ⟨-, h, -⟩)
      · exact h
      · cases h
  | cons o os ih =>
    simp only [List.cons_append, sequence_cons_ok, ih]
    constructor
    · rintro (⟨v, hc, ⟨u, hos, hps⟩ | ⟨rfl, hos⟩⟩ | ⟨rfl, hc⟩)
      · exact Or.inl ⟨u, Or.inl ⟨v, hc, hos⟩, hps⟩
      · exact Or.inr ⟨rfl, Or.inl ⟨v, hc, hos⟩⟩
      · exact Or.inr ⟨rfl, Or.inr ⟨trivial, hc⟩⟩
    · rintro (⟨u, ⟨v, hc, hos⟩ | ⟨h, -⟩, hps⟩ | ⟨rfl, ⟨v, hc, hos⟩ | ⟨-, hc⟩⟩)
      · exact Or.inl ⟨v, hc, Or.inl ⟨u, hos, hps⟩⟩
      · cases h
      · exact Or.inl ⟨v, hc, Or.inr ⟨rfl, hos⟩⟩
      · exact Or.inr ⟨rfl, hc⟩

/-- Behind commands that are carried out to their end, the others go on. -/
theorem sequence_append_of_next {os ps : List Order} {v : World}
    (hos : sequence callee os w = .ok .next v) (h : sequence callee (os ++ ps) w = .ok f w') :
    sequence callee ps v = .ok f w' := by
  rcases sequence_append_ok.mp h with ⟨u, hu, hps⟩ | ⟨-, hu⟩
  · obtain ⟨-, rfl⟩ := EStateM.Result.ok.inj (hos.symm.trans hu)
    exact hps
  · cases hos.symm.trans hu

theorem sequence_singleton_ok {o : Order} :
    sequence callee [o] w = .ok f w' ↔ command callee o w = .ok f w' := by
  rw [sequence_cons_ok]
  simp only [sequence_nil_ok]
  constructor
  · rintro (⟨v, hc, rfl, rfl⟩ | ⟨rfl, hc⟩) <;> exact hc
  · intro hc
    cases f with
    | next => exact Or.inl ⟨w', hc, rfl, rfl⟩
    | leave => exact Or.inr ⟨rfl, hc⟩

theorem commands_ok {os : List Order} :
    commands callee os w = .ok () w' ↔ ∃ f, sequence callee os w = .ok f w' := by
  induction os generalizing w with
  | nil =>
    simp only [sequence_nil_ok]
    show EStateM.Result.ok () w = .ok () w' ↔ _
    constructor
    · intro h; cases h; exact ⟨.next, rfl, rfl⟩
    · rintro ⟨f, -, rfl⟩; rfl
  | cons o os ih =>
    rw [commands, bind_ok]
    simp only [sequence_cons_ok]
    constructor
    · rintro ⟨g, v, hc, hs⟩
      cases g with
      | next =>
        obtain ⟨f, hf⟩ := ih.mp hs
        exact ⟨f, Or.inl ⟨v, hc, hf⟩⟩
      | leave =>
        cases hs
        exact ⟨.leave, Or.inr ⟨rfl, hc⟩⟩
    · rintro ⟨f, ⟨v, hc, hs⟩ | ⟨-, hc⟩⟩
      · exact ⟨.next, v, hc, ih.mpr ⟨f, hs⟩⟩
      · exact ⟨.leave, w', hc, rfl⟩

theorem function_ok {p : Program} {depth : Nat} {id : ResourceId} :
    function p depth id w = .ok () w' ↔
      ∃ n os f, depth = n + 1 ∧ p.get? id = some os ∧ sequence (function p n) os w = .ok f w' := by
  cases depth with
  | zero =>
    constructor
    · intro h; cases h
    · rintro ⟨n, os, f, h, -⟩; omega
  | succ n =>
    rw [function]
    cases hid : p.get? id with
    | none =>
      constructor
      · intro h; cases h
      · rintro ⟨m, os, f, -, h, -⟩; cases h
    | some os =>
      show commands (function p n) os w = .ok () w' ↔ _
      rw [commands_ok]
      constructor
      · rintro ⟨f, hf⟩
        exact ⟨n, os, f, rfl, rfl, hf⟩
      · rintro ⟨m, os', f, hm, hos, hf⟩
        obtain rfl : n = m := by omega
        cases hos
        exact ⟨f, hf⟩

/-! ## What a run depends on -/

theorem order_executed (hcallee : ∀ id w w', callee id w = .ok () w' → w.executed ≤ w'.executed) :
    ∀ (o : Order) {w w' : World} {f : Flow}, order callee o w = .ok f w' → w.executed ≤ w'.executed
  | .nothing, _, _, _, h | .leave, _, _, _, h | .print _, _, _, _, h
  | .fetch _ _, _, _, _, h | .reset _, _, _, _, h | .adjust _ _ _, _, _, _, h => by
    cases h
    exact le_rfl
  | .combine s c t, w, _, _, h => by
    cases h
    exact (World.executed_combine w s c t).ge
  | .call id, w, w', _, h => hcallee id w w' (order_call_ok.mp h).2
  | .guard expected t text o, w, w', _, h => by
    rw [order_guard] at h
    split at h
    · exact order_executed hcallee o (w := w.evaluated text) h
    · cases h
      exact le_rfl
  | .run o, w, w', _, h => by
    have hc := (command_ok.mp h).2
    have := order_executed hcallee o hc
    rw [World.executed_counted] at this
    omega
  | .malformed _, _, _, _, h => by cases h

theorem command_executed (hcallee : ∀ id w w', callee id w = .ok () w' → w.executed ≤ w'.executed)
    {o : Order} (h : command callee o w = .ok f w') : w.executed ≤ w'.executed :=
  order_executed hcallee (.run o) h

theorem sequence_executed
    (hcallee : ∀ id w w', callee id w = .ok () w' → w.executed ≤ w'.executed) :
    ∀ {os : List Order} {w w' : World} {f : Flow}, sequence callee os w = .ok f w' →
      w.executed ≤ w'.executed
  | [], _, _, _, h => by
    obtain ⟨-, rfl⟩ := sequence_nil_ok.mp h
    exact le_rfl
  | o :: os, _, _, _, h => by
    rcases sequence_cons_ok.mp h with ⟨v, hc, hs⟩ | ⟨-, hc⟩
    · exact (command_executed hcallee hc).trans (sequence_executed hcallee hs)
    · exact command_executed hcallee hc

/-- A run never takes back commands that were counted. -/
theorem function_executed (p : Program) : ∀ (depth : Nat) (id : ResourceId) (w w' : World),
    function p depth id w = .ok () w' → w.executed ≤ w'.executed := by
  intro depth
  induction depth with
  | zero => intro id w w' h; cases h
  | succ n ih =>
    intro id w w' h
    obtain ⟨m, os, f, hm, -, hs⟩ := function_ok.mp h
    obtain rfl : n = m := by omega
    exact sequence_executed ih hs

end Run

/-- The scores that an order reads or writes. -/
def Order.scores : Order → List Score
  | .adjust _ s _ | .reset s | .fetch s _ => [s]
  | .combine s _ t => [s, t]
  | .guard _ t _ o => t.scores ++ o.scores
  | .run o => o.scores
  | _ => []

/-- The list that an order calls, if its guards let it. -/
def Order.target? : Order → Option ResourceId
  | .call id => some id
  | .guard _ _ _ o | .run o => o.target?
  | _ => none

/-- `v` agrees with `w` outside of `F`, and has no more commands behind it. -/
structure World.Covers (F : Set Score) (w v : World) : Prop extends World.Agree F w v where
  executed : v.executed ≤ w.executed

/-- Where a call ends without a fault, the other ends without a fault too and stays covered. -/
def Run.Follows (F : Set Score) (first second : Run Unit) : Prop :=
  ∀ w w' v, first w = .ok () w' → World.Covers F w v →
    ∃ v', second v = .ok () v' ∧ World.Covers F w' v'

theorem Run.Follows.trans {F : Set Score} {first second third : Run Unit}
    (h : Run.Follows F first second) (h' : Run.Follows F second third) :
    Run.Follows F first third := by
  intro w w' v hrun hv
  obtain ⟨u, hu, hcov⟩ := h w w' w hrun ⟨World.Agree.refl F w, le_rfl⟩
  obtain ⟨v', hv', hcov'⟩ := h' w u v hu hv
  exact ⟨v', hv', hcov.toAgree.trans hcov'.toAgree, hcov'.executed.trans hcov.executed⟩

namespace Run

variable {F : Set Score} {callee callee' : ResourceId → Run Unit}

theorem covers_combine {w v : World} (h : World.Covers F w v) {s t : Score} (hs : s ∉ F)
    (ht : t ∉ F) (c : Combination) : World.Covers F (w.combine s c t) (v.combine s c t) := by
  have hsa : v.amount s = w.amount s := h.amount hs
  have hta : v.amount t = w.amount t := h.amount ht
  refine ⟨?_, by simpa using h.executed⟩
  unfold World.combine
  dsimp only
  rw [hsa, hta]
  by_cases hc : c = .swap
  · rw [if_pos hc, if_pos hc]
    exact (h.setScore_setScore t _).setScore_setScore s _
  · rw [if_neg hc, if_neg hc]
    exact h.setScore_setScore s _

/-- **An order that does not touch `F`** goes the same way in a world that covers the first. -/
theorem order_transfer : ∀ {o : Order}, (∀ s ∈ o.scores, s ∉ F) →
    (∀ id, o.target? = some id → Follows F (callee id) (callee' id)) →
    ∀ {w w' v : World} {f : Flow}, order callee o w = .ok f w' → World.Covers F w v →
      ∃ v', order callee' o v = .ok f v' ∧ World.Covers F w' v'
  | .nothing, _, _, w, w', v, f, h, hv => by
    cases h
    exact ⟨v, rfl, hv⟩
  | .leave, _, _, w, w', v, f, h, hv => by
    cases h
    exact ⟨v, rfl, hv⟩
  | .adjust change s n, hs, _, w, w', v, f, h, hv => by
    cases h
    refine ⟨v.adjust change s n, rfl, ?_, hv.executed⟩
    have ha : v.amount s = w.amount s := hv.amount (hs s (by simp [Order.scores]))
    unfold World.adjust
    rw [ha]
    exact hv.setScore_setScore s _
  | .reset s, hs, _, w, w', v, f, h, hv => by
    cases h
    exact ⟨v.resetScore s, rfl, hv.resetScore_resetScore s, hv.executed⟩
  | .combine s c t, hs, _, w, w', v, f, h, hv => by
    cases h
    exact ⟨v.combine s c t, rfl,
      covers_combine hv (hs s (by simp [Order.scores])) (hs t (by simp [Order.scores])) c⟩
  | .call id, _, hcall, w, w', v, f, h, hv => by
    obtain ⟨rfl, hc⟩ := order_call_ok.mp h
    obtain ⟨v', hv', hcov⟩ := hcall id rfl w w' v hc hv
    exact ⟨v', order_call_ok.mpr ⟨rfl, hv'⟩, hcov⟩
  | .guard expected t text o, hs, hcall, w, w', v, f, h, hv => by
    have ht : v.outcome text t = w.outcome text t :=
      hv.outcome (fun s hm => hs s (by simp [Order.scores, hm])) text
    have hev : World.Covers F (w.evaluated text) (v.evaluated text) :=
      ⟨⟨hv.score, hv.answers, hv.data, hv.output⟩, hv.executed⟩
    rw [order_guard] at h ⊢
    rw [ht]
    split at h
    · rename_i hexp
      rw [if_pos hexp]
      exact order_transfer (o := o) (fun s hm => hs s (by simp [Order.scores, hm])) hcall h hev
    · rename_i hexp
      rw [if_neg hexp]
      cases h
      exact ⟨v.evaluated text, rfl, hev⟩
  | .fetch s question, _, _, w, w', v, f, h, hv => by
    cases h
    refine ⟨_, rfl, ?_, hv.executed⟩
    show World.Agree F _ (v.setScore s ((v.data.get? question).getD 0))
    rw [hv.data]
    exact hv.setScore_setScore s _
  | .run o, hs, hcall, w, w', v, f, h, hv => by
    obtain ⟨hlt, ho⟩ := command_ok.mp h
    have hcount : World.Covers F w.counted v.counted :=
      ⟨⟨hv.score, hv.answers, hv.data, hv.output⟩, Nat.succ_le_succ hv.executed⟩
    obtain ⟨v', hv', hcov⟩ := order_transfer (o := o) hs hcall ho hcount
    exact ⟨v', command_ok.mpr ⟨lt_of_le_of_lt hv.executed hlt, hv'⟩, hcov⟩
  | .print line, _, _, w, w', v, f, h, hv => by
    cases h
    refine ⟨{ v with output := v.output.push line }, rfl, ⟨hv.score, hv.answers, hv.data, ?_⟩,
      hv.executed⟩
    show v.output.push line = w.output.push line
    rw [hv.output]
  | .malformed _, _, _, w, w', v, f, h, _ => by cases h

theorem command_transfer {o : Order} (hs : ∀ s ∈ o.scores, s ∉ F)
    (hcall : ∀ id, o.target? = some id → Follows F (callee id) (callee' id)) {w w' v : World}
    {f : Flow} (h : command callee o w = .ok f w') (hv : World.Covers F w v) :
    ∃ v', command callee' o v = .ok f v' ∧ World.Covers F w' v' :=
  order_transfer (o := .run o) hs hcall h hv

theorem sequence_transfer : ∀ {os : List Order}, (∀ o ∈ os, ∀ s ∈ o.scores, s ∉ F) →
    (∀ o ∈ os, ∀ id, o.target? = some id → Follows F (callee id) (callee' id)) →
    ∀ {w w' v : World} {f : Flow}, sequence callee os w = .ok f w' → World.Covers F w v →
      ∃ v', sequence callee' os v = .ok f v' ∧ World.Covers F w' v'
  | [], _, _, w, w', v, f, h, hv => by
    obtain ⟨rfl, rfl⟩ := sequence_nil_ok.mp h
    exact ⟨v, sequence_nil_ok.mpr ⟨rfl, rfl⟩, hv⟩
  | o :: os, hs, hcall, w, w', v, f, h, hv => by
    rcases sequence_cons_ok.mp h with ⟨u, hc, hrest⟩ | ⟨rfl, hc⟩
    · obtain ⟨u', hu', hcov⟩ := command_transfer (hs o (by simp)) (hcall o (by simp)) hc hv
      obtain ⟨v', hv', hcov'⟩ := sequence_transfer (fun q hq => hs q (by simp [hq]))
        (fun q hq => hcall q (by simp [hq])) hrest hcov
      exact ⟨v', sequence_cons_ok.mpr (Or.inl ⟨u', hu', hv'⟩), hcov'⟩
    · obtain ⟨v', hv', hcov⟩ := command_transfer (hs o (by simp)) (hcall o (by simp)) hc hv
      exact ⟨v', sequence_cons_ok.mpr (Or.inr ⟨rfl, hv'⟩), hcov⟩

end Run

/-- The lists of `S` call lists of `S` only, and none of them touches a score of `F`. -/
def Program.Avoids (p : Program) (F : Set Score) (S : Set ResourceId) : Prop :=
  ∀ id ∈ S, ∀ os, p.get? id = some os → ∀ o ∈ os,
    (∀ s ∈ o.scores, s ∉ F) ∧ ∀ t, o.target? = some t → t ∈ S

/-- **A call that does not touch `F`** goes the same way in a world that covers the first, with no
less depth before it. -/
theorem Run.function_transfer {p : Program} {F : Set Score} {S : Set ResourceId}
    (hS : p.Avoids F S) : ∀ {depth depth' : Nat}, depth ≤ depth' → ∀ id ∈ S,
      Run.Follows F (Run.function p depth id) (Run.function p depth' id) := by
  intro depth
  induction depth with
  | zero =>
    intro depth' _ id _ w w' v h _
    cases h
  | succ n ih =>
    intro depth' hle id hid w w' v h hv
    obtain ⟨m, os, f, hm, hos, hs⟩ := Run.function_ok.mp h
    obtain rfl : n = m := by omega
    obtain ⟨n', rfl⟩ : ∃ n', depth' = n' + 1 := ⟨depth' - 1, by omega⟩
    obtain ⟨v', hv', hcov⟩ := Run.sequence_transfer (fun o ho => (hS id hid os hos o ho).1)
      (fun o ho t ht => ih (Nat.le_of_succ_le_succ hle) t ((hS id hid os hos o ho).2 t ht)) hs hv
    exact ⟨v', Run.function_ok.mpr ⟨n', os, f, rfl, hos, hv'⟩, hcov⟩

namespace Run

variable {F : Set Score} {callee : ResourceId → Run Unit}

/-- An order that does not touch `F` leaves the scores of `F` as they are. -/
theorem order_frame : ∀ {o : Order}, (∀ s ∈ o.scores, s ∉ F) →
    (∀ t, o.target? = some t → ∀ w w', callee t w = .ok () w' → ∀ s ∈ F, w'.score? s = w.score? s) →
    ∀ {w w' : World} {f : Flow}, order callee o w = .ok f w' → ∀ s ∈ F, w'.score? s = w.score? s
  | .nothing, _, _, _, _, _, h, _, _ | .leave, _, _, _, _, _, h, _, _
  | .print _, _, _, _, _, _, h, _, _ => by
    cases h
    rfl
  | .adjust change s n, hs, _, w, w', f, h, t, ht => by
    cases h
    unfold World.adjust
    rw [World.score?_setScore, if_neg]
    rintro rfl
    exact hs t (by simp [Order.scores]) ht
  | .reset s, hs, _, w, w', f, h, t, ht => by
    cases h
    rw [World.score?_resetScore, if_neg]
    rintro rfl
    exact hs t (by simp [Order.scores]) ht
  | .combine s c u, hs, _, w, w', f, h, t, ht => by
    cases h
    have hts : t ≠ s := by
      rintro rfl
      exact hs t (by simp [Order.scores]) ht
    have htu : t ≠ u := by
      rintro rfl
      exact hs t (by simp [Order.scores]) ht
    unfold World.combine
    dsimp only
    rw [World.score?_setScore, if_neg hts]
    split
    · rw [World.score?_setScore, if_neg htu]
    · rfl
  | .call id, _, hcall, w, w', f, h, t, ht => hcall id rfl w w' (order_call_ok.mp h).2 t ht
  | .guard expected test text o, hs, hcall, w, w', f, h, t, ht => by
    rw [order_guard] at h
    split at h
    · exact order_frame (o := o) (fun s hm => hs s (by simp [Order.scores, hm])) hcall h t ht
    · cases h
      rfl
  | .fetch s question, hs, _, w, w', f, h, t, ht => by
    cases h
    rw [World.score?_setScore, if_neg]
    rintro rfl
    exact hs t (by simp [Order.scores]) ht
  | .run o, hs, hcall, w, w', f, h, t, ht =>
    order_frame (o := o) hs hcall (w := w.counted) (command_ok.mp h).2 t ht
  | .malformed _, _, _, _, _, _, h, _, _ => by cases h

theorem sequence_frame : ∀ {os : List Order}, (∀ o ∈ os, ∀ s ∈ o.scores, s ∉ F) →
    (∀ o ∈ os, ∀ t, o.target? = some t → ∀ w w', callee t w = .ok () w' →
      ∀ s ∈ F, w'.score? s = w.score? s) →
    ∀ {w w' : World} {f : Flow}, sequence callee os w = .ok f w' → ∀ s ∈ F, w'.score? s = w.score? s
  | [], _, _, _, _, _, h, _, _ => by
    obtain ⟨-, rfl⟩ := sequence_nil_ok.mp h
    rfl
  | o :: os, hs, hcall, w, w', f, h, t, ht => by
    have hfirst := fun {u : World} {g : Flow} (hc : command callee o w = .ok g u) =>
      order_frame (o := .run o) (hs o (by simp)) (hcall o (by simp)) hc t ht
    rcases sequence_cons_ok.mp h with ⟨u, hc, hrest⟩ | ⟨-, hc⟩
    · exact (sequence_frame (fun q hq => hs q (by simp [hq])) (fun q hq => hcall q (by simp [hq]))
        hrest t ht).trans (hfirst hc)
    · exact hfirst hc

/-- A call that does not touch `F` leaves the scores of `F` as they are. -/
theorem function_frame {p : Program} {S : Set ResourceId} (hS : p.Avoids F S) :
    ∀ depth, ∀ id ∈ S, ∀ w w', function p depth id w = .ok () w' →
      ∀ s ∈ F, w'.score? s = w.score? s := by
  intro depth
  induction depth with
  | zero => intro id _ w w' h; cases h
  | succ n ih =>
    intro id hid w w' h
    obtain ⟨m, os, f, hm, hos, hs⟩ := function_ok.mp h
    obtain rfl : n = m := by omega
    exact sequence_frame (fun o ho => (hS id hid os hos o ho).1)
      (fun o ho t ht => ih t ((hS id hid os hos o ho).2 t ht)) hs

end Run

namespace Run

variable {callee callee' : ResourceId → Run Unit}

theorem order_congr : ∀ {o : Order}, (∀ t, o.target? = some t → callee t = callee' t) →
    order callee o = order callee' o
  | .nothing, _ | .leave, _ | .adjust _ _ _, _ | .reset _, _ | .combine _ _ _, _ | .fetch _ _, _
  | .print _, _ | .malformed _, _ => rfl
  | .call id, h => by rw [order, order, h id rfl]
  | .guard expected t text o, h => by
    rw [order, order, order_congr (o := o) h]
  | .run o, h => by rw [order, order, order_congr (o := o) h]

theorem commands_congr : ∀ {os : List Order},
    (∀ o ∈ os, ∀ t, o.target? = some t → callee t = callee' t) →
      commands callee os = commands callee' os
  | [], _ => rfl
  | o :: os, h => by
    rw [commands, commands, commands_congr fun q hq => h q (List.mem_cons_of_mem o hq)]
    rw [command, command, order_congr (h o List.mem_cons_self)]

/-- **Two programs with the same lists in `S`**, whose lists in `S` call lists of `S` only, do the
same on every call of a list of `S`. -/
theorem function_congr {p q : Program} {S : Set ResourceId}
    (hpq : ∀ id ∈ S, p.get? id = q.get? id) (hS : p.Avoids ∅ S) :
    ∀ depth, ∀ id ∈ S, function p depth id = function q depth id := by
  intro depth
  induction depth with
  | zero => intro id _; rfl
  | succ n ih =>
    intro id hid
    rw [function, function, ← hpq id hid]
    cases hos : p.get? id with
    | none => rfl
    | some os =>
      exact commands_congr fun o ho t ht => ih t ((hS id hid os hos o ho).2 t ht)

end Run

theorem Program.run_ok {p : Program} {w w' : World} {id : ResourceId} :
    p.run w id = (none, w') ↔ Run.function p (Run.maxDepth + 1) id w = .ok () w' := by
  unfold Program.run
  cases Run.function p (Run.maxDepth + 1) id w with
  | ok _ v => simp
  | error fault v => simp

end Packwright
