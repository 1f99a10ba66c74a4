import Packwright.Proofs.Loop
import Packwright.Proofs.Lowering

/-!
# Returns from a loop

A return in the body of a loop leaves the list of the loop in the innermost call.  The calls around
it go on behind the line that made them.  So the loop is over if that line is the last one of its
list, which it is unless the condition is a negated conjunction of two and more.

* `Enters p id n os w m u`: carrying out orders comes to a call of a list.
* `Program.Apart p id`: lists that never come to such a call.
* `TailCalls p id os`: where the orders come to a call, nothing of them is left behind it.
* `Loop.Begins`: the rounds of a loop.
* `Loop.return_ends`: where the body of a round leaves its list, the run of the loop is over.
* `negatedConjunction_goes_on`: a loop that goes round once more behind its return.
-/

namespace Packwright

open Gen Run Words

/-! ## Calls -/

/-- The call that an order comes to, and the world in which it does. -/
def Order.calls? : Order → World → Option (ResourceId × World)
  | .call id, w => some (id, w)
  | .guard expected t text o, w =>
    if w.outcome text t = expected then o.calls? (w.evaluated text) else none
  | .run o, w => if w.executed < budget then o.calls? w.counted else none
  | _, _ => none

theorem Order.target?_of_calls? : ∀ {o : Order} {w u : World} {t : ResourceId},
    o.calls? w = some (t, u) → o.target? = some t
  | .call _, _, _, _, h => congrArg (Option.map Prod.fst) h
  | .guard expected test text o, w, _, _, h => by
    rw [calls?] at h
    split at h
    · exact target?_of_calls? (o := o) h
    · cases h
  | .run o, w, _, _, h => by
    rw [calls?] at h
    split at h
    · exact target?_of_calls? (o := o) h
    · cases h

theorem Order.target?_of_command {o : Order} {w u : World} {t : ResourceId}
    (h : (Order.run o).calls? w = some (t, u)) : o.target? = some t :=
  target?_of_calls? (o := .run o) h

theorem Run.bind_eq_of_ok {α β : Type} {m : Run α} {f : α → Run β} {w v : World} {a : α}
    (h : m w = .ok a v) : (m >>= f) w = f a v := by
  show EStateM.bind m f w = _
  rw [EStateM.bind, h]

theorem Run.bind_eq_of_error {α β : Type} {m : Run α} {f : α → Run β} {w v : World} {e : Fault}
    (h : m w = .error e v) : (m >>= f) w = .error e v := by
  show EStateM.bind m f w = _
  rw [EStateM.bind, h]

/-- An order that comes to a call does nothing else. -/
theorem Run.order_of_calls? {callee : ResourceId → Run Unit} : ∀ {o : Order} {w u : World}
    {t : ResourceId}, o.calls? w = some (t, u) → order callee o w = order callee (.call t) u
  | .call _, _, _, _, h => by
    cases h
    rfl
  | .guard expected test text o, w, _, _, h => by
    rw [Order.calls?] at h
    split at h
    · rename_i htrue
      rw [order_guard, if_pos htrue]
      exact order_of_calls? (o := o) h
    · cases h
  | .run o, w, _, _, h => by
    rw [Order.calls?] at h
    split at h
    · rename_i hlt
      rw [order_run, command, bind_eq_of_ok (count_ok.mpr ⟨hlt, rfl⟩)]
      exact order_of_calls? (o := o) h
    · cases h

/-- Carrying out orders from the world `w`, with `n` calls inside one another at most, comes to a
call of the list `id`.  The list begins in the world `u`, with `m` calls inside one another at
most. -/
inductive Enters (p : Program) (id : ResourceId) : Nat → List Order → World → Nat → World → Prop
  | call {m : Nat} {o : Order} {os : List Order} {w u : World}
    (hcall : (Order.run o).calls? w = some (id, u)) : Enters p id (m + 1) (o :: os) w m u
  | inside {n m : Nat} {o : Order} {os body : List Order} {w v u : World} {t : ResourceId}
    (hcall : (Order.run o).calls? w = some (t, v)) (hne : t ≠ id) (hget : p.get? t = some body)
    (hin : Enters p id n body v m u) : Enters p id (n + 1) (o :: os) w m u
  | later {n m : Nat} {o : Order} {os : List Order} {w v u : World}
    (hrun : command (function p n) o w = .ok .next v) (hin : Enters p id n os v m u) :
    Enters p id n (o :: os) w m u

section Orders

variable {p : Program} {id : ResourceId} {n m : Nat} {os os' : List Order} {w u : World}

/-- The list is not `id`, and neither it nor the lists that it calls come to a call of `id`. -/
inductive Program.Apart (p : Program) (id : ResourceId) : ResourceId → Prop
  | mk {t : ResourceId} (hne : t ≠ id) (hcalls : ∀ body, p.get? t = some body → ∀ o ∈ body,
      ∀ t', o.target? = some t' → Apart p id t') : Apart p id t

/-- The order does not come to a call of `id`. -/
def Order.Apart (p : Program) (id : ResourceId) (o : Order) : Prop :=
  ∀ t, o.target? = some t → p.Apart id t

theorem not_enters_of_apart (h : Enters p id n os w m u) : ¬ ∀ o ∈ os, o.Apart p id := by
  induction h with
  | call hcall =>
    intro hos
    obtain ⟨hne, -⟩ := hos _ (by simp) id (Order.target?_of_command hcall)
    exact hne rfl
  | @inside n m o os body w v u t hcall hne hget hin ih =>
    intro hos
    obtain ⟨-, hcalls⟩ := hos o (by simp) t (Order.target?_of_command hcall)
    exact ih fun o' ho' t' ht' => hcalls body hget o' ho' t' ht'
  | later hrun hin ih => exact fun hos => ih fun o ho => hos o (by simp [ho])

/-- Orders that come to no call of `id` run to their end before one is reached. -/
theorem Enters.skip (hos : ∀ o ∈ os, o.Apart p id) (h : Enters p id n (os ++ os') w m u) :
    ∃ v, sequence (function p n) os w = .ok .next v ∧ Enters p id n os' v m u := by
  induction os generalizing w with
  | nil => exact ⟨w, rfl, h⟩
  | cons o os ih =>
    have hapart := hos o (by simp)
    cases h with
    | call hcall =>
      obtain ⟨hne, -⟩ := hapart id (Order.target?_of_command hcall)
      exact absurd rfl hne
    | inside hcall hne hget hin =>
      obtain ⟨-, hcalls⟩ := hapart _ (Order.target?_of_command hcall)
      exact absurd (fun o' ho' t' ht' => hcalls _ hget o' ho' t' ht') (not_enters_of_apart hin)
    | later hrun hin =>
      obtain ⟨v, hv, henter⟩ := ih (fun q hq => hos q (by simp [hq])) hin
      exact ⟨v, sequence_cons_ok.mpr (Or.inl ⟨_, hrun, hv⟩), henter⟩

theorem Enters.append_of_next {v : World} (h : sequence (function p n) os w = .ok .next v)
    (hin : Enters p id n os' v m u) : Enters p id n (os ++ os') w m u := by
  induction os generalizing w with
  | nil =>
    obtain ⟨-, rfl⟩ := sequence_nil_ok.mp h
    exact hin
  | cons o os ih =>
    rcases sequence_cons_ok.mp h with ⟨x, hc, hs⟩ | ⟨hleave, -⟩
    · exact .later hc (ih hs)
    · cases hleave

/-- Where the orders come to a call of `id`, carrying them out is carrying out that list: nothing is
left to do behind the call. -/
def TailCalls (p : Program) (id : ResourceId) (os : List Order) : Prop :=
  ∀ n w m u, Enters p id n os w m u → commands (function p n) os w = function p (m + 1) id u

theorem commands_append_of_next {callee : ResourceId → Run Unit} {v : World}
    (h : sequence callee os w = .ok .next v) :
    commands callee (os ++ os') w = commands callee os' v := by
  induction os generalizing w with
  | nil =>
    obtain ⟨-, rfl⟩ := sequence_nil_ok.mp h
    rfl
  | cons o os ih =>
    rcases sequence_cons_ok.mp h with ⟨x, hc, hs⟩ | ⟨hleave, -⟩
    · rw [List.cons_append, commands, bind_eq_of_ok hc]
      exact ih hs
    · cases hleave

theorem commands_single_of_calls? {callee : ResourceId → Run Unit} {o : Order} {t : ResourceId}
    (h : (Order.run o).calls? w = some (t, u)) : commands callee [o] w = callee t u := by
  have horder : command callee o w = order callee (.call t) u := order_of_calls? h
  cases hc : callee t u with
  | ok a v =>
    have hcommand : command callee o w = .ok .next v := by
      rw [horder, order, bind_eq_of_ok hc]
      rfl
    rw [commands, bind_eq_of_ok hcommand]
    rfl
  | error fault v =>
    have hcommand : command callee o w = .error fault v := by
      rw [horder, order, bind_eq_of_error hc]
    rw [commands, bind_eq_of_error hcommand]

theorem tailCalls_nil : TailCalls p id [] := by
  intro n w m u h
  cases h

/-- A call in the last order is a tail call, if it is one of `id` or of a list with tail calls. -/
theorem tailCalls_append_single {o : Order} (hos : ∀ o ∈ os, o.Apart p id)
    (ho : ∀ t body, o.target? = some t → t ≠ id → p.get? t = some body → TailCalls p id body) :
    TailCalls p id (os ++ [o]) := by
  intro n w m u h
  obtain ⟨v, hv, hin⟩ := h.skip hos
  rw [commands_append_of_next hv]
  cases hin with
  | call hcall => exact commands_single_of_calls? hcall
  | @inside n _ _ _ body _ v' _ t hcall hne hget hin =>
    rw [commands_single_of_calls? hcall, function, hget]
    exact ho t body (Order.target?_of_command hcall) hne hget n v' m u hin
  | later _ hin => cases hin

end Orders

/-! ## The calls in the lines of a condition -/

namespace Order

variable {run : String} {negated : Bool}

theorem target?_guard {q : Predicate} (hc : q.isConstant = false) (hq : q.Worded)
    (hr : Joined run) : (ofText (Line.guard negated q run)).target? = (ofText run).target? := by
  rw [ofText_guard hc hq hr]
  rfl

theorem target?_guardAmount {s : Score} (hs : s.Worded) (n : Amount) (hr : Joined run) :
    (ofText (Line.guardAmount negated s n run)).target? = (ofText run).target? := by
  rw [ofText_guardAmount hs n hr]
  rfl

theorem target?_call {id : ResourceId} (hid : id.Worded) :
    (ofText (Line.call id)).target? = some id := by
  rw [ofText_call hid]
  rfl

theorem target?_set {s : Score} (hs : s.Worded) (n : Amount) :
    (ofText (Line.set s n)).target? = none := by
  rw [ofText_set hs]
  rfl

theorem Apart.of_target? {p : Program} {id : ResourceId} {o o' : Order} (h : o'.Apart p id)
    (htarget : o.target? = o'.target?) : o.Apart p id := by
  rw [Order.Apart, htarget]
  exact h

theorem apart_set {p : Program} {id : ResourceId} {s : Score} (hs : s.Worded) (n : Amount) :
    (ofText (Line.set s n)).Apart p id := by
  intro t ht
  rw [target?_set hs] at ht
  cases ht

end Order

/-- What a condition and a program must be like for the lines between two drafts not to come to a
call of `id`: the names in its predicates are words, the program holds the lists that were added in
between, and `id` is not one of them. -/
structure Aside (p : Program) (id : ResourceId) (ps : List Predicate) (d d' : Draft) : Prop where
  plain : d.options.Plain
  worded : Condition.Worded ps
  holds : p.Holds d d'
  old : id ∉ d.listed d'

theorem Aside.sub {p : Program} {id : ResourceId} {ps ps' : List Predicate} {d d₁ d₂ d' : Draft}
    {l l' l'' : List String} (h : Aside p id ps d d') (hps : ps' ⊆ ps) (h₁ : d.Grows l d₁)
    (h₂ : d₁.Grows l' d₂) (h₃ : d₂.Grows l'' d') : Aside p id ps' d₁ d₂ :=
  ⟨by rw [h₁.options]; exact h.plain, fun q hq => h.worded q (hps hq),
    (h.holds.right h₁).left h₂ h₃, fun hm => h.old (h₁.listed_right (h₃.listed_left hm))⟩

/-- Guards and flags come to no call of `id`, nor do the lists that were added in between. -/
theorem Aside.closed {p : Program} {id : ResourceId} {ps : List Predicate} {d d' : Draft}
    (h : Aside p id ps d d') :
    Line.Closed (fun run => Joined run ∧ (Order.ofText run).Apart p id)
      (fun line => (Order.ofText line).Apart p id) ps d d' where
  alone hrun := hrun.2
  guard q hq hc negated _ hrun := hrun.2.of_target? (Order.target?_guard hc (h.worded q hq) hrun.1)
  guardAmount := by
    rintro s ⟨purpose, n, hp, -, -, rfl⟩ m run hrun
    exact hrun.2.of_target? (Order.target?_guardAmount (h.plain.worded_temp hp n) m hrun.1)
  set := by
    rintro s ⟨purpose, n, hp, -, -, rfl⟩ m
    have hflag := h.plain.worded_temp hp n
    exact ⟨Line.joined_set hflag m, Order.apart_set hflag m⟩
  call := by
    intro other hother body hbody _ hlines
    have hworded : other.Worded := by
      obtain ⟨purpose, n, hp, -, -, rfl⟩ := hother
      exact h.plain.worded_list hp n
    refine ⟨Line.joined_call hworded, fun t ht => ?_⟩
    rw [Order.target?_call hworded] at ht
    obtain rfl := Option.some.inj ht
    refine .mk (fun heq => h.old (heq ▸ hother)) fun os hos o ho => ?_
    rw [h.holds _ hother, Pack.get?_program, hbody] at hos
    obtain rfl := Option.some.inj hos
    obtain ⟨line, hline, rfl⟩ := List.mem_map.mp ho
    exact hlines line hline

namespace Condition

variable {p : Program} {id : ResourceId}

/-- The lines of a condition come to a call of `id` only through the command. -/
theorem apart_lower (c : Condition) {run : String} {d d' : Draft} {lines : List String}
    (hlower : (c.lower run).run d = (lines, d')) (h : Aside p id c.predicates d d')
    (hr : Joined run) (hrun : (Order.ofText run).Apart p id) :
    ∀ line ∈ lines, (Order.ofText line).Apart p id :=
  (wrote_lower c hlower h.closed ⟨hr, hrun⟩).lines

theorem apart_lowerEach (cs : List Condition) {run : String} {d d' : Draft} {lines : List String}
    (heach : (lowerEach cs run).run d = (lines, d')) (h : Aside p id (predicatesAll cs) d d')
    (hr : Joined run) (hrun : (Order.ofText run).Apart p id) :
    ∀ line ∈ lines, (Order.ofText line).Apart p id :=
  (wrote_lowerEach cs heach h.closed ⟨hr, hrun⟩).lines

/-! ### Conditions that do not repeat their command -/

/-- What a list of lines must be like for a command in its last line to be a tail call. -/
theorem tailCalls_lines {lines : List String} {last : String}
    (hlines : ∀ line ∈ lines, (Order.ofText line).Apart p id)
    (hlast : ∀ t body, (Order.ofText last).target? = some t → t ≠ id → p.get? t = some body →
      TailCalls p id body) : TailCalls p id ((lines ++ [last]).map Order.ofText) := by
  rw [List.map_append]
  exact tailCalls_append_single (List.forall_mem_map.mpr hlines) hlast

/-- The last line calls `id`, if anything. -/
theorem tailCalls_behind {lines : List String} {last : String}
    (hlines : ∀ line ∈ lines, (Order.ofText line).Apart p id)
    (hlast : (Order.ofText last).target? = some id) :
    TailCalls p id ((lines ++ [last]).map Order.ofText) :=
  tailCalls_lines hlines fun _ _ ht hne _ =>
    absurd (Option.some.inj (ht.symm.trans hlast)) hne

theorem tailCalls_single {line : String} (h : (Order.ofText line).target? = some id) :
    TailCalls p id ([line].map Order.ofText) := by
  have hbehind : TailCalls p id (([] ++ [line]).map Order.ofText) :=
    tailCalls_behind (List.forall_mem_nil _) h
  exact hbehind

theorem tailCalls_call (hid : id.Worded) : TailCalls p id ([Line.call id].map Order.ofText) :=
  tailCalls_single (Order.target?_call hid)

theorem tailCalls_lowerAll (hid : id.Worded) {negated : Bool} : ∀ (cs : List Condition)
    {d d' : Draft} {lines : List String}, (all negated cs).repeats = false →
    (lowerAll negated cs (Line.call id)).run d = (lines, d') →
    Aside p id (predicatesAll cs) d d' → TailCalls p id (lines.map Order.ofText)
  | [], d, d', lines, _, hlower, _ => by
    obtain ⟨rfl, -⟩ := Prod.mk.inj hlower
    cases negated with
    | true => exact tailCalls_nil
    | false => exact tailCalls_call hid
  | [c], d, d', lines, _, hlower, h => by
    obtain ⟨first, hfirst, rfl⟩ := lowerAll_single_cases hlower
    have hflag := h.plain.worded_temp (by decide : Lettered "and") (d.count (.temp "and"))
    have hdraw := Draft.Grows.draw d (.temp "and")
    have hc : c.predicates ⊆ predicatesAll [c] := by simp [predicatesAll]
    have htest := apart_lower c hfirst (h.sub hc hdraw (grows_of_lower hfirst) (.refl d'))
      (Line.joined_set hflag 1) (Order.apart_set hflag 1)
    exact tailCalls_behind (List.forall_mem_cons.mpr ⟨Order.apart_set hflag 0, htest⟩)
      ((Order.target?_guardAmount hflag _ (Line.joined_call hid)).trans (Order.target?_call hid))
  | c :: c' :: cs, d, d', lines, hrepeats, hlower, h => by
    obtain rfl : negated = false := hrepeats
    obtain ⟨first, d₂, rest, d₃, hfirst, hrest, rfl, rfl⟩ := lowerAll_cons_cases hlower
    have hand : Lettered "and" := by decide
    have hflag := h.plain.worded_temp hand (d.count (.temp "and"))
    have hdraw := Draft.Grows.draw d (.temp "and")
    have h₂ := grows_of_lower hfirst
    have h₃ := grows_of_lowerAll hrest
    have hlist : d₃.Grows [] (d₃.withList "and" rest) := .withList hand rest d₃
    have hc : c.predicates ⊆ predicatesAll (c :: c' :: cs) := by simp [predicatesAll]
    have hcs : predicatesAll (c' :: cs) ⊆ predicatesAll (c :: c' :: cs) := by simp [predicatesAll]
    have htest := apart_lower c hfirst (h.sub hc hdraw h₂ (h₃.trans hlist))
      (Line.joined_set hflag 1) (Order.apart_set hflag 1)
    have hothers := tailCalls_lowerAll hid (c' :: cs) (by cases cs <;> rfl) hrest
      (h.sub hcs (hdraw.trans h₂) h₃ hlist)
    have hlast := h.sub hcs (hdraw.trans (h₂.trans h₃)) hlist (.refl _)
    have hcall := hlast.plain.worded_list hand (d₃.count (.list "and"))
    refine tailCalls_lines (List.forall_mem_cons.mpr ⟨Order.apart_set hflag 0, htest⟩) ?_
    intro t body ht _ hbody
    rw [Order.target?_guardAmount hflag 1 (Line.joined_call hcall), Order.target?_call hcall] at ht
    obtain rfl := Option.some.inj ht
    obtain rfl := Option.some.inj (hbody.symm.trans (hlast.holds.get?_list hand))
    exact hothers

/-- **The call is the last thing to do**, unless the condition is a negated conjunction of two and
more children: then the guard goes on behind the call that it makes where the first child fails. -/
theorem tailCalls_lower (hid : id.Worded) {c : Condition} {d d' : Draft} {lines : List String}
    (hrepeats : c.repeats = false) (hlower : (c.lower (Line.call id)).run d = (lines, d'))
    (h : Aside p id c.predicates d d') : TailCalls p id (lines.map Order.ofText) := by
  cases c with
  | leaf negated q =>
    obtain ⟨-, rfl | rfl | ⟨hc, rfl⟩⟩ := lower_leaf_cases hlower
    · exact tailCalls_nil
    · exact tailCalls_call hid
    · have hq : q.Worded := h.worded q (by simp [predicates])
      exact tailCalls_single
        ((Order.target?_guard hc hq (Line.joined_call hid)).trans (Order.target?_call hid))
  | all negated cs => exact tailCalls_lowerAll hid cs hrepeats hlower h
  | any negated cs =>
    cases cs with
    | nil =>
      obtain ⟨rfl, -⟩ := Prod.mk.inj hlower
      cases negated with
      | true => exact tailCalls_call hid
      | false => exact tailCalls_nil
    | cons c cs =>
      obtain ⟨tests, heach, rfl⟩ := lower_any_cases hlower
      have hflag := h.plain.worded_temp (by decide : Lettered "or") (d.count (.temp "or"))
      have htests := apart_lowerEach (c :: cs) heach (h.sub (fun _ hq => hq)
        (Draft.Grows.draw d (.temp "or")) (grows_of_lowerEach heach) (.refl d'))
        (Line.joined_set hflag 1) (Order.apart_set hflag 1)
      exact tailCalls_behind (List.forall_mem_cons.mpr ⟨Order.apart_set hflag 0, htests⟩)
        ((Order.target?_guardAmount hflag _ (Line.joined_call hid)).trans (Order.target?_call hid))

end Condition

/-! ## Rounds and returns -/

namespace Loop

variable {L : Loop} {p : Program} {depth m : Nat} {w u v : World}

/-- A round of the loop begins in the world `u`, with `m` calls inside one another at most.  The
first one comes from the lines of the loop, and every other from the guard at the end of a round. -/
inductive Begins (L : Loop) (p : Program) (depth : Nat) (w : World) : Nat → World → Prop
  | first {m : Nat} {v u : World}
    (hsetup : sequence (function p depth) (L.setup.map Order.ofText) w = .ok .next v)
    (henters : Enters p L.id depth (L.guard.map Order.ofText) v m u) : Begins L p depth w m u
  | next {m m' : Nat} {u v v' u' : World} (h : Begins L p depth w m u)
    (hbody : sequence (function p m) (L.lines.map Order.ofText) u = .ok .next v)
    (hsetup : sequence (function p m) (L.setup.map Order.ofText) v = .ok .next v')
    (henters : Enters p L.id m (L.guard.map Order.ofText) v' m' u') : Begins L p depth w m' u'

theorem tailCalls_guard (hoptions : L.start.options.Plain)
    (hwords : ∀ q ∈ L.condition.predicates, q.Worded) (hlists : p.Holds L.start L.behind)
    (hrepeats : L.condition.repeats = false) : TailCalls p L.id (L.guard.map Order.ofText) := by
  refine Condition.tailCalls_lower (L.worded_id hoptions) hrepeats L.lower_eq
    ⟨L.plain_tested hoptions, hwords, (L.holds_behind hlists).2, fun hm => ?_⟩
  exact Draft.ne_of_mem_listed (by decide) (L.grows_tested.listed_right hm) rfl

/-- The run of a loop is the run of its list in any of its rounds. -/
theorem Begins.run_eq (htail : TailCalls p L.id (L.guard.map Order.ofText))
    (hget : p.get? L.id = some ((L.lines ++ L.setup ++ L.guard).map Order.ofText))
    (h : L.Begins p depth w m u) :
    commands (function p depth) ((L.setup ++ L.guard).map Order.ofText) w =
      commands (function p m) ((L.lines ++ L.setup ++ L.guard).map Order.ofText) u := by
  have hlist : ∀ n u, function p (n + 1) L.id u =
      commands (function p n) ((L.lines ++ L.setup ++ L.guard).map Order.ofText) u := by
    intro n u
    rw [function, hget]
  induction h with
  | first hsetup henters =>
    rw [List.map_append, commands_append_of_next hsetup, htail _ _ _ _ henters, hlist]
  | @next n n' _ _ _ u' _ hbody hsetup henters ih =>
    rw [ih, ← hlist n' u', ← htail _ _ _ _ henters, List.append_assoc, List.map_append,
      commands_append_of_next hbody, List.map_append, commands_append_of_next hsetup]

theorem executed_lt_of_sequence {o : Order} {os : List Order} {f : Flow}
    (h : sequence (function p m) (o :: os) u = .ok f v) : u.executed < v.executed := by
  have hfirst : ∀ {g x}, command (function p m) o u = .ok g x → u.executed < x.executed := fun hc =>
    order_executed (function_executed p m) o (command_ok.mp hc).2
  rcases sequence_cons_ok.mp h with ⟨x, hc, hs⟩ | ⟨-, hc⟩
  · exact (hfirst hc).trans_le (sequence_executed (function_executed p m) hs)
  · exact hfirst hc

/-- **A return ends its loop**, unless the condition is a negated conjunction of two and more
children.  Where the body of a round leaves its list in the world `v`, the run of the loop is over
in that very world: no command is carried out behind the return, and every round has begun before
it. -/
theorem return_ends (hoptions : L.start.options.Plain)
    (hwords : ∀ q ∈ L.condition.predicates, q.Worded) (hlists : p.Holds L.start L.behind)
    (hrepeats : L.condition.repeats = false) (hbegins : L.Begins p depth w m u)
    (hreturn : sequence (function p m) (L.lines.map Order.ofText) u = .ok .leave v) :
    commands (function p depth) ((L.start.written L.behind).map Order.ofText) w = .ok () v ∧
      ∀ m' u', L.Begins p depth w m' u' → u'.executed < v.executed := by
  have htail := tailCalls_guard hoptions hwords hlists hrepeats
  have hget := (L.holds_behind hlists).1
  have hends : commands (function p m) ((L.lines ++ L.setup ++ L.guard).map Order.ofText) u =
      .ok () v := by
    rw [List.append_assoc, List.map_append]
    exact commands_ok.mpr ⟨.leave, sequence_append_ok.mpr (Or.inr ⟨rfl, hreturn⟩)⟩
  rw [← hbegins.run_eq htail hget] at hends
  refine ⟨by rw [L.written_eq, hends], fun m' u' hbegins' => ?_⟩
  rw [hbegins'.run_eq htail hget] at hends
  obtain ⟨line, rest, hlines⟩ : ∃ line rest, L.lines = line :: rest := by
    cases hlines : L.lines with
    | nil =>
      rw [hlines] at hreturn
      cases (sequence_nil_ok.mp hreturn).1
    | cons line rest => exact ⟨line, rest, rfl⟩
  obtain ⟨f, hs⟩ := commands_ok.mp hends
  rw [hlines] at hs
  exact executed_lt_of_sequence hs

end Loop

/-! ## A loop that returns in its second round -/

namespace SearchLoop

open CountUp (x compare number start start_opened info)

/-- `x == 0 || x == 1` -/
def test : Expr :=
  .binary (info .condition) .or (compare .eq x 0) (compare .eq x 1)
    (some ⟨.or, .condition, .condition, .disjoin⟩)

/-- `{ if (x == 1) { return } x += 1 }` -/
def body : Stmt :=
  .block ⟨0, 0⟩ [.ifElse ⟨0, 0⟩ (compare .eq x 1) (.block ⟨0, 0⟩ [.return ⟨0, 0⟩]) none,
    .assign ⟨0, 0⟩ x (.update .add) (number 1) (some ⟨.update .add, .int, .void, .modify .add⟩)]

/-- `while (x == 0 || x == 1) { if (x == 1) { return } x += 1 }` -/
def loop : Loop := .ofTest start ⟨0, 0⟩ test body (by decide +kernel) start_opened rfl

/-- The world in which a command makes its call. -/
def callWorld (o : Order) (w : World) : World := (((Order.run o).calls? w).map Prod.snd).getD w

theorem calls?_callWorld {o : Order} {w : World} {id : ResourceId}
    (h : ((Order.run o).calls? w).map Prod.fst = some id) :
    (Order.run o).calls? w = some (id, callWorld o w) := by
  obtain ⟨⟨t, u⟩, hcall, rfl⟩ := Option.map_eq_some_iff.mp h
  rw [callWorld, hcall]
  rfl

end SearchLoop

open SearchLoop in
/-- `x` is 0 in the first round and 1 in the second, whose body leaves the list. -/
theorem searchLoop_returns :
    let p := loop.behind.pack.program
    let w := ({ } : World).setScore ⟨"$x", "datascript"⟩ 0
    loop.condition.repeats = false ∧ ∃ u v, loop.Begins p 9 w 7 u ∧
      sequence (function p 7) (loop.lines.map Order.ofText) u = .ok .leave v ∧
      commands (function p 9) ((loop.start.written loop.behind).map Order.ofText) w = .ok () v ∧
      ∀ m' u', loop.Begins p 9 w m' u' → u'.executed < v.executed := by
  intro p w
  let tests := (loop.guard.take 3).map Order.ofText
  let last := Order.ofText (loop.guard.getLastD "")
  let lines := loop.lines.map Order.ofText
  let w₁ := after (sequence (function p 9) tests) w
  let u₁ := callWorld last w₁
  let v₁ := after (sequence (function p 8) lines) u₁
  let w₂ := after (sequence (function p 8) tests) v₁
  let u₂ := callWorld last w₂
  obtain ⟨hguard, htests₁, hcall₁, hbody, htests₂, hcall₂, hends, hstops⟩ :
      loop.guard.map Order.ofText = tests ++ [last] ∧
      passes (sequence (function p 9) tests) w = true ∧
      ((Order.run last).calls? w₁).map Prod.fst = some loop.id ∧
      passes (sequence (function p 8) lines) u₁ = true ∧
      passes (sequence (function p 8) tests) v₁ = true ∧
      ((Order.run last).calls? w₂).map Prod.fst = some loop.id ∧
      succeeds (sequence (function p 7) lines) u₂ = true ∧
      passes (sequence (function p 7) lines) u₂ = false := by
    decide +kernel
  have hsetup : ∀ n w, sequence (function p n) (loop.setup.map Order.ofText) w = .ok .next w :=
    fun _ _ => rfl
  have henters : ∀ {n v}, passes (sequence (function p (n + 1)) tests) v = true →
      ((Order.run last).calls? (after (sequence (function p (n + 1)) tests) v)).map Prod.fst =
        some loop.id →
      Enters p loop.id (n + 1) (loop.guard.map Order.ofText) v n
        (callWorld last (after (sequence (function p (n + 1)) tests) v)) := by
    intro n v hpasses hcall
    rw [hguard]
    exact .append_of_next (eq_after_of_passes hpasses) (.call (calls?_callWorld hcall))
  have hfirst : loop.Begins p 9 w 8 u₁ := .first (hsetup 9 w) (henters htests₁ hcall₁)
  have hsecond : loop.Begins p 9 w 7 u₂ :=
    hfirst.next (eq_after_of_passes hbody) (hsetup 8 v₁) (henters htests₂ hcall₂)
  obtain ⟨f, v, hv⟩ := exists_of_succeeds hends
  obtain rfl : f = .leave := by
    rw [passes, hv] at hstops
    cases f with
    | next => cases hstops
    | leave => rfl
  obtain ⟨hover, hbefore⟩ := Loop.return_ends Options.plain_default (by decide +kernel)
    (fun _ _ => rfl) (by decide +kernel) hsecond hv
  exact ⟨by decide +kernel, u₂, v, hsecond, hv, hover, hbefore⟩

/-- **A loop over a negated conjunction goes on behind its return.**  In the second round `x` is 1
and the function returns, but the guard of the first round then finds the flag of `x == 1` raised by
the second, and calls the list of the loop once more. -/
theorem negatedConjunction_goes_on :
    let source := "function f \x7b\n var x = 0\n while (!(x == 1 && x > 5)) \x7b\n say \"b\"\n" ++
      " if (x == 1) \x7b return \x7d\n x = 1\n \x7d\n\x7d\n"
    let (pack, report) := compile source { } { }
    let (fault, w) := pack.program.run { } ⟨"datascript", "f"⟩
    report.diagnostics = [] ∧ fault = none ∧ w.output = #["say b", "say b", "say b"] := by
  decide +kernel

end Packwright
