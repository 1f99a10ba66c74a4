import Packwright.Analysis
import Packwright.Proofs.Core.Variables
import Packwright.Proofs.Parsing.Identifiers
import Packwright.Proofs.Parsing.Built

/-!
# Names are handed out once

Generation draws scores and ids of command lists from a draft, and puts lists into the pack.
`Gen.Trace` is what it draws and puts, in order: there is one rule for each operation of generation,
and the event of a draw is the very name that the draw returns to generation.

* `Gen.Traced.makes`: all of generation has a trace, in which a list goes under an id that was
  handed out for it alone.
* `Draft.Accounts`: what the events of a trace say about the drafts before and behind it.
* `Gen.Trace.accounts`: by induction on a trace, its events account for the two drafts.
* `Draft.addSources_fresh`: every trace of sources that are added to an empty draft.
-/

namespace Packwright

open Gen

/-- What generation draws from a draft and puts into the pack. -/
inductive Event where
  /-- A score, for a purpose or for a variable. -/
  | score (score : Score)
  /-- The id of a list of its own. -/
  | reserved (id : ResourceId)
  /-- A list under an id of its own. -/
  | list (id : ResourceId) (lines : List String)
  /-- A function of a source. -/
  | function (id : ResourceId) (lines : List String)

namespace Event

/-- The score that is handed out. -/
def score? : Event → Option Score
  | score s => some s
  | _ => none

/-- The id that is handed out. -/
def reserved? : Event → Option ResourceId
  | reserved id => some id
  | _ => none

/-- The id under which a list is put. -/
def list? : Event → Option ResourceId
  | list id _ => some id
  | _ => none

/-- What is put into the pack, and the id under which it is put. -/
def put? : Event → Option (ResourceId × List String)
  | list id lines | function id lines => some (id, lines)
  | _ => none

/-- A list is put under an id at most as often as the id is held at first and handed out. -/
def Owned (held : List ResourceId) (events : List Event) : Prop :=
  ∀ id, (events.filterMap list?).count id ≤ held.count id + (events.filterMap reserved?).count id

theorem Owned.append {held held' : List ResourceId} {events events' : List Event}
    (h : Owned held events) (h' : Owned held' events') :
    Owned (held ++ held') (events ++ events') := by
  intro id
  have := h id
  have := h' id
  simp only [List.filterMap_append, List.count_append]
  omega

theorem owned_of_lists_nil {held : List ResourceId} {events : List Event}
    (h : events.filterMap list? = []) : Owned held events := fun id => by simp [h]

/-- An id is held from where it is handed out. -/
theorem Owned.reserved {id : ResourceId} {events : List Event} (h : Owned [id] events) :
    Owned [] (.reserved id :: events) := by
  intro other
  have := h other
  simpa [List.filterMap_cons, list?, reserved?, List.count_cons, Nat.add_comm] using this

end Event

/-! ## Traces -/

namespace Gen

/-- What a computation draws from the draft that it runs on and puts into the pack, in order.  Every
draw leaves the name that it returns, and nothing else leaves a score or a reserved id.  The ids in
`held` were handed out before; a list goes under such an id, and uses it up. -/
inductive Trace : {α : Type} → List ResourceId → Gen α → Draft → List Event → Prop
  | pure {α : Type} (held : List ResourceId) (a : α) (d : Draft) :
    Trace held (Pure.pure a : Gen α) d []
  | bind {α β : Type} {held held' : List ResourceId} {m : Gen α} {f : α → Gen β} {d : Draft}
    {events events' : List Event} (h : Trace held m d events)
    (h' : Trace held' (f (m.run d).1) (m.run d).2 events') :
    Trace (held ++ held') (m >>= f) d (events ++ events')
  | get (d : Draft) : Trace [] (MonadState.get : Gen Draft) d []
  | emit (line : String) (d : Draft) : Trace [] (Gen.emit line) d []
  | complain (issue : Issue) (span : Span) (d : Draft) : Trace [] (Gen.complain issue span) d []
  | declare (x : String) (v : Value) (d : Draft) : Trace [] (Gen.bind x v) d []
  | capture {α : Type} {held : List ResourceId} {m : Gen α} {d : Draft} {events : List Event}
    (h : Trace held m d.pushFrame events) : Trace held (Gen.capture m) d events
  | inScope {α : Type} {held : List ResourceId} {m : Gen α} {d : Draft} {events : List Event}
    (h : Trace held m d.pushScope events) : Trace held (Gen.inScope m) d events
  | temp {purpose : String} (hp : Lettered purpose) (d : Draft) :
    Trace [] (Gen.temp purpose) d [.score ((Gen.temp purpose).run d).1]
  | newVariable (x : String) (d : Draft) :
    Trace [] (Gen.newVariable x) d [.score ((Gen.newVariable x).run d).1]
  /-- The id of a list is held by what follows. -/
  | reserve {α : Type} {purpose : String} (hp : Lettered purpose) {f : ResourceId → Gen α}
    {d : Draft} {events : List Event}
    (h : Trace [((Gen.reserve purpose).run d).1] (f ((Gen.reserve purpose).run d).1)
      ((Gen.reserve purpose).run d).2 events) :
    Trace [] (Gen.reserve purpose >>= f) d (.reserved ((Gen.reserve purpose).run d).1 :: events)
  | list (id : ResourceId) (lines : List String) (d : Draft) :
    Trace [id] (Gen.addFunction id lines) d [.list id lines]
  | function {x : String} (hx : isIdentifier x = true) (annotations : List Annotation)
    (lines : List String) (d : Draft) :
    Trace [] (addTagged ⟨d.options.space, x⟩ annotations lines) d
      [.function ⟨d.options.space, x⟩ lines]

end Gen

/-- What is drawn and put when sources are added to a draft, one after the other. -/
inductive Draft.SourceTrace (registry : Registry) : Draft → List String → List Event → Prop
  | nil (d : Draft) : SourceTrace registry d [] []
  | cons {d : Draft} {source : String} {sources : List String} {events events' : List Event}
    (h : Trace [] (inScope (generateAll (analyze source registry).1.body)) d events)
    (h' : SourceTrace registry (d.addScript (analyze source registry).1).2 sources events') :
    SourceTrace registry d (source :: sources) (events ++ events')

/-! ## What is handed out is new -/

theorem slash_notMem_of_isIdentifier {x : String} (hx : isIdentifier x = true) :
    '/' ∉ x.toList := by
  intro hslash
  have := isNamePart_of_isIdentifier hx '/' hslash
  revert this
  decide

/-- No identifier is the path of a list of its own: that has a slash. -/
theorem Options.list_path_ne (o : Options) (purpose : String) (n : Nat) {x : String}
    (hx : isIdentifier x = true) : (o.list purpose n).path ≠ x := by
  intro heq
  refine slash_notMem_of_isIdentifier hx ?_
  rw [← heq]
  simp [Options.list, String.toList_append]

namespace Draft

/-- The score is used up: its number for a purpose, or its entry for a variable. -/
def Spent (d : Draft) (s : Score) : Prop :=
  (∃ purpose n, Lettered purpose ∧ n < d.count (.temp purpose) ∧ s = d.options.temp purpose n) ∨
    (s.IsVariable ∧ s.entry ∈ d.taken ∧ s.objective = d.options.objective)

/-- The id is used up. -/
def Reserved (d : Draft) (id : ResourceId) : Prop :=
  ∃ purpose n, Lettered purpose ∧ n < d.count (.list purpose) ∧ id = d.options.list purpose n

variable {d d' d₁ d₂ : Draft}

theorem spent_congr (options : d'.options = d.options)
    (count : ∀ purpose, d'.count (.temp purpose) = d.count (.temp purpose))
    (taken : d'.taken = d.taken) (s : Score) : d'.Spent s ↔ d.Spent s := by
  simp only [Spent, options, count, taken]

theorem reserved_congr (options : d'.options = d.options)
    (count : ∀ purpose, d'.count (.list purpose) = d.count (.list purpose)) (id : ResourceId) :
    d'.Reserved id ↔ d.Reserved id := by
  simp only [Reserved, options, count]

/-- The id of a list of its own is not that of a function. -/
theorem Reserved.ne {id : ResourceId} (h : d.Reserved id) {x : String}
    (hx : isIdentifier x = true) : id ≠ ⟨d.options.space, x⟩ := by
  obtain ⟨purpose, n, -, -, rfl⟩ := h
  exact fun heq => Options.list_path_ne d.options purpose n hx (congrArg ResourceId.path heq)

/-- What is drawn for a purpose is what was drawn before, and the next number. -/
theorem exists_lt_count_draw {series : String → Series} (hinj : Function.Injective series)
    (purpose : String) (hp : Lettered purpose) {P : String → Nat → Prop} :
    (∃ p n, Lettered p ∧ n < (d.draw (series purpose)).count (series p) ∧ P p n) ↔
      (∃ p n, Lettered p ∧ n < d.count (series p) ∧ P p n) ∨
        P purpose (d.count (series purpose)) := by
  constructor
  · rintro ⟨p, n, hlettered, hn, hP⟩
    rw [count_draw] at hn
    by_cases heq : series p = series purpose
    · obtain rfl := hinj heq
      rw [if_pos rfl] at hn
      rcases Nat.lt_succ_iff_lt_or_eq.mp hn with hn | rfl
      · exact .inl ⟨p, n, hlettered, hn, hP⟩
      · exact .inr hP
    · rw [if_neg heq] at hn
      exact .inl ⟨p, n, hlettered, hn, hP⟩
  · rintro (⟨p, n, hlettered, hn, hP⟩ | hP)
    · exact ⟨p, n, hlettered, hn.trans_le (count_draw d _ _ ▸ Nat.le_add_right _ _), hP⟩
    · exact ⟨purpose, _, hp, d.lt_count_draw _, hP⟩

/-- Names that are handed out: none was used before, none is handed out twice, and what is used then
was used before or is one of them. -/
structure HandsOut {α : Type} (used : Draft → α → Prop) (d : Draft) (names : List α) (d' : Draft) :
    Prop where
  nodup : names.Nodup
  new : ∀ a ∈ names, ¬ used d a
  used_iff : ∀ a, used d' a ↔ used d a ∨ a ∈ names

namespace HandsOut

variable {α : Type} {used : Draft → α → Prop} {names names' : List α}

theorem none (h : ∀ a, used d' a ↔ used d a) : HandsOut used d [] d' :=
  ⟨List.nodup_nil, by simp, by simpa using h⟩

theorem one {a : α} (hnew : ¬ used d a) (h : ∀ b, used d' b ↔ used d b ∨ b = a) :
    HandsOut used d [a] d' :=
  ⟨List.nodup_singleton a, by simpa using hnew, by simpa using h⟩

theorem trans (h : HandsOut used d names d₁) (h' : HandsOut used d₁ names' d₂) :
    HandsOut used d (names ++ names') d₂ := by
  refine ⟨h.nodup.append h'.nodup fun a ha ha' => ?_, fun a ha hused => ?_, fun a => ?_⟩
  · exact h'.new a ha' ((h.used_iff a).mpr (.inr ha))
  · rcases List.mem_append.mp ha with ha | ha
    · exact h.new a ha hused
    · exact h'.new a ha ((h.used_iff a).mpr (.inl hused))
  · rw [h'.used_iff, h.used_iff, List.mem_append, or_assoc]

end HandsOut

theorem not_isVariable_temp (o : Options) (purpose : String) (n : Nat) :
    ¬ (o.temp purpose n).IsVariable := by
  simp [Score.IsVariable, Options.temp]

theorem handsOut_temp {purpose : String} (hp : Lettered purpose) (d : Draft) :
    HandsOut Spent d [((Gen.temp purpose).run d).1] ((Gen.temp purpose).run d).2 := by
  rw [run_temp]
  refine .one ?_ fun s => ?_
  · rintro (⟨purpose', n, hp', hn, heq⟩ | ⟨hvar, -⟩)
    · obtain ⟨rfl, rfl⟩ := Options.temp_inj hp hp' heq
      exact lt_irrefl _ hn
    · exact not_isVariable_temp _ _ _ hvar
  · have hdraw := exists_lt_count_draw (d := d) (fun _ _ h => Series.temp.inj h) purpose hp
      (P := fun p n => s = d.options.temp p n)
    exact (or_congr_left hdraw).trans or_right_comm

/-- The next id of a series was not handed out. -/
theorem not_reserved_next (d : Draft) {purpose : String} (hp : Lettered purpose) :
    ¬ d.Reserved (d.options.list purpose (d.count (.list purpose))) := by
  rintro ⟨purpose', n, hp', hn, heq⟩
  obtain ⟨rfl, rfl⟩ := Options.list_inj hp hp' heq
  exact lt_irrefl _ hn

theorem handsOut_reserve {purpose : String} (hp : Lettered purpose) (d : Draft) :
    HandsOut Reserved d [((Gen.reserve purpose).run d).1] ((Gen.reserve purpose).run d).2 :=
  .one (d.not_reserved_next hp) fun id =>
    exists_lt_count_draw (fun _ _ h => Series.list.inj h) purpose hp
      (P := fun p n => id = d.options.list p n)

/-- The score of a new variable is one of a variable, its entry was not taken, and nothing else of
the supply is touched. -/
theorem newVariable_new (x : String) (d : Draft) :
    ∃ entry, (Score.mk entry d.options.objective).IsVariable ∧ entry ∉ d.taken ∧
      ((newVariable x).run d).1 = ⟨entry, d.options.objective⟩ ∧
      ((newVariable x).run d).2.taken = entry :: d.taken ∧
      ((newVariable x).run d).2.options = d.options ∧
      ((newVariable x).run d).2.pack = d.pack ∧
      ∀ series, series ≠ .variable x → ((newVariable x).run d).2.count series = d.count series := by
  rw [run_newVariable]
  split
  · rename_i hfree
    exact ⟨_, head?_variableEntry x 0, hfree, rfl, rfl, rfl, rfl, fun _ _ => rfl⟩
  · exact ⟨_, head?_variableEntry x _, variableEntry_freeNumber d.taken x (Nat.succ_pos _), rfl,
      rfl, rfl, rfl, fun series hseries =>
        congrArg (Option.getD · 0) (Table.get?_put_of_ne _ _ hseries)⟩

theorem handsOut_newVariable (x : String) (d : Draft) :
    HandsOut Spent d [((Gen.newVariable x).run d).1] ((Gen.newVariable x).run d).2 := by
  obtain ⟨entry, hvar, hfree, hscore, htaken, hoptions, -, hcount⟩ := newVariable_new x d
  rw [hscore]
  refine .one ?_ fun s => ?_
  · rintro (⟨purpose, n, -, -, heq⟩ | ⟨-, hmem, -⟩)
    · exact not_isVariable_temp _ _ _ (heq ▸ hvar)
    · exact hfree hmem
  · have hs : s.IsVariable ∧ s.entry = entry ∧ s.objective = d.options.objective ↔
        s = ⟨entry, d.options.objective⟩ := by
      constructor
      · rintro ⟨-, rfl, hobjective⟩
        rw [← hobjective]
      · rintro rfl
        exact ⟨hvar, rfl, rfl⟩
    have hcounts : ∀ purpose, ((newVariable x).run d).2.count (.temp purpose) =
        d.count (.temp purpose) := fun _ => hcount _ (by simp)
    simp only [Spent, hoptions, htaken, hcounts, List.mem_cons, or_and_right, and_or_left, ← hs]
    exact (or_congr_right or_comm).trans or_assoc.symm

/-! ## What the events account for -/

/-- The events account for what happened from one draft to another: for the names that were handed
out, and for the lists of the pack.  A list goes under an id of its own, and a function under the id
that an identifier gives it. -/
structure Accounts (held : List ResourceId) (d : Draft) (events : List Event) (d' : Draft) :
    Prop where
  options : d'.options = d.options
  scores : HandsOut Spent d (events.filterMap Event.score?) d'
  ids : HandsOut Reserved d (events.filterMap Event.reserved?) d'
  functions : d'.pack.functions =
    (events.filterMap Event.put?).foldl (fun t p => t.put p.1 p.2) d.pack.functions
  owned : Event.Owned held events
  named : ∀ id lines, .function id lines ∈ events →
    ∃ x, isIdentifier x = true ∧ id = ⟨d.options.space, x⟩

namespace Accounts

variable {held held' : List ResourceId} {events events' : List Event}

/-- Neither the supply of names nor the lists are touched. -/
theorem quiet (options : d'.options = d.options) (counters : d'.counters = d.counters)
    (taken : d'.taken = d.taken) (functions : d'.pack.functions = d.pack.functions) :
    Accounts held d [] d' := by
  have hcount : ∀ series, d'.count series = d.count series := fun series => by
    rw [count, count, counters]
  exact ⟨options, .none (spent_congr options (fun _ => hcount _) taken),
    .none (reserved_congr options fun _ => hcount _), functions, Event.owned_of_lists_nil rfl,
    by simp⟩

theorem trans (h : Accounts held d events d₁) (h' : Accounts held' d₁ events' d₂) :
    Accounts (held ++ held') d (events ++ events') d₂ := by
  refine ⟨h'.options.trans h.options, ?_, ?_, ?_, h.owned.append h'.owned, fun id lines hmem => ?_⟩
  · rw [List.filterMap_append]
    exact h.scores.trans h'.scores
  · rw [List.filterMap_append]
    exact h.ids.trans h'.ids
  · rw [List.filterMap_append, List.foldl_append, ← h.functions, h'.functions]
  · rcases List.mem_append.mp hmem with hmem | hmem
    · exact h.named id lines hmem
    · rw [← h.options]
      exact h'.named id lines hmem

theorem temp {purpose : String} (hp : Lettered purpose) (d : Draft) :
    Accounts [] d [.score ((Gen.temp purpose).run d).1] ((Gen.temp purpose).run d).2 :=
  ⟨rfl, handsOut_temp hp d,
    .none (reserved_congr rfl fun _ => (count_draw d _ _).trans (by simp)), rfl,
    Event.owned_of_lists_nil rfl, by simp⟩

theorem newVariable (x : String) (d : Draft) :
    Accounts [] d [.score ((Gen.newVariable x).run d).1] ((Gen.newVariable x).run d).2 := by
  obtain ⟨-, -, -, -, -, hoptions, hpack, hcount⟩ := newVariable_new x d
  exact ⟨hoptions, handsOut_newVariable x d,
    .none (reserved_congr hoptions fun _ => hcount _ (by simp)), congrArg Pack.functions hpack,
    Event.owned_of_lists_nil rfl, by simp⟩

theorem reserve {purpose : String} (hp : Lettered purpose)
    (h : Accounts [((Gen.reserve purpose).run d).1] ((Gen.reserve purpose).run d).2 events d') :
    Accounts [] d (.reserved ((Gen.reserve purpose).run d).1 :: events) d' := by
  have hdraw : Accounts [] d [.reserved ((Gen.reserve purpose).run d).1]
      ((Gen.reserve purpose).run d).2 :=
    ⟨rfl, .none (spent_congr rfl (fun _ => (count_draw d _ _).trans (by simp)) rfl),
      handsOut_reserve hp d, rfl, Event.owned_of_lists_nil rfl, by simp⟩
  exact { hdraw.trans h with owned := h.owned.reserved }

theorem list (id : ResourceId) (lines : List String) (d : Draft) :
    Accounts [id] d [.list id lines] ((Gen.addFunction id lines).run d).2 :=
  ⟨rfl, .none fun _ => Iff.rfl, .none fun _ => Iff.rfl, rfl, fun _ => le_rfl, by simp⟩

theorem function {x : String} (hx : isIdentifier x = true) (annotations : List Annotation)
    (lines : List String) (d : Draft) :
    Accounts [] d [.function ⟨d.options.space, x⟩ lines]
      ((addTagged ⟨d.options.space, x⟩ annotations lines).run d).2 := by
  refine ⟨rfl, .none fun _ => Iff.rfl, .none fun _ => Iff.rfl,
    Pack.functions_foldl_addTag _ _ _, Event.owned_of_lists_nil rfl, fun id _ hmem => ⟨x, hx, ?_⟩⟩
  simp only [List.mem_singleton, Event.function.injEq] at hmem
  exact hmem.1

end Accounts

end Draft

/-- **The events of a trace account for what the computation did.** -/
theorem Gen.Trace.accounts {α : Type} {held : List ResourceId} {m : Gen α} {d : Draft}
    {events : List Event} (h : Trace held m d events) :
    Draft.Accounts held d events (m.run d).2 := by
  induction h with
  | pure => exact .quiet rfl rfl rfl rfl
  | bind _ _ ih ih' => exact ih.trans ih'
  | get => exact .quiet rfl rfl rfl rfl
  | emit line d =>
    rw [run_emit]
    exact .quiet rfl rfl rfl rfl
  | complain => exact .quiet rfl rfl rfl rfl
  | declare x v d =>
    show Draft.Accounts [] d [] (d.bind x v)
    unfold Draft.bind
    split <;> exact .quiet rfl rfl rfl rfl
  | @capture α held m d events _ ih =>
    have hpush : Draft.Accounts [] d [] d.pushFrame := .quiet rfl rfl rfl rfl
    have hpop : Draft.Accounts [] (m.run d.pushFrame).2 [] (m.run d.pushFrame).2.popFrame :=
      .quiet rfl rfl rfl rfl
    have hall := hpush.trans (ih.trans hpop)
    rw [List.append_nil, List.append_nil] at hall
    exact hall
  | @inScope α held m d events _ ih =>
    have hpush : Draft.Accounts [] d [] d.pushScope := .quiet rfl rfl rfl rfl
    have hpop : Draft.Accounts [] (m.run d.pushScope).2 [] (m.run d.pushScope).2.popScope :=
      .quiet rfl rfl rfl rfl
    have hall := hpush.trans (ih.trans hpop)
    rw [List.append_nil, List.append_nil] at hall
    exact hall
  | temp hp d => exact .temp hp d
  | newVariable x d => exact .newVariable x d
  | reserve hp _ ih => exact .reserve hp ih
  | list id lines d => exact .list id lines d
  | function hx annotations lines d => exact .function hx annotations lines d

theorem Draft.SourceTrace.accounts {registry : Registry} {d : Draft} {sources : List String}
    {events : List Event} (h : d.SourceTrace registry sources events) :
    Accounts [] d events (d.addSources registry sources).2 := by
  induction h with
  | nil d => exact .quiet rfl rfl rfl rfl
  | @cons d source sources events events' h _ ih =>
    have hclear : Accounts [] _ [] (d.addScript (analyze source registry).1).2 :=
      .quiet (d := ((inScope (generateAll (analyze source registry).1.body)).run d).2)
        rfl rfl rfl rfl
    exact h.accounts.trans (hclear.trans ih)

/-! ## Generation has a trace -/

namespace Gen

/-- The computation has a trace on every draft. -/
def Traced {α : Type} (held : List ResourceId) (m : Gen α) : Prop :=
  ∀ d : Draft, ∃ events, Trace held m d events

namespace Traced

variable {α β : Type} {held : List ResourceId}

theorem pure (a : α) : Traced held (Pure.pure a : Gen α) := fun d => ⟨_, .pure held a d⟩

theorem bind {m : Gen α} {f : α → Gen β} (hm : Traced [] m) (hf : ∀ a, Traced held (f a)) :
    Traced held (m >>= f) := by
  intro d
  obtain ⟨events, h⟩ := hm d
  obtain ⟨events', h'⟩ := hf (m.run d).1 (m.run d).2
  exact ⟨_, h.bind h'⟩

theorem andThen {m : Gen α} {f : α → Gen β} (hm : Traced held m) (hf : ∀ a, Traced [] (f a)) :
    Traced held (m >>= f) := by
  intro d
  obtain ⟨events, h⟩ := hm d
  obtain ⟨events', h'⟩ := hf (m.run d).1 (m.run d).2
  exact ⟨_, List.append_nil held ▸ h.bind h'⟩

theorem get : Traced [] (MonadState.get : Gen Draft) := fun d => ⟨_, .get d⟩

theorem list (id : ResourceId) (lines : List String) : Traced [id] (Gen.addFunction id lines) :=
  fun d => ⟨_, .list id lines d⟩

theorem reserve {purpose : String} (hp : Lettered purpose) {f : ResourceId → Gen α}
    (hf : ∀ id, Traced [id] (f id)) : Traced [] (Gen.reserve purpose >>= f) := by
  intro d
  obtain ⟨events, h⟩ := hf ((Gen.reserve purpose).run d).1 ((Gen.reserve purpose).run d).2
  exact ⟨_, .reserve hp h⟩

theorem capture {m : Gen α} (h : Traced held m) : Traced held (Gen.capture m) := by
  intro d
  obtain ⟨events, h⟩ := h d.pushFrame
  exact ⟨events, h.capture⟩

theorem inScope {m : Gen α} (h : Traced held m) : Traced held (Gen.inScope m) := by
  intro d
  obtain ⟨events, h⟩ := h d.pushScope
  exact ⟨events, h.inScope⟩

theorem writes : Writes (Traced []) where
  pure := .pure
  bind := .bind
  temp hp d := ⟨_, .temp hp d⟩
  synthesize hp lines := .reserve hp fun id => (list id lines).andThen fun _ => .pure id
  read _ _ := .bind .get fun _ => .pure _
  emit line d := ⟨_, .emit line d⟩
  complain issue span d := ⟨_, .complain issue span d⟩

theorem loop {condition : Gen (Option Condition)} {body : Gen Unit}
    (hcondition : Traced [] condition) (hbody : Traced [] body) :
    Traced [] (generateLoop condition body) := by
  refine reserve (by decide) fun id => hcondition.capture.bind fun result => ?_
  split
  · exact .pure _
  · rename_i c setup
    refine bind (writes.lower c _) fun guard => hbody.capture.bind fun result => ?_
    exact (list id _).andThen fun _ =>
      writes.bind (writes.emitAll setup) fun _ => writes.emitAll guard

/-- A function of a source goes under the id that its name gives it. -/
theorem function {x : Declared} {annotations : List Annotation} {body : Gen Unit}
    (hx : isIdentifier x.name = true) (hbody : Traced [] body) :
    Traced [] (generateFunction x annotations body) := by
  intro d
  suffices h : ∃ events, Trace [] (if x.name = d.options.main then
      Gen.complain (.reservedName x.name) x.span
      else Gen.capture body >>= fun r =>
        addTagged ⟨d.options.space, x.name⟩ annotations r.2) d events by
    obtain ⟨events, h⟩ := h
    exact ⟨_, (Trace.get d).bind h⟩
  split
  · exact ⟨_, .complain _ _ d⟩
  · obtain ⟨events, h⟩ := hbody.capture d
    have hput := Trace.function hx annotations ((Gen.capture body).run d).1.2
      ((Gen.capture body).run d).2
    rw [h.accounts.options] at hput
    exact ⟨_, h.bind hput⟩

/-- **All of generation** has a trace, if the functions have identifiers for names. -/
theorem makes : Makes (Traced []) (Traced []) fun x => isIdentifier x = true where
  toWrites := writes
  weaken h := h
  andThen := .bind
  newVariable x d := ⟨_, .newVariable x d⟩
  declare x v d := ⟨_, .declare x v d⟩
  capture := .capture
  inScope := .inScope
  loop := .loop
  function := .function

end Traced

end Gen

/-! ## Sources -/

theorem analyze_names (source : String) (registry : Registry) :
    ∀ t ∈ (analyze source registry).1.body, t.Names fun x => isIdentifier x = true := by
  obtain ⟨Γ, hbuilt⟩ := parseScript_built (tokenize source).1 (Or.inr trivial)
  intro t ht span x annotations body hpart
  obtain ⟨Γ₁, Γ₂, ht⟩ := hbuilt.of_mem ht
  obtain ⟨_, _, hfunction⟩ := ht.part hpart
  cases hfunction with
  | function hx _ => exact isIdentifier_of_named hx

theorem Draft.exists_sourceTrace (registry : Registry) (d : Draft) (sources : List String) :
    ∃ events, d.SourceTrace registry sources events := by
  induction sources generalizing d with
  | nil => exact ⟨[], .nil d⟩
  | cons source sources ih =>
    obtain ⟨events, h⟩ := Gen.Traced.makes.inScope
      (Gen.Traced.makes.body _ (analyze_names source registry)) d
    obtain ⟨events', h'⟩ := ih (d.addScript (analyze source registry).1).2
    exact ⟨_, .cons h h'⟩

theorem Draft.options_addSources (registry : Registry) (d : Draft) (sources : List String) :
    (d.addSources registry sources).2.options = d.options := by
  obtain ⟨events, h⟩ := d.exists_sourceTrace registry sources
  exact h.accounts.options

namespace Table

variable {κ α : Type} [DecidableEq κ]

theorem get?_foldl_put_of_notMem {puts : List (κ × α)} {key : κ} (h : key ∉ puts.map Prod.fst)
    (t : Table κ α) : (puts.foldl (fun t p => t.put p.1 p.2) t).get? key = t.get? key := by
  induction puts generalizing t with
  | nil => rfl
  | cons p puts ih =>
    rw [List.map_cons, List.mem_cons, not_or] at h
    rw [List.foldl_cons, ih h.2, get?_put_of_ne _ _ h.1]

/-- What is put under a key once is there in the end. -/
theorem get?_foldl_put {puts : List (κ × α)} {key : κ} {value : α} (hmem : (key, value) ∈ puts)
    (honce : (puts.map Prod.fst).count key ≤ 1) (t : Table κ α) :
    (puts.foldl (fun t p => t.put p.1 p.2) t).get? key = some value := by
  obtain ⟨before, after, rfl⟩ := List.append_of_mem hmem
  have hafter : key ∉ after.map Prod.fst := by
    intro hkey
    have := List.count_pos_iff.mpr hkey
    simp only [List.map_append, List.map_cons, List.count_append, List.count_cons_self] at honce
    omega
  rw [List.foldl_append, List.foldl_cons, get?_foldl_put_of_notMem hafter, get?_put_self]

end Table

namespace Draft.Accounts

variable {d d' : Draft} {events : List Event} (h : Accounts [] d events d')

include h

theorem reserved_ne {id : ResourceId} (hid : id ∈ events.filterMap Event.reserved?) {x : String}
    (hx : isIdentifier x = true) : id ≠ ⟨d.options.space, x⟩ :=
  h.options ▸ ((h.ids.used_iff id).mpr (.inr hid)).ne hx

/-- A list goes under an id that was handed out. -/
theorem mem_reserved {id : ResourceId} {lines : List String} (hlist : .list id lines ∈ events) :
    id ∈ events.filterMap Event.reserved? := by
  have hid : id ∈ events.filterMap Event.list? := List.mem_filterMap.mpr ⟨_, hlist, rfl⟩
  have hcount := h.owned id
  rw [List.count_nil, Nat.zero_add] at hcount
  exact List.count_pos_iff.mp ((List.count_pos_iff.mpr hid).trans_le hcount)

/-- **Lists stay as they are**: what is put under an id of its own is there in the end. -/
theorem function?_of_list {id : ResourceId} {lines : List String}
    (hlist : .list id lines ∈ events) : d'.pack.function? id = some lines := by
  have hid := h.mem_reserved hlist
  -- no function has the id, so all that is put under it are lists
  have hputs : ∀ events' ⊆ events, ((events'.filterMap Event.put?).map Prod.fst).count id =
      (events'.filterMap Event.list?).count id := by
    intro events' hsub
    induction events' with
    | nil => rfl
    | cons event events' ih =>
      obtain ⟨hmem, hrest⟩ := List.cons_subset.mp hsub
      cases event with
      | score s => exact ih hrest
      | reserved i => exact ih hrest
      | list i l => simp [Event.put?, Event.list?, List.count_cons, ih hrest]
      | function i l =>
        obtain ⟨x, hx, rfl⟩ := h.named i l hmem
        have hne : (⟨d.options.space, x⟩ : ResourceId) ≠ id := (h.reserved_ne hid hx).symm
        simpa [List.filterMap_cons, Event.put?, Event.list?, hne] using ih hrest
  rw [Pack.function?, h.functions]
  refine Table.get?_foldl_put (List.mem_filterMap.mpr ⟨_, hlist, rfl⟩) ?_ _
  calc ((events.filterMap Event.put?).map Prod.fst).count id
      = (events.filterMap Event.list?).count id := hputs events (List.Subset.refl _)
    _ ≤ (events.filterMap Event.reserved?).count id := by simpa using h.owned id
    _ ≤ 1 := List.nodup_iff_count_le_one.mp h.ids.nodup id

end Draft.Accounts

theorem Draft.not_spent_empty (options : Options) (s : Score) : ¬ (empty options).Spent s := by
  rintro (⟨purpose, n, -, hn, -⟩ | ⟨-, hmem, -⟩)
  · exact Nat.not_lt_zero n hn
  · cases hmem

theorem Draft.not_reserved_empty (options : Options) (id : ResourceId) :
    ¬ (empty options).Reserved id := by
  rintro ⟨purpose, n, -, hn, -⟩
  exact Nat.not_lt_zero n hn

/-- **Fresh names**: when sources are added to an empty draft, there is a trace of it.  In every
trace the scores that are handed out differ, and so do the ids of lists; they are all that the draft
has used up in the end, so that no draw is left out.  No such id is that of a function, and what is
put under such an id stays there. -/
theorem Draft.addSources_fresh (options : Options) (registry : Registry) (sources : List String) :
    (∃ events, (empty options).SourceTrace registry sources events) ∧
    ∀ events, (empty options).SourceTrace registry sources events →
      ((events.filterMap Event.score?).Nodup ∧ ∀ s, s ∈ events.filterMap Event.score? ↔
        ((empty options).addSources registry sources).2.Spent s) ∧
      ((events.filterMap Event.reserved?).Nodup ∧ ∀ id, id ∈ events.filterMap Event.reserved? ↔
        ((empty options).addSources registry sources).2.Reserved id) ∧
      (∀ id ∈ events.filterMap Event.reserved?, ∀ x, isIdentifier x = true →
        id ≠ ⟨options.space, x⟩) ∧
      ∀ id lines, .list id lines ∈ events → id ∈ events.filterMap Event.reserved? ∧
        ((empty options).addSources registry sources).2.pack.function? id = some lines := by
  refine ⟨exists_sourceTrace registry (empty options) sources, fun events htrace => ?_⟩
  have h := htrace.accounts
  refine ⟨⟨h.scores.nodup, fun s => ?_⟩, ⟨h.ids.nodup, fun id => ?_⟩, ?_, ?_⟩
  · rw [h.scores.used_iff, or_iff_right (not_spent_empty options s)]
  · rw [h.ids.used_iff, or_iff_right (not_reserved_empty options id)]
  · exact fun id hid x hx => h.reserved_ne hid hx
  · exact fun id lines hlist => ⟨h.mem_reserved hlist, h.function?_of_list hlist⟩

end Packwright
