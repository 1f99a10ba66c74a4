import Packwright.Proofs.Guard

/-!
# What the lines of a condition are made of

The lines of a condition guard the command by predicates and by flags, raise the flags, and call the
lists that were added for them.  What holds of the command and goes through these steps holds of all
the lines, and of all the lines in the lists.

* `Draft.Wrote P d d' lines`: the lines, and those in the lists that were added, satisfy `P`.
* `Line.Closed R P ps d d'`: a guarded command satisfies `P` if the command satisfies `R`.
* `Condition.wrote_lower`: the lines of a condition.
-/

namespace Packwright

open Gen

namespace Draft

variable {P : String → Prop} {d d₁ d₂ : Draft} {l l' lines lines' : List String}

theorem Grows.listed_cases (h : d.Grows l d₁) {id : ResourceId} (hid : id ∈ d.listed d₂) :
    id ∈ d.listed d₁ ∨ id ∈ d₁.listed d₂ := by
  obtain ⟨purpose, n, hp, hlo, hhi, rfl⟩ := hid
  by_cases hn : n < d₁.count (.list purpose)
  · exact Or.inl ⟨purpose, n, hp, hlo, hn, rfl⟩
  · exact Or.inr ⟨purpose, n, hp, by omega, hhi, by rw [h.options]⟩

/-- A list for a purpose is the only one that is added with it. -/
theorem eq_of_mem_listed_withList {purpose : String} {id : ResourceId}
    (h : id ∈ d.listed (d.withList purpose lines)) :
    id = d.options.list purpose (d.count (.list purpose)) := by
  obtain ⟨other, n, -, hlo, hhi, rfl⟩ := h
  have hcount := count_draw d (.list purpose) (.list other)
  change n < (d.draw (.list purpose)).count (.list other) at hhi
  by_cases heq : Series.list other = .list purpose
  · obtain rfl : other = purpose := by simpa using heq
    rw [if_pos rfl] at hcount
    obtain rfl : n = d.count (.list other) := by omega
    rfl
  · rw [if_neg heq] at hcount
    omega

theorem mem_listed_withList {purpose : String} (hp : Lettered purpose) (d : Draft)
    (lines : List String) :
    d.options.list purpose (d.count (.list purpose)) ∈ d.listed (d.withList purpose lines) :=
  ⟨purpose, _, hp, le_rfl, d.lt_count_draw _, rfl⟩

theorem function?_withList (d : Draft) (purpose : String) (lines : List String) :
    (d.withList purpose lines).pack.function? (d.options.list purpose (d.count (.list purpose))) =
      some lines :=
  Table.get?_put_self _ _ _

/-- Lines that satisfy `P` were written on the way from one draft to another, and the lists that
were added are made of such lines. -/
structure Wrote (P : String → Prop) (d d' : Draft) (lines : List String) : Prop where
  lines : ∀ line ∈ lines, P line
  bodies : ∀ id ∈ d.listed d', ∀ body, d'.pack.function? id = some body → ∀ line ∈ body, P line

namespace Wrote

/-- No list was added. -/
theorem of_count (hcount : ∀ purpose, d₁.count (.list purpose) = d.count (.list purpose))
    (h : ∀ line ∈ lines, P line) : Wrote P d d₁ lines := by
  refine ⟨h, fun id hid => ?_⟩
  obtain ⟨purpose, n, -, hlo, hhi, -⟩ := hid
  have := hcount purpose
  omega

theorem same (d : Draft) (h : ∀ line ∈ lines, P line) : Wrote P d d lines :=
  of_count (fun _ => rfl) h

/-- One part behind the other. -/
theorem append (h : Wrote P d d₁ lines) (h' : Wrote P d₁ d₂ lines') (hg : d.Grows l d₁)
    (hg' : d₁.Grows l' d₂) : Wrote P d d₂ (lines ++ lines') := by
  refine ⟨List.forall_mem_append.mpr ⟨h.lines, h'.lines⟩, fun id hid body hbody => ?_⟩
  rcases hg.listed_cases hid with hid | hid
  · rw [hg.function?_of_listed hg' hid] at hbody
    exact h.bodies id hid body hbody
  · exact h'.bodies id hid body hbody

/-- A score was drawn first. -/
theorem draw {purpose : String} (h : Wrote P (d.draw (.temp purpose)) d₁ lines)
    (hg : (d.draw (.temp purpose)).Grows l d₁) (hlines : ∀ line ∈ lines', P line) :
    Wrote P d d₁ (lines' ++ lines) := by
  refine append (of_count (fun other => ?_) hlines) h (.draw d _) hg
  rw [count_draw, if_neg (by simp)]
  rfl

/-- The lines become a list of their own. -/
theorem withList (h : Wrote P d d₁ lines) (hg : d.Grows l d₁) {purpose : String}
    (hp : Lettered purpose) (hlines : ∀ line ∈ lines', P line) :
    Wrote P d (d₁.withList purpose lines) lines' := by
  refine ⟨hlines, fun id hid body hbody => ?_⟩
  rcases hg.listed_cases hid with hid | hid
  · rw [hg.function?_of_listed (.withList hp lines d₁) hid] at hbody
    exact h.bodies id hid body hbody
  · obtain rfl := eq_of_mem_listed_withList hid
    obtain rfl := Option.some.inj ((function?_withList d₁ purpose lines).symm.trans hbody)
    exact h.lines

theorem mono {Q : String → Prop} (h : Wrote P d d₁ lines) (hQ : ∀ line, P line → Q line) :
    Wrote Q d d₁ lines :=
  ⟨fun line hline => hQ line (h.lines line hline),
    fun id hid body hbody line hline => hQ line (h.bodies id hid body hbody line hline)⟩

end Wrote

end Draft

/-- Between two drafts, `P` holds of a command that satisfies `R`, and of a guard in front of it.
The commands that are written for flags and for lists satisfy `R`. -/
structure Line.Closed (R P : String → Prop) (ps : List Predicate) (d d' : Draft) : Prop where
  alone : ∀ {run}, R run → P run
  guard : ∀ q ∈ ps, q.isConstant = false → ∀ negated {run}, R run → P (Line.guard negated q run)
  guardAmount : ∀ s ∈ d.fresh d', ∀ n {run}, R run → P (Line.guardAmount false s n run)
  set : ∀ s ∈ d.fresh d', ∀ n, R (Line.set s n)
  call : ∀ id ∈ d.listed d', ∀ body, d'.pack.function? id = some body → body ≠ [] →
    (∀ line ∈ body, P line) → R (Line.call id)

theorem Line.Closed.sub {R P : String → Prop} {ps ps' : List Predicate} {d d₁ d₂ d' : Draft}
    {l l' l'' : List String} (h : Closed R P ps d d') (hps : ps' ⊆ ps) (h₁ : d.Grows l d₁)
    (h₂ : d₁.Grows l' d₂) (h₃ : d₂.Grows l'' d') : Closed R P ps' d₁ d₂ where
  alone := h.alone
  guard q hq := h.guard q (hps hq)
  guardAmount s hs := h.guardAmount s (h₁.fresh_right (h₃.fresh_left hs))
  set s hs := h.set s (h₁.fresh_right (h₃.fresh_left hs))
  call id hid body hbody := h.call id (h₁.listed_right (h₃.listed_left hid)) body
    ((h₂.function?_of_listed h₃ hid).trans hbody)

namespace Condition

variable {R P : String → Prop}

theorem lower_leaf_cases {negated : Bool} {q : Predicate} {run : String} {d d' : Draft}
    {lines : List String} (h : (lower (leaf negated q) run).run d = (lines, d')) :
    d' = d ∧ (lines = [] ∨ lines = [run] ∨
      (q.isConstant = false ∧ lines = [Line.guard negated q run])) := by
  cases q with
  | constant value =>
    obtain ⟨rfl, rfl⟩ := Prod.mk.inj h
    by_cases hv : value = negated
    · exact ⟨rfl, Or.inl (if_pos hv)⟩
    · exact ⟨rfl, Or.inr (Or.inl (if_neg hv))⟩
  | within | compare | entity | data =>
    obtain ⟨rfl, rfl⟩ := Prod.mk.inj h
    exact ⟨rfl, Or.inr (Or.inr ⟨rfl, rfl⟩)⟩

/-- The lines of a flag: it is cleared, tests raise it, and a command is run under it. -/
theorem wrote_flag {ps : List Predicate} {purpose run : String} {d d' : Draft}
    {l tests : List String} (hp : Lettered purpose) (h : Line.Closed R P ps d d')
    (hg : (d.draw (.temp purpose)).Grows l d')
    (htests : Draft.Wrote P (d.draw (.temp purpose)) d' tests) (hrun : R run) (n : Amount) :
    Draft.Wrote P d d' (Line.set (d.options.temp purpose (d.count (.temp purpose))) 0 :: tests ++
      [Line.guardAmount false (d.options.temp purpose (d.count (.temp purpose))) n run]) := by
  have hmem := Draft.mem_fresh_draw hp hg
  have hbefore := htests.draw hg (List.forall_mem_singleton.mpr (h.alone (h.set _ hmem 0)))
  refine ⟨List.forall_mem_append.mpr ⟨hbefore.lines, ?_⟩, hbefore.bodies⟩
  exact List.forall_mem_singleton.mpr (h.guardAmount _ hmem n hrun)

mutual

/-- **The lines of a condition** satisfy what its command and its guards do. -/
theorem wrote_lower : ∀ (c : Condition) {run : String} {d d' : Draft} {lines : List String},
    (c.lower run).run d = (lines, d') → Line.Closed R P c.predicates d d' → R run →
    Draft.Wrote P d d' lines
  | leaf negated q, run, d, d', lines, hlower, h, hrun => by
    obtain ⟨rfl, rfl | rfl | ⟨hc, rfl⟩⟩ := lower_leaf_cases hlower
    · exact .same d' (List.forall_mem_nil _)
    · exact .same d' (List.forall_mem_singleton.mpr (h.alone hrun))
    · exact .same d' (List.forall_mem_singleton.mpr
        (h.guard q (by simp [predicates]) hc negated hrun))
  | all negated cs, run, d, d', lines, hlower, h, hrun => wrote_lowerAll negated cs hlower h hrun
  | any negated [], run, d, d', lines, hlower, h, hrun => by
    obtain ⟨rfl, rfl⟩ := Prod.mk.inj hlower
    cases negated with
    | true => exact .same d (List.forall_mem_singleton.mpr (h.alone hrun))
    | false => exact .same d (List.forall_mem_nil _)
  | any negated (c :: cs), run, d, d', lines, hlower, h, hrun => by
    obtain ⟨tests, heach, rfl⟩ := lower_any_cases hlower
    have hor : Lettered "or" := by decide
    have hg := grows_of_lowerEach heach
    have htests := wrote_lowerEach (c :: cs) heach
      (h.sub (fun _ hq => hq) (.draw d _) hg (.refl d')) (h.set _ (Draft.mem_fresh_draw hor hg) 1)
    exact wrote_flag hor h hg htests hrun _

theorem wrote_lowerEach : ∀ (cs : List Condition) {run : String} {d d' : Draft}
    {lines : List String}, (lowerEach cs run).run d = (lines, d') →
    Line.Closed R P (predicatesAll cs) d d' → R run → Draft.Wrote P d d' lines
  | [], run, d, d', lines, heach, _, _ => by
    obtain ⟨rfl, rfl⟩ := Prod.mk.inj heach
    exact .same d (List.forall_mem_nil _)
  | c :: cs, run, d, d', lines, heach, h, hrun => by
    obtain ⟨first, d₁, rest, hfirst, hrest, rfl⟩ := lowerEach_cons_cases heach
    have hg := grows_of_lower hfirst
    have hg' := grows_of_lowerEach hrest
    have hc : c.predicates ⊆ predicatesAll (c :: cs) := by simp [predicatesAll]
    have hcs : predicatesAll cs ⊆ predicatesAll (c :: cs) := by simp [predicatesAll]
    exact (wrote_lower c hfirst (h.sub hc (.refl d) hg hg') hrun).append
      (wrote_lowerEach cs hrest (h.sub hcs hg hg' (.refl d')) hrun) hg hg'

theorem wrote_lowerAll (negated : Bool) : ∀ (cs : List Condition) {run : String} {d d' : Draft}
    {lines : List String}, (lowerAll negated cs run).run d = (lines, d') →
    Line.Closed R P (predicatesAll cs) d d' → R run → Draft.Wrote P d d' lines
  | [], run, d, d', lines, hlower, h, hrun => by
    obtain ⟨rfl, rfl⟩ := Prod.mk.inj hlower
    cases negated with
    | true => exact .same d (List.forall_mem_nil _)
    | false => exact .same d (List.forall_mem_singleton.mpr (h.alone hrun))
  | [c], run, d, d', lines, hlower, h, hrun => by
    obtain ⟨first, hfirst, rfl⟩ := lowerAll_single_cases hlower
    have hand : Lettered "and" := by decide
    have hg := grows_of_lower hfirst
    have hc : c.predicates ⊆ predicatesAll [c] := by simp [predicatesAll]
    have htest := wrote_lower c hfirst (h.sub hc (.draw d _) hg (.refl d'))
      (h.set _ (Draft.mem_fresh_draw hand hg) 1)
    exact wrote_flag hand h hg htest hrun _
  | c :: c' :: cs, run, d, d', lines, hlower, h, hrun => by
    obtain ⟨first, d₂, rest, d₃, hfirst, hrest, rfl, rfl⟩ := lowerAll_cons_cases hlower
    have hand : Lettered "and" := by decide
    have hdraw := Draft.Grows.draw d (.temp "and")
    have h₂ := grows_of_lower hfirst
    have h₃ := grows_of_lowerAll hrest
    have hlist : d₃.Grows [] (d₃.withList "and" rest) := .withList hand rest d₃
    have hg := h₂.trans (h₃.trans hlist)
    have hc : c.predicates ⊆ predicatesAll (c :: c' :: cs) := by simp [predicatesAll]
    have hcs : predicatesAll (c' :: cs) ⊆ predicatesAll (c :: c' :: cs) := by simp [predicatesAll]
    have hmem := Draft.mem_fresh_draw hand hg
    have htest := wrote_lower c hfirst (h.sub hc hdraw h₂ (h₃.trans hlist)) (h.set _ hmem 1)
    have hothers := wrote_lowerAll negated (c' :: cs) hrest
      (h.sub hcs (hdraw.trans h₂) h₃ hlist) hrun
    -- the list of the other children is called behind the test of the first
    have hcall := h.call _
      ((hdraw.trans (h₂.trans h₃)).listed_right (Draft.mem_listed_withList hand d₃ rest)) rest
      (Draft.function?_withList d₃ "and" rest) (lowerAll_ne_nil hrest) hothers.lines
    have hbehind := htest.append (hothers.withList h₃ hand (List.forall_mem_nil _)) h₂
      (h₃.trans hlist)
    rw [List.append_nil] at hbehind
    obtain ⟨hlines, hbodies⟩ := wrote_flag hand h hg hbehind hcall 1
    refine ⟨?_, hbodies⟩
    simp only [List.cons_append, List.forall_mem_cons, List.forall_mem_append] at hlines ⊢
    refine ⟨hlines.1, hlines.2.1, ?_, hlines.2.2⟩
    cases negated with
    | true => exact List.forall_mem_singleton.mpr (h.guardAmount _ hmem 0 hrun)
    | false => exact List.forall_mem_nil _

end

end Condition

end Packwright
