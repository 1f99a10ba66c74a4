import Packwright.Proofs.Guard

/-!
# Which tests a condition makes

A conjunction stops at the first child that fails, and a disjunction asks all its children.  In the
lines of a condition no command jumps: that a child is not tested comes from the list in which its
tests stand, which is called under the flag of the child before.

* `Condition.tests w c`: the tests of a condition, in the order in which it is evaluated.
* `Tallies F w w' texts`: the tests that were made on the way from one world to another.
* `Order.Untested p F o`: the order makes no test and keeps the scores of `F`.
* `Condition.tallies_lower`: a run of the lines of a condition makes the tests of the condition.
-/

namespace Packwright

open Gen Run Words

/-! ## The tests of a condition -/

namespace Condition

mutual

/-- The tests that are made when a condition is evaluated.  Negation has no part in it. -/
def tests (w : World) : Condition → List String
  | leaf _ p => if p.isConstant then [] else [p.text]
  | all _ cs => testsAll w cs
  | any _ cs => testsEach w cs

/-- The tests of a conjunction, from left to right.  A child that fails is the last one tested. -/
def testsAll (w : World) : List Condition → List String
  | [] => []
  | c :: cs => c.tests w ++ if c.holds w then testsAll w cs else []

/-- The tests of a disjunction, whose children are all tested. -/
def testsEach (w : World) : List Condition → List String
  | [] => []
  | c :: cs => c.tests w ++ testsEach w cs

end

theorem Spares.head {c : Condition} {cs : List Condition} {F : Set Score}
    (h : Spares (predicatesAll (c :: cs)) F) : Spares c.predicates F :=
  fun q hq => h q (by simp [predicatesAll, hq])

theorem Spares.tail {c : Condition} {cs : List Condition} {F : Set Score}
    (h : Spares (predicatesAll (c :: cs)) F) : Spares (predicatesAll cs) F :=
  fun q hq => h q (by simp [predicatesAll, hq])

end Condition

open Condition in
mutual

/-- A condition that does not read `F` makes the same tests in worlds that agree outside of `F`. -/
theorem World.Agree.tests {F : Set Score} {w v : World} (h : World.Agree F w v) :
    ∀ {c : Condition}, Spares c.predicates F → c.tests v = c.tests w
  | leaf _ _, _ => rfl
  | all _ cs, hc => by
    have hcs : Spares (predicatesAll cs) F := hc
    exact World.Agree.testsAll h hcs
  | any _ cs, hc => by
    have hcs : Spares (predicatesAll cs) F := hc
    exact World.Agree.testsEach h hcs

theorem World.Agree.testsAll {F : Set Score} {w v : World} (h : World.Agree F w v) :
    ∀ {cs : List Condition}, Spares (predicatesAll cs) F → testsAll v cs = testsAll w cs
  | [], _ => rfl
  | c :: cs, hc => by
    rw [Condition.testsAll, Condition.testsAll, World.Agree.tests h hc.head, h.holds hc.head,
      World.Agree.testsAll h hc.tail]

theorem World.Agree.testsEach {F : Set Score} {w v : World} (h : World.Agree F w v) :
    ∀ {cs : List Condition}, Spares (predicatesAll cs) F → testsEach v cs = testsEach w cs
  | [], _ => rfl
  | c :: cs, hc => by
    rw [Condition.testsEach, Condition.testsEach, World.Agree.tests h hc.head,
      World.Agree.testsEach h hc.tail]

end

/-! ## Counting tests -/

theorem World.evaluationsOf_evaluated (w : World) (text other : String) :
    (w.evaluated text).evaluationsOf other = w.evaluationsOf other + [text].count other := by
  show ((w.evaluations.put text (w.evaluationsOf text + 1)).get? other).getD 0 = _
  by_cases h : other = text
  · subst h
    simp
  · rw [Table.get?_put_of_ne _ _ h]
    simp [Ne.symm h, World.evaluationsOf]

/-- The test is whether a score of `F` is 0 or 1. -/
def FlagTest (F : Set Score) (text : String) : Prop :=
  ∃ s ∈ F, text = Order.amountText s 0 ∨ text = Order.amountText s 1

/-- On the way from one world to another the tests of `texts` were made, each as often as it occurs
there.  Tests of flags are not looked at. -/
def Tallies (F : Set Score) (w w' : World) (texts : List String) : Prop :=
  ∀ text, ¬ FlagTest F text → w'.evaluationsOf text = w.evaluationsOf text + texts.count text

namespace Tallies

variable {F G : Set Score} {u v w : World} {texts texts' : List String}

theorem of_same (h : ∀ text, v.evaluationsOf text = w.evaluationsOf text) : Tallies F w v [] :=
  fun text _ => h text

theorem trans (h : Tallies F w v texts) (h' : Tallies F v u texts') :
    Tallies F w u (texts ++ texts') := by
  intro text hflag
  rw [h' text hflag, h text hflag, List.count_append, Nat.add_assoc]

theorem then_none (h : Tallies F w v texts) (h' : Tallies F v u []) : Tallies F w u texts := by
  have := h.trans h'
  rwa [List.append_nil] at this

theorem mono (h : Tallies F w v texts) (hFG : F ⊆ G) : Tallies G w v texts :=
  fun text hflag => h text fun ⟨s, hs, heq⟩ => hflag ⟨s, hFG hs, heq⟩

theorem evaluated (F : Set Score) (w : World) (text : String) :
    Tallies F w (w.counted.evaluated text) [text] :=
  fun other _ => w.counted.evaluationsOf_evaluated text other

theorem flag {s : Score} (hs : s ∈ F) {n : Amount} (hn : n = 0 ∨ n = 1) (w : World) :
    Tallies F w (w.counted.evaluated (Order.amountText s n)) [] := by
  intro other hflag
  have hne : Order.amountText s n ≠ other := by
    rintro rfl
    exact hflag ⟨s, hs, hn.imp (congrArg _) (congrArg _)⟩
  have hcount : [Order.amountText s n].count other = 0 := by simp [hne]
  rw [World.evaluationsOf_evaluated, hcount]
  rfl

end Tallies

/-! ## Commands that make no test -/

/-- Neither the order nor anything that it calls makes a test or changes a score of `F`. -/
def Order.Untested (p : Program) (F : Set Score) (o : Order) : Prop :=
  ∀ n u v f, command (function p n) o u = .ok f v →
    (∀ text, v.evaluationsOf text = u.evaluationsOf text) ∧ ∀ s ∈ F, v.score? s = u.score? s

theorem Order.Untested.mono {p : Program} {F G : Set Score} {o : Order} (h : o.Untested p G)
    (hFG : F ⊆ G) : o.Untested p F := fun n u v f hrun =>
  ⟨(h n u v f hrun).1, fun s hs => (h n u v f hrun).2 s (hFG hs)⟩

/-- Two orders that differ at most in the text of a command that is noted or complained about. -/
inductive Order.Alike : Order → Order → Prop
  | refl (o : Order) : Alike o o
  | print (line line' : String) : Alike (.print line) (.print line')
  | malformed (line line' : String) : Alike (.malformed line) (.malformed line')
  | guard (expected : Bool) (t : Test) (text : String) {o o' : Order} (h : Alike o o') :
      Alike (.guard expected t text o) (.guard expected t text o')

namespace Order

theorem alike_readPlayers (line line' : String) (words : List String) :
    Alike (readPlayers line words) (readPlayers line' words) := by
  unfold readPlayers
  repeat' split
  all_goals constructor

theorem alike_readChain (line line' : String) (target : Option Score) (words : List String) :
    Alike (readChain line target words) (readChain line' target words) := by
  rw [readChain.eq_def line, readChain.eq_def line']
  cases words with
  | nil => exact .malformed line line'
  | cons word rest =>
    by_cases htest : (word = "if" || word = "unless") = true
    · simp only [if_pos htest]
      cases Test.read? rest with
      | none => exact .malformed line line'
      | some found => exact .guard _ _ _ (alike_readChain line line' target _)
    · simp only [if_neg htest]
      by_cases hcontext : (word = "as" || word = "at") = true
      · simp only [if_pos hcontext]
        exact alike_readChain line line' target _
      · simp only [if_neg hcontext]
        by_cases hstore : word = "store"
        · simp only [if_pos hstore]
          split
          · exact alike_readChain line line' _ _
          · exact .malformed line line'
        · simp only [if_neg hstore]
          by_cases hrun : word = "run"
          · simp only [if_pos hrun]
            cases target with
            | none => exact .refl _
            | some score =>
              dsimp only
              cases Text.after? "data get ".toList (join rest).toList with
              | none => exact .malformed line line'
              | some question => exact .refl _
          · simp only [if_neg hrun]
            exact .malformed line line'
termination_by words.length

/-- The text of a command has no part in what it orders. -/
theorem alike_read (line line' : String) (words : List String) :
    Alike (read line words) (read line' words) := by
  rw [read.eq_def, read.eq_def]
  split
  · exact .refl _
  · exact alike_readPlayers line line' _
  · exact .refl _
  · exact .refl _
  · exact alike_readChain line line' none _
  · exact .print line line'

variable {callee : ResourceId → Run Unit}

/-- Orders that are alike do the same to scores and make the same tests. -/
theorem Alike.order_ok {o o' : Order} (h : Alike o o') : ∀ {w v : World} {f : Flow},
    order callee o w = .ok f v → ∃ v', order callee o' w = .ok f v' ∧ v'.scores = v.scores ∧
      v'.evaluations = v.evaluations := by
  induction h with
  | refl o => exact fun {w v f} hv => ⟨v, hv, rfl, rfl⟩
  | print line line' =>
    intro w v f hv
    cases hv
    exact ⟨_, rfl, rfl, rfl⟩
  | malformed line line' =>
    intro w v f hv
    cases hv
  | guard expected t text h ih =>
    intro w v f hv
    rw [order_guard] at hv ⊢
    split at hv
    · rename_i htest
      rw [if_pos htest]
      exact ih hv
    · rename_i htest
      rw [if_neg htest]
      exact ⟨v, hv, rfl, rfl⟩

/-- What a guard passes on makes no test if the command does not. -/
theorem Untested.passed {p : Program} {F : Set Score} {run : String}
    (h : (ofText run).Untested p F) : (passed run).Untested p F := by
  intro n u v f hrun
  obtain ⟨hroom, horder⟩ := command_ok.mp hrun
  rw [passed_eq_read] at horder
  obtain ⟨v', hv', hscores, hevaluations⟩ := (alike_read _ run _).order_ok horder
  obtain ⟨hsame, hkept⟩ := h n u v' f (command_ok.mpr ⟨hroom, hv'⟩)
  refine ⟨fun text => ?_, fun s hs => ?_⟩
  · rw [← hsame text, World.evaluationsOf, World.evaluationsOf, hevaluations]
  · rw [← hkept s hs, World.score?, World.score?, hscores]

theorem untested_raise {p : Program} {F : Set Score} {flag : Score} (hworded : flag.Worded)
    (hflag : flag ∉ F) : (ofText (Line.set flag 1)).Untested p F := by
  intro n u v f hrun
  obtain ⟨-, rfl⟩ := command_set_ok hworded hrun
  refine ⟨fun _ => rfl, fun s hs => ?_⟩
  rw [World.score?_setScore, if_neg]
  · rfl
  · rintro rfl
    exact hflag hs

end Order

/-! ## Runs of the lines of a condition -/

section Lines

variable {p : Program} {depth : Nat} {F : Set Score} {flag : Score} {w w' : World} {f : Flow}
  {run : String}

theorem tallies_alone (hrun : (Order.ofText run).Untested p F)
    (h : sequence (function p depth) ([run].map Order.ofText) w = .ok f w') : Tallies F w w' [] :=
  .of_same (hrun depth w w' f (sequence_singleton_ok.mp h)).1

/-- A command behind a test adds nothing to it. -/
theorem tallies_leaf {q : Predicate} (hc : q.isConstant = false) (hq : q.Worded)
    (hrun : (Order.ofText run).Untested p F) {negated : Bool}
    (h : sequence (function p depth) ([Line.guard negated q run].map Order.ofText) w = .ok f w') :
    Tallies F w w' [q.text] := by
  have htest := Tallies.evaluated F w q.text
  rcases command_guard_passed hc hq (sequence_singleton_ok.mp h) with ⟨-, hpass⟩ | ⟨-, -, rfl⟩
  · exact htest.then_none (.of_same (hrun.passed depth _ w' f hpass).1)
  · exact htest

/-- A command under a flag makes no test but that of the flag, and keeps all flags. -/
theorem tallies_flag (hworded : flag.Worded) (hflag : flag ∈ F) {n : Amount} (hn : n = 0 ∨ n = 1)
    (hrun : (Order.ofText run).Untested p F)
    (h : command (function p depth) (Order.ofText (Line.guardAmount false flag n run)) w =
      .ok f w') : Tallies F w w' [] ∧ ∀ s ∈ F, w'.score? s = w.score? s := by
  have htest := Tallies.flag hflag hn w
  rcases command_guardAmount_passed hworded h with ⟨-, hpass⟩ | ⟨-, -, rfl⟩
  · obtain ⟨hsame, hkept⟩ := hrun.passed depth _ w' f hpass
    exact ⟨htest.then_none (.of_same hsame), hkept⟩
  · exact ⟨htest, fun _ _ => rfl⟩

/-- Lines behind which a command stands under a flag. -/
theorem tallies_flagged {lines texts : List String} {negated : Bool} (hworded : flag.Worded)
    (hflag : flag ∈ F) (hrun : (Order.ofText run).Untested p F)
    (hlines : ∀ v g, sequence (function p depth) (lines.map Order.ofText) w = .ok g v →
      Tallies F w v texts)
    (h : sequence (function p depth) ((lines ++
      [Line.guardAmount false flag (if negated then 0 else 1) run]).map Order.ofText) w =
        .ok f w') : Tallies F w w' texts := by
  have hamount : (if negated then 0 else 1 : Amount) = 0 ∨
      (if negated then 0 else 1 : Amount) = 1 := by cases negated <;> simp
  rw [List.map_append] at h
  rcases sequence_append_ok.mp h with ⟨v, hs, hlast⟩ | ⟨-, hs⟩
  · exact (hlines v .next hs).then_none
      (tallies_flag hworded hflag hamount hrun (sequence_singleton_ok.mp hlast)).1
  · exact hlines w' .leave hs

/-- A condition is tested into a flag, which it does not read. -/
theorem tallies_tested {G : Set Score} {c : Condition} {first : List String}
    (hworded : flag.Worded) (hG : G ⊆ F) (hspares : Condition.Spares c.predicates {flag})
    (hfirst : ∀ u g, sequence (function p depth) (first.map Order.ofText) u = .ok g w' →
      Tallies G u w' (c.tests u))
    (h : sequence (function p depth) ((Line.set flag 0 :: first).map Order.ofText) w = .ok f w') :
    Tallies F w w' (c.tests w) := by
  rw [List.map_cons] at h
  rcases sequence_cons_ok.mp h with ⟨v, hc, hs⟩ | ⟨-, hc⟩
  · obtain ⟨-, rfl⟩ := command_set_ok hworded hc
    have hset : World.Agree {flag} w (w.counted.setScore flag 0) :=
      (World.Agree.counted _ w).trans (.setScore (Set.mem_singleton flag) _ 0)
    have htally := hfirst (w.counted.setScore flag 0) f hs
    rw [hset.tests hspares] at htally
    exact htally.mono hG
  · cases (command_set_ok hworded hc).1

variable {id : ResourceId} {rest texts : List String} {truth : Bool}

/-- A list that is called under a flag makes its tests if the flag is raised. -/
theorem tallies_call (hworded : flag.Worded) (hflag : flag ∈ F) (hid : id.Worded)
    (hget : p.get? id = some (rest.map Order.ofText))
    (hrest : truth = true → ∀ n u g, World.Agree F w u →
      sequence (function p n) (rest.map Order.ofText) u = .ok g w' → Tallies F u w' texts)
    (hscore : w.score? flag = some (if truth then 1 else 0))
    (h : command (function p depth) (Order.ofText (Line.guardAmount false flag 1 (Line.call id)))
      w = .ok f w') : Tallies F w w' (if truth then texts else []) := by
  have htest := Tallies.flag hflag (n := 1) (Or.inr rfl) w
  cases truth with
  | false =>
    have hne : w.score? flag ≠ some 1 := by
      rw [hscore]
      decide
    obtain ⟨-, rfl⟩ := command_flag_stop hworded (Line.joined_call hid) hne h
    exact htest
  | true =>
    have hcall := command_flag_pass hworded (Line.joined_call hid) hscore h
    rw [Order.ofText_call hid] at hcall
    obtain ⟨-, hfun⟩ := order_call_ok.mp (command_ok.mp hcall).2
    obtain ⟨n, os, g, -, hos, hs⟩ := function_ok.mp hfun
    obtain rfl : os = rest.map Order.ofText := Option.some.inj (hos.symm.trans hget)
    have hu : World.Agree F w (w.counted.evaluated (Order.amountText flag 1)).counted :=
      ((World.Agree.counted F w).trans (.evaluated F _ _)).trans (.counted F _)
    have hcalled : Tallies F w (w.counted.evaluated (Order.amountText flag 1)).counted [] := htest
    exact hcalled.trans (hrest rfl n _ g hu hs)

/-- The lines behind the test of the first child of a conjunction of several.  The command that runs
where this child fails does not raise its flag. -/
theorem tallies_conjunction (hworded : flag.Worded) (hflag : flag ∈ F) (hid : id.Worded)
    (hget : p.get? id = some (rest.map Order.ofText)) (hrun : (Order.ofText run).Untested p F)
    (hrest : truth = true → ∀ n u g, World.Agree F w u →
      sequence (function p n) (rest.map Order.ofText) u = .ok g w' → Tallies F u w' texts)
    (hscore : w.score? flag = some (if truth then 1 else 0)) {negated : Bool}
    (h : sequence (function p depth)
      (((if negated then [Line.guardAmount false flag 0 run] else []) ++
        [Line.guardAmount false flag 1 (Line.call id)]).map Order.ofText) w = .ok f w') :
    Tallies F w w' (if truth then texts else []) := by
  cases negated with
  | false =>
    exact tallies_call hworded hflag hid hget hrest hscore (sequence_singleton_ok.mp h)
  | true =>
    have hstop : truth = true → ∀ {g v}, command (function p depth)
        (Order.ofText (Line.guardAmount false flag 0 run)) w = .ok g v →
        g = .next ∧ World.Agree F w v := by
      intro htrue g v hfailed
      rcases command_guardAmount_passed hworded hfailed with ⟨hzero, -⟩ | ⟨-, rfl, rfl⟩
      · rw [hscore, htrue] at hzero
        exact absurd hzero (by decide)
      · exact ⟨rfl, (World.Agree.counted F w).trans (.evaluated F _ _)⟩
    rcases sequence_cons_ok.mp h with ⟨v, hfailed, hlast⟩ | ⟨-, hfailed⟩
    · obtain ⟨htally, hkept⟩ := tallies_flag hworded hflag (Or.inl rfl) hrun hfailed
      exact htally.trans (tallies_call hworded hflag hid hget
        (fun htrue n u g hu => hrest htrue n u g ((hstop htrue hfailed).2.trans hu))
        ((hkept flag hflag).trans hscore) (sequence_singleton_ok.mp hlast))
    · cases truth with
      | true => cases (hstop rfl hfailed).1
      | false => exact (tallies_flag hworded hflag (Or.inl rfl) hrun hfailed).1

end Lines

namespace Condition

variable {p : Program}

/-- A condition that is tested into a flag leaves its truth there. -/
theorem tested_lower {c : Condition} {flag : Score} {d d' : Draft} {first : List String}
    (hfirst : (c.lower (Line.set flag 1)).run d = (first, d')) (hl : Lowering p c.predicates d d')
    (hworded : flag.Worded) (hflag : flag ∉ d.fresh d') (hspares : Spares c.predicates {flag})
    {depth : Nat} {w w' : World} {f : Flow}
    (h : sequence (function p depth) ((Line.set flag 0 :: first).map Order.ofText) w = .ok f w') :
    f = .next ∧ World.Agree (insert flag (d.fresh d')) w w' ∧
      w'.score? flag = some (if c.holds w then 1 else 0) := by
  have hall : Spares c.predicates (insert flag (d.fresh d')) := by
    rintro q hq s hs (rfl | hm)
    · exact hspares q hq _ hs rfl
    · exact hl.spares q hq s hs hm
  obtain ⟨hnext, hagree, -, hscore⟩ := sequence_tested_ok hworded (Set.mem_insert flag _)
    (fun u v g hu hs => by
      obtain ⟨rfl, hagree, hscore⟩ := (guarded_lower c hfirst hl (Line.joined_set hworded 1)
        (fun _ _ => settles_raise hworded hflag u) hs).raise hworded hflag
      rw [hu.holds hall] at hscore
      exact ⟨rfl, hagree, hscore⟩) h
  exact ⟨hnext, hagree, hscore⟩

mutual

/-- **Lowered conditions make their tests.**  A run without a fault of the lines makes the tests
that evaluating the condition makes, and those of the flags. -/
theorem tallies_lower : ∀ (c : Condition) {run : String} {d d' : Draft} {lines : List String},
    (c.lower run).run d = (lines, d') → Lowering p c.predicates d d' →
    (Order.ofText run).Untested p (d.fresh d') → ∀ {depth : Nat} {w w' : World} {f : Flow},
      sequence (function p depth) (lines.map Order.ofText) w = .ok f w' →
      Tallies (d.fresh d') w w' (c.tests w)
  | leaf negated q, run, d, d', lines, hlower, hl, hrun, depth, w, w', f, h => by
    cases hc : q.isConstant with
    | false =>
      obtain ⟨rfl, -⟩ := Prod.mk.inj ((lower_leaf hc negated run d).symm.trans hlower)
      rw [tests, hc]
      exact tallies_leaf hc (hl.worded _ (by simp [predicates])) hrun h
    | true =>
      obtain ⟨rfl, -⟩ := Prod.mk.inj ((lower_constant hc negated run d w).symm.trans hlower)
      rw [tests, hc, if_pos rfl]
      cases htruth : (leaf negated q).holds w with
      | false =>
        rw [htruth] at h
        obtain ⟨-, rfl⟩ := sequence_nil_ok.mp h
        exact .of_same fun _ => rfl
      | true =>
        rw [htruth] at h
        exact tallies_alone hrun h
  | all negated cs, run, d, d', lines, hlower, hl, hrun, depth, w, w', f, h =>
    tallies_lowerAll negated cs hlower hl hrun h
  | any negated [], run, d, d', lines, hlower, hl, hrun, depth, w, w', f, h => by
    obtain ⟨rfl, -⟩ := Prod.mk.inj hlower
    cases negated with
    | true => exact tallies_alone hrun h
    | false =>
      obtain ⟨-, rfl⟩ := sequence_nil_ok.mp h
      exact .of_same fun _ => rfl
  | any negated (c :: cs), run, d, d', lines, hlower, hl, hrun, depth, w, w', f, h => by
    obtain ⟨tests, heach, rfl⟩ := lower_any_cases hlower
    have hor : Lettered "or" := by decide
    have hdraw := Draft.Grows.draw d (.temp "or")
    have hgrows := grows_of_lowerEach heach
    have hworded := hl.plain.worded_temp hor (d.count (.temp "or"))
    have hmem := Draft.mem_fresh_draw hor hgrows
    have hflag : _ ∉ (d.draw (.temp "or")).fresh d' := Draft.not_mem_fresh_draw hor
    have hspares : Spares (predicatesAll (c :: cs))
        {d.options.temp "or" (d.count (.temp "or"))} := by
      rintro q hq s hs rfl
      exact hl.spares q hq _ hs hmem
    have hsub := hl.sub (fun _ hq => hq) hdraw hgrows (.refl d')
    exact tallies_flagged hworded hmem hrun (fun v g hs =>
      tallies_tested (c := any negated (c :: cs)) hworded hdraw.fresh_right hspares
        (fun u g hs => tallies_lowerEach (c :: cs) heach hsub hworded hflag hspares hs) hs) h

/-- The children of a disjunction are all tested. -/
theorem tallies_lowerEach : ∀ (cs : List Condition) {flag : Score} {d d' : Draft}
    {lines : List String}, (lowerEach cs (Line.set flag 1)).run d = (lines, d') →
    Lowering p (predicatesAll cs) d d' → flag.Worded → flag ∉ d.fresh d' →
    Spares (predicatesAll cs) {flag} → ∀ {depth : Nat} {w w' : World} {f : Flow},
      sequence (function p depth) (lines.map Order.ofText) w = .ok f w' →
      Tallies (d.fresh d') w w' (testsEach w cs)
  | [], flag, d, d', lines, heach, _, _, _, _, depth, w, w', f, h => by
    obtain ⟨rfl, -⟩ := Prod.mk.inj heach
    obtain ⟨-, rfl⟩ := sequence_nil_ok.mp h
    exact .of_same fun _ => rfl
  | c :: cs, flag, d, d', lines, heach, hl, hworded, hflag, hspares, depth, w, w', f, h => by
    obtain ⟨first, d₁, rest, hfirst, hrest, rfl⟩ := lowerEach_cons_cases heach
    have hgrows := grows_of_lower hfirst
    have hgrows' := grows_of_lowerEach hrest
    have hflag₁ : flag ∉ d.fresh d₁ := fun hm => hflag (hgrows'.fresh_left hm)
    have hflag₂ : flag ∉ d₁.fresh d' := fun hm => hflag (hgrows.fresh_right hm)
    have hc : c.predicates ⊆ predicatesAll (c :: cs) := by simp [predicatesAll]
    have hcs : predicatesAll cs ⊆ predicatesAll (c :: cs) := by simp [predicatesAll]
    have hl₁ := hl.sub hc (.refl d) hgrows hgrows'
    have hl₂ := hl.sub hcs hgrows hgrows' (.refl d')
    have hhead : ∀ {v : World} {g : Flow},
        sequence (function p depth) (first.map Order.ofText) w = .ok g v → g = .next ∧
          World.Agree (insert flag (d.fresh d₁)) w v ∧ Tallies (d.fresh d') w v (c.tests w) := by
      intro v g hs
      obtain ⟨hnext, hagree, -⟩ := (guarded_lower c hfirst hl₁ (Line.joined_set hworded 1)
        (fun _ _ => settles_raise hworded hflag₁ w) hs).raise hworded hflag₁
      have htally := tallies_lower c hfirst hl₁ (Order.untested_raise hworded hflag₁) hs
      exact ⟨hnext, hagree, htally.mono hgrows'.fresh_left⟩
    rw [List.map_append] at h
    rcases sequence_append_ok.mp h with ⟨v, hs, hs'⟩ | ⟨-, hs⟩
    · obtain ⟨-, hagree, htally⟩ := hhead hs
      have hall : Spares (predicatesAll cs) (insert flag (d.fresh d₁)) := by
        rintro q hq s hqs (rfl | hm)
        · exact hspares q (hcs hq) _ hqs rfl
        · exact hl.spares q (hcs hq) s hqs (hgrows'.fresh_left hm)
      have htally' := tallies_lowerEach cs hrest hl₂ hworded hflag₂ hspares.tail hs'
      rw [hagree.testsEach hall] at htally'
      exact htally.trans (htally'.mono hgrows.fresh_right)
    · cases (hhead hs).1

/-- The children of a conjunction are tested up to the first one that fails. -/
theorem tallies_lowerAll (negated : Bool) : ∀ (cs : List Condition) {run : String} {d d' : Draft}
    {lines : List String}, (lowerAll negated cs run).run d = (lines, d') →
    Lowering p (predicatesAll cs) d d' → (Order.ofText run).Untested p (d.fresh d') →
    ∀ {depth : Nat} {w w' : World} {f : Flow},
      sequence (function p depth) (lines.map Order.ofText) w = .ok f w' →
      Tallies (d.fresh d') w w' (testsAll w cs)
  | [], run, d, d', lines, hlower, _, hrun, depth, w, w', f, h => by
    obtain ⟨rfl, -⟩ := Prod.mk.inj hlower
    cases negated with
    | false => exact tallies_alone hrun h
    | true =>
      obtain ⟨-, rfl⟩ := sequence_nil_ok.mp h
      exact .of_same fun _ => rfl
  | [c], run, d, d', lines, hlower, hl, hrun, depth, w, w', f, h => by
    obtain ⟨first, hfirst, rfl⟩ := lowerAll_single_cases hlower
    have hand : Lettered "and" := by decide
    have hdraw := Draft.Grows.draw d (.temp "and")
    have hgrows := grows_of_lower hfirst
    have hworded := hl.plain.worded_temp hand (d.count (.temp "and"))
    have hmem := Draft.mem_fresh_draw hand hgrows
    have hflag : _ ∉ (d.draw (.temp "and")).fresh d' := Draft.not_mem_fresh_draw hand
    have hspares : Spares c.predicates {d.options.temp "and" (d.count (.temp "and"))} := by
      rintro q hq s hs rfl
      exact hl.spares.head q hq _ hs hmem
    have hl₁ : Lowering p c.predicates (d.draw (.temp "and")) d' :=
      hl.sub (by simp [predicatesAll]) hdraw hgrows (.refl d')
    have htests : testsAll w [c] = c.tests w := by simp [testsAll]
    rw [htests]
    exact tallies_flagged hworded hmem hrun (fun v g hs =>
      tallies_tested hworded hdraw.fresh_right hspares
        (fun u g hs => tallies_lower c hfirst hl₁ (Order.untested_raise hworded hflag) hs) hs) h
  | c :: c' :: cs, run, d, d', lines, hlower, hl, hrun, depth, w, w', f, h => by
    obtain ⟨first, d₂, rest, d₃, hfirst, hrest, rfl, rfl⟩ := lowerAll_cons_cases hlower
    have hand : Lettered "and" := by decide
    have hdraw := Draft.Grows.draw d (.temp "and")
    have h₂ := grows_of_lower hfirst
    have h₃ := grows_of_lowerAll hrest
    have hlist : d₃.Grows [] (d₃.withList "and" rest) := .withList hand rest d₃
    have hworded := hl.plain.worded_temp hand (d.count (.temp "and"))
    have hmem := Draft.mem_fresh_draw hand (h₂.trans (h₃.trans hlist))
    have hflag : _ ∉ (d.draw (.temp "and")).fresh d₂ := Draft.not_mem_fresh_draw hand
    have hplain : d₃.options.Plain := by
      rw [h₃.options, h₂.options]
      exact hl.plain
    have hget := ((hl.holds.right (hdraw.trans h₂)).right h₃).get?_list hand
    have hsub₂ : (d.draw (.temp "and")).fresh d₂ ⊆ d.fresh (d₃.withList "and" rest) :=
      fun s hs => hdraw.fresh_right ((h₃.trans hlist).fresh_left hs)
    have hsub₃ : d₂.fresh d₃ ⊆ d.fresh (d₃.withList "and" rest) :=
      fun s hs => (hdraw.trans h₂).fresh_right (hlist.fresh_left hs)
    have hspares : Spares c.predicates {d.options.temp "and" (d.count (.temp "and"))} := by
      rintro q hq s hs rfl
      exact hl.spares.head q hq _ hs hmem
    have hl₂ : Lowering p c.predicates (d.draw (.temp "and")) d₂ :=
      hl.sub (by simp [predicatesAll]) hdraw h₂ (h₃.trans hlist)
    have hl₃ : Lowering p (predicatesAll (c' :: cs)) d₂ d₃ :=
      hl.sub (by simp [predicatesAll]) (hdraw.trans h₂) h₃ hlist
    rw [List.map_append] at h
    rcases sequence_append_ok.mp h with ⟨v, hs, hlines⟩ | ⟨-, hs⟩
    · obtain ⟨-, hv, hscore⟩ := tested_lower hfirst hl₂ hworded hflag hspares hs
      have hfirst' := tallies_tested hworded hsub₂ hspares
        (fun u g hs => tallies_lower c hfirst hl₂ (Order.untested_raise hworded hflag) hs) hs
      refine hfirst'.trans (tallies_conjunction hworded hmem (hplain.worded_list hand _) hget hrun
        (fun _ n u g hu hs => ?_) hscore hlines)
      have htally := tallies_lowerAll negated (c' :: cs) hrest hl₃ (hrun.mono hsub₃) hs
      rw [((hv.mono (Set.insert_subset hmem hsub₂)).trans hu).testsAll hl.spares.tail] at htally
      exact htally.mono hsub₃
    · cases (tested_lower hfirst hl₂ hworded hflag hspares hs).1

end

/-- **Conjunctions stop early, disjunctions do not.**  The command of a condition makes no test and
keeps the flags of the condition.  Then a run of the lines that ends without a fault makes every
test, but for those of the flags, exactly as often as evaluating the condition in the first world
does. -/
theorem lower_short_circuits {p : Program} {c : Condition} {run : String} {d d' : Draft}
    {lines : List String} {depth : Nat} {w w' : World}
    (hlower : (c.lower run).run d = (lines, d')) (hoptions : d.options.Plain)
    (hwords : ∀ q ∈ c.predicates, q.Worded)
    (hfresh : ∀ q ∈ c.predicates, ∀ s ∈ q.test.scores, s ∉ d.fresh d') (hlists : p.Holds d d')
    (huntested : (Order.ofText run).Untested p (d.fresh d'))
    (h : commands (function p depth) (lines.map Order.ofText) w = .ok () w') :
    ∀ text, ¬ FlagTest (d.fresh d') text →
      w'.evaluationsOf text = w.evaluationsOf text + (c.tests w).count text := by
  obtain ⟨f, hs⟩ := commands_ok.mp h
  exact tallies_lower c hlower ⟨hoptions, hwords, hfresh, hlists⟩ huntested hs

/-- The disjunction asks its second child too, and the conjunction there stops behind its first. -/
theorem lower_short_circuits_nested :
    let first : Condition := .leaf false (.within ⟨"$x", "o"⟩ (.exactly 1))
    let second : Condition := .leaf false (.within ⟨"$y", "o"⟩ (.exactly 2))
    let c : Condition := .any false [first, .all true [second, first]]
    let run := "say  hi"
    let r := (c.lower run).run (Draft.empty { })
    let w := (({ } : World).setScore ⟨"$x", "o"⟩ 1).setScore ⟨"$y", "o"⟩ 0
    ∃ w', commands (function r.2.pack.program 3) (r.1.map Order.ofText) w = .ok () w' ∧
      w'.evaluationsOf "score $x o matches 1..1" = 1 ∧
      w'.evaluationsOf "score $y o matches 2..2" = 1 := by
  intro first second c run r w
  have hfresh : ∀ s : Score, s.entry.toList.head? ≠ some '#' → s ∉ (Draft.empty { }).fresh r.2 :=
    fun s hs hm => hs (Draft.head?_of_mem_fresh hm)
  have hread : ∀ q ∈ c.predicates, ∀ s ∈ q.test.scores, s.entry.toList.head? ≠ some '#' := by
    decide +kernel
  have hprint : Order.ofText run = .print run := by decide +kernel
  have huntested : (Order.ofText run).Untested r.2.pack.program ((Draft.empty { }).fresh r.2) := by
    rw [hprint]
    intro n u v f hrun
    cases (command_ok.mp hrun).2
    exact ⟨fun _ => rfl, fun _ _ => rfl⟩
  have hflag : ∀ text : String, (text.toList.drop 6).head? = some '$' →
      ¬ FlagTest ((Draft.empty { }).fresh r.2) text := by
    rintro text htext ⟨s, hs, heq⟩
    have hentry := Draft.head?_of_mem_fresh hs
    obtain ⟨n, rfl⟩ : ∃ n, text = Order.amountText s n := heq.elim (fun h => ⟨0, h⟩) fun h => ⟨1, h⟩
    cases hchars : s.entry.toList with
    | nil => simp [hchars] at hentry
    | cons x xs =>
      simp [hchars] at hentry
      simp [Order.amountText, Order.join, hchars, hentry] at htext
  obtain ⟨⟨⟩, w', hrun⟩ := exists_of_succeeds (m := commands (function r.2.pack.program 3)
    (r.1.map Order.ofText)) (w := w) (by decide +kernel)
  have hlower : (c.lower run).run (Draft.empty { }) = (r.1, r.2) := rfl
  have hcount := lower_short_circuits hlower Options.plain_default (by decide +kernel)
    (fun q hq s hs => hfresh s (hread q hq s hs)) (fun _ _ => rfl) huntested hrun
  refine ⟨w', hrun, ?_, ?_⟩
  · rw [hcount _ (hflag _ (by decide))]
    decide +kernel
  · rw [hcount _ (hflag _ (by decide))]
    decide +kernel

end Condition

end Packwright
