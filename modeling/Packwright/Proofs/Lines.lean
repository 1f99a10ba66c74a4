import Packwright.Order.Line
import Packwright.Proofs.Numerals

/-!
# What the written lines order

Every line that generation writes is read back as the order that it was written for, as long as the
names in it are words.  A guard is read as a guard in front of the order of the guarded command; for
that the command has to be its words, joined by one blank, since the words are what a guard passes
on.

* `Score.Worded`, `Predicate.Worded`: the names that occur are words.
* `ofText_set`, …: the order of every kind of line.
* `readChain_run`, `passed`: the order of a command that a guard passes on.
* `ofText_guard`, `ofText_guardAmount`: the order of a guarded command.
-/

namespace Packwright

open Words

/-- The two names of a score are words. -/
structure Score.Worded (s : Score) : Prop where
  entry : IsWord s.entry
  objective : IsWord s.objective

instance (s : Score) : Decidable s.Worded :=
  decidable_of_iff (IsWord s.entry ∧ IsWord s.objective) ⟨fun h => ⟨h.1, h.2⟩, fun h => ⟨h.1, h.2⟩⟩

/-- The names in a predicate are words. -/
def Predicate.Worded : Predicate → Prop
  | .constant _ => True
  | .within s _ => s.Worded
  | .compare l _ r => l.Worded ∧ r.Worded
  | .entity selector => IsWord selector.text
  | .data path => IsWord path.target.text ∧ IsWord path.path

instance : DecidablePred Predicate.Worded
  | .constant _ => inferInstanceAs (Decidable True)
  | .within s _ => inferInstanceAs (Decidable s.Worded)
  | .compare l _ r => inferInstanceAs (Decidable (l.Worded ∧ r.Worded))
  | .entity selector => inferInstanceAs (Decidable (IsWord selector.text))
  | .data path => inferInstanceAs (Decidable (IsWord path.target.text ∧ IsWord path.path))

/-- The id is a word, and reads back as itself. -/
structure ResourceId.Worded (id : ResourceId) : Prop where
  word : IsWord id.text
  reads : ResourceId.ofText id.text = id

theorem isWord_comparison (c : Comparison) : IsWord c.text := by cases c <;> decide

/-! ## Lines as words -/

section Split

variable (e o t u v : String)

theorem players_set_split : "scoreboard players set " ++ (e ++ " " ++ o) ++ " " ++ t =
    Order.join ["scoreboard", "players", "set", e, o, t] := by
  apply String.toList_inj.mp
  simp [Order.join]

theorem players_add_split : "scoreboard players add " ++ (e ++ " " ++ o) ++ " " ++ t =
    Order.join ["scoreboard", "players", "add", e, o, t] := by
  apply String.toList_inj.mp
  simp [Order.join]

theorem players_remove_split : "scoreboard players remove " ++ (e ++ " " ++ o) ++ " " ++ t =
    Order.join ["scoreboard", "players", "remove", e, o, t] := by
  apply String.toList_inj.mp
  simp [Order.join]

theorem players_operation_split :
    "scoreboard players operation " ++ (e ++ " " ++ o) ++ " " ++ t ++ " " ++ (u ++ " " ++ v) =
      Order.join ["scoreboard", "players", "operation", e, o, t, u, v] := by
  apply String.toList_inj.mp
  simp [Order.join]

theorem objectives_add_split : "scoreboard objectives add " ++ o ++ " dummy" =
    Order.join ["scoreboard", "objectives", "add", o, "dummy"] := by
  apply String.toList_inj.mp
  simp [Order.join]

theorem function_split : "function " ++ t = Order.join ["function", t] := by
  apply String.toList_inj.mp
  simp [Order.join]

theorem execute_split : "execute " ++ u ++ " " ++ t ++ " run " ++ v =
    "execute" ++ " " ++ (u ++ " " ++ (t ++ " " ++ ("run" ++ " " ++ v))) := by
  apply String.toList_inj.mp
  simp

theorem execute_amount_split :
    "execute " ++ u ++ " score " ++ (e ++ " " ++ o) ++ " matches " ++ t ++ " run " ++ v =
      "execute " ++ u ++ " " ++ Order.join ["score", e, o, "matches", t] ++ " run " ++ v := by
  apply String.toList_inj.mp
  simp [Order.join]

theorem score_matches_split : "score " ++ (e ++ " " ++ o) ++ " matches " ++ t =
    Order.join ["score", e, o, "matches", t] := by
  apply String.toList_inj.mp
  simp [Order.join]

theorem score_compare_split : "score " ++ (e ++ " " ++ o) ++ " " ++ t ++ " " ++ (u ++ " " ++ v) =
    Order.join ["score", e, o, t, u, v] := by
  apply String.toList_inj.mp
  simp [Order.join]

theorem entity_split : "entity " ++ t = Order.join ["entity", t] := by
  apply String.toList_inj.mp
  simp [Order.join]

theorem data_split : "data " ++ ("entity " ++ t ++ " " ++ u) =
    Order.join ["data", "entity", t, u] := by
  apply String.toList_inj.mp
  simp [Order.join]

theorem fetch_split :
    "execute store result score " ++ (e ++ " " ++ o) ++ " run data get " ++
      ("entity " ++ u ++ " " ++ v) = Order.join
        ["execute", "store", "result", "score", e, o, "run", "data", "get", "entity", u, v] := by
  apply String.toList_inj.mp
  simp [Order.join]

theorem data_get_split : Order.join ["data", "get", "entity", u, v] =
    "data get " ++ ("entity " ++ u ++ " " ++ v) := by
  apply String.toList_inj.mp
  simp [Order.join]

end Split

namespace Line

theorem set_eq_join (s : Score) (n : Amount) :
    set s n = Order.join ["scoreboard", "players", "set", s.entry, s.objective, n.text] :=
  players_set_split s.entry s.objective n.text

theorem add_eq_join (s : Score) (n : Amount) :
    add s n = Order.join ["scoreboard", "players", "add", s.entry, s.objective, n.text] :=
  players_add_split s.entry s.objective n.text

theorem remove_eq_join (s : Score) (n : Amount) :
    remove s n = Order.join ["scoreboard", "players", "remove", s.entry, s.objective, n.text] :=
  players_remove_split s.entry s.objective n.text

theorem operation_eq_join (s : Score) (sign : String) (t : Score) :
    operation s sign t = Order.join
      ["scoreboard", "players", "operation", s.entry, s.objective, sign, t.entry, t.objective] :=
  players_operation_split s.entry s.objective sign t.entry t.objective

theorem addObjective_eq_join (objective : String) :
    addObjective objective = Order.join ["scoreboard", "objectives", "add", objective, "dummy"] :=
  objectives_add_split objective

theorem call_eq_join (id : ResourceId) : call id = Order.join ["function", id.text] :=
  function_split id.text

theorem fetch_eq_join (s : Score) (path : DataPath) : fetch s path = Order.join
    ["execute", "store", "result", "score", s.entry, s.objective, "run", "data", "get", "entity",
      path.target.text, path.path] :=
  fetch_split s.entry s.objective path.target.text path.path

theorem joined_set {s : Score} (hs : s.Worded) (n : Amount) : Joined (set s n) := by
  rw [set_eq_join]
  refine joined_join ?_
  simp only [List.forall_mem_cons, List.not_mem_nil, false_imp_iff, implies_true, and_true]
  exact ⟨by decide, by decide, by decide, hs.entry, hs.objective, (Word.isPlain_text n).isWord⟩

theorem joined_call {id : ResourceId} (h : id.Worded) : Joined (call id) := by
  rw [call_eq_join]
  refine joined_join ?_
  simp only [List.forall_mem_cons, List.not_mem_nil, false_imp_iff, implies_true, and_true]
  exact ⟨by decide, h.word⟩

end Line

/-! ## Predicates as words -/

namespace Predicate

/-- The words of a predicate. -/
def words : Predicate → List String
  | .constant b => [if b then "true" else "false"]
  | .within s r => ["score", s.entry, s.objective, "matches", r.text]
  | .compare l c r => ["score", l.entry, l.objective, c.text, r.entry, r.objective]
  | .entity selector => ["entity", selector.text]
  | .data path => ["data", "entity", path.target.text, path.path]

/-- What a guard with the predicate tests. -/
def test : Predicate → Test
  | .within s r => .within s r
  | .compare l c r => .compare l c r
  | _ => .ask

/-- The predicate is decided while commands are generated. -/
def isConstant : Predicate → Bool
  | .constant _ => true
  | _ => false

theorem text_eq_join : ∀ p : Predicate, p.text = Order.join p.words
  | .constant b => by cases b <;> decide
  | .within s r => score_matches_split s.entry s.objective r.text
  | .compare l c r => score_compare_split l.entry l.objective c.text r.entry r.objective
  | .entity selector => entity_split selector.text
  | .data path => data_split path.target.text path.path

theorem words_ne_nil (p : Predicate) : p.words ≠ [] := by cases p <;> simp [words]

theorem isWord_of_mem_words : ∀ {p : Predicate}, p.Worded → ∀ w ∈ p.words, IsWord w
  | .constant b, _ => by cases b <;> simp [words] <;> decide
  | .within s r, h => by
    simp only [words, List.forall_mem_cons, List.not_mem_nil, false_imp_iff, implies_true, and_true]
    exact ⟨by decide, h.entry, h.objective, by decide, r.isPlain_text.isWord⟩
  | .compare l c r, h => by
    simp only [words, List.forall_mem_cons, List.not_mem_nil, false_imp_iff, implies_true, and_true]
    exact ⟨by decide, h.1.entry, h.1.objective, isWord_comparison c, h.2.entry, h.2.objective⟩
  | .entity _, h => by
    simp only [words, List.forall_mem_cons, List.not_mem_nil, false_imp_iff, implies_true, and_true]
    exact ⟨by decide, h⟩
  | .data _, h => by
    simp only [words, List.forall_mem_cons, List.not_mem_nil, false_imp_iff, implies_true, and_true]
    exact ⟨by decide, by decide, h.1, h.2⟩

theorem comparison_ofText?_text (c : Comparison) : Comparison.ofText? c.text = some c := by
  cases c <;> decide

/-- The words of a predicate are read as its test, whatever stands behind them. -/
theorem read?_words {p : Predicate} (hp : p.isConstant = false) (rest : List String) :
    Test.read? (p.words ++ rest) = some (p.test, p.words.length) := by
  cases p with
  | constant b => simp [isConstant] at hp
  | within s r => simp [words, test, Test.read?, Range.ofText?_text]
  | compare l c r =>
    have hne : c.text ≠ "matches" := by cases c <;> decide
    simp [words, test, Test.read?, hne, comparison_ofText?_text]
  | entity selector => simp [words, test, Test.read?]
  | data path => simp [words, test, Test.read?]

end Predicate

/-! ## Lines as orders -/

namespace Order

theorem ofText_join_words {ws : List String} (h : ∀ w ∈ ws, IsWord w) :
    ofText (join ws) = read (join ws) ws := by
  rw [ofText, Words.ofText_join h]

/-- A command that changes a score by an amount. -/
theorem ofText_players {word : String} {change : Change} (hword : IsWord word)
    (hchange : Change.ofText? word = some change) {s : Score} (hs : s.Worded) (n : Amount) :
    ofText (join ["scoreboard", "players", word, s.entry, s.objective, n.text]) =
      adjust change s n := by
  have hw : ∀ w ∈ ["scoreboard", "players", word, s.entry, s.objective, n.text], IsWord w := by
    simp only [List.forall_mem_cons, List.not_mem_nil, false_imp_iff, implies_true, and_true]
    exact ⟨by decide, by decide, hword, hs.entry, hs.objective, (Word.isPlain_text n).isWord⟩
  rw [ofText_join_words hw, read, readPlayers]
  simp only [hchange, Word.parse?_text]

theorem ofText_set {s : Score} (hs : s.Worded) (n : Amount) :
    ofText (Line.set s n) = adjust .set s n := by
  rw [Line.set_eq_join]
  exact ofText_players (by decide) rfl hs n

theorem ofText_add {s : Score} (hs : s.Worded) (n : Amount) :
    ofText (Line.add s n) = adjust .add s n := by
  rw [Line.add_eq_join]
  exact ofText_players (by decide) rfl hs n

theorem ofText_remove {s : Score} (hs : s.Worded) (n : Amount) :
    ofText (Line.remove s n) = adjust .remove s n := by
  rw [Line.remove_eq_join]
  exact ofText_players (by decide) rfl hs n

theorem ofText_operation {s t : Score} (hs : s.Worded) (ht : t.Worded) {sign : String}
    (hsign : IsWord sign) {c : Combination} (hc : Combination.ofText? sign = some c) :
    ofText (Line.operation s sign t) = combine s c t := by
  have hw : ∀ w ∈ ["scoreboard", "players", "operation", s.entry, s.objective, sign, t.entry,
      t.objective], IsWord w := by
    simp only [List.forall_mem_cons, List.not_mem_nil, false_imp_iff, implies_true, and_true]
    exact ⟨by decide, by decide, by decide, hs.entry, hs.objective, hsign, ht.entry, ht.objective⟩
  rw [Line.operation_eq_join, ofText_join_words hw, read, readPlayers]
  simp only [hc]

theorem ofText_addObjective {objective : String} (h : IsWord objective) :
    ofText (Line.addObjective objective) = nothing := by
  have hw : ∀ w ∈ ["scoreboard", "objectives", "add", objective, "dummy"], IsWord w := by
    simp only [List.forall_mem_cons, List.not_mem_nil, false_imp_iff, implies_true, and_true]
    exact ⟨by decide, by decide, by decide, h, by decide⟩
  rw [Line.addObjective_eq_join, ofText_join_words hw, read]

theorem ofText_call {id : ResourceId} (h : id.Worded) : ofText (Line.call id) = call id := by
  have hw : ∀ w ∈ ["function", id.text], IsWord w := by
    simp only [List.forall_mem_cons, List.not_mem_nil, false_imp_iff, implies_true, and_true]
    exact ⟨by decide, h.word⟩
  rw [Line.call_eq_join, ofText_join_words hw, read, h.reads]

/-- A command that puts an answer into a score. -/
theorem ofText_fetch {s : Score} (hs : s.Worded) {path : DataPath}
    (hpath : (Predicate.data path).Worded) : ofText (Line.fetch s path) = fetch s path.text := by
  have hw : ∀ w ∈ ["execute", "store", "result", "score", s.entry, s.objective, "run", "data",
      "get", "entity", path.target.text, path.path], IsWord w := by
    simp only [List.forall_mem_cons, List.not_mem_nil, false_imp_iff, implies_true, and_true]
    exact ⟨by decide, by decide, by decide, by decide, hs.entry, hs.objective, by decide, by decide,
      by decide, by decide, hpath.1, hpath.2⟩
  have hanswer : Text.after? "data get ".toList
      (join ["data", "get", "entity", path.target.text, path.path]).toList =
        some path.text.toList := by
    rw [data_get_split, String.toList_append, after?_append]
    rfl
  have hchain : ∀ line, readChain line (some s)
      ["run", "data", "get", "entity", path.target.text, path.path] = fetch s path.text := by
    intro line
    rw [readChain.eq_def]
    simp only [String.reduceEq, decide_false, Bool.or_self, Bool.false_eq_true, if_false, if_true,
      hanswer, String.ofList_toList]
  rw [Line.fetch_eq_join, ofText_join_words hw, read, readChain.eq_def]
  simp only [String.reduceEq, decide_false, Bool.or_self, Bool.false_eq_true, if_false, if_true]
  exact hchain _

theorem ofText_leave : ofText Line.leave = leave := by
  have hw : ∀ w ∈ ["return", "0"], IsWord w := by decide
  have hline : Line.leave = join ["return", "0"] := by decide
  rw [hline, ofText_join_words hw, read]

/-! ### Guards -/

/-- The keyword in front of a test. -/
def keyword (negated : Bool) : String := if negated then "unless" else "if"

theorem isWord_keyword (negated : Bool) : IsWord (keyword negated) := by cases negated <;> decide

theorem words_execute (negated : Bool) {ws : List String} (hne : ws ≠ []) (hws : ∀ w ∈ ws, IsWord w)
    (run : String) :
    Words.ofText ("execute " ++ keyword negated ++ " " ++ join ws ++ " run " ++ run) =
      "execute" :: keyword negated :: (ws ++ "run" :: Words.ofText run) := by
  have hrun : Words.ofText ("run" ++ " " ++ run) = "run" :: Words.ofText run :=
    ofText_word_append (by decide) run
  rw [execute_split, ofText_word_append (by decide), ofText_word_append (isWord_keyword negated),
    ofText_join_append hne hws, hrun]

/-- **The command behind a chain**: the words that are left are joined, and the joined text is
carried out as a command of its own.  It is not split again, since that gives the same words. -/
theorem readChain_run (line s : String) (n : Nat) :
    readChain line none ("run" :: (Words.ofText s).drop n) =
      Order.run (ofText (join ((Words.ofText s).drop n))) := by
  rw [readChain.eq_def, ofText, ofText_join_drop]
  simp only [String.reduceEq, decide_false, Bool.or_self, Bool.false_eq_true, if_false, if_true]

/-- The order of a command that a guard passes on: its words count, not the blanks between them. -/
def passed (run : String) : Order := ofText (join (Words.ofText run))

theorem passed_eq_read (run : String) :
    passed run = read (join (Words.ofText run)) (Words.ofText run) := by
  rw [passed, ofText, ofText_join_ofText]

theorem passed_of_joined {run : String} (hr : Joined run) : passed run = ofText run := by
  rw [passed, hr]

/-- The chain of one test and a command, as it is read. -/
theorem read_execute (line : String) (negated : Bool) {ws : List String} {t : Test}
    (ht : ∀ rest, Test.read? (ws ++ rest) = some (t, ws.length)) (run : String) :
    read line ("execute" :: keyword negated :: (ws ++ "run" :: Words.ofText run)) =
      guard (!negated) t (join ws) (Order.run (passed run)) := by
  have htail := readChain_run line run 0
  rw [List.drop_zero] at htail
  have hkey : (keyword negated = "if") = (!negated) := by cases negated <;> decide
  have hchain : readChain line none (keyword negated :: (ws ++ "run" :: Words.ofText run)) =
      guard (!negated) t (join ws) (Order.run (passed run)) := by
    have hif : (keyword negated = "if" || keyword negated = "unless") = true := by
      cases negated <;> decide
    rw [readChain.eq_def]
    simp only [hif, if_true, ht, List.take_left, List.drop_left, htail]
    simp only [hkey, Bool.decide_eq_true, passed]
  rw [read, hchain]

theorem ofText_guard_passed {p : Predicate} (hc : p.isConstant = false) (hp : p.Worded)
    (run : String) (negated : Bool) :
    ofText (Line.guard negated p run) =
      guard (!negated) p.test p.text (Order.run (passed run)) := by
  have hline : Line.guard negated p run =
      "execute " ++ keyword negated ++ " " ++ join p.words ++ " run " ++ run := by
    rw [Line.guard, p.text_eq_join]
    rfl
  rw [ofText, hline, words_execute negated p.words_ne_nil (Predicate.isWord_of_mem_words hp),
    read_execute _ negated (Predicate.read?_words hc), p.text_eq_join]

/-- **Guarded commands**: a guard in front of a joined command is read as a guard in front of the
order of the command. -/
theorem ofText_guard {p : Predicate} (hc : p.isConstant = false) (hp : p.Worded) {run : String}
    (hr : Joined run) (negated : Bool) :
    ofText (Line.guard negated p run) =
      guard (!negated) p.test p.text (Order.run (ofText run)) := by
  rw [ofText_guard_passed hc hp, passed_of_joined hr]

/-- The text by which the test of an amount is counted. -/
def amountText (s : Score) (n : Amount) : String :=
  join ["score", s.entry, s.objective, "matches", n.text]

theorem ofText_guardAmount_passed {s : Score} (hs : s.Worded) (n : Amount) (run : String)
    (negated : Bool) :
    ofText (Line.guardAmount negated s n run) =
      guard (!negated) (.within s (.exactly n)) (amountText s n) (Order.run (passed run)) := by
  have hw : ∀ w ∈ ["score", s.entry, s.objective, "matches", n.text], IsWord w := by
    simp only [List.forall_mem_cons, List.not_mem_nil, false_imp_iff, implies_true, and_true]
    exact ⟨by decide, hs.entry, hs.objective, by decide, (Word.isPlain_text n).isWord⟩
  have hread : ∀ rest, Test.read? (["score", s.entry, s.objective, "matches", n.text] ++ rest) =
      some (.within s (.exactly n), 5) := by
    intro rest
    simp [Test.read?, Range.ofText?_amount]
  have hline : Line.guardAmount negated s n run = "execute " ++ keyword negated ++ " " ++
      join ["score", s.entry, s.objective, "matches", n.text] ++ " run " ++ run :=
    execute_amount_split s.entry s.objective n.text (keyword negated) run
  rw [ofText, hline, words_execute negated (by simp) hw, read_execute _ negated hread]
  rfl

theorem ofText_guardAmount {s : Score} (hs : s.Worded) (n : Amount) {run : String} (hr : Joined run)
    (negated : Bool) :
    ofText (Line.guardAmount negated s n run) =
      guard (!negated) (.within s (.exactly n)) (amountText s n) (Order.run (ofText run)) := by
  rw [ofText_guardAmount_passed hs, passed_of_joined hr]

end Order

end Packwright
