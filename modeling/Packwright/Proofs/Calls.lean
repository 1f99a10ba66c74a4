import Packwright.Proofs.Cleanup
import Packwright.Proofs.Lines

/-!
# The calls that a line shows

The cleanup of a pack finds the list that a line calls in the text of the line, the machine finds it
among the words of the command.  For lines of plain words the two are the same.

* `lastRun`: the words behind the last `run` inside a line.
* `invoked?_join`: the list that the text calls, by its words.
* `Line.Clear T line`: the line is made of plain words, and its text shows the list of `T` that it
  calls.  Every line that generation writes for the core of the language is such.
-/

namespace Packwright

open Words

/-! ## Words in a text -/

theorem eq_append_of_after? : ∀ {start s rest : List Char}, Text.after? start s = some rest →
    s = start ++ rest
  | [], _, _, h => by
    obtain rfl := Option.some.inj h
    rfl
  | _ :: _, [], _, h => by cases h
  | a :: start, b :: s, rest, h => by
    rw [Text.after?] at h
    split at h
    · rename_i hab
      rw [hab, List.cons_append, eq_append_of_after? h]
    · cases h

/-- A text that begins with a word and a blank begins with them exactly if the word is its first. -/
theorem after?_word : ∀ {u v : List Char}, ' ' ∉ u → ' ' ∉ v → ∀ r,
    Text.after? (u ++ [' ']) (v ++ ' ' :: r) = if u = v then some r else none
  | [], [], _, _, r => by simp [Text.after?]
  | [], c :: v, _, hv, r => by
    have hc : ' ' ≠ c := fun h => hv (by rw [← h]; simp)
    simp [Text.after?, hc]
  | a :: u, [], hu, _, r => by
    have ha : a ≠ ' ' := fun h => hu (by simp [h])
    simp [Text.after?, ha]
  | a :: u, c :: v, hu, hv, r => by
    have hu' : ' ' ∉ u := fun h => hu (by simp [h])
    have hv' : ' ' ∉ v := fun h => hv (by simp [h])
    rw [List.cons_append, List.cons_append, Text.after?, after?_word hu' hv' r]
    by_cases hac : a = c
    · simp [hac]
    · simp [hac]

theorem after?_word_end {u v : List Char} (hv : ' ' ∉ v) : Text.after? (u ++ [' ']) v = none := by
  cases h : Text.after? (u ++ [' ']) v with
  | none => rfl
  | some r =>
    rw [eq_append_of_after? h] at hv
    simp at hv

/-- What stands behind the last separator does not depend on a word in front. -/
theorem splitLast_append {sep : List Char} (rest : List Char) :
    ∀ {cs : List Char}, ' ' ∉ cs → (Text.splitLast (' ' :: sep) (cs ++ rest)).map Prod.snd =
      (Text.splitLast (' ' :: sep) rest).map Prod.snd
  | [], _ => rfl
  | c :: cs, h => by
    have hc : ' ' ≠ c := fun hc => h (by rw [← hc]; simp)
    have hcs : ' ' ∉ cs := fun hcs => h (by simp [hcs])
    rw [← splitLast_append rest hcs, List.cons_append, Text.splitLast]
    cases Text.splitLast (' ' :: sep) (cs ++ rest) with
    | none => simp [Text.after?, hc]
    | some lr => rfl

/-- The words behind the last `run` that stands between two words. -/
def lastRun : List String → Option (List String)
  | [] => none
  | [_] => none
  | _ :: b :: ws =>
    match lastRun (b :: ws) with
    | some r => some r
    | none => if b = "run" ∧ ws ≠ [] then some ws else none

theorem blank_not_mem {s : String} (h : IsPlain s) : ' ' ∉ s.toList := by
  intro hc
  have := h.2 ' ' hc
  revert this
  decide

theorem toList_join_cons_cons (a b : String) (ws : List String) :
    (Order.join (a :: b :: ws)).toList = a.toList ++ ' ' :: (Order.join (b :: ws)).toList := by
  rw [join_cons_cons]
  simp

theorem toList_join_singleton (a : String) : (Order.join [a]).toList = a.toList := by
  simp [Order.join]

theorem after?_join {a : String} (word : String) (hword : ' ' ∉ word.toList)
    (ws : List String) (h : IsPlain a) :
    Text.after? (word.toList ++ [' ']) (Order.join (a :: ws)).toList =
      if a = word ∧ ws ≠ [] then some (Order.join ws).toList else none := by
  cases ws with
  | nil => rw [toList_join_singleton, after?_word_end (blank_not_mem h), if_neg (by simp)]
  | cons b ws =>
    rw [toList_join_cons_cons, after?_word hword (blank_not_mem h)]
    by_cases ha : a = word
    · simp [ha]
    · have hne : word.toList ≠ a.toList := fun he => ha (String.toList_inj.mp he.symm)
      rw [if_neg hne, if_neg fun hand => ha hand.1]

theorem splitLast_join : ∀ {ws : List String}, ws ≠ [] → (∀ w ∈ ws, IsPlain w) →
    (Text.splitLast " run ".toList (Order.join ws).toList).map Prod.snd =
      (lastRun ws).map fun r => (Order.join r).toList
  | [], h, _ => absurd rfl h
  | [a], _, h => by
    have hsep : " run ".toList = ' ' :: ['r', 'u', 'n', ' '] := rfl
    rw [toList_join_singleton, hsep, ← List.append_nil a.toList,
      splitLast_append [] (blank_not_mem (h a (by simp)))]
    rfl
  | a :: b :: ws, _, h => by
    have ih := splitLast_join (List.cons_ne_nil b ws) fun w hw => h w (by simp [hw])
    have hsep : " run ".toList = ' ' :: ("run".toList ++ [' ']) := rfl
    rw [hsep] at ih ⊢
    rw [toList_join_cons_cons, splitLast_append _ (blank_not_mem (h a (by simp))), Text.splitLast,
      lastRun]
    cases hl : lastRun (b :: ws) with
    | some r =>
      rw [hl] at ih
      obtain ⟨⟨l, r'⟩, hsplit, hr⟩ := Option.map_eq_some_iff.mp ih
      rw [hsplit]
      exact congrArg some hr
    | none =>
      rw [hl, Option.map_none, Option.map_eq_none_iff] at ih
      rw [ih]
      have hafter := after?_join "run" (by decide) ws (h b (by simp))
      simp only [Text.after?, if_true, hafter]
      split <;> rfl

/-- The words that a line ends with: those behind the last `run`, or all. -/
def lastAction (ws : List String) : List String := (lastRun ws).getD ws

/-- The list that the words of a command call. -/
def wordsCalled? : List String → Option ResourceId
  | "function" :: id :: ws =>
    some (.ofText (String.ofList (Text.trim (Order.join (id :: ws)).toList)))
  | _ => none

theorem lastRun_eq_some : ∀ {ws r : List String}, lastRun ws = some r → r ≠ [] ∧ r ⊆ ws
  | [], _, h => by cases h
  | [_], _, h => by cases h
  | a :: b :: ws, r, h => by
    rw [lastRun] at h
    cases hl : lastRun (b :: ws) with
    | some r' =>
      rw [hl] at h
      obtain rfl := Option.some.inj h
      obtain ⟨hne, hsub⟩ := lastRun_eq_some hl
      exact ⟨hne, fun w hw => List.mem_cons_of_mem a (hsub hw)⟩
    | none =>
      simp only [hl] at h
      split at h
      · rename_i hrun
        obtain rfl := Option.some.inj h
        exact ⟨hrun.2, fun w hw => by simp [hw]⟩
      · cases h

theorem lastAction_spec {ws : List String} (hne : ws ≠ []) : lastAction ws ≠ [] ∧
    lastAction ws ⊆ ws := by
  unfold lastAction
  cases h : lastRun ws with
  | none => exact ⟨hne, fun _ hw => hw⟩
  | some r => exact lastRun_eq_some h

theorem after?_function {ws : List String} (hne : ws ≠ []) (hws : ∀ w ∈ ws, IsPlain w) :
    (Text.after? "function ".toList (Order.join ws).toList).map
      (fun id => ResourceId.ofText (String.ofList (Text.trim id))) = wordsCalled? ws := by
  obtain ⟨a, ws, rfl⟩ := List.exists_cons_of_ne_nil hne
  have hafter := after?_join "function" (by decide) ws (hws a (by simp))
  have hsep : "function ".toList = "function".toList ++ [' '] := rfl
  rw [hsep, hafter]
  by_cases ha : a = "function"
  · subst ha
    cases ws with
    | nil => rfl
    | cons id ws => simp [wordsCalled?]
  · rw [if_neg fun hand => ha hand.1]
    cases ws <;> simp [wordsCalled?, ha]

theorem invoked?_join {ws : List String} (hne : ws ≠ []) (hws : ∀ w ∈ ws, IsPlain w) :
    invoked? (Order.join ws) = wordsCalled? (lastAction ws) := by
  have hsplit := splitLast_join hne hws
  obtain ⟨hne', hsub⟩ := lastAction_spec hne
  rw [← after?_function hne' fun w hw => hws w (hsub hw)]
  unfold invoked? lastAction
  cases h : lastRun ws with
  | none =>
    rw [h, Option.map_none, Option.map_eq_none_iff] at hsplit
    rw [hsplit]
    rfl
  | some r =>
    rw [h] at hsplit
    obtain ⟨⟨l, r'⟩, hlr, hr⟩ := Option.map_eq_some_iff.mp hsplit
    rw [hlr]
    simp only [Option.getD_some, ← hr]

/-- Behind a `run` inside a line, the line ends as the command behind it does. -/
theorem lastAction_run {ws : List String} (hws : ws ≠ []) (hrun : ws.head? ≠ some "run") :
    ∀ {start : List String}, start ≠ [] → lastAction (start ++ "run" :: ws) = lastAction ws := by
  obtain ⟨b, ws, rfl⟩ := List.exists_cons_of_ne_nil hws
  have hb : b ≠ "run" := by simpa using hrun
  have hinner : lastRun ("run" :: b :: ws) = lastRun (b :: ws) := by
    rw [lastRun]
    cases lastRun (b :: ws) with
    | none => simp [hb]
    | some r => rfl
  have hlast : ∀ {start : List String}, start ≠ [] →
      lastRun (start ++ "run" :: b :: ws) = some (lastAction (b :: ws)) := by
    intro start hstart
    induction start with
    | nil => exact absurd rfl hstart
    | cons a start ih =>
      cases start with
      | nil =>
        rw [List.cons_append, List.nil_append, lastRun, hinner, lastAction]
        cases lastRun (b :: ws) with
        | none => simp
        | some r => rfl
      | cons c start =>
        have := ih (List.cons_ne_nil c start)
        rw [List.cons_append] at this
        rw [List.cons_append, List.cons_append, lastRun, this]
  intro start hstart
  rw [lastAction, hlast hstart, Option.getD_some]

/-- Nowhere among the words does `run` stand in front of `function`. -/
def CallFree : List String → Prop
  | a :: b :: ws => ¬(a = "run" ∧ b = "function") ∧ CallFree (b :: ws)
  | _ => True

theorem head?_lastRun : ∀ {ws r : List String}, CallFree ws → lastRun ws = some r →
    r.head? ≠ some "function"
  | [], _, _, h => by cases h
  | [_], _, _, h => by cases h
  | a :: b :: ws, r, hfree, h => by
    rw [lastRun] at h
    cases hl : lastRun (b :: ws) with
    | some r' =>
      rw [hl] at h
      obtain rfl := Option.some.inj h
      exact head?_lastRun hfree.2 hl
    | none =>
      simp only [hl] at h
      split at h
      · rename_i hrun
        obtain rfl := Option.some.inj h
        obtain ⟨c, ws, rfl⟩ := List.exists_cons_of_ne_nil hrun.2
        intro hc
        exact hfree.2.1 ⟨hrun.1, by simpa using hc⟩
      · cases h

theorem wordsCalled?_lastAction {ws : List String} (hhead : ws.head? ≠ some "function")
    (hfree : CallFree ws) : wordsCalled? (lastAction ws) = none := by
  have hlast : (lastAction ws).head? ≠ some "function" := by
    unfold lastAction
    cases h : lastRun ws with
    | none => exact hhead
    | some r => exact head?_lastRun hfree h
  cases ha : lastAction ws with
  | nil => rfl
  | cons a as =>
    rw [ha] at hlast
    cases as with
    | nil => simp [wordsCalled?]
    | cons b bs =>
      have hne : a ≠ "function" := by simpa using hlast
      simp [wordsCalled?, hne]

theorem dropWhile_isBlank {cs : List Char} (h : ∀ c ∈ cs, isInner c = true) :
    cs.dropWhile Text.isBlank = cs := by
  cases cs with
  | nil => rfl
  | cons c cs =>
    have hc := h c (by simp)
    have hblank : Text.isBlank c = false := by
      simp only [isInner, Bool.and_eq_true, Bool.not_eq_true'] at hc
      exact hc.1
    rw [List.dropWhile_cons_of_neg (by simp [hblank])]

theorem trim_toList {s : String} (h : IsPlain s) : Text.trim s.toList = s.toList := by
  rw [Text.trim, dropWhile_isBlank h.2, dropWhile_isBlank fun c hc => h.2 c (by simpa using hc),
    List.reverse_reverse]

theorem join_append {as bs : List String} (ha : as ≠ []) (hb : bs ≠ []) :
    Order.join (as ++ bs) = Order.join as ++ " " ++ Order.join bs := by
  obtain ⟨b, bs, rfl⟩ := List.exists_cons_of_ne_nil hb
  induction as with
  | nil => exact absurd rfl ha
  | cons a as ih =>
    cases as with
    | nil => exact join_cons_cons a b bs
    | cons a' as =>
      have := ih (List.cons_ne_nil a' as)
      rw [List.cons_append] at this
      rw [List.cons_append, List.cons_append, join_cons_cons, this, join_cons_cons]
      simp only [String.append_assoc]

/-! ## Clear lines -/

/-- The names of a score are plain words, and its entry is no keyword. -/
structure Score.Plain (s : Score) : Prop where
  entry : IsPlain s.entry
  objective : IsPlain s.objective
  mark : s.entry ≠ "run"

theorem Score.Plain.worded {s : Score} (h : s.Plain) : s.Worded :=
  ⟨h.entry.isWord, h.objective.isWord⟩

/-- The predicate tests scores with plain names, or nothing. -/
def Predicate.Plain : Predicate → Prop
  | .constant _ => True
  | .within s _ => s.Plain
  | .compare l _ r => l.Plain ∧ r.Plain
  | .entity _ | .data _ => False

theorem Predicate.Plain.worded : ∀ {p : Predicate}, p.Plain → p.Worded
  | .constant _, _ => trivial
  | .within _ _, h => Score.Plain.worded h
  | .compare _ _ _, h => ⟨h.1.worded, h.2.worded⟩

theorem Predicate.Plain.isPlain : ∀ {p : Predicate}, p.Plain → ∀ w ∈ p.words, IsPlain w
  | .constant b, _ => by cases b <;> simp [words] <;> decide
  | .within s r, h => by
    simp only [words, List.forall_mem_cons, List.not_mem_nil, false_imp_iff, implies_true, and_true]
    exact ⟨by decide, h.entry, h.objective, by decide, r.isPlain_text⟩
  | .compare l c r, h => by
    have hc : IsPlain c.text := by cases c <;> decide
    simp only [words, List.forall_mem_cons, List.not_mem_nil, false_imp_iff, implies_true, and_true]
    exact ⟨by decide, h.1.entry, h.1.objective, hc, h.2.entry, h.2.objective⟩

theorem Line.say_eq_join (text : String) : "say " ++ text = Order.join ["say", text] := by
  apply String.toList_inj.mp
  simp [Order.join]

theorem Order.ofText_say {text : String} (h : IsPlain text) :
    Order.ofText ("say " ++ text) = .print ("say " ++ text) := by
  have hws : ∀ w ∈ ["say", text], IsWord w := by
    simp only [List.forall_mem_cons, List.not_mem_nil, false_imp_iff, implies_true, and_true]
    exact ⟨by decide, h.isWord⟩
  rw [Line.say_eq_join, Order.ofText_join_words hws]
  simp [Order.read]

namespace Line

/-- The line is made of plain words, and its text shows the list of `T` that it calls. -/
structure Clear (T : Set ResourceId) (line : String) : Prop where
  words : ∃ ws, line = Order.join ws ∧ ws ≠ [] ∧ (∀ w ∈ ws, IsPlain w) ∧ ws.head? ≠ some "run"
  invoked : invoked? line = (Order.ofText line).target?
  target : ∀ t, (Order.ofText line).target? = some t → t ∈ T

namespace Clear

variable {T T' : Set ResourceId} {line : String}

theorem joined (h : Clear T line) : Joined line := by
  obtain ⟨ws, rfl, -, hws, -⟩ := h.words
  exact joined_join fun w hw => (hws w hw).isWord

theorem mono (h : Clear T line) (hT : T ⊆ T') : Clear T' line :=
  ⟨h.words, h.invoked, fun t ht => hT (h.target t ht)⟩

/-- A line that calls nothing. -/
theorem of_words {a : String} {ws : List String} (hws : ∀ w ∈ a :: ws, IsPlain w)
    (hrun : a ≠ "run") (hfunction : a ≠ "function") (hfree : CallFree (a :: ws))
    (htarget : (Order.ofText (Order.join (a :: ws))).target? = none) :
    Clear T (Order.join (a :: ws)) := by
  have hne := List.cons_ne_nil a ws
  refine ⟨⟨a :: ws, rfl, hne, hws, by simpa using hrun⟩, ?_, ?_⟩
  · rw [invoked?_join hne hws, wordsCalled?_lastAction (by simpa using hfunction) hfree, htarget]
  · intro t ht
    rw [htarget] at ht
    cases ht

theorem text_ne_function (n : Amount) : n.text ≠ "function" := by
  intro h
  have hread := Word.parse?_text n
  have hnone : Word.parse? .int "function".toList = none := by decide
  rw [h, hnone] at hread
  cases hread

/-- A line that changes a score by an amount. -/
theorem players {word : String} (hword : IsPlain word) {s : Score} (hs : s.Plain) {n : Amount}
    (htarget : (Order.ofText (Order.join
      ["scoreboard", "players", word, s.entry, s.objective, n.text])).target? = none)
    (hrun : word ≠ "run") : Clear T (Order.join
      ["scoreboard", "players", word, s.entry, s.objective, n.text]) := by
  refine of_words ?_ (by decide) (by decide) ?_ htarget
  · simp only [List.forall_mem_cons, List.not_mem_nil, false_imp_iff, implies_true, and_true]
    exact ⟨by decide, by decide, hword, hs.entry, hs.objective, Word.isPlain_text n⟩
  · simp [CallFree, hrun, hs.mark, text_ne_function n]

theorem set {s : Score} (hs : s.Plain) (n : Amount) : Clear T (Line.set s n) := by
  have horder := Order.ofText_set hs.worded n
  rw [set_eq_join] at horder ⊢
  exact players (by decide) hs (by rw [horder]; rfl) (by decide)

theorem add {s : Score} (hs : s.Plain) (n : Amount) : Clear T (Line.add s n) := by
  have horder := Order.ofText_add hs.worded n
  rw [add_eq_join] at horder ⊢
  exact players (by decide) hs (by rw [horder]; rfl) (by decide)

theorem remove {s : Score} (hs : s.Plain) (n : Amount) : Clear T (Line.remove s n) := by
  have horder := Order.ofText_remove hs.worded n
  rw [remove_eq_join] at horder ⊢
  exact players (by decide) hs (by rw [horder]; rfl) (by decide)

theorem operation {s t : Score} (hs : s.Plain) (ht : t.Plain) {sign : String}
    (hsign : IsPlain sign) {c : Combination} (hc : Combination.ofText? sign = some c) :
    Clear T (Line.operation s sign t) := by
  have horder := Order.ofText_operation hs.worded ht.worded hsign.isWord hc
  have hrun : sign ≠ "run" := by
    rintro rfl
    cases hc
  have hfunction : sign ≠ "function" := by
    rintro rfl
    cases hc
  rw [operation_eq_join] at horder ⊢
  refine of_words ?_ (by decide) (by decide) ?_ (by rw [horder]; rfl)
  · simp only [List.forall_mem_cons, List.not_mem_nil, false_imp_iff, implies_true, and_true]
    exact ⟨by decide, by decide, by decide, hs.entry, hs.objective, hsign, ht.entry, ht.objective⟩
  · simp [CallFree, hrun, hfunction, hs.mark, ht.mark]

theorem say {text : String} (h : IsPlain text) : Clear T ("say " ++ text) := by
  have horder := Order.ofText_say h
  rw [say_eq_join] at horder ⊢
  refine of_words ?_ (by decide) (by decide) (by simp [CallFree]) (by rw [horder]; rfl)
  simp only [List.forall_mem_cons, List.not_mem_nil, false_imp_iff, implies_true, and_true]
  exact ⟨by decide, h⟩

theorem addObjective {objective : String} (h : IsPlain objective) :
    Clear T (Line.addObjective objective) := by
  have horder := Order.ofText_addObjective h.isWord
  rw [addObjective_eq_join] at horder ⊢
  refine of_words ?_ (by decide) (by decide) (by simp [CallFree]) (by rw [horder]; rfl)
  simp only [List.forall_mem_cons, List.not_mem_nil, false_imp_iff, implies_true, and_true]
  exact ⟨by decide, by decide, by decide, h, by decide⟩

theorem call {id : ResourceId} (hid : id.Worded) (hplain : IsPlain id.text) (h : id ∈ T) :
    Clear T (Line.call id) := by
  have horder := Order.ofText_call hid
  have hws : ∀ w ∈ ["function", id.text], IsPlain w := by
    simp only [List.forall_mem_cons, List.not_mem_nil, false_imp_iff, implies_true, and_true]
    exact ⟨by decide, hplain⟩
  refine ⟨⟨_, call_eq_join id, List.cons_ne_nil _ _, hws, by simp⟩, ?_, ?_⟩
  · have hjoin : Order.join [id.text] = id.text := String.toList_inj.mp (toList_join_singleton _)
    have hlast : lastAction ["function", id.text] = ["function", id.text] := by
      simp [lastAction, lastRun]
    rw [horder, call_eq_join, invoked?_join (List.cons_ne_nil _ _) hws, hlast]
    show some (ResourceId.ofText _) = some id
    rw [hjoin, trim_toList hplain, String.ofList_toList, hid.reads]
  · intro t ht
    rw [horder] at ht
    obtain rfl := Option.some.inj ht
    exact h

/-- A guard in front of a clear line. -/
theorem guarded (h : Clear T line) {negated : Bool} {ws : List String} (hne : ws ≠ [])
    (hws : ∀ w ∈ ws, IsPlain w) {t : Test} {text guard : String}
    (hguard : guard =
      "execute " ++ Order.keyword negated ++ " " ++ Order.join ws ++ " run " ++ line)
    (horder : Order.ofText guard = .guard (!negated) t text (.run (Order.ofText line))) :
    Clear T guard := by
  obtain ⟨rs, hline, hrs, hplain, hhead⟩ := h.words
  have hkey : IsPlain (Order.keyword negated) := by cases negated <;> decide
  have hjoin : guard = Order.join (("execute" :: Order.keyword negated :: ws) ++ "run" :: rs) := by
    rw [hguard, execute_split, join_append (List.cons_ne_nil _ _) (List.cons_ne_nil _ _)]
    obtain ⟨a, ws, rfl⟩ := List.exists_cons_of_ne_nil hne
    obtain ⟨r, rs, rfl⟩ := List.exists_cons_of_ne_nil hrs
    rw [join_cons_cons, join_cons_cons, join_cons_cons, ← hline]
    simp only [String.append_assoc]
  have hall : ∀ w ∈ ("execute" :: Order.keyword negated :: ws) ++ "run" :: rs, IsPlain w := by
    intro w hw
    rcases List.mem_append.mp hw with hw | hw
    · rcases List.mem_cons.mp hw with rfl | hw
      · decide
      · rcases List.mem_cons.mp hw with rfl | hw
        · exact hkey
        · exact hws w hw
    · rcases List.mem_cons.mp hw with rfl | hw
      · decide
      · exact hplain w hw
  have htarget : (Order.ofText guard).target? = (Order.ofText line).target? := by
    rw [horder]
    rfl
  refine ⟨⟨_, hjoin, by simp, hall, by simp⟩, ?_, ?_⟩
  · rw [htarget, ← h.invoked, hjoin, invoked?_join (by simp) hall,
      lastAction_run hrs hhead (List.cons_ne_nil _ _), hline, invoked?_join hrs hplain]
  · rw [htarget]
    exact h.target

theorem guard (h : Clear T line) (negated : Bool) {p : Predicate} (hc : p.isConstant = false)
    (hp : p.Plain) : Clear T (Line.guard negated p line) := by
  refine guarded h p.words_ne_nil hp.isPlain ?_ (Order.ofText_guard hc hp.worded h.joined negated)
  rw [Line.guard, p.text_eq_join]
  rfl

theorem guardAmount (h : Clear T line) (negated : Bool) {s : Score} (hs : s.Plain) (n : Amount) :
    Clear T (Line.guardAmount negated s n line) := by
  refine guarded h (List.cons_ne_nil _ _) ?_
    (execute_amount_split s.entry s.objective n.text (Order.keyword negated) line)
    (Order.ofText_guardAmount hs.worded n h.joined negated)
  simp only [List.forall_mem_cons, List.not_mem_nil, false_imp_iff, implies_true, and_true]
  exact ⟨by decide, hs.entry, hs.objective, by decide, Word.isPlain_text n⟩

end Clear

end Line

end Packwright
