import Packwright.Order.Basic
import Mathlib.Data.List.Basic

/-!
# Texts that are one word

`IsWord s`: the reader of commands takes `s` for one word wherever it stands, in front of a blank or
at the end of a line.  Brackets and quotes are closed in it, so nothing behind it is drawn into it.

* `ofText_word_append`: a word in front of a text is the first of its words.
* `ofText_join`: words joined by one blank are the words of the text.
* `ofText_join_drop`: the words of a text from some word on, joined by one blank, are split into the
  same words again, though the last of them may be left open.
* `fields`: the runs of a text between blanks that stand in no brackets and in no quotes.
* `IsPlain`: a text of letters, digits and the like, which always is a word.
-/

namespace Packwright.Words

/-- The place behind several characters. -/
def Place.after (p : Place) (cs : List Char) : Place := cs.foldl Place.next p

/-- No character ends the word that is being read. -/
def Place.unbroken : Place → List Char → Bool
  | _, [] => true
  | p, c :: cs => !p.ends c && (p.next c).unbroken cs

/-- The characters of one word, with nothing left open at its end. -/
def isWord : List Char → Bool
  | [] => false
  | c :: cs =>
    let p := Place.next (.nested 0) c
    begins c && p.unbroken cs && p.after cs = .nested 0

/-- The text is one word, with nothing left open at its end. -/
def IsWord (s : String) : Prop := isWord s.toList = true

instance (s : String) : Decidable (IsWord s) := inferInstanceAs (Decidable (_ = true))

/-! ## Reading one word -/

theorem inside_append : ∀ (cs : List Char) (p : Place) (word rest : List Char),
    p.unbroken cs = true →
      inside p word (cs ++ rest) = inside (p.after cs) (cs.reverse ++ word) rest
  | [], _, _, _, _ => rfl
  | c :: cs, p, word, rest, h => by
    simp only [Place.unbroken, Bool.and_eq_true, Bool.not_eq_true'] at h
    have hstep : inside p word (c :: cs ++ rest) = inside (p.next c) (c :: word) (cs ++ rest) := by
      rw [List.cons_append, inside, if_neg (by simp [h.1])]
    rw [hstep, inside_append cs (p.next c) (c :: word) rest h.2]
    simp [Place.after]

theorem between_eq_inside {w : List Char} (h : isWord w = true) (rest : List Char) :
    between (w ++ rest) = inside (.nested 0) w.reverse rest := by
  cases w with
  | nil => simp [isWord] at h
  | cons c cs =>
    simp only [isWord, Bool.and_eq_true, decide_eq_true_eq] at h
    obtain ⟨⟨hb, hu⟩, ha⟩ := h
    rw [List.cons_append, between, if_pos hb, inside_append cs _ _ rest hu, ha]
    simp

theorem between_word_blank {w : List Char} (h : isWord w = true) (rest : List Char) :
    between (w ++ ' ' :: rest) = w :: between rest := by
  have hend : Place.ends (.nested 0) ' ' = true := by decide
  rw [between_eq_inside h, inside, if_pos hend, List.reverse_reverse]

theorem between_word {w : List Char} (h : isWord w = true) : between w = [w] := by
  have := between_eq_inside h []
  rw [List.append_nil] at this
  rw [this, inside, List.reverse_reverse]

theorem ofText_word_append {w : String} (h : IsWord w) (rest : String) :
    ofText (w ++ " " ++ rest) = w :: ofText rest := by
  have hchars : (w ++ " " ++ rest).toList = w.toList ++ ' ' :: rest.toList := by simp
  rw [ofText, hchars, between_word_blank h, List.map_cons, String.ofList_toList, ofText]

theorem ofText_word {w : String} (h : IsWord w) : ofText w = [w] := by
  rw [ofText, between_word h, List.map_singleton, String.ofList_toList]

/-! ## Joined words -/

theorem join_cons_cons (a b : String) (ws : List String) :
    Order.join (a :: b :: ws) = a ++ " " ++ Order.join (b :: ws) :=
  String.intercalate_cons_cons

theorem ofText_join : ∀ {ws : List String}, (∀ w ∈ ws, IsWord w) → ofText (Order.join ws) = ws
  | [], _ => by decide
  | [a], h => by
    rw [Order.join, String.intercalate_singleton]
    exact ofText_word (h a (by simp))
  | a :: b :: ws, h => by
    rw [join_cons_cons, ofText_word_append (h a (by simp)),
      ofText_join fun w hw => h w (by simp [hw])]

theorem ofText_join_append : ∀ {ws : List String}, ws ≠ [] → (∀ w ∈ ws, IsWord w) →
    ∀ rest : String, ofText (Order.join ws ++ " " ++ rest) = ws ++ ofText rest
  | [], h, _, _ => absurd rfl h
  | [a], _, h, rest => by
    rw [Order.join, String.intercalate_singleton]
    exact ofText_word_append (h a (by simp)) rest
  | a :: b :: ws, _, h, rest => by
    have hassoc : a ++ " " ++ Order.join (b :: ws) ++ " " ++ rest =
        a ++ " " ++ (Order.join (b :: ws) ++ " " ++ rest) := by simp only [String.append_assoc]
    rw [join_cons_cons, hassoc, ofText_word_append (h a (by simp)),
      ofText_join_append (by simp) (fun w hw => h w (by simp [hw])) rest]
    rfl

/-- The text is its words, joined by one blank. -/
def Joined (s : String) : Prop := Order.join (ofText s) = s

instance (s : String) : Decidable (Joined s) := inferInstanceAs (Decidable (_ = _))

theorem joined_join {ws : List String} (h : ∀ w ∈ ws, IsWord w) : Joined (Order.join ws) := by
  rw [Joined, ofText_join h]

/-! ## Splitting again -/

/-- The characters of a word at the end of a line, in which something may be left open. -/
def opensWord : List Char → Bool
  | [] => false
  | c :: cs => begins c && (Place.next (.nested 0) c).unbroken cs

/-- Words of which only the last may be left open. -/
inductive Splits : List (List Char) → Prop
  | nil : Splits []
  | last {w : List Char} (h : opensWord w = true) : Splits [w]
  | cons {w : List Char} {ws : List (List Char)} (h : isWord w = true) (hws : Splits ws) :
    Splits (w :: ws)

theorem Splits.tail {w : List Char} {ws : List (List Char)} (h : Splits (w :: ws)) : Splits ws := by
  cases h with
  | last => exact .nil
  | cons _ hws => exact hws

theorem Splits.drop {ws : List (List Char)} (h : Splits ws) : ∀ n, Splits (ws.drop n)
  | 0 => h
  | n + 1 => by
    cases ws with
    | nil => exact h
    | cons w ws => exact h.tail.drop n

theorem unbroken_append_singleton (c : Char) : ∀ (p : Place) (cs : List Char),
    p.unbroken (cs ++ [c]) = (p.unbroken cs && !(p.after cs).ends c)
  | p, [] => by simp [Place.unbroken, Place.after]
  | p, c' :: cs => by
    rw [List.cons_append, Place.unbroken, Place.unbroken, unbroken_append_singleton c,
      Bool.and_assoc]
    rfl

mutual

/-- Every word that the reader finds begins as a word and is unbroken, and it ends with nothing left
open, unless it is the last. -/
theorem splits_between : ∀ cs : List Char, Splits (between cs)
  | [] => .nil
  | c :: cs => by
    rw [between]
    split
    · rename_i hb
      exact splits_inside cs c [] hb rfl
    · exact splits_between cs

theorem splits_inside : ∀ (cs : List Char) (first : Char) (word : List Char),
    begins first = true → (Place.next (.nested 0) first).unbroken word = true →
      Splits (inside ((Place.next (.nested 0) first).after word) (first :: word).reverse cs)
  | [], first, word, hb, hu => by
    rw [inside, List.reverse_reverse]
    exact .last (by rw [opensWord, hb, hu, Bool.true_and])
  | c :: cs, first, word, hb, hu => by
    rw [inside]
    split
    · rename_i hends
      rw [List.reverse_reverse]
      refine .cons ?_ (splits_between cs)
      have hclosed : (Place.next (.nested 0) first).after word = .nested 0 :=
        of_decide_eq_true (Bool.and_eq_true_iff.mp hends).1
      simp [isWord, hb, hu, hclosed]
    · rename_i hends
      have hword : (first :: (word ++ [c])).reverse = c :: (first :: word).reverse := by simp
      have hafter : (Place.next (.nested 0) first).after (word ++ [c]) =
          ((Place.next (.nested 0) first).after word).next c := by simp [Place.after]
      rw [← hword, ← hafter]
      refine splits_inside cs first (word ++ [c]) hb ?_
      rw [unbroken_append_singleton, hu]
      simpa using hends

end

theorem between_opensWord {w : List Char} (h : opensWord w = true) : between w = [w] := by
  cases w with
  | nil => cases h
  | cons c cs =>
    obtain ⟨hb, hu⟩ := Bool.and_eq_true_iff.mp h
    have hall := inside_append cs (.next (.nested 0) c) [c] [] hu
    rw [List.append_nil] at hall
    rw [between, if_pos hb, hall, inside]
    simp

/-- Words of which only the last may be left open are the words of their join. -/
theorem Splits.between_join {ws : List (List Char)} (h : Splits ws) :
    between (Order.join (ws.map String.ofList)).toList = ws := by
  induction h with
  | nil => decide
  | last h => simpa [Order.join] using between_opensWord h
  | @cons w ws h _ ih =>
    cases ws with
    | nil => simpa [Order.join] using between_word h
    | cons w' ws =>
      rw [List.map_cons, List.map_cons, join_cons_cons]
      have hchars : ∀ rest : String, (String.ofList w ++ " " ++ rest).toList =
          w ++ ' ' :: rest.toList := by simp
      rw [hchars, between_word_blank h, ← List.map_cons, ih]

/-- **Splitting again changes nothing**: the words of a text from some word on, joined by one blank,
are the words of the join. -/
theorem ofText_join_drop (s : String) (n : Nat) :
    ofText (Order.join ((ofText s).drop n)) = (ofText s).drop n := by
  have h := ((splits_between s.toList).drop n).between_join
  rw [ofText, ofText, ← List.map_drop, h]

theorem ofText_join_ofText (s : String) : ofText (Order.join (ofText s)) = ofText s :=
  ofText_join_drop s 0

/-! ## Runs between blanks -/

/-- The runs of a text, between blanks at which a word would end; they may be empty. -/
def Place.runs : Place → List Char → List (List Char)
  | _, [] => [[]]
  | p, c :: cs =>
    if p.ends c then [] :: (p.next c).runs cs else ((p.next c).runs cs).modifyHead (c :: ·)

/-- The runs of a text between blanks, where what stands in brackets, braces or quotes is kept
together. -/
def fields (s : String) : List String :=
  ((Place.runs (.nested 0) s.toList).filter (· ≠ [])).map String.ofList

/-- Whether a run begins with a closing bracket or brace. -/
def strays (run : List Char) : Bool := run.head?.any fun c => c = ']' || c = '\x7d'

/-- No run of the text begins with a closing bracket or brace. -/
def NoStray (s : String) : Prop := ∀ field ∈ fields s, strays field.toList = false

instance (s : String) : Decidable (NoStray s) := List.decidableBAll _ _

theorem next_of_ends {p : Place} {c : Char} (h : p.ends c = true) :
    p = .nested 0 ∧ p.next c = .nested 0 := by
  obtain ⟨hp, hblank⟩ := Bool.and_eq_true_iff.mp h
  obtain rfl := of_decide_eq_true hp
  refine ⟨rfl, ?_⟩
  have hne : ∀ d, Text.isBlank d = false → c ≠ d := fun d hd heq => by
    rw [heq, hd] at hblank
    cases hblank
  simp [Place.next, hne '"' (by decide), hne '[' (by decide), hne ']' (by decide),
    hne '\x7b' (by decide), hne '\x7d' (by decide)]

theorem runs_ne_nil : ∀ (p : Place) (cs : List Char), p.runs cs ≠ []
  | _, [] => by simp [Place.runs]
  | p, c :: cs => by
    rw [Place.runs]
    split
    · simp
    · simpa using runs_ne_nil (p.next c) cs

mutual

theorem between_eq_runs : ∀ cs : List Char,
    (∀ run ∈ Place.runs (.nested 0) cs, strays run = false) →
      between cs = (Place.runs (.nested 0) cs).filter (· ≠ [])
  | [], _ => rfl
  | c :: cs, h => by
    rw [between]
    rw [Place.runs] at h ⊢
    by_cases hblank : Text.isBlank c = true
    · have hends : Place.ends (.nested 0) c = true := by simp [Place.ends, hblank]
      rw [if_pos hends, (next_of_ends hends).2] at h ⊢
      rw [if_neg (by simp [begins, hblank]),
        between_eq_runs cs fun run hrun => h run (List.mem_cons_of_mem _ hrun)]
      rfl
    · have hends : ¬ Place.ends (.nested 0) c = true := by simp [Place.ends, hblank]
      rw [if_neg hends] at h ⊢
      -- the first run begins with `c`, so `c` does not close anything
      have hfirst := h _ (List.head_mem (by simpa using runs_ne_nil _ cs))
      have hbegins : begins c = true := by
        simpa [strays, List.head_modifyHead, begins, hblank] using hfirst
      rw [if_pos hbegins, inside_eq_runs _ [c] cs (by simp) fun run hrun => ?_]
      · rfl
      · exact h run (List.mem_of_mem_tail (by rwa [List.tail_modifyHead]))

theorem inside_eq_runs : ∀ (p : Place) (word cs : List Char), word ≠ [] →
    (∀ run ∈ (p.runs cs).tail, strays run = false) →
      inside p word cs = ((p.runs cs).modifyHead (word.reverse ++ ·)).filter (· ≠ [])
  | p, word, [], hword, _ => by simp [inside, Place.runs, hword]
  | p, word, c :: cs, hword, h => by
    rw [inside]
    rw [Place.runs] at h ⊢
    by_cases hends : p.ends c = true
    · rw [if_pos hends, (next_of_ends hends).2] at h ⊢
      rw [if_pos hends, between_eq_runs cs h]
      simp [hword]
    · rw [if_neg hends] at h ⊢
      rw [List.tail_modifyHead] at h
      rw [if_neg hends, inside_eq_runs (p.next c) (c :: word) cs (by simp) h,
        List.modifyHead_modifyHead]
      simp [Function.comp_def]

end

/-- **The words of a text** are its runs between blanks, if none of them begins with a closing
bracket or brace. -/
theorem ofText_eq_fields {s : String} (h : NoStray s) : ofText s = fields s := by
  rw [ofText, fields, between_eq_runs]
  intro run hrun
  by_cases hne : run = []
  · rw [hne]
    rfl
  · have hmem : String.ofList run ∈ fields s :=
      List.mem_map_of_mem (List.mem_filter.mpr ⟨hrun, by simpa using hne⟩)
    simpa using h _ hmem

/-! ## Plain words -/

/-- The characters that mean nothing to the reader of words. -/
def isInner (c : Char) : Bool := !Text.isBlank c && c ∉ ['"', '[', ']', '\x7b', '\x7d']

/-- A text that is not empty, of characters that mean nothing to the reader of words. -/
def IsPlain (s : String) : Prop := s ≠ "" ∧ ∀ c ∈ s.toList, isInner c = true

instance (s : String) : Decidable (IsPlain s) :=
  @instDecidableAnd _ _ _ (List.decidableBAll _ _)

theorem isInner_of_mem {cs : List Char} (h : cs.all isInner = true) {c : Char} (hc : c ∈ cs) :
    isInner c = true := List.all_eq_true.mp h c hc

theorem next_of_isInner {c : Char} (h : isInner c = true) (n : Nat) :
    Place.next (.nested n) c = .nested n := by
  simp only [isInner, List.mem_cons, List.not_mem_nil, or_false, not_or, Bool.and_eq_true,
    decide_eq_true_eq] at h
  simp [Place.next, h.2]

theorem unbroken_of_isInner : ∀ {cs : List Char}, (∀ c ∈ cs, isInner c = true) →
    Place.unbroken (.nested 0) cs = true ∧ Place.after (.nested 0) cs = .nested 0
  | [], _ => ⟨rfl, rfl⟩
  | c :: cs, h => by
    have hc := h c (by simp)
    have hends : Place.ends (.nested 0) c = false := by
      simp only [isInner, Bool.and_eq_true, Bool.not_eq_true'] at hc
      simp [Place.ends, hc.1]
    have hcs : ∀ d ∈ cs, isInner d = true := fun d hd => h d (by simp [hd])
    obtain ⟨hu, ha⟩ := unbroken_of_isInner hcs
    rw [Place.unbroken, next_of_isInner hc, hends, hu, Place.after, List.foldl_cons,
      next_of_isInner hc]
    exact ⟨rfl, ha⟩

theorem IsPlain.isWord {s : String} (h : IsPlain s) : IsWord s := by
  obtain ⟨hne, hs⟩ := h
  unfold IsWord
  cases hl : s.toList with
  | nil => exact absurd (by simpa using hl) hne
  | cons c cs =>
    rw [hl] at hs
    have hc := hs c (by simp)
    have hcs : ∀ d ∈ cs, isInner d = true := fun d hd => hs d (by simp [hd])
    obtain ⟨hu, ha⟩ := unbroken_of_isInner hcs
    have hb : begins c = true := by
      simp only [isInner, List.mem_cons, List.not_mem_nil, or_false, not_or, Bool.and_eq_true,
        Bool.not_eq_true', decide_eq_true_eq] at hc
      simp [begins, hc]
    simp [Words.isWord, hb, next_of_isInner hc, hu, ha]

theorem IsPlain.append {s t : String} (hs : IsPlain s) (ht : ∀ c ∈ t.toList, isInner c = true) :
    IsPlain (s ++ t) := by
  refine ⟨fun h => hs.1 (String.append_eq_empty_iff.mp h).1, fun c hc => ?_⟩
  rw [String.toList_append, List.mem_append] at hc
  exact hc.elim (hs.2 c) (ht c)

end Packwright.Words
