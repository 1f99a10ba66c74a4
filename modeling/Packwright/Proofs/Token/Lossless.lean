import Packwright.Proofs.Calls
import Packwright.Token.Stream
import Mathlib.Data.List.Pairwise
import Mathlib.Data.List.TakeWhile

/-!
# Nothing of a source is lost

The tokens of a source stand in its order, none is empty but the end, and what lies between two of
them is blank, a line break or a comment.

* `Span.Covers`: the characters that a span covers; it starts and ends where characters do.
* `exists_of_mem_pieces`, `pieces_ordered`, `exists_piece_at`: the pieces of a text follow one
  another without a gap.
* `Piece.scan_token`, `Piece.scan_blank`, `Piece.scan_breaks`: what one piece is made of.
* `Located.sublist_settled`, `Located.mem_settled_of_token`: only line breaks are dropped.
* `tokenize_covers`, `tokenize_ordered`, `tokenize_ends`: where the tokens of a source stand.
* `tokenize_lossless`: all of it.
-/

namespace Packwright

open Lexical

namespace Text

theorem size_append (a b : List Char) : size (a ++ b) = size a + size b := by
  induction a with
  | nil => simp [size]
  | cons c a ih => simp [size, ih, Nat.add_assoc]

theorem size_cons_pos (c : Char) (cs : List Char) : 0 < size (c :: cs) := by
  have := c.utf8Size_pos
  simp only [size]
  omega

/-- The character to which a byte of a text belongs. -/
theorem exists_char_at {n : Nat} : ∀ {cs : List Char}, n < size cs →
    ∃ before c after, cs = before ++ c :: after ∧ size before ≤ n ∧ n < size before + c.utf8Size
  | [], h => by simp [size] at h
  | c :: cs, h => by
    by_cases hc : n < c.utf8Size
    · exact ⟨[], c, cs, rfl, by simp [size], by simpa [size] using hc⟩
    · have hlt : n - c.utf8Size < size cs := by
        simp only [size] at h
        omega
      obtain ⟨before, d, after, rfl, hle, hlt⟩ := exists_char_at hlt
      refine ⟨c :: before, d, after, rfl, ?_, ?_⟩
      · simp only [size]
        omega
      · simp only [size]
        omega

end Text

open Text

/-- The span covers the characters `cs` of a text: it starts and ends where characters do. -/
def Span.Covers (span : Span) (text cs : List Char) : Prop :=
  ∃ before after, text = before ++ cs ++ after ∧ span.start = size before ∧
    span.stop = size (before ++ cs)

/-- The text of a token, where the token keeps it as it is written. -/
def Token.text? : Token → Option String
  | name s | selector s | resource s => some s
  | keyword k => some k.text
  | mark m => some m.text
  | _ => none

/-! ## One piece -/

namespace Lexical

theorem take_run (p : Char → Bool) (cs : List Char) : cs.take (run p cs) = cs.takeWhile p := by
  rw [run, ← List.prefix_iff_eq_take.mp (List.takeWhile_prefix _)]

theorem toList_taken (cs : List Char) (n : Nat) : (taken cs n).toList = cs.take n :=
  String.toList_ofList

end Lexical

/-- The token neither separates lines nor ends the source, and its text is that of the
characters. -/
structure Token.Spells (t : Token) (cs : List Char) : Prop where
  text : ∀ s ∈ t.text?, s.toList = cs
  notNewline : t.isNewline = false
  notEnd : t.isEnd = false

theorem Token.Spells.of_text {t : Token} {s : String} {cs : List Char} (ht : t.text? = some s)
    (hs : s.toList = cs) (hn : t.isNewline = false) (he : t.isEnd = false) : t.Spells cs :=
  ⟨fun s' hs' => by simp_all, hn, he⟩

theorem Token.Spells.of_no_text {t : Token} (ht : t.text? = none) (hn : t.isNewline = false)
    (he : t.isEnd = false) (cs : List Char) : t.Spells cs :=
  ⟨fun s hs => by simp [ht] at hs, hn, he⟩

theorem Mark.text_ne_nil (m : Mark) : m.text.toList ≠ [] := by
  cases m <;> decide

namespace Piece

theorem spells_word (text : String) : (scanName.word text).Spells text.toList := by
  unfold scanName.word
  split
  · rename_i k hk
    have htext : k.text = text := by simpa using List.find?_some hk
    exact .of_text rfl (congrArg String.toList htext) rfl rfl
  · exact .of_text rfl rfl rfl rfl

theorem scanName_token {c : Char} {cs : List Char} {t : Token} {issue : Option Issue}
    (h : (scanName c cs).1 = .token t issue) : t.Spells (c :: cs.take (scanName c cs).2) := by
  have hword : ∀ n, (scanName.word (taken (c :: cs) (n + 1))).Spells (c :: cs.take n) := by
    intro n
    have := spells_word (taken (c :: cs) (n + 1))
    rwa [toList_taken, List.take_succ_cons] at this
  unfold scanName at h ⊢
  simp only at h ⊢
  split at h
  · split at h
    · rename_i hd
      cases h
      simp only [hd, if_true]
      exact .of_text rfl (toList_taken _ _) rfl rfl
    · rename_i hd
      cases h
      simp only [hd]
      exact hword _
  · cases h
    exact hword _

theorem scanAt_token {cs : List Char} {t : Token} {issue : Option Issue}
    (h : (scanAt cs).1 = .token t issue) : t.Spells ('@' :: cs.take (scanAt cs).2) := by
  unfold scanAt at h ⊢
  simp only at h ⊢
  split at h
  · cases h
    exact .of_no_text rfl rfl rfl _
  · split at h
    · rename_i hkind
      cases h
      simp only [hkind, if_true]
      exact .of_text rfl (toList_taken _ _) rfl rfl
    · cases h
      exact .of_no_text rfl rfl rfl _
  · cases h
    exact .of_no_text rfl rfl rfl _

theorem spells_number (n : NumberBody) (text : String) (cs : List Char) :
    (n.token text).1.Spells cs := by
  unfold NumberBody.token
  simp only
  split
  · exact .of_no_text rfl rfl rfl _
  · exact .of_no_text rfl rfl rfl _
  · exact .of_no_text rfl rfl rfl _
  · exact .of_no_text rfl rfl rfl _
  · split <;> exact .of_no_text rfl rfl rfl _
  · split <;> exact .of_no_text rfl rfl rfl _

theorem scanMark_token {c : Char} {cs : List Char} {t : Token} {issue : Option Issue}
    (h : (scanMark c cs).1 = .token t issue) : t.Spells (c :: cs.take (scanMark c cs).2) := by
  unfold scanMark at h ⊢
  split at h
  · rename_i m hm
    cases h
    have hfound := List.find?_some hm
    obtain ⟨rest, hrest⟩ := Option.isSome_iff_exists.mp hfound
    have hsplit := eq_append_of_after? hrest
    obtain ⟨d, ds, htext⟩ := List.exists_cons_of_ne_nil m.text_ne_nil
    have hlen : m.text.length = ds.length + 1 := by rw [← String.length_toList, htext]; rfl
    rw [htext, List.cons_append] at hsplit
    obtain ⟨rfl, rfl⟩ := List.cons.inj hsplit
    refine .of_text rfl ?_ rfl rfl
    rw [htext, hlen, Nat.add_sub_cancel, List.take_left' rfl]
  · cases h
    exact .of_no_text rfl rfl rfl _

/-- **Tokens** have the text of the characters that they are read from. -/
theorem scan_token {c : Char} {cs : List Char} {t : Token} {issue : Option Issue}
    (h : (scan c cs).1 = .token t issue) : t.Spells (c :: cs.take (scan c cs).2) := by
  unfold scan at h ⊢
  split at h
  · cases h
  split at h
  · cases h
  split at h
  · cases h
  rename_i hblank hcomment hbreak
  rw [if_neg hblank, if_neg hcomment, if_neg hbreak]
  split at h
  · rename_i hquote
    rw [if_pos hquote]
    cases h
    exact .of_no_text rfl rfl rfl _
  rename_i hquote
  rw [if_neg hquote]
  split at h
  · rename_i hat
    rw [if_pos hat]
    subst hat
    exact scanAt_token h
  rename_i hat
  rw [if_neg hat]
  split at h
  · rename_i hdigit
    rw [if_pos hdigit]
    obtain ⟨rfl, -⟩ := Piece.token.inj h
    exact spells_number _ _ _
  rename_i hdigit
  rw [if_neg hdigit]
  split at h
  · rename_i hstart
    rw [if_pos hstart]
    exact scanName_token h
  · rename_i hstart
    rw [if_neg hstart]
    exact scanMark_token h

/-- A piece that begins with no blank, comment or line break is a token. -/
theorem scan_of_not_gap {c : Char} {cs : List Char} (hblank : ¬ (c = ' ' || c = '\t') = true)
    (hcomment : ¬ (c = '/' && cs.head? = some '/') = true) (hbreak : ¬ isBreak c = true) :
    ∃ t issue, (scan c cs).1 = .token t issue := by
  unfold scan
  rw [if_neg hblank, if_neg hcomment, if_neg hbreak]
  split
  · exact ⟨_, _, rfl⟩
  split
  · unfold scanAt
    simp only
    split
    · exact ⟨_, _, rfl⟩
    · split <;> exact ⟨_, _, rfl⟩
    · exact ⟨_, _, rfl⟩
  split
  · exact ⟨_, _, rfl⟩
  split
  · unfold scanName
    simp only
    split
    · split <;> exact ⟨_, _, rfl⟩
    · exact ⟨_, _, rfl⟩
  · unfold scanMark
    split <;> exact ⟨_, _, rfl⟩

/-- **Blanks**: spaces and tabs, or a comment. -/
theorem scan_blank {c : Char} {cs : List Char} (h : (scan c cs).1 = .blank) :
    (∀ d ∈ c :: cs.take (scan c cs).2, d = ' ' ∨ d = '\t') ∨
      ∃ text, c :: cs.take (scan c cs).2 = '/' :: '/' :: text ∧ '\n' ∉ text := by
  by_cases hblank : (c = ' ' || c = '\t') = true
  · left
    rw [scan, if_pos hblank, take_run]
    intro d hd
    rcases List.mem_cons.mp hd with rfl | hd
    · simpa using hblank
    · simpa using List.mem_takeWhile_imp hd
  by_cases hcomment : (c = '/' && cs.head? = some '/') = true
  · right
    rw [scan, if_neg hblank, if_pos hcomment, take_run]
    simp only [Bool.and_eq_true, decide_eq_true_eq] at hcomment
    obtain ⟨rfl, hhead⟩ := hcomment
    obtain ⟨cs', rfl⟩ := List.head?_eq_some_iff.mp hhead
    refine ⟨cs'.takeWhile (· ≠ '\n'), ?_, fun hmem => ?_⟩
    · rw [List.takeWhile_cons_of_pos (by decide)]
    · simpa using List.mem_takeWhile_imp hmem
  by_cases hbreak : isBreak c = true
  · rw [scan, if_neg hblank, if_neg hcomment, if_pos hbreak] at h
    cases h
  · obtain ⟨t, issue, ht⟩ := scan_of_not_gap hblank hcomment hbreak
    rw [ht] at h
    cases h

/-- **Line breaks** stand in pieces of their own. -/
theorem scan_breaks {c : Char} {cs : List Char} (h : (scan c cs).1 = .breaks) :
    ∀ d ∈ c :: cs.take (scan c cs).2, isBreak d = true := by
  by_cases hblank : (c = ' ' || c = '\t') = true
  · rw [scan, if_pos hblank] at h
    cases h
  by_cases hcomment : (c = '/' && cs.head? = some '/') = true
  · rw [scan, if_neg hblank, if_pos hcomment] at h
    cases h
  by_cases hbreak : isBreak c = true
  · rw [scan, if_neg hblank, if_neg hcomment, if_pos hbreak, take_run]
    intro d hd
    rcases List.mem_cons.mp hd with rfl | hd
    · exact hbreak
    · exact List.mem_takeWhile_imp hd
  · obtain ⟨t, issue, ht⟩ := scan_of_not_gap hblank hcomment hbreak
    rw [ht] at h
    cases h

end Piece

/-! ## All pieces -/

/-- The piece was read from the characters `cs` of a text that begins at byte `here`. -/
def LocatedPiece.ReadFrom (p : LocatedPiece) (here : Nat) (text cs : List Char) : Prop :=
  ∃ before c rest, text = before ++ c :: rest ∧ p.piece = (Piece.scan c rest).1 ∧
    cs = c :: rest.take (Piece.scan c rest).2 ∧
    p.span = ⟨here + size before, here + size before + size cs⟩

theorem exists_of_mem_pieces {p : LocatedPiece} {here : Nat} {text : List Char}
    (h : p ∈ pieces here text) : ∃ cs, p.ReadFrom here text cs := by
  fun_induction pieces here text with
  | case1 => cases h
  | case2 here c cs piece more hscan next ih =>
    rcases List.mem_cons.mp h with rfl | h
    · refine ⟨_, [], c, cs, rfl, by rw [hscan], rfl, ?_⟩
      simp [next, hscan, size]
    · obtain ⟨ds, before, d, rest, htext, hpiece, hds, hspan⟩ := ih h
      refine ⟨ds, c :: cs.take more ++ before, d, rest, ?_, hpiece, hds, ?_⟩
      · rw [List.append_assoc, ← htext, List.cons_append, List.take_append_drop]
      · rw [hspan, size_append]
        simp only [next, Nat.add_assoc]

/-- The pieces of a text follow one another, and none is empty. -/
theorem pieces_ordered (here : Nat) (text : List Char) :
    (pieces here text).Pairwise (fun p q => p.span.stop ≤ q.span.start) ∧
      ∀ p ∈ pieces here text, here ≤ p.span.start ∧ p.span.start < p.span.stop := by
  fun_induction pieces here text with
  | case1 => exact ⟨List.Pairwise.nil, fun _ hp => nomatch hp⟩
  | case2 here c cs piece more hscan next ih =>
    obtain ⟨hpairs, hbounds⟩ := ih
    have hpos := size_cons_pos c (cs.take more)
    refine ⟨List.pairwise_cons.mpr ⟨fun q hq => (hbounds q hq).1, hpairs⟩, ?_⟩
    intro p hp
    rcases List.mem_cons.mp hp with rfl | hp
    · exact ⟨le_rfl, by simp only [next]; omega⟩
    · have := hbounds p hp
      exact ⟨by simp only [next] at this; omega, this.2⟩

/-- Every byte of a text lies in a piece. -/
theorem exists_piece_at {n here : Nat} {text : List Char} (hle : here ≤ n)
    (hlt : n < here + size text) : ∃ p ∈ pieces here text, p.span.start ≤ n ∧ n < p.span.stop := by
  fun_induction pieces here text with
  | case1 => simp only [size] at hlt; omega
  | case2 here c cs piece more hscan next ih =>
    by_cases hn : n < next
    · exact ⟨_, List.mem_cons_self, hle, hn⟩
    · have hsize : size (c :: cs) = size (c :: cs.take more) + size (cs.drop more) := by
        rw [← size_append, List.cons_append, List.take_append_drop]
      obtain ⟨p, hp, hspan⟩ := ih (by omega) (by simp only [next]; omega)
      exact ⟨p, List.mem_cons_of_mem _ hp, hspan⟩

/-! ## The tokens of the pieces -/

/-- The token of a piece; a run of line breaks is one. -/
def LocatedPiece.token? (p : LocatedPiece) : Option Located :=
  match p.piece with
  | .blank => none
  | .breaks => some ⟨.newline, p.span⟩
  | .token t _ => some ⟨t, p.span⟩

namespace Located

theorem sublist_settleOne (stack : List Located) (p : LocatedPiece) :
    (settleOne stack p).reverse.Sublist (stack.reverse ++ p.token?.toList) := by
  unfold settleOne
  split
  · simp
  · rename_i hpiece
    have htoken : p.token? = some ⟨.newline, p.span⟩ := by rw [LocatedPiece.token?, hpiece]
    rw [htoken]
    split
    · simp
    · split <;> simp
  · rename_i t issue hpiece
    have htoken : p.token? = some ⟨t, p.span⟩ := by rw [LocatedPiece.token?, hpiece]
    rw [htoken]
    unfold push
    split
    · split
      · -- the line break in front goes, the token stays
        rw [List.reverse_cons, List.reverse_cons, List.append_assoc]
        exact (List.Sublist.refl _).append (List.sublist_append_right _ _)
      · simp
    · simp

/-- The tokens of pieces are in the order of the pieces. -/
theorem sublist_settled (ps : List LocatedPiece) : ∀ stack : List Located,
    (ps.foldl settleOne stack).reverse.Sublist
      (stack.reverse ++ ps.filterMap LocatedPiece.token?) := by
  induction ps with
  | nil => simp
  | cons p ps ih =>
    intro stack
    have hhead := (sublist_settleOne stack p).append_right (ps.filterMap LocatedPiece.token?)
    refine (ih (settleOne stack p)).trans (hhead.trans ?_)
    cases hp : p.token? <;> simp [hp]

/-- Only line breaks are dropped. -/
theorem mem_settleOne_of_mem {stack : List Located} {t : Located} (ht : t ∈ stack)
    (hn : t.token.isNewline = false) (p : LocatedPiece) : t ∈ settleOne stack p := by
  unfold settleOne
  split
  · exact ht
  · split
    · cases ht
    · split
      · exact ht
      · exact List.mem_cons_of_mem _ ht
  · unfold push
    split
    · split
      · rename_i hlast
        rcases List.mem_cons.mp ht with rfl | ht
        · simp [hn] at hlast
        · exact List.mem_cons_of_mem _ ht
      · exact List.mem_cons_of_mem _ ht
    · cases ht

theorem mem_settled_of_mem {t : Located} (hn : t.token.isNewline = false) (ps : List LocatedPiece) :
    ∀ {stack : List Located}, t ∈ stack → t ∈ ps.foldl settleOne stack := by
  induction ps with
  | nil => exact fun h => h
  | cons p ps ih => exact fun h => ih (mem_settleOne_of_mem h hn p)

/-- A token that is no line break is kept. -/
theorem mem_settled_of_token {t : Token} {issue : Option Issue} (hn : t.isNewline = false)
    (ps : List LocatedPiece) : ∀ {stack : List Located} {p : LocatedPiece}, p ∈ ps →
      p.piece = .token t issue → ⟨t, p.span⟩ ∈ ps.foldl settleOne stack := by
  induction ps with
  | nil => exact fun h => nomatch h
  | cons q ps ih =>
    intro stack p hp hpiece
    rcases List.mem_cons.mp hp with rfl | hp
    · refine mem_settled_of_mem hn ps ?_
      unfold settleOne push
      rw [hpiece]
      simp only
      split
      · split <;> exact List.mem_cons_self
      · exact List.mem_cons_self
    · exact ih hp hpiece

/-- The tokens of pieces: those that are kept, and the end of the source. -/
theorem exists_kept (ps : List LocatedPiece) (n : Nat) :
    ∃ kept, settle ps n = kept ++ [⟨.endOfSource, ⟨n, n⟩⟩] ∧
      kept.Sublist (ps.filterMap LocatedPiece.token?) ∧
      ∀ p ∈ ps, ∀ t issue, p.piece = .token t issue → t.isNewline = false → ⟨t, p.span⟩ ∈ kept := by
  have hsub := sublist_settled ps []
  have hkept : ∀ p ∈ ps, ∀ t issue, p.piece = .token t issue → t.isNewline = false →
      ⟨t, p.span⟩ ∈ ps.foldl settleOne [] := fun p hp t issue hpiece hn =>
    mem_settled_of_token hn ps hp hpiece
  simp only [settle, List.reverse_cons]
  cases hstack : ps.foldl settleOne [] with
  | nil =>
    rw [hstack] at hkept
    exact ⟨[], rfl, List.nil_sublist _, fun p hp t issue hpiece hn =>
      nomatch hkept p hp t issue hpiece hn⟩
  | cons last rest =>
    rw [hstack] at hsub hkept
    by_cases hlast : last.token.isNewline = true
    · refine ⟨rest.reverse, by simp [hlast], ?_, fun p hp t issue hpiece hn => ?_⟩
      · rw [List.reverse_cons] at hsub
        exact (List.sublist_append_left _ _).trans hsub
      · rcases List.mem_cons.mp (hkept p hp t issue hpiece hn) with rfl | hmem
        · simp [hn] at hlast
        · exact List.mem_reverse.mpr hmem
    · refine ⟨(last :: rest).reverse, by simp [hlast], hsub, fun p hp t issue hpiece hn => ?_⟩
      exact List.mem_reverse.mpr (hkept p hp t issue hpiece hn)

end Located

theorem LocatedPiece.span_of_token? {p : LocatedPiece} {t : Located} (h : p.token? = some t) :
    t.span = p.span := by
  unfold token? at h
  split at h
  · cases h
  · cases h
    rfl
  · cases h
    rfl

theorem LocatedPiece.ReadFrom.covers {p : LocatedPiece} {text cs : List Char}
    (h : p.ReadFrom 0 text cs) : p.span.Covers text cs := by
  obtain ⟨before, c, rest, rfl, -, rfl, hspan⟩ := h
  refine ⟨before, rest.drop (Piece.scan c rest).2, ?_, ?_, ?_⟩
  · rw [List.append_assoc, List.cons_append, List.take_append_drop]
  · rw [hspan, Nat.zero_add]
  · rw [hspan, size_append, Nat.zero_add]

theorem Span.Covers.stop_le {span : Span} {text cs : List Char} (h : span.Covers text cs) :
    span.stop ≤ size text := by
  obtain ⟨before, after, rfl, -, hstop⟩ := h
  rw [hstop, size_append (before ++ cs)]
  exact Nat.le_add_right _ _

/-- A byte in a span belongs to one of the characters that the span covers. -/
theorem Span.Covers.char_at {span : Span} {text cs : List Char} (h : span.Covers text cs) {n : Nat}
    (hle : span.start ≤ n) (hlt : n < span.stop) :
    ∃ before c after, text = before ++ c :: after ∧ size before ≤ n ∧
      n < size before + c.utf8Size ∧ c ∈ cs := by
  obtain ⟨before, after, rfl, hstart, hstop⟩ := h
  rw [size_append] at hstop
  have hin : n - size before < size cs := by omega
  obtain ⟨left, c, right, rfl, hc, hc'⟩ := exists_char_at hin
  refine ⟨before ++ left, c, right ++ after, by simp, ?_, ?_, by simp⟩
  · rw [size_append]
    omega
  · rw [size_append]
    omega

/-! ## Sources -/

/-- The byte at an offset of a text belongs to a space, a tab or a line break. -/
def Source.BlankAt (text : List Char) (n : Nat) : Prop :=
  ∃ before c after, text = before ++ c :: after ∧ size before ≤ n ∧
    n < size before + c.utf8Size ∧ c ∈ [' ', '\t', '\n', '\r']

/-- The byte at an offset of a text belongs to a comment: two slashes outside of all tokens, and
what stands behind them on their line. -/
def Source.CommentAt (text : List Char) (tokens : List Located) (n : Nat) : Prop :=
  ∃ (span : Span) (rest : List Char), span.Covers text ('/' :: '/' :: rest) ∧ '\n' ∉ rest ∧
    span.start ≤ n ∧ n < span.stop ∧
    ∀ t ∈ tokens, t.span.stop ≤ span.start ∨ span.stop ≤ t.span.start

/-- The tokens account for all of a text, and the diagnostics are about places in it. -/
structure Lossless (text : List Char) (tokens : List Located) (found : List Diagnostic) :
    Prop where
  /-- Spans start and end where characters do, and texts are taken from there. -/
  covers : ∀ t ∈ tokens, ∃ cs, t.span.Covers text cs ∧ ∀ s ∈ t.token.text?, s.toList = cs
  /-- Tokens stand in order, and only the last one is empty. -/
  ordered : tokens.Pairwise fun t u => t.span.start < t.span.stop ∧ t.span.stop ≤ u.span.start
  /-- The last token, and no other one, ends the source. -/
  ends : ∃ kept, tokens = kept ++ [⟨.endOfSource, ⟨size text, size text⟩⟩] ∧
    ∀ t ∈ kept, t.token.isEnd = false
  /-- What lies outside of all tokens means nothing. -/
  gaps : ∀ n < size text, (∃ t ∈ tokens, t.span.start ≤ n ∧ n < t.span.stop) ∨
    Source.BlankAt text n ∨ Source.CommentAt text tokens n
  places : ∀ d ∈ found, ∃ cs, d.span.Covers text cs

theorem covers_of_token? {text : List Char} {p : LocatedPiece} (hp : p ∈ pieces 0 text)
    {t : Located} (ht : p.token? = some t) :
    t.token.isEnd = false ∧ ∃ cs, t.span.Covers text cs ∧ ∀ s ∈ t.token.text?, s.toList = cs := by
  obtain ⟨cs, hread⟩ := exists_of_mem_pieces hp
  have hcovers := hread.covers
  obtain ⟨before, c, rest, -, hpiece, rfl, -⟩ := hread
  rw [LocatedPiece.span_of_token? ht]
  unfold LocatedPiece.token? at ht
  split at ht
  · cases ht
  · cases ht
    exact ⟨rfl, _, hcovers, fun s hs => nomatch hs⟩
  · rename_i token issue htoken
    cases ht
    have hspells := Piece.scan_token (hpiece.symm.trans htoken)
    exact ⟨hspells.notEnd, _, hcovers, hspells.text⟩

/-- A comment between the pieces of a text lies outside of their tokens. -/
theorem apart_of_blank {text : List Char} {p : LocatedPiece} (hp : p ∈ pieces 0 text)
    (hblank : p.piece = .blank) {t : Located}
    (ht : t ∈ (pieces 0 text).filterMap LocatedPiece.token?) :
    t.span.stop ≤ p.span.start ∨ p.span.stop ≤ t.span.start := by
  obtain ⟨q, hq, hqt⟩ := List.mem_filterMap.mp ht
  rw [LocatedPiece.span_of_token? hqt]
  have hne : q ≠ p := by
    rintro rfl
    simp [LocatedPiece.token?, hblank] at hqt
  let Apart (q p : LocatedPiece) : Prop := q.span.stop ≤ p.span.start ∨ p.span.stop ≤ q.span.start
  have : Std.Symm Apart := ⟨fun _ _ h => h.symm⟩
  have hpairs : (pieces 0 text).Pairwise Apart := (pieces_ordered 0 text).1.imp Or.inl
  exact hpairs.forall hq hp hne

theorem covers_of_diagnostic? {text : List Char} {p : LocatedPiece} (hp : p ∈ pieces 0 text)
    {d : Diagnostic} (hd : p.diagnostic? = some d) : ∃ cs, d.span.Covers text cs := by
  obtain ⟨cs, hread⟩ := exists_of_mem_pieces hp
  have hspan : d.span = p.span := by
    unfold LocatedPiece.diagnostic? at hd
    split at hd
    · cases hd
      rfl
    · cases hd
  exact ⟨cs, hspan ▸ hread.covers⟩

/-- The tokens of the pieces of a text are in its order, and none is empty. -/
theorem ordered_tokens (text : List Char) :
    ((pieces 0 text).filterMap LocatedPiece.token?).Pairwise
        (fun t u => t.span.start < t.span.stop ∧ t.span.stop ≤ u.span.start) ∧
      ∀ t ∈ (pieces 0 text).filterMap LocatedPiece.token?, t.span.start < t.span.stop := by
  obtain ⟨hpairs, hbounds⟩ := pieces_ordered 0 text
  constructor
  · refine List.pairwise_filterMap.mpr (hpairs.imp_of_mem fun {p q} hp _ hpq t ht u hu => ?_)
    rw [LocatedPiece.span_of_token? ht, LocatedPiece.span_of_token? hu]
    exact ⟨(hbounds p hp).2, hpq⟩
  · intro t ht
    obtain ⟨p, hp, hpt⟩ := List.mem_filterMap.mp ht
    rw [LocatedPiece.span_of_token? hpt]
    exact (hbounds p hp).2

/-- Every byte of a text belongs to a token, a blank, a line break or a comment. -/
theorem token_or_gap_at {text : List Char} {n : Nat} (hn : n < size text) :
    (∃ p ∈ pieces 0 text, (∃ t issue, p.piece = .token t issue ∧ t.isNewline = false) ∧
        p.span.start ≤ n ∧ n < p.span.stop) ∨
      Source.BlankAt text n ∨
      ∃ p ∈ pieces 0 text, p.piece = .blank ∧ p.span.start ≤ n ∧ n < p.span.stop ∧
        ∃ rest, p.span.Covers text ('/' :: '/' :: rest) ∧ '\n' ∉ rest := by
  obtain ⟨p, hp, hle, hlt⟩ := exists_piece_at (Nat.zero_le n) (by simpa using hn)
  obtain ⟨cs, hread⟩ := exists_of_mem_pieces hp
  have hcovers := hread.covers
  obtain ⟨before, c, rest, -, hpiece, rfl, -⟩ := hread
  -- blanks and line breaks are found by their characters, comments by their slashes
  have hblank : (∀ d ∈ c :: rest.take (Piece.scan c rest).2, d ∈ [' ', '\t', '\n', '\r']) →
      Source.BlankAt text n := by
    intro hall
    obtain ⟨left, d, right, hsplit, hd, hd', hmem⟩ := hcovers.char_at hle hlt
    exact ⟨left, d, right, hsplit, hd, hd', hall d hmem⟩
  cases hscan : (Piece.scan c rest).1 with
  | blank =>
    rcases Piece.scan_blank hscan with hall | ⟨comment, hcomment, hline⟩
    · exact .inr (.inl (hblank fun d hd => by rcases hall d hd with rfl | rfl <;> simp))
    · exact .inr (.inr ⟨p, hp, hpiece.trans hscan, hle, hlt, comment, hcomment ▸ hcovers, hline⟩)
  | breaks =>
    refine .inr (.inl (hblank fun d hd => ?_))
    have hbreak := Piece.scan_breaks hscan d hd
    simp only [isBreak, Bool.or_eq_true, decide_eq_true_eq] at hbreak
    rcases hbreak with rfl | rfl <;> simp
  | token t issue =>
    have hspells := Piece.scan_token hscan
    exact .inl ⟨p, hp, ⟨t, issue, hpiece.trans hscan, hspells.notNewline⟩, hle, hlt⟩

/-! ## The tokens of a source -/

section Tokens

variable (source : String)

/-- The last token, and no other one, is the end. -/
theorem tokenize_ends : ∃ kept,
    (tokenize source).1 =
      kept ++ [⟨.endOfSource, ⟨size source.toList, size source.toList⟩⟩] ∧
    ∀ t ∈ kept, t.token.isEnd = false := by
  obtain ⟨kept, htokens, hsub, -⟩ :=
    Located.exists_kept (pieces 0 source.toList) (size source.toList)
  refine ⟨kept, htokens, fun t ht => ?_⟩
  obtain ⟨p, hp, hpt⟩ := List.mem_filterMap.mp (hsub.subset ht)
  exact (covers_of_token? hp hpt).1

/-- Tokens have a place in the source, and their text is the one there. -/
theorem tokenize_covers : ∀ t ∈ (tokenize source).1,
    ∃ cs, t.span.Covers source.toList cs ∧ ∀ s ∈ t.token.text?, s.toList = cs := by
  obtain ⟨kept, htokens, hsub, -⟩ :=
    Located.exists_kept (pieces 0 source.toList) (size source.toList)
  have hfirst : (tokenize source).1 =
      kept ++ [⟨.endOfSource, ⟨size source.toList, size source.toList⟩⟩] := htokens
  intro t ht
  rw [hfirst] at ht
  rcases List.mem_append.mp ht with ht | ht
  · obtain ⟨p, hp, hpt⟩ := List.mem_filterMap.mp (hsub.subset ht)
    exact (covers_of_token? hp hpt).2
  · obtain rfl := List.mem_singleton.mp ht
    exact ⟨[], ⟨source.toList, [], by simp, rfl, by simp⟩,
      fun s hs => absurd hs (Option.not_mem_none s)⟩

/-- Tokens stand in order, and only the last one is empty. -/
theorem tokenize_ordered : (tokenize source).1.Pairwise
    fun t u => t.span.start < t.span.stop ∧ t.span.stop ≤ u.span.start := by
  obtain ⟨kept, htokens, hsub, -⟩ :=
    Located.exists_kept (pieces 0 source.toList) (size source.toList)
  have hfirst : (tokenize source).1 =
      kept ++ [⟨.endOfSource, ⟨size source.toList, size source.toList⟩⟩] := htokens
  obtain ⟨hordered, hnonempty⟩ := ordered_tokens source.toList
  have hcovers := tokenize_covers source
  rw [hfirst] at hcovers ⊢
  refine List.pairwise_append.mpr
    ⟨hordered.sublist hsub, List.pairwise_singleton _ _, fun t ht u hu => ?_⟩
  obtain rfl := List.mem_singleton.mp hu
  obtain ⟨cs, hcs, -⟩ := hcovers t (List.mem_append_left _ ht)
  exact ⟨hnonempty t (hsub.subset ht), hcs.stop_le⟩

/-- What is found wrong has a place in the source. -/
theorem tokenize_places : ∀ d ∈ (tokenize source).2, ∃ cs, d.span.Covers source.toList cs := by
  intro d hd
  obtain ⟨p, hp, hpd⟩ := List.mem_filterMap.mp hd
  exact covers_of_diagnostic? hp hpd

end Tokens

/-- **Nothing is lost**: the tokens of a source are in its order, none is empty but the end, they
have the text at their place, and all that lies between them are blanks, line breaks and
comments. -/
theorem tokenize_lossless (source : String) :
    Lossless source.toList (tokenize source).1 (tokenize source).2 := by
  refine ⟨tokenize_covers source, tokenize_ordered source, tokenize_ends source, fun n hn => ?_,
    tokenize_places source⟩
  obtain ⟨kept, htokens, hsub, htoken⟩ :=
    Located.exists_kept (pieces 0 source.toList) (size source.toList)
  have hfirst : (tokenize source).1 =
      kept ++ [⟨.endOfSource, ⟨size source.toList, size source.toList⟩⟩] := htokens
  rcases token_or_gap_at hn with ⟨p, hp, ⟨t, issue, hpiece, hline⟩, hle, hlt⟩ | hblank |
    ⟨p, hp, hpiece, hle, hlt, comment, hcovers, hline⟩
  · have hmem := htoken p hp t issue hpiece hline
    exact .inl ⟨⟨t, p.span⟩, hfirst ▸ List.mem_append_left _ hmem, hle, hlt⟩
  · exact .inr (.inl hblank)
  · refine .inr (.inr ⟨p.span, comment, hcovers, hline, hle, hlt, fun t ht => ?_⟩)
    rw [hfirst] at ht
    rcases List.mem_append.mp ht with ht | ht
    · exact apart_of_blank hp hpiece (hsub.subset ht)
    · obtain rfl := List.mem_singleton.mp ht
      exact .inr hcovers.stop_le

end Packwright
