import Packwright.Proofs.Token.Shapes

/-!
# Lexemes

A text that is put together from lexemes, which are tokens as they are written and the blanks
between them, falls apart into the same tokens if each lexeme ends where the next one begins.  What
ends a lexeme depends on the characters behind it: `1..2` is a range, `1.2` is not.

* `Lexeme.ReadBefore`, `Lexeme.AllRead`: one lexeme, or each of several, is read as what it is.
* `tokenize_of_allRead`: the tokens of a text made of such lexemes.
* `Lexeme.readBefore_quoted`, `Lexeme.readBefore_magnitude`, …: one lemma for each sort of lexeme,
  with what may stand behind it.
-/

namespace Packwright

open Lexical Text

/-- A token as it is written, or a blank. -/
structure Lexeme where
  text : List Char
  token : Option Token

namespace Lexeme

/-- The piece that a lexeme is. -/
def piece (l : Lexeme) : Piece :=
  match l.token with
  | some t => .token t none
  | none => .blank

/-- In front of `rest`, the lexeme is read as what it is. -/
def ReadBefore (l : Lexeme) (rest : List Char) : Prop :=
  ∃ c cs, l.text = c :: cs ∧ Piece.scan c (cs ++ rest) = (l.piece, cs.length)

/-- The text of several lexemes. -/
def texts (ls : List Lexeme) : List Char := ls.flatMap text

/-- Each of the lexemes is read as what it is, the last one in front of `rest`. -/
def AllRead : List Lexeme → (rest : List Char) → Prop
  | [], _ => True
  | l :: ls, rest => l.ReadBefore (texts ls ++ rest) ∧ AllRead ls rest

/-- The tokens of lexemes whose text begins at byte `here`. -/
def located (here : Nat) : List Lexeme → List Located
  | [] => []
  | l :: ls =>
    (l.token.map fun t => ⟨t, ⟨here, here + size l.text⟩⟩).toList ++
      located (here + size l.text) ls

@[simp] theorem texts_nil : texts [] = [] := rfl

@[simp] theorem texts_cons (l : Lexeme) (ls : List Lexeme) : texts (l :: ls) = l.text ++ texts ls :=
  List.flatMap_cons

@[simp] theorem texts_append (ls ls' : List Lexeme) : texts (ls ++ ls') = texts ls ++ texts ls' :=
  List.flatMap_append

theorem allRead_append {ls ls' : List Lexeme} {rest : List Char} :
    AllRead (ls ++ ls') rest ↔ AllRead ls (texts ls' ++ rest) ∧ AllRead ls' rest := by
  induction ls with
  | nil => simp [AllRead]
  | cons l ls ih => simp [AllRead, ih, and_assoc]

theorem located_cons_token {l : Lexeme} {t : Token} (h : l.token = some t) (here : Nat)
    (ls : List Lexeme) :
    located here (l :: ls) =
      ⟨t, ⟨here, here + size l.text⟩⟩ :: located (here + size l.text) ls := by
  rw [located, h]
  rfl

theorem located_cons_blank {l : Lexeme} (h : l.token = none) (here : Nat) (ls : List Lexeme) :
    located here (l :: ls) = located (here + size l.text) ls := by
  rw [located, h]
  rfl

theorem located_append (here : Nat) (ls ls' : List Lexeme) :
    located here (ls ++ ls') = located here ls ++ located (here + size (texts ls)) ls' := by
  induction ls generalizing here with
  | nil => rfl
  | cons l ls ih => simp [located, ih, size_append, Nat.add_assoc]

/-! ## Reading several lexemes -/

theorem pieces_of_readBefore {l : Lexeme} {rest : List Char} (h : l.ReadBefore rest) (here : Nat) :
    pieces here (l.text ++ rest) =
      ⟨l.piece, ⟨here, here + size l.text⟩⟩ :: pieces (here + size l.text) rest := by
  obtain ⟨c, cs, htext, hscan⟩ := h
  rw [htext, List.cons_append, pieces, hscan]
  simp

theorem ReadBefore.not_newline {l : Lexeme} {rest : List Char} (h : l.ReadBefore rest) {t : Token}
    (ht : l.token = some t) : t.isNewline = false := by
  obtain ⟨c, cs, -, hscan⟩ := h
  have hpiece : (Piece.scan c (cs ++ rest)).1 = .token t none := by
    rw [hscan, piece, ht]
  exact (Piece.scan_token hpiece).notNewline

/-- No line break is dropped, since there is none, and no token is. -/
theorem settled_of_allRead : ∀ {ls : List Lexeme} (here : Nat) {stack : List Located},
    AllRead ls [] → (∀ t ∈ stack, t.token.isNewline = false) →
    (pieces here (texts ls)).foldl Located.settleOne stack = (located here ls).reverse ++ stack
  | [], here, stack, _, _ => by
    rw [texts_nil, pieces]
    rfl
  | l :: ls, here, stack, ⟨hl, hls⟩, hstack => by
    rw [List.append_nil] at hl
    rw [texts_cons, pieces_of_readBefore hl, List.foldl_cons]
    cases ht : l.token with
    | none =>
      have hone : Located.settleOne stack ⟨l.piece, ⟨here, here + size l.text⟩⟩ = stack := by
        rw [piece, ht]
        rfl
      rw [hone, settled_of_allRead _ hls hstack, located, ht]
      rfl
    | some t =>
      have hone : Located.settleOne stack ⟨l.piece, ⟨here, here + size l.text⟩⟩ =
          ⟨t, ⟨here, here + size l.text⟩⟩ :: stack := by
        rw [piece, ht]
        cases stack with
        | nil => rfl
        | cons last stack =>
          have hlast := hstack last List.mem_cons_self
          simp [Located.settleOne, Located.push, hlast]
      have hstack' : ∀ u ∈ ⟨t, ⟨here, here + size l.text⟩⟩ :: stack, u.token.isNewline = false :=
        List.forall_mem_cons.mpr ⟨hl.not_newline ht, hstack⟩
      rw [hone, settled_of_allRead _ hls hstack', located, ht]
      simp

theorem diagnostics_of_allRead : ∀ {ls : List Lexeme} (here : Nat), AllRead ls [] →
    (pieces here (texts ls)).filterMap LocatedPiece.diagnostic? = []
  | [], here, _ => by
    rw [texts_nil, pieces]
    rfl
  | l :: ls, here, ⟨hl, hls⟩ => by
    rw [List.append_nil] at hl
    have hnone : LocatedPiece.diagnostic? ⟨l.piece, ⟨here, here + size l.text⟩⟩ = none := by
      unfold piece
      cases l.token <;> rfl
    rw [texts_cons, pieces_of_readBefore hl, List.filterMap_cons_none hnone,
      diagnostics_of_allRead _ hls]

theorem not_newline_of_mem_located : ∀ {ls : List Lexeme} {here : Nat} {rest : List Char},
    AllRead ls rest → ∀ t ∈ located here ls, t.token.isNewline = false
  | [], _, _, _, t, ht => nomatch ht
  | l :: ls, here, rest, ⟨hl, hls⟩, t, ht => by
    rcases List.mem_append.mp ht with ht | ht
    · obtain ⟨u, hu, rfl⟩ := Option.map_eq_some_iff.mp (Option.mem_toList.mp ht)
      exact hl.not_newline hu
    · exact not_newline_of_mem_located hls t ht

end Lexeme

open Lexeme

/-- **Texts made of lexemes**: the tokens of the lexemes are read, and nothing is wrong with
them. -/
theorem tokenize_of_allRead {ls : List Lexeme} (h : AllRead ls []) {source : String}
    (hsource : source.toList = texts ls) :
    tokenize source =
      (located 0 ls ++ [⟨.endOfSource, ⟨size (texts ls), size (texts ls)⟩⟩], []) := by
  have hsettled : (pieces 0 (texts ls)).foldl Located.settleOne [] = (located 0 ls).reverse := by
    rw [settled_of_allRead 0 h (List.forall_mem_nil _), List.append_nil]
  rw [tokenize, hsource, diagnostics_of_allRead 0 h, Located.settle, hsettled]
  cases hlast : (located 0 ls).reverse with
  | nil => simp [List.reverse_eq_nil_iff.mp hlast]
  | cons t ts =>
    have ht : t.token.isNewline = false :=
      not_newline_of_mem_located h t (List.mem_reverse.mp (hlast ▸ List.mem_cons_self))
    simp [ht, ← hlast]

/-! ## Sorts of lexemes -/

/-- What may stand behind a value: nothing, or what ends an item or an entry. -/
def Lexical.Ends (rest : List Char) : Prop := ∀ c ∈ rest.head?, c ∈ [',', ']', '\x7d']

theorem Lexical.Ends.all {rest : List Char} (h : Ends rest) {p : Char → Bool}
    (hp : [',', ']', '\x7d'].any p = false) : ∀ c ∈ rest.head?, p c = false :=
  fun c hc => Bool.eq_false_iff.mpr (List.any_eq_false.mp hp c (h c hc))

/-- A run of characters ends where the next character does not belong to it. -/
theorem takeWhile_append_of_stop {p : Char → Bool} {cs rest : List Char}
    (hcs : ∀ c ∈ cs, p c = true) (hrest : ∀ c ∈ rest.head?, p c = false) :
    (cs ++ rest).takeWhile p = cs ∧ (cs ++ rest).dropWhile p = rest := by
  have hstop : rest.takeWhile p = [] ∧ rest.dropWhile p = rest := by
    cases rest with
    | nil => exact ⟨rfl, rfl⟩
    | cons c rest =>
      have hc : ¬ p c = true := by simpa using hrest c rfl
      exact ⟨List.takeWhile_cons_of_neg hc, List.dropWhile_cons_of_neg hc⟩
  rw [List.takeWhile_append_of_pos hcs, List.dropWhile_append_of_pos hcs, hstop.1, hstop.2]
  exact ⟨List.append_nil cs, rfl⟩

theorem Lexical.run_append_of_stop {p : Char → Bool} {cs rest : List Char}
    (hcs : ∀ c ∈ cs, p c = true) (hrest : ∀ c ∈ rest.head?, p c = false) :
    run p (cs ++ rest) = cs.length := by
  rw [run, (takeWhile_append_of_stop hcs hrest).1]

namespace Piece

/-- A digit or a letter begins no gap, string or selector. -/
theorem scan_of_class {p : Char → Bool}
    (hp : [' ', '\t', '/', '\n', '\r', '"', '@'].any p = false) {c : Char} (hc : p c = true)
    (cs : List Char) :
    scan c cs =
      if c.isDigit then
        let number := NumberBody.read (c :: cs)
        let (read, issue) := number.token (taken (c :: cs) number.length)
        (.token read issue, number.length - 1)
      else if isNameStart c then scanName c cs
      else scanMark c cs := by
  have hne : ∀ d ∈ [' ', '\t', '/', '\n', '\r', '"', '@'], c ≠ d := by
    rintro d hd rfl
    exact List.any_eq_false.mp hp c hd hc
  simp only [List.forall_mem_cons] at hne
  simp [scan, isBreak, hne]

theorem scan_of_isNameStart {c : Char} (hc : isNameStart c = true) (cs : List Char) :
    scan c cs = scanName c cs := by
  have hdigit : c.isDigit = false := by
    by_contra hd
    have hlow := toNat_of_isDigit (Bool.not_eq_false _ ▸ hd)
    rcases Bool.or_eq_true_iff.mp hc with hc | hc
    · have := toNat_of_isAlpha hc
      omega
    · obtain rfl := of_decide_eq_true hc
      exact absurd hlow (by decide)
  rw [scan_of_class (by decide) hc, hdigit, if_neg Bool.false_ne_true, if_pos hc]

end Piece

namespace Lexeme

/-! ### Marks and blanks -/

/-- A mark as it is written. -/
def mark (m : Mark) : Lexeme := ⟨m.text.toList, some (.mark m)⟩

/-- One blank. -/
def blank : Lexeme := ⟨[' '], none⟩

theorem readBefore_mark {m : Mark}
    (hm : m ∈ [.comma, .colon, .lbrace, .rbrace, .lbracket, .rbracket, .dotDot])
    (rest : List Char) : (mark m).ReadBefore rest := by
  simp only [List.mem_cons, List.not_mem_nil, or_false] at hm
  rcases hm with rfl | rfl | rfl | rfl | rfl | rfl | rfl <;> exact ⟨_, _, rfl, rfl⟩

theorem readBefore_minus {rest : List Char} (h : rest.head? ≠ some '=') :
    (mark .minus).ReadBefore rest := by
  refine ⟨'-', [], rfl, ?_⟩
  cases rest with
  | nil => rfl
  | cons c rest =>
    have hc : '=' ≠ c := fun hc => h (by rw [← hc]; rfl)
    simp [Piece.scan, isBreak, isNameStart, Piece.scanMark, Mark.all, Mark.text, after?, hc]
    exact ⟨rfl, rfl⟩

theorem readBefore_blank {rest : List Char} (h : ∀ c ∈ rest.head?, c ≠ ' ' ∧ c ≠ '\t') :
    blank.ReadBefore rest := by
  refine ⟨' ', [], rfl, ?_⟩
  have hstop : ∀ c ∈ rest.head?, (decide (c = ' ') || decide (c = '\t')) = false := by
    intro c hc
    simpa using h c hc
  rw [Piece.scan, if_pos (by decide), run_append_of_stop (List.forall_mem_nil _) hstop]
  rfl

/-! ### Strings -/

/-- A string in quotes. -/
def quoted (s : String) : Lexeme := ⟨(quote s).toList, some (.string s)⟩

theorem read_escape {c : Char} (hc : c ≠ '\r') (cs : List Char) :
    StringBody.read (escape c ++ cs) =
      ⟨c :: (StringBody.read cs).value, (StringBody.read cs).length + (escape c).length,
        (StringBody.read cs).closed⟩ := by
  unfold escape
  split_ifs with hquote hslash hfeed htab
  · subst hquote
    rfl
  · subst hslash
    rfl
  · subst hfeed
    rfl
  · subst htab
    rfl
  · have hbreak : isBreak c = false := by simp [isBreak, hfeed, hc]
    rw [List.singleton_append, StringBody.read, if_neg hquote, hbreak]
    · rfl
    · exact fun h => absurd h hslash
    · exact fun d ds h => absurd h hslash

/-- The escaped characters in front of a text are read as what they stand for. -/
theorem read_escapeAll_append : ∀ {cs : List Char}, '\r' ∉ cs → ∀ rest : List Char,
    StringBody.read (escapeAll cs ++ rest) =
      ⟨cs ++ (StringBody.read rest).value, (StringBody.read rest).length + (escapeAll cs).length,
        (StringBody.read rest).closed⟩
  | [], _, rest => rfl
  | c :: cs, h, rest => by
    obtain ⟨hc, hcs⟩ := not_or.mp (List.mem_cons.not.mp h)
    have ih := read_escapeAll_append hcs rest
    rw [escapeAll] at ih
    rw [escapeAll, List.flatMap_cons, List.append_assoc, read_escape (Ne.symm hc), ih,
      List.length_append]
    simp only [StringBody.mk.injEq, List.cons_append, and_true, true_and]
    omega

theorem read_escapeAll {cs : List Char} (h : '\r' ∉ cs) (rest : List Char) :
    StringBody.read (escapeAll cs ++ '"' :: rest) = ⟨cs, (escapeAll cs).length + 1, true⟩ := by
  have hquote : StringBody.read ('"' :: rest) = ⟨[], 1, true⟩ := rfl
  rw [read_escapeAll_append h, hquote, List.append_nil, Nat.add_comm]

theorem readBefore_quoted {s : String} (h : '\r' ∉ s.toList) (rest : List Char) :
    (quoted s).ReadBefore rest := by
  have htext : (quoted s).text = '"' :: (escapeAll s.toList ++ ['"']) := by
    rw [quoted, quote, String.toList_ofList, List.cons_append]
  refine ⟨'"', escapeAll s.toList ++ ['"'], htext, ?_⟩
  rw [Piece.scan, if_neg (by decide), if_neg (by simp), if_neg (by decide), if_pos rfl,
    List.append_assoc, List.singleton_append, read_escapeAll h]
  simp [piece, quoted]

/-! ### Numbers -/

/-- The magnitude of an integer. -/
def magnitude (w : Width) (n : Nat) : Lexeme :=
  ⟨Nat.toDigits 10 n ++ w.suffix.toList, some (.integer w n)⟩

/-- What may stand behind the magnitude of an integer: the end of a value, or the points of a
range. -/
def EndsMagnitude (w : Width) (rest : List Char) : Prop :=
  Ends rest ∨ w = .int ∧ ∃ more, rest = '.' :: '.' :: more

theorem read?_of_ends {rest : List Char} (h : Ends rest) : Suffix.read? rest = none := by
  cases rest with
  | nil => rfl
  | cons c rest =>
    have hnone : Suffix.ofChar? c = none := by
      simpa using h.all (p := fun d => (Suffix.ofChar? d).isSome) (by decide) c rfl
    simp [Suffix.read?, hnone]

/-- The letter of a width is read as the width. -/
theorem read?_suffix {w : Width} (hw : w ≠ .int) {rest : List Char} (h : Ends rest) :
    Suffix.read? (w.suffix.toList ++ rest) = some (.integer w) := by
  have hname : rest.head?.any isNamePart = false := by
    rw [Option.any_eq_false]
    exact h.all (by decide)
  cases w with
  | int => exact absurd rfl hw
  | byte => simp [Width.suffix, Suffix.read?, hname, Suffix.ofChar?]
  | short => simp [Width.suffix, Suffix.read?, hname, Suffix.ofChar?]
  | long => simp [Width.suffix, Suffix.read?, hname, Suffix.ofChar?]

theorem read_of_stop {ds tail : List Char} (hds : ∀ d ∈ ds, d.isDigit = true)
    (htail : ∀ c ∈ tail.head?, (c.isDigit || c = '.') = false) :
    NumberBody.read (ds ++ tail) = ⟨ds, none, Suffix.read? tail⟩ := by
  have hdigit : ∀ c ∈ tail.head?, c.isDigit = false := fun c hc =>
    (Bool.or_eq_false_iff.mp (htail c hc)).1
  obtain ⟨htake, hdrop⟩ := takeWhile_append_of_stop hds hdigit
  rw [NumberBody.read, htake, hdrop]
  dsimp only
  split
  · exact absurd (htail '.' rfl) (by decide)
  · rfl

theorem read_magnitude {ds : List Char} (hds : ∀ d ∈ ds, d.isDigit = true) {w : Width}
    {rest : List Char} (h : EndsMagnitude w rest) :
    NumberBody.read (ds ++ (w.suffix.toList ++ rest)) =
      ⟨ds, none, if w = .int then none else some (.integer w)⟩ := by
  by_cases hw : w = .int
  · subst hw
    rcases h with hends | ⟨-, more, rfl⟩
    · rw [if_pos rfl, ← read?_of_ends hends]
      exact read_of_stop hds (hends.all (by decide))
    · -- the first point is not one of a fraction, since no digit follows
      have hpoint : ∀ c ∈ ('.' :: '.' :: more).head?, c.isDigit = false := by
        intro c hc
        cases hc
        rfl
      obtain ⟨htake, hdrop⟩ := takeWhile_append_of_stop hds hpoint
      show NumberBody.read (ds ++ '.' :: '.' :: more) = _
      rw [NumberBody.read, htake, hdrop]
      rfl
  · have hends : Ends rest := h.resolve_right fun hint => hw hint.1
    rw [if_neg hw, ← read?_suffix hw hends]
    refine read_of_stop hds ?_
    cases w with
    | int => exact absurd rfl hw
    | _ => simp +decide [Width.suffix]

theorem token_magnitude {ds : List Char} {n : Nat} (hds : Decimal.natural ds = n)
    (hn : n < Nat.pow 2 63) (w : Width) (text : String) :
    NumberBody.token ⟨ds, none, if w = .int then none else some (.integer w)⟩ text =
      (.integer w n, none) := by
  have hlt : Decimal.natural ds < Nat.pow 2 63 := by rwa [hds]
  cases w <;>
    · show (if Decimal.natural ds < Nat.pow 2 63 then (Token.integer _ (Decimal.natural ds), none)
        else _) = _
      rw [if_pos hlt, hds]

theorem length_magnitude (ds : List Char) (w : Width) :
    NumberBody.length ⟨ds, none, if w = .int then none else some (.integer w)⟩ =
      ds.length + w.suffix.toList.length := by
  cases w <;> rfl

theorem readBefore_magnitude {w : Width} {n : Nat} (hn : n < Nat.pow 2 63) {rest : List Char}
    (h : EndsMagnitude w rest) : (magnitude w n).ReadBefore rest := by
  have hdigits : ∀ d ∈ Nat.toDigits 10 n, d.isDigit = true := fun d hd =>
    Nat.isDigit_of_mem_toDigits (by decide) (by decide) hd
  obtain ⟨c, cs, hcs⟩ := List.exists_cons_of_ne_nil (Nat.toDigits_ne_nil (n := n) (b := 10))
  have hc : c.isDigit = true := hdigits c (by rw [hcs]; exact List.mem_cons_self)
  have hread := read_magnitude hdigits h
  rw [hcs, List.cons_append, ← List.append_assoc] at hread
  have hnatural : Decimal.natural (c :: cs) = n := by
    rw [← hcs]
    exact Word.foldl_digits n
  refine ⟨c, cs ++ w.suffix.toList, by rw [magnitude, hcs, List.cons_append], ?_⟩
  rw [Piece.scan_of_class (by decide) hc, if_pos hc, hread]
  dsimp only
  rw [token_magnitude hnatural hn, length_magnitude, List.length_cons, List.length_append,
    Nat.add_right_comm, Nat.add_sub_cancel]
  rfl

/-! ### Words -/

/-- A name as it is written. -/
def name (x : String) : Lexeme := ⟨x.toList, some (.name x)⟩

/-- A keyword as it is written. -/
def keyword (k : Keyword) : Lexeme := ⟨k.text.toList, some (.keyword k)⟩

theorem scanName_word {c : Char} {cs rest : List Char} (hcs : ∀ d ∈ cs, isNamePart d = true)
    (hrest : ∀ d ∈ rest.head?, isNamePart d = false)
    (hcolon : ∀ d more, rest = ':' :: d :: more → isNameStart d = false) :
    Piece.scanName c (cs ++ rest) =
      (.token (Piece.scanName.word (String.ofList (c :: cs))) none, cs.length) := by
  have hrun := run_append_of_stop hcs hrest
  have htaken : taken (c :: (cs ++ rest)) (cs.length + 1) = String.ofList (c :: cs) := by
    rw [taken, List.take_succ_cons, List.take_left]
  unfold Piece.scanName
  dsimp only
  rw [hrun, List.drop_left, htaken]
  split
  · rename_i d more
    rw [hcolon d more rfl]
    rfl
  · rfl

theorem readBefore_word {x : String} (hx : isIdentifier x = true) {rest : List Char}
    (hrest : ∀ d ∈ rest.head?, isNamePart d = false)
    (hcolon : ∀ d more, rest = ':' :: d :: more → isNameStart d = false) :
    ReadBefore ⟨x.toList, some (Piece.scanName.word x)⟩ rest := by
  unfold isIdentifier at hx
  split at hx
  · cases hx
  · rename_i c cs htext
    obtain ⟨hc, hcs⟩ := Bool.and_eq_true_iff.mp hx
    refine ⟨c, cs, htext, ?_⟩
    rw [Piece.scan_of_isNameStart hc, scanName_word (List.all_eq_true.mp hcs) hrest hcolon, ← htext,
      String.ofList_toList]
    rfl

/-- The key of an entry ends where the colon stands. -/
theorem readBefore_name {x : String} (hx : isIdentifier x = true) (hword : Keyword.ofText? x = none)
    (rest : List Char) : (name x).ReadBefore (':' :: ' ' :: rest) := by
  have hname : Piece.scanName.word x = .name x := by rw [Piece.scanName.word, hword]
  rw [name, ← hname]
  refine readBefore_word hx ?_ ?_
  · intro d hd
    cases hd
    rfl
  · intro d more h
    cases h
    rfl

/-- A truth value ends with the value. -/
theorem readBefore_truth (b : Bool) {rest : List Char} (h : Ends rest) :
    (keyword (if b then .trueKw else .falseKw)).ReadBefore rest := by
  have hcolon : ∀ d more, rest = ':' :: d :: more → isNameStart d = false := by
    rintro d more rfl
    exact absurd (h ':' rfl) (by decide)
  cases b with
  | false => exact readBefore_word (x := "false") (by decide) (h.all (by decide)) hcolon
  | true => exact readBefore_word (x := "true") (by decide) (h.all (by decide)) hcolon

/-! ### Resource ids and selectors -/

/-- A resource id as it is written. -/
def resource (text : String) : Lexeme := ⟨text.toList, some (.resource text)⟩

/-- A selector as it is written. -/
def selector (text : String) : Lexeme := ⟨text.toList, some (.selector text)⟩

/-- A resource id ends where no character of a path stands. -/
theorem readBefore_resource {text : String} (htext : ResourceText text.toList) {rest : List Char}
    (h : ∀ c ∈ rest.head?, isPathPart c = false) : (resource text).ReadBefore rest := by
  obtain ⟨c, space, d, path, heq, hc, hspace, hd, hpath⟩ := htext
  have hcolon : ∀ e ∈ (':' :: d :: (path ++ rest)).head?, isNamePart e = false := by
    intro e he
    cases he
    rfl
  have hspaceRun := run_append_of_stop hspace hcolon
  have hpathRun : run isPathPart (d :: (path ++ rest)) = path.length + 1 := by
    rw [← List.cons_append]
    exact run_append_of_stop (List.forall_mem_cons.mpr ⟨isPathPart_of_isNameStart hd, hpath⟩) h
  have hlength : text.toList.length = space.length + 1 + (path.length + 1) + 1 := by
    simp only [heq, List.cons_append, List.length_append, List.length_cons]
    omega
  have htaken : taken (c :: (space ++ ':' :: d :: (path ++ rest)))
      (space.length + 1 + (path.length + 1) + 1) = text := by
    have hwhole : c :: (space ++ ':' :: d :: (path ++ rest)) = text.toList ++ rest := by simp [heq]
    rw [taken, hwhole, ← hlength, List.take_left, String.ofList_toList]
  refine ⟨c, space ++ ':' :: d :: path, heq, ?_⟩
  rw [Piece.scan_of_isNameStart hc]
  unfold Piece.scanName
  simp only [List.append_assoc, List.cons_append]
  rw [hspaceRun, List.drop_left]
  simp only [hd, if_true, hpathRun, htaken]
  refine Prod.ext rfl ?_
  simp only [List.length_append, List.length_cons]
  omega

theorem readBefore_selector {text : String} (htext : SelectorText text.toList) {rest : List Char}
    (h : Ends rest) : (selector text).ReadBefore rest := by
  obtain ⟨kind, inner, heq, hkind, hinner⟩ := htext
  have hname : ∀ e ∈ [kind], isNamePart e = true := by
    have hletters : Selector.kinds.all isNamePart = true := by decide
    exact List.forall_mem_singleton.mpr (List.all_eq_true.mp hletters kind hkind)
  have hstop : ∀ e ∈ (inner ++ rest).head?, isNamePart e = false := by
    rcases hinner with rfl | ⟨hhead, -⟩
    · exact h.all (by decide)
    · obtain ⟨more, rfl⟩ := List.head?_eq_some_iff.mp hhead
      intro e he
      cases he
      rfl
  have hrun : run isNamePart (kind :: (inner ++ rest)) = 1 := run_append_of_stop hname hstop
  have htaken : taken ('@' :: kind :: (inner ++ rest)) (inner.length + 2) = text := by
    rw [taken, List.take_succ_cons, List.take_succ_cons, List.take_left, ← heq,
      String.ofList_toList]
  have hpiece : ∀ read : Nat × Bool, read = (inner.length, true) →
      (Piece.token (.selector (taken ('@' :: kind :: (inner ++ rest)) (read.1 + 2)))
        (if read.2 then none else some .unterminatedSelector), read.1 + 1) =
        ((selector text).piece, (kind :: inner).length) := by
    rintro _ rfl
    dsimp only
    rw [htaken]
    rfl
  refine ⟨'@', kind :: inner, heq, ?_⟩
  show Piece.scanAt (kind :: (inner ++ rest)) = _
  unfold Piece.scanAt
  dsimp only
  rw [hrun, List.drop_one, List.tail_cons]
  dsimp only [List.take_succ_cons, List.take_zero]
  rw [if_pos hkind]
  refine hpiece _ ?_
  rcases hinner with rfl | ⟨hhead, hlength⟩
  · rw [List.nil_append]
    split
    · exact absurd (h '[' rfl) (by decide)
    · rfl
  · obtain ⟨more, rfl⟩ := List.head?_eq_some_iff.mp hhead
    have htake := (argumentLength_take hlength).2 rest
    rwa [List.take_length] at htake

end Lexeme

end Packwright
