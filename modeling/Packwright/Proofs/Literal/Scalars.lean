import Packwright.Proofs.Literal.Reading
import Packwright.Proofs.Precedence.Reading
import Packwright.Tree.Literal
import Mathlib.Algebra.Ring.Int.Defs

/-!
# Which strings and integers are literals

A string is read back from its text unless there is a carriage return in it: `Text.quote` leaves
that as it is, and for the reader it ends the line.  An integer is read back from its text unless it
is the least one of 64 bits: its magnitude is read in front of its sign, and no width holds it.

* `tokenize_quote`: the tokens of a string in quotes.
* `Numeral`: decimal digits of any number, with or without a sign.
* `Numeral.allRead_lexemes`, `Numeral.diagnostics_tokenize`: the tokens of a numeral, unless no
  width holds its magnitude.
* `Parse.expression_number`: a number and nothing else is read as its literal.
* `Numeral.parseLiteral?_eq`: what a numeral with the letter of a width is read as.
* `integer_literals`: which integers are literals of a width.
-/

namespace Packwright

open Lexical Text Lexeme

/-! ## Strings -/

theorem scan_quote_return {cs : List Char} (h : '\r' ∉ cs) (rest : List Char) :
    Piece.scan '"' (escapeAll cs ++ '\r' :: rest) =
      (.token (.string (String.ofList cs)) (some .unterminatedString), (escapeAll cs).length) := by
  have hreturn : StringBody.read ('\r' :: rest) = ⟨[], 0, false⟩ := rfl
  rw [Piece.scan, if_neg (by decide), if_neg (by simp), if_neg (by decide), if_pos rfl,
    read_escapeAll_append h, hreturn, List.append_nil, Nat.zero_add]
  rfl

/-- A string ends in front of its first carriage return, and nothing has closed it. -/
theorem mem_tokenize_quote_of_return {s : String} {cs rest : List Char}
    (hs : s.toList = cs ++ '\r' :: rest) (hcs : '\r' ∉ cs) :
    ⟨.unterminatedString, ⟨0, size ('"' :: escapeAll cs)⟩⟩ ∈ (tokenize (quote s)).2 := by
  have htext : (quote s).toList = '"' :: (escapeAll cs ++ '\r' :: (escapeAll rest ++ ['"'])) := by
    rw [quote, String.toList_ofList, hs, escapeAll, List.flatMap_append, List.flatMap_cons]
    simp [escapeAll, escape]
  have htake : (escapeAll cs ++ '\r' :: (escapeAll rest ++ ['"'])).take (escapeAll cs).length =
      escapeAll cs := List.take_left
  rw [tokenize, htext, pieces, scan_quote_return hcs]
  dsimp only
  rw [htake, Nat.zero_add]
  exact List.mem_filterMap.mpr ⟨_, List.mem_cons_self, rfl⟩

/-- **Strings read back**: from the text of a string, this string is read, with nothing behind it
and nothing wrong, if and only if no carriage return is in it. -/
theorem tokenize_quote (s : String) :
    ((tokenize (Value.string s).render).1.map Located.token = [.string s, .endOfSource] ∧
      (tokenize (Value.string s).render).2 = []) ↔ '\r' ∉ s.toList := by
  rw [Value.render]
  constructor
  · rintro ⟨-, hclean⟩ hreturn
    obtain ⟨cs, rest, hs, hcs⟩ := List.eq_append_cons_of_mem hreturn
    have hissue := mem_tokenize_quote_of_return hs hcs
    rw [hclean] at hissue
    cases hissue
  · intro hreturn
    have hread : AllRead [quoted s] [] := ⟨readBefore_quoted hreturn _, trivial⟩
    have htext : (quote s).toList = texts [quoted s] := by
      rw [texts_cons, texts_nil, List.append_nil, quoted]
    rw [tokenize_of_allRead hread htext]
    exact ⟨rfl, rfl⟩

/-- A carriage return behind a backslash is read into a string, whose text is then read as two
strings on two lines, neither of which is closed. -/
theorem tokenize_quote_return :
    (parseLiteral? .string "\"\\\r\"").map Value.plain = some "\r" ∧
      (tokenize (Value.string "\r").render).1.map (·.token.describe) =
        ["String(\"\")", "Newline", "String(\"\")", "Eof"] ∧
      (tokenize (Value.string "\r").render).2.map (·.issue.message) =
        ["Unterminated string literal", "Unterminated string literal"] := by
  decide +kernel

/-! ## Numerals -/

/-- Decimal digits, at least one, with or without a minus sign in front of them. -/
structure Numeral where
  negative : Bool
  digits : List Char
  isDigit : ∀ d ∈ digits, d.isDigit = true
  nonempty : digits ≠ []

namespace Numeral

variable (n : Numeral)

/-- The number of the digits. -/
def magnitude : Nat := Decimal.natural n.digits

/-- The integer that a numeral stands for. -/
def value : Int := if n.negative then -(n.magnitude : Int) else n.magnitude

/-- The parts of a number of a width. -/
def body (w : Width) : NumberBody :=
  ⟨n.digits, none, if w = .int then none else some (.integer w)⟩

/-- A numeral as it is written. -/
def text : String := String.ofList (if n.negative then '-' :: n.digits else n.digits)

/-- The shortest numeral of an integer. -/
def ofInt (z : Int) : Numeral where
  negative := z < 0
  digits := Nat.toDigits 10 z.natAbs
  isDigit _ hd := Nat.isDigit_of_mem_toDigits (by decide) (by decide) hd
  nonempty := Nat.toDigits_ne_nil

theorem magnitude_ofInt (z : Int) : (ofInt z).magnitude = z.natAbs := Word.foldl_digits z.natAbs

theorem value_ofInt (z : Int) : (ofInt z).value = z := by
  rw [value, magnitude_ofInt]
  show (if decide (z < 0) = true then -(z.natAbs : Int) else z.natAbs) = z
  simp only [decide_eq_true_eq]
  split <;> omega

theorem text_ofInt (z : Int) : (ofInt z).text = toString z := by
  apply String.toList_inj.mp
  rw [text, String.toList_ofList]
  cases z with
  | ofNat n =>
    rw [Int.ofNat_eq_natCast, Word.toList_toString_ofNat]
    simp [ofInt]
  | negSucc n =>
    rw [Word.toList_toString_neg]
    simp [ofInt]

/-- The lexemes of a numeral with a letter behind it. -/
def lexemes (w : Width) (letter : String) : List Lexeme :=
  let digits : Lexeme := ⟨n.digits ++ letter.toList, some (.integer w n.magnitude)⟩
  if n.negative then [mark .minus, digits] else [digits]

theorem texts_lexemes (w : Width) (letter : String) :
    texts (n.lexemes w letter) = (n.text ++ letter).toList := by
  unfold lexemes text
  cases n.negative <;> simp [mark, Mark.text]

theorem readBefore_sign (rest : List Char) : (mark .minus).ReadBefore (n.digits ++ rest) := by
  obtain ⟨d, ds, hds⟩ := List.exists_cons_of_ne_nil n.nonempty
  have hd : d.isDigit = true := n.isDigit d (hds ▸ List.mem_cons_self)
  refine readBefore_minus ?_
  rw [hds]
  rintro ⟨rfl⟩
  cases hd

end Numeral

/-- The letters that can stand behind an integer of a width; there are none behind a plain one. -/
def Width.letters : Width → List String
  | byte => ["b", "B"]
  | short => ["s", "S"]
  | int => [""]
  | long => ["L", "l"]

theorem Width.suffix_mem_letters (w : Width) : w.suffix ∈ w.letters := by
  cases w <;> decide

section Letters

variable {w : Width} {letter : String} (h : letter ∈ w.letters)

include h

theorem Suffix.read?_letter :
    Suffix.read? letter.toList = if w = .int then none else some (.integer w) := by
  cases w <;> simp only [Width.letters, List.mem_cons, List.not_mem_nil, or_false] at h
  case int =>
    subst h
    rfl
  all_goals
    rcases h with rfl | rfl <;> rfl

theorem Width.stop_letter : ∀ c ∈ letter.toList.head?, (c.isDigit || c = '.') = false := by
  cases w <;> simp only [Width.letters, List.mem_cons, List.not_mem_nil, or_false] at h
  case int =>
    subst h
    rintro c ⟨⟩
  all_goals
    rcases h with rfl | rfl <;> rintro c ⟨⟩ <;> rfl

theorem Width.length_letter : letter.toList.length = w.suffix.toList.length := by
  have hall : ∀ w : Width, ∀ x ∈ w.letters, x.toList.length = w.suffix.toList.length := by
    intro w
    cases w <;> decide
  exact hall w letter h

namespace Numeral

variable (n : Numeral)

theorem read_digits : NumberBody.read (n.digits ++ letter.toList) = n.body w := by
  rw [read_of_stop n.isDigit (Width.stop_letter h), Suffix.read?_letter h, body]

theorem length_body : (n.body w).length = (n.digits ++ letter.toList).length := by
  rw [body, length_magnitude, List.length_append, Width.length_letter h]

/-- The digits and the letter behind them are one piece. -/
theorem scan_digits {c : Char} {cs : List Char} (hcs : n.digits ++ letter.toList = c :: cs) :
    Piece.scan c cs =
      (.token ((n.body w).token (String.ofList (c :: cs))).1
        ((n.body w).token (String.ofList (c :: cs))).2, cs.length) := by
  have hc : c.isDigit = true := by
    obtain ⟨d, ds, hds⟩ := List.exists_cons_of_ne_nil n.nonempty
    rw [hds, List.cons_append] at hcs
    exact n.isDigit c (hds ▸ (List.cons.inj hcs).1 ▸ List.mem_cons_self)
  have hread := n.read_digits h
  have hlength := n.length_body h
  rw [hcs] at hread hlength
  rw [Piece.scan_of_class (by decide) hc, if_pos hc, hread]
  dsimp only
  rw [hlength, taken, List.take_length]
  rfl

theorem allRead_lexemes (hn : n.magnitude < Nat.pow 2 63) : AllRead (n.lexemes w letter) [] := by
  have hdigits : ReadBefore ⟨n.digits ++ letter.toList, some (.integer w n.magnitude)⟩ [] := by
    obtain ⟨c, cs, hcs⟩ := List.exists_cons_of_ne_nil
      (List.append_ne_nil_of_left_ne_nil n.nonempty letter.toList)
    refine ⟨c, cs, hcs, ?_⟩
    rw [List.append_nil, n.scan_digits h hcs, body, token_magnitude rfl hn]
    rfl
  unfold lexemes
  split
  · refine ⟨?_, hdigits, trivial⟩
    rw [texts_cons, texts_nil, List.append_nil, List.append_nil]
    exact n.readBefore_sign _
  · exact ⟨hdigits, trivial⟩

/-- A magnitude that no width holds is an issue wherever it stands. -/
theorem diagnostics_digits (hn : ¬ n.magnitude < Nat.pow 2 63) (here : Nat) :
    (pieces here (n.digits ++ letter.toList)).filterMap LocatedPiece.diagnostic? ≠ [] := by
  obtain ⟨c, cs, hcs⟩ := List.exists_cons_of_ne_nil
    (List.append_ne_nil_of_left_ne_nil n.nonempty letter.toList)
  have htoken : ∀ text, (n.body w).token text =
      (.integer .int 0, some (.numberOutOfRange text)) := by
    intro text
    have hlarge : ¬ Decimal.natural n.digits < Nat.pow 2 63 := hn
    cases w <;> simp [body, NumberBody.token, hlarge]
  rw [hcs, pieces, n.scan_digits h hcs, htoken]
  exact List.cons_ne_nil _ _

theorem diagnostics_tokenize (hn : ¬ n.magnitude < Nat.pow 2 63) :
    (tokenize (n.text ++ letter)).2 ≠ [] := by
  have htext : (n.text ++ letter).toList =
      (if n.negative then ['-'] else []) ++ (n.digits ++ letter.toList) := by
    rw [text]
    cases n.negative <;> simp
  rw [tokenize, htext]
  cases n.negative with
  | false => exact n.diagnostics_digits h hn 0
  | true =>
    have hsign := pieces_of_readBefore (n.readBefore_sign letter.toList) 0
    intro hnil
    rw [if_pos rfl, show ['-'] = (mark .minus).text from rfl, hsign,
      List.filterMap_cons_none rfl] at hnil
    exact n.diagnostics_digits h hn _ hnil

end Numeral

end Letters

/-! ## Reading one number -/

namespace Parse

variable {s s₁ : Parsing} {e : Expr}

/-- A level whose operators do not follow reads what the next level reads. -/
theorem level_of_ok {op? : Token → Option BinaryOp} {next : Parse Expr} (h : next s = .ok e s₁)
    (hop : op? s₁.peek = none) : level op? next s = .ok e s₁ := by
  have hleft : left s₁ = .ok s₁.rest.length s₁ := rfl
  rw [level, bind_run h, bind_run hleft, chain_of_none hop]

/-- An operand in front of the end of the source is the whole expression. -/
theorem expression_of_factor (hne : s.rest ≠ []) (hdots : s.peek.isMark .dotDot = false)
    (h : ∀ expr, factor expr s = .ok e s₁) (hend : s₁.peek = .endOfSource) :
    expression s = .ok e s₁ := by
  have hranged : ∀ expr, ranged expr s = .ok e s₁ := by
    intro expr
    have hsum : sum expr s = .ok e s₁ :=
      level_of_ok (level_of_ok (h expr) (by rw [hend]; rfl)) (by rw [hend]; rfl)
    have hbefore : isAt .dotDot s = .ok false s := congrArg (EStateM.Result.ok · s) hdots
    have hbehind : isAt .dotDot s₁ = .ok false s₁ :=
      congrArg (EStateM.Result.ok · s₁) (by rw [hend]; rfl)
    rw [ranged, bind_run hbefore, if_neg Bool.false_ne_true, bind_run hsum, bind_run hbehind,
      if_neg Bool.false_ne_true]
    rfl
  obtain ⟨t, ts, hrest⟩ := List.exists_cons_of_ne_nil hne
  have hleft : left s = .ok (ts.length + 1) s :=
    congrArg (EStateM.Result.ok · s) (by rw [hrest]; rfl)
  rw [expression, bind_run hleft]
  exact level_of_ok (level_of_ok (level_of_ok (hranged _) (by rw [hend]; rfl)) (by rw [hend]; rfl))
    (by rw [hend]; rfl)

/-- The literal of a number is given in any case, and no token is taken. -/
theorem numberLiteral_ok (negative : Bool) (t : Token) (span : Span) (s : Parsing) :
    ∃ e s₁, numberLiteral negative t span s = .ok e s₁ ∧ s₁.rest = s.rest := by
  unfold numberLiteral
  cases number? negative t with
  | ok v => exact ⟨_, _, rfl, rfl⟩
  | error kind => exact ⟨_, _, rfl, rfl⟩

section Number

variable {w : Width} {m : Nat} {sign span stop : Span}

theorem factor_number (expr : Parse Expr)
    (hs : s.rest = [⟨.integer w m, span⟩, ⟨.endOfSource, stop⟩]) :
    factor expr s = numberLiteral false (.integer w m) span
      { s with rest := [⟨.endOfSource, stop⟩], last := span } := by
  have hpeek : peek s = .ok (.integer w m) s := peek_ok (peek_of_rest hs)
  have hhere : here s = .ok span s := congrArg (EStateM.Result.ok · s) (here_of_rest hs)
  have hleft : left s = .ok 2 s := congrArg (EStateM.Result.ok · s) (by rw [hs]; rfl)
  obtain ⟨e, s₁, hrun, hrest⟩ := numberLiteral_ok false (.integer w m) span
    { s with rest := [⟨.endOfSource, stop⟩], last := span }
  have hprimary : primary expr s = .ok e s₁ := by
    rw [primary, bind_run hhere, bind_run hpeek]
    dsimp only
    rw [bind_run (advance_ok hs (List.cons_ne_nil _ _)), hrun]
  -- no member follows, since nothing follows
  have haccesses : ∀ k, accesses expr k e s₁ = .ok e s₁ := by
    intro k
    cases k with
    | zero => rfl
    | succ k => rw [accesses, bind_run (peek_ok (peek_of_rest hrest))]; rfl
  have haccessed : accessed expr s = .ok e s₁ := by
    have hleft₁ : left s₁ = .ok s₁.rest.length s₁ := rfl
    rw [accessed, bind_run hprimary, bind_run hleft₁, haccesses]
  rw [hrun, factor, bind_run hleft, signed, bind_run hpeek]
  exact haccessed

theorem factor_negative (expr : Parse Expr) (hadjacent : span.start = sign.stop)
    (hs : s.rest = [⟨.mark .minus, sign⟩, ⟨.integer w m, span⟩, ⟨.endOfSource, stop⟩]) :
    factor expr s = numberLiteral true (.integer w m) (sign.merge span)
      { s with rest := [⟨.endOfSource, stop⟩], last := span } := by
  have hpeek : peek s = .ok (.mark .minus) s := peek_ok (peek_of_rest hs)
  have hleft : left s = .ok 3 s := congrArg (EStateM.Result.ok · s) (by rw [hs]; rfl)
  set s₁ : Parsing := { s with rest := [⟨.integer w m, span⟩, ⟨.endOfSource, stop⟩], last := sign }
    with hs₁
  have hget : (get : Parse Parsing) s₁ = .ok s₁ s₁ := rfl
  have hnumber : (s₁.peek.isNumber && s₁.adjacent) = true := decide_eq_true hadjacent
  have hspan : advance s₁ = .ok span { s with rest := [⟨.endOfSource, stop⟩], last := span } :=
    advance_ok (s := s₁) rfl (List.cons_ne_nil _ _)
  rw [factor, bind_run hleft, signed, bind_run hpeek]
  dsimp only
  rw [bind_run (advance_ok hs (List.cons_ne_nil _ _)), ← hs₁, bind_run hget, if_pos hnumber,
    bind_run hspan]
  rfl

/-- **One number**, with a sign directly in front of it or without one, is read as its literal. -/
theorem expression_number (negative : Bool) (hadjacent : span.start = sign.stop)
    (hs : s.rest = (if negative then [⟨.mark .minus, sign⟩] else []) ++
      [⟨.integer w m, span⟩, ⟨.endOfSource, stop⟩]) :
    ∃ place s₁, expression s = numberLiteral negative (.integer w m) place s₁ ∧
      s₁.rest = [⟨.endOfSource, stop⟩] ∧ s₁.report = s.report := by
  have hread : ∃ place, ∀ expr, factor expr s = numberLiteral negative (.integer w m) place
      { s with rest := [⟨.endOfSource, stop⟩], last := span } := by
    cases negative with
    | false => exact ⟨span, fun expr => factor_number expr hs⟩
    | true => exact ⟨sign.merge span, fun expr => factor_negative expr hadjacent hs⟩
  have hdots : s.peek.isMark .dotDot = false := by
    cases negative with
    | false => rw [peek_of_rest hs]; rfl
    | true => rw [peek_of_rest hs]; rfl
  obtain ⟨place, hfactor⟩ := hread
  obtain ⟨e, s₁, hrun, hrest⟩ := numberLiteral_ok negative (.integer w m) place
    { s with rest := [⟨.endOfSource, stop⟩], last := span }
  refine ⟨place, { s with rest := [⟨.endOfSource, stop⟩], last := span }, ?_, rfl, rfl⟩
  rw [hrun]
  exact expression_of_factor (by rw [hs]; simp) hdots (fun expr => (hfactor expr).trans hrun)
    (peek_of_rest hrest)

end Number

end Parse

/-! ## Integers -/

namespace Numeral

variable (n : Numeral) {w : Width} {letter : String}

theorem literalOf?_lexemes (stop : Span) :
    literalOf? (located 0 (n.lexemes w letter) ++ [⟨.endOfSource, stop⟩]) =
      (Word.ofInt? w n.value).map (.integer w) := by
  have hlocated : ∃ sign span : Span, span.start = sign.stop ∧ located 0 (n.lexemes w letter) =
      (if n.negative then [⟨.mark .minus, sign⟩] else []) ++ [⟨.integer w n.magnitude, span⟩] := by
    unfold lexemes
    cases n.negative with
    | false => exact ⟨⟨0, 0⟩, _, rfl, rfl⟩
    | true => exact ⟨_, _, rfl, rfl⟩
  obtain ⟨sign, span, hadjacent, hlocated⟩ := hlocated
  obtain ⟨place, s₁, hrun, hrest, hreport⟩ := Parse.expression_number
    (s := { rest := located 0 (n.lexemes w letter) ++ [⟨.endOfSource, stop⟩] }) n.negative hadjacent
    (by rw [hlocated, List.append_assoc]; rfl)
  have hvalue : (if n.negative then -(n.magnitude : Int) else n.magnitude) = n.value := rfl
  rw [literalOf?, hrun, Parse.numberLiteral, Parse.number?, hvalue]
  cases Word.ofInt? w n.value with
  | none => exact ite_self none
  | some v =>
    show (if s₁.peek.isEnd && !s₁.report.hasErrors then some (Value.integer w v) else none) = _
    rw [Parse.peek_of_rest hrest, hreport]
    rfl

/-- **What a numeral is read as**: the value of a width that holds it, if the reader of tokens takes
its magnitude. -/
theorem parseLiteral?_eq (h : letter ∈ w.letters) : parseLiteral? w.kind (n.text ++ letter) =
    if n.magnitude < Nat.pow 2 63 then (Word.ofInt? w n.value).map (.integer w) else none := by
  split
  · rename_i hn
    rw [parseLiteral?,
      tokenize_of_allRead (n.allRead_lexemes h hn) (n.texts_lexemes w letter).symm]
    dsimp only
    rw [literalOf?_lexemes]
    cases Word.ofInt? w n.value with
    | none => rfl
    | some v => simp [Value.kind]
  · rename_i hn
    have hissue := n.diagnostics_tokenize h hn
    unfold parseLiteral?
    split
    · rename_i htokens
      rw [htokens] at hissue
      exact absurd rfl hissue
    · rfl

end Numeral

theorem Word.natAbs_lt_iff {w : Width} (v : Word w) :
    v.toInt.natAbs < Nat.pow 2 63 ↔ v.toInt ≠ -2 ^ 63 := by
  have hbits : (2 : Int) ^ (w.bits - 1) ≤ 2 ^ 63 := by cases w <;> decide
  have hleast : -(2 : Int) ^ (w.bits - 1) ≤ v.toInt := BitVec.le_toInt v
  have hgreatest : v.toInt ≤ 2 ^ (w.bits - 1) - 1 := BitVec.toInt_le
  have hpow : Nat.pow 2 63 = 9223372036854775808 := rfl
  omega

/-- **Integer literals.**  Each integer of a width is read back from its text, but for the least one
of 64 bits, which is not read; and from no numeral outside of the range of a width is a value of
this width read. -/
theorem integer_literals (w : Width) :
    (∀ v : Word w, parseLiteral? w.kind (Value.integer w v).render =
      if v.toInt = -2 ^ 63 then none else some (.integer w v)) ∧
    ∀ n : Numeral, ∀ letter ∈ w.letters, w.holds n.value = false →
      parseLiteral? w.kind (n.text ++ letter) = none := by
  constructor
  · intro v
    have htext : (Value.integer w v).render = (Numeral.ofInt v.toInt).text ++ w.suffix := by
      rw [Value.render, Word.text, Numeral.text_ofInt]
    rw [htext, Numeral.parseLiteral?_eq _ w.suffix_mem_letters, Numeral.magnitude_ofInt,
      Numeral.value_ofInt, Parse.ofInt?_toInt]
    simp only [Word.natAbs_lt_iff, ne_eq, ite_not, Option.map_some]
  · intro n letter hletter hrange
    rw [n.parseLiteral?_eq hletter, Word.ofInt?, hrange]
    exact ite_self none

/-- The range of bytes, from both sides, with zeros in front. -/
theorem integer_literals_byte :
    parseLiteral? .byte (Value.integer .byte (BitVec.intMin 8)).render =
        some (.integer .byte (BitVec.intMin 8)) ∧
      "B" ∈ Width.byte.letters ∧ Width.byte.holds (-129) = false ∧
      parseLiteral? .byte "-00129B" = none ∧ parseLiteral? .byte "128b" = none := by
  refine ⟨(integer_literals .byte).1 (BitVec.intMin 8), by decide, by decide, ?_, ?_⟩
  · have hdigits := List.all_eq_true.mp (show "00129".toList.all Char.isDigit = true by decide)
    exact (integer_literals .byte).2 ⟨true, _, hdigits, by decide⟩ "B" (by decide) rfl
  · have hdigits := List.all_eq_true.mp (show "128".toList.all Char.isDigit = true by decide)
    exact (integer_literals .byte).2 ⟨false, _, hdigits, by decide⟩ "b" (by decide) rfl

/-- The least integer of 64 bits is written, but not read. -/
theorem least_long_not_read :
    (Value.integer .long (BitVec.intMin 64)).render = "-9223372036854775808L" ∧
      parseLiteral? .long "-9223372036854775808L" = none := by
  decide +kernel

end Packwright
