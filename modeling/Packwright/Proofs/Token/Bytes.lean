import Packwright.Proofs.Token.Shapes

/-!
# Scanning bytes

A source is a sequence of bytes, and most pieces of it can be found without looking at characters:
every byte of a character beyond ASCII is 128 or more, and so it is no byte of an ASCII character.
The readers of pieces go through characters; here they are compared with readers that go through
bytes, one at a time.  Both end at the same place.

* `Text.bytes`: the bytes of a text.
* `byteRun_bytes`: runs of bytes of a class.
* `argumentBytes_bytes`: the arguments of a selector, where a backslash skips one byte, which may be
  the first of several that make up a character.
* `Piece.size_scan`, `LocatedPiece.span_bytes`: all pieces that are found by their bytes.
-/

namespace Packwright

open Lexical

namespace Text

/-- The bytes of a text. -/
def bytes (cs : List Char) : List UInt8 := cs.flatMap String.utf8EncodeChar

@[simp] theorem bytes_nil : bytes [] = [] := rfl

theorem bytes_cons (c : Char) (cs : List Char) :
    bytes (c :: cs) = String.utf8EncodeChar c ++ bytes cs := rfl

theorem length_bytes (cs : List Char) : (bytes cs).length = size cs := by
  induction cs with
  | nil => rfl
  | cons c cs ih => rw [bytes_cons, List.length_append, String.length_utf8EncodeChar, ih, size]

/-- The character is one byte long. -/
def Ascii (c : Char) : Prop := c.toNat < 128

instance : DecidablePred Ascii := fun c => inferInstanceAs (Decidable (c.toNat < 128))

theorem ofUInt8_eq {c : Char} (h : Ascii c) : Char.ofUInt8 (UInt8.ofNat c.toNat) = c := by
  apply Char.ext
  apply UInt32.toNat_inj.mp
  have hc : c.val.toNat < 128 := h
  show (UInt8.ofNat c.toNat).toUInt32.toNat = c.val.toNat
  simp only [Char.toNat, UInt8.toNat_toUInt32, UInt8.toNat_ofNat']
  omega

/-- An ASCII character is its own byte. -/
theorem exists_byte {c : Char} (h : Ascii c) :
    ∃ b, String.utf8EncodeChar c = [b] ∧ Char.ofUInt8 b = c := by
  have hc : c.val.toNat ≤ 127 := Nat.le_of_lt_succ h
  refine ⟨UInt8.ofNat c.toNat, ?_, ofUInt8_eq h⟩
  change (if c.val.toNat ≤ 127 then _ else _) = _
  rw [if_pos hc]
  rfl

/-- All bytes of other characters are high. -/
theorem not_ascii_of_mem {c : Char} (h : ¬ Ascii c) {b : UInt8}
    (hb : b ∈ String.utf8EncodeChar c) : ¬ Ascii (Char.ofUInt8 b) := by
  have hc : ¬ c.val.toNat ≤ 127 := fun hle => h (Nat.lt_succ_of_le hle)
  have hhigh : ∀ n, 128 ≤ n → n < 256 → ¬ Ascii (Char.ofUInt8 (UInt8.ofNat n)) := by
    intro n hle hlt hascii
    have : (UInt8.ofNat n).toUInt32.toNat < 128 := hascii
    simp only [UInt8.toNat_toUInt32, UInt8.toNat_ofNat'] at this
    omega
  simp only [String.utf8EncodeChar, hc, if_false] at hb
  split_ifs at hb
  all_goals
    simp only [List.mem_cons, List.not_mem_nil, or_false] at hb
  · rcases hb with rfl | rfl <;> exact hhigh _ (by omega) (by omega)
  · rcases hb with rfl | rfl | rfl <;> exact hhigh _ (by omega) (by omega)
  · rcases hb with rfl | rfl | rfl | rfl <;> exact hhigh _ (by omega) (by omega)

theorem exists_cons_of_not_ascii {c : Char} (h : ¬ Ascii c) :
    ∃ b bs, String.utf8EncodeChar c = b :: bs ∧ ¬ Ascii (Char.ofUInt8 b) := by
  obtain ⟨b, bs, hbs⟩ := List.exists_cons_of_length_pos
    ((String.length_utf8EncodeChar c).symm ▸ c.utf8Size_pos)
  exact ⟨b, bs, hbs, not_ascii_of_mem h (hbs ▸ List.mem_cons_self)⟩

/-- The class does not tell apart the characters beyond ASCII. -/
def Uniform (p : Char → Bool) : Prop := ∃ v, ∀ c, ¬ Ascii c → p c = v

end Text

open Text

/-! ## Runs -/

namespace Lexical

/-- The number of leading bytes of a class. -/
def byteRun (p : Char → Bool) (bs : List UInt8) : Nat :=
  (bs.takeWhile fun b => p (Char.ofUInt8 b)).length

variable {p : Char → Bool}

theorem takeWhile_bytes (hp : Uniform p) (cs : List Char) :
    (bytes cs).takeWhile (fun b => p (Char.ofUInt8 b)) = bytes (cs.takeWhile p) := by
  obtain ⟨v, hv⟩ := hp
  induction cs with
  | nil => rfl
  | cons c cs ih =>
    by_cases hc : Ascii c
    · obtain ⟨b, hb, hchar⟩ := exists_byte hc
      rw [bytes_cons, hb, List.singleton_append, List.takeWhile_cons, List.takeWhile_cons, hchar,
        ih]
      split
      · rw [bytes_cons, hb]
        rfl
      · rfl
    · have hall : ∀ b ∈ String.utf8EncodeChar c, p (Char.ofUInt8 b) = p c := fun b hb => by
        rw [hv _ (not_ascii_of_mem hc hb), hv c hc]
      cases hpc : p c with
      | true =>
        rw [bytes_cons, List.takeWhile_append_of_pos fun b hb => (hall b hb).trans hpc, ih,
          List.takeWhile_cons, if_pos hpc, bytes_cons]
      | false =>
        obtain ⟨b, bs, hbs, -⟩ := exists_cons_of_not_ascii hc
        have hb : p (Char.ofUInt8 b) = false := (hall b (hbs ▸ List.mem_cons_self)).trans hpc
        rw [bytes_cons, hbs, List.cons_append, List.takeWhile_cons, List.takeWhile_cons, hb, hpc]
        rfl

/-- **A run of bytes** ends where the run of characters does. -/
theorem byteRun_bytes (hp : Uniform p) (cs : List Char) :
    byteRun p (bytes cs) = size (cs.take (run p cs)) := by
  rw [byteRun, takeWhile_bytes hp, length_bytes, take_run]

theorem drop_bytes (cs : List Char) (n : Nat) :
    (bytes cs).drop (size (cs.take n)) = bytes (cs.drop n) := by
  induction cs generalizing n with
  | nil => simp [size]
  | cons c cs ih =>
    cases n with
    | zero => rfl
    | succ n =>
      rw [List.take_succ_cons, size, bytes_cons, ← String.length_utf8EncodeChar,
        List.drop_length_add_append, ih, List.drop_succ_cons]

theorem drop_run (p : Char → Bool) (cs : List Char) : cs.drop (run p cs) = cs.dropWhile p := by
  induction cs with
  | nil => rfl
  | cons c cs ih =>
    cases hc : p c with
    | true => simpa [run, List.takeWhile_cons, List.dropWhile_cons, hc] using ih
    | false => simp [run, hc]

theorem size_eq_length {cs : List Char} (h : ∀ c ∈ cs, Ascii c) : size cs = cs.length := by
  induction cs with
  | nil => rfl
  | cons c cs ih =>
    obtain ⟨hc, hcs⟩ := List.forall_mem_cons.mp h
    obtain ⟨b, hb, -⟩ := exists_byte hc
    have hsize : c.utf8Size = 1 := by rw [← String.length_utf8EncodeChar, hb, List.length_singleton]
    rw [size, ih hcs, hsize, List.length_cons, Nat.add_comm]

/-- A class of ASCII characters. -/
theorem uniform_of_ascii (h : ∀ c, p c = true → Ascii c) : Uniform p :=
  ⟨false, fun c hc => by simpa using mt (h c) hc⟩

theorem byteRun_ascii (h : ∀ c, p c = true → Ascii c) (cs : List Char) :
    byteRun p (bytes cs) = run p cs := by
  rw [byteRun_bytes (uniform_of_ascii h), take_run,
    size_eq_length fun c hc => h c (List.mem_takeWhile_imp hc), run]

theorem drop_byteRun (hp : Uniform p) (cs : List Char) :
    (bytes cs).drop (byteRun p (bytes cs)) = bytes (cs.drop (run p cs)) := by
  rw [byteRun_bytes hp, drop_bytes]

/-- Whether there is a first byte, and it is of the class. -/
def byteAhead (p : Char → Bool) (bs : List UInt8) : Bool := bs.head?.any fun b => p (Char.ofUInt8 b)

theorem byteAhead_bytes (hp : Uniform p) (cs : List Char) :
    byteAhead p (bytes cs) = cs.head?.any p := by
  obtain ⟨v, hv⟩ := hp
  cases cs with
  | nil => rfl
  | cons c cs =>
    by_cases hc : Ascii c
    · obtain ⟨b, hb, hchar⟩ := exists_byte hc
      rw [bytes_cons, hb]
      simp [byteAhead, hchar]
    · obtain ⟨b, bs, hbs, hb⟩ := exists_cons_of_not_ascii hc
      rw [bytes_cons, hbs]
      simp [byteAhead, hv _ hb, hv _ hc]

/-! ### Classes -/

theorem ascii_of_isAlphanum {c : Char} (h : c.isAlphanum = true) : Ascii c := by
  unfold Ascii
  rcases Bool.or_eq_true_iff.mp h with h | h
  · have := toNat_of_isAlpha h
    omega
  · have := toNat_of_isDigit h
    omega

theorem ascii_of_isNamePart {c : Char} (h : isNamePart c = true) : Ascii c := by
  rcases Bool.or_eq_true_iff.mp h with h | h
  · exact ascii_of_isAlphanum h
  · obtain rfl := of_decide_eq_true h
    decide

theorem ascii_of_isNameStart {c : Char} (h : isNameStart c = true) : Ascii c := by
  refine ascii_of_isNamePart ?_
  rcases Bool.or_eq_true_iff.mp h with h | h
  · simp [isNamePart, Char.isAlphanum, h]
  · simp [isNamePart, h]

theorem ascii_of_isPathPart {c : Char} (h : isPathPart c = true) : Ascii c := by
  simp only [isPathPart, Bool.or_eq_true, decide_eq_true_eq] at h
  rcases h with (((h | rfl) | rfl) | rfl) | rfl
  · exact ascii_of_isAlphanum h
  all_goals decide

theorem ascii_of_isDigit {c : Char} (h : c.isDigit = true) : Ascii c :=
  ascii_of_isAlphanum (by simp [Char.isAlphanum, h])

theorem uniform_eq {d : Char} (hd : Ascii d) : Uniform (fun c => decide (c = d)) :=
  uniform_of_ascii fun _ hc => of_decide_eq_true hc ▸ hd

end Lexical

/-! ## The arguments of selectors -/

/-- Reads the arguments of a selector byte by byte: how many bytes there are, and whether the
bracket that closes the first one was found.  A backslash in quotes skips the next byte. -/
def argumentBytes : ArgumentState → (escaped : Bool) → List UInt8 → Nat × Bool
  | _, _, [] => (0, false)
  | s, true, _ :: bs => ((argumentBytes s false bs).1 + 1, (argumentBytes s false bs).2)
  | s, false, b :: bs =>
    if s.quote.isSome && Char.ofUInt8 b = '\\' then
      ((argumentBytes s true bs).1 + 1, (argumentBytes s true bs).2)
    else
      match s.after (Char.ofUInt8 b) with
      | none => (0, false)
      | some none => (1, true)
      | some (some s') => ((argumentBytes s' false bs).1 + 1, (argumentBytes s' false bs).2)

/-- The quote, if there is one, is an ASCII character. -/
def ArgumentState.Plain (s : ArgumentState) : Prop := ∀ q ∈ s.quote, Ascii q

namespace ArgumentState

theorem Plain.after {s s' : ArgumentState} {c : Char} (h : s.Plain)
    (hc : s.after c = some (some s')) : s'.Plain := by
  unfold ArgumentState.after at hc
  split at hc
  · cases hc
  · split at hc
    · rename_i q hq
      cases hc
      intro q' hq'
      dsimp only at hq'
      split at hq'
      · cases hq'
      · exact h q' (hq ▸ hq')
    · have hnone : ∀ depth, (⟨depth, none⟩ : ArgumentState).Plain := fun _ q hq => by cases hq
      split_ifs at hc with hquote
      · cases hc
        intro q hq
        cases hq
        simp only [Bool.or_eq_true, decide_eq_true_eq] at hquote
        rcases hquote with rfl | rfl <;> decide
      · cases hc
        exact hnone _
      · cases hc
      · cases hc
        exact hnone _
      · cases hc
        exact hnone _

/-- A character beyond ASCII changes nothing. -/
theorem Plain.after_of_not_ascii {s : ArgumentState} (h : s.Plain) {c : Char} (hc : ¬ Ascii c) :
    s.after c = some (some s) := by
  have hne : ∀ d, Ascii d → c ≠ d := fun d hd heq => hc (heq ▸ hd)
  obtain ⟨depth, quote⟩ := s
  unfold ArgumentState.after
  rw [if_neg (hne _ (by decide))]
  cases quote with
  | none =>
    simp [hne '"' (by decide), hne '\'' (by decide), hne '[' (by decide), hne ']' (by decide),
      hne '\x7b' (by decide), hne '\x7d' (by decide)]
  | some q => simp [hne q (h q rfl)]

end ArgumentState

theorem argumentBytes_of_not_ascii {s : ArgumentState} (h : s.Plain) (rest : List UInt8) :
    ∀ {bs : List UInt8}, (∀ b ∈ bs, ¬ Ascii (Char.ofUInt8 b)) →
      argumentBytes s false (bs ++ rest) =
        (bs.length + (argumentBytes s false rest).1, (argumentBytes s false rest).2)
  | [], _ => by simp
  | b :: bs, hbs => by
    obtain ⟨hb, hbs⟩ := List.forall_mem_cons.mp hbs
    have hslash : Char.ofUInt8 b ≠ '\\' := fun heq => hb (heq ▸ by decide)
    rw [List.cons_append, argumentBytes]
    simp only [hslash, decide_false, Bool.and_false, Bool.false_eq_true, if_false,
      h.after_of_not_ascii hb, argumentBytes_of_not_ascii h rest hbs, List.length_cons]
    rw [Nat.add_right_comm]

/-- **The arguments of a selector** end at the same place, by bytes and by characters.  Of a
character that a backslash escapes the first byte is skipped; the others mean nothing. -/
theorem argumentBytes_bytes : ∀ (cs : List Char) {s : ArgumentState}, s.Plain →
    argumentBytes s false (bytes cs) =
      (size (cs.take (argumentLength s cs).1), (argumentLength s cs).2)
  | [], s, _ => by
    rw [argumentLength]
    rfl
  | c :: cs, s, hs => by
    by_cases hplain : s.quote = none ∨ c ≠ '\\'
    · rw [argumentLength_cons s c cs (or_assoc.mp (.inl hplain))]
      by_cases hc : Ascii c
      · obtain ⟨b, hb, rfl⟩ := exists_byte hc
        have hslash : (s.quote.isSome && decide (Char.ofUInt8 b = '\\')) = false := by
          rcases hplain with h | h <;> simp [h]
        rw [bytes_cons, hb, List.singleton_append, argumentBytes, hslash, if_neg Bool.false_ne_true]
        cases hafter : s.after (Char.ofUInt8 b) with
        | none => rfl
        | some next =>
          have hsize : (String.utf8EncodeChar (Char.ofUInt8 b)).length = 1 := by rw [hb]; rfl
          rw [String.length_utf8EncodeChar] at hsize
          cases next with
          | none => simp [size, hsize]
          | some s' =>
            simp only [argumentBytes_bytes cs (hs.after hafter), List.take_succ_cons, size, hsize]
            rw [Nat.add_comm]
      · rw [bytes_cons, argumentBytes_of_not_ascii hs _ fun b hb => not_ascii_of_mem hc hb,
          hs.after_of_not_ascii hc, argumentBytes_bytes cs hs, String.length_utf8EncodeChar]
        rfl
    · obtain ⟨depth, quote⟩ := s
      obtain ⟨hquote, hslash⟩ := not_or.mp hplain
      obtain ⟨q, rfl⟩ := Option.ne_none_iff_exists'.mp hquote
      obtain rfl := not_not.mp hslash
      have hbackslash : bytes ('\\' :: cs) = 0x5c :: bytes cs := rfl
      have hchar : Char.ofUInt8 0x5c = '\\' := by decide
      rw [hbackslash, argumentBytes, hchar]
      simp only [Option.isSome_some, decide_true, Bool.and_self, if_true]
      cases cs with
      | nil =>
        rw [argumentLength_cons _ _ _ (.inr (.inr rfl))]
        simp [ArgumentState.after, argumentLength, argumentBytes, size, Char.utf8Size]
      | cons d cs =>
        -- the first byte of `d` is skipped, and the others are high
        obtain ⟨b, bs, hd⟩ := List.exists_cons_of_length_pos
          ((String.length_utf8EncodeChar d).symm ▸ d.utf8Size_pos)
        have hhigh : ∀ b' ∈ bs, ¬ Ascii (Char.ofUInt8 b') := by
          intro b' hb'
          by_cases hascii : Ascii d
          · obtain ⟨b₁, hb₁, -⟩ := exists_byte hascii
            rw [hb₁] at hd
            cases hd
            cases hb'
          · exact not_ascii_of_mem hascii (hd ▸ List.mem_cons_of_mem _ hb')
        have hlength : d.utf8Size = bs.length + 1 := by
          rw [← String.length_utf8EncodeChar, hd, List.length_cons]
        rw [bytes_cons, hd, List.cons_append, argumentBytes, argumentLength,
          argumentBytes_of_not_ascii hs _ hhigh, argumentBytes_bytes cs hs]
        simp only [List.take_succ_cons, size, hlength, Prod.mk.injEq, and_true]
        have hone : '\\'.utf8Size = 1 := by decide
        omega

/-! ## Pieces -/

theorem Text.size_take_add (cs : List Char) (m n : Nat) :
    size (cs.take (m + n)) = size (cs.take m) + size ((cs.drop m).take n) := by
  rw [List.take_add, size_append]

theorem Text.size_take_one {cs : List Char} {p : Char → Bool} (h : cs.head?.any p = true)
    (hp : ∀ c, p c = true → Ascii c) : size (cs.take 1) = 1 := by
  cases cs with
  | nil => cases h
  | cons c cs =>
    obtain ⟨b, hb, -⟩ := exists_byte (hp c h)
    simpa [size, String.length_utf8EncodeChar] using congrArg List.length hb

namespace Piece

/-- How many bytes of a selector or an annotation stand behind its `@`. -/
def atBytes (bs : List UInt8) : Nat :=
  if byteRun isNamePart bs = 1 ∧ byteAhead (· ∈ Selector.kinds) bs = true then
    1 + if byteAhead (· = '[') (bs.drop 1) then (argumentBytes ⟨0, none⟩ false (bs.drop 1)).1 else 0
  else byteRun isNamePart bs

/-- How many bytes of a name or a resource id stand behind the first one. -/
def nameBytes (bs : List UInt8) : Nat :=
  let length := byteRun isNamePart bs
  let rest := bs.drop length
  if byteAhead (· = ':') rest && byteAhead isNameStart (rest.drop 1) then
    length + (1 + byteRun isPathPart (rest.drop 1))
  else length

/-- Whether a suffix of a number comes next, by its bytes. -/
def suffixAhead (bs : List UInt8) : Bool :=
  byteAhead (fun c => (Suffix.ofChar? c).isSome) bs && !byteAhead isNamePart (bs.drop 1)

/-- How many bytes a number has. -/
def numberBytes (bs : List UInt8) : Nat :=
  let whole := byteRun Char.isDigit bs
  let rest := bs.drop whole
  let fraction :=
    if byteAhead (· = '.') rest && byteAhead Char.isDigit (rest.drop 1) then
      1 + byteRun Char.isDigit (rest.drop 1)
    else 0
  whole + (fraction + if suffixAhead (rest.drop fraction) then 1 else 0)

/-- How many bytes the first piece has, if it is found by its bytes.  A string is read by its
characters, and so is a mark. -/
def scanBytes? : List UInt8 → Option Nat
  | [] => none
  | b :: bs =>
    let c := Char.ofUInt8 b
    if c = ' ' || c = '\t' then some (1 + byteRun (fun d => d = ' ' || d = '\t') bs)
    else if c = '/' && byteAhead (· = '/') bs then some (1 + byteRun (· ≠ '\n') bs)
    else if isBreak c then some (1 + byteRun isBreak bs)
    else if c = '"' then none
    else if c = '@' then some (1 + atBytes bs)
    else if c.isDigit then some (numberBytes (b :: bs))
    else if isNameStart c then some (1 + nameBytes bs)
    else none

theorem scanAt_length (cs : List Char) : (scanAt cs).2 =
    if run isNamePart cs = 1 ∧ cs.head?.any (· ∈ Selector.kinds) = true then
      1 + if (cs.drop 1).head?.any (· = '[') then (argumentLength ⟨0, none⟩ (cs.drop 1)).1 else 0
    else run isNamePart cs := by
  have hrun : run isNamePart cs = (cs.take (run isNamePart cs)).length := by rw [take_run, run]
  unfold scanAt
  dsimp only
  split
  · rename_i hname
    rw [hname] at hrun
    rw [if_neg (by simp [hrun]), hrun]
    rfl
  · rename_i kind hname
    rw [hname] at hrun
    obtain ⟨rest, rfl⟩ : ∃ rest, cs = kind :: rest :=
      ⟨cs.drop (run isNamePart cs), by
        conv_lhs => rw [← List.take_append_drop (run isNamePart cs) cs, hname]
        rfl⟩
    by_cases hkind : kind ∈ Selector.kinds
    · have hhead : run isNamePart (kind :: rest) = 1 ∧
          (kind :: rest).head?.any (· ∈ Selector.kinds) = true := ⟨hrun, by simpa using hkind⟩
      rw [if_pos hkind, if_pos hhead, Nat.add_comm 1]
      rw [List.drop_succ_cons, List.drop_zero]
      split
      · rfl
      · rename_i hrest
        have hbracket : ¬ rest.head?.any (· = '[') = true := by
          intro hbracket
          cases rest with
          | nil => cases hbracket
          | cons d rest => exact hrest rest (by rw [show d = '[' by simpa using hbracket])
        rw [if_neg hbracket]
    · rw [if_neg hkind, if_neg (by simp [hkind]), hrun]
  · rename_i hnil hone
    have hne : run isNamePart cs ≠ 1 := by
      intro h
      rw [h] at hrun hone
      obtain ⟨kind, hkind⟩ := List.length_eq_one_iff.mp hrun.symm
      exact hone kind hkind
    rw [if_neg fun h => hne h.1]

theorem size_scanAt (cs : List Char) : size (cs.take (scanAt cs).2) = atBytes (bytes cs) := by
  have hkinds : ∀ c, decide (c ∈ Selector.kinds) = true → Ascii c := by
    intro c hc
    have hall : Selector.kinds.all (Ascii ·) = true := by decide
    exact of_decide_eq_true (List.all_eq_true.mp hall c (of_decide_eq_true hc))
  have hparts : ∀ n ≤ run isNamePart cs, size (cs.take n) = n := by
    intro n hn
    rw [size_eq_length, List.length_take]
    · have := (List.takeWhile_prefix isNamePart (l := cs)).length_le
      rw [run] at hn
      omega
    · intro c hc
      have hmem : c ∈ cs.take (run isNamePart cs) := List.take_subset_take_left cs hn hc
      rw [take_run] at hmem
      exact ascii_of_isNamePart (List.mem_takeWhile_imp hmem)
  rw [scanAt_length, atBytes, byteRun_ascii fun _ => ascii_of_isNamePart,
    byteAhead_bytes (uniform_of_ascii hkinds)]
  by_cases hkind : run isNamePart cs = 1 ∧ cs.head?.any (· ∈ Selector.kinds) = true
  · have hone : size (cs.take 1) = 1 := hparts 1 hkind.1.ge
    have hdrop : (bytes cs).drop 1 = bytes (cs.drop 1) := by
      rw [← drop_bytes, hone]
    rw [if_pos hkind, if_pos hkind, size_take_add, hone, hdrop,
      byteAhead_bytes (uniform_eq (by decide))]
    split
    · rw [argumentBytes_bytes _ fun q hq => by cases hq]
    · rfl
  · rw [if_neg hkind, if_neg hkind, hparts _ le_rfl]

theorem scanName_length (c : Char) (cs : List Char) : (scanName c cs).2 =
    if (cs.drop (run isNamePart cs)).head?.any (· = ':') &&
        ((cs.drop (run isNamePart cs)).drop 1).head?.any isNameStart then
      run isNamePart cs + (1 + run isPathPart ((cs.drop (run isNamePart cs)).drop 1))
    else run isNamePart cs := by
  unfold scanName
  dsimp only
  split
  · rename_i d rest hrest
    rw [hrest]
    split
    · rename_i hd
      simp [hd, Nat.add_assoc]
    · rename_i hd
      simp [hd]
  · rename_i hrest
    rw [if_neg]
    generalize cs.drop (run isNamePart cs) = rest at hrest
    intro hahead
    obtain ⟨hcolon, hstart⟩ := Bool.and_eq_true_iff.mp hahead
    match rest with
    | [] => cases hcolon
    | [d] => cases hstart
    | d :: d' :: rest => exact hrest d' rest (by rw [show d = ':' by simpa using hcolon])

theorem size_scanName (c : Char) (cs : List Char) :
    size (cs.take (scanName c cs).2) = nameBytes (bytes cs) := by
  have hpart := uniform_of_ascii fun _ => ascii_of_isNamePart
  rw [scanName_length, nameBytes]
  rw [drop_byteRun hpart, byteRun_bytes hpart, byteAhead_bytes (uniform_eq (by decide))]
  generalize hrest : cs.drop (run isNamePart cs) = rest
  by_cases hcolon : rest.head?.any (· = ':') = true
  · have hone : size (rest.take 1) = 1 :=
      size_take_one hcolon fun c hc => of_decide_eq_true hc ▸ by decide
    have hdrop : (bytes rest).drop 1 = bytes (rest.drop 1) := by rw [← drop_bytes, hone]
    rw [hdrop, byteAhead_bytes (uniform_of_ascii fun _ => ascii_of_isNameStart),
      byteRun_bytes (uniform_of_ascii fun _ => ascii_of_isPathPart)]
    split
    · rw [size_take_add, hrest, size_take_add, hone]
    · rfl
  · simp [hcolon]

theorem isSome_read? (cs : List Char) : (Suffix.read? cs).isSome =
    (cs.head?.any (fun c => (Suffix.ofChar? c).isSome) && !(cs.drop 1).head?.any isNamePart) := by
  cases cs with
  | nil => rfl
  | cons c cs =>
    rw [Suffix.read?]
    split
    · rename_i hname
      simp [hname]
    · rename_i hname
      simp [hname]

theorem ascii_of_suffix {c : Char} (h : (Suffix.ofChar? c).isSome = true) : Ascii c := by
  by_contra hc
  have hlower : c.toLower = c := by
    refine dif_neg fun hupper => hc ?_
    have hle : c.toNat ≤ 90 := UInt32.le_iff_toNat_le.mp hupper.2
    exact hle.trans_lt (by decide)
  rw [Suffix.ofChar?, hlower] at h
  split at h
  case h_6 => cases h
  all_goals exact hc (by decide)

theorem suffixAhead_bytes (cs : List Char) : suffixAhead (bytes cs) = (Suffix.read? cs).isSome := by
  rw [suffixAhead, isSome_read?, byteAhead_bytes (uniform_of_ascii fun _ => ascii_of_suffix)]
  cases hsuffix : cs.head?.any fun c => (Suffix.ofChar? c).isSome with
  | false => rfl
  | true =>
    have hone : size (cs.take 1) = 1 := size_take_one hsuffix fun _ => ascii_of_suffix
    have hdrop : (bytes cs).drop 1 = bytes (cs.drop 1) := by rw [← drop_bytes, hone]
    rw [hdrop, byteAhead_bytes (uniform_of_ascii fun _ => ascii_of_isNamePart)]

/-- The number of characters of the fraction of a number, the point counted. -/
def fractionLength (rest : List Char) : Nat :=
  if rest.head?.any (· = '.') && (rest.drop 1).head?.any Char.isDigit then
    1 + run Char.isDigit (rest.drop 1)
  else 0

theorem number_length (cs : List Char) : (NumberBody.read cs).length =
    run Char.isDigit cs + (fractionLength (cs.dropWhile Char.isDigit) +
      if (Suffix.read? ((cs.dropWhile Char.isDigit).drop
        (fractionLength (cs.dropWhile Char.isDigit)))).isSome then 1 else 0) := by
  unfold NumberBody.read
  dsimp only
  split
  · rename_i more hrest
    rw [hrest]
    cases hdigit : more.head?.any Char.isDigit with
    | false =>
      have hnone : more.takeWhile Char.isDigit = [] := by
        cases more with
        | nil => rfl
        | cons c more => exact List.takeWhile_cons_of_neg (by simpa using hdigit)
      have hlength : fractionLength ('.' :: more) = 0 := by simp [fractionLength, hdigit]
      have hsuffix : Suffix.read? ('.' :: more) = none := ite_self none
      rw [hnone, hlength]
      simp [NumberBody.length, run, hsuffix]
    | true =>
      have hlength : fractionLength ('.' :: more) = 1 + run Char.isDigit more := by
        simp [fractionLength, hdigit]
      have hsome : (more.takeWhile Char.isDigit).isEmpty = false := by
        cases more with
        | nil => cases hdigit
        | cons c more => simp [show c.isDigit = true from hdigit]
      rw [hsome, hlength, Nat.add_comm 1, List.drop_succ_cons, drop_run]
      simp only [Bool.false_eq_true, if_false, NumberBody.length, run, Option.map_some,
        Option.getD_some, Nat.add_assoc]
  · rename_i hrest
    have hlength : fractionLength (cs.dropWhile Char.isDigit) = 0 := by
      generalize cs.dropWhile Char.isDigit = rest at hrest
      unfold fractionLength
      rw [if_neg]
      intro hahead
      obtain ⟨hpoint, -⟩ := Bool.and_eq_true_iff.mp hahead
      cases rest with
      | nil => cases hpoint
      | cons d rest => exact hrest rest (by rw [show d = '.' by simpa using hpoint])
    rw [hlength, List.drop_zero]
    simp [NumberBody.length, run]

theorem size_number (cs : List Char) :
    size (cs.take (NumberBody.read cs).length) = numberBytes (bytes cs) := by
  have hdigit : Uniform Char.isDigit := uniform_of_ascii fun _ => ascii_of_isDigit
  rw [number_length, numberBytes, drop_byteRun hdigit, byteRun_bytes hdigit,
    byteAhead_bytes (uniform_eq (by decide)), size_take_add, drop_run]
  generalize cs.dropWhile Char.isDigit = rest
  congr 1
  have hfraction : (if rest.head?.any (· = '.') && byteAhead Char.isDigit ((bytes rest).drop 1) then
      1 + byteRun Char.isDigit ((bytes rest).drop 1) else 0) =
        size (rest.take (fractionLength rest)) := by
    unfold fractionLength
    cases hpoint : rest.head?.any (· = '.') with
    | false => rfl
    | true =>
      have hone : size (rest.take 1) = 1 :=
        size_take_one hpoint fun c hc => of_decide_eq_true hc ▸ by decide
      have hdrop : (bytes rest).drop 1 = bytes (rest.drop 1) := by rw [← drop_bytes, hone]
      rw [hdrop, byteAhead_bytes hdigit, byteRun_bytes hdigit]
      split
      · rw [size_take_add, hone]
      · rfl
  rw [hfraction, drop_bytes, suffixAhead_bytes, size_take_add]
  congr 1
  split
  · rename_i hsuffix
    rw [isSome_read?, Bool.and_eq_true] at hsuffix
    exact size_take_one hsuffix.1 fun _ => ascii_of_suffix
  · rfl

theorem scanBytes?_of_not_ascii {b : UInt8} (hb : ¬ Ascii (Char.ofUInt8 b)) (bs : List UInt8) :
    scanBytes? (b :: bs) = none := by
  have hne : ∀ d, Ascii d → Char.ofUInt8 b ≠ d := fun d hd heq => hb (heq ▸ hd)
  have hdigit : (Char.ofUInt8 b).isDigit = false := by simpa using mt ascii_of_isDigit hb
  have hname : isNameStart (Char.ofUInt8 b) = false := by simpa using mt ascii_of_isNameStart hb
  simp [scanBytes?, isBreak, hdigit, hname, hne ' ' (by decide), hne '\t' (by decide),
    hne '/' (by decide), hne '\n' (by decide), hne '\r' (by decide), hne '@' (by decide)]

/-- **Bytes and characters agree on where a piece ends**, for all pieces that are found by their
bytes. -/
theorem size_scan (c : Char) (cs : List Char) :
    ∀ n ∈ scanBytes? (bytes (c :: cs)), n = size (c :: cs.take (scan c cs).2) := by
  intro n hn
  by_cases hc : Ascii c
  · obtain ⟨b, hb, hchar⟩ := exists_byte hc
    have hsize : c.utf8Size = 1 := by rw [← String.length_utf8EncodeChar, hb, List.length_singleton]
    have hslash : decide (cs.head? = some '/') = cs.head?.any (· = '/') := by cases cs <;> simp
    rw [bytes_cons, hb, List.singleton_append, scanBytes?, hchar,
      byteAhead_bytes (uniform_eq (by decide)), ← hslash] at hn
    unfold scan
    split_ifs at hn ⊢ with hblank hcomment hbreak hquote hat hdigit hname
    · obtain rfl := Option.some.inj hn
      have hascii : ∀ d, (decide (d = ' ') || decide (d = '\t')) = true → Ascii d := by
        intro d hd
        rcases Bool.or_eq_true_iff.mp hd with hd | hd <;> exact of_decide_eq_true hd ▸ by decide
      rw [size, hsize, byteRun_bytes (uniform_of_ascii hascii)]
    · obtain rfl := Option.some.inj hn
      have huniform : Uniform (fun d => decide (d ≠ '\n')) :=
        ⟨true, fun d hd => decide_eq_true fun heq => hd (heq ▸ by decide)⟩
      rw [size, hsize, byteRun_bytes huniform]
    · obtain rfl := Option.some.inj hn
      have hascii : ∀ d, isBreak d = true → Ascii d := by
        intro d hd
        rcases Bool.or_eq_true_iff.mp hd with hd | hd <;> exact of_decide_eq_true hd ▸ by decide
      rw [size, hsize, byteRun_bytes (uniform_of_ascii hascii)]
    · cases hn
    · obtain rfl := Option.some.inj hn
      rw [size, hsize, size_scanAt]
    · obtain rfl := Option.some.inj hn
      have hbytes : b :: bytes cs = bytes (c :: cs) := by rw [bytes_cons, hb, List.singleton_append]
      have hpos : 0 < (NumberBody.read (c :: cs)).length := by
        rw [number_length, run, List.takeWhile_cons_of_pos hdigit, List.length_cons]
        omega
      rw [hbytes, ← size_number]
      obtain ⟨k, hk⟩ := Nat.exists_eq_succ_of_ne_zero hpos.ne'
      simp [hk]
    · obtain rfl := Option.some.inj hn
      rw [size, hsize, size_scanName]
    · cases hn
  · obtain ⟨b, bs, hbs, hb⟩ := exists_cons_of_not_ascii hc
    rw [bytes_cons, hbs, List.cons_append, scanBytes?_of_not_ascii hb] at hn
    cases hn

end Piece

/-- **The pieces of a text** end where its bytes say. -/
theorem LocatedPiece.span_bytes {p : LocatedPiece} {text : List Char} (hp : p ∈ pieces 0 text) :
    ∀ n ∈ Piece.scanBytes? ((bytes text).drop p.span.start), p.span.stop = p.span.start + n := by
  obtain ⟨cs, before, c, rest, rfl, -, rfl, hspan⟩ := exists_of_mem_pieces hp
  rw [hspan, Nat.zero_add]
  have hdrop := drop_bytes (before ++ c :: rest) before.length
  rw [List.take_left, List.drop_left] at hdrop
  intro n hn
  rw [hdrop] at hn
  rw [Piece.size_scan c rest n hn]

end Packwright
