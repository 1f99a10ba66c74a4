import Packwright.Proofs.Literal.Lexemes
import Packwright.Proofs.OneLine.Texts

/-!
# How values are spelled

The text of a value is made of lexemes: a sign and a magnitude, the key of an entry with a colon and
a blank, commas with blanks between items.  Each of them is read as what it is, in front of whatever
can stand behind the value.

* `Value.lexemes`: the lexemes of a value.
* `Value.Writable`: the values whose texts are read back.
* `Value.Writable.texts_lexemes`: the lexemes make up the text of the value.
* `Value.Writable.allRead`: the lexemes are read as what they are.
-/

namespace Packwright

open Lexical Text Lexeme

/-! ## Lexemes -/

namespace Lexeme

/-- Several parts with commas and blanks between them. -/
def commas (parts : List (List Lexeme)) : List Lexeme :=
  [mark .comma, blank].intercalate parts

/-- Several parts in braces. -/
def braced (parts : List (List Lexeme)) : List Lexeme :=
  mark .lbrace :: commas parts ++ [mark .rbrace]

/-- The key of an entry. -/
def key (k : String) : Lexeme := if Value.isBareKey k then name k else quoted k

end Lexeme

/-- A sign, if the word is negative, and its magnitude. -/
def Word.lexemes {w : Width} (v : Word w) : List Lexeme :=
  if v.toInt < 0 then [mark .minus, magnitude w v.toInt.natAbs] else [magnitude w v.toInt.natAbs]

/-- The lexemes of a bound of a range, which may be absent. -/
def Range.boundLexemes (b : Option Amount) : List Lexeme := (b.map Word.lexemes).getD []

namespace Value

mutual

/-- The lexemes of a value; those that no text is read as have none. -/
def lexemes : Value → List Lexeme
  | integer _ v => Word.lexemes v
  | string s => [.quoted s]
  | bool b => [.keyword (if b then .trueKw else .falseKw)]
  | selector s => [.selector s.text]
  | compound entries => Lexeme.braced (lexemesEntries entries)
  | list items => .mark .lbracket :: commas (lexemesAll items) ++ [.mark .rbracket]
  | range r => Range.boundLexemes r.min ++ .mark .dotDot :: Range.boundLexemes r.max
  | item id (some entries) => .resource id.text :: Lexeme.braced (lexemesEntries entries)
  | resource id => [.resource id.text]
  | _ => []

/-- The lexemes of each of several values. -/
def lexemesAll : List Value → List (List Lexeme)
  | [] => []
  | v :: vs => lexemes v :: lexemesAll vs

/-- The lexemes of each entry of a compound. -/
def lexemesEntries : List (String × Value) → List (List Lexeme)
  | [] => []
  | (k, v) :: es => (.key k :: .mark .colon :: .blank :: lexemes v) :: lexemesEntries es

end

theorem lexemesAll_eq_map (vs : List Value) : lexemesAll vs = vs.map lexemes := by
  induction vs with
  | nil => rfl
  | cons v vs ih => rw [lexemesAll, ih, List.map_cons]

/-- The lexemes of one entry. -/
def entryLexemes (e : String × Value) : List Lexeme :=
  .key e.1 :: .mark .colon :: .blank :: lexemes e.2

theorem lexemesEntries_eq_map (es : List (String × Value)) :
    lexemesEntries es = es.map entryLexemes := by
  induction es with
  | nil => rfl
  | cons e es ih => rw [lexemesEntries, ih, List.map_cons]; rfl

/-- The value is one that is read back from its text: what has no literal does not occur in it, and
what it is made of could stand in a source.  A carriage return is not escaped, and would break a
string. -/
inductive Writable : Value → Prop
  | integer {w : Width} {v : Word w} (h : v.toInt.natAbs < Nat.pow 2 63) : Writable (integer w v)
  | string {s : String} (h : '\r' ∉ s.toList) : Writable (string s)
  | bool (b : Bool) : Writable (bool b)
  | selector {s : Selector} (htext : SelectorText s.text.toList)
    (hread : Selector.parse? s.text = some s) : Writable (selector s)
  | resource {id : ResourceId} (htext : ResourceText id.text.toList)
    (hread : ResourceId.ofText id.text = id) : Writable (resource id)
  | item {id : ResourceId} {entries : List (String × Value)} (htext : ResourceText id.text.toList)
    (hread : ResourceId.ofText id.text = id) (hkeys : (Table.keys entries).Nodup)
    (hreturn : ∀ e ∈ entries, '\r' ∉ e.1.toList) (hentries : ∀ e ∈ entries, Writable e.2) :
    Writable (item id (some entries))
  | list {items : List Value} (hitems : ∀ v ∈ items, Writable v)
    (hkinds : ∀ v ∈ items, ∀ w ∈ items, v.kind = w.kind) : Writable (list items)
  | compound {entries : List (String × Value)} (hkeys : (Table.keys entries).Nodup)
    (hreturn : ∀ e ∈ entries, '\r' ∉ e.1.toList) (hentries : ∀ e ∈ entries, Writable e.2) :
    Writable (compound entries)
  | range {r : Range} (h : r.min.isSome = true ∨ r.max.isSome = true) : Writable (range r)

end Value

/-! ## Texts -/

theorem Lexeme.texts_commas {α : Type} {f : α → List Lexeme} {g : α → String} {xs : List α}
    (h : ∀ x ∈ xs, texts (f x) = (g x).toList) :
    texts (commas (xs.map f)) = (", ".intercalate (xs.map g)).toList := by
  induction xs with
  | nil => rfl
  | cons x xs ih =>
    obtain ⟨hx, hxs⟩ := List.forall_mem_cons.mp h
    have ih := ih hxs
    unfold commas at ih ⊢
    cases xs with
    | nil => simp [hx]
    | cons y ys =>
      simp only [List.map_cons] at ih ⊢
      simp only [List.intercalate_cons_cons, texts_append, ih, hx, String.intercalate_cons_cons,
        String.toList_append]
      rfl

theorem Lexeme.text_key (k : String) : (key k).text = (Value.renderKey k).toList := by
  unfold key Value.renderKey
  split
  · rw [name]
  · rw [quoted]

theorem Word.texts_lexemes {w : Width} (v : Word w) :
    texts v.lexemes = (v.text ++ w.suffix).toList := by
  rw [String.toList_append, text, lexemes]
  cases hv : v.toInt with
  | ofNat n =>
    rw [if_neg (by simp), Int.ofNat_eq_natCast, toList_toString_ofNat]
    simp [magnitude]
  | negSucc n =>
    rw [if_pos (Int.negSucc_lt_zero n), toList_toString_neg]
    simp [magnitude, mark, Mark.text]

theorem Range.texts_boundLexemes (b : Option Amount) :
    texts (boundLexemes b) = (boundText b).toList := by
  cases b with
  | none => rfl
  | some v =>
    have := Word.texts_lexemes v
    rwa [show Width.int.suffix = "" from rfl, String.append_empty] at this

namespace Value

theorem texts_braced {entries : List (String × Value)}
    (h : ∀ e ∈ entries, texts e.2.lexemes = e.2.render.toList) :
    texts (Lexeme.braced (lexemesEntries entries)) = (braced (renderEntries entries)).toList := by
  have hentry : ∀ e ∈ entries,
      texts (entryLexemes e) = (renderKey e.1 ++ ": " ++ render e.2).toList := by
    intro e he
    simp [entryLexemes, text_key, h e he, mark, Mark.text, blank]
  rw [Lexeme.braced, lexemesEntries_eq_map, List.cons_append, texts_cons, texts_append,
    texts_commas hentry, braced, renderEntries_eq_map]
  simp [mark, Mark.text]

/-- The lexemes of a value make up its text. -/
theorem Writable.texts_lexemes {v : Value} (h : v.Writable) :
    texts v.lexemes = v.render.toList := by
  induction h with
  | integer _ => exact Word.texts_lexemes _
  | string _ => rw [lexemes, render, texts_cons, texts_nil, List.append_nil, quoted]
  | selector _ _ => rw [lexemes, render, texts_cons, texts_nil, List.append_nil, Lexeme.selector]
  | resource _ _ => rw [lexemes, render, texts_cons, texts_nil, List.append_nil, Lexeme.resource]
  | bool b => cases b <;> rfl
  | item _ _ _ _ _ ih =>
    rw [lexemes, render, texts_cons, texts_braced ih, String.toList_append, Lexeme.resource]
  | list _ _ ih =>
    rw [lexemes, render, lexemesAll_eq_map, renderAll_eq_map, List.cons_append, texts_cons,
      texts_append, texts_commas ih]
    simp [mark, Mark.text]
  | compound _ _ _ ih =>
    rw [lexemes, render]
    exact texts_braced ih
  | range _ =>
    rw [lexemes, render, texts_append, texts_cons, Range.texts_boundLexemes,
      Range.texts_boundLexemes, Range.toList_text]
    simp [mark, Mark.text]

end Value

/-! ## The first token -/

/-- Whether a value can begin with the token. -/
def Token.begins (t : Token) : Bool :=
  Parse.startsExpression t || t.isMark .lbrace || t.isMark .dotDot

/-- The first of the lexemes is a token with the property. -/
def Lexeme.FirstIs (p : Token → Bool) (ls : List Lexeme) : Prop :=
  ∃ l t ls', ls = l :: ls' ∧ l.token = some t ∧ p t = true

theorem Lexeme.FirstIs.mono {p q : Token → Bool} {ls : List Lexeme} (h : FirstIs p ls)
    (hpq : ∀ t, p t = true → q t = true) : FirstIs q ls := by
  obtain ⟨l, t, ls', hls, ht, hp⟩ := h
  exact ⟨l, t, ls', hls, ht, hpq t hp⟩

theorem Lexeme.FirstIs.append {p : Token → Bool} {ls : List Lexeme} (h : FirstIs p ls)
    (ls' : List Lexeme) : FirstIs p (ls ++ ls') := by
  obtain ⟨l, t, tail, rfl, ht, hp⟩ := h
  exact ⟨l, t, tail ++ ls', rfl, ht, hp⟩

theorem Lexeme.FirstIs.commas {p : Token → Bool} {part : List Lexeme} (h : FirstIs p part)
    (parts : List (List Lexeme)) : FirstIs p (commas (part :: parts)) := by
  unfold Lexeme.commas
  cases parts with
  | nil => rwa [List.intercalate_singleton]
  | cons next parts =>
    rw [List.intercalate_cons_cons, List.append_assoc]
    exact h.append _

theorem Word.firstIs_lexemes {w : Width} (v : Word w) :
    FirstIs Parse.startsExpression v.lexemes := by
  unfold lexemes
  split
  · exact ⟨_, _, _, rfl, rfl, rfl⟩
  · exact ⟨_, _, _, rfl, rfl, rfl⟩

theorem Value.Writable.firstIs {v : Value} (h : v.Writable) : FirstIs Token.begins v.lexemes := by
  have hword : ∀ {w : Width} (v : Word w), FirstIs Token.begins v.lexemes := fun v =>
    v.firstIs_lexemes.mono fun t ht => by simp [Token.begins, ht]
  cases h with
  | integer _ => exact hword _
  | bool b => cases b <;> exact ⟨_, _, _, rfl, rfl, rfl⟩
  | @range r _ =>
    rw [lexemes]
    cases r.min with
    | none => exact ⟨_, _, _, rfl, rfl, rfl⟩
    | some v => exact (hword v).append _
  | _ => exact ⟨_, _, _, rfl, rfl, rfl⟩

/-! ## Reading the lexemes -/

namespace Lexeme

theorem ReadBefore.head_not_blank {l : Lexeme} {rest : List Char} (h : l.ReadBefore rest)
    {t : Token} (ht : l.token = some t) (more : List Char) :
    ∀ c ∈ (l.text ++ more).head?, c ≠ ' ' ∧ c ≠ '\t' := by
  obtain ⟨c, cs, htext, hscan⟩ := h
  rw [htext]
  intro d hd
  cases hd
  by_contra hblank
  have hgap : (decide (c = ' ') || decide (c = '\t')) = true := by
    simp only [Bool.or_eq_true, decide_eq_true_eq]
    tauto
  rw [Piece.scan, if_pos hgap, piece, ht] at hscan
  cases hscan

/-- A blank ends where a token begins. -/
theorem AllRead.readBefore_blank {p : Token → Bool} {ls : List Lexeme} {rest : List Char}
    (h : AllRead ls rest) (hfirst : FirstIs p ls) : blank.ReadBefore (texts ls ++ rest) := by
  obtain ⟨l, t, ls', rfl, ht, -⟩ := hfirst
  rw [texts_cons, List.append_assoc]
  exact Lexeme.readBefore_blank (h.1.head_not_blank ht _)

theorem ends_cons {c : Char} (hc : c ∈ [',', ']', '\x7d']) (rest : List Char) :
    Ends (c :: rest) := by
  intro d hd
  cases hd
  exact hc

theorem allRead_commas {p : Token → Bool} {parts : List (List Lexeme)} {rest : List Char}
    (hrest : Ends rest) (h : ∀ part ∈ parts, ∀ rest, Ends rest → AllRead part rest)
    (hfirst : ∀ part ∈ parts, FirstIs p part) : AllRead (commas parts) rest := by
  induction parts with
  | nil => trivial
  | cons part parts ih =>
    obtain ⟨hpart, hparts⟩ := List.forall_mem_cons.mp h
    have ih := ih hparts (List.forall_mem_cons.mp hfirst).2
    unfold commas at ih ⊢
    cases parts with
    | nil =>
      rw [List.intercalate_singleton]
      exact hpart rest hrest
    | cons next parts =>
      rw [List.intercalate_cons_cons, List.append_assoc, allRead_append]
      refine ⟨hpart _ (ends_cons (by decide) _), readBefore_mark (by decide) _, ?_, ih⟩
      exact ih.readBefore_blank ((hfirst next (by simp)).commas parts)

theorem allRead_braced {p : Token → Bool} {parts : List (List Lexeme)}
    (h : ∀ part ∈ parts, ∀ rest, Ends rest → AllRead part rest)
    (hfirst : ∀ part ∈ parts, FirstIs p part) (rest : List Char) : AllRead (braced parts) rest := by
  refine ⟨readBefore_mark (by decide) _,
    allRead_append.mpr ⟨?_, readBefore_mark (by decide) _, trivial⟩⟩
  exact allRead_commas (ends_cons (by decide) _) h hfirst

end Lexeme

theorem isIdentifier_of_isBareKey {k : String} (h : Value.isBareKey k = true) :
    isIdentifier k = true ∧ Keyword.ofText? k = none := by
  unfold Value.isBareKey at h
  split at h
  · cases h
  · rename_i c cs hk
    simp only [Bool.and_eq_true, List.all_cons, Bool.not_eq_true', Option.isNone_iff_eq_none] at h
    obtain ⟨⟨hdigit, hc, hcs⟩, hword⟩ := h
    refine ⟨?_, hword⟩
    rw [isIdentifier, hk]
    have hstart : isNameStart c = true := by simpa [Char.isAlphanum, hdigit, isNameStart] using hc
    exact Bool.and_eq_true_iff.mpr ⟨hstart, hcs⟩

namespace Value

theorem firstIs_entry (e : String × Value) : FirstIs (fun _ => true) (entryLexemes e) := by
  have hkey : ∃ t, (key e.1).token = some t := by
    unfold key
    split <;> exact ⟨_, rfl⟩
  obtain ⟨t, ht⟩ := hkey
  exact ⟨_, t, _, rfl, ht, rfl⟩

theorem allRead_entry {e : String × Value} (hreturn : '\r' ∉ e.1.toList) {rest : List Char}
    (hvalue : AllRead e.2.lexemes rest) {p : Token → Bool} (hfirst : FirstIs p e.2.lexemes) :
    AllRead (entryLexemes e) rest := by
  refine ⟨?_, readBefore_mark (by decide) _, hvalue.readBefore_blank hfirst, hvalue⟩
  unfold key
  split
  · rename_i hbare
    obtain ⟨hname, hword⟩ := isIdentifier_of_isBareKey hbare
    exact readBefore_name hname hword _
  · exact readBefore_quoted hreturn _

theorem allRead_entries {entries : List (String × Value)}
    (hreturn : ∀ e ∈ entries, '\r' ∉ e.1.toList)
    (hvalues : ∀ e ∈ entries, ∀ {rest : List Char}, Ends rest → AllRead e.2.lexemes rest)
    (hentries : ∀ e ∈ entries, e.2.Writable) (rest : List Char) :
    AllRead (Lexeme.braced (lexemesEntries entries)) rest := by
  rw [lexemesEntries_eq_map]
  refine allRead_braced (p := fun _ => true) (List.forall_mem_map.mpr fun e he rest hrest => ?_)
    (List.forall_mem_map.mpr fun e _ => firstIs_entry e) rest
  exact allRead_entry (hreturn e he) (hvalues e he hrest) (hentries e he).firstIs

theorem allRead_word {w : Width} {v : Word w} (hv : v.toInt.natAbs < Nat.pow 2 63)
    {rest : List Char} (h : EndsMagnitude w rest) : AllRead v.lexemes rest := by
  have hmagnitude := readBefore_magnitude hv h
  unfold Word.lexemes
  split
  · refine ⟨readBefore_minus ?_, hmagnitude, trivial⟩
    obtain ⟨c, cs, hcs⟩ := List.exists_cons_of_ne_nil
      (Nat.toDigits_ne_nil (n := v.toInt.natAbs) (b := 10))
    have hc : c.isDigit = true :=
      Nat.isDigit_of_mem_toDigits (by decide) (by decide) (hcs ▸ List.mem_cons_self)
    rw [texts_cons, magnitude, hcs]
    rintro ⟨rfl⟩
    cases hc
  · exact ⟨hmagnitude, trivial⟩

theorem natAbs_amount (n : Amount) : n.toInt.natAbs < Nat.pow 2 63 := by
  have hleast : -(2 ^ 31 : Int) ≤ n.toInt := BitVec.le_toInt n
  have hgreatest : n.toInt ≤ 2 ^ 31 - 1 := BitVec.toInt_le
  show n.toInt.natAbs < 9223372036854775808
  omega

theorem Writable.allRead {v : Value} (h : v.Writable) {rest : List Char} (hrest : Ends rest) :
    AllRead v.lexemes rest := by
  induction h generalizing rest with
  | integer h => exact allRead_word h (.inl hrest)
  | string h => exact ⟨readBefore_quoted h _, trivial⟩
  | bool b => exact ⟨readBefore_truth b hrest, trivial⟩
  | selector htext _ => exact ⟨readBefore_selector htext hrest, trivial⟩
  | resource htext _ => exact ⟨readBefore_resource htext (hrest.all (by decide)), trivial⟩
  | item htext _ _ hreturn hentries ih =>
    refine ⟨readBefore_resource htext ?_, allRead_entries hreturn ih hentries rest⟩
    intro c hc
    cases hc
    rfl
  | list hitems _ ih =>
    rw [lexemes, lexemesAll_eq_map]
    refine ⟨readBefore_mark (by decide) _,
      allRead_append.mpr ⟨?_, readBefore_mark (by decide) _, trivial⟩⟩
    exact allRead_commas (ends_cons (by decide) _)
      (List.forall_mem_map.mpr fun v hv rest hrest => ih v hv hrest)
      (List.forall_mem_map.mpr fun v hv => (hitems v hv).firstIs)
  | compound _ hreturn hentries ih => exact allRead_entries hreturn ih hentries rest
  | @range r _ =>
    rw [lexemes]
    have hbound : ∀ (b : Option Amount) {rest : List Char}, EndsMagnitude .int rest →
        AllRead (Range.boundLexemes b) rest := by
      intro b rest h
      cases b with
      | none => trivial
      | some n => exact allRead_word (natAbs_amount n) h
    exact allRead_append.mpr ⟨hbound r.min (.inr ⟨rfl, _, rfl⟩), readBefore_mark (by decide) _,
      hbound r.max (.inl hrest)⟩

end Value

end Packwright
