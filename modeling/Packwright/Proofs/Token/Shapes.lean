import Packwright.Proofs.Parsing.Identifiers
import Packwright.Proofs.Parsing.Sourced
import Packwright.Proofs.Token.Lossless

/-!
# The shapes of tokens

What is known of a token from the way in which it is read: the magnitude of an integer fits in 63
bits, names are identifiers, a resource id has a space and a path, and the brackets of a selector
close.

* `argumentLength_take`: the arguments of a selector end at the bracket that closes them, whatever
  stands behind it.
* `Token.Formed`: the shapes; `Piece.scan_formed` for one piece, `formed_of_among` for the tokens of
  a source.
-/

namespace Packwright

open Lexical

/-! ## The arguments of selectors -/

/-- What a character that is not escaped does to the state: nothing comes behind a line feed, and
the bracket that closes the first one has no state behind it. -/
def ArgumentState.after (s : ArgumentState) (c : Char) : Option (Option ArgumentState) :=
  if c = '\n' then none
  else
    match s.quote with
    | some q => some (some ⟨s.depth, if c = q then none else some q⟩)
    | none =>
      if c = '"' || c = '\'' then some (some ⟨s.depth, some c⟩)
      else if c = '[' || c = '\x7b' then some (some ⟨s.depth + 1, none⟩)
      else if c = ']' || c = '\x7d' then
        if s.depth ≤ 1 then some none else some (some ⟨s.depth - 1, none⟩)
      else some (some ⟨s.depth, none⟩)

theorem argumentLength_cons (s : ArgumentState) (c : Char) (cs : List Char)
    (h : s.quote = none ∨ c ≠ '\\' ∨ cs = []) :
    argumentLength s (c :: cs) =
      match s.after c with
      | none => (0, false)
      | some none => (1, true)
      | some (some s') => ((argumentLength s' cs).1 + 1, (argumentLength s' cs).2) := by
  obtain ⟨depth, quote⟩ := s
  rw [argumentLength]
  · unfold ArgumentState.after
    dsimp only
    split
    · rfl
    · cases quote with
      | some q => rfl
      | none =>
        dsimp only
        split_ifs <;> rfl
  · rintro q d ds rfl rfl rfl
    simp at h

theorem ArgumentState.quote_of_after {s : ArgumentState} {c : Char} (h : s.after c = some none) :
    s.quote = none := by
  unfold after at h
  split at h
  · cases h
  · split at h
    · cases h
    · assumption

/-- Where the arguments of a selector end is told by the characters up to there. -/
theorem argumentLength_take : ∀ {cs : List Char} {s : ArgumentState} {n : Nat},
    argumentLength s cs = (n, true) →
    n ≤ cs.length ∧ ∀ rest, argumentLength s (cs.take n ++ rest) = (n, true)
  | [], s, n, h => by
    rw [argumentLength] at h
    cases h
  | c :: cs, s, n, h => by
    by_cases hplain : s.quote = none ∨ c ≠ '\\'
    · rw [argumentLength_cons s c cs (or_assoc.mp (.inl hplain))] at h
      cases hafter : s.after c with
      | none =>
        rw [hafter] at h
        cases h
      | some next =>
        rw [hafter] at h
        cases next with
        | none =>
          cases h
          refine ⟨by simp, fun rest => ?_⟩
          show argumentLength s (c :: rest) = _
          rw [argumentLength_cons s c rest (.inl (s.quote_of_after hafter)), hafter]
        | some s' =>
          dsimp only at h
          obtain ⟨m, hm⟩ : ∃ m, argumentLength s' cs = (m, true) :=
            ⟨_, Prod.ext rfl (Prod.ext_iff.mp h).2⟩
          rw [hm] at h
          cases h
          obtain ⟨hle, htake⟩ := argumentLength_take hm
          refine ⟨by simpa using hle, fun rest => ?_⟩
          rw [List.take_succ_cons, List.cons_append,
            argumentLength_cons s c _ (or_assoc.mp (.inl hplain)), hafter]
          dsimp only
          rw [htake]
    · -- in quotes a backslash takes the next character with it
      obtain ⟨depth, quote⟩ := s
      obtain ⟨hquote, hc⟩ := not_or.mp hplain
      obtain ⟨q, rfl⟩ := Option.ne_none_iff_exists'.mp hquote
      obtain rfl := not_not.mp hc
      cases cs with
      | nil =>
        rw [argumentLength_cons _ _ _ (.inr (.inr rfl))] at h
        simp [ArgumentState.after, argumentLength] at h
      | cons d cs =>
        rw [argumentLength] at h
        obtain ⟨m, hm⟩ : ∃ m, argumentLength ⟨depth, some q⟩ cs = (m, true) :=
          ⟨_, Prod.ext rfl (Prod.ext_iff.mp h).2⟩
        rw [hm] at h
        cases h
        obtain ⟨hle, htake⟩ := argumentLength_take hm
        refine ⟨by simpa using hle, fun rest => ?_⟩
        show argumentLength ⟨depth, some q⟩ ('\\' :: d :: (cs.take m ++ rest)) = _
        rw [argumentLength, htake]

/-! ## Shapes -/

/-- The characters of a resource id: a name, a colon and a path. -/
def ResourceText (cs : List Char) : Prop :=
  ∃ c space d path, cs = c :: space ++ ':' :: d :: path ∧ isNameStart c = true ∧
    (∀ e ∈ space, isNamePart e = true) ∧ isNameStart d = true ∧ ∀ e ∈ path, isPathPart e = true

/-- The characters of a selector: its letter, and arguments that end where it does. -/
def SelectorText (cs : List Char) : Prop :=
  ∃ kind inner, cs = '@' :: kind :: inner ∧ kind ∈ Selector.kinds ∧
    (inner = [] ∨ inner.head? = some '[' ∧ argumentLength ⟨0, none⟩ inner = (inner.length, true))

/-- The text of a selector that is read is kept. -/
theorem Selector.text_of_parse? {text : String} {s : Selector}
    (h : Selector.parse? text = some s) : s.text = text := by
  refine String.toList_inj.mp ?_
  unfold Selector.parse? at h
  split at h
  · rename_i kind rest htext
    rw [htext]
    split at h
    · split at h
      · cases h
        simp [Selector.text]
      · rename_i inner
        split at h
        · rename_i hlast
          cases h
          have hne : inner ≠ [] := by
            rintro rfl
            simp at hlast
          have hclose : inner.dropLast ++ [']'] = inner := by
            rw [List.getLast?_eq_some_getLast hne] at hlast
            rw [← Option.some.inj hlast, List.dropLast_append_getLast hne]
          simp [Selector.text, String.toList_append, hclose]
        · cases h
      · cases h
    · cases h
  · cases h

theorem colon_not_mem_of_isNamePart {cs : List Char} (h : ∀ c ∈ cs, isNamePart c = true) :
    ':' ∉ cs := fun hmem => absurd (h _ hmem) (by decide)

/-- The text of a resource id that is read is kept. -/
theorem ResourceText.text_ofText {text : String} (h : ResourceText text.toList) :
    (ResourceId.ofText text).text = text := by
  obtain ⟨c, space, d, path, htext, hc, hspace, -, -⟩ := h
  have hcolon : ':' ∉ c :: space :=
    colon_not_mem_of_isNamePart (List.forall_mem_cons.mpr ⟨isNamePart_of_isNameStart hc, hspace⟩)
  have hsplit : Text.splitOnce [':'] text.toList = some (c :: space, d :: path) := by
    have hfirst := @splitOnce_append _ [] _ (d :: path) hcolon
    rwa [List.append_assoc, List.singleton_append, ← htext] at hfirst
  refine String.toList_inj.mp ?_
  rw [ResourceId.ofText, hsplit, htext]
  simp [ResourceId.text, String.toList_append]

/-- What is known of a token that is read.  Where `S` does not hold, an issue may have been found
with it. -/
def Token.Formed (S : Prop) : Token → Prop
  | .integer _ n => n < Nat.pow 2 63
  | .name x => isIdentifier x = true
  | .resource text => ResourceText text.toList
  | .selector text => S → SelectorText text.toList
  | _ => True

theorem Token.Formed.mono {S S' : Prop} {t : Token} (h : t.Formed S) (hS : S' → S) :
    t.Formed S' := by
  cases t with
  | selector text => exact fun h' => h (hS h')
  | _ => exact h

theorem isPathPart_of_isNameStart {c : Char} (h : isNameStart c = true) : isPathPart c = true := by
  simp only [isNameStart, isPathPart, Char.isAlphanum, Bool.or_eq_true] at h ⊢
  tauto

namespace Piece

theorem formed_number (n : NumberBody) (text : String) (S : Prop) :
    (n.token text).1.Formed S := by
  unfold NumberBody.token
  dsimp only
  split
  case h_5 | h_6 =>
    split
    · assumption
    · exact Nat.two_pow_pos 63
  all_goals trivial

theorem scanName_formed {c : Char} (hc : isNameStart c = true) {cs : List Char} {t : Token}
    {issue : Option Issue} (h : (scanName c cs).1 = .token t issue) (S : Prop) : t.Formed S := by
  have hword : ∀ {n : Nat}, n = run isNamePart cs →
      (scanName.word (taken (c :: cs) (n + 1))).Formed S := by
    rintro n rfl
    unfold scanName.word
    split
    · trivial
    · exact isIdentifier_taken hc cs
  unfold scanName at h
  dsimp only at h
  split at h
  · rename_i d rest hdrop
    split at h
    · rename_i hd
      cases h
      refine ⟨c, cs.takeWhile isNamePart, d, rest.takeWhile isPathPart, ?_, hc,
        fun e he => List.mem_takeWhile_imp he, hd, fun e he => List.mem_takeWhile_imp he⟩
      have hpath : run isPathPart (d :: rest) = run isPathPart rest + 1 := by
        rw [run, List.takeWhile_cons_of_pos (isPathPart_of_isNameStart hd), List.length_cons, run]
      rw [toList_taken, List.take_succ_cons, hpath, Nat.add_assoc, List.take_add, take_run, hdrop,
        Nat.add_comm 1, List.take_succ_cons, List.take_succ_cons, take_run]
      rfl
    · cases h
      exact hword rfl
  · cases h
    exact hword rfl

theorem scanAt_formed {cs : List Char} {t : Token} {issue : Option Issue}
    (h : (scanAt cs).1 = .token t issue) : t.Formed (issue = none) := by
  unfold scanAt at h
  dsimp only at h
  split at h
  · cases h
    trivial
  · rename_i kind hname
    split at h
    · rename_i hkind
      have hsplit : cs = kind :: cs.dropWhile isNamePart := by
        rw [take_run] at hname
        have happend := List.takeWhile_append_dropWhile (p := isNamePart) (l := cs)
        rw [hname] at happend
        exact happend.symm
      obtain ⟨rest, rfl⟩ : ∃ rest, cs = kind :: rest := ⟨_, hsplit⟩
      cases h
      intro hissue
      rw [toList_taken, List.take_succ_cons, List.take_succ_cons]
      refine ⟨kind, _, rfl, hkind, ?_⟩
      rw [List.drop_one, List.tail_cons] at hissue ⊢
      split at hissue
      · rename_i r
        right
        have hclosed : (argumentLength ⟨0, none⟩ ('[' :: r)).2 = true := by
          by_contra hopen
          simp [hopen] at hissue
        obtain ⟨n, hlength⟩ : ∃ n, argumentLength ⟨0, none⟩ ('[' :: r) = (n, true) :=
          ⟨_, Prod.ext rfl hclosed⟩
        obtain ⟨hle, htake⟩ := argumentLength_take hlength
        have htext := htake []
        rw [List.append_nil] at htext
        have hpos : n ≠ 0 := by
          rintro rfl
          rw [List.take_zero, argumentLength] at htext
          cases htext
        rw [hlength]
        refine ⟨?_, by rw [htext, List.length_take, Nat.min_eq_left hle]⟩
        rw [List.head?_take, if_neg hpos, List.head?_cons]
      · exact .inl rfl
    · cases h
      trivial
  · cases h
    trivial

/-- **The shape of a token** is that of the way it is read. -/
theorem scan_formed {c : Char} {cs : List Char} {t : Token} {issue : Option Issue}
    (h : (scan c cs).1 = .token t issue) : t.Formed (issue = none) := by
  unfold scan at h
  split at h
  · cases h
  split at h
  · cases h
  split at h
  · cases h
  split at h
  · cases h
    trivial
  split at h
  · exact scanAt_formed h
  split at h
  · obtain ⟨rfl, -⟩ := Piece.token.inj h
    exact formed_number _ _ _
  split at h
  · rename_i hstart
    exact scanName_formed hstart h _
  · unfold scanMark at h
    split at h
    · cases h
      trivial
    · cases h
      trivial

end Piece

/-- A token of a source is a line break, the end, or one that is read. -/
theorem exists_scan_of_among {source : String} {t : Token} (h : t.Among (tokenize source).1)
    (hn : t.isNewline = false) (he : t.isEnd = false) :
    ∃ c cs issue, (Piece.scan c cs).1 = .token t issue ∧
      ((tokenize source).2 = [] → issue = none) := by
  obtain ⟨span, h⟩ := h
  obtain ⟨kept, htokens, hsub, -⟩ :=
    Located.exists_kept (pieces 0 source.toList) (Text.size source.toList)
  have hkept : ⟨t, span⟩ ∈ kept := by
    rw [show (tokenize source).1 = _ from htokens] at h
    rcases List.mem_append.mp h with h | h
    · exact h
    · cases List.mem_singleton.mp h
      cases he
  obtain ⟨p, hp, hpt⟩ := List.mem_filterMap.mp (hsub.subset hkept)
  obtain ⟨cs, before, c, rest, -, hpiece, -⟩ := exists_of_mem_pieces hp
  unfold LocatedPiece.token? at hpt
  split at hpt
  · cases hpt
  · cases hpt
    cases hn
  · rename_i token issue htoken
    cases hpt
    refine ⟨c, rest, issue, hpiece.symm.trans htoken, fun hclean => ?_⟩
    cases issue with
    | none => rfl
    | some i =>
      have hmem : ⟨i, p.span⟩ ∈ (tokenize source).2 :=
        List.mem_filterMap.mpr ⟨p, hp, by rw [LocatedPiece.diagnostic?, htoken]⟩
      rw [hclean] at hmem
      cases hmem

/-- **The shapes of the tokens** of a source. -/
theorem formed_of_among {source : String} {t : Token} (h : t.Among (tokenize source).1) :
    t.Formed ((tokenize source).2 = []) := by
  by_cases hn : t.isNewline = true
  · cases t <;> trivial
  by_cases he : t.isEnd = true
  · cases t <;> trivial
  obtain ⟨c, cs, issue, hscan, hissue⟩ :=
    exists_scan_of_among h (Bool.eq_false_iff.mpr hn) (Bool.eq_false_iff.mpr he)
  exact (Piece.scan_formed hscan).mono hissue

end Packwright
