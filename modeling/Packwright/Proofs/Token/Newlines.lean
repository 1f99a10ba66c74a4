import Packwright.Proofs.Token.Lossless
import Mathlib.Data.List.Chain

/-!
# Line breaks between tokens

A line break is left among the tokens where it separates two of them: the one in front does not go
on behind it, and the one behind does not carry on with the line before.  There is no other line
break, and none of these is missing.

* `Token.Precedes`: what can stand directly behind a token.
* `Located.Orderly`: the tokens so far, the last one first, stand as they can.
* `Located.orderly_settleOne`, `Located.orderly_settled`: one more piece, and all of them.
* `Located.settled_gap`, `Located.settle_neighbours`: what is left between two tokens.
* `newlines_separate`: the tokens of a source.
-/

namespace Packwright

/-- The second token can stand directly behind the first one. -/
structure Token.Precedes (t u : Token) : Prop where
  /-- A line break stands behind a token that does not go on. -/
  behind : u.isNewline = true → t.opensLine = false
  /-- A line break stands in front of a token that neither carries on nor ends the source. -/
  before : t.isNewline = true → u.continuesLine = false ∧ u.isEnd = false

theorem Token.isNewline_of_opensLine {t : Token} (h : t.opensLine = false) :
    t.isNewline = false := by
  cases t with
  | newline => cases h
  | _ => rfl

/-- A token that is no line break can stand behind all tokens but line breaks. -/
theorem Token.Precedes.of_not_newline {t u : Token} (ht : t.isNewline = false)
    (hu : u.isNewline = false) : t.Precedes u :=
  ⟨fun h => (Bool.eq_false_iff.mp hu h).elim, fun h => (Bool.eq_false_iff.mp ht h).elim⟩

namespace Located

/-! ## Where line breaks stand -/

/-- In the tokens so far, the last one first, each can stand behind the one before it, and the first
one is no line break. -/
structure Orderly (stack : List Located) : Prop where
  chain : stack.IsChain fun u t => t.token.Precedes u.token
  first : ∀ t ∈ stack.getLast?, t.token.isNewline = false

theorem orderly_nil : Orderly [] := ⟨.nil, by simp⟩

theorem Orderly.cons {t last : Located} {rest : List Located} (h : Orderly (last :: rest))
    (ht : last.token.Precedes t.token) : Orderly (t :: last :: rest) :=
  ⟨.cons_cons ht h.chain, h.first⟩

theorem orderly_singleton {t : Located} (ht : t.token.isNewline = false) : Orderly [t] :=
  ⟨.singleton t, fun _ h => Option.mem_some.mp h ▸ ht⟩

/-- Under a line break there are tokens, and the last one of them does not go on. -/
theorem Orderly.of_newline {last : Located} {rest : List Located} (h : Orderly (last :: rest))
    (hlast : last.token.isNewline = true) :
    ∃ t ts, rest = t :: ts ∧ t.token.opensLine = false ∧ t.token.isNewline = false ∧
      Orderly rest := by
  cases rest with
  | nil => exact absurd (h.first last rfl) (by simp [hlast])
  | cons t ts =>
    obtain ⟨hprecedes, hchain⟩ := List.isChain_cons_cons.mp h.chain
    have hopens := hprecedes.behind hlast
    exact ⟨t, ts, rfl, hopens, Token.isNewline_of_opensLine hopens, hchain, h.first⟩

theorem Orderly.suffix {above below : List Located} {t : Located}
    (h : Orderly (above ++ t :: below)) : Orderly (t :: below) :=
  ⟨h.chain.right_of_append, fun u hu => h.first u (by rwa [List.getLast?_append_cons])⟩

/-- Over a line break stands a token that neither carries on nor is a line break nor the end of the
source. -/
theorem Orderly.over_newline {above below : List Located} {next t : Located}
    (h : Orderly (above ++ next :: t :: below)) (ht : t.token.isNewline = true) :
    next.token.continuesLine = false ∧ next.token.isNewline = false ∧
      next.token.isEnd = false := by
  have hprecedes : t.token.Precedes next.token := (List.isChain_cons_cons.mp h.suffix.chain).1
  obtain ⟨hcontinues, hend⟩ := hprecedes.before ht
  refine ⟨hcontinues, Bool.eq_false_iff.mpr fun hnext => ?_, hend⟩
  have := Token.isNewline_of_opensLine (hprecedes.behind hnext)
  simp [ht] at this

/-- One more token that is no line break. -/
theorem Orderly.push {stack : List Located} (h : Orderly stack) {t : Located}
    (ht : t.token.isNewline = false) (hend : t.token.isEnd = false) : Orderly (push stack t) := by
  unfold Located.push
  split
  · rename_i last rest
    split
    · -- the line break under the token goes, and what is under it stays
      rename_i hdrop
      obtain ⟨u, us, rfl, -, hu, hrest⟩ := h.of_newline (Bool.and_eq_true_iff.mp hdrop).2
      exact hrest.cons (.of_not_newline hu ht)
    · rename_i hkeep
      refine h.cons ⟨fun hn => (Bool.eq_false_iff.mp ht hn).elim, fun hlast => ⟨?_, hend⟩⟩
      simpa [hlast] using hkeep
  · exact orderly_singleton ht

/-- **One more piece** leaves line breaks where they can stand. -/
theorem orderly_settleOne {stack : List Located} (h : Orderly stack) {p : LocatedPiece}
    (hp : ∀ t issue, p.piece = .token t issue → t.isNewline = false ∧ t.isEnd = false) :
    Orderly (settleOne stack p) := by
  unfold settleOne
  split
  · exact h
  · split
    · exact orderly_nil
    · split
      · exact h
      · rename_i hopens
        exact h.cons ⟨fun _ => Bool.eq_false_iff.mpr hopens, fun _ => ⟨rfl, rfl⟩⟩
  · rename_i t issue hpiece
    obtain ⟨ht, hend⟩ := hp t issue hpiece
    exact h.push ht hend

/-- No piece is read as a line break or as the end of the source. -/
theorem plain_of_mem_pieces {here : Nat} {text : List Char} {p : LocatedPiece}
    (hp : p ∈ pieces here text) {t : Token} {issue : Option Issue} (ht : p.piece = .token t issue) :
    t.isNewline = false ∧ t.isEnd = false := by
  obtain ⟨cs, before, c, rest, -, hpiece, -, -⟩ := exists_of_mem_pieces hp
  have hspells := Piece.scan_token (hpiece.symm.trans ht)
  exact ⟨hspells.notNewline, hspells.notEnd⟩

/-- **All pieces** of a text. -/
theorem orderly_settled {ps : List LocatedPiece}
    (hps : ∀ p ∈ ps, ∀ t issue, p.piece = .token t issue → t.isNewline = false ∧ t.isEnd = false) :
    ∀ {stack : List Located}, Orderly stack → Orderly (ps.foldl settleOne stack) := by
  induction ps with
  | nil => exact fun h => h
  | cons p ps ih =>
    obtain ⟨hp, hps⟩ := List.forall_mem_cons.mp hps
    exact fun h => ih hps (orderly_settleOne h hp)

/-- The tokens without a line break at the end. -/
def withoutTrailing : List Located → List Located
  | last :: rest => if last.token.isNewline then rest else last :: rest
  | [] => []

theorem settle_eq (ps : List LocatedPiece) (size : Nat) :
    settle ps size =
      (withoutTrailing (ps.foldl settleOne [])).reverse ++ [⟨.endOfSource, ⟨size, size⟩⟩] := by
  rw [settle, List.reverse_cons]
  cases ps.foldl settleOne [] <;> rfl

/-- The end of the source stands behind a token that is no line break, or behind none. -/
theorem Orderly.ended {stack : List Located} (h : Orderly stack) (span : Span) :
    Orderly (⟨.endOfSource, span⟩ :: withoutTrailing stack) := by
  unfold withoutTrailing
  split
  · rename_i last rest
    split
    · rename_i hlast
      obtain ⟨t, ts, rfl, -, ht, hrest⟩ := h.of_newline hlast
      exact hrest.cons (.of_not_newline ht rfl)
    · rename_i hlast
      exact h.cons (.of_not_newline (Bool.eq_false_iff.mpr hlast) rfl)
  · exact orderly_singleton rfl

/-- Backwards, the tokens of a source are its end on top of tokens that stand as they can. -/
theorem reverse_tokenize (source : String) : ∃ span stack,
    (tokenize source).1.reverse = ⟨.endOfSource, span⟩ :: stack ∧
      Orderly (⟨.endOfSource, span⟩ :: stack) := by
  have hplain : ∀ p ∈ pieces 0 source.toList, ∀ t issue, p.piece = .token t issue →
      t.isNewline = false ∧ t.isEnd = false := fun p hp t issue => plain_of_mem_pieces hp
  refine ⟨⟨Text.size source.toList, Text.size source.toList⟩, _, ?_,
    (orderly_settled hplain orderly_nil).ended _⟩
  rw [tokenize, settle_eq, List.reverse_append, List.reverse_reverse]
  rfl

end Located

/-! ## What is left between two tokens -/

/-- Whether the piece is a run of line breaks. -/
def LocatedPiece.isBreaks (p : LocatedPiece) : Bool :=
  match p.piece with
  | .breaks => true
  | _ => false

/-- Whether the piece is no token. -/
def LocatedPiece.isGap (p : LocatedPiece) : Bool :=
  match p.piece with
  | .token _ _ => false
  | _ => true

namespace Located

/-- The first line break of a gap, as a token. -/
def firstBreak (gap : List LocatedPiece) : List Located :=
  ((gap.find? LocatedPiece.isBreaks).map fun p => ⟨.newline, p.span⟩).toList

/-- The line break that is left between two tokens with a gap between them: the first one, unless
the token in front of it goes on, or the one behind carries on. -/
def separator (t : Token) (gap : List LocatedPiece) (u : Token) : List Located :=
  if t.opensLine || u.continuesLine then [] else firstBreak gap

/-- Behind a token that goes on a gap leaves nothing, and behind any other its first line break. -/
theorem settled_gap {gap : List LocatedPiece} (hgap : ∀ p ∈ gap, p.isGap = true)
    (last : Located) (rest : List Located) :
    gap.foldl settleOne (last :: rest) =
      (if last.token.opensLine then [] else firstBreak gap) ++ last :: rest := by
  induction gap generalizing last rest with
  | nil => simp [firstBreak]
  | cons p gap ih =>
    obtain ⟨hp, hgap⟩ := List.forall_mem_cons.mp hgap
    rw [List.foldl_cons, firstBreak]
    cases hpiece : p.piece with
    | blank =>
      have hbreaks : ¬ p.isBreaks = true := by simp [LocatedPiece.isBreaks, hpiece]
      have hone : settleOne (last :: rest) p = last :: rest := by rw [settleOne, hpiece]
      rw [hone, ih hgap, List.find?_cons_of_neg hbreaks, firstBreak]
    | breaks =>
      have hbreaks : p.isBreaks = true := by simp [LocatedPiece.isBreaks, hpiece]
      rw [List.find?_cons_of_pos hbreaks]
      by_cases hopens : last.token.opensLine = true
      · have hone : settleOne (last :: rest) p = last :: rest := by
          rw [settleOne, hpiece]
          exact if_pos hopens
        rw [hone, ih hgap, if_pos hopens, if_pos hopens]
      · have hone : settleOne (last :: rest) p = ⟨.newline, p.span⟩ :: last :: rest := by
          rw [settleOne, hpiece]
          exact if_neg hopens
        rw [hone, ih hgap, if_neg hopens]
        rfl
    | token t issue =>
      rw [LocatedPiece.isGap, hpiece] at hp
      cases hp

theorem settleOne_token {p : LocatedPiece} {t : Token} {issue : Option Issue}
    (hp : p.piece = .token t issue) (stack : List Located) :
    settleOne stack p = push stack ⟨t, p.span⟩ := by
  unfold settleOne
  rw [hp]

/-- The token behind a gap takes the line break away that it carries on over. -/
theorem settleOne_behind_gap (last : Located) (hlast : last.token.isNewline = false)
    (rest : List Located) (gap : List LocatedPiece) {q : LocatedPiece} {u : Token}
    {issue : Option Issue} (hq : q.piece = .token u issue) :
    settleOne ((if last.token.opensLine then [] else firstBreak gap) ++ last :: rest) q =
      ⟨u, q.span⟩ :: (separator last.token gap u ++ last :: rest) := by
  have hnewline : Token.newline.isNewline = true := rfl
  rw [settleOne_token hq, separator, firstBreak]
  cases last.token.opensLine <;> cases hcontinues : u.continuesLine <;>
    cases gap.find? LocatedPiece.isBreaks <;> simp [push, hlast, hcontinues, hnewline]

/-- A token that is no line break stays, with all that is under it. -/
theorem settleOne_append {u : Located} (hu : u.token.isNewline = false) (rest : List Located)
    (more : List Located) (p : LocatedPiece) :
    ∃ more', settleOne (more ++ u :: rest) p = more' ++ u :: rest := by
  unfold settleOne
  split
  · exact ⟨more, rfl⟩
  · split
    · rename_i hnil
      simp at hnil
    · split
      · exact ⟨more, rfl⟩
      · exact ⟨_ :: more, rfl⟩
  · rename_i t issue hpiece
    unfold push
    cases more with
    | nil => exact ⟨[⟨t, p.span⟩], by simp [hu]⟩
    | cons last more =>
      simp only [List.cons_append]
      split
      · exact ⟨_ :: more, rfl⟩
      · exact ⟨_ :: last :: more, rfl⟩

theorem settled_append {u : Located} (hu : u.token.isNewline = false) (rest : List Located)
    (ps : List LocatedPiece) : ∀ more : List Located,
      ∃ more', ps.foldl settleOne (more ++ u :: rest) = more' ++ u :: rest := by
  induction ps with
  | nil => exact fun more => ⟨more, rfl⟩
  | cons p ps ih =>
    intro more
    obtain ⟨more', hone⟩ := settleOne_append hu rest more p
    rw [List.foldl_cons, hone]
    exact ih more'

theorem withoutTrailing_append {u : Located} (hu : u.token.isNewline = false)
    (rest more : List Located) :
    ∃ more', withoutTrailing (more ++ u :: rest) = more' ++ u :: rest := by
  cases more with
  | nil => exact ⟨[], by simp [withoutTrailing, hu]⟩
  | cons last more =>
    by_cases hlast : last.token.isNewline = true
    · exact ⟨more, by simp [withoutTrailing, hlast]⟩
    · exact ⟨last :: more, by simp [withoutTrailing, hlast]⟩

theorem exists_push (stack : List Located) (t : Located) : ∃ rest, push stack t = t :: rest := by
  unfold push
  split
  · split <;> exact ⟨_, rfl⟩
  · exact ⟨[], rfl⟩

/-- **Two neighbours**: between two tokens with nothing but a gap between them, their separator is
left. -/
theorem settle_neighbours {front gap back : List LocatedPiece} {p q : LocatedPiece} {t u : Token}
    {i j : Option Issue} (hp : p.piece = .token t i) (hq : q.piece = .token u j)
    (hgap : ∀ g ∈ gap, g.isGap = true) (ht : t.isNewline = false) (hu : u.isNewline = false)
    (size : Nat) :
    ∃ kept more, settle (front ++ p :: (gap ++ q :: back)) size =
      kept ++ ⟨t, p.span⟩ :: (separator t gap u ++ ⟨u, q.span⟩ :: more) := by
  have hfirst : ∃ rest, settleOne (front.foldl settleOne []) p = ⟨t, p.span⟩ :: rest := by
    rw [settleOne_token hp]
    exact exists_push _ _
  obtain ⟨rest, hfirst⟩ := hfirst
  obtain ⟨more, hmore⟩ := settled_append (u := ⟨u, q.span⟩) hu
    (separator t gap u ++ ⟨t, p.span⟩ :: rest) back []
  obtain ⟨more', hmore'⟩ := withoutTrailing_append (u := ⟨u, q.span⟩) hu
    (separator t gap u ++ ⟨t, p.span⟩ :: rest) more
  have hstack : (front ++ p :: (gap ++ q :: back)).foldl settleOne [] =
      more ++ ⟨u, q.span⟩ :: (separator t gap u ++ ⟨t, p.span⟩ :: rest) := by
    rw [List.foldl_append, List.foldl_cons, hfirst, List.foldl_append, settled_gap hgap,
      List.foldl_cons, settleOne_behind_gap ⟨t, p.span⟩ ht rest gap hq, ← hmore,
      List.nil_append]
  have hseparator : (separator t gap u).reverse = separator t gap u := by
    unfold separator firstBreak
    split
    · rfl
    · cases gap.find? LocatedPiece.isBreaks <;> rfl
  refine ⟨rest.reverse, more'.reverse ++ [⟨.endOfSource, ⟨size, size⟩⟩], ?_⟩
  rw [settle_eq, hstack, hmore']
  simp [hseparator]

end Located

/-- **Line breaks separate.**  Among the tokens of a source, a line break stands behind a token that
does not go on, and in front of a token that neither carries on nor is a line break nor the end of
the source.  Between two tokens with a gap between them there is a line break if and only if there
is one in the gap, the first token does not go on and the second one does not carry on. -/
theorem newlines_separate (source : String) :
    (∀ before t after, (tokenize source).1 = before ++ t :: after → t.token.isNewline = true →
      ∃ front last next back, before = front ++ [last] ∧ after = next :: back ∧
        last.token.opensLine = false ∧ last.token.isNewline = false ∧
        next.token.continuesLine = false ∧ next.token.isNewline = false ∧
        next.token.isEnd = false) ∧
    ∀ front p gap q back t u i j, pieces 0 source.toList = front ++ p :: (gap ++ q :: back) →
      p.piece = .token t i → q.piece = .token u j → (∀ g ∈ gap, g.isGap = true) →
      ∃ kept more, (tokenize source).1 =
        kept ++ ⟨t, p.span⟩ :: (Located.separator t gap u ++ ⟨u, q.span⟩ :: more) := by
  constructor
  · intro before t after htokens ht
    obtain ⟨span, stack, hreverse, horderly⟩ := Located.reverse_tokenize source
    rw [← hreverse, htokens, List.reverse_append, List.reverse_cons, List.append_assoc,
      List.singleton_append] at horderly
    cases after with
    | nil =>
      rw [htokens, List.reverse_append] at hreverse
      cases (List.cons.inj hreverse).1
      cases ht
    | cons next back =>
      obtain ⟨last, rest, hbefore, hopens, hlast, -⟩ := horderly.suffix.of_newline ht
      rw [List.reverse_cons, List.append_assoc] at horderly
      exact ⟨rest.reverse, last, next, back, by rw [← List.reverse_inj, hbefore]; simp, rfl, hopens,
        hlast, horderly.over_newline ht⟩
  · intro front p gap q back t u i j hpieces hp hq hgap
    have hmem : p ∈ pieces 0 source.toList ∧ q ∈ pieces 0 source.toList := by simp [hpieces]
    have ht := Located.plain_of_mem_pieces hmem.1 hp
    have hu := Located.plain_of_mem_pieces hmem.2 hq
    rw [tokenize, hpieces]
    exact Located.settle_neighbours hp hq hgap ht.1 hu.1 _

/-- The blank line between two names is one line break. -/
theorem newlines_separate_names :
    (∃ before t after, (tokenize "a\n\nb").1 = before ++ t :: after ∧ t.token.isNewline = true ∧
      ∃ front last next back, before = front ++ [last] ∧ after = next :: back ∧
        last.token.opensLine = false ∧ last.token.isNewline = false ∧
        next.token.continuesLine = false ∧ next.token.isNewline = false ∧
        next.token.isEnd = false) ∧
    Located.separator (.name "a") [⟨.breaks, ⟨1, 3⟩⟩] (.name "b") = [⟨.newline, ⟨1, 3⟩⟩] ∧
    ∃ kept more, (tokenize "a\n\nb").1 =
      kept ++ ⟨.name "a", ⟨0, 1⟩⟩ ::
        (Located.separator (.name "a") [⟨.breaks, ⟨1, 3⟩⟩] (.name "b") ++
          ⟨.name "b", ⟨3, 4⟩⟩ :: more) := by
  have hpieces : pieces 0 "a\n\nb".toList =
      [⟨.token (.name "a") none, ⟨0, 1⟩⟩, ⟨.breaks, ⟨1, 3⟩⟩,
        ⟨.token (.name "b") none, ⟨3, 4⟩⟩] := by
    have ha : Piece.scan 'a' ['\n', '\n', 'b'] = (.token (.name "a") none, 0) := rfl
    have hbreaks : Piece.scan '\n' ['\n', 'b'] = (.breaks, 1) := rfl
    have hb : Piece.scan 'b' [] = (.token (.name "b") none, 0) := rfl
    show pieces 0 ['a', '\n', '\n', 'b'] = _
    rw [pieces, ha]
    show _ :: pieces 1 ['\n', '\n', 'b'] = _
    rw [pieces, hbreaks]
    show _ :: _ :: pieces 3 ['b'] = _
    rw [pieces, hb]
    show _ :: _ :: _ :: pieces 4 [] = _
    rw [pieces]
    rfl
  have htokens : (tokenize "a\n\nb").1 =
      [⟨.name "a", ⟨0, 1⟩⟩] ++ ⟨.newline, ⟨1, 3⟩⟩ ::
        [⟨.name "b", ⟨3, 4⟩⟩, ⟨.endOfSource, ⟨4, 4⟩⟩] := by
    rw [tokenize, hpieces]
    rfl
  refine ⟨⟨_, _, _, htokens, rfl, (newlines_separate _).1 _ _ _ htokens rfl⟩, rfl, ?_⟩
  exact (newlines_separate _).2 [] ⟨_, _⟩ [⟨.breaks, ⟨1, 3⟩⟩] ⟨_, _⟩ [] _ _ none none hpieces rfl
    rfl (by simp [LocatedPiece.isGap])

end Packwright
