import Packwright.Proofs.Parsing.Grammar
import Packwright.Proofs.Token.Lossless

/-!
# Where reading stands

A reader takes tokens from left to right, so whatever it makes lies between the token that was taken
last before it and the one that was taken last behind it.

* `Span.Fits`, `Span.Holds`: places in a source, and places in places.
* `Row`: tokens in the order of the source, the end last.
* `Parsing.Laid`, `Parsing.Past`: the states of reading, and how they follow one another.
* `Passage.laid`, `Lies.between`: passages go on and not back, and places lie between their states.
-/

namespace Packwright

/-! ## Places in a source -/

/-- The span is a place in the source: it starts and ends where characters do. -/
structure Span.Fits (source : String) (span : Span) : Prop where
  ordered : span.start ≤ span.stop
  inside : span.stop ≤ source.utf8ByteSize
  starts : String.Pos.Raw.IsValid source ⟨span.start⟩
  stops : String.Pos.Raw.IsValid source ⟨span.stop⟩

/-- The inner span lies in the outer one. -/
def Span.Holds (outer inner : Span) : Prop := outer.start ≤ inner.start ∧ inner.stop ≤ outer.stop

namespace Text

theorem utf8ByteSize_ofList (cs : List Char) : (String.ofList cs).utf8ByteSize = size cs := by
  induction cs with
  | nil => rfl
  | cons c cs ih =>
    rw [String.ofList_cons, String.utf8ByteSize_append, String.utf8ByteSize_singleton, ih, size]

/-- Behind some of the characters of a source, others begin. -/
theorem isValid_size {source : String} {before after : List Char}
    (h : source.toList = before ++ after) : String.Pos.Raw.IsValid source ⟨size before⟩ := by
  refine String.Pos.Raw.isValid_iff_exists_append.mpr
    ⟨String.ofList before, String.ofList after, ?_, ?_⟩
  · rw [← String.ofList_append, ← h, String.ofList_toList]
  · ext
    exact (utf8ByteSize_ofList before).symm

end Text

namespace Span

variable {source : String} {a b c : Span}

theorem Covers.fits {span : Span} {cs : List Char} (h : span.Covers source.toList cs) :
    span.Fits source := by
  have hinside := h.stop_le
  rw [← Text.utf8ByteSize_ofList, String.ofList_toList] at hinside
  obtain ⟨before, after, htext, hstart, hstop⟩ := h
  have hordered : span.start ≤ span.stop := by
    rw [hstart, hstop, Text.size_append]
    exact Nat.le_add_right _ _
  refine ⟨hordered, hinside, ?_, ?_⟩
  · rw [hstart]
    exact Text.isValid_size (htext.trans (List.append_assoc _ _ _))
  · rw [hstop]
    exact Text.isValid_size htext

theorem Fits.merge (ha : a.Fits source) (hb : b.Fits source) : (a.merge b).Fits source := by
  have hordered : (a.merge b).start ≤ (a.merge b).stop :=
    le_trans (min_le_left _ _) (le_trans ha.ordered (le_max_left _ _))
  refine ⟨hordered, max_le ha.inside hb.inside, ?_, ?_⟩
  · rcases le_total a.start b.start with h | h
    · rw [Span.merge, min_eq_left h]
      exact ha.starts
    · rw [Span.merge, min_eq_right h]
      exact hb.starts
  · rcases le_total a.stop b.stop with h | h
    · rw [Span.merge, max_eq_right h]
      exact hb.stops
    · rw [Span.merge, max_eq_left h]
      exact ha.stops

theorem Holds.refl (a : Span) : a.Holds a := ⟨le_rfl, le_rfl⟩

theorem Holds.trans (h : a.Holds b) (h' : b.Holds c) : a.Holds c :=
  ⟨h.1.trans h'.1, h'.2.trans h.2⟩

theorem merge_between {m n : Nat} (ha : m ≤ a.start ∧ a.stop ≤ n) (hb : m ≤ b.start ∧ b.stop ≤ n) :
    m ≤ (a.merge b).start ∧ (a.merge b).stop ≤ n :=
  ⟨le_min ha.1 hb.1, max_le ha.2 hb.2⟩

theorem holds_merge_left (a b : Span) : (a.merge b).Holds a := ⟨min_le_left _ _, le_max_left _ _⟩

theorem holds_merge_right (a b : Span) : (a.merge b).Holds b := ⟨min_le_right _ _, le_max_right _ _⟩

end Span

/-- All that the report is about lies in the source. -/
structure Report.Fits (source : String) (r : Report) : Prop where
  diagnostics : ∀ d ∈ r.diagnostics, d.span.Fits source
  suggestions : ∀ g ∈ r.suggestions, g.span.Fits source

namespace Report.Fits

variable {source : String} {r r' : Report} {span : Span}

theorem empty : Report.Fits source {} := ⟨List.forall_mem_nil _, List.forall_mem_nil _⟩

theorem add (h : r.Fits source) {d : Diagnostic} (hd : d.span.Fits source) :
    (r.add d).Fits source :=
  ⟨List.forall_mem_append.mpr ⟨h.diagnostics, List.forall_mem_singleton.mpr hd⟩, h.suggestions⟩

theorem suggest (h : r.Fits source) (hspan : span.Fits source) (candidates : List String) :
    (r.suggest span candidates).Fits source := by
  unfold Report.suggest
  split
  · exact h
  · exact ⟨h.diagnostics,
      List.forall_mem_append.mpr ⟨h.suggestions, List.forall_mem_singleton.mpr hspan⟩⟩

theorem append (h : r.Fits source) (h' : r'.Fits source) : (r.append r').Fits source :=
  ⟨List.forall_mem_append.mpr ⟨h.diagnostics, h'.diagnostics⟩,
    List.forall_mem_append.mpr ⟨h.suggestions, h'.suggestions⟩⟩

end Report.Fits

/-! ## Tokens in a row -/

/-- Tokens that stand behind the byte `n` of the source, in its order.  The last one, and only that
one, is the end, where nothing is left. -/
inductive Row (source : String) : (n : Nat) → List Located → Prop
  | last {n : Nat} {t : Located} (hle : n ≤ t.span.start) (hfits : t.span.Fits source)
      (hend : t.token.isEnd = true) (hempty : t.span.stop ≤ t.span.start) : Row source n [t]
  | cons {n : Nat} {t : Located} {ts : List Located} (hle : n ≤ t.span.start)
      (hfits : t.span.Fits source) (hend : t.token.isEnd = false)
      (hrest : Row source t.span.stop ts) : Row source n (t :: ts)

namespace Row

variable {source : String} {n : Nat} {tokens : List Located}

theorem fits (h : Row source n tokens) : ∀ t ∈ tokens, t.span.Fits source := by
  induction h with
  | last _ hfits _ _ => exact List.forall_mem_singleton.mpr hfits
  | cons _ hfits _ _ ih => exact List.forall_mem_cons.mpr ⟨hfits, ih⟩

theorem ended (h : Row source n tokens) : Ended tokens := by
  induction h with
  | last _ _ hend _ => exact ⟨[], _, rfl, hend, List.forall_mem_nil _⟩
  | @cons _ t _ _ _ hend _ ih =>
    obtain ⟨kept, stop, rfl, hstop, hkept⟩ := ih
    exact ⟨t :: kept, stop, rfl, hstop, List.forall_mem_cons.mpr ⟨hend, hkept⟩⟩

/-- Tokens in order, with the end behind them, stand in a row. -/
theorem of_ordered {last : Located} (hend : last.token.isEnd = true)
    (hempty : last.span.stop ≤ last.span.start) :
    ∀ {kept : List Located} {n : Nat}, (∀ t ∈ kept, t.token.isEnd = false) →
      (∀ t ∈ kept ++ [last], t.span.Fits source) → (∀ t ∈ kept ++ [last], n ≤ t.span.start) →
      (kept ++ [last]).Pairwise (fun t u => t.span.stop ≤ u.span.start) →
      Row source n (kept ++ [last])
  | [], _, _, hfits, hn, _ =>
    .last (hn last List.mem_cons_self) (hfits last List.mem_cons_self) hend hempty
  | t :: kept, _, hkept, hfits, hn, hpairs => by
    obtain ⟨ht, hkept⟩ := List.forall_mem_cons.mp hkept
    obtain ⟨htfits, hfits⟩ := List.forall_mem_cons.mp hfits
    obtain ⟨hfirst, hpairs⟩ := List.pairwise_cons.mp hpairs
    exact .cons (hn t List.mem_cons_self) htfits ht
      (of_ordered hend hempty hkept hfits hfirst hpairs)

end Row

/-- **Tokens** of a source stand in a row. -/
theorem tokenize_row (source : String) : Row source 0 (tokenize source).1 := by
  obtain ⟨kept, htokens, hkept⟩ := tokenize_ends source
  have hfits : ∀ t ∈ (tokenize source).1, t.span.Fits source := by
    intro t ht
    obtain ⟨cs, hcs, -⟩ := tokenize_covers source t ht
    exact hcs.fits
  have hpairs := (tokenize_ordered source).imp And.right
  rw [htokens] at hfits hpairs ⊢
  exact .of_ordered rfl le_rfl hkept hfits (fun _ _ => Nat.zero_le _) hpairs

namespace Parsing

variable {source : String} {s s₁ s₂ : Parsing}

/-- The state of reading a source: the tokens that are left stand behind the one that was taken
last. -/
structure Laid (source : String) (s : Parsing) : Prop where
  row : Row source s.last.stop s.rest
  last : s.last.Fits source
  report : s.report.Fits source

/-- The second state comes behind the first one: no token was taken, or the current one was. -/
structure Past (s s₁ : Parsing) : Prop where
  start : s.last.start ≤ s₁.last.start
  stop : s.last.stop ≤ s₁.last.stop
  moved : (s₁.last = s.last ∧ s₁.rest = s.rest) ∨
    (s.here.start ≤ s₁.last.start ∧ s.here.stop ≤ s₁.last.stop)

theorem Past.of_eq (hlast : s₁.last = s.last) (hrest : s₁.rest = s.rest) : s.Past s₁ :=
  ⟨hlast ▸ le_rfl, hlast ▸ le_rfl, .inl ⟨hlast, hrest⟩⟩

theorem Past.refl (s : Parsing) : s.Past s := .of_eq rfl rfl

theorem Past.trans (h : s.Past s₁) (h' : s₁.Past s₂) : s.Past s₂ := by
  refine ⟨h.start.trans h'.start, h.stop.trans h'.stop, ?_⟩
  rcases h.moved with ⟨hlast, hrest⟩ | ⟨hstart, hstop⟩
  · rw [← here_eq hlast hrest, ← hlast, ← hrest]
    exact h'.moved
  · exact .inr ⟨hstart.trans h'.start, hstop.trans h'.stop⟩

/-- The current token lies in the source, behind the one that was taken last. -/
theorem Laid.here (h : s.Laid source) : s.here.Fits source ∧ s.last.stop ≤ s.here.start := by
  have hrow := h.row
  unfold Parsing.here
  generalize s.rest = ts at hrow
  cases hrow with
  | last hle hfits _ _ => exact ⟨hfits, hle⟩
  | cons hle hfits _ _ => exact ⟨hfits, hle⟩

theorem Laid.complain (h : s.Laid source) (issue : Issue) {span : Span} (hspan : span.Fits source) :
    (s.complain issue span).Laid source :=
  ⟨h.row, h.last, h.report.add hspan⟩

theorem Laid.enterScope (h : s.Laid source) : s.enterScope.Laid source :=
  ⟨h.row, h.last, h.report⟩

theorem Laid.suggest (h : s.Laid source) {span : Span} (hspan : span.Fits source)
    (candidates : List String) : (s.suggest span candidates).Laid source :=
  ⟨h.row, h.last, h.report.suggest hspan candidates⟩

theorem Laid.declare (h : s.Laid source) (name : String) (ty : Ty) :
    (s.declare name ty).Laid source ∧ s.Past (s.declare name ty) := by
  unfold Parsing.declare
  split
  · exact ⟨⟨h.row, h.last, h.report⟩, .of_eq rfl rfl⟩
  · exact ⟨h, .refl s⟩

theorem Laid.advance (h : s.Laid source) : s.advance.Laid source ∧ s.Past s.advance := by
  have hhere := h.here
  have hordered := h.last.ordered
  have hordered' := hhere.1.ordered
  refine ⟨⟨?_, (last_advance s).symm ▸ hhere.1, (report_advance s).symm ▸ h.report⟩, ?_⟩
  · have hrow := h.row
    unfold Parsing.advance Parsing.here
    split
    · rename_i t u ts hrest
      rw [hrest] at hrow
      cases hrow with
      | cons _ _ _ hrow => exact hrow
    · rename_i hshort
      -- only the end is left, and it stays
      generalize s.rest = ts at hrow hshort ⊢
      cases hrow with
      | last _ hfits hend hempty => exact .last hempty hfits hend hempty
      | cons _ _ _ hrow =>
        cases hrow with
        | last => exact absurd rfl (hshort _ _ _)
        | cons => exact absurd rfl (hshort _ _ _)
  · refine ⟨?_, ?_, .inr ?_⟩
    all_goals rw [last_advance]
    · omega
    · omega
    · exact ⟨le_rfl, le_rfl⟩

/-- A token that is not the last one is passed over. -/
theorem Laid.passed_tail {t u : Located} {ts : List Located} (h : s.Laid source)
    (hrest : s.rest = t :: u :: ts) :
    (s.passed (t.span, u :: ts)).Laid source ∧ s.Past (s.passed (t.span, u :: ts)) := by
  exact advance_eq_passed hrest ▸ h.advance

theorem Laid.passed_self {ts : List Located} (h : s.Laid source) (hrest : s.rest = ts) :
    (s.passed (s.last, ts)).Laid source ∧ s.Past (s.passed (s.last, ts)) :=
  ⟨⟨hrest ▸ h.row, h.last, h.report⟩, .of_eq rfl hrest.symm⟩

theorem Laid.skipLine : ∀ (ts : List Located) {s : Parsing} (depth : Nat),
    s.Laid source → s.rest = ts → (s.passed (skipLine depth s.last ts)).Laid source ∧
      s.Past (s.passed (skipLine depth s.last ts))
  | [], s, depth, h, hrest | [_], s, depth, h, hrest => by
    unfold Parsing.skipLine
    exact h.passed_self hrest
  | t :: u :: ts, s, depth, h, hrest => by
    obtain ⟨hlaid, hpast⟩ := h.passed_tail hrest
    rcases skipLine_cases depth s.last t u ts with ⟨-, heq⟩ | heq | ⟨depth', heq⟩
    all_goals rw [heq]
    · exact h.passed_self hrest
    · exact ⟨hlaid, hpast⟩
    · obtain ⟨hlaid', hpast'⟩ := Laid.skipLine (u :: ts) depth' hlaid rfl
      exact ⟨hlaid', hpast.trans hpast'⟩

theorem Laid.recover (h : s.Laid source) : s.recover.Laid source ∧ s.Past s.recover :=
  h.skipLine s.rest 0 rfl

end Parsing

/-! ## Passages -/

/-- The places that reading can name lie in the source, if those of the tokens do. -/
theorem Spot.fits {source : String} {tokens : List Located} (hzero : (Span.mk 0 0).Fits source)
    (htokens : ∀ t ∈ tokens, t.span.Fits source) {span : Span} (h : Spot tokens span) :
    span.Fits source := by
  induction h with
  | start => exact hzero
  | token ht => exact htokens _ ht
  | merge _ _ iha ihb => exact iha.merge ihb

/-- The place lies between the tokens that were taken last in two states. -/
def Span.Between (s s' : Parsing) (span : Span) : Prop :=
  s.last.stop ≤ span.start ∧ span.stop ≤ s'.last.stop

section Laid

open Parsing

variable {source : String} {tokens : List Located} {s s' : Parsing}
  (hfits : ∀ {span}, Spot tokens span → span.Fits source)

include hfits

/-- **Passages** go on and not back, and all that they report lies in the source. -/
theorem Passage.laid {A : Manner} {o : Option Diagnostic} (h : Passage tokens A s o s')
    (hs : s.Laid source) : s'.Laid source ∧ s.Past s' := by
  induction h with
  | stay | fail => exact ⟨hs, .refl _⟩
  | trans _ _ ih ih' => exact ⟨(ih' (ih hs).1).1, (ih hs).2.trans (ih' (ih hs).1).2⟩
  | take => exact hs.advance
  | enclose _ _ _ ih =>
    obtain ⟨hlaid, hpast⟩ := ih hs.advance.1
    exact ⟨hlaid.advance.1, hs.advance.2.trans (hpast.trans hlaid.advance.2)⟩
  | unclosed _ _ ih => exact ⟨(ih hs.advance.1).1, hs.advance.2.trans (ih hs.advance.1).2⟩
  | complain _ hspan => exact ⟨hs.complain _ (hfits hspan), .of_eq rfl rfl⟩
  | suggest hspan candidates => exact ⟨hs.suggest (hfits hspan) candidates, .of_eq rfl rfl⟩
  | declare _ name ty => exact hs.declare name ty
  | enum => exact ⟨⟨hs.row, hs.last, hs.report⟩, .of_eq rfl rfl⟩
  | scope _ ih =>
    obtain ⟨hlaid, hpast⟩ := ih hs.enterScope
    exact ⟨⟨hlaid.row, hlaid.last, hlaid.report⟩, ⟨hpast.start, hpast.stop, hpast.moved⟩⟩
  | recover => exact hs.recover
  | giveUp _ h ih =>
    exact ⟨(ih hs).1.complain _ (hfits (h.failure _ rfl).2), (ih hs).2.trans (.of_eq rfl rfl)⟩

/-- **Places** lie between the tokens around them. -/
theorem Lies.between {span : Span} (h : Lies tokens s s' span) (hs : s.Laid source) :
    span.Between s s' := by
  induction h with
  | @last s s' h =>
    have hstart := (h.moves.laid hfits hs.advance.1).2.start
    rw [last_advance] at hstart
    exact ⟨hs.here.2.trans hstart, le_rfl⟩
  | @enclosed s s₁ h =>
    obtain ⟨hlaid, hpast⟩ := h.inner.laid hfits hs.advance.1
    have hstop := hpast.stop
    have hhere := hs.here
    have hhere₁ := hlaid.here
    have hordered := hhere.1.ordered
    have hordered₁ := hhere₁.1.ordered
    rw [last_advance] at hstop
    rw [Span.Between, last_advance]
    exact Span.merge_between (by omega) (by omega)
  | merge _ _ iha ihb => exact Span.merge_between (iha hs) (ihb hs)
  | widen h₀ h h₁ ih =>
    obtain ⟨hlaid, hpast⟩ := h₀.laid hfits hs
    have hbetween := ih hlaid
    have hpast₁ := (h₁.laid hfits (h.moves.laid hfits hlaid).1).2
    exact ⟨hpast.stop.trans hbetween.1, hbetween.2.trans hpast₁.stop⟩

end Laid

end Packwright
