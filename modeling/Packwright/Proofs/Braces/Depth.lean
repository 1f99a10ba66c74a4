import Packwright.Proofs.Parsing.Passage
import Packwright.Proofs.Token.Lossless

/-!
# Braces that are open

How many braces are open where a reader stands can be told from the tokens that are left, since in
the end all of them are closed.  A reader that succeeds leaves as many open as it found.  One that
fails may leave more of them open, those that it had opened itself, but it never closes one that it
has not opened.

* `opened`, `Span.opened`: the braces that tokens leave open, and those within a place.
* `Orderly`: tokens in which every brace is closed.
* `Orderly.opened_merge`: the place from one token to another holds the tokens between them.
* `Parsing.Along.depth_recover`: passing over the rest of a line keeps the depth.
* `Passage.depth`, `Passage.unmatched`: what every passage does to the braces.
-/

namespace Packwright

/-! ## Open braces -/

/-- How many braces a token opens. -/
def Token.opens : Token → Int
  | mark .lbrace => 1
  | mark .rbrace => -1
  | _ => 0

theorem Token.opens_of_isEnd {t : Token} (h : t.isEnd = true) : t.opens = 0 := by
  cases t <;> first | rfl | cases h

theorem Token.opens_of_isPlain {t : Token} (h : t.isPlain = true) : t.opens = 0 := by
  unfold opens
  split
  · cases h
  · cases h
  · rfl

theorem Token.brace_cases (t : Token) :
    t.isPlain = true ∨ t = mark .lbrace ∨ t = mark .rbrace ∨ t = endOfSource := by
  unfold isPlain
  split <;> simp

/-- How many braces tokens leave open.  One that is closed and not opened counts against them. -/
def opened : List Located → Int
  | [] => 0
  | t :: ts => t.token.opens + opened ts

@[simp] theorem opened_nil : opened [] = 0 := rfl

@[simp] theorem opened_cons (t : Located) (ts : List Located) :
    opened (t :: ts) = t.token.opens + opened ts := rfl

@[simp] theorem opened_append (ts us : List Located) :
    opened (ts ++ us) = opened ts + opened us := by
  induction ts with
  | nil => simp
  | cons t ts ih => rw [List.cons_append, opened_cons, opened_cons, ih, Int.add_assoc]

theorem opened_filter_eq_zero {ts : List Located} {p : Located → Bool}
    (h : ∀ t ∈ ts, p t = true → t.token.opens = 0) : opened (ts.filter p) = 0 := by
  induction ts with
  | nil => rfl
  | cons t ts ih =>
    obtain ⟨ht, hts⟩ := List.forall_mem_cons.mp h
    rw [List.filter_cons]
    split
    · rename_i hp
      rw [opened_cons, ht hp, ih hts, Int.add_zero]
    · exact ih hts

/-- Whether the inner span lies in the outer one. -/
def Span.within (outer inner : Span) : Bool :=
  outer.start ≤ inner.start && inner.stop ≤ outer.stop

theorem Span.within_iff {outer inner : Span} :
    outer.within inner = true ↔ outer.start ≤ inner.start ∧ inner.stop ≤ outer.stop := by
  simp [within]

/-- How many braces the tokens within a place leave open. -/
def Span.opened (tokens : List Located) (span : Span) : Int :=
  Packwright.opened (tokens.filter fun t => span.within t.span)

/-! ## Tokens of a source -/

/-- Tokens in their order, in which every brace is closed. -/
structure Orderly (tokens : List Located) : Prop where
  ordered : tokens.Pairwise fun t u => t.span.start < t.span.stop ∧ t.span.stop ≤ u.span.start
  closed : ∀ ts, ts <:+ tokens → opened ts ≤ 0

variable {tokens : List Located}

theorem Ended.isEnd_last (h : Ended tokens) {t : Located} (ht : [t] <:+ tokens) :
    t.token.isEnd = true := by
  rcases (h.suffix ht (List.cons_ne_nil _ _)).cases with ⟨_, heq, hend⟩ | ⟨_, _, _, heq, -⟩
  · rw [List.singleton_inj.mp heq]
    exact hend
  · cases heq

theorem tokenize_ended (source : String) : Ended (tokenize source).1 := by
  obtain ⟨kept, hkept, hnone⟩ := tokenize_ends source
  exact ⟨kept, _, hkept, rfl, hnone⟩

/-- Tokens in a row, with others behind them, lie between the first one and the last one. -/
theorem bounds_of_pairwise {t l : Located} {taken front rest : List Located}
    (h : (t :: taken ++ rest).Pairwise fun t u =>
      t.span.start < t.span.stop ∧ t.span.stop ≤ u.span.start)
    (hrest : rest ≠ []) (hfront : t :: taken = front ++ [l]) :
    ∀ x ∈ t :: taken, t.span.start ≤ x.span.start ∧ x.span.stop ≤ l.span.stop := by
  obtain ⟨u, us, rfl⟩ := List.exists_cons_of_ne_nil hrest
  obtain ⟨htaken, -, hleft⟩ := List.pairwise_append.mp h
  intro x hx
  constructor
  · rcases List.mem_cons.mp hx with rfl | hx
    · exact le_rfl
    · have := List.rel_of_pairwise_cons htaken hx
      omega
  · have hl := hleft l (by rw [hfront]; simp) u List.mem_cons_self
    rw [hfront] at hx htaken
    rcases List.mem_append.mp hx with hx | hx
    · have := (List.pairwise_append.mp htaken).2.2 x hx l (List.mem_singleton_self _)
      omega
    · rw [List.mem_singleton.mp hx]

namespace Orderly

variable (h : Orderly tokens)

include h

/-- Where nothing stands, there is no brace. -/
theorem opens_eq_zero (hended : Ended tokens) {t : Located} (ht : t ∈ tokens)
    (hempty : t.span.stop ≤ t.span.start) : t.token.opens = 0 := by
  have hordered := h.ordered
  obtain ⟨kept, stop, rfl, hend, -⟩ := hended
  rcases List.mem_append.mp ht with ht | ht
  · have := (List.pairwise_append.mp hordered).2.2 t ht stop (List.mem_singleton_self _)
    omega
  · rw [List.mem_singleton.mp ht]
    exact Token.opens_of_isEnd hend

/-- **The place from one token to another** holds exactly the tokens between them. -/
theorem opened_merge (hended : Ended tokens) {before taken rest : List Located} {t : Located}
    (htokens : tokens = before ++ (t :: taken ++ rest)) (hrest : rest ≠ []) :
    (t.span.merge (lastOf (before ++ t :: taken))).opened tokens = opened (t :: taken) := by
  have hordered := h.ordered
  rw [htokens] at hordered
  obtain ⟨-, hrow, hbehind⟩ := List.pairwise_append.mp hordered
  obtain ⟨-, -, hleft⟩ := List.pairwise_append.mp hrow
  obtain ⟨front, l, hfront⟩ :=
    (List.eq_nil_or_concat' (t :: taken)).resolve_left (List.cons_ne_nil _ _)
  have hl : l ∈ t :: taken := hfront ▸ List.mem_append_right _ (List.mem_singleton_self _)
  have hbounds := bounds_of_pairwise hrow hrest hfront
  have hspan : t.span.merge (lastOf (before ++ t :: taken)) = ⟨t.span.start, l.span.stop⟩ := by
    rw [hfront, ← List.append_assoc, lastOf_concat, Span.merge, min_eq_left (hbounds l hl).1,
      max_eq_right (hbounds t List.mem_cons_self).2]
  have hinside : ∀ x ∈ t :: taken, Span.within ⟨t.span.start, l.span.stop⟩ x.span = true :=
    fun x hx => Span.within_iff.mpr (hbounds x hx)
  have hbefore : ∀ x ∈ before, Span.within ⟨t.span.start, l.span.stop⟩ x.span = true →
      x.token.opens = 0 := by
    intro x hx hin
    have hxt := hbehind x hx t (by simp)
    have hstart : t.span.start ≤ x.span.start := (Span.within_iff.mp hin).1
    omega
  have hafter : ∀ x ∈ rest, Span.within ⟨t.span.start, l.span.stop⟩ x.span = true →
      x.token.opens = 0 := by
    intro x hx hin
    have hlx := hleft l hl x hx
    have hend : x.span.stop ≤ l.span.stop := (Span.within_iff.mp hin).2
    refine h.opens_eq_zero hended ?_ (by omega)
    rw [htokens]
    exact List.mem_append_right _ (List.mem_append_right _ hx)
  rw [hspan, Span.opened, htokens, List.filter_append, List.filter_append, opened_append,
    opened_append, List.filter_eq_self.mpr hinside, opened_filter_eq_zero hbefore,
    opened_filter_eq_zero hafter, Int.zero_add, Int.add_zero]

end Orderly

/-! ## States -/

/-- How many braces were found that close nothing. -/
def Report.unmatched (r : Report) : Nat := r.diagnostics.countP (·.issue.isUnmatchedBrace)

theorem Report.unmatched_add (r : Report) (d : Diagnostic) :
    (r.add d).unmatched = r.unmatched + if d.issue.isUnmatchedBrace then 1 else 0 := by
  simp [unmatched, add, List.countP_singleton]

theorem Report.unmatched_suggest (r : Report) (span : Span) (candidates : List String) :
    (r.suggest span candidates).unmatched = r.unmatched := by
  unfold suggest
  split <;> rfl

namespace Parsing

/-- How many braces are open, if all of them are closed in the end. -/
def depth (s : Parsing) : Int := -opened s.rest

/-! What passing over a line does to a token that is not the last one. -/

section SkipLine

variable {t u : Located} {ts : List Located} {depth : Nat} {last : Span}

theorem skipLine_lbrace (h : t.token = .mark .lbrace) :
    skipLine depth last (t :: u :: ts) = skipLine (depth + 1) t.span (u :: ts) := by
  rw [skipLine, h]
  rfl

theorem skipLine_rbrace_zero (h : t.token = .mark .rbrace) :
    skipLine 0 last (t :: u :: ts) = (last, t :: u :: ts) := by
  rw [skipLine, h]
  rfl

theorem skipLine_rbrace_succ (h : t.token = .mark .rbrace) :
    skipLine (depth + 1) last (t :: u :: ts) = skipLine depth t.span (u :: ts) := by
  rw [skipLine, h]
  rfl

/-- A line ends with a token that separates lines, unless braces are open in it. -/
theorem skipLine_plain (h : t.token.isPlain = true) (depth : Nat) (last : Span) (u : Located)
    (ts : List Located) : (depth = 0 ∧ skipLine depth last (t :: u :: ts) = (t.span, u :: ts)) ∨
      skipLine depth last (t :: u :: ts) = skipLine depth t.span (u :: ts) := by
  let Ends (r : Span × List Located) : Prop :=
    (depth = 0 ∧ r = (t.span, u :: ts)) ∨ r = skipLine depth t.span (u :: ts)
  change Ends (skipLine depth last (t :: u :: ts))
  rw [skipLine]
  refine iteInduction (fun hline => .inl ⟨?_, rfl⟩) fun _ => .inr ?_
  · split at hline
    · exact of_decide_eq_true hline
    · exact of_decide_eq_true hline
    · cases hline
  · split
    · rename_i ht
      rw [ht] at h
      cases h
    · rename_i ht
      rw [ht] at h
      cases h
    · rename_i ht
      rw [ht] at h
      cases h
    · rfl

end SkipLine

variable {s s₁ : Parsing}

/-- Behind a token, its braces are open. -/
theorem depth_passed {t u : Located} {us : List Located} (hrest : s.rest = t :: u :: us) :
    (s.passed (t.span, u :: us)).depth = s.depth + t.token.opens := by
  rw [depth, depth, hrest, opened_cons]
  change -opened (u :: us) = _
  omega

theorem depth_advance (hs : Ended s.rest) (hend : s.peek.isEnd = false) :
    s.advance.depth = s.depth + s.peek.opens := by
  obtain ⟨t, u, us, hrest, hpeek⟩ := rest_of_not_isEnd hs hend
  rw [advance_eq_passed hrest, depth_passed hrest, hpeek]

theorem depth_take (hs : Ended s.rest) (hplain : s.peek.isPlain = true) :
    s.advance.depth = s.depth := by
  rw [depth_advance hs (Token.isEnd_of_isPlain hplain), Token.opens_of_isPlain hplain, Int.add_zero]

theorem depth_open (hs : Ended s.rest) (hopen : s.peek = .mark .lbrace) :
    s.advance.depth = s.depth + 1 := by
  rw [depth_advance hs (not_isEnd_of_mark hopen), hopen]
  rfl

theorem depth_close (hs : Ended s.rest) (hclose : s.peek = .mark .rbrace) :
    s.advance.depth = s.depth - 1 := by
  rw [depth_advance hs (not_isEnd_of_mark hclose), hclose]
  rfl

/-- In the end no brace is open. -/
theorem depth_of_isEnd (hs : Ended s.rest) (hend : s.peek.isEnd = true) : s.depth = 0 := by
  rcases hs.cases with ⟨t, hrest, ht⟩ | ⟨t, u, us, hrest, ht⟩
  · rw [depth, hrest, opened_cons, Token.opens_of_isEnd ht]
    rfl
  · rw [Parse.peek_of_rest hrest, ht] at hend
    cases hend

theorem Along.depth_nonneg (h : s.Along tokens) (ho : Orderly tokens) : 0 ≤ s.depth := by
  have hclosed := ho.closed _ h.suffix
  rw [depth]
  omega

/-! ## Passing over a line -/

/-- **One token of a line**: reading stops in front of it or behind it, or goes on behind it.  The
braces that were opened on the way are open besides the `m` in front of the line. -/
theorem skipLine_step {m : Int} {t u : Located} {ts : List Located} {k : Nat} (hs : Ended s.rest)
    (hdepth : s.depth = m + k) (hrest : s.rest = t :: u :: ts) :
    (k = 0 ∧ skipLine k s.last (t :: u :: ts) = (s.last, t :: u :: ts)) ∨
      ((s.passed (t.span, u :: ts)).depth = m ∧
        skipLine k s.last (t :: u :: ts) = (t.span, u :: ts)) ∨
      ∃ k' : Nat, (s.passed (t.span, u :: ts)).depth = m + k' ∧
        skipLine k s.last (t :: u :: ts) = skipLine k' t.span (u :: ts) := by
  have htake := depth_passed hrest
  rcases t.token.brace_cases with ht | ht | ht | ht
  · rw [Token.opens_of_isPlain ht] at htake
    rcases skipLine_plain ht k s.last u ts with ⟨rfl, heq⟩ | heq
    · exact .inr (.inl ⟨by omega, heq⟩)
    · exact .inr (.inr ⟨k, by omega, heq⟩)
  · rw [ht, Token.opens] at htake
    exact .inr (.inr ⟨k + 1, by omega, skipLine_lbrace ht⟩)
  · cases k with
    | zero => exact .inl ⟨rfl, skipLine_rbrace_zero ht⟩
    | succ k =>
      rw [ht, Token.opens] at htake
      exact .inr (.inr ⟨k, by omega, skipLine_rbrace_succ ht⟩)
  · have hend : s.peek.isEnd = true := by
      rw [Parse.peek_of_rest hrest, ht]
      rfl
    rcases hs.cases with ⟨_, hone, -⟩ | ⟨_, _, _, hmore, hnone⟩
    · rw [hrest] at hone
      cases hone
    · rw [Parse.peek_of_rest hmore, hnone] at hend
      cases hend

/-- At the end of the source no brace is open, so those that were opened on the way have been
closed by then. -/
theorem depth_skipLine {m : Int} (hm : 0 ≤ m) : ∀ (ts : List Located) {s : Parsing} (k : Nat),
    Ended s.rest → s.depth = m + k → s.rest = ts → (s.passed (skipLine k s.last ts)).depth = m
  | [], s, _, hs, _, hrest => absurd hrest hs.ne_nil
  | [t], s, k, hs, hdepth, hrest => by
    have hzero : s.depth = 0 := by
      refine depth_of_isEnd hs ?_
      by_contra hend
      obtain ⟨_, _, _, hmore, -⟩ := rest_of_not_isEnd hs (Bool.not_eq_true _ ▸ hend)
      simp [hrest] at hmore
    have hsame : (s.passed (skipLine k s.last [t])).depth = s.depth := by
      rw [depth, depth, hrest]
      rfl
    omega
  | t :: u :: ts, s, k, hs, hdepth, hrest => by
    rcases skipLine_step hs hdepth hrest with ⟨rfl, heq⟩ | ⟨htake, heq⟩ | ⟨k', htake, heq⟩
    all_goals rw [heq]
    · rw [depth, hrest] at hdepth
      change -opened (t :: u :: ts) = m
      omega
    · exact htake
    · have hrest' : Ended (u :: ts) := by
        rw [hrest] at hs
        exact hs.suffix (List.suffix_cons _ _) (List.cons_ne_nil _ _)
      exact depth_skipLine hm (u :: ts) k' hrest' htake rfl

/-- **Passing over the rest of a line** keeps the depth. -/
theorem Along.depth_recover (h : s.Along tokens) (hended : Ended tokens) (ho : Orderly tokens) :
    s.recover.depth = s.depth :=
  depth_skipLine (h.depth_nonneg ho) s.rest 0 (h.ended hended) (Int.add_zero _).symm rfl

/-- **The place of the tokens that were taken** between two states. -/
theorem Along.opened_since (h : s.Along tokens) (h₁ : s₁.Along tokens) (hended : Ended tokens)
    (ho : Orderly tokens) (hless : s₁.rest.length < s.rest.length) :
    (s.here.merge s₁.last).opened tokens = s₁.depth - s.depth := by
  obtain ⟨before, htokens, -⟩ := h.taken
  obtain ⟨before₁, htokens₁, hlast⟩ := h₁.taken
  obtain ⟨taken, htaken⟩ := List.suffix_of_suffix_length_le h₁.suffix h.suffix hless.le
  obtain ⟨t, ts, rfl⟩ : ∃ t ts, taken = t :: ts :=
    List.exists_cons_of_ne_nil fun hnil => by simp [← htaken, hnil] at hless
  have hbefore : before₁ = before ++ t :: ts := by
    rw [htokens, ← htaken, ← List.append_assoc] at htokens₁
    exact (List.append_cancel_right htokens₁).symm
  have hhere : s.here = t.span := Parse.here_of_rest htaken.symm
  have hopened : opened s.rest = opened (t :: ts) + opened s₁.rest := by
    rw [← htaken, opened_append]
  rw [hhere, hlast, hbefore, ho.opened_merge hended (htaken ▸ htokens) h₁.more, depth, depth]
  omega

end Parsing

/-! ## Passages -/

namespace Passage

variable {A : Manner} {s s' : Parsing} {o : Option Diagnostic}

/-- Readers of statements find no brace that closes nothing. -/
theorem unmatched (h : Passage tokens A s o s') : s'.report.unmatched = s.report.unmatched := by
  have hcomplain : ∀ (s : Parsing) {issue : Issue} (span : Span), issue.isOrdinary = true →
      (s.complain issue span).report.unmatched = s.report.unmatched := by
    intro s issue span hissue
    have hnone : issue.isUnmatchedBrace = false := by
      simpa using (Bool.and_eq_true_iff.mp hissue).2
    refine (Report.unmatched_add _ _).trans ?_
    rw [hnone]
    rfl
  induction h with
  | stay | fail | enum | recover => rfl
  | trans _ _ ih ih' => exact ih'.trans ih
  | take => rw [Parsing.report_advance]
  | enclose _ _ _ ih => rw [Parsing.report_advance, ih, Parsing.report_advance]
  | unclosed _ _ ih => rw [ih, Parsing.report_advance]
  | complain hissue _ => exact hcomplain _ _ hissue
  | suggest => exact Report.unmatched_suggest _ _ _
  | declare _ name ty => rw [Parsing.report_declare]
  | scope _ ih => exact ih
  | giveUp _ h ih => exact (hcomplain _ _ (h.failure _ rfl).1).trans ih

/-- **Passages** close no brace that they have not opened.  Those that succeed, and give up no
statement, leave as many open as they found. -/
theorem depth (h : Passage tokens A s o s') (hended : Ended tokens) (ho : Orderly tokens)
    (hs : s.Along tokens) :
    s.depth ≤ s'.depth ∧ (o = none → ¬ A.givesUp → s'.depth = s.depth) := by
  induction h with
  | stay | fail => exact ⟨le_rfl, fun _ _ => rfl⟩
  | trans h _ ih ih' =>
    obtain ⟨hle, heq⟩ := ih hs
    obtain ⟨hle', heq'⟩ := ih' (h.along hended hs)
    exact ⟨hle.trans hle', fun ho hA => (heq' ho hA).trans (heq rfl hA)⟩
  | take hplain =>
    have hdepth := Parsing.depth_take (hs.ended hended) hplain
    exact ⟨hdepth.ge, fun _ _ => hdepth⟩
  | enclose hopen h hclose ih =>
    have hrest := hs.ended hended
    have hinner := hs.advance hended (Parsing.not_isEnd_of_mark hopen)
    obtain ⟨hle, heq⟩ := ih hinner
    have hdepth := Parsing.depth_open hrest hopen
    have hdepth' := Parsing.depth_close ((h.along hended hinner).ended hended) (hclose hrest)
    refine ⟨by omega, fun _ hA => ?_⟩
    have := heq rfl hA
    omega
  | unclosed hopen _ ih =>
    have hdepth := Parsing.depth_open (hs.ended hended) hopen
    have hle := (ih (hs.advance hended (Parsing.not_isEnd_of_mark hopen))).1
    exact ⟨by omega, fun hnone => by cases hnone⟩
  | complain | suggest | enum => exact ⟨le_rfl, fun _ _ => rfl⟩
  | declare _ name ty =>
    rw [Parsing.depth, Parsing.depth, Parsing.rest_declare]
    exact ⟨le_rfl, fun _ _ => rfl⟩
  | scope _ ih => exact ih (hs.congr rfl rfl)
  | recover =>
    have hdepth := hs.depth_recover hended ho
    exact ⟨hdepth.ge, fun _ _ => hdepth⟩
  | giveUp hA _ ih => exact ⟨(ih hs).1, fun _ hnone => absurd hA hnone⟩

end Passage

end Packwright
