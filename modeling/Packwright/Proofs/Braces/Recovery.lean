import Packwright.Proofs.Braces.Failures

/-!
# Recovery inside of functions

A statement of a function that cannot be read is given up with its line.  Whether reading goes on
inside of the function depends on the braces in the tokens that were given up.  Where they are
balanced, it does.  Where a brace was opened and not closed, as in a compound that was read in part,
the block is left by as many closing braces too early: what follows is read as if it stood behind
the function, and the last braces close nothing.

* `Balanced`: tokens in which every brace is closed, and none that is not open.
* `parseScript_unmatched`: each brace that a failure has left open is found to close nothing, in
  every source whose braces are all closed.
* `Parse.guardedStatement_function`: a function is read, whatever fails inside of it.
* `function_recovers_iff`: a source of one function.
-/

namespace Packwright

/-! ## Balanced braces -/

/-- The number of open braces behind the tokens, with the number of them in front.  There is none if
a brace is closed that is not open. -/
def openAfter : (depth : Nat) → List Located → Option Nat
  | depth, [] => some depth
  | depth, t :: ts =>
    if t.token.isMark .lbrace then openAfter (depth + 1) ts
    else if t.token.isMark .rbrace then if depth = 0 then none else openAfter (depth - 1) ts
    else openAfter depth ts

/-- Every brace is closed, and none that is not open. -/
def Balanced (ts : List Located) : Prop := openAfter 0 ts = some 0

instance (ts : List Located) : Decidable (Balanced ts) := inferInstanceAs (Decidable (_ = _))

theorem openAfter_cons {depth rest : Nat} {t : Located} {ts : List Located}
    (h : openAfter depth (t :: ts) = some rest) :
    ∃ depth' : Nat, openAfter depth' ts = some rest ∧ (depth' : Int) = depth + t.token.opens := by
  rw [openAfter] at h
  split_ifs at h with hopen hclose hzero
  · refine ⟨depth + 1, h, ?_⟩
    rw [Token.eq_of_isMark hopen, Token.opens]
    omega
  · refine ⟨depth - 1, h, ?_⟩
    rw [Token.eq_of_isMark hclose, Token.opens]
    omega
  · refine ⟨depth, h, ?_⟩
    have hnone : t.token.opens = 0 := by
      unfold Token.opens
      split
      · rename_i ht
        simp [ht, Token.isMark] at hopen
      · rename_i ht
        simp [ht, Token.isMark] at hclose
      · rfl
    rw [hnone, Int.add_zero]

theorem opened_of_openAfter {ts : List Located} : ∀ {depth rest : Nat},
    openAfter depth ts = some rest → opened ts = rest - depth := by
  induction ts with
  | nil =>
    intro depth rest h
    cases h
    simp
  | cons t ts ih =>
    intro depth rest h
    obtain ⟨depth', h', hdepth⟩ := openAfter_cons h
    rw [opened_cons, ih h']
    omega

/-- The last ones of the tokens open no more braces than are open behind them, since none is closed
in front of them that is not open. -/
theorem opened_suffix_le {ts : List Located} : ∀ {depth rest : Nat} {us : List Located},
    openAfter depth ts = some rest → us <:+ ts → opened us ≤ rest := by
  induction ts with
  | nil =>
    intro depth rest us h hus
    rw [List.suffix_nil.mp hus, opened_nil]
    omega
  | cons t ts ih =>
    intro depth rest us h hus
    rcases List.suffix_cons_iff.mp hus with rfl | hus
    · rw [opened_of_openAfter h]
      omega
    · obtain ⟨depth', h', -⟩ := openAfter_cons h
      exact ih h' hus

/-! ## Functions -/

variable {tokens : List Located} {s : Parsing}

namespace Parse

open Parsing

theorem inScope_ok {α : Type} {p : Parse α} {a : α} {s₁ : Parsing}
    (h : p s.enterScope = .ok a s₁) : inScope p s = .ok a s₁.leaveScope := by
  rw [inScope, h]

section Function

variable {J : Nat} {inner : Setting → Parse Stmt}
  (hinner : ∀ setting, Steps tokens setting.nested J J (inner setting) (inner setting))
  (hended : Ended tokens) (ho : Orderly tokens)

include hinner hended ho

/-- Where all braces are closed, the end of the source is not reached inside of a block. -/
theorem blockBody_ok (hs : s.Along tokens) {span : Span} {ts : List Located}
    (hrest : s.rest = ⟨.mark .lbrace, span⟩ :: ts) :
    ∃ body stop s₁, blockBody inner s = .ok (body, stop) s₁ ∧
      s.Behind tokens (Stmt.failuresOfAll body) s₁ ∧ s₁.rest <:+ ts := by
  have hopen : s.peek = .mark .lbrace := peek_of_rest hrest
  have hend : s.peek.isEnd = false := not_isEnd_of_mark hopen
  have h₁ := hs.advance hended hend
  have hscope : s.advance.enterScope.Along tokens := h₁.congr rfl rfl
  have hne : ts ≠ [] := by
    rintro rfl
    obtain ⟨_, _, _, hmore, -⟩ := rest_of_not_isEnd (hs.ended hended) hend
    rw [hrest] at hmore
    cases hmore
  have hadvance := advance_of_rest hrest hne
  obtain ⟨body, s₂, hrun, hmade, hstops⟩ := statements_made (hinner { nested := true })
    s.advance.enterScope.rest.length hscope.at_tokens
  have h₂ := hmade.behind hended ho hscope
  have hclose : s₂.peek = .mark .rbrace := by
    rcases Bool.or_eq_true_iff.mp (hstops (h₁.ended hended) le_rfl) with hat | hend
    · exact Token.eq_of_isMark hat
    · -- at the end no brace is open, but that of the block would be
      have hzero := depth_of_isEnd (h₂.along.ended hended) hend
      have hdepth : s.advance.enterScope.depth = s.depth + 1 := depth_open (hs.ended hended) hopen
      have hbehind := h₂.depth
      have hnonneg := hs.depth_nonneg ho
      have hlost := lost_nonneg h₂.nonneg
      omega
  obtain ⟨⟨token, stop⟩, u, us, hrest₂, hpeek⟩ :=
    rest_of_not_isEnd (h₂.along.ended hended) (not_isEnd_of_mark hclose)
  obtain rfl : token = .mark .rbrace := hpeek.symm.trans hclose
  have hbehind : s.Behind tokens _ s₂.leaveScope.advance :=
    .enclose hended hs hopen (Nests.scope.behind h₂) hclose
  have hsuffix : s₂.leaveScope.advance.rest <:+ ts := by
    have hinside := h₂.rest
    rw [hadvance] at hinside
    exact s₂.leaveScope.advance_suffix.trans hinside
  refine ⟨body, span.merge stop, _, ?_, hbehind, hsuffix⟩
  have hbody : inScope (do statements (inner { nested := true }) (← left)) s.advance =
      .ok body s₂.leaveScope := inScope_ok hrun
  have hopens : expect .lbrace s = .ok span s.advance := by
    rw [hadvance]
    exact expect_ok hrest hne
  have hcloses : expect .rbrace s₂.leaveScope = .ok stop s₂.leaveScope.advance := by
    rw [advance_of_rest (s := s₂.leaveScope) hrest₂ (List.cons_ne_nil _ _)]
    exact expect_ok hrest₂ (List.cons_ne_nil _ _)
  exact bind_ok.mpr ⟨span, _, hopens, bind_ok.mpr ⟨body, _, hbody,
    bind_ok.mpr ⟨stop, _, hcloses, rfl⟩⟩⟩

/-- **A function is read**, whatever fails inside of it. -/
theorem functionStatement_ok (hs : s.Along tokens) {a b c : Span} {name : String}
    {ts : List Located} (notes : List Annotation)
    (hrest : s.rest = ⟨.keyword .functionKw, a⟩ :: ⟨.name name, b⟩ :: ⟨.mark .lbrace, c⟩ :: ts) :
    ∃ span body s₁, functionStatement inner { annotations := notes } s =
        .ok (.function span ⟨name, b⟩ notes body) s₁ ∧
      s.Behind tokens (Stmt.failuresOfAll body) s₁ ∧ s₁.rest <:+ ts := by
  have h₁ := hs.take hrest
  have h₂ := h₁.take rfl
  set s₂ := (s.passed (a, _)).passed (b, ⟨.mark .lbrace, c⟩ :: ts)
  have hdepth : s₂.depth = s.depth := by
    rw [depth, depth, hrest]
    simp [s₂, passed, Token.opens]
  obtain ⟨body, span, s₃, hrun, h₃, hsuffix⟩ := blockBody_ok hinner hended ho h₂ rfl
  refine ⟨a.merge span, body, s₃, ?_, ⟨h₃.along, ?_, ?_, h₃.nonneg⟩, hsuffix⟩
  · refine bind_ok.mpr ⟨a, _, advance_ok hrest (List.cons_ne_nil _ _), ?_⟩
    exact bind_ok.mpr ⟨⟨name, b⟩, s₂, expectName_ok rfl (List.cons_ne_nil _ _),
      bind_ok.mpr ⟨(), s₂, skipNewlines_ok rfl, bind_ok.mpr ⟨(body, span), s₃, hrun, rfl⟩⟩⟩
  · rw [hrest]
    exact hsuffix.trans ⟨[_, _, _], rfl⟩
  · rw [h₃.depth, hdepth]

end Function

theorem annotations_keyword {word : Keyword} (hpeek : s.peek = .keyword word) (k : Nat) :
    annotations k s = .ok [] s := by
  cases k with
  | zero => rfl
  | succ k => exact (bind_run (peek_ok hpeek) _).trans rfl

theorem statement_function {inner : Setting → Parse Stmt} (hpeek : s.peek = .keyword .functionKw) :
    statement inner {} s = functionStatement inner {} s :=
  (bind_run (annotations_keyword hpeek s.rest.length) _).trans (bind_run (peek_ok hpeek) _)

/-- A function at the top of a script is read, and reading goes on behind it. -/
theorem guardedStatement_function (hended : Ended tokens) (ho : Orderly tokens)
    (hs : s.Along tokens) {a b c : Span} {name : String} {ts : List Located} (k : Nat)
    (hrest : s.rest = ⟨.keyword .functionKw, a⟩ :: ⟨.name name, b⟩ :: ⟨.mark .lbrace, c⟩ :: ts) :
    ∃ span body s₁, guardedStatement (statementWithin (k + 1) {}) s =
        .ok (.function span ⟨name, b⟩ [] body) s₁ ∧
      s.Behind tokens (Stmt.failuresOfAll body) s₁ ∧ s₁.rest <:+ ts := by
  set s₀ := s.suggest s.here (statementKeywords.map Keyword.text ++ s.visibleNames)
  have hpeek : s₀.peek = .keyword .functionKw := peek_of_rest hrest
  have h₀ : s₀.Along tokens := hs.congr rfl rfl
  obtain ⟨span, body, s₁, hrun, h₁, hsuffix⟩ :=
    functionStatement_ok (steps_statementWithin k k) hended ho h₀ [] hrest
  have hfinish := (finishStatement_moves h₁.along.at_tokens).behind hended ho id h₁.along
  have hbehind := h₁.trans hfinish
  rw [List.append_nil] at hbehind
  refine ⟨span, body, finishStatement s₁, ?_, ?_, hfinish.rest.trans hsuffix⟩
  · rw [guardedStatement, statementWithin, (statement_function hpeek).trans hrun]
  · exact ⟨hbehind.along, hbehind.rest, hbehind.depth, hbehind.nonneg⟩

theorem statements_of_isEnd {read : Parse Stmt} (hend : s.peek.isEnd = true) (k : Nat) :
    statements read k s = .ok [] s := by
  cases k with
  | zero => rfl
  | succ k =>
    have hskip : s.skipWhile separates = s := skipWhile_of_peek <| by
      cases hpeek : s.peek <;> first | rfl | (rw [hpeek] at hend; cases hend)
    rw [statements_succ, hskip, hend, Bool.or_true, if_pos rfl]
    rfl

/-- A script begins with the first statement that is read.  If nothing follows, it is the only
one. -/
theorem scriptBody_cons {read : Parse Stmt} {k : Nat} {t : Stmt} {ts : List Stmt} {s₁ s₂ : Parsing}
    (hs : s.rest ≠ []) (hseparates : separates s.peek = false)
    (hgoes : (s.peek.isMark .rbrace || s.peek.isEnd) = false)
    (hrun : guardedStatement read s = .ok t s₁) (h : scriptBody read (k + 1) s = .ok ts s₂) :
    ∃ rest, ts = t :: rest ∧ (s₁.peek.isEnd = true → rest = []) := by
  obtain ⟨l, hl⟩ := Nat.exists_eq_succ_of_ne_zero (List.length_pos_iff.mpr hs).ne'
  have hfirst : statements read s.rest.length s =
      (do return t :: (← statements read l) : Parse (List Stmt)) s₁ := by
    rw [hl, statements_succ, skipWhile_of_peek hseparates, hgoes, if_neg Bool.false_ne_true]
    exact bind_run hrun _
  have hscript : (statements read s.rest.length >>= _) s = .ok ts s₂ := h
  obtain ⟨body, s₃, hbody, -⟩ := bind_ok.mp hscript
  obtain ⟨more, s₄, hmore, hpure⟩ := bind_ok.mp (hfirst.symm.trans hbody)
  cases hpure
  have hnone : s₁.peek.isEnd = true → more = [] ∧ s₃ = s₁ := by
    intro hend
    rw [statements_of_isEnd hend] at hmore
    cases hmore
    exact ⟨rfl, rfl⟩
  rw [scriptBody_succ hbody] at h
  split at h
  · rename_i hbrace
    obtain ⟨span, _, -, h⟩ := bind_ok.mp h
    obtain ⟨_, _, -, h⟩ := bind_ok.mp h
    obtain ⟨rest, _, -, h⟩ := bind_ok.mp h
    cases h
    refine ⟨more ++ rest, rfl, fun hend => ?_⟩
    rw [(hnone hend).2] at hbrace
    rw [Token.eq_of_isMark hbrace] at hend
    cases hend
  · cases h
    exact ⟨more, rfl, fun hend => (hnone hend).1⟩

end Parse

section Script

variable (hended : Ended tokens) (ho : Orderly tokens) (hzero : opened tokens = 0)

include hended ho hzero

/-- **Each brace that a failure has left open** is found to close nothing, in every source whose
braces are all closed. -/
theorem parseScript_unmatched :
    (∀ span ∈ Stmt.failuresOfAll (parseScript tokens).1.body, 0 ≤ span.opened tokens) ∧
      ((parseScript tokens).2.unmatched : Int) =
        lost tokens (Stmt.failuresOfAll (parseScript tokens).1.body) := by
  obtain ⟨s', hreport, hmade, hend⟩ := parseScript_made tokens
  obtain ⟨hsum, hnonneg⟩ := hmade.unmatched hended ho hended.along
  have hdepth : s'.depth = 0 := Parsing.depth_of_isEnd (hmade.takes.ended hended) (hend hended)
  have hstart : ({ rest := tokens } : Parsing).depth = 0 := by
    rw [Parsing.depth, hzero]
    rfl
  have hnone : ({ rest := tokens } : Parsing).report.unmatched = 0 := rfl
  rw [hreport]
  exact ⟨hnonneg, by omega⟩

/-- A script that begins with a function. -/
theorem parseScript_function {a b c : Span} {name : String} {ts : List Located}
    (htokens : tokens = ⟨.keyword .functionKw, a⟩ :: ⟨.name name, b⟩ :: ⟨.mark .lbrace, c⟩ :: ts) :
    ∃ span inner rest, ∃ s₁ : Parsing, (parseScript tokens).1.body =
        .function span ⟨name, b⟩ [] inner :: rest ∧
      s₁.Along tokens ∧ s₁.rest <:+ ts ∧
      s₁.depth = lost tokens (Stmt.failuresOfAll inner) ∧ (s₁.peek.isEnd = true → rest = []) := by
  obtain ⟨k, hk⟩ := Nat.exists_eq_succ_of_ne_zero hended.length_pos.ne'
  obtain ⟨span, inner, s₁, hfirst, h₁, hsuffix⟩ :=
    Parse.guardedStatement_function hended ho hended.along k htokens
  obtain ⟨body, s₂, hrun, -⟩ := Parse.scriptBody_made
    (Parse.steps_statementWithin tokens.length tokens.length {}) (.refl tokens.length _)
    (.refl _ _) (.start tokens)
  have hpeek : ({ rest := tokens } : Parsing).peek = .keyword .functionKw :=
    Parse.peek_of_rest (s := { rest := tokens }) htokens
  have hscript : (parseScript tokens).1.body = body := by
    unfold parseScript
    simp only [hrun]
  have hstart : ({ rest := tokens } : Parsing).depth = 0 := by
    rw [Parsing.depth, hzero]
    rfl
  rw [hk] at hrun
  obtain ⟨rest, rfl, hlast⟩ :=
    Parse.scriptBody_cons hended.ne_nil (by rw [hpeek]; rfl) (by rw [hpeek]; rfl) hfirst hrun
  refine ⟨span, inner, rest, s₁, hscript, h₁.along, hsuffix, ?_, hlast⟩
  rw [h₁.depth, hstart, Int.zero_add]

end Script

/-! ## Sources of one function -/

/-- The tokens are those of one function with the given name, whose body is balanced, and of nothing
else. -/
def OneFunction (name : String) (tokens : List Located) : Prop :=
  ∃ a b c d stop body, tokens = ⟨.keyword .functionKw, a⟩ :: ⟨.name name, b⟩ ::
    ⟨.mark .lbrace, c⟩ :: (body ++ [⟨.mark .rbrace, d⟩, stop]) ∧ Balanced body

/-- Whether the tokens are those of one function. -/
def isOneFunction (name : String) : List Located → Bool
  | ⟨.keyword .functionKw, _⟩ :: ⟨.name x, _⟩ :: ⟨.mark .lbrace, _⟩ :: ts =>
    match ts.reverse with
    | _ :: ⟨.mark .rbrace, _⟩ :: body => x = name && decide (Balanced body.reverse)
    | _ => false
  | _ => false

theorem isOneFunction_iff {name : String} {tokens : List Located} :
    isOneFunction name tokens = true ↔ OneFunction name tokens := by
  constructor
  · intro h
    unfold isOneFunction at h
    split at h
    · rename_i a x b c ts
      split at h
      · rename_i stop d body hts
        simp only [Bool.and_eq_true, decide_eq_true_eq] at h
        obtain ⟨rfl, hbody⟩ := h
        refine ⟨a, b, c, d, stop, body.reverse, ?_, hbody⟩
        rw [← List.reverse_reverse ts, hts]
        simp
      · cases h
    · cases h
  · rintro ⟨a, b, c, d, stop, body, rfl, hbody⟩
    simp [isOneFunction, hbody]

instance (name : String) (tokens : List Located) : Decidable (OneFunction name tokens) :=
  decidable_of_iff _ isOneFunction_iff

section Function

variable {a b c d : Span} {name : String} {body : List Located} {stop : Located}

theorem opened_close (hstop : stop.token.isEnd = true) :
    opened [⟨.mark .rbrace, d⟩, stop] = -1 := by
  rw [opened_cons, opened_cons, Token.opens_of_isEnd hstop]
  rfl

/-- Behind the opening brace of the function, one brace more is closed than opened, unless only the
end is left. -/
theorem opened_tail (hbody : Balanced body) (hstop : stop.token.isEnd = true) {us : List Located}
    (hus : us <:+ body ++ [⟨.mark .rbrace, d⟩, stop]) (hne : us ≠ []) :
    us = [stop] ∨ opened us < 0 := by
  rcases List.suffix_or_suffix_of_suffix hus (List.suffix_append body _) with hshort | ⟨ws, rfl⟩
  · rcases List.suffix_cons_iff.mp hshort with rfl | hshort
    · exact .inr (by rw [opened_close hstop]; decide)
    · rcases List.suffix_cons_iff.mp hshort with rfl | hshort
      · exact .inl rfl
      · exact absurd (List.suffix_nil.mp hshort) hne
  · have hws : ws <:+ body := by
      obtain ⟨before, hbefore⟩ := hus
      rw [← List.append_assoc] at hbefore
      exact ⟨before, List.append_cancel_right hbefore⟩
    have hle := opened_suffix_le hbody hws
    refine .inr ?_
    rw [opened_append, opened_close hstop]
    omega

/-- All braces of a function with a balanced body are closed. -/
theorem orderly_function (hbody : Balanced body) (hstop : stop.token.isEnd = true)
    (htokens : tokens = ⟨.keyword .functionKw, a⟩ :: ⟨.name name, b⟩ :: ⟨.mark .lbrace, c⟩ ::
      (body ++ [⟨.mark .rbrace, d⟩, stop]))
    (hordered : tokens.Pairwise fun t u =>
      t.span.start < t.span.stop ∧ t.span.stop ≤ u.span.start) :
    Orderly tokens ∧ opened tokens = 0 := by
  have hinside : opened body = 0 := opened_of_openAfter hbody
  have hall : opened (⟨.mark .lbrace, c⟩ :: (body ++ [⟨.mark .rbrace, d⟩, stop])) = 0 := by
    rw [opened_cons, opened_append, opened_close hstop, hinside]
    rfl
  have hname : opened (⟨.name name, b⟩ :: ⟨.mark .lbrace, c⟩ ::
      (body ++ [⟨.mark .rbrace, d⟩, stop])) = 0 := by
    rw [opened_cons, hall]
    rfl
  have htotal : opened tokens = 0 := by
    rw [htokens, opened_cons, hname]
    rfl
  refine ⟨⟨hordered, fun us hus => ?_⟩, htotal⟩
  rw [htokens] at hus htotal
  rcases List.suffix_cons_iff.mp hus with rfl | hus
  · exact htotal.le
  rcases List.suffix_cons_iff.mp hus with rfl | hus
  · exact hname.le
  rcases List.suffix_cons_iff.mp hus with rfl | hus
  · exact hall.le
  by_cases hne : us = []
  · rw [hne, opened_nil]
  rcases opened_tail hbody hstop hus hne with rfl | hless
  · rw [opened_cons, Token.opens_of_isEnd hstop]
    rfl
  · exact hless.le

/-- Where no failure inside of the function has left a brace open, nothing is left behind it. -/
theorem end_behind_function (hbody : Balanced body) (hstop : stop.token.isEnd = true)
    (hs : s.Along tokens) (hrest : s.rest <:+ body ++ [⟨.mark .rbrace, d⟩, stop])
    (hdepth : s.depth = 0) : s.peek.isEnd = true := by
  rw [Parsing.depth] at hdepth
  have hlast := (opened_tail hbody hstop hrest hs.more).resolve_right (by omega)
  rw [Parse.peek_of_rest hlast, hstop]

/-- **Recovery inside of a function.**  A source that is one function with balanced braces is read
as that function and what is taken to stand behind it.  As many braces are found that close nothing
as have been left open by the statements that could not be read.  So nothing stands behind the
function, and no such brace is found, if and only if each statement of the function that could not
be read has as many opening as closing braces within its place. -/
theorem function_recovers_iff {source : String} (h : OneFunction name (tokenize source).1) :
    ∃ span place inner rest, (parseScript (tokenize source).1).1.body =
        .function span ⟨name, place⟩ [] inner :: rest ∧
      (∀ e ∈ Stmt.failuresOfAll (inner ++ rest), 0 ≤ e.opened (tokenize source).1) ∧
      ((parseScript (tokenize source).1).2.unmatched : Int) =
        lost (tokenize source).1 (Stmt.failuresOfAll (inner ++ rest)) ∧
      (rest = [] ∧ (parseScript (tokenize source).1).2.unmatched = 0 ↔
        ∀ e ∈ Stmt.failuresOfAll inner, e.opened (tokenize source).1 = 0) := by
  obtain ⟨a, b, c, d, stop, body, htokens, hbody⟩ := h
  have hended := tokenize_ended source
  have hordered := tokenize_ordered source
  set tokens := (tokenize source).1
  have htail : body ++ [⟨.mark .rbrace, d⟩, stop] <:+ tokens := ⟨[_, _, _], htokens.symm⟩
  have hstop : stop.token.isEnd = true := hended.isEnd_last
    (((List.suffix_cons _ _).trans (List.suffix_append body _)).trans htail)
  obtain ⟨ho, hzero⟩ := orderly_function hbody hstop htokens hordered
  obtain ⟨hnonneg, hunmatched⟩ := parseScript_unmatched hended ho hzero
  obtain ⟨span, inner, rest, s₁, hscript, h₁, hrest, hdepth, hlast⟩ :=
    parseScript_function hended ho hzero htokens
  have hfailures : Stmt.failuresOfAll (parseScript tokens).1.body =
      Stmt.failuresOfAll (inner ++ rest) := by
    rw [hscript, Stmt.failuresOfAll, Stmt.failures, Stmt.failuresOfAll_append]
  rw [hfailures] at hnonneg hunmatched
  refine ⟨span, b, inner, rest, hscript, hnonneg, hunmatched, ⟨?_, fun hinner => ?_⟩⟩
  · rintro ⟨rfl, hnone⟩
    rw [List.append_nil] at hnonneg hunmatched
    exact (lost_eq_zero_iff hnonneg).mp (by omega)
  · have hlost := (lost_eq_zero_iff fun e he => (hinner e he).ge).mpr hinner
    obtain rfl := hlast (end_behind_function hbody hstop h₁ hrest (hdepth.trans hlost))
    rw [List.append_nil, hlost] at hunmatched
    exact ⟨rfl, by omega⟩

/-- The braces behind a selector are balanced, so the function goes on behind the statement. -/
theorem function_recovers_balanced :
    let tokens := (tokenize "function f \x7b\n tag @s \x7ba: 1\x7d\n say \"b\"\n\x7d").1
    OneFunction "f" tokens ∧
      (parseScript tokens).1.body.flatMap Stmt.failures = [⟨14, 28⟩] ∧
      ∃ span place inner, (parseScript tokens).1.body = [.function span ⟨"f", place⟩ [] inner] ∧
        (parseScript tokens).2.unmatched = 0 := by
  intro tokens
  have hfunction : OneFunction "f" tokens := by decide +kernel
  have hfailures : (parseScript tokens).1.body.flatMap Stmt.failures = [⟨14, 28⟩] := by
    decide +kernel
  obtain ⟨span, place, inner, rest, hbody, -, -, hiff⟩ := function_recovers_iff hfunction
  have hinner : ∀ e ∈ Stmt.failuresOfAll inner, e.opened tokens = 0 := by
    intro e he
    have hmem : e ∈ (parseScript tokens).1.body.flatMap Stmt.failures := by
      rw [hbody]
      exact List.mem_flatMap.mpr ⟨_, List.mem_cons_self, he⟩
    rw [hfailures] at hmem
    rw [List.mem_singleton.mp hmem]
    decide +kernel
  obtain ⟨rfl, hnone⟩ := hiff.mpr hinner
  exact ⟨hfunction, hfailures, span, place, inner, hbody, hnone⟩

/-- A compound whose first key is none.  Its brace stays open, so the line is left at the brace that
closes it, which is taken for that of the function.  The next statement stands behind the function,
and the last brace closes nothing. -/
theorem function_left_early :
    let tokens := (tokenize "function f \x7b\n let x = \x7b1: 2\x7d\n say \"b\"\n\x7d").1
    OneFunction "f" tokens ∧
      (parseScript tokens).1.body.map Stmt.span = [⟨0, 28⟩, ⟨30, 37⟩] ∧
      (parseScript tokens).1.body.flatMap Stmt.failures = [⟨14, 27⟩] ∧
      Span.opened tokens ⟨14, 27⟩ = 1 ∧ (parseScript tokens).2.unmatched = 1 := by
  decide +kernel

end Function

end Packwright
