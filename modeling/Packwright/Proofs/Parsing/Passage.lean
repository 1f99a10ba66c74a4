import Packwright.Proofs.Parsing.Reading

/-!
# What reading does to its state

A reader changes its state in few ways: it takes a token, reports something, declares a name, opens
a scope, closes the brace that it has opened, or passes over a line.  `Passage` has one case for
each of them, so a fact about states that each of them keeps is one that every reader keeps.

* `Ended`: tokens of a source.
* `Spot`: the places that reading can name.
* `Manner`: which of the ways a reader may go.
* `Passage tokens A s o s'`: reading leads from `s` to `s'`, and fails there if `o` is a diagnostic.
* `Parsing.Along`: states along the tokens of a source.
* `Passage.takes`, `Passage.scopes`, `Passage.along`: what every passage keeps.
-/

namespace Packwright

/-! ## Tokens -/

/-- Whether a token is neither a brace nor the end. -/
def Token.isPlain : Token → Bool
  | mark .lbrace | mark .rbrace | endOfSource => false
  | _ => true

theorem Token.isEnd_of_isPlain {t : Token} (h : t.isPlain = true) : t.isEnd = false := by
  cases t <;> first | rfl | cases h

theorem Token.isPlain_of_isNewline {t : Token} (h : t.isNewline = true) : t.isPlain = true := by
  cases t <;> first | rfl | cases h

theorem Token.isPlain_of_isNumber {t : Token} (h : t.isNumber = true) : t.isPlain = true := by
  cases t <;> first | rfl | cases h

theorem Token.isPlain_of_isKeyword {t : Token} {k : Keyword} (h : t.isKeyword k = true) :
    t.isPlain = true := by
  cases t <;> first | rfl | cases h

/-- The last token, and no other one, is the end. -/
def Ended (tokens : List Located) : Prop :=
  ∃ kept stop, tokens = kept ++ [stop] ∧ stop.token.isEnd = true ∧ ∀ t ∈ kept, t.token.isEnd = false

namespace Ended

variable {tokens ts : List Located}

theorem ne_nil (h : Ended tokens) : tokens ≠ [] := by
  obtain ⟨kept, stop, rfl, -⟩ := h
  exact List.append_ne_nil_of_right_ne_nil _ (List.cons_ne_nil _ _)

theorem length_pos (h : Ended tokens) : 0 < tokens.length := List.length_pos_iff.mpr h.ne_nil

/-- The tokens that are left end as the others. -/
theorem suffix (h : Ended tokens) (hts : ts <:+ tokens) (hne : ts ≠ []) : Ended ts := by
  obtain ⟨kept, stop, rfl, hend, hkept⟩ := h
  obtain ⟨before, hbefore⟩ := hts
  obtain ⟨front, last, rfl⟩ := (List.eq_nil_or_concat' ts).resolve_left hne
  rw [← List.append_assoc] at hbefore
  obtain ⟨rfl, hlast⟩ := List.append_inj' hbefore rfl
  obtain rfl := List.singleton_inj.mp hlast
  exact ⟨front, last, rfl, hend, fun t ht => hkept t (List.mem_append_right _ ht)⟩

/-- The end is left, or more. -/
theorem cases (h : Ended tokens) : (∃ t, tokens = [t] ∧ t.token.isEnd = true) ∨
    ∃ t u us, tokens = t :: u :: us ∧ t.token.isEnd = false := by
  obtain ⟨kept, stop, rfl, hend, hkept⟩ := h
  cases kept with
  | nil => exact .inl ⟨stop, rfl, hend⟩
  | cons t kept =>
    obtain ⟨u, us, hmore⟩ := List.exists_cons_of_ne_nil (List.concat_ne_nil stop kept)
    refine .inr ⟨t, u, us, ?_, hkept t List.mem_cons_self⟩
    rw [List.cons_append, hmore]

end Ended

/-- Whether the issue is a brace that closes nothing. -/
def Issue.isUnmatchedBrace : Issue → Bool
  | unmatchedBrace => true
  | _ => false

/-- Whether the issue is an error other than a brace that closes nothing. -/
def Issue.isOrdinary (i : Issue) : Bool := i.severity = .error && !i.isUnmatchedBrace

theorem Issue.severity_of_isOrdinary {i : Issue} (h : i.isOrdinary = true) : i.severity = .error :=
  of_decide_eq_true (Bool.and_eq_true_iff.mp h).1

/-- A place that reading can name: that in front of the source, that of a token, or one around
others. -/
inductive Spot (tokens : List Located) : Span → Prop
  | start : Spot tokens ⟨0, 0⟩
  | token {t : Located} (ht : t ∈ tokens) : Spot tokens t.span
  | merge {a b : Span} (ha : Spot tokens a) (hb : Spot tokens b) : Spot tokens (a.merge b)

/-- The place of the last one of the tokens that were taken. -/
def lastOf (ts : List Located) : Span := (ts.getLast?.map (·.span)).getD ⟨0, 0⟩

theorem lastOf_concat (ts : List Located) (t : Located) : lastOf (ts ++ [t]) = t.span := by
  simp [lastOf]

namespace Parsing

variable {tokens : List Located} {s s₁ s₂ : Parsing} {p : Token → Bool}

/-- Some of the tokens were taken, and the others are left; the last one always is. -/
structure Along (tokens : List Located) (s : Parsing) : Prop where
  more : s.rest ≠ []
  taken : ∃ before, tokens = before ++ s.rest ∧ s.last = lastOf before

/-- What is left are some of the tokens, and what was taken last has a place. -/
structure At (tokens : List Located) (s : Parsing) : Prop where
  rest : s.rest ⊆ tokens
  last : Spot tokens s.last

theorem At.here (h : s.At tokens) : Spot tokens s.here := by
  unfold Parsing.here
  split
  · rename_i t ts hrest
    exact .token (h.rest (hrest ▸ List.mem_cons_self))
  · exact h.last

theorem At.among (h : s.At tokens) {t : Token} (ht : s.peek = t) (hend : t.isEnd = false) :
    t.Among tokens := by
  unfold peek at ht
  split at ht
  · rename_i u us hrest
    exact ⟨u.span, ht ▸ h.rest (hrest ▸ List.mem_cons_self)⟩
  · rw [← ht] at hend
    cases hend

theorem here_eq (hlast : s₁.last = s.last) (hrest : s₁.rest = s.rest) : s₁.here = s.here := by
  unfold here
  rw [hlast, hrest]

theorem peek_eq (hrest : s₁.rest = s.rest) : s₁.peek = s.peek := by rw [peek, peek, hrest]

/-! ## Passing over tokens -/

theorem advance_suffix (s : Parsing) : s.advance.rest <:+ s.rest := by
  unfold advance
  split
  · rename_i t u ts hrest
    rw [hrest]
    exact List.suffix_cons _ _
  · exact List.suffix_rfl

theorem advance_ne_nil (h : s.rest ≠ []) : s.advance.rest ≠ [] := by
  unfold advance
  split
  · exact List.cons_ne_nil _ _
  · exact h

theorem not_isEnd_of_mark {m : Mark} (h : s.peek = .mark m) : s.peek.isEnd = false := by
  rw [h]
  rfl

/-- In front of the end there is more than one token. -/
theorem rest_of_not_isEnd (h : Ended s.rest) (hend : s.peek.isEnd = false) :
    ∃ t u us, s.rest = t :: u :: us ∧ s.peek = t.token := by
  rcases h.cases with ⟨t, hrest, ht⟩ | ⟨t, u, us, hrest, -⟩
  · rw [Parse.peek_of_rest hrest, ht] at hend
    cases hend
  · exact ⟨t, u, us, hrest, Parse.peek_of_rest hrest⟩

theorem length_advance (h : Ended s.rest) (hend : s.peek.isEnd = false) :
    s.advance.rest.length < s.rest.length := by
  obtain ⟨t, u, us, hrest, -⟩ := rest_of_not_isEnd h hend
  rw [Parse.advance_of_rest hrest (List.cons_ne_nil _ _), hrest]
  exact Nat.lt_succ_self _

/-- One round of passing over tokens. -/
theorem skipWhile_cases (p : Token → Bool) (s : Parsing) : s.skipWhile p = s ∨
    p s.peek = true ∧ s.skipWhile p = s.advance.skipWhile p ∧
      s.advance.rest.length < s.rest.length := by
  obtain ⟨rest, last, report, scopes, enums⟩ := s
  match rest with
  | [] | [_] => exact .inl rfl
  | t :: u :: ts =>
    by_cases hp : p t.token = true
    · refine .inr ⟨hp, ?_, Nat.lt_succ_self _⟩
      unfold skipWhile
      simp only
      rw [skipTokens, if_pos hp]
      rfl
    · exact .inl (Parse.skipWhile_of_peek (Bool.not_eq_true _ ▸ hp))

/-- What happens to a token that is not the last one: reading stops in front of it or behind it, or
goes on. -/
theorem skipLine_cases (depth : Nat) (last : Span) (t u : Located) (ts : List Located) :
    ((t.token.isEnd = true ∨ t.token.isMark .rbrace = true) ∧
        skipLine depth last (t :: u :: ts) = (last, t :: u :: ts)) ∨
      skipLine depth last (t :: u :: ts) = (t.span, u :: ts) ∨
      ∃ depth', skipLine depth last (t :: u :: ts) = skipLine depth' t.span (u :: ts) := by
  let Ends (r : Span × List Located) : Prop :=
    ((t.token.isEnd = true ∨ t.token.isMark .rbrace = true) ∧ r = (last, t :: u :: ts)) ∨
      r = (t.span, u :: ts) ∨ ∃ depth', r = skipLine depth' t.span (u :: ts)
  change Ends (skipLine depth last (t :: u :: ts))
  rw [skipLine]
  refine iteInduction (fun _ => .inr (.inl rfl)) fun _ => ?_
  split
  · rename_i htoken
    exact .inl ⟨.inl (by rw [htoken]; rfl), rfl⟩
  · exact .inr (.inr ⟨_, rfl⟩)
  · rename_i htoken
    refine iteInduction (fun _ => ?_) fun _ => .inr (.inr ⟨_, rfl⟩)
    exact .inl ⟨.inr (by rw [htoken]; rfl), rfl⟩
  · exact .inr (.inr ⟨_, rfl⟩)

/-- What is left behind a line, and where its last token stands. -/
theorem skipLine_spec : ∀ (depth : Nat) (last : Span) (ts : List Located),
    (skipLine depth last ts).2 <:+ ts ∧ (ts ≠ [] → (skipLine depth last ts).2 ≠ []) ∧
      ((skipLine depth last ts).1 = last ∨ ∃ t ∈ ts, (skipLine depth last ts).1 = t.span)
  | _, _, [] | _, _, [_] => ⟨List.suffix_rfl, id, .inl rfl⟩
  | depth, last, t :: u :: ts => by
    rcases skipLine_cases depth last t u ts with ⟨-, heq⟩ | heq | ⟨depth', heq⟩
    all_goals rw [heq]
    · exact ⟨List.suffix_rfl, id, .inl rfl⟩
    · exact ⟨List.suffix_cons _ _, fun _ => List.cons_ne_nil _ _,
        .inr ⟨t, List.mem_cons_self, rfl⟩⟩
    · obtain ⟨hsuffix, hmore, hlast⟩ := skipLine_spec depth' t.span (u :: ts)
      refine ⟨hsuffix.trans (List.suffix_cons _ _), fun _ => hmore (List.cons_ne_nil _ _), .inr ?_⟩
      rcases hlast with hlast | ⟨v, hv, hlast⟩
      · exact ⟨t, List.mem_cons_self, hlast⟩
      · exact ⟨v, List.mem_cons_of_mem _ hv, hlast⟩

/-! ## States behind others -/

/-- What a reader can do to a state: take tokens, find what is wrong, and declare names in the
innermost scope. -/
structure Takes (s s' : Parsing) : Prop where
  rest : s'.rest <:+ s.rest
  more : s.rest ≠ [] → s'.rest ≠ []
  outer : s'.scopes.tail = s.scopes.tail
  inside : s.scopes ≠ [] → s'.scopes ≠ []
  clean : s'.Clean → s.Clean

theorem Takes.refl (s : Parsing) : s.Takes s := ⟨List.suffix_rfl, id, rfl, id, id⟩

theorem Takes.trans (h : s.Takes s₁) (h' : s₁.Takes s₂) : s.Takes s₂ :=
  ⟨h'.rest.trans h.rest, h'.more ∘ h.more, h'.outer.trans h.outer, h'.inside ∘ h.inside,
    h.clean ∘ h'.clean⟩

theorem Takes.length (h : s.Takes s₁) : s₁.rest.length ≤ s.rest.length := h.rest.length_le

theorem Takes.ended (h : s.Takes s₁) (hs : Ended s.rest) : Ended s₁.rest :=
  hs.suffix h.rest (h.more hs.ne_nil)

theorem takes_advance (s : Parsing) : s.Takes s.advance := by
  refine ⟨s.advance_suffix, advance_ne_nil, ?_, fun h => ?_, fun h => ?_⟩
  · rw [scopes_advance]
  · rwa [scopes_advance]
  · rwa [Clean, report_advance] at h

theorem takes_recover (s : Parsing) : s.Takes s.recover :=
  ⟨(skipLine_spec 0 s.last s.rest).1, (skipLine_spec 0 s.last s.rest).2.1, rfl, id, id⟩

theorem takes_complain (s : Parsing) (issue : Issue) (span : Span) :
    s.Takes (s.complain issue span) :=
  ⟨List.suffix_rfl, id, rfl, id, clean_of_complain⟩

theorem takes_suggest (s : Parsing) (span : Span) (candidates : List String) :
    s.Takes (s.suggest span candidates) :=
  ⟨List.suffix_rfl, id, rfl, id, clean_of_suggest⟩

theorem takes_declare (s : Parsing) (name : String) (ty : Ty) : s.Takes (s.declare name ty) := by
  unfold Parsing.declare
  split
  · rename_i scope outer hscopes
    exact ⟨List.suffix_rfl, id, by rw [hscopes]; rfl, fun _ => List.cons_ne_nil _ _, id⟩
  · exact .refl s

theorem last_declare (s : Parsing) (name : String) (ty : Ty) :
    (s.declare name ty).last = s.last := by
  unfold Parsing.declare
  split <;> rfl

theorem rest_declare (s : Parsing) (name : String) (ty : Ty) :
    (s.declare name ty).rest = s.rest := by
  unfold Parsing.declare
  split <;> rfl

theorem report_declare (s : Parsing) (name : String) (ty : Ty) :
    (s.declare name ty).report = s.report := by
  unfold Parsing.declare
  split <;> rfl

theorem takes_enum (s : Parsing) (name : String) : s.Takes { s with enums := name :: s.enums } :=
  ⟨List.suffix_rfl, id, rfl, id, id⟩

theorem scopes_leaveScope (h : s.enterScope.Takes s₁) : s₁.leaveScope.scopes = s.scopes := by
  rw [leaveScope, List.drop_one]
  exact h.outer

/-- A scope that is left takes its names with it. -/
theorem Takes.leaveScope (h : s.enterScope.Takes s₁) : s.Takes s₁.leaveScope := by
  have hscopes := scopes_leaveScope h
  exact ⟨h.rest, h.more, by rw [hscopes], fun hs => by rwa [hscopes], h.clean⟩

theorem At.advance (h : s.At tokens) : s.advance.At tokens :=
  ⟨fun _ ht => h.rest (s.advance_suffix.subset ht), s.last_advance ▸ h.here⟩

theorem At.recover (h : s.At tokens) : s.recover.At tokens := by
  obtain ⟨hsuffix, -, hlast⟩ := skipLine_spec 0 s.last s.rest
  refine ⟨fun _ ht => h.rest (hsuffix.subset ht), ?_⟩
  change Spot tokens (skipLine 0 s.last s.rest).1
  rcases hlast with hlast | ⟨t, ht, hlast⟩
  · rw [hlast]
    exact h.last
  · rw [hlast]
    exact .token (h.rest ht)

theorem Along.suffix (h : s.Along tokens) : s.rest <:+ tokens := by
  obtain ⟨before, htokens, -⟩ := h.taken
  exact ⟨before, htokens.symm⟩

theorem Along.congr (h : s.Along tokens) (hrest : s₁.rest = s.rest) (hlast : s₁.last = s.last) :
    s₁.Along tokens :=
  ⟨hrest ▸ h.more, by rw [hrest, hlast]; exact h.taken⟩

theorem Along.ended (h : s.Along tokens) (hended : Ended tokens) : Ended s.rest :=
  hended.suffix h.suffix h.more

theorem Along.at_tokens (h : s.Along tokens) : s.At tokens := by
  obtain ⟨before, htokens, hlast⟩ := h.taken
  refine ⟨h.suffix.subset, ?_⟩
  rw [hlast]
  rcases List.eq_nil_or_concat' before with rfl | ⟨front, t, rfl⟩
  · exact .start
  · rw [lastOf_concat]
    exact .token (by simp [htokens])

/-- The state with another last token and other tokens left. -/
def passed (s : Parsing) (r : Span × List Located) : Parsing := { s with last := r.1, rest := r.2 }

theorem advance_eq_passed {t u : Located} {us : List Located} (hrest : s.rest = t :: u :: us) :
    s.advance = s.passed (t.span, u :: us) := by
  unfold advance
  rw [hrest]
  rfl

/-- A token that is not the last one is taken. -/
theorem Along.take {t u : Located} {us : List Located} (h : s.Along tokens)
    (hrest : s.rest = t :: u :: us) : (s.passed (t.span, u :: us)).Along tokens := by
  obtain ⟨before, htokens, -⟩ := h.taken
  refine ⟨List.cons_ne_nil _ _, before ++ [t], ?_, (lastOf_concat _ _).symm⟩
  rw [htokens, hrest, List.append_assoc]
  rfl

theorem Along.advance (h : s.Along tokens) (hended : Ended tokens) (hend : s.peek.isEnd = false) :
    s.advance.Along tokens := by
  obtain ⟨t, u, us, hrest, -⟩ := rest_of_not_isEnd (h.ended hended) hend
  rw [advance_eq_passed hrest]
  exact h.take hrest

theorem Along.skipLine : ∀ (ts : List Located) {s : Parsing} (depth : Nat), s.Along tokens →
    s.rest = ts → (s.passed (skipLine depth s.last ts)).Along tokens
  | [], _, _, h, hrest | [_], _, _, h, hrest => h.congr hrest.symm rfl
  | t :: u :: ts, s, depth, h, hrest => by
    rcases skipLine_cases depth s.last t u ts with ⟨-, heq⟩ | heq | ⟨depth', heq⟩
    all_goals rw [heq]
    · exact h.congr hrest.symm rfl
    · exact h.take hrest
    · exact Along.skipLine (u :: ts) depth' (h.take hrest) rfl

theorem At.declare (h : s.At tokens) (name : String) (ty : Ty) : (s.declare name ty).At tokens := by
  unfold Parsing.declare
  split
  · exact ⟨h.rest, h.last⟩
  · exact h

end Parsing

theorem Ended.along {tokens : List Located} (h : Ended tokens) :
    Parsing.Along tokens { rest := tokens } :=
  ⟨h.ne_nil, [], rfl, rfl⟩

/-! ## Passages -/

/-- What a reader may do besides taking tokens. -/
structure Manner where
  /-- Names are declared in the innermost scope. -/
  declares : Prop := False
  /-- Statements that cannot be read are given up. -/
  givesUp : Prop := False

/-- A manner that allows no more than another. -/
structure Manner.Within (A B : Manner) : Prop where
  declares : A.declares → B.declares
  givesUp : A.givesUp → B.givesUp

/-- The manner of expressions, and of whatever else neither declares a name nor gives up. -/
def Manner.plain : Manner := {}

/-- The manner of statements with no others inside. -/
def Manner.leaf : Manner := { declares := True }

/-- The manner of all statements. -/
def Manner.block : Manner := { declares := True, givesUp := True }

theorem Manner.plain_within (A : Manner) : Manner.plain.Within A := ⟨False.elim, False.elim⟩

theorem Manner.leaf_within : Manner.leaf.Within .block := ⟨id, False.elim⟩

/-- Reading leads from one state to another.  It succeeds there, or fails with a diagnostic.  A
brace that is opened is closed, unless reading fails behind it. -/
inductive Passage (tokens : List Located) (A : Manner) :
    Parsing → Option Diagnostic → Parsing → Prop
  | stay {s : Parsing} : Passage tokens A s none s
  | fail {s : Parsing} {d : Diagnostic} (hissue : d.issue.isOrdinary = true)
    (hspan : Spot tokens d.span) : Passage tokens A s (some d) s
  | trans {s s₁ s₂ : Parsing} {o : Option Diagnostic} (h : Passage tokens A s none s₁)
    (h' : Passage tokens A s₁ o s₂) : Passage tokens A s o s₂
  | take {s : Parsing} (hplain : s.peek.isPlain = true) : Passage tokens A s none s.advance
  | enclose {s s₁ : Parsing} (hopen : s.peek = .mark .lbrace)
    (h : Passage tokens A s.advance none s₁) (hclose : Ended s.rest → s₁.peek = .mark .rbrace) :
    Passage tokens A s none s₁.advance
  | unclosed {s s₁ : Parsing} {d : Diagnostic} (hopen : s.peek = .mark .lbrace)
    (h : Passage tokens A s.advance (some d) s₁) : Passage tokens A s (some d) s₁
  | complain {s : Parsing} {issue : Issue} {span : Span} (hissue : issue.isOrdinary = true)
    (hspan : Spot tokens span) : Passage tokens A s none (s.complain issue span)
  | suggest {s : Parsing} {span : Span} (hspan : Spot tokens span) (candidates : List String) :
    Passage tokens A s none (s.suggest span candidates)
  | declare {s : Parsing} (hA : A.declares) (name : String) (ty : Ty) :
    Passage tokens A s none (s.declare name ty)
  | enum {s : Parsing} (hA : A.declares) (name : String) :
    Passage tokens A s none { s with enums := name :: s.enums }
  | scope {s s₁ : Parsing} {o : Option Diagnostic} (h : Passage tokens A s.enterScope o s₁) :
    Passage tokens A s o s₁.leaveScope
  | recover {s : Parsing} : Passage tokens A s none s.recover
  | giveUp {s s₁ : Parsing} {d : Diagnostic} (hA : A.givesUp)
    (h : Passage tokens A s (some d) s₁) : Passage tokens A s none (s₁.complain d.issue d.span)

/-- Reading moves on and does no more. -/
abbrev Parsing.Moves (tokens : List Located) (s s' : Parsing) : Prop :=
  Passage tokens .plain s none s'

namespace Passage

variable {tokens : List Located} {A B : Manner} {s s' : Parsing} {o : Option Diagnostic}

theorem mono (h : Passage tokens A s o s') (hAB : A.Within B) : Passage tokens B s o s' := by
  induction h with
  | stay => exact .stay
  | fail hissue hspan => exact .fail hissue hspan
  | trans _ _ ih ih' => exact .trans ih ih'
  | take hplain => exact .take hplain
  | enclose hopen _ hclose ih => exact .enclose hopen ih hclose
  | unclosed hopen _ ih => exact .unclosed hopen ih
  | complain hissue hspan => exact .complain hissue hspan
  | suggest hspan candidates => exact .suggest hspan candidates
  | declare hA name ty => exact .declare (hAB.declares hA) name ty
  | enum hA name => exact .enum (hAB.declares hA) name
  | scope _ ih => exact .scope ih
  | recover => exact .recover
  | giveUp hA _ ih => exact .giveUp (hAB.givesUp hA) ih

/-- Readers of expressions do nothing that others may not do. -/
theorem lift (h : Passage tokens .plain s o s') : Passage tokens A s o s' := h.mono A.plain_within

theorem takes (h : Passage tokens A s o s') : s.Takes s' := by
  induction h with
  | stay | fail => exact .refl _
  | trans _ _ ih ih' => exact ih.trans ih'
  | take => exact Parsing.takes_advance _
  | enclose _ _ _ ih =>
    exact ((Parsing.takes_advance _).trans ih).trans (Parsing.takes_advance _)
  | unclosed _ _ ih => exact (Parsing.takes_advance _).trans ih
  | complain => exact Parsing.takes_complain _ _ _
  | suggest => exact Parsing.takes_suggest _ _ _
  | declare _ name ty => exact Parsing.takes_declare _ name ty
  | enum _ name => exact Parsing.takes_enum _ name
  | scope _ ih => exact ih.leaveScope
  | recover => exact Parsing.takes_recover _
  | giveUp _ _ ih => exact ih.trans (Parsing.takes_complain _ _ _)

theorem at_tokens (h : Passage tokens A s o s') (hs : s.At tokens) : s'.At tokens := by
  induction h with
  | stay | fail => exact hs
  | trans _ _ ih ih' => exact ih' (ih hs)
  | take => exact hs.advance
  | enclose _ _ _ ih => exact (ih hs.advance).advance
  | unclosed _ _ ih => exact ih hs.advance
  | complain | suggest | enum => exact ⟨hs.rest, hs.last⟩
  | declare _ name ty => exact hs.declare name ty
  | scope _ ih => exact ⟨(ih ⟨hs.rest, hs.last⟩).rest, (ih ⟨hs.rest, hs.last⟩).last⟩
  | recover => exact hs.recover
  | giveUp _ _ ih => exact ⟨(ih hs).rest, (ih hs).last⟩

/-- Reading goes along the tokens. -/
theorem along (h : Passage tokens A s o s') (hended : Ended tokens) (hs : s.Along tokens) :
    s'.Along tokens := by
  induction h with
  | stay | fail => exact hs
  | trans _ _ ih ih' => exact ih' (ih hs)
  | take hplain => exact hs.advance hended (Token.isEnd_of_isPlain hplain)
  | enclose hopen _ hclose ih =>
    have hinner := ih (hs.advance hended (Parsing.not_isEnd_of_mark hopen))
    exact hinner.advance hended (Parsing.not_isEnd_of_mark (hclose (hs.ended hended)))
  | unclosed hopen _ ih => exact ih (hs.advance hended (Parsing.not_isEnd_of_mark hopen))
  | complain | suggest | enum => exact hs.congr rfl rfl
  | declare _ name ty =>
    exact hs.congr (Parsing.rest_declare _ name ty) (Parsing.last_declare _ name ty)
  | scope _ ih => exact (ih (hs.congr rfl rfl)).congr rfl rfl
  | recover => exact hs.skipLine _ 0 rfl
  | giveUp _ _ ih => exact (ih hs).congr rfl rfl

/-- Where no names are declared, those in scope stay. -/
theorem scopes (h : Passage tokens A s o s') (hA : ¬ A.declares) : s'.scopes = s.scopes := by
  induction h with
  | stay | fail | complain | suggest | recover => rfl
  | trans _ _ ih ih' => exact ih'.trans ih
  | take => exact Parsing.scopes_advance _
  | enclose _ _ _ ih =>
    exact (Parsing.scopes_advance _).trans (ih.trans (Parsing.scopes_advance _))
  | unclosed _ _ ih => exact ih.trans (Parsing.scopes_advance _)
  | declare h | enum h => exact absurd h hA
  | scope h _ => exact Parsing.scopes_leaveScope h.takes
  | giveUp _ _ ih => exact ih

theorem env (h : s.Moves tokens s') : s'.env = s.env := Parsing.env_of_scopes (h.scopes id)

/-- What a failure is about. -/
theorem failure (h : Passage tokens A s o s') :
    ∀ d ∈ o, d.issue.isOrdinary = true ∧ Spot tokens d.span := by
  induction h with
  | fail hissue hspan =>
    rintro _ ⟨⟩
    exact ⟨hissue, hspan⟩
  | trans _ _ _ ih => exact ih
  | unclosed _ _ ih | scope _ ih => exact ih
  | stay | take | enclose | complain | suggest | declare | enum | recover | giveUp =>
    intro d hd
    cases hd

/-- Tokens that are neither braces nor the end are passed over. -/
theorem skipWhile {p : Token → Bool} (hp : ∀ t, p t = true → t.isPlain = true) (s : Parsing) :
    Passage tokens A s none (s.skipWhile p) := by
  rcases s.skipWhile_cases p with heq | ⟨hpeek, heq, hless⟩
  · rw [heq]
    exact .stay
  · rw [heq]
    exact .trans (.take (hp _ hpeek)) (skipWhile hp s.advance)
termination_by s.rest.length

theorem skipNewlines (s : Parsing) : Passage tokens A s none (s.skipWhile Token.isNewline) :=
  skipWhile (fun _ => Token.isPlain_of_isNewline) s

end Passage

end Packwright
