import Packwright.Proofs.Parsing.Passage

/-!
# A program logic for reading

`Reads tokens A s p q Q` speaks of a reader `p` in one state `s`: it goes a way that the manner `A`
allows, and its result and the state behind it satisfy `Q`.  It speaks of a second reader `q`, too,
which does the same.  Readers are bounded by a number of rounds or by a depth of nesting, and `q` is
mostly the same reader with another bound.  Two bounds lead to the same if they are the same, or if
both are at least the number of tokens that are left, since every round takes one.

* `Parsing.Ate`: a token was taken.
* `Parsing.Bounds`, `Parsing.rounds`: two bounds for one loop, and the induction on them.
* `Does`: the case of one reader.
* `Reads.bind`, `Reads.inScope`, …: one rule for each way to put readers together.
* `Reads.advance`, `Reads.expect`, …: one rule for each basic reader.
* `Braced`: what is read behind a brace that is not yet closed.
-/

namespace Packwright

/-! ## Taking tokens -/

namespace Parsing

variable {s s₁ s₂ : Parsing} {j k : Nat}

/-- A token was taken, if the tokens are those of a source. -/
def Ate (s s₁ : Parsing) : Prop := Ended s.rest → s₁.rest.length < s.rest.length

theorem ate_advance (h : s.peek.isEnd = false) : s.Ate s.advance := fun hs => length_advance hs h

theorem ate_of_isPlain (hplain : s.peek.isPlain = true) (h : s.advance.Takes s₁) : s.Ate s₁ :=
  fun hs => Nat.lt_of_le_of_lt h.length (length_advance hs (Token.isEnd_of_isPlain hplain))

theorem Ate.before (h : s.Ate s₁) (h' : s₁.Takes s₂) : s.Ate s₂ := fun hs =>
  Nat.lt_of_le_of_lt h'.length (h hs)

theorem Ate.behind (h : s.Takes s₁) (h' : s₁.Ate s₂) : s.Ate s₂ := fun hs =>
  Nat.lt_of_lt_of_le (h' (h.ended hs)) h.length

/-- A round that takes a token leaves one less to the others. -/
theorem Ate.length_le (h : s.Ate s₁) (hs : Ended s.rest) (hj : s.rest.length ≤ j + 1) :
    s₁.rest.length ≤ j :=
  Nat.le_of_lt_succ (Nat.lt_of_lt_of_le (h hs) hj)

/-- Both bounds lead to the same: they are the same, or none of them is reached. -/
def Bounds (j k : Nat) (s : Parsing) : Prop :=
  j = k ∨ Ended s.rest ∧ s.rest.length ≤ j ∧ s.rest.length ≤ k

theorem Bounds.refl (n : Nat) (s : Parsing) : s.Bounds n n := .inl rfl

theorem Bounds.takes (h : s.Bounds j k) (h₁ : s.Takes s₁) : s₁.Bounds j k :=
  h.imp_right fun ⟨hs, hj, hk⟩ =>
    ⟨h₁.ended hs, Nat.le_trans h₁.length hj, Nat.le_trans h₁.length hk⟩

/-- Behind a token, one round less is needed. -/
theorem Bounds.ate (h : s.Bounds (j + 1) (k + 1)) (h₁ : s.Takes s₁) (hate : s.Ate s₁) :
    s₁.Bounds j k := by
  refine h.imp Nat.succ.inj fun ⟨hs, hj, hk⟩ => ?_
  exact ⟨h₁.ended hs, hate.length_le hs hj, hate.length_le hs hk⟩

theorem Bounds.zero_iff (h : s.Bounds j k) : j = 0 ↔ k = 0 := by
  rcases h with rfl | ⟨hs, hj, hk⟩
  · rfl
  · have hpos := hs.length_pos
    omega

/-- **Rounds**: what holds where both loops end at once, and passes from the states behind a token
to one with one more round for each, holds of all bounds that lead to the same. -/
theorem rounds {R : Nat → Nat → Parsing → Prop} (hzero : ∀ s, R 0 0 s)
    (hstep : ∀ j k s, (∀ s₁, s.Takes s₁ → s.Ate s₁ → R j k s₁) → R (j + 1) (k + 1) s) :
    ∀ {j k : Nat} {s : Parsing}, s.Bounds j k → R j k s := by
  intro j
  induction j with
  | zero =>
    intro k s h
    obtain rfl := h.zero_iff.mp rfl
    exact hzero s
  | succ j ih =>
    intro k s h
    cases k with
    | zero => cases h.zero_iff.mpr rfl
    | succ k => exact hstep j k s fun s₁ h₁ hate => ih (h.ate h₁ hate)

end Parsing

/-! ## The logic -/

/-- From the state `s`, the reader goes a way that the manner allows; its result and the state
behind it satisfy `Q`.  The second reader does the same. -/
def Reads {α : Type} (tokens : List Located) (A : Manner) (s : Parsing) (p q : Parse α)
    (Q : α → Parsing → Prop) : Prop :=
  s.At tokens → q s = p s ∧
    match p s with
    | .ok a s₁ => Passage tokens A s none s₁ ∧ Q a s₁
    | .error d s₁ => Passage tokens A s (some d) s₁

/-- From the state `s`, a reader goes a way that the manner allows; its result and the state behind
it satisfy `Q`. -/
abbrev Does {α : Type} (tokens : List Located) (A : Manner) (s : Parsing) (p : Parse α)
    (Q : α → Parsing → Prop) : Prop :=
  Reads tokens A s p p Q

namespace Reads

open Parsing

variable {α β : Type} {tokens : List Located} {A B : Manner} {s s₁ : Parsing} {p q : Parse α}
  {f g : α → Parse β} {Q R : α → Parsing → Prop} {Q' : β → Parsing → Prop}

theorem ok (h : Reads tokens A s p q Q) (hs : s.At tokens) {a : α} (hrun : p s = .ok a s₁) :
    Passage tokens A s none s₁ ∧ Q a s₁ := by
  have hp := (h hs).2
  rw [hrun] at hp
  exact hp

/-- What is known of the state may be used. -/
theorem given (h : s.At tokens → Reads tokens A s p q Q) : Reads tokens A s p q Q :=
  fun hs => h hs hs

theorem mono (h : Reads tokens A s p q Q) (hQ : ∀ a s₁, Q a s₁ → R a s₁) :
    Reads tokens A s p q R := by
  intro hs
  obtain ⟨hsame, hp⟩ := h hs
  refine ⟨hsame, ?_⟩
  split at hp
  · exact ⟨hp.1, hQ _ _ hp.2⟩
  · exact hp

/-- A reader may do less than is allowed. -/
theorem weaken (h : Reads tokens A s p q Q) (hAB : A.Within B) : Reads tokens B s p q Q := by
  intro hs
  obtain ⟨hsame, hp⟩ := h hs
  refine ⟨hsame, ?_⟩
  split at hp
  · exact ⟨hp.1.mono hAB, hp.2⟩
  · exact hp.mono hAB

protected theorem pure {a : α} (hQ : Q a s) :
    Does tokens A s (Pure.pure a) Q := fun _ => ⟨rfl, .stay, hQ⟩

/-- **Sequences** of any readers. -/
theorem andThen (hp : Reads tokens A s p q Q)
    (hf : ∀ a s₁, Passage tokens A s none s₁ → Q a s₁ → Reads tokens A s₁ (f a) (g a) Q') :
    Reads tokens A s (p >>= f) (q >>= g) Q' := by
  intro hs
  obtain ⟨hsame, hp⟩ := hp hs
  change EStateM.bind q g s = EStateM.bind p f s ∧
    (match EStateM.bind p f s with | .ok a s₁ => _ | .error d s₁ => _)
  unfold EStateM.bind
  rw [hsame]
  cases hrun : p s with
  | ok a s₁ =>
    rw [hrun] at hp
    obtain ⟨hpass, hQ⟩ := hp
    obtain ⟨hnext, hfa⟩ := hf a s₁ hpass hQ (hpass.at_tokens hs)
    refine ⟨hnext, ?_⟩
    simp only
    split at hfa
    · exact ⟨hpass.trans hfa.1, hfa.2⟩
    · exact hpass.trans hfa
  | error d s₁ =>
    rw [hrun] at hp
    exact ⟨rfl, hp⟩

/-- A reader that may do nothing else moves on. -/
theorem moves (hp : Reads tokens .plain s p q Q) :
    Reads tokens A s p q fun a s₁ => s.Moves tokens s₁ ∧ Q a s₁ := by
  intro hs
  obtain ⟨hsame, hp⟩ := hp hs
  refine ⟨hsame, ?_⟩
  split at hp
  · exact ⟨hp.1.lift, hp⟩
  · exact hp.lift

/-- **Sequences**: the second reader goes on from where the first one stopped. -/
protected theorem bind (hp : Reads tokens .plain s p q Q)
    (hf : ∀ a s₁, s.Moves tokens s₁ → Q a s₁ → Reads tokens A s₁ (f a) (g a) Q') :
    Reads tokens A s (p >>= f) (q >>= g) Q' :=
  hp.moves.andThen fun a s₁ _ h => hf a s₁ h.1 h.2

theorem map (hp : Reads tokens A s p q Q) {r : α → β} (hr : ∀ a s₁, Q a s₁ → Q' (r a) s₁) :
    Reads tokens A s (r <$> p) (r <$> q) Q' :=
  hp.andThen fun a s₁ _ hQ => .pure (hr a s₁ hQ)

theorem ite {c : Prop} [Decidable c] {p' q' : Parse α} (h : c → Reads tokens A s p q Q)
    (h' : ¬ c → Reads tokens A s p' q' Q) :
    Reads tokens A s (if c then p else p') (if c then q else q') Q := by
  split
  · exact h ‹c›
  · exact h' ‹¬ c›

theorem throw {d : Diagnostic} (hissue : d.issue.isOrdinary = true) (hspan : Spot tokens d.span) :
    Does tokens A s (throw d : Parse α) Q := fun _ => ⟨rfl, .fail hissue hspan⟩

/-- Behind a failure, nothing is read. -/
theorem throwThen {d : Diagnostic} (hissue : d.issue.isOrdinary = true)
    (hspan : Spot tokens d.span) (f g : α → Parse β) :
    Reads tokens A s (MonadExcept.throw d >>= f) (MonadExcept.throw d >>= g) Q' :=
  fun _ => ⟨rfl, .fail hissue hspan⟩

theorem modify {g : Parsing → Parsing} {f f' : Unit → Parse β}
    (hg : Passage tokens A s none (g s)) (hf : Reads tokens A (g s) (f ()) (f' ()) Q') :
    Reads tokens A s (modify g >>= f) (modify g >>= f') Q' := by
  have hmodify : Does tokens A s (MonadState.modifyGet fun s => ((), g s)) fun _ s₁ => s₁ = g s :=
    fun _ => ⟨rfl, hg, rfl⟩
  refine hmodify.andThen fun _ s₁ _ h₁ => ?_
  rw [h₁]
  exact hf

/-- What is read behind a complaint is read from where it was made. -/
theorem complain {f g : Unit → Parse β} {issue : Issue} {span : Span}
    (hissue : issue.isOrdinary = true) (hspan : Spot tokens span)
    (hf : s.Moves tokens (s.complain issue span) → ¬ (s.complain issue span).Clean →
      Reads tokens A (s.complain issue span) (f ()) (g ()) Q') :
    Reads tokens A s (Parse.complain issue span >>= f) (Parse.complain issue span >>= g) Q' :=
  modify (.complain hissue hspan) (hf (.complain hissue hspan)
    (s.not_clean_complain (Issue.severity_of_isOrdinary hissue) span))

/-! Looking at the state takes nothing. -/

section Look

theorem get {f g : Parsing → Parse β} (h : Reads tokens A s (f s) (g s) Q') :
    Reads tokens A s (MonadState.get >>= f) (MonadState.get >>= g) Q' := h

theorem peek {f g : Token → Parse β} (h : Reads tokens A s (f s.peek) (g s.peek) Q') :
    Reads tokens A s (Parse.peek >>= f) (Parse.peek >>= g) Q' := h

theorem here {f g : Span → Parse β} (h : Reads tokens A s (f s.here) (g s.here) Q') :
    Reads tokens A s (Parse.here >>= f) (Parse.here >>= g) Q' := h

theorem last {f g : Span → Parse β} (h : Reads tokens A s (f s.last) (g s.last) Q') :
    Reads tokens A s (Parse.last >>= f) (Parse.last >>= g) Q' := h

theorem left {f g : Nat → Parse β} (h : Reads tokens A s (f s.rest.length) (g s.rest.length) Q') :
    Reads tokens A s (Parse.left >>= f) (Parse.left >>= g) Q' := h

theorem isAt {m : Mark} {f g : Bool → Parse β}
    (h : Reads tokens A s (f (s.peek.isMark m)) (g (s.peek.isMark m)) Q') :
    Reads tokens A s (Parse.isAt m >>= f) (Parse.isAt m >>= g) Q' := h

end Look

/-! ## Basic readers -/

theorem failExpecting (what : String) :
    Does tokens A s (Parse.failExpecting what) Q :=
  .given fun hs => .peek (.here (.throw rfl hs.here))

theorem failThen (what : String) (f g : α → Parse β) :
    Reads tokens A s (Parse.failExpecting what >>= f) (Parse.failExpecting what >>= g) Q' :=
  .given fun hs _ => ⟨rfl, .fail rfl hs.here⟩

section Take

variable {f g : Span → Parse β}

theorem take (hg : Passage tokens A s none s.advance)
    (hf : Spot tokens s.here → Reads tokens A s.advance (f s.here) (g s.here) Q') :
    Reads tokens A s (Parse.advance >>= f) (Parse.advance >>= g) Q' := by
  have htake : Does tokens A s Parse.advance fun span s₁ => span = s.here ∧ s₁ = s.advance :=
    fun _ => ⟨rfl, hg, rfl, rfl⟩
  refine .given fun hs => htake.andThen fun span s₁ _ h₁ => ?_
  rw [h₁.1, h₁.2]
  exact hf hs.here

/-- A token that is neither a brace nor the end is taken. -/
theorem advance (hplain : s.peek.isPlain = true)
    (hf : Spot tokens s.here → Reads tokens A s.advance (f s.here) (g s.here) Q') :
    Reads tokens A s (Parse.advance >>= f) (Parse.advance >>= g) Q' :=
  take (.take hplain) hf

theorem expect {m : Mark} (hm : (Token.mark m).isPlain = true)
    (hf : s.peek = .mark m → Spot tokens s.here →
      Reads tokens A s.advance (f s.here) (g s.here) Q') :
    Reads tokens A s (Parse.expect m >>= f) (Parse.expect m >>= g) Q' := by
  unfold Parse.expect
  rw [bind_assoc, bind_assoc]
  refine .isAt ?_
  split
  · rename_i hat
    have hpeek := Token.eq_of_isMark hat
    exact advance (hpeek ▸ hm) (hf hpeek)
  · exact failThen _ f g

theorem expectName {f g : Declared → Parse β}
    (hf : ∀ x, s.peek = .name x → Named tokens x → Spot tokens s.here →
      Reads tokens A s.advance (f ⟨x, s.here⟩) (g ⟨x, s.here⟩) Q') :
    Reads tokens A s (Parse.expectName >>= f) (Parse.expectName >>= g) Q' := by
  unfold Parse.expectName
  rw [bind_assoc, bind_assoc]
  refine .given fun hs => .peek ?_
  split
  · rename_i x hpeek
    rw [bind_assoc, bind_assoc]
    exact advance (hpeek ▸ rfl) (hf x hpeek (hs.among hpeek rfl))
  · exact failThen _ f g

theorem eat {m : Mark} (hm : (Token.mark m).isPlain = true) {p q p' q' : Parse β}
    (hf : s.peek = .mark m → Reads tokens A s.advance p q Q') (hf' : Reads tokens A s p' q' Q') :
    Reads tokens A s (do if ← Parse.eat m then p else p') (do if ← Parse.eat m then q else q')
      Q' := by
  unfold Parse.eat
  rw [bind_assoc, bind_assoc]
  refine .isAt ?_
  split
  · rename_i hat
    have hpeek := Token.eq_of_isMark hat
    rw [bind_assoc, bind_assoc]
    exact modify (.take (hpeek ▸ hm)) (hf hpeek)
  · exact hf'

theorem skipNewlines {f g : Unit → Parse β}
    (hf : Reads tokens A (s.skipWhile Token.isNewline) (f ()) (g ()) Q') :
    Reads tokens A s (Parse.skipNewlines >>= f) (Parse.skipNewlines >>= g) Q' :=
  modify (.skipNewlines s) hf

end Take

/-- **Scopes**: what is declared inside is gone behind. -/
theorem inScope (h : Reads tokens A s.enterScope p q Q) :
    Reads tokens A s (Parse.inScope p) (Parse.inScope q) fun a s₁ =>
      s₁.scopes = s.scopes ∧ ∃ u, Q a u ∧ s₁ = u.leaveScope := by
  intro hs
  obtain ⟨hsame, hp⟩ := h ⟨hs.rest, hs.last⟩
  unfold Parse.inScope
  rw [hsame]
  refine ⟨rfl, ?_⟩
  cases hrun : p s.enterScope with
  | ok a s₁ =>
    rw [hrun] at hp
    exact ⟨.scope hp.1, scopes_leaveScope hp.1.takes, s₁, hp.2, rfl⟩
  | error d s₁ =>
    rw [hrun] at hp
    exact .scope hp

end Reads

/-! ## Braces -/

/-- What is read from the state `s` behind a brace that was taken in the state `s₀`.  The brace is
closed, unless reading fails. -/
def Braced {α : Type} (tokens : List Located) (A : Manner) (s₀ s : Parsing) (p q : Parse α)
    (Q : α → Parsing → Prop) : Prop :=
  Passage tokens A s₀.advance none s → s.At tokens → q s = p s ∧
    match p s with
    | .ok a s₁ => Passage tokens A s₀ none s₁ ∧ Q a s₁
    | .error d s₁ => Passage tokens A s₀ (some d) s₁

section Braces

open Parsing

variable {α β : Type} {tokens : List Located} {A : Manner} {s₀ s : Parsing} {p q : Parse α}
  {f g : α → Parse β} {Q : α → Parsing → Prop} {Q' : β → Parsing → Prop}

/-- A brace is opened. -/
theorem Reads.openBrace {f g : Span → Parse β}
    (hf : s.peek = .mark .lbrace → Spot tokens s.here →
      Braced tokens A s s.advance (f s.here) (g s.here) Q') :
    Reads tokens A s (Parse.expect .lbrace >>= f) (Parse.expect .lbrace >>= g) Q' := by
  unfold Parse.expect
  rw [bind_assoc, bind_assoc]
  refine .isAt ?_
  split
  · rename_i hat
    exact fun hs => hf (Token.eq_of_isMark hat) hs.here .stay hs.advance
  · exact failThen _ f g

namespace Braced

variable (hopen : s₀.peek = .mark .lbrace)

include hopen

/-- **Sequences** of any readers behind an open brace. -/
theorem andThen (hp : Reads tokens A s p q Q)
    (hf : ∀ a s₁, Passage tokens A s none s₁ → Q a s₁ → Braced tokens A s₀ s₁ (f a) (g a) Q') :
    Braced tokens A s₀ s (p >>= f) (q >>= g) Q' := by
  intro hfront hs
  obtain ⟨hsame, hp⟩ := hp hs
  change EStateM.bind q g s = EStateM.bind p f s ∧
    (match EStateM.bind p f s with | .ok a s₁ => _ | .error d s₁ => _)
  unfold EStateM.bind
  rw [hsame]
  cases hrun : p s with
  | ok a s₁ =>
    rw [hrun] at hp
    obtain ⟨hpass, hQ⟩ := hp
    exact hf a s₁ hpass hQ (hfront.trans hpass) (hpass.at_tokens hs)
  | error d s₁ =>
    rw [hrun] at hp
    exact ⟨rfl, .unclosed hopen (hfront.trans hp)⟩

/-- **Sequences** behind an open brace. -/
protected theorem bind (hp : Reads tokens .plain s p q Q)
    (hf : ∀ a s₁, s.Moves tokens s₁ → Q a s₁ → Braced tokens A s₀ s₁ (f a) (g a) Q') :
    Braced tokens A s₀ s (p >>= f) (q >>= g) Q' :=
  andThen hopen hp.moves fun a s₁ _ h => hf a s₁ h.1 h.2

omit hopen in
theorem left {f g : Nat → Parse β}
    (h : Braced tokens A s₀ s (f s.rest.length) (g s.rest.length) Q') :
    Braced tokens A s₀ s (Parse.left >>= f) (Parse.left >>= g) Q' := h

omit hopen in
theorem isAt {m : Mark} {f g : Bool → Parse β}
    (h : Braced tokens A s₀ s (f (s.peek.isMark m)) (g (s.peek.isMark m)) Q') :
    Braced tokens A s₀ s (Parse.isAt m >>= f) (Parse.isAt m >>= g) Q' := h

omit hopen in
theorem skipNewlines {f g : Unit → Parse β}
    (hf : Braced tokens A s₀ (s.skipWhile Token.isNewline) (f ()) (g ()) Q') :
    Braced tokens A s₀ s (Parse.skipNewlines >>= f) (Parse.skipNewlines >>= g) Q' :=
  fun hfront hs => hf (hfront.trans (.skipNewlines s))
    ((Passage.skipNewlines (A := A) s).at_tokens hs)

/-- The brace is closed, by whatever stands here. -/
theorem advance (hclose : Ended s₀.rest → s.peek = .mark .rbrace) {f g : Span → Parse β}
    (hf : Spot tokens s.here → Reads tokens A s.advance (f s.here) (g s.here) Q') :
    Braced tokens A s₀ s (Parse.advance >>= f) (Parse.advance >>= g) Q' := by
  intro hfront hs
  obtain ⟨hsame, hp⟩ := hf hs.here hs.advance
  have hpass : Passage tokens A s₀ none s.advance := .enclose hopen hfront hclose
  change g s.here s.advance = f s.here s.advance ∧
    (match f s.here s.advance with | .ok a s₁ => _ | .error d s₁ => _)
  refine ⟨hsame, ?_⟩
  split at hp
  · exact ⟨hpass.trans hp.1, hp.2⟩
  · exact hpass.trans hp

theorem close {f g : Span → Parse β}
    (hf : s.peek = .mark .rbrace → Spot tokens s.here →
      Reads tokens A s.advance (f s.here) (g s.here) Q') :
    Braced tokens A s₀ s (Parse.expect .rbrace >>= f) (Parse.expect .rbrace >>= g) Q' := by
  unfold Parse.expect
  rw [bind_assoc, bind_assoc]
  refine isAt ?_
  split
  · rename_i hat
    have hpeek := Token.eq_of_isMark hat
    exact advance hopen (fun _ => hpeek) (hf hpeek)
  · exact fun hfront hs => ⟨rfl, .unclosed hopen (hfront.trans (.fail rfl hs.here))⟩

end Braced

end Braces

end Packwright
