import Packwright.Proofs.Literal.Spelling

/-!
# Reading the tokens of a value

The tokens of the lexemes of a value are read as one expression, whose constant is the value.  The
statements say what a reader does in a state whose tokens are known, so that they cover that it
gives a result at all.

* `Parse.Runs`: a reader ends in front of given tokens and reports nothing; one rule for each basic
  reader.
* `Parse.runs_word`, `Parse.runs_range`, `Parse.runs_separated`, `Parse.runs_compound`: the parts of
  values.
* `Value.Writable.readBy`: whole values, with enough fuel.
-/

namespace Packwright

open Lexeme

/-! ## Runs -/

namespace Parse

/-- The reader run from `s` ends in front of the tokens `rest` and reports nothing.  Its result
satisfies `Q`. -/
def Runs {α : Type} (p : Parse α) (s : Parsing) (rest : List Located) (Q : α → Prop) : Prop :=
  ∃ a s', p s = .ok a s' ∧ s'.rest = rest ∧ s'.report = s.report ∧ Q a

namespace Runs

variable {α β : Type} {p : Parse α} {f : α → Parse β} {s : Parsing} {t : Located}
  {ts mid rest : List Located} {P : α → Prop} {Q : β → Prop}

protected theorem pure {b : β} (hs : s.rest = rest) (hb : Q b) : Runs (pure b) s rest Q :=
  ⟨b, s, rfl, hs, rfl, hb⟩

theorem step {a : α} {s₁ : Parsing} (hp : p s = .ok a s₁) (hreport : s₁.report = s.report)
    (hf : Runs (f a) s₁ rest Q) : Runs (p >>= f) s rest Q := by
  obtain ⟨b, s', hrun, hrest, hreport', hb⟩ := hf
  exact ⟨b, s', bind_ok.mpr ⟨a, s₁, hp, hrun⟩, hrest, hreport'.trans hreport, hb⟩

protected theorem bind (hp : Runs p s mid P)
    (hf : ∀ a s₁, s₁.rest = mid → P a → Runs (f a) s₁ rest Q) : Runs (p >>= f) s rest Q := by
  obtain ⟨a, s₁, hrun, hmid, hreport, ha⟩ := hp
  exact step hrun hreport (hf a s₁ hmid ha)

protected theorem map {g : α → β} (h : Runs p s rest P) (hg : ∀ a, P a → Q (g a)) :
    Runs (g <$> p) s rest Q := by
  obtain ⟨a, s', hp, hrest, hreport, ha⟩ := h
  refine ⟨g a, s', ?_, hrest, hreport, hg a ha⟩
  show EStateM.map g p s = _
  rw [EStateM.map, hp]

theorem advance {f : Span → Parse β} (hs : s.rest = t :: ts) (hne : ts ≠ [])
    (hf : ∀ s₁ : Parsing, s₁.rest = ts → s₁.last = t.span → Runs (f t.span) s₁ rest Q) :
    Runs (advance >>= f) s rest Q :=
  step (advance_ok hs hne) rfl (hf _ rfl rfl)

theorem expect {f : Span → Parse β} {m : Mark} {span : Span} (hs : s.rest = ⟨.mark m, span⟩ :: ts)
    (hne : ts ≠ []) (hf : ∀ s₁ : Parsing, s₁.rest = ts → Runs (f span) s₁ rest Q) :
    Runs (expect m >>= f) s rest Q :=
  step (expect_ok hs hne) rfl (hf _ rfl)

theorem eat {f : Bool → Parse β} {m : Mark} {span : Span} (hs : s.rest = ⟨.mark m, span⟩ :: ts)
    (hne : ts ≠ []) (hf : ∀ s₁ : Parsing, s₁.rest = ts → Runs (f true) s₁ rest Q) :
    Runs (eat m >>= f) s rest Q :=
  step (eat_ok hs hne) rfl (hf _ rfl)

end Runs

/-! ## Operators

No operator stands behind the parts of a value, so that all levels of operators pass on what the
innermost one reads. -/

/-- Whether the token stands behind an operand in the text of a value. -/
def endsOperand : Token → Bool
  | .mark m => m ∈ [.comma, .rbracket, .rbrace, .dotDot]
  | .endOfSource => true
  | _ => false

/-- Whether the token stands behind a whole value. -/
def endsValue (t : Token) : Bool := endsOperand t && !t.isMark .dotDot

section Operators

variable {s : Parsing} {u : Located} {ts : List Located} {P : Expr → Prop}

theorem eq_of_endsOperand {t : Token} (h : endsOperand t = true) :
    t = .endOfSource ∨ ∃ m ∈ [Mark.comma, .rbracket, .rbrace, .dotDot], t = .mark m := by
  unfold endsOperand at h
  split at h
  · exact .inr ⟨_, of_decide_eq_true h, rfl⟩
  · exact .inl rfl
  · cases h

theorem endsOperand_of_endsValue {t : Token} (h : endsValue t = true) : endsOperand t = true :=
  (Bool.and_eq_true_iff.mp h).1

theorem eq_of_endsValue {t : Token} (h : endsValue t = true) :
    t = .endOfSource ∨ ∃ m ∈ [Mark.comma, .rbracket, .rbrace], t = .mark m := by
  obtain ⟨hoperand, hdots⟩ := Bool.and_eq_true_iff.mp h
  rcases eq_of_endsOperand hoperand with rfl | ⟨m, hm, rfl⟩
  · exact .inl rfl
  · refine .inr ⟨m, ?_, rfl⟩
    revert hdots hm
    cases m <;> decide

theorem operatorAt?_of_endsOperand {t : Token} (h : endsOperand t = true)
    {ops : List (Mark × BinaryOp)}
    (hops : ∀ m ∈ [Mark.comma, .rbracket, .rbrace, .dotDot], ops.find? (·.1 = m) = none) :
    operatorAt? ops t = none := by
  rcases eq_of_endsOperand h with rfl | ⟨m, hm, rfl⟩
  · rfl
  · rw [operatorAt?, hops m hm, Option.map_none]

/-- A level whose operators do not follow reads what the next level reads. -/
theorem Runs.level {op? : Token → Option BinaryOp} {next : Parse Expr}
    (h : Runs next s (u :: ts) P) (hop : op? u.token = none) :
    Runs (level op? next) s (u :: ts) P := by
  refine h.bind fun e s₁ hs₁ he => step rfl rfl ?_
  cases s₁.rest.length with
  | zero => exact .pure hs₁ he
  | succ n =>
    rw [chain]
    refine step rfl rfl ?_
    rw [peek_of_rest hs₁, hop]
    exact .pure hs₁ he

variable {expr : Parse Expr}

theorem runs_sum (h : Runs (factor expr) s (u :: ts) P) (hu : endsOperand u.token = true) :
    Runs (sum expr) s (u :: ts) P :=
  (h.level (operatorAt?_of_endsOperand hu (by decide))).level
    (operatorAt?_of_endsOperand hu (by decide))

/-- An operand without a sign. -/
theorem runs_factor (h : Runs (primary expr) s (u :: ts) P) (hu : endsOperand u.token = true)
    (hs : s.peek.isMark .minus = false ∧ s.peek.isMark .bang = false) :
    Runs (factor expr) s (u :: ts) P := by
  have haccessed : Runs (accessed expr) s (u :: ts) P := by
    refine h.bind fun e s₁ hs₁ he => Runs.step rfl rfl ?_
    cases s₁.rest.length with
    | zero => exact .pure hs₁ he
    | succ n =>
      rw [accesses]
      refine Runs.step rfl rfl ?_
      rw [peek_of_rest hs₁]
      rcases eq_of_endsOperand hu with hu | ⟨m, hm, hu⟩
      · rw [hu]
        exact .pure hs₁ he
      · rw [hu]
        simp only [List.mem_cons, List.not_mem_nil, or_false] at hm
        rcases hm with rfl | rfl | rfl | rfl <;> exact .pure hs₁ he
  refine Runs.step rfl rfl ?_
  cases s.rest.length with
  | zero => exact haccessed
  | succ n =>
    rw [signed]
    refine Runs.step rfl rfl ?_
    split
    · rename_i hpeek
      rw [hpeek] at hs
      cases hs.1
    · rename_i hpeek
      rw [hpeek] at hs
      cases hs.2
    · exact haccessed

theorem runs_ranged (h : Runs (sum expr) s (u :: ts) P) (hu : endsValue u.token = true)
    (hs : s.peek.isMark .dotDot = false) : Runs (ranged expr) s (u :: ts) P := by
  refine Runs.step rfl rfl ?_
  rw [hs]
  refine h.bind fun e s₁ hs₁ he => Runs.step rfl rfl ?_
  have hdots : s₁.peek.isMark .dotDot = false := by
    rw [peek_of_rest hs₁]
    simpa using (Bool.and_eq_true_iff.mp hu).2
  rw [hdots]
  exact .pure hs₁ he

/-- An expression that is a range or an operand. -/
theorem runs_expressionWithin {n : Nat} (h : Runs (ranged (expressionWithin n)) s (u :: ts) P)
    (hu : endsValue u.token = true) : Runs (expressionWithin (n + 1)) s (u :: ts) P := by
  have hoperand := endsOperand_of_endsValue hu
  have hrelation : relationAt? u.token = none := by
    have hnone : operatorAt? relationOps u.token = none :=
      operatorAt?_of_endsOperand hoperand (by decide)
    rw [← hnone]
    rcases eq_of_endsOperand hoperand with hu | ⟨m, -, hu⟩ <;> rw [hu] <;> rfl
  exact ((h.level hrelation).level (operatorAt?_of_endsOperand hoperand (by decide))).level
    (operatorAt?_of_endsOperand hoperand (by decide))

end Operators

/-! ## Numbers and ranges -/

/-- The expression has the value for its constant, and its kind. -/
def ReadAs (v : Value) (e : Expr) : Prop := e.constant? = some v ∧ e.kind = v.kind

theorem readAs_ofValue (v : Value) (span : Span) : ReadAs v (.ofValue v span) := ⟨rfl, rfl⟩

/-! ### First tokens -/

/-- A token of a class to which a mark does not belong is not the mark. -/
theorem isMark_of_class {p : Token → Bool} {t : Token} (ht : p t = true) {m : Mark}
    (hm : p (.mark m) = false) : t.isMark m = false := by
  cases t with
  | mark m' =>
    refine decide_eq_false ?_
    rintro rfl
    rw [hm] at ht
    cases ht
  | _ => rfl

theorem isNewline_of_class {p : Token → Bool} {t : Token} (ht : p t = true)
    (hn : p .newline = false) : t.isNewline = false := by
  cases t with
  | newline =>
    rw [hn] at ht
    cases ht
  | _ => rfl

theorem peek_of_firstIs {p : Token → Bool} {ls : List Lexeme}
    (h : FirstIs p ls) {s : Parsing} {here : Nat} {rest : List Located}
    (hs : s.rest = located here ls ++ rest) : p s.peek = true := by
  obtain ⟨l, t, ls', rfl, ht, hp⟩ := h
  rw [located, ht] at hs
  rw [peek_of_rest hs]
  exact hp

section Numbers

variable {s : Parsing} {here : Nat} {u : Located} {ts : List Located} {expr : Parse Expr}

theorem ofInt?_toInt {w : Width} (v : Word w) : Word.ofInt? w v.toInt = some v := by
  rw [Word.ofInt?, if_pos (Word.holds_toInt v), BitVec.ofInt_toInt]

theorem runs_word {w : Width} {v : Word w} (hs : s.rest = located here v.lexemes ++ u :: ts)
    (hu : endsOperand u.token = true) : Runs (sum expr) s (u :: ts) (ReadAs (.integer w v)) := by
  refine runs_sum ?_ hu
  unfold Word.lexemes at hs
  split at hs
  · -- the sign stands directly in front of the magnitude
    rename_i hneg
    have hnumber : number? true (.integer w v.toInt.natAbs) = .ok (.integer w v) := by
      have hvalue : (-(v.toInt.natAbs : Int)) = v.toInt := by omega
      rw [number?, if_pos rfl, hvalue, ofInt?_toInt]
    refine Runs.step rfl rfl ?_
    rw [hs]
    show Runs (signed expr (_ + 1)) _ _ _
    rw [signed]
    refine Runs.step rfl rfl ?_
    rw [peek_of_rest hs]
    refine Runs.advance hs (List.cons_ne_nil _ _) fun s₁ hs₁ hlast => Runs.step rfl rfl ?_
    have hadjacent : (s₁.peek.isNumber && s₁.adjacent) = true := by
      rw [peek_of_rest hs₁, Parsing.adjacent, here_of_rest hs₁, hlast]
      simp [Token.isNumber, mark]
    rw [if_pos hadjacent, peek_of_rest hs₁]
    refine Runs.advance hs₁ (List.cons_ne_nil _ _) fun s₂ hs₂ _ => ?_
    show Runs (numberLiteral true _ _) _ _ _
    unfold numberLiteral
    rw [hnumber]
    exact .pure hs₂ (readAs_ofValue _ _)
  · rename_i hpos
    have hnumber : number? false (.integer w v.toInt.natAbs) = .ok (.integer w v) := by
      have hvalue : (v.toInt.natAbs : Int) = v.toInt := by omega
      rw [number?, if_neg Bool.false_ne_true, hvalue, ofInt?_toInt]
    refine runs_factor ?_ hu (by rw [peek_of_rest hs]; exact ⟨rfl, rfl⟩)
    refine Runs.step rfl rfl (Runs.step rfl rfl ?_)
    rw [peek_of_rest hs]
    refine Runs.advance hs (List.cons_ne_nil _ _) fun s₁ hs₁ _ => ?_
    show Runs (numberLiteral false _ _) _ _ _
    unfold numberLiteral
    rw [hnumber]
    exact .pure hs₁ (readAs_ofValue _ _)

/-- The expression, if there is one, has the bound for its constant. -/
def BoundAs (b : Option Amount) (o : Option Expr) : Prop :=
  Expr.constantBound? o = some b ∧ ∀ e ∈ o, e.kind = .int

theorem boundAs_none : BoundAs none none := ⟨rfl, fun _ he => nomatch he⟩

theorem ReadAs.boundAs {n : Amount} {e : Expr} (h : ReadAs (.integer .int n) e) :
    BoundAs (some n) (some e) := by
  refine ⟨by rw [Expr.constantBound?, h.1], fun e' he => ?_⟩
  cases he
  exact h.2

theorem rangeBound_ok {b : Option Amount} {o : Option Expr} (h : BoundAs b o) (s : Parsing) :
    rangeBound o s = .ok (o, true) s := by
  cases o with
  | none => rfl
  | some e =>
    have hkind : e.kind = .int := h.2 e rfl
    have herror : e.isError = false := by
      show decide (e.kind = .error) = false
      rw [hkind]
      rfl
    unfold rangeBound
    dsimp only
    rw [herror, hkind]
    rfl

theorem runs_bounds {r : Range} {min max : Option Expr} (hmin : BoundAs r.min min)
    (hmax : BoundAs r.max max) (dots : Span) {rest : List Located} (hs : s.rest = rest) :
    Runs (range min max dots) s rest (ReadAs (.range r)) := by
  refine Runs.step (rangeBound_ok hmin s) rfl (Runs.step (rangeBound_ok hmax s) rfl (.pure hs ?_))
  refine ⟨?_, rfl⟩
  rw [Expr.constant?, hmin.1, hmax.1]

theorem runs_range {r : Range} (h : r.min.isSome = true ∨ r.max.isSome = true)
    (hs : s.rest = located here (Value.range r).lexemes ++ u :: ts)
    (hu : endsValue u.token = true) : Runs (ranged expr) s (u :: ts) (ReadAs (.range r)) := by
  have hoperand := endsOperand_of_endsValue hu
  obtain ⟨min, max⟩ := r
  rw [Value.lexemes, located_append, List.append_assoc] at hs
  cases min with
  | none =>
    obtain ⟨n, rfl⟩ := Option.isSome_iff_exists.mp (h.resolve_left Bool.false_ne_true)
    refine Runs.step rfl rfl ?_
    rw [peek_of_rest hs]
    refine Runs.advance hs (by simp) fun s₁ hs₁ _ => ?_
    refine (runs_word hs₁ hoperand).bind fun e s₂ hs₂ he => ?_
    exact runs_bounds boundAs_none he.boundAs _ hs₂
  | some n =>
    have hfirst : s.peek.isMark .dotDot = false :=
      isMark_of_class (peek_of_firstIs n.firstIs_lexemes hs) rfl
    refine Runs.step rfl rfl ?_
    rw [hfirst]
    refine (runs_word hs rfl).bind fun e s₁ hs₁ he => ?_
    refine Runs.step rfl rfl ?_
    rw [peek_of_rest hs₁]
    cases max with
    | none =>
      refine Runs.advance hs₁ (List.cons_ne_nil _ _) fun s₂ hs₂ _ => ?_
      refine Runs.step rfl rfl ?_
      rw [peek_of_rest hs₂]
      have hstarts : startsExpression u.token = false := by
        rcases eq_of_endsValue hu with hu | ⟨m, hm, hu⟩
        · rw [hu]
          rfl
        · rw [hu]
          revert hm
          cases m <;> decide
      rw [hstarts]
      refine Runs.step rfl rfl ?_
      exact runs_bounds he.boundAs boundAs_none _ hs₂
    | some n' =>
      refine Runs.advance hs₁ (by simp) fun s₂ hs₂ _ => ?_
      refine Runs.step rfl rfl ?_
      rw [if_pos (peek_of_firstIs n'.firstIs_lexemes hs₂)]
      have hmax : Runs (some <$> sum expr) s₂ (u :: ts) (BoundAs (some n')) :=
        (runs_word hs₂ hoperand).map fun _ he' => he'.boundAs
      exact hmax.bind fun o s₃ hs₃ ho => runs_bounds he.boundAs ho _ hs₃

end Numbers

/-! ## Lists and compounds -/

/-- The tokens of the value are read by `expr`, whatever stands behind the value. -/
def ReadBy (expr : Parse Expr) (v : Value) : Prop :=
  ∀ ⦃s : Parsing⦄ ⦃here : Nat⦄ ⦃u : Located⦄ ⦃ts : List Located⦄,
    s.rest = located here v.lexemes ++ u :: ts → endsValue u.token = true →
    Runs expr s (u :: ts) (ReadAs v)

/-- Behind the first of several parts stands what closes them, or a comma and the other parts. -/
theorem located_commas (here : Nat) (part : List Lexeme) (parts : List (List Lexeme))
    (close : Located) (ts : List Located) :
    ∃ u tail,
      located here (commas (part :: parts)) ++ close :: ts = located here part ++ u :: tail ∧
      (parts = [] ∧ u = close ∧ tail = ts ∨ ∃ span here', u = ⟨.mark .comma, span⟩ ∧
        tail = located here' (commas parts) ++ close :: ts) := by
  unfold commas
  cases parts with
  | nil =>
    rw [List.intercalate_singleton]
    exact ⟨close, ts, rfl, .inl ⟨rfl, rfl, rfl⟩⟩
  | cons next parts =>
    rw [List.intercalate_cons_cons, List.append_assoc, located_append, List.append_assoc]
    exact ⟨_, _, rfl, .inr ⟨_, _, rfl, rfl⟩⟩

/-- Each of the parts has a token. -/
theorem length_le_located {p : Token → Bool} {parts : List (List Lexeme)}
    (h : ∀ part ∈ parts, FirstIs p part) (here : Nat) (close : Located) (ts : List Located) :
    parts.length ≤ (located here (commas parts) ++ close :: ts).length := by
  induction parts generalizing here with
  | nil => exact Nat.zero_le _
  | cons part parts ih =>
    obtain ⟨hpart, hparts⟩ := List.forall_mem_cons.mp h
    obtain ⟨u, tail, hlocated, htail⟩ := located_commas here part parts close ts
    obtain ⟨l, t, ls, rfl, ht, -⟩ := hpart
    rw [hlocated, located_cons_token ht]
    rcases htail with ⟨rfl, rfl, rfl⟩ | ⟨span, here', rfl, rfl⟩
    · simp
    · have := ih hparts here'
      simp only [List.length_cons, List.length_append] at this ⊢
      omega

/-- The tokens between two marks. -/
theorem located_enclosed (here : Nat) (l r : Mark) (ls : List Lexeme) (ts : List Located) :
    ∃ span span' here', located here (mark l :: ls ++ [mark r]) ++ ts =
      ⟨.mark l, span⟩ :: (located here' ls ++ ⟨.mark r, span'⟩ :: ts) ∧ span.start = here := by
  rw [List.cons_append, located_cons_token rfl, located_append, located_cons_token rfl,
    List.cons_append, List.append_assoc]
  exact ⟨_, _, _, rfl, rfl⟩

section Nested

variable {expr : Parse Expr} {s : Parsing} {here : Nat} {span : Span} {u : Located}
  {ts : List Located}

theorem runs_separated {items : List Value} (hread : ∀ v ∈ items, ReadBy expr v)
    (hfirst : ∀ v ∈ items, FirstIs Token.begins v.lexemes) {n : Nat} (hn : items.length ≤ n)
    (hs : s.rest =
      located here (commas (items.map Value.lexemes)) ++ ⟨.mark .rbracket, span⟩ :: ts) :
    Runs (separated expr .rbracket n) s (⟨.mark .rbracket, span⟩ :: ts) fun es =>
      Expr.constants? es = some items ∧ es.map Expr.kind = items.map Value.kind := by
  induction items generalizing n s here with
  | nil =>
    cases n with
    | zero => exact .pure hs ⟨rfl, rfl⟩
    | succ n =>
      rw [separated]
      refine Runs.step (skipNewlines_ok (by rw [peek_of_rest hs]; rfl)) rfl (Runs.step rfl rfl ?_)
      rw [if_pos (isMark_peek hs)]
      exact .pure hs ⟨rfl, rfl⟩
  | cons v items ih =>
    obtain ⟨n, rfl⟩ := Nat.exists_eq_add_of_le' (Nat.le_of_add_left_le hn)
    obtain ⟨hv, hitems⟩ := List.forall_mem_cons.mp hread
    obtain ⟨hvfirst, hfirst⟩ := List.forall_mem_cons.mp hfirst
    obtain ⟨u, tail, hlocated, htail⟩ :=
      located_commas here v.lexemes (items.map Value.lexemes) ⟨.mark .rbracket, span⟩ ts
    rw [List.map_cons, hlocated] at hs
    have hpeek := peek_of_firstIs hvfirst hs
    have hu : endsValue u.token = true := by
      rcases htail with ⟨-, rfl, -⟩ | ⟨_, _, rfl, -⟩ <;> rfl
    rw [separated]
    refine Runs.step (skipNewlines_ok (isNewline_of_class hpeek rfl)) rfl (Runs.step rfl rfl ?_)
    rw [isMark_of_class hpeek rfl, if_neg Bool.false_ne_true]
    refine (hv hs hu).bind fun e s₁ hs₁ he => ?_
    rcases htail with ⟨hnil, rfl, rfl⟩ | ⟨span', here', rfl, rfl⟩
    · obtain rfl := List.map_eq_nil_iff.mp hnil
      refine Runs.step (skipNewlines_ok (by rw [peek_of_rest hs₁]; rfl)) rfl ?_
      refine Runs.step (eat_other hs₁ rfl) rfl (.pure hs₁ ?_)
      exact ⟨by rw [Expr.constants?, he.1]; rfl, by rw [List.map_singleton, he.2]; rfl⟩
    · refine Runs.step (skipNewlines_ok (by rw [peek_of_rest hs₁]; rfl)) rfl ?_
      refine Runs.eat hs₁ (by simp) fun s₂ hs₂ => ?_
      refine (ih hitems hfirst (by simpa using hn) hs₂).bind fun es s₃ hs₃ hes => .pure hs₃ ?_
      exact ⟨by rw [Expr.constants?, he.1, hes.1], by rw [List.map_cons, he.2, hes.2]; rfl⟩

theorem listOf_ok {es : List Expr} (h : ∀ e ∈ es, ∀ e' ∈ es, e.kind = e'.kind) (span : Span)
    (s : Parsing) :
    listOf es span s =
      .ok (.list ⟨.list (es.head?.map (·.kind)) (some es.length), span⟩ es) s := by
  have huniform : (es.all fun e => some e.kind = es.head?.map (·.kind)) = true := by
    rw [List.all_eq_true]
    intro e he
    cases es with
    | nil => cases he
    | cons e' es => exact decide_eq_true (congrArg some (h e he e' List.mem_cons_self))
  unfold listOf
  dsimp only
  rw [huniform]
  rfl

theorem runs_list {items : List Value} (hread : ∀ v ∈ items, ReadBy expr v)
    (hfirst : ∀ v ∈ items, FirstIs Token.begins v.lexemes)
    (hkinds : ∀ v ∈ items, ∀ w ∈ items, v.kind = w.kind)
    (hs : s.rest = located here (Value.list items).lexemes ++ u :: ts) :
    Runs (primary expr) s (u :: ts) (ReadAs (.list items)) := by
  obtain ⟨span, span', here', hlocated, -⟩ := located_enclosed here .lbracket .rbracket
    (commas (items.map Value.lexemes)) (u :: ts)
  rw [Value.lexemes, Value.lexemesAll_eq_map, hlocated] at hs
  refine Runs.step rfl rfl (Runs.step rfl rfl ?_)
  rw [peek_of_rest hs]
  refine Runs.advance hs (by simp) fun s₁ hs₁ _ => Runs.step rfl rfl ?_
  have hn : items.length ≤ s₁.rest.length := by
    have := length_le_located (List.forall_mem_map.mpr hfirst) here' ⟨.mark .rbracket, span'⟩
      (u :: ts)
    rwa [List.length_map, ← hs₁] at this
  refine (runs_separated hread hfirst hn hs₁).bind fun es s₂ hs₂ hes => ?_
  refine Runs.step (skipNewlines_ok (by rw [peek_of_rest hs₂]; rfl)) rfl ?_
  refine Runs.expect hs₂ (List.cons_ne_nil _ _) fun s₃ hs₃ => ?_
  have hsame : ∀ e ∈ es, ∀ e' ∈ es, e.kind = e'.kind := by
    have hmem : ∀ e ∈ es, ∃ v ∈ items, v.kind = e.kind := fun e he =>
      List.mem_map.mp (hes.2 ▸ List.mem_map_of_mem he)
    intro e he e' he'
    obtain ⟨v, hv, hve⟩ := hmem e he
    obtain ⟨w, hw, hwe⟩ := hmem e' he'
    rw [← hve, ← hwe, hkinds v hv w hw]
  refine ⟨_, s₃, listOf_ok hsame _ s₃, hs₃, rfl, ?_, rfl⟩
  rw [Expr.constant?, hes.1, Option.map_some]

/-- The first tokens of an entry are its key and a colon. -/
theorem located_entry (here : Nat) (e : String × Value) :
    ∃ t span span' here', located here (Value.entryLexemes e) =
      ⟨t, span⟩ :: ⟨.mark .colon, span'⟩ :: located here' e.2.lexemes ∧
      (t = .name e.1 ∨ t = .string e.1) := by
  have hkey : ∃ t, (key e.1).token = some t ∧ (t = .name e.1 ∨ t = .string e.1) := by
    unfold key
    split
    · exact ⟨_, rfl, .inl rfl⟩
    · exact ⟨_, rfl, .inr rfl⟩
  obtain ⟨t, ht, hkey⟩ := hkey
  rw [Value.entryLexemes, located_cons_token ht, located_cons_token rfl, located_cons_blank rfl]
  exact ⟨t, _, _, _, rfl, hkey⟩

theorem compoundKey?_ok {t : Token} {k : String} (hs : s.rest = ⟨t, span⟩ :: ts)
    (ht : t = .name k ∨ t = .string k) : compoundKey? s = .ok (some k) s := by
  refine bind_ok.mpr ⟨s.peek, s, rfl, ?_⟩
  rw [peek_of_rest hs]
  rcases ht with rfl | rfl <;> rfl

theorem compoundKey?_none (hs : s.rest = ⟨.mark .rbrace, span⟩ :: ts) :
    compoundKey? s = .ok none s := by
  refine bind_ok.mpr ⟨s.peek, s, rfl, ?_⟩
  rw [peek_of_rest hs]
  rfl

theorem runs_compoundEntries {entries : List (String × Value)}
    (hread : ∀ e ∈ entries, ReadBy expr e.2)
    (hfirst : ∀ e ∈ entries, FirstIs Token.begins e.2.lexemes) {n : Nat} (hn : entries.length ≤ n)
    (hs : s.rest =
      located here (commas (entries.map Value.entryLexemes)) ++ ⟨.mark .rbrace, span⟩ :: ts) :
    Runs (compoundEntries expr n) s (⟨.mark .rbrace, span⟩ :: ts) fun es =>
      Expr.constantEntries? es = some entries := by
  induction entries generalizing n s here with
  | nil =>
    cases n with
    | zero => exact .pure hs rfl
    | succ n =>
      rw [compoundEntries]
      refine Runs.step (skipNewlines_ok (by rw [peek_of_rest hs]; rfl)) rfl ?_
      exact Runs.step (compoundKey?_none hs) rfl (.pure hs rfl)
  | cons entry entries ih =>
    obtain ⟨n, rfl⟩ := Nat.exists_eq_add_of_le' (Nat.le_of_add_left_le hn)
    obtain ⟨hv, hentries⟩ := List.forall_mem_cons.mp hread
    obtain ⟨hvfirst, hfirst⟩ := List.forall_mem_cons.mp hfirst
    obtain ⟨u, tail, hlocated, htail⟩ := located_commas here (Value.entryLexemes entry)
      (entries.map Value.entryLexemes) ⟨.mark .rbrace, span⟩ ts
    obtain ⟨t, span₁, span₂, here₁, hentry, ht⟩ := located_entry here entry
    rw [List.map_cons, hlocated, hentry] at hs
    have hu : endsValue u.token = true := by
      rcases htail with ⟨-, rfl, -⟩ | ⟨_, _, rfl, -⟩ <;> rfl
    have hline : s.peek.isNewline = false := by
      rw [peek_of_rest hs]
      rcases ht with rfl | rfl <;> rfl
    rw [compoundEntries]
    refine Runs.step (skipNewlines_ok hline) rfl (Runs.step (compoundKey?_ok hs ht) rfl ?_)
    refine Runs.advance hs (List.cons_ne_nil _ _) fun s₁ hs₁ _ => ?_
    refine Runs.expect hs₁ (by simp) fun s₂ hs₂ => ?_
    refine Runs.step (skipNewlines_ok (isNewline_of_class (peek_of_firstIs hvfirst hs₂) rfl)) rfl ?_
    refine (hv hs₂ hu).bind fun e s₃ hs₃ he => ?_
    rcases htail with ⟨hnil, rfl, rfl⟩ | ⟨span', here', rfl, rfl⟩
    · obtain rfl := List.map_eq_nil_iff.mp hnil
      refine Runs.step (skipNewlines_ok (by rw [peek_of_rest hs₃]; rfl)) rfl ?_
      refine Runs.step (eat_other hs₃ rfl) rfl (.pure hs₃ ?_)
      rw [Expr.constantEntries?, he.1]
      rfl
    · refine Runs.step (skipNewlines_ok (by rw [peek_of_rest hs₃]; rfl)) rfl ?_
      refine Runs.eat hs₃ (by simp) fun s₄ hs₄ => ?_
      refine (ih hentries hfirst (by simpa using hn) hs₄).bind fun es s₅ hs₅ hes => .pure hs₅ ?_
      rw [Expr.constantEntries?, he.1, hes]

theorem runs_compound {entries : List (String × Value)} (hkeys : (Table.keys entries).Nodup)
    (hread : ∀ e ∈ entries, ReadBy expr e.2)
    (hfirst : ∀ e ∈ entries, FirstIs Token.begins e.2.lexemes)
    (hs : s.rest = located here (Value.compound entries).lexemes ++ u :: ts) :
    Runs (compound expr) s (u :: ts) (ReadAs (.compound entries)) := by
  obtain ⟨span, span', here', hlocated, -⟩ := located_enclosed here .lbrace .rbrace
    (commas (entries.map Value.entryLexemes)) (u :: ts)
  rw [Value.lexemes, Value.lexemesEntries_eq_map, braced, hlocated] at hs
  refine Runs.expect hs (by simp) fun s₁ hs₁ => Runs.step rfl rfl ?_
  have hn : entries.length ≤ s₁.rest.length := by
    have hkey : ∀ e ∈ entries, FirstIs (fun _ => true) (Value.entryLexemes e) := fun e _ =>
      Value.firstIs_entry e
    have := length_le_located (List.forall_mem_map.mpr hkey) here' ⟨.mark .rbrace, span'⟩ (u :: ts)
    rwa [List.length_map, ← hs₁] at this
  refine (runs_compoundEntries hread hfirst hn hs₁).bind fun es s₂ hs₂ hes => ?_
  refine Runs.step (skipNewlines_ok (by rw [peek_of_rest hs₂]; rfl)) rfl ?_
  refine Runs.expect hs₂ (List.cons_ne_nil _ _) fun s₃ hs₃ => .pure hs₃ ⟨?_, rfl⟩
  rw [Expr.constant?, hes, Option.map_some, Table.ofPairs_of_nodup hkeys]

end Nested

/-! ## Values -/

/-- Whether an operand without a sign can begin with the token. -/
def beginsPrimary (t : Token) : Bool := !(t.isMark .minus || t.isMark .bang || t.isMark .dotDot)

theorem readBy_of_primary {v : Value} {n : Nat} (hfirst : FirstIs beginsPrimary v.lexemes)
    (h : ∀ ⦃s : Parsing⦄ ⦃here : Nat⦄ ⦃u : Located⦄ ⦃ts : List Located⦄,
      s.rest = located here v.lexemes ++ u :: ts → endsValue u.token = true →
      Runs (primary (expressionWithin n)) s (u :: ts) (ReadAs v)) :
    ReadBy (expressionWithin (n + 1)) v := by
  intro s here u ts hs hu
  have hoperand := endsOperand_of_endsValue hu
  have hpeek := peek_of_firstIs hfirst hs
  have hfactor := runs_factor (h hs hu) hoperand
    ⟨isMark_of_class hpeek rfl, isMark_of_class hpeek rfl⟩
  have hranged := runs_ranged (runs_sum hfactor hoperand) hu (isMark_of_class hpeek rfl)
  exact runs_expressionWithin hranged hu

/-- A value that is one token of its own. -/
theorem readBy_of_token {v : Value} {l : Lexeme} {t : Token} (hv : v.lexemes = [l])
    (ht : l.token = some t) (hfirst : beginsPrimary t = true) {n : Nat}
    (hprimary : ∀ {s : Parsing} {rest : List Located}, s.peek = t →
      Runs (advance >>= fun _ => pure (.ofValue v s.here)) s rest (ReadAs v) →
      Runs (primary (expressionWithin n)) s rest (ReadAs v)) :
    ReadBy (expressionWithin (n + 1)) v := by
  refine readBy_of_primary ⟨l, t, [], hv, ht, hfirst⟩ fun s here u ts hs _ => ?_
  rw [hv, located_cons_token ht] at hs
  refine hprimary (peek_of_rest hs) (Runs.advance hs (List.cons_ne_nil _ _) fun s₁ hs₁ _ => ?_)
  exact .pure hs₁ (readAs_ofValue v s.here)

theorem runs_resource {expr : Parse Expr} {id : ResourceId}
    (hid : ResourceId.ofText id.text = id) {s : Parsing} {here : Nat} {u : Located}
    {ts : List Located} (hs : s.rest = located here (Value.resource id).lexemes ++ u :: ts)
    (hu : endsValue u.token = true) :
    Runs (primary expr) s (u :: ts) (ReadAs (.resource id)) := by
  rw [Value.lexemes, located_cons_token rfl] at hs
  refine Runs.step rfl rfl (Runs.step rfl rfl ?_)
  rw [peek_of_rest hs]
  refine Runs.advance hs (List.cons_ne_nil _ _) fun s₁ hs₁ _ => Runs.step rfl rfl ?_
  rw [peek_of_rest hs₁, isMark_of_class hu rfl, if_neg Bool.false_ne_true]
  refine Runs.step rfl rfl (Runs.step rfl rfl ?_)
  rw [peek_of_rest hs₁, isMark_of_class hu rfl, Bool.false_and, if_neg Bool.false_ne_true, hid]
  exact .pure hs₁ (readAs_ofValue _ _)

/-- The data of an item begin where its id ends. -/
theorem runs_item {expr : Parse Expr} {id : ResourceId} {entries : List (String × Value)}
    (hid : ResourceId.ofText id.text = id) (hkeys : (Table.keys entries).Nodup)
    (hread : ∀ e ∈ entries, ReadBy expr e.2)
    (hfirst : ∀ e ∈ entries, FirstIs Token.begins e.2.lexemes) {s : Parsing} {here : Nat}
    {u : Located} {ts : List Located}
    (hs : s.rest = located here (Value.item id (some entries)).lexemes ++ u :: ts) :
    Runs (primary expr) s (u :: ts) (ReadAs (.item id (some entries))) := by
  rw [Value.lexemes, located_cons_token rfl, List.cons_append] at hs
  refine Runs.step rfl rfl (Runs.step rfl rfl ?_)
  rw [peek_of_rest hs]
  refine Runs.advance hs (by simp) fun s₁ hs₁ hlast => Runs.step rfl rfl ?_
  obtain ⟨span, span', here', hlocated, hstart⟩ := located_enclosed
    (here + Text.size (Lexeme.resource id.text).text) .lbrace .rbrace
    (commas (Value.lexemesEntries entries)) (u :: ts)
  have hbrace := hs₁.trans hlocated
  have hadjacent : s₁.adjacent = true := by
    rw [Parsing.adjacent, here_of_rest hbrace, hlast, hstart]
    exact decide_eq_true rfl
  have hparen : s₁.peek.isMark .lparen = false := by
    rw [peek_of_rest hbrace]
    rfl
  rw [hparen, if_neg Bool.false_ne_true]
  refine Runs.step rfl rfl (Runs.step rfl rfl ?_)
  rw [isMark_peek hbrace, hadjacent, Bool.true_and, if_pos rfl, hid]
  refine (runs_compound hkeys hread hfirst hs₁).bind fun data s₂ hs₂ hdata => ?_
  dsimp only
  rw [hdata.1]
  exact .pure hs₂ (readAs_ofValue _ _)

end Parse

open Parse

/-! ## Fuel -/

namespace Lexeme

/-- The number of tokens of lexemes. -/
def count (ls : List Lexeme) : Nat := (ls.filterMap (·.token)).length

theorem length_located (here : Nat) (ls : List Lexeme) : (located here ls).length = count ls := by
  unfold count
  induction ls generalizing here with
  | nil => rfl
  | cons l ls ih =>
    cases ht : l.token with
    | none => rw [located_cons_blank ht, List.filterMap_cons_none ht, ih]
    | some t =>
      rw [located_cons_token ht, List.filterMap_cons_some ht, List.length_cons, List.length_cons,
        ih]

@[simp] theorem count_append (ls ls' : List Lexeme) : count (ls ++ ls') = count ls + count ls' := by
  rw [count, List.filterMap_append, List.length_append]
  rfl

theorem count_enclosed (l r : Mark) (ls : List Lexeme) :
    count (mark l :: ls ++ [mark r]) = count ls + 2 := by
  rw [count_append]
  rfl

theorem FirstIs.count_pos {p : Token → Bool} {ls : List Lexeme} (h : FirstIs p ls) :
    0 < count ls := by
  obtain ⟨l, t, ls', rfl, ht, -⟩ := h
  rw [count, List.filterMap_cons_some ht, List.length_cons]
  exact Nat.succ_pos _

theorem count_le_commas {part : List Lexeme} {parts : List (List Lexeme)} (h : part ∈ parts) :
    count part ≤ count (commas parts) := by
  unfold commas
  induction parts with
  | nil => cases h
  | cons p parts ih =>
    cases parts with
    | nil => rw [List.intercalate_singleton, List.mem_singleton.mp h]
    | cons q parts =>
      rw [List.intercalate_cons_cons, count_append, count_append]
      rcases List.mem_cons.mp h with rfl | h
      · omega
      · have := ih h
        omega

end Lexeme

namespace Value

theorem count_lt_list {items : List Value} {v : Value} (hv : v ∈ items) :
    count v.lexemes < count (list items).lexemes := by
  have hle := count_le_commas (List.mem_map_of_mem (f := lexemes) hv)
  rw [lexemes, lexemesAll_eq_map, count_enclosed]
  omega

theorem count_lt_compound {entries : List (String × Value)} {e : String × Value}
    (he : e ∈ entries) : count e.2.lexemes < count (compound entries).lexemes := by
  have hle := count_le_commas (List.mem_map_of_mem (f := entryLexemes) he)
  have hentry : count e.2.lexemes ≤ count (entryLexemes e) := by
    show count e.2.lexemes ≤ count ([.key e.1, .mark .colon, .blank] ++ e.2.lexemes)
    rw [count_append]
    exact Nat.le_add_left _ _
  rw [lexemes, lexemesEntries_eq_map, Lexeme.braced, count_enclosed]
  omega

theorem count_item (id : ResourceId) (entries : List (String × Value)) :
    count (item id (some entries)).lexemes = count (compound entries).lexemes + 1 := rfl

/-- **Values are read**: with enough fuel for its tokens, a value is read from them. -/
theorem Writable.readBy {v : Value} (h : v.Writable) {n : Nat} (hn : count v.lexemes ≤ n + 1) :
    ReadBy (expressionWithin (n + 1)) v := by
  -- what is inside brackets has fewer tokens, and at least one
  have hinner : ∀ {w : Value} {n : Nat}, w.Writable → count w.lexemes < n + 1 →
      (∀ {n : Nat}, count w.lexemes ≤ n + 1 → ReadBy (expressionWithin (n + 1)) w) →
      ReadBy (expressionWithin n) w := by
    intro w n hw hlt hread
    cases n with
    | zero => exact absurd hw.firstIs.count_pos (by omega)
    | succ n => exact hread (by omega)
  induction h generalizing n with
  | integer _ =>
    intro s here u ts hs hu
    have hpeek := peek_of_firstIs (Word.firstIs_lexemes _) hs
    exact runs_expressionWithin (runs_ranged (runs_word hs (endsOperand_of_endsValue hu)) hu
      (isMark_of_class hpeek rfl)) hu
  | range hbound =>
    intro s here u ts hs hu
    exact runs_expressionWithin (runs_range hbound hs hu) hu
  | @string x _ =>
    refine readBy_of_token (t := .string x) rfl rfl rfl fun hpeek h => ?_
    refine Runs.step rfl rfl (Runs.step rfl rfl ?_)
    rw [hpeek]
    exact h
  | bool b =>
    refine readBy_of_token (t := .keyword (if b then .trueKw else .falseKw)) rfl rfl rfl ?_
    intro s rest hpeek h
    refine Runs.step rfl rfl (Runs.step rfl rfl ?_)
    rw [hpeek]
    cases b <;> exact h
  | @selector x _ hread =>
    refine readBy_of_token (t := .selector x.text) rfl rfl rfl fun hpeek h => ?_
    refine Runs.step rfl rfl (Runs.step rfl rfl ?_)
    rw [hpeek]
    dsimp only
    rw [hread]
    exact h
  | resource _ hread =>
    exact readBy_of_primary ⟨_, _, _, rfl, rfl, rfl⟩ fun _ _ _ _ hs hu => runs_resource hread hs hu
  | item _ hread hkeys _ hentries ih =>
    refine readBy_of_primary ⟨_, _, _, rfl, rfl, rfl⟩ fun _ _ _ _ hs _ => ?_
    refine runs_item hread hkeys (fun e he => ?_) (fun e he => (hentries e he).firstIs) hs
    have hlt := count_lt_compound he
    rw [count_item] at hn
    exact hinner (hentries e he) (by omega) (ih e he)
  | @list items hitems hkinds ih =>
    refine readBy_of_primary ⟨_, _, _, rfl, rfl, rfl⟩ fun s here u ts hs _ => ?_
    refine runs_list (fun v hv => ?_) (fun v hv => (hitems v hv).firstIs) hkinds hs
    have hlt := count_lt_list hv
    exact hinner (hitems v hv) (by omega) (ih v hv)
  | compound hkeys _ hentries ih =>
    refine readBy_of_primary ⟨_, _, _, rfl, rfl, rfl⟩ fun s here u ts hs _ => ?_
    have hpeek : s.peek = .mark .lbrace := by
      rw [lexemes, Lexeme.braced, List.cons_append, located_cons_token rfl] at hs
      exact peek_of_rest hs
    refine Runs.step rfl rfl (Runs.step rfl rfl ?_)
    rw [hpeek]
    refine runs_compound hkeys (fun e he => ?_) (fun e he => (hentries e he).firstIs) hs
    have hlt := count_lt_compound he
    exact hinner (hentries e he) (by omega) (ih e he)

end Value

end Packwright
