import Packwright.Proofs.Parsing.Expressions
import Packwright.Tree.Statement

/-!
# Reading statements

Every reader of statements goes forward, gives statements that are made between the state in front
of it and the state behind it, and is not ended by its bounds.  A statement that cannot be read is
reported, and reading goes on behind its line.

* `does_varStatement`, `does_letStatement`, …: the statements with no others inside.
* `Steps tokens n j k p q`: readers of statements nested at most `j` or `k` deep.
* `reads_guardedStatement`, `reads_statements`: a statement that cannot be read is reported.
* `steps_statementWithin`, `scriptBody_made`: all statements, and scripts.
* `parseScript_made`: every script is made as the grammar says.
-/

namespace Packwright

/-- Statements end in front of the current token, a closing brace or the end. -/
def Parsing.AtStop (s : Parsing) : Prop := (s.peek.isMark .rbrace || s.peek.isEnd) = true

/-- The place since a token ends where the last one does. -/
theorem Reads.sinceStart {β : Type} {tokens : List Located} {A : Manner} {s : Parsing}
    {start : Span} {f g : Span → Parse β} {Q : β → Parsing → Prop}
    (h : Reads tokens A s (f (start.merge s.last)) (g (start.merge s.last)) Q) :
    Reads tokens A s (Parse.sinceStart start >>= f) (Parse.sinceStart start >>= g) Q := h

namespace Parse

open Parsing

variable {tokens : List Located} {A : Manner} {s s₀ s₁ : Parsing}

/-! ## Types -/

theorem ofName?_ne_error {s : String} {k : Kind} (h : Kind.ofName? s = some k) : k ≠ .error := by
  have hmem := List.mem_of_find?_eq_some h
  rintro rfl
  revert hmem
  decide

theorem does_kindNamed {name : Declared} (hname : name.Read tokens) :
    Does tokens .plain s (kindNamed name) fun k _ => k ≠ .error := by
  unfold kindNamed
  split
  · rename_i k hk
    exact .pure (ofName?_ne_error hk)
  · exact .throw rfl hname.spot

theorem does_listLength : Does tokens .plain s listLength fun _ _ => True := by
  refine .eat rfl (fun _ => .peek ?_) (.pure trivial)
  split
  · rename_i hpeek
    exact .advance (hpeek ▸ rfl) fun _ => .pure trivial
  · exact .failExpecting _

/-- Types that are written out are types. -/
theorem does_declaredType : Does tokens .plain s declaredType fun ty _ => ty.isError = false := by
  have hplain : ∀ {k : Kind}, k ≠ .error → (Ty.plain k).isError = false := fun hk =>
    decide_eq_false hk
  refine .expectName fun x _ hx hspot => .get (.ite (fun _ => .pure rfl) fun _ => ?_)
  refine (does_kindNamed ⟨hx, hspot⟩).bind fun k _ _ hk => ?_
  refine .ite (fun _ => .pure (hplain hk)) fun _ => .eat rfl (fun _ => ?_) (.pure (hplain hk))
  refine .expectName fun y _ hy hspot' => (does_kindNamed ⟨hy, hspot'⟩).bind fun k' _ _ _ => ?_
  exact does_listLength.bind fun _ _ _ _ => .expect rfl fun _ _ => .pure rfl

/-! ## Declarations -/

theorem does_variableType : Does tokens .plain s variableType fun _ _ => True := by
  refine .eat rfl (fun _ => ?_) (.pure trivial)
  refine .given fun h₁ => .here (does_declaredType.bind fun ty s₂ _ _ => .given fun h₂ => ?_)
  refine .ite (fun _ => ?_) fun _ => .pure trivial
  exact .sinceStart (.complain (f := pure) (g := pure) rfl (.merge h₁.here h₂.last)
    fun _ _ => .pure trivial)

theorem does_assignment {target : Ty} (htarget : target.kind = .score) (op : BinaryOp)
    {value : Expr} (he : value.Made tokens false s₀ s) {opSpan : Span}
    (hspot : Spot tokens opSpan) :
    Does tokens .plain s (assignment target op value opSpan) fun r s' =>
      Storing tokens op s₀ s' r.1 r.2 := by
  have hscore : target.isError = false := by
    rw [Ty.isError, htarget]
    rfl
  unfold assignment
  rw [hscore, htarget]
  refine .ite (fun herror => .pure (.failed he (.inl herror))) fun _ => ?_
  split
  · rename_i o c hres
    exact .pure (.resolved he hres)
  · exact .complain rfl hspot fun hmoves hfault => .pure (.failed (he.back hmoves) (.inr hfault))

section Leaves

variable (hplain : s.peek.isPlain = true)

include hplain

/-- **Variables** are declared behind their values. -/
theorem does_varStatement :
    Does tokens .leaf s varStatement fun t s' => t.Leaf tokens s s' := by
  refine .advance hplain fun hspot => .expectName fun x hpeek hx hspot' => ?_
  have hname : s.advance.Moves tokens s.advance.advance := .take (hpeek ▸ rfl)
  -- the declaration, behind the value
  have hrest : ∀ {s₁ : Parsing} {value : Option Expr} {operation : Option Operation},
      Stmt.Leaf tokens s (.var (s.here.merge s₁.last) ⟨x, s.advance.here⟩ value operation)
        (s₁.declare x (.plain .score)) → Does tokens .leaf s₁ (do
          modify (·.declare x (.plain .score))
          return Stmt.var (← sinceStart s.here) ⟨x, s.advance.here⟩ value operation) fun t s' =>
            Stmt.Leaf tokens s t s' := by
    intro s₁ value operation hvar
    refine .modify (.declare trivial _ _) (.sinceStart ?_)
    rw [last_declare]
    exact .pure hvar
  refine does_variableType.bind fun _ s₁ hmoves _ => .isAt (.ite (fun hat => ?_) fun _ => ?_)
  · have heq : s₁.peek.isPlain = true := Token.eq_of_isMark hat ▸ rfl
    refine .advance heq fun hopSpan => does_expression.bind fun e s₂ _ he => ?_
    have hvalue := he.front (.trans (.trans hname hmoves) (.take heq))
    refine (does_assignment rfl .assign hvalue hopSpan).bind fun r s₃ _ hr => ?_
    exact hrest (.var hplain ⟨hx, hspot'⟩ hr)
  · exact hrest (.varPlain hplain ⟨hx, hspot'⟩ (.trans hname hmoves))

/-- **Constants** are declared behind their values, with the type that is written out or that of the
value. -/
theorem does_letStatement :
    Does tokens .leaf s letStatement fun t s' => t.Leaf tokens s s' := by
  refine .advance hplain fun hspot => .expectName fun x hpeek hx hspot' => ?_
  have hname : s.advance.Moves tokens s.advance.advance := .take (hpeek ▸ rfl)
  refine .eat rfl (fun hcolon => ?_) ?_
  · rw [bind_map_left]
    refine does_declaredType.bind fun ty s₁ hmoves hty => .expect rfl fun heq _ => ?_
    refine does_expression.bind fun e s₂ _ he => ?_
    have hvalue := he.front (.trans hname (.trans (.take (hcolon ▸ rfl))
      (.trans hmoves (.take (heq ▸ rfl)))))
    refine (does_coerce ty hvalue).bind fun e' s₃ hmoves' he' => ?_
    refine .modify (.declare trivial _ _) (.pure ?_)
    exact .letTyped hplain ⟨hx, hspot'⟩ (he'.1.back hmoves') hty (he'.2 hty)
  · refine .expect rfl fun heq _ => does_expression.bind fun e s₂ _ he => ?_
    refine .modify (.declare trivial _ _) (.pure ?_)
    exact .letPlain hplain ⟨hx, hspot'⟩ (he.front (.trans hname (.take (heq ▸ rfl))))

omit hplain in
/-- With as many rounds as tokens are left, the variants are read up to the closing brace. -/
theorem reads_variants {j k : Nat} (hrounds : s.Bounds j k) :
    Reads tokens .plain s (variants j) (variants k) fun _ s' =>
      Ended s.rest → s.rest.length ≤ j → s'.peek = .mark .rbrace := by
  refine rounds (R := fun j k s => Reads tokens .plain s (variants j) (variants k) fun _ s' =>
    Ended s.rest → s.rest.length ≤ j → s'.peek = .mark .rbrace) ?_ ?_ hrounds
  · exact fun s => .pure fun hs hnone => absurd hs.length_pos (Nat.not_lt.mpr hnone)
  · intro j k s ih
    rw [variants, variants]
    have hskip : s.Moves tokens (s.skipWhile fun t => t.isNewline || t.isMark .comma) := by
      refine .skipWhile (fun t ht => ?_) s
      rcases Bool.or_eq_true_iff.mp ht with ht | ht
      · exact Token.isPlain_of_isNewline ht
      · exact Token.eq_of_isMark ht ▸ rfl
    refine .modify hskip (.isAt (.ite (fun hat => ?_) fun _ => ?_))
    · exact .pure fun _ _ => Token.eq_of_isMark hat
    refine .expectName fun x hpeek hx _ => ?_
    have hate := (ate_of_isPlain (hpeek ▸ rfl) (.refl _)).behind hskip.takes
    have htakes := hskip.takes.trans (takes_advance _)
    refine (ih _ htakes hate).bind fun names s₁ _ hnames => .pure fun hs hj => ?_
    exact hnames (htakes.ended hs) (hate.length_le hs hj)

theorem does_enumStatement :
    Does tokens .leaf s enumStatement fun t s' => t.Leaf tokens s s' := by
  refine .advance hplain fun hspot => .expectName fun x hpeek hx hspot' => .skipNewlines ?_
  have hname : s.advance.Moves tokens s.advance.advance := .take (hpeek ▸ rfl)
  refine .openBrace fun hopen _ => .left ?_
  refine .bind hopen (reads_variants (.refl _ _)) fun names s₁ hmoves hnames => ?_
  have hclose := fun hs => hnames ((takes_advance _).ended hs) (Nat.le_refl _)
  refine .advance hopen hclose fun _ => .modify (.enum trivial _) (.pure ?_)
  exact .enum hplain ⟨hx, hspot'⟩ (.trans hname (.skipNewlines _)) hopen hmoves hclose

/-! ## Commands -/

omit hplain in
/-- An operand of an expected type, and what is read behind it. -/
theorem reads_operand {α : Type} {f : Expr → Parse α} {Q : α → Parsing → Prop} (expected : Ty)
    (hf : ∀ e s₁, e.Made tokens true s s₁ → Does tokens A s₁ (f e) Q) :
    Does tokens A s (do f (← coerce (← expression) expected)) Q :=
  does_expression.bind fun _ _ _ he => (does_coerce expected he).bind fun e' s₂ hmoves he' =>
    hf e' s₂ (he'.1.back hmoves)

omit hplain in
theorem does_operand (expected : Ty) :
    Does tokens .plain s (do coerce (← expression) expected) fun e s' => e.Made tokens true s s' :=
  does_expression.bind fun _ _ _ he => (does_coerce expected he).moves.mono fun _ _ h =>
    h.2.1.back h.1

omit hplain in
theorem does_selectorOperand :
    Does tokens .plain s selectorOperand fun e s' => e.Made tokens true s s' :=
  does_operand _

omit hplain in
theorem does_optionalOperand {p : Parse Expr}
    (hp : Does tokens .plain s p fun e s' => e.Made tokens true s s') :
    Does tokens .plain s (optionalOperand p) fun r s' => ∀ e ∈ r.toList, e.Made tokens true s s' :=
  .peek (.ite (fun _ => .pure (List.forall_mem_nil _)) fun _ => hp.map fun _ _ he =>
    List.forall_mem_singleton.mpr he)

omit hplain in
theorem reads_moreParts {j k : Nat} (hrounds : s.Bounds j k) :
    Reads tokens .plain s (moreParts j) (moreParts k) fun es s' =>
      ∀ e ∈ es, e.Made tokens true s s' := by
  refine rounds (R := fun j k s => Reads tokens .plain s (moreParts j) (moreParts k) fun es s' =>
    ∀ e ∈ es, e.Made tokens true s s') ?_ ?_ hrounds
  · exact fun _ => .pure (List.forall_mem_nil _)
  · intro j k s ih
    rw [moreParts, moreParts]
    refine .eat rfl (fun hcomma => ?_) (.pure (List.forall_mem_nil _))
    refine does_expression.bind fun e s₁ _ he => ?_
    replace he := he.front (.take (hcomma ▸ rfl))
    refine (ih s₁ he.moves.takes he.ate).bind fun es s₂ hmoves hes => .pure ?_
    exact List.forall_mem_cons.mpr
      ⟨he.operand.back hmoves, fun e' he' => (hes e' he').front he.moves⟩

omit hplain in
theorem does_tagName : Does tokens .plain s tagName fun _ _ => True := by
  refine .peek ?_
  split <;> rename_i hpeek
  · exact .advance (hpeek ▸ rfl) fun _ => .pure trivial
  · exact .advance (hpeek ▸ rfl) fun _ => .pure trivial
  · exact .failExpecting _

/-- The end of a command, behind its operands. -/
theorem does_command {c : Command} (hmoves : s.advance.Moves tokens s₁)
    (hc : ∀ e ∈ c.operands, e.Made tokens true s.advance s₁) :
    Does tokens .leaf s₁ (do return Stmt.command (← sinceStart s.here) c) fun t s' =>
      Stmt.Leaf tokens s t s' :=
  .sinceStart (.pure (.command hplain hmoves hc))

theorem does_sayStatement : Does tokens .leaf s sayStatement fun t s' => t.Leaf tokens s s' :=
  .advance hplain fun _ => does_expression.bind fun _ _ hmoves he =>
    does_command hplain hmoves (List.forall_mem_singleton.mpr he.operand)

theorem does_tellrawStatement :
    Does tokens .leaf s tellrawStatement fun t s' => t.Leaf tokens s s' := by
  refine .advance hplain fun _ => does_selectorOperand.bind fun target s₁ h₁ htarget => ?_
  refine does_expression.bind fun first s₂ h₂ hfirst => .left ?_
  refine (reads_moreParts (.refl _ _)).bind fun parts s₃ h₃ hparts => ?_
  have h₁₂ := Passage.trans h₁ h₂
  refine does_command hplain (.trans h₁₂ h₃) (List.forall_mem_cons.mpr ⟨?_, ?_⟩)
  · exact htarget.back (.trans h₂ h₃)
  · refine List.forall_mem_cons.mpr ⟨.widen h₁ hfirst.operand h₃, fun e he => ?_⟩
    exact (hparts e he).front h₁₂

theorem does_giveStatement : Does tokens .leaf s giveStatement fun t s' => t.Leaf tokens s s' := by
  refine .advance hplain fun _ => does_selectorOperand.bind fun target s₁ h₁ htarget => ?_
  refine reads_operand _ fun item s₂ hitem => ?_
  refine (does_optionalOperand (does_operand _)).bind fun count s₃ h₃ hcount => ?_
  have h₁₂ := Passage.trans h₁ hitem.moves
  refine does_command hplain (.trans h₁₂ h₃) (List.forall_mem_cons.mpr ⟨?_, ?_⟩)
  · exact htarget.back (.trans hitem.moves h₃)
  · exact List.forall_mem_cons.mpr ⟨.widen h₁ hitem h₃, fun e he => (hcount e he).front h₁₂⟩

theorem does_tagStatement : Does tokens .leaf s tagStatement fun t s' => t.Leaf tokens s s' := by
  refine .advance hplain fun _ => does_selectorOperand.bind fun target s₁ h₁ htarget => ?_
  refine .expectName fun x hpeek _ hspot => .ite (fun _ => .throwThen rfl hspot _ _) fun _ => ?_
  refine does_tagName.bind fun name s₂ h₂ _ => ?_
  have hback : s₁.Moves tokens s₂ := .trans (.take (hpeek ▸ rfl)) h₂
  exact does_command hplain (.trans h₁ hback) (List.forall_mem_singleton.mpr (htarget.back hback))

theorem does_killStatement : Does tokens .leaf s killStatement fun t s' => t.Leaf tokens s s' :=
  .advance hplain fun _ => (does_optionalOperand does_selectorOperand).bind
    fun _ _ hmoves htarget => does_command hplain hmoves htarget

theorem does_summonStatement :
    Does tokens .leaf s summonStatement fun t s' => t.Leaf tokens s s' := by
  refine .advance hplain fun _ => reads_operand _ fun entity s₁ hentity => ?_
  refine (does_optionalOperand (does_operand _)).bind fun data s₂ h₂ hdata => ?_
  refine does_command hplain (.trans hentity.moves h₂) (List.forall_mem_cons.mpr ⟨?_, ?_⟩)
  · exact hentity.back h₂
  · exact fun e he => (hdata e he).front hentity.moves

theorem does_rawStatement : Does tokens .leaf s rawStatement fun t s' => t.Leaf tokens s s' :=
  .advance hplain fun _ => reads_operand _ fun _ _ he =>
    does_command hplain he.moves (List.forall_mem_singleton.mpr he)

theorem does_returnStatement :
    Does tokens .leaf s (do return Stmt.return (← advance)) fun t s' => Stmt.Leaf tokens s t s' :=
  .advance hplain fun _ => .pure (.return hplain)

end Leaves

theorem isPlain_of_assignmentOp? {t : Token} {op : BinaryOp} (h : assignmentOp? t = some op) :
    t.isPlain = true := by
  unfold assignmentOp? at h
  split at h <;> first | rfl | cases h

/-- **Assignments**: the value is resolved for a score, other targets are left for the check. -/
theorem does_expressionStatement :
    Does tokens .leaf s expressionStatement fun t s' => t.Leaf tokens s s' := by
  refine does_expression.bind fun target s₁ _ htarget => .peek ?_
  split
  · exact .pure (.expr htarget)
  · rename_i op hop
    have hplain := isPlain_of_assignmentOp? hop
    refine .advance hplain fun hopSpan => does_expression.bind fun e s₂ h₂ he => ?_
    have hback : s₁.Moves tokens s₂ := .trans (.take hplain) h₂
    have hvalue := he.front (.trans htarget.moves (.take hplain))
    refine .ite (fun hkind => ?_) fun hkind => ?_
    · refine (does_assignment hkind op hvalue hopSpan).bind fun r s₃ h₃ hr => ?_
      exact .pure (.assign (htarget.back (.trans hback h₃)) hkind hr)
    · exact .pure (.misassign (htarget.back hback) hkind hvalue)

/-! ## Bodies -/

/-- The places of annotations are those of tokens. -/
theorem reads_annotations {j k : Nat} (hrounds : s.Bounds j k) :
    Reads tokens .plain s (annotations j) (annotations k) fun notes _ =>
      ∀ a ∈ notes, Spot tokens a.span := by
  refine rounds (R := fun j k s => Reads tokens .plain s (annotations j) (annotations k)
    fun notes _ => ∀ a ∈ notes, Spot tokens a.span) ?_ ?_ hrounds
  · exact fun _ => .pure (List.forall_mem_nil _)
  · intro j k s ih
    rw [annotations, annotations]
    refine .peek ?_
    split
    · rename_i hpeek
      have hplain : s.peek.isPlain = true := hpeek ▸ rfl
      refine .advance hplain fun hspot => .skipNewlines ?_
      have hmore : s.advance.Moves tokens _ := .skipNewlines s.advance
      refine (ih _ ((takes_advance s).trans hmore.takes) (ate_of_isPlain hplain hmore.takes)).bind
        fun notes _ _ hnotes => .pure (List.forall_mem_cons.mpr ⟨hspot, hnotes⟩)
    · exact .pure (List.forall_mem_nil _)

theorem isPlain_of_separates {t : Token} (h : separates t = true) : t.isPlain = true := by
  unfold separates at h
  split at h
  · rfl
  · exact Token.eq_of_isMark h ▸ rfl

theorem finishStatement_moves (hs : s.At tokens) : s.Moves tokens (finishStatement s) := by
  unfold finishStatement
  split
  · exact .skipWhile (fun _ => isPlain_of_separates) s
  · split
    · exact .stay
    · exact .trans (.complain rfl hs.here) .recover

/-- Both readers read the same statement, wherever so many levels of nesting lead to the same. -/
def Steps (tokens : List Located) (n : Bool) (j k : Nat) (p q : Parse Stmt) : Prop :=
  ∀ ⦃s : Parsing⦄, s.Bounds j k → Reads tokens .block s p q fun t s' => BodyMade tokens n s [t] s'

section Bodies

variable {n : Bool} {J K : Nat} {read read' : Parse Stmt} (hread : Steps tokens n J K read read')

include hread

/-- **Recovery**: a statement that cannot be read is reported. -/
theorem reads_guardedStatement (hdepth : s.Bounds J K) (hstop : ¬ s.AtStop) :
    Reads tokens .block s (guardedStatement read) (guardedStatement read') fun t s' =>
      BodyMade tokens n s [t] s' := by
  intro hs
  have hsuggest : s.Moves tokens
      (s.suggest s.here (statementKeywords.map Keyword.text ++ s.visibleNames)) :=
    .suggest hs.here _
  obtain ⟨hsame, hrun⟩ := hread (hdepth.takes hsuggest.takes) (hsuggest.at_tokens hs)
  unfold guardedStatement
  simp only [hsame]
  refine ⟨trivial, ?_⟩
  split at hrun
  · rename_i t s₁ heq
    have hfinish := finishStatement_moves (hrun.1.at_tokens (hsuggest.at_tokens hs))
    have hmade := (hrun.2.front hsuggest).back hfinish
    rw [heq]
    exact ⟨hmade.passage, hmade⟩
  · rename_i d s₁ heq
    simp only [AtStop, Bool.or_eq_true, not_or, Bool.not_eq_true] at hstop
    have hmade := BodyMade.error (n := n) hstop.1 hstop.2 (.trans hsuggest.lift hrun)
    rw [heq]
    exact ⟨hmade.passage, hmade⟩

/-- With as many rounds as tokens are left, statements are read up to a closing brace or the end. -/
theorem reads_statements {j k : Nat} (hrounds : s.Bounds j k) (hdepth : s.Bounds J K) :
    Reads tokens .block s (statements read j) (statements read' k) fun ts s' =>
      BodyMade tokens n s ts s' ∧ (Ended s.rest → s.rest.length ≤ j → s'.AtStop) := by
  refine rounds (R := fun j k s => s.Bounds J K → Reads tokens .block s (statements read j)
    (statements read' k) fun ts s' => BodyMade tokens n s ts s' ∧
      (Ended s.rest → s.rest.length ≤ j → s'.AtStop)) ?_ ?_ hrounds hdepth
  · exact fun s _ => .pure ⟨.moves .stay, fun hs hnone =>
      absurd hs.length_pos (Nat.not_lt.mpr hnone)⟩
  · intro j k s ih hdepth
    rw [statements, statements]
    have hskip : s.Moves tokens (s.skipWhile separates) :=
      .skipWhile (fun _ => isPlain_of_separates) s
    refine .modify hskip.lift (.peek (.ite (fun hstop => ?_) fun hstop => ?_))
    · exact .pure ⟨.moves hskip, fun _ _ => hstop⟩
    · refine (reads_guardedStatement hread (hdepth.takes hskip.takes) hstop).andThen
        fun t s₁ _ ht => ?_
      replace ht := ht.front hskip
      have hate := ht.ate (List.cons_ne_nil _ _)
      refine (ih s₁ ht.takes hate (hdepth.takes ht.takes)).andThen fun ts s₂ _ hts => ?_
      refine .pure ⟨.append ht hts.1, fun hs hj => ?_⟩
      exact hts.2 (ht.takes.ended hs) (hate.length_le hs hj)

end Bodies

/-! ## Statements with others inside -/

section Nested

variable {J K : Nat} {inner inner' : Setting → Parse Stmt}
  (hinner : ∀ setting, Steps tokens setting.nested J K (inner setting) (inner' setting))

include hinner

theorem reads_blockBody (hdepth : s.peek = .mark .lbrace → s.advance.Bounds J K) :
    Reads tokens .block s (blockBody inner) (blockBody inner') fun r s' =>
      ∃ u, s.peek = .mark .lbrace ∧ BodyMade tokens true s.advance.enterScope r.1 u ∧
        u.peek = .mark .rbrace ∧ r.2 = s.here.merge u.here ∧ s' = u.leaveScope.advance := by
  refine .openBrace fun hopen _ => ?_
  have hbody := Reads.inScope (.left (reads_statements (hinner { nested := true })
    (s := s.advance.enterScope) (.refl _ _) (hdepth hopen)))
  refine .andThen hopen hbody fun body s₁ _ hbody => .close hopen fun hclose _ => ?_
  obtain ⟨-, u, ⟨hu, -⟩, rfl⟩ := hbody
  exact .pure ⟨u, hopen, hu, hclose, rfl, rfl⟩

theorem reads_block (hdepth : s.peek = .mark .lbrace → s.advance.Bounds J K) :
    Reads tokens .block s (block inner) (block inner') fun t s' =>
      (∀ n, BodyMade tokens n s [t] s') ∧ s'.scopes = s.scopes := by
  refine (reads_blockBody hinner hdepth).andThen fun r s' _ hr => .pure ?_
  obtain ⟨u, hopen, hbody, hclose, hspan, rfl⟩ := hr
  rw [hspan]
  exact ⟨fun n => .block hopen hbody hclose, hbody.scopes⟩

/-- What a condition, a loop or a context governs. -/
theorem reads_branch (hdepth : s.Bounds J K) :
    Reads tokens .block s (branch inner) (branch inner') fun t s' =>
      ∃ s₁ u u', s.Moves tokens s₁ ∧ Nests s₁ u u' s' ∧ BodyMade tokens true u [t] u' := by
  have hskip : s.Moves tokens (s.skipWhile Token.isNewline) := .skipNewlines s
  replace hdepth := hdepth.takes hskip.takes
  refine .skipNewlines (.isAt (.ite (fun _ => ?_) fun _ => ?_))
  · refine (reads_block hinner fun _ => hdepth.takes (takes_advance _)).mono fun t s' h => ?_
    exact ⟨_, _, _, hskip, .same h.2, h.1 true⟩
  · have hscope : (s.skipWhile Token.isNewline).enterScope.Bounds J K := hdepth
    refine (Reads.inScope (hinner { nested := true } hscope)).mono fun t s' h => ?_
    obtain ⟨-, u, hu, rfl⟩ := h
    exact ⟨_, _, _, hskip, .scope, hu⟩

variable (hdepth : s.Bounds (J + 1) (K + 1)) (hplain : s.peek.isPlain = true)

include hdepth hplain

theorem reads_ifStatement {n : Bool} :
    Reads tokens .block s (ifStatement inner) (ifStatement inner') fun t s' =>
      BodyMade tokens n s [t] s' := by
  have hinside := hdepth.ate (takes_advance s) (ate_of_isPlain hplain (.refl _))
  refine .advance hplain fun _ => does_expression.bind fun e s₁ h₁ he => ?_
  refine (reads_branch hinner (hinside.takes h₁.takes)).andThen fun t s₂ h₂ ht => .peek ?_
  obtain ⟨v, u, u', hv, hnests, ht⟩ := ht
  replace he := he.back hv
  refine .ite (fun helse => ?_) fun _ => ?_
  · have helse := Token.isPlain_of_isKeyword helse
    refine .advance helse fun _ => ?_
    rw [bind_map_left, bind_map_left]
    have hinside₂ := hinside.takes (h₁.takes.trans (h₂.takes.trans (takes_advance s₂)))
    refine (reads_branch hinner hinside₂).andThen fun t' s₃ _ ht' => .sinceStart (.pure ?_)
    obtain ⟨w, x, x', hw, hnests', ht'⟩ := ht'
    exact .ifElse hplain he hnests ht helse hw hnests' ht'
  · simp only [pure_bind]
    exact .sinceStart (.pure (.ifThen hplain he hnests ht))

theorem reads_whileStatement {n : Bool} :
    Reads tokens .block s (whileStatement inner) (whileStatement inner') fun t s' =>
      BodyMade tokens n s [t] s' := by
  have hinside := hdepth.ate (takes_advance s) (ate_of_isPlain hplain (.refl _))
  refine .advance hplain fun _ => does_expression.bind fun e s₁ h₁ he => ?_
  refine (reads_branch hinner (hinside.takes h₁.takes)).andThen fun t s₂ _ ht => ?_
  obtain ⟨v, u, u', hv, hnests, ht⟩ := ht
  exact .sinceStart (.pure (.while hplain (he.back hv) hnests ht))

theorem reads_contextStatement (kind : ContextKind) {n : Bool} :
    Reads tokens .block s (contextStatement inner kind) (contextStatement inner' kind) fun t s' =>
      BodyMade tokens n s [t] s' := by
  have hinside := hdepth.ate (takes_advance s) (ate_of_isPlain hplain (.refl _))
  refine .advance hplain fun _ => does_selectorOperand.bind fun e s₁ h₁ he => ?_
  refine (reads_branch hinner (hinside.takes h₁.takes)).andThen fun t s₂ _ ht => ?_
  obtain ⟨v, u, u', hv, hnests, ht⟩ := ht
  exact .sinceStart (.pure (.context hplain (he.back hv) hnests ht))

/-- A function inside another statement is refused. -/
theorem reads_functionStatement (setting : Setting)
    (hnotes : ∀ a ∈ setting.annotations, Spot tokens a.span) :
    Reads tokens .block s (functionStatement inner setting) (functionStatement inner' setting)
      fun t s' => BodyMade tokens setting.nested s [t] s' := by
  have hinside := hdepth.ate (takes_advance s) (ate_of_isPlain hplain (.refl _))
  refine .advance hplain fun hspot => .ite (fun _ => .throwThen rfl hspot _ _) fun htop => ?_
  refine .expectName fun x hpeek hx hspot' => .skipNewlines ?_
  have hmoves : s.advance.Moves tokens (s.advance.advance.skipWhile Token.isNewline) :=
    .trans (.take (hpeek ▸ rfl)) (.skipNewlines _)
  have htakes := hmoves.takes.trans (takes_advance _)
  refine (reads_blockBody hinner fun _ => hinside.takes htakes).andThen fun r s' _ hr => .pure ?_
  obtain ⟨u, hopen, hbody, hclose, hspan, rfl⟩ := hr
  rw [hspan, Bool.eq_false_iff.mpr htop]
  exact .function hplain ⟨hx, hspot'⟩ hnotes hmoves hopen hbody hclose

/-- The statement that begins with a keyword, or an expression. -/
theorem reads_keyword (setting : Setting) (hnotes : ∀ a ∈ setting.annotations, Spot tokens a.span)
    (k : Keyword) :
    Reads tokens .block s
      (match keywordStatement? inner setting k with
        | some read => read
        | none => expressionStatement)
      (match keywordStatement? inner' setting k with
        | some read => read
        | none => expressionStatement)
      fun t s' => BodyMade tokens setting.nested s [t] s' := by
  have hleaf : ∀ {p : Parse Stmt}, (Does tokens .leaf s p fun t s' => t.Leaf tokens s s') →
      Does tokens .block s p fun t s' => BodyMade tokens setting.nested s [t] s' := fun h =>
    (h.weaken Manner.leaf_within).mono fun _ _ => .leaf
  cases k with
  | varKw => exact hleaf (does_varStatement hplain)
  | letKw => exact hleaf (does_letStatement hplain)
  | ifKw => exact reads_ifStatement hinner hdepth hplain
  | whileKw => exact reads_whileStatement hinner hdepth hplain
  | functionKw => exact reads_functionStatement hinner hdepth hplain setting hnotes
  | enumKw => exact hleaf (does_enumStatement hplain)
  | asKw => exact reads_contextStatement hinner hdepth hplain .as
  | atKw => exact reads_contextStatement hinner hdepth hplain .at
  | sayKw => exact hleaf (does_sayStatement hplain)
  | tellrawKw => exact hleaf (does_tellrawStatement hplain)
  | giveKw => exact hleaf (does_giveStatement hplain)
  | tagKw => exact hleaf (does_tagStatement hplain)
  | killKw => exact hleaf (does_killStatement hplain)
  | summonKw => exact hleaf (does_summonStatement hplain)
  | cmdKw => exact hleaf (does_rawStatement hplain)
  | returnKw => exact hleaf (does_returnStatement hplain)
  | _ => exact hleaf does_expressionStatement

omit hdepth hplain in
/-- **Statements**, with the annotations in front of them. -/
theorem steps_statement (setting : Setting) :
    Steps tokens setting.nested (J + 1) (K + 1) (statement inner setting)
      (statement inner' setting) := by
  intro s hdepth
  refine .left ((reads_annotations (.refl _ _)).bind fun notes s₁ h₁ hnotes => ?_)
  replace hdepth := hdepth.takes h₁.takes
  extract_lets rest rest'
  have hrest : Reads tokens .block s₁ (rest ()) (rest' ()) fun t s' =>
      BodyMade tokens setting.nested s [t] s' := by
    have hfront : ∀ {p q : Parse Stmt}, (Reads tokens .block s₁ p q fun t s' =>
        BodyMade tokens setting.nested s₁ [t] s') → Reads tokens .block s₁ p q fun t s' =>
          BodyMade tokens setting.nested s [t] s' := fun h => h.mono fun _ _ ht => ht.front h₁
    have hexpr : Does tokens .block s₁ expressionStatement fun t s' =>
        BodyMade tokens setting.nested s₁ [t] s' :=
      (does_expressionStatement.weaken Manner.leaf_within).mono fun _ _ => .leaf
    refine .peek (hfront ?_)
    split
    · rename_i k hpeek
      exact reads_keyword hinner hdepth (hpeek ▸ rfl) { setting with annotations := notes } hnotes k
    · refine (reads_block hinner fun hopen => ?_).mono fun _ _ h => h.1 _
      exact hdepth.ate (takes_advance s₁) (ate_advance (not_isEnd_of_mark hopen))
    · exact hexpr
  split
  · rename_i first hfirst
    have hspot := hnotes first (List.mem_of_head? hfirst)
    exact .peek (.ite (fun _ => .throwThen rfl hspot _ _) fun _ => hrest)
  · exact hrest

end Nested

/-- **Statements** are not cut short by the levels of their nesting. -/
theorem steps_statementWithin : ∀ (j k : Nat) (setting : Setting),
    Steps tokens setting.nested j k (statementWithin j setting) (statementWithin k setting)
  | 0, 0, _ => fun _ _ => .failExpecting _
  | 0, _ + 1, _ => fun _ hdepth => by cases hdepth.zero_iff.mp rfl
  | _ + 1, 0, _ => fun _ hdepth => by cases hdepth.zero_iff.mpr rfl
  | j + 1, k + 1, setting => steps_statement (steps_statementWithin j k) setting

/-! ## Scripts -/

section Scripts

variable {read read' : Parse Stmt}

theorem statements_succ (read : Parse Stmt) (k : Nat) (s : Parsing) :
    let s₀ := s.skipWhile separates
    statements read (k + 1) s =
      (if s₀.peek.isMark .rbrace || s₀.peek.isEnd then Pure.pure []
        else do
          let t ← guardedStatement read
          return t :: (← statements read k) : Parse (List Stmt)) s₀ := rfl

theorem guardedStatement_ok (read : Parse Stmt) (s : Parsing) :
    ∃ t s₁, guardedStatement read s = .ok t s₁ := by
  unfold guardedStatement
  simp only
  split
  · exact ⟨_, _, rfl⟩
  · exact ⟨_, _, rfl⟩

theorem statements_ok (read : Parse Stmt) : ∀ (k : Nat) (s : Parsing),
    ∃ ts s₁, statements read k s = .ok ts s₁
  | 0, s => ⟨[], s, rfl⟩
  | k + 1, s => by
    rw [statements_succ]
    split
    · exact ⟨[], _, rfl⟩
    · obtain ⟨t, s₁, hrun⟩ := guardedStatement_ok read (s.skipWhile separates)
      obtain ⟨ts, s₂, hruns⟩ := statements_ok read k s₁
      exact ⟨t :: ts, s₂, bind_ok.mpr ⟨t, s₁, hrun, bind_ok.mpr ⟨ts, s₂, hruns, rfl⟩⟩⟩

/-- **Bodies**: with as many rounds as tokens are left, statements are read up to a closing brace or
the end. -/
theorem statements_made {n : Bool} {J : Nat} (hread : Steps tokens n J J read read) (k : Nat)
    (hs : s.At tokens) : ∃ ts s₁, statements read k s = .ok ts s₁ ∧ BodyMade tokens n s ts s₁ ∧
      (Ended s.rest → s.rest.length ≤ k → s₁.AtStop) := by
  obtain ⟨ts, s₁, hrun⟩ := statements_ok read k s
  obtain ⟨-, hmade⟩ := (reads_statements hread (.refl k s) (.refl J s)).ok hs hrun
  exact ⟨ts, s₁, hrun, hmade⟩

theorem scriptBody_succ {k : Nat} {body : List Stmt}
    (hrun : statements read s.rest.length s = .ok body s₁) : scriptBody read (k + 1) s =
      (if s₁.peek.isMark .rbrace then do
          complain .unmatchedBrace (← advance)
          return body ++ (← scriptBody read k)
        else return body : Parse (List Stmt)) s₁ :=
  bind_run hrun _

/-- **Scripts**: braces that close nothing are reported, and with as many rounds as tokens are left
the statements are read up to the end. -/
theorem scriptBody_made {n : Bool} {J K : Nat} (hread : Steps tokens n J K read read') {j k : Nat}
    (hrounds : s.Bounds j k) (hdepth : s.Bounds J K) (hs : s.At tokens) :
    ∃ ts s', scriptBody read j s = .ok ts s' ∧ scriptBody read' k s = .ok ts s' ∧
      ScriptMade tokens n s ts s' ∧ (Ended s.rest → s.rest.length ≤ j → s'.peek.isEnd = true) := by
  refine rounds (R := fun j k s => s.Bounds J K → s.At tokens →
    ∃ ts s', scriptBody read j s = .ok ts s' ∧ scriptBody read' k s = .ok ts s' ∧
      ScriptMade tokens n s ts s' ∧ (Ended s.rest → s.rest.length ≤ j → s'.peek.isEnd = true))
    ?_ ?_ hrounds hdepth hs
  · exact fun s _ _ => ⟨[], s, rfl, rfl, .stop (.moves .stay), fun hs hnone =>
      absurd hs.length_pos (Nat.not_lt.mpr hnone)⟩
  · intro j k s ih hdepth hs
    obtain ⟨body, s₁, hrun⟩ := statements_ok read s.rest.length s
    have hreads := reads_statements hread (.refl s.rest.length s) hdepth
    have hrun' : statements read' s.rest.length s = .ok body s₁ := (hreads hs).1.trans hrun
    obtain ⟨hpass, hbody, hstop⟩ := hreads.ok hs hrun
    rw [scriptBody_succ hrun, scriptBody_succ hrun']
    by_cases hbrace : s₁.peek.isMark .rbrace = true
    · have hpeek := Token.eq_of_isMark hbrace
      have hreport := takes_complain s₁.advance .unmatchedBrace s₁.here
      have htakes := hpass.takes.trans ((takes_advance s₁).trans hreport)
      have hate := ((ate_advance (not_isEnd_of_mark hpeek)).before hreport).behind hpass.takes
      have h₁ := (hpass.at_tokens hs).advance
      obtain ⟨rest, s₂, hrest, hrest', hmade, hend⟩ :=
        ih _ htakes hate (hdepth.takes htakes) ⟨h₁.rest, h₁.last⟩
      rw [if_pos hbrace, if_pos hbrace]
      refine ⟨body ++ rest, s₂, ?_, ?_, .step hbody hpeek hmade, fun hended hj => ?_⟩
      · exact bind_ok.mpr ⟨_, _, rfl, bind_ok.mpr ⟨(), _, rfl, bind_ok.mpr ⟨rest, s₂, hrest, rfl⟩⟩⟩
      · exact bind_ok.mpr ⟨_, _, rfl, bind_ok.mpr ⟨(), _, rfl, bind_ok.mpr ⟨rest, s₂, hrest', rfl⟩⟩⟩
      · exact hend (htakes.ended hended) (hate.length_le hended hj)
    · rw [if_neg hbrace, if_neg hbrace]
      refine ⟨body, s₁, rfl, rfl, .stop hbody, fun hended _ => ?_⟩
      exact (Bool.or_eq_true_iff.mp (hstop hended (Nat.le_refl _))).resolve_left hbrace

end Scripts

end Parse

theorem Parsing.At.start (tokens : List Located) : Parsing.At tokens { rest := tokens } :=
  ⟨fun _ ht => ht, .start⟩

/-- **Scripts** are made as the grammar says. -/
theorem parseScript_made (tokens : List Located) : ∃ s' : Parsing,
    (parseScript tokens).2 = s'.report ∧
      ScriptMade tokens false { rest := tokens } (parseScript tokens).1.body s' ∧
      (Ended tokens → s'.peek.isEnd = true) := by
  obtain ⟨ts, s', hrun, -, hmade, hend⟩ := Parse.scriptBody_made
    (Parse.steps_statementWithin tokens.length tokens.length {}) (.refl tokens.length _)
    (.refl _ _) (.start tokens)
  unfold parseScript
  simp only [hrun]
  exact ⟨s', rfl, hmade, fun hended => hend hended (Nat.le_refl _)⟩

end Packwright
