import Packwright.Proofs.Numerals
import Packwright.Proofs.Parsing.Grammar
import Packwright.Tree.Expression

/-!
# Reading expressions

Every reader of expressions goes forward, gives an expression that is made between the state in
front of it and the state behind it, and is not ended by its bounds.  There is one lemma for each
reader, and the readers of the levels of operators are put together as they are defined.  Readers
that go on from an expression in front of them do the same whatever that one is, so what is known of
it stands behind a hypothesis `P`.

* `does_binary`, `does_unary`, `does_range`: operators are resolved for the kinds of operands.
* `Walks tokens j k p q`: readers of expressions with at most `j` or `k` levels of brackets.
* `walks_level`: a level of operators.
* `walks_expressionWithin`, `does_expression`: all expressions.
-/

namespace Packwright

theorem Span.around_congr {o o' : Option Expr} (h : o.map Expr.span = o'.map Expr.span)
    (span : Span) : span.around o = span.around o' := by
  have hmap : ∀ o : Option Expr,
      o.map (fun e => span.merge e.span) = (o.map Expr.span).map span.merge := fun o => by
    rw [Option.map_map]
    rfl
  rw [around, around, hmap o, hmap o', h]

namespace Parse

open Parsing

variable {tokens : List Located} {s₀ s s₁ : Parsing}

/-! ## Resolving operators -/

theorem does_numberLiteral {negative : Bool} {token : Token} {span : Span}
    (ht : token.Among tokens) (hspan : Lies tokens s₀ s span) :
    Does tokens .plain s (numberLiteral negative token span) fun e s' =>
      e.Made tokens false s₀ s' := by
  unfold numberLiteral
  split
  · rename_i v hv
    exact .pure (.literal (.number ht hv) hspan)
  · exact .complain rfl hspan.spot fun hmoves hfault =>
      .pure (.unresolved (hspan.back hmoves) hfault)

theorem does_binary {op : BinaryOp} (hop : op.joins = true) {opSpan : Span}
    (hspot : Spot tokens opSpan) {l r : Expr} {P : Prop} (hl : P → l.Made tokens false s₀ s)
    (hr : P → r.Made tokens false s₀ s) :
    Does tokens .plain s (binary op opSpan l r) fun e s' => P → e.Made tokens false s₀ s' := by
  have hfailed : ∀ {issue : Issue}, issue.isOrdinary = true →
      Does tokens .plain s (do
        complain issue opSpan
        return Expr.binary ⟨.unresolved, l.span.merge r.span⟩ op l r none) fun e s' =>
          P → Expr.Made tokens false s₀ s' e := fun hissue =>
    .complain hissue hspot fun hmoves hfault => .pure fun hP =>
      .failedBinary ((hl hP).back hmoves) ((hr hP).back hmoves) (.inr hfault)
  unfold binary
  refine .ite (fun herror => ?_) fun _ => ?_
  · exact .pure fun hP => .failedBinary (hl hP) (hr hP) (.inl (Bool.or_eq_true_iff.mp herror))
  · split
    · exact hfailed rfl
    · rename_i res hres
      -- enumerations that differ are reported
      simp only
      split
      · exact hfailed rfl
      · exact .pure fun hP => .binary (hl hP) (hr hP) hop hres

theorem does_unary {op : UnaryOp} {opSpan : Span} (hop : Lies tokens s₀ s opSpan) {e : Expr}
    (he : e.Made tokens false s₀ s) :
    Does tokens .plain s (unary op opSpan e) fun e' s' => e'.Made tokens false s₀ s' := by
  unfold unary
  refine .ite (fun herror => .pure (.failedUnary hop he (.inl herror))) fun _ => ?_
  split
  · rename_i c o hres
    exact .pure (.unary hop he hres)
  · exact .complain rfl hop.spot fun hmoves hfault =>
      .pure (.failedUnary (hop.back hmoves) (he.back hmoves) (.inr hfault))

/-- What is known of a bound of a range: it is a number, or it could not be resolved. -/
structure RangeBound (tokens : List Located) (s₀ s : Parsing) (bound : Option Expr)
    (r : Option Expr × Bool) : Prop where
  made : ∀ e ∈ r.1, e.Made tokens true s₀ s
  place : r.1.map Expr.span = bound.map Expr.span
  kind : r.2 = true ∧ (∀ e ∈ r.1, e.kind = .int) ∨
    r.2 = false ∧ ((∃ e ∈ r.1, e.isError = true) ∨ ¬ s.Clean)

theorem RangeBound.back {bound : Option Expr} {r : Option Expr × Bool}
    (h : RangeBound tokens s₀ s bound r) (h₁ : s.Moves tokens s₁) :
    RangeBound tokens s₀ s₁ bound r where
  made e he := (h.made e he).back h₁
  place := h.place
  kind := h.kind.imp_right fun ⟨hfalse, herror⟩ =>
    ⟨hfalse, herror.imp_right fun hfault hclean => hfault (h₁.takes.clean hclean)⟩

theorem does_rangeBound {bound : Option Expr} (hbound : ∀ e ∈ bound, e.Made tokens false s₀ s) :
    Does tokens .plain s (rangeBound bound) fun r s' => RangeBound tokens s₀ s' bound r := by
  have hnone : ∀ {P : Expr → Prop}, ∀ e ∈ (none : Option Expr), P e := by simp
  have hsome : ∀ {P : Expr → Prop} {e : Expr}, P e → ∀ e' ∈ some e, P e' := by
    rintro P e he _ ⟨⟩
    exact he
  cases bound with
  | none => exact .pure ⟨hnone, rfl, .inl ⟨rfl, hnone⟩⟩
  | some e =>
    have he := hbound e rfl
    rw [rangeBound]
    refine .ite (fun herror => ?_) fun _ => .ite (fun hint => ?_) fun _ => ?_
    · exact .pure ⟨hsome he.operand, rfl, .inr ⟨rfl, .inl ⟨e, rfl, herror⟩⟩⟩
    · exact .pure ⟨hsome he.operand, rfl, .inl ⟨rfl, hsome hint⟩⟩
    · split
      · rename_i c hc
        exact .pure ⟨hsome (.cast he hc), rfl, .inl ⟨rfl, hsome (Expr.kind_casted (k := .int) hc)⟩⟩
      · exact .complain rfl he.spot fun hmoves hfault =>
          .pure ⟨hsome (he.back hmoves).operand, rfl, .inr ⟨rfl, .inr hfault⟩⟩

theorem does_range {min max : Option Expr} {dots : Span} (hdots : Lies tokens s₀ s dots)
    (hmin : ∀ e ∈ min, e.Made tokens false s₀ s) (hmax : ∀ e ∈ max, e.Made tokens false s₀ s)
    (hsome : min.isSome = true ∨ max.isSome = true) :
    Does tokens .plain s (range min max dots) fun e s' => e.Made tokens false s₀ s' := by
  unfold range
  refine (does_rangeBound hmin).bind fun lower s₁ hmoves₁ hlower => ?_
  refine (does_rangeBound fun e he => (hmax e he).back hmoves₁).bind
    fun upper s₂ hmoves₂ hupper => .pure ?_
  replace hlower := hlower.back hmoves₂
  replace hdots := hdots.back (.trans hmoves₁ hmoves₂)
  -- the casts stand where the bounds do
  have hspan : (dots.around lower.1).around upper.1 = (dots.around min).around max := by
    rw [Span.around_congr hlower.place, Span.around_congr hupper.place]
  have hisSome : lower.1.isSome = true ∨ upper.1.isSome = true := by
    have hlow := congrArg Option.isSome hlower.place
    have hup := congrArg Option.isSome hupper.place
    rw [Option.isSome_map, Option.isSome_map] at hlow hup
    rwa [hlow, hup]
  change Expr.Made tokens false s₀ s₂
    (.range ⟨_, (dots.around min).around max⟩ lower.1 upper.1)
  rw [← hspan]
  rcases hlower.kind with ⟨hlow, hlowKind⟩ | ⟨hlow, hlowFault⟩
  · rcases hupper.kind with ⟨hup, hupKind⟩ | ⟨hup, hupFault⟩
    · rw [hlow, hup]
      refine .range hdots hlower.made hupper.made hisSome ?_
      rintro e (he | he)
      · exact hlowKind e he
      · exact hupKind e he
    · rw [hup, Bool.and_false]
      refine .failedRange hdots hlower.made hupper.made hisSome (hupFault.imp_left ?_)
      rintro ⟨e, he, herror⟩
      exact ⟨e, .inr he, herror⟩
  · rw [hlow, Bool.false_and]
    refine .failedRange hdots hlower.made hupper.made hisSome (hlowFault.imp_left ?_)
    rintro ⟨e, he, herror⟩
    exact ⟨e, .inl he, herror⟩

/-- Casts of arguments and operands take no token. -/
theorem does_coerce {e : Expr} (expected : Ty) (he : e.Made tokens false s₀ s₁) :
    Does tokens .plain s (coerce e expected) fun e' s' => e'.Made tokens true s₀ s₁ ∧
      (expected.isError = false → (e'.isError = true ∨ e'.kind = expected.kind) ∨ ¬ s'.Clean) := by
  unfold coerce
  refine .ite (fun herror => .pure ⟨he.operand, fun hexpected => ?_⟩) fun _ => ?_
  · rw [hexpected, Bool.or_false] at herror
    exact .inl (.inl herror)
  · refine .ite (fun hkind => ?_) fun _ => ?_
    · split
      · exact .complain rfl he.spot fun _ hfault => .pure ⟨he.operand, fun _ => .inr hfault⟩
      · exact .pure ⟨he.operand, fun _ => .inl (.inr hkind)⟩
    · split
      · rename_i c hc
        exact .pure ⟨.cast he hc, fun _ => .inl (.inr (Expr.kind_casted hc))⟩
      · exact .complain rfl he.spot fun _ hfault => .pure ⟨he.operand, fun _ => .inr hfault⟩

theorem does_coerceAll : ∀ (ks : List Kind) {es : List Expr} {s : Parsing},
    (∀ e ∈ es, e.Made tokens false s₀ s₁) →
      Does tokens .plain s (coerceAll ks es) fun es' _ => ∀ e ∈ es', e.Made tokens true s₀ s₁
  | [], _, _, _ | _ :: _, [], _, _ => .pure (List.forall_mem_nil _)
  | _ :: ks, e :: es, s, h => by
    obtain ⟨he, hes⟩ := List.forall_mem_cons.mp h
    refine (does_coerce _ he).bind fun e' _ _ he' => ?_
    refine (does_coerceAll ks hes).bind fun es' _ _ hes' => ?_
    exact .pure (List.forall_mem_cons.mpr ⟨he'.1, hes'⟩)

/-- **Members**: the object ends in front of the point, where the state `s₁` stands. -/
theorem does_memberOf {object : Expr} {P : Prop} (he : P → object.Made tokens false s₀ s₁)
    (htaking : Taking tokens s₁ s) {name : Declared} (hname : name.Read tokens)
    {args : Option (List Expr)} (hargs : ∀ as ∈ args, ∀ a ∈ as, a.Made tokens false s₁.advance s) :
    Does tokens .plain s (memberOf object name args) fun e s' => P → e.Made tokens false s₀ s' := by
  have hfailed : ∀ {s' : Parsing}, s.Moves tokens s' → s'.last = s.last → ¬ s'.Clean →
      Does tokens .plain s' (pure (object.failed (object.span.merge s.last))) fun e s' =>
        P → e.Made tokens false s₀ s' := by
    intro s' hmoves hlast hfault
    have htaking' : Taking tokens s₁ s' :=
      ⟨htaking.plain, .trans htaking.moves hmoves, hlast ▸ htaking.last⟩
    exact .pure fun hP => hlast ▸ .failed (he hP) htaking' hfault
  unfold memberOf
  refine .last (.ite (fun _ => .pure fun hP => .extended (he hP) htaking) fun _ => ?_)
  split
  · exact .complain rfl hname.spot fun hmoves hfault => .modify (.suggest hname.spot _)
      (hfailed (.trans hmoves (.suggest hname.spot _)) rfl (hfault ∘ clean_of_suggest))
  · rename_i m hm
    split
    · exact .pure fun hP => .member (he hP) htaking hname.named hm (List.forall_mem_nil _)
    · rename_i params as _
      refine .ite (fun _ => ?_) fun _ => .complain rfl hname.spot fun hmoves hfault =>
        hfailed hmoves rfl hfault
      refine (does_coerceAll params (hargs as rfl)).bind fun as' s₂ hmoves has' => ?_
      exact .pure fun hP => .back (.member (he hP) htaking hname.named hm has') hmoves
    · exact .complain rfl hname.spot fun hmoves hfault => hfailed hmoves rfl hfault
    · exact .complain rfl hname.spot fun hmoves hfault => hfailed hmoves rfl hfault

/-- The items of a list are of one kind, or that is reported, or one of them has no type. -/
theorem does_listOf (h : Enclosed tokens s s₁) {items : List Expr}
    (hitems : ∀ e ∈ items, e.Made tokens false s.advance s₁) :
    Does tokens .plain s₁.advance (listOf items (s.here.merge s₁.here)) fun e s' =>
      e.Made tokens false s s' := by
  unfold listOf
  refine .ite (fun _ => ?_) fun huniform => .pure (.list h hitems .stay rfl ?_)
  · exact .complain rfl (.merge h.start h.stop) fun hmoves hfault =>
      .pure (.list h hitems hmoves rfl (.inr (.inr hfault)))
  · by_cases hall : (items.all fun e => some e.kind = items.head?.map (·.kind)) = true
    · refine .inl fun e he e' he' => ?_
      have hkind : ∀ e ∈ items, some e.kind = items.head?.map (·.kind) := by
        simpa using hall
      exact Option.some.inj ((hkind e he).trans (hkind e' he').symm)
    · have hany : items.any (·.isError) = true := by
        by_contra hnone
        rw [Bool.not_eq_true] at hall hnone
        exact huniform (by rw [hall, hnone]; rfl)
      exact .inr (.inl (List.any_eq_true.mp hany))

/-! ## Levels of operators -/

/-- Both readers read the same expression, wherever so many levels of brackets lead to the same. -/
def Walks (tokens : List Located) (j k : Nat) (p q : Parse Expr) : Prop :=
  ∀ ⦃s : Parsing⦄, s.Bounds j k → Reads tokens .plain s p q fun e s' => e.Made tokens false s s'

/-- The operators of a level join operands, and are written neither as braces nor as the end. -/
def Joins (op? : Token → Option BinaryOp) : Prop :=
  ∀ t, ∀ op ∈ op? t, t.isPlain = true ∧ op.joins = true

theorem joins_operatorAt? {ops : List (Mark × BinaryOp)}
    (hops : ∀ o ∈ ops, (Token.mark o.1).isPlain = true ∧ o.2.joins = true) :
    Joins (operatorAt? ops) := by
  intro t op hop
  cases t with
  | mark m =>
    obtain ⟨o, ho, rfl⟩ := Option.map_eq_some_iff.mp hop
    obtain rfl : o.1 = m := by simpa using List.find?_some ho
    exact hops o (List.mem_of_find?_eq_some ho)
  | _ => cases hop

theorem joins_relationAt? : Joins relationAt? := by
  intro t op hop
  unfold relationAt? at hop
  split at hop
  · cases hop
    exact ⟨rfl, rfl⟩
  · exact joins_operatorAt? (by decide) t op hop

section Levels

variable {J K : Nat} {op? : Token → Option BinaryOp} {next next' : Parse Expr} (hop : Joins op?)
  (hnext : Walks tokens J K next next')

include hop hnext

/-- The loop does the same with the operand in front, whether that one was read or not. -/
theorem reads_chain {j k : Nat} (hrounds : s.Bounds j k) (hdepth : s.Bounds J K) {e : Expr}
    {P : Prop} (he : P → e.Made tokens false s₀ s) :
    Reads tokens .plain s (chain op? next j e) (chain op? next' k e) fun e' s' =>
      P → e'.Made tokens false s₀ s' := by
  refine rounds (R := fun j k s => s.Bounds J K → ∀ e : Expr, (P → e.Made tokens false s₀ s) →
    Reads tokens .plain s (chain op? next j e) (chain op? next' k e) fun e' s' =>
      P → e'.Made tokens false s₀ s') ?_ ?_ hrounds hdepth e he
  · exact fun _ _ _ he => .pure he
  · intro j k s ih hdepth e he
    rw [chain, chain]
    refine .peek ?_
    cases hpeek : op? s.peek with
    | none => exact .pure he
    | some op =>
      obtain ⟨hplain, hjoins⟩ := hop _ op hpeek
      refine .advance hplain fun hspot => ?_
      refine (hnext (hdepth.takes (takes_advance s))).bind fun r s₁ hmoves hr => ?_
      have hleft := fun hP => (he hP).back (.trans (.take hplain) hmoves)
      have hright := fun hP => hr.front (.trans (he hP).moves (.take hplain))
      refine (does_binary hjoins hspot hleft hright).bind fun e' s₂ hmoves' he' => ?_
      have hmore : s.advance.Takes s₂ := (hmoves.trans hmoves').takes
      have htakes := (takes_advance s).trans hmore
      exact ih s₂ htakes (ate_of_isPlain hplain hmore) (hdepth.takes htakes) e' he'

/-- **Operators of one level**, from the left to the right. -/
theorem walks_level : Walks tokens J K (level op? next) (level op? next') := fun _ hdepth =>
  (hnext hdepth).bind fun _ _ hmoves he => .left
    ((reads_chain hop hnext (.refl _ _) (hdepth.takes hmoves.takes) fun _ => he).mono
      fun _ _ h => h trivial)

end Levels

/-! ## Data paths -/

section Paths

variable {path rest : String}

theorem pathText_append (h : PathText tokens path) (h' : PathText tokens rest) :
    PathText tokens (path ++ rest) := by
  intro c hc
  rw [String.toList_append, List.mem_append] at hc
  exact hc.elim (h c) (h' c)

theorem pathText_marks (h : ∀ c ∈ path.toList, c ∈ ['[', ']', '.']) : PathText tokens path :=
  fun c hc => .inr (.inr (h c hc))

theorem pathText_name (h : Named tokens path) : PathText tokens path :=
  fun _ hc => .inl ⟨path, h, hc⟩

theorem pathText_index (n : Nat) : PathText tokens (toString n) :=
  fun _ hc => .inr (.inl (isDigit_of_mem_toString hc))

theorem reads_pathIndices {j k : Nat} (hrounds : s.Bounds j k) :
    Reads tokens .plain s (pathIndices j) (pathIndices k) fun path _ => PathText tokens path := by
  refine rounds (R := fun j k s => Reads tokens .plain s (pathIndices j) (pathIndices k)
    fun path _ => PathText tokens path) ?_ ?_ hrounds
  · exact fun _ => .pure (pathText_marks (by simp))
  · intro j k s ih
    rw [pathIndices, pathIndices]
    refine .isAt (.get (.ite (fun hat => ?_) fun _ => .pure (pathText_marks (by simp))))
    have hplain : s.peek.isPlain = true := by
      rw [Token.eq_of_isMark (Bool.and_eq_true_iff.mp hat).1]
      rfl
    refine .advance hplain fun _ => .peek ?_
    split
    · rename_i index hpeek
      refine .advance (hpeek ▸ rfl) fun _ => .expect rfl fun _ _ => ?_
      have hmore : s.advance.Takes s.advance.advance.advance :=
        (takes_advance _).trans (takes_advance _)
      refine (ih _ ((takes_advance s).trans hmore) (ate_of_isPlain hplain hmore)).bind
        fun rest _ _ hrest => .pure ?_
      refine pathText_append (pathText_append (pathText_append ?_ (pathText_index index)) ?_) hrest
      · exact pathText_marks (by simp)
      · exact pathText_marks (by simp)
    · exact .failExpecting _

theorem isPlain_of_pathContinues (h : pathContinues s = true) : s.peek.isPlain = true := by
  unfold pathContinues at h
  split at h
  · rename_i slash _ _ _ hrest
    rw [Bool.and_assoc] at h
    rw [peek_of_rest hrest, Token.eq_of_isMark (Bool.and_eq_true_iff.mp h).1]
    rfl
  · cases h

theorem reads_pathParts {j k : Nat} (hrounds : s.Bounds j k) :
    Reads tokens .plain s (pathParts j) (pathParts k) fun path _ => PathText tokens path := by
  refine rounds (R := fun j k s => Reads tokens .plain s (pathParts j) (pathParts k)
    fun path _ => PathText tokens path) ?_ ?_ hrounds
  · exact fun _ => .pure (pathText_marks (by simp))
  · intro j k s ih
    rw [pathParts, pathParts]
    refine .expectName fun x hpeek hx _ => .left ?_
    refine (reads_pathIndices (.refl _ _)).bind fun indices s₁ hmoves hindices => ?_
    have hfirst := pathText_append (pathText_name hx) hindices
    refine .get (.ite (fun hat => ?_) fun _ => .pure hfirst)
    refine .advance (isPlain_of_pathContinues hat) fun _ => ?_
    have hmore : s.advance.Takes s₁.advance := hmoves.takes.trans (takes_advance s₁)
    have hplain : s.peek.isPlain = true := hpeek ▸ rfl
    refine (ih _ ((takes_advance s).trans hmore) (ate_of_isPlain hplain hmore)).bind
      fun rest _ _ hrest => .pure ?_
    exact pathText_append (pathText_append hfirst (pathText_marks (by simp))) hrest

/-- **Data paths**: the object ends in front of the slash, where the state `s` stands. -/
theorem does_dataPath (hslash : s.peek.isPlain = true) {object : Expr} {P : Prop}
    (he : P → object.Made tokens false s₀ s) (hkind : object.kind = .selector) :
    Does tokens .plain s.advance (dataPath object) fun e s' => P → e.Made tokens false s₀ s' := by
  refine .left ((reads_pathParts (.refl _ _)).bind fun path s' hmoves hpath => ?_)
  refine .given fun hs' => .last (.pure ?_)
  have hty : ¬ object.isError = true := by
    rw [Expr.isError_iff, hkind]
    decide
  rw [if_neg hty]
  exact fun hP => .dataPath (he hP) ⟨hslash, hmoves, hs'.last⟩ hkind hpath

end Paths

/-! ## Expressions without operators around them -/

section Nested

variable {J K : Nat} {expr expr' : Parse Expr} (hexpr : Walks tokens J K expr expr')

include hexpr

theorem reads_separated (close : Mark) {j k : Nat} (hrounds : s.Bounds j k)
    (hdepth : s.Bounds J K) :
    Reads tokens .plain s (separated expr close j) (separated expr' close k) fun es s' =>
      ∀ e ∈ es, e.Made tokens false s s' := by
  refine rounds (R := fun j k s => s.Bounds J K →
    Reads tokens .plain s (separated expr close j) (separated expr' close k) fun es s' =>
      ∀ e ∈ es, e.Made tokens false s s') ?_ ?_ hrounds hdepth
  · exact fun _ _ => .pure (List.forall_mem_nil _)
  · intro j k s ih hdepth
    rw [separated, separated]
    refine .skipNewlines (.isAt (.ite (fun _ => .pure (List.forall_mem_nil _)) fun _ => ?_))
    have hskip : s.Moves tokens (s.skipWhile Token.isNewline) := .skipNewlines s
    refine (hexpr (hdepth.takes hskip.takes)).bind fun e s₁ _ he => .skipNewlines ?_
    replace he := (he.front hskip).back (.skipNewlines s₁)
    refine .eat rfl (fun hcomma => ?_) (.pure (List.forall_mem_singleton.mpr he))
    have hpass : s.Moves tokens (s₁.skipWhile Token.isNewline).advance :=
      .trans he.moves (.take (hcomma ▸ rfl))
    refine (ih _ hpass.takes (he.ate.before (takes_advance _)) (hdepth.takes hpass.takes)).bind
      fun es s₂ hmoves hes => .pure (List.forall_mem_cons.mpr ⟨?_, fun e' he' => ?_⟩)
    · exact he.back (.trans (.take (hcomma ▸ rfl)) hmoves)
    · exact (hes e' he').front hpass

theorem reads_callArgs (hdepth : s.Bounds (J + 1) (K + 1)) :
    Reads tokens .plain s (callArgs expr) (callArgs expr') fun es s' =>
      Taking tokens s s' ∧ ∀ e ∈ es, e.Made tokens false s s' := by
  refine .expect rfl fun hpeek hspot => .left ?_
  have hplain : s.peek.isPlain = true := hpeek ▸ rfl
  have hinner := hdepth.ate (takes_advance s) (ate_of_isPlain hplain (.refl _))
  refine (reads_separated hexpr .rparen (.refl _ _) hinner).bind fun es s₁ hmoves hes => ?_
  refine .expect rfl fun hclose hstop => .pure ⟨⟨hplain, ?_, ?_⟩, fun e he => ?_⟩
  · exact .trans hmoves (.take (hclose ▸ rfl))
  · rwa [last_advance]
  · exact .widen (.take hplain) (hes e he) (.take (hclose ▸ rfl))

theorem reads_emptyCall (hdepth : s.Bounds (J + 1) (K + 1)) :
    Reads tokens .plain s (emptyCall expr) (emptyCall expr') fun stop s' =>
      Lies tokens s s' stop := by
  refine (reads_callArgs hexpr hdepth).bind fun args s₁ _ hargs => ?_
  obtain ⟨htaking, hargs⟩ := hargs
  split
  · rename_i e he
    refine .complain rfl (hargs e (List.mem_of_head? he)).spot fun hmoves _ => .last (.pure ?_)
    exact (Lies.last htaking).back hmoves
  · exact .last (.pure (.last htaking))

theorem reads_bracketList (hdepth : s.Bounds (J + 1) (K + 1)) (hplain : s.peek.isPlain = true) :
    Reads tokens .plain s (bracketList expr) (bracketList expr') fun e s' =>
      e.Made tokens false s s' := by
  refine .advance hplain fun hstart => .left ?_
  have hinner := hdepth.ate (takes_advance s) (ate_of_isPlain hplain (.refl _))
  refine (reads_separated hexpr .rbracket (.refl _ _) hinner).bind fun items s₁ hmoves hitems => ?_
  refine .skipNewlines (.expect rfl fun hclose hstop => ?_)
  have henclosed : Enclosed tokens s (s₁.skipWhile Token.isNewline) :=
    ⟨hstart, .trans hmoves (.skipNewlines s₁), hstop, .inl ⟨hplain, hclose ▸ rfl⟩⟩
  exact does_listOf henclosed fun e he => (hitems e he).back (.skipNewlines s₁)

omit hexpr in
theorem does_compoundKey? : Does tokens .plain s compoundKey? fun key s' =>
    s' = s ∧ (key.isSome = true → s.peek.isPlain = true) := by
  refine .peek ?_
  split <;> rename_i hpeek
  · exact .pure ⟨rfl, fun h => by cases h⟩
  · exact .pure ⟨rfl, fun _ => hpeek ▸ rfl⟩
  · exact .pure ⟨rfl, fun _ => hpeek ▸ rfl⟩
  · exact .pure ⟨rfl, fun _ => hpeek ▸ rfl⟩
  · exact .failExpecting _

theorem reads_compoundEntries {j k : Nat} (hrounds : s.Bounds j k) (hdepth : s.Bounds J K) :
    Reads tokens .plain s (compoundEntries expr j) (compoundEntries expr' k) fun es s' =>
      ∀ entry ∈ es, entry.2.Made tokens false s s' := by
  refine rounds (R := fun j k s => s.Bounds J K →
    Reads tokens .plain s (compoundEntries expr j) (compoundEntries expr' k) fun es s' =>
      ∀ entry ∈ es, entry.2.Made tokens false s s') ?_ ?_ hrounds hdepth
  · exact fun _ _ => .pure (List.forall_mem_nil _)
  · intro j k s ih hdepth
    rw [compoundEntries, compoundEntries]
    refine .skipNewlines (does_compoundKey?.bind fun key u hkey hu => ?_)
    obtain ⟨rfl, hplain⟩ := hu
    cases key with
    | none => exact .pure (List.forall_mem_nil _)
    | some key =>
      have hskip : s.Moves tokens (s.skipWhile Token.isNewline) := .skipNewlines s
      refine .advance (hplain rfl) fun _ => .expect rfl fun hcolon _ => .skipNewlines ?_
      have hfront : s.Moves tokens
          ((s.skipWhile Token.isNewline).advance.advance.skipWhile Token.isNewline) :=
        .trans hskip (.trans (.take (hplain rfl)) (.trans (.take (hcolon ▸ rfl)) (.skipNewlines _)))
      refine (hexpr (hdepth.takes hfront.takes)).bind fun e s₁ _ he => .skipNewlines ?_
      replace he := (he.front hfront).back (.skipNewlines s₁)
      refine .eat rfl (fun hcomma => ?_) (.pure (List.forall_mem_singleton.mpr he))
      have hpass : s.Moves tokens (s₁.skipWhile Token.isNewline).advance :=
        .trans he.moves (.take (hcomma ▸ rfl))
      refine (ih _ hpass.takes (he.ate.before (takes_advance _)) (hdepth.takes hpass.takes)).bind
        fun es s₂ hmoves hes => .pure (List.forall_mem_cons.mpr ⟨?_, fun e' he' => ?_⟩)
      · exact he.back (.trans (.take (hcomma ▸ rfl)) hmoves)
      · exact (hes e' he').front hpass

theorem reads_compound (hdepth : s.Bounds (J + 1) (K + 1)) :
    Reads tokens .plain s (compound expr) (compound expr') fun e s' =>
      e.Made tokens false s s' := by
  refine .openBrace fun hopen hstart => .left ?_
  have hinner := hdepth.ate (takes_advance s) (ate_advance (not_isEnd_of_mark hopen))
  refine .bind hopen (reads_compoundEntries hexpr (.refl _ _) hinner) fun es s₁ hmoves hes => ?_
  refine .skipNewlines (.close hopen fun hclose hstop => .pure (.compound ?_ fun e he => ?_))
  · exact ⟨hstart, .trans hmoves (.skipNewlines s₁), hstop, .inr ⟨hopen, hclose⟩⟩
  · exact (hes e he).back (.skipNewlines s₁)

theorem reads_resource (hdepth : s.Bounds (J + 1) (K + 1)) {text : String}
    (hpeek : s.peek = .resource text) :
    Reads tokens .plain s (resource expr text) (resource expr' text) fun e s' =>
      e.Made tokens false s s' := by
  have hplain : s.peek.isPlain = true := hpeek ▸ rfl
  refine .given fun hs => .advance hplain fun hspot => ?_
  have ht := hs.among hpeek rfl
  have hspan := Lies.token hplain hspot
  replace hdepth := hdepth.takes (takes_advance s)
  refine .isAt (.ite (fun _ => ?_) fun _ => ?_)
  · refine (reads_emptyCall hexpr hdepth).bind fun stop s₁ hmoves hstop => ?_
    exact .pure (.call ⟨text, ht, rfl⟩ (.merge (hspan.back hmoves) (hstop.front hspan.moves)))
  · refine .isAt (.get (.ite (fun _ => ?_) fun _ => .pure (.literal (.resource ht) hspan)))
    refine (reads_compound hexpr hdepth).bind fun data s₁ hmoves hdata => ?_
    replace hdata := hdata.front hspan.moves
    have hplace := (hspan.back hmoves).merge hdata.lies
    split
    · rename_i entries hconst
      exact .pure (.item ht hdata hconst hplace)
    · exact .complain rfl hdata.spot fun hmoves hfault =>
        .pure (.unresolved (hplace.back hmoves) hfault)

/-- Names that are in scope have their type from there, others are left without a type. -/
theorem reads_named (hdepth : s.Bounds (J + 1) (K + 1)) {name : String}
    (hpeek : s.peek = .name name) :
    Reads tokens .plain s (named expr name) (named expr' name) fun e s' =>
      e.Made tokens false s s' := by
  have hplain : s.peek.isPlain = true := hpeek ▸ rfl
  refine .given fun hs => .advance hplain fun hspot => ?_
  have hname : Named tokens name := hs.among hpeek rfl
  have hspan := Lies.token hplain hspot
  refine .isAt (.ite (fun _ => ?_) fun _ => ?_)
  · refine (reads_emptyCall hexpr (hdepth.takes (takes_advance s))).bind
      fun stop s₁ hmoves hstop => ?_
    exact .pure (.call hname (.merge (hspan.back hmoves) (hstop.front hspan.moves)))
  · refine .get ?_
    have henv : s.env name = (s.advance.lookup? name).map (·.ty) := by
      rw [← env_of_scopes s.scopes_advance]
      rfl
    have hmade := Expr.Made.name (b := false) hname hspan
    split
    · rename_i binding hbinding
      rw [henv, hbinding] at hmade
      exact .pure hmade
    · rename_i hnone
      rw [henv, hnone] at hmade
      refine .isAt (.ite (fun hat => ?_) fun _ => .pure hmade)
      have hdot := Token.eq_of_isMark (Bool.and_eq_true_iff.mp hat).2
      refine .advance (hdot ▸ rfl) fun _ => .expectName fun x hx hnamed hstop => ?_
      have hstop := Lies.token (hx ▸ rfl) hstop
      have hfront : s.Moves tokens s.advance.advance := .trans (.take hplain) (.take (hdot ▸ rfl))
      have hback : s.advance.Moves tokens _ := .trans (.take (hdot ▸ rfl)) hstop.moves
      exact .pure (.variant hname hnamed (.merge (hspan.back hback) (hstop.front hfront)))

theorem reads_parenthesized (hdepth : s.Bounds (J + 1) (K + 1)) (hplain : s.peek.isPlain = true) :
    Reads tokens .plain s (parenthesized expr) (parenthesized expr') fun e s' =>
      e.Made tokens false s s' := by
  refine .advance hplain fun hstart => .skipNewlines ?_
  have hinner := hdepth.ate (takes_advance s) (ate_of_isPlain hplain (.refl _))
  have hskip : s.advance.Moves tokens (s.advance.skipWhile Token.isNewline) := .skipNewlines _
  refine (hexpr (hinner.takes hskip.takes)).bind fun e s₁ hmoves he => .skipNewlines ?_
  refine .expect rfl fun hclose hstop => .pure (.parenthesized ⟨hstart, ?_, hstop, ?_⟩ ?_)
  · exact .trans hskip (.trans hmoves (.skipNewlines s₁))
  · exact .inl ⟨hplain, hclose ▸ rfl⟩
  · exact .widen hskip he (.skipNewlines s₁)

theorem walks_primary : Walks tokens (J + 1) (K + 1) (primary expr) (primary expr') := by
  intro s hdepth
  refine .given fun hs => .here (.peek ?_)
  have hnumber (hplain : s.peek.isPlain = true) : Does tokens .plain s (do
      let _ ← advance
      numberLiteral false s.peek s.here) fun e s' => e.Made tokens false s s' :=
    .advance hplain fun hspot =>
      does_numberLiteral (hs.among rfl (Token.isEnd_of_isPlain hplain)) (.token hplain hspot)
  split <;> rename_i hpeek
  · exact hnumber (hpeek ▸ rfl)
  · exact hnumber (hpeek ▸ rfl)
  · exact hnumber (hpeek ▸ rfl)
  · exact .advance (hpeek ▸ rfl) fun hspot =>
      .pure (.literal (.string (hs.among hpeek rfl)) (.token (hpeek ▸ rfl) hspot))
  · exact .advance (hpeek ▸ rfl) fun hspot =>
      .pure (.literal (.bool true) (.token (hpeek ▸ rfl) hspot))
  · exact .advance (hpeek ▸ rfl) fun hspot =>
      .pure (.literal (.bool false) (.token (hpeek ▸ rfl) hspot))
  · refine .advance (hpeek ▸ rfl) fun hspot => ?_
    split
    · rename_i selector hselector
      exact .pure (.literal (.selector (hs.among hpeek rfl) hselector) (.token (hpeek ▸ rfl) hspot))
    · exact .throw rfl hspot
  · exact reads_resource hexpr hdepth hpeek
  · exact reads_bracketList hexpr hdepth (hpeek ▸ rfl)
  · exact reads_compound hexpr hdepth
  · exact reads_parenthesized hexpr hdepth (hpeek ▸ rfl)
  · exact reads_named hexpr hdepth hpeek
  · exact .failExpecting _

/-! ## Members, signs and operators -/

theorem reads_member (hdepth : s.Bounds (J + 1) (K + 1)) (hdot : s.peek.isPlain = true)
    {object : Expr} {P : Prop} (he : P → object.Made tokens false s₀ s) :
    Reads tokens .plain s.advance (member expr object) (member expr' object) fun e s' =>
      P → e.Made tokens false s₀ s' := by
  refine .expectName fun x hpeek hx hspot => .isAt ?_
  have hname : s.advance.Moves tokens s.advance.advance := .take (hpeek ▸ rfl)
  refine .ite (fun _ => ?_) fun _ => ?_
  · rw [bind_map_left, bind_map_left]
    have hinner := hdepth.takes ((takes_advance s).trans hname.takes)
    refine (reads_callArgs hexpr hinner).bind fun args s₁ hmoves hargs => .given fun h₁ => ?_
    refine does_memberOf he ⟨hdot, .trans hname hmoves, h₁.last⟩ ⟨hx, hspot⟩ ?_
    rintro _ ⟨⟩ a ha
    exact (hargs.2 a ha).front hname
  · refine .given fun h₁ => does_memberOf he ⟨hdot, hname, h₁.last⟩ ⟨hx, hspot⟩ ?_
    rintro _ ⟨⟩

theorem reads_accesses {j k : Nat} (hrounds : s.Bounds j k) (hdepth : s.Bounds (J + 1) (K + 1))
    {e : Expr} {P : Prop} (he : P → e.Made tokens false s₀ s) :
    Reads tokens .plain s (accesses expr j e) (accesses expr' k e) fun e' s' =>
      P → e'.Made tokens false s₀ s' := by
  refine rounds (R := fun j k s => s.Bounds (J + 1) (K + 1) → ∀ e : Expr,
    (P → e.Made tokens false s₀ s) → Reads tokens .plain s (accesses expr j e) (accesses expr' k e)
      fun e' s' => P → e'.Made tokens false s₀ s') ?_ ?_ hrounds hdepth e he
  · exact fun _ _ _ he => .pure he
  · intro j k s ih hdepth e he
    have hnext : s.peek.isPlain = true → ∀ (e' : Expr) (s₁ : Parsing), s.advance.Moves tokens s₁ →
        (P → e'.Made tokens false s₀ s₁) → Reads tokens .plain s₁ (accesses expr j e')
          (accesses expr' k e') fun e' s' => P → e'.Made tokens false s₀ s' := by
      intro hplain e' s₁ hmoves he'
      have htakes := (takes_advance s).trans hmoves.takes
      exact ih s₁ htakes (ate_of_isPlain hplain hmoves.takes) (hdepth.takes htakes) e' he'
    rw [accesses, accesses]
    refine .peek ?_
    split
    · rename_i hpeek
      have hplain : s.peek.isPlain = true := hpeek ▸ rfl
      exact .advance hplain fun _ => (reads_member hexpr hdepth hplain he).bind (hnext hplain)
    · rename_i hpeek
      have hplain : s.peek.isPlain = true := hpeek ▸ rfl
      refine .get (.ite (fun htakes => ?_) fun _ => .pure he)
      have hkind : e.kind = .selector := of_decide_eq_true (Bool.and_eq_true_iff.mp htakes).1
      exact .advance hplain fun _ => (does_dataPath hplain he hkind).bind (hnext hplain)
    · exact .pure he

theorem walks_accessed : Walks tokens (J + 1) (K + 1) (accessed expr) (accessed expr') :=
  fun _ hdepth => (walks_primary hexpr hdepth).bind fun _ _ hmoves he =>
    .left ((reads_accesses hexpr (.refl _ _) (hdepth.takes hmoves.takes) fun _ => he).mono
      fun _ _ h => h trivial)

theorem reads_signed {j k : Nat} (hrounds : s.Bounds j k) (hdepth : s.Bounds (J + 1) (K + 1)) :
    Reads tokens .plain s (signed expr j) (signed expr' k) fun e s' =>
      e.Made tokens false s s' := by
  refine rounds (R := fun j k s => s.Bounds (J + 1) (K + 1) →
    Reads tokens .plain s (signed expr j) (signed expr' k) fun e s' =>
      e.Made tokens false s s') ?_ ?_ hrounds hdepth
  · exact fun _ hdepth => walks_accessed hexpr hdepth
  · intro j k s ih hdepth
    have hsign (op : UnaryOp) (hplain : s.peek.isPlain = true) (hspot : Spot tokens s.here) :
        Reads tokens .plain s.advance (do unary op s.here (← signed expr j))
          (do unary op s.here (← signed expr' k)) fun e s' => e.Made tokens false s s' := by
      have hspan := Lies.token hplain hspot
      refine (ih _ (takes_advance s) (ate_of_isPlain hplain (.refl _))
        (hdepth.takes (takes_advance s))).bind fun e s₁ hmoves he => ?_
      exact does_unary (hspan.back hmoves) (he.front hspan.moves)
    rw [signed, signed]
    refine .peek ?_
    split
    · rename_i hpeek
      have hplain : s.peek.isPlain = true := hpeek ▸ rfl
      refine .advance hplain fun hspot => .given fun h₁ => .get (.ite (fun hat => ?_) fun _ => ?_)
      · -- the sign belongs to the number behind it
        have hnumber := (Bool.and_eq_true_iff.mp hat).1
        have hspan := Lies.token hplain hspot
        refine .advance (Token.isPlain_of_isNumber hnumber) fun hspot' => ?_
        have hspan' := Lies.token (Token.isPlain_of_isNumber hnumber) hspot'
        refine does_numberLiteral (h₁.among rfl ?_) ?_
        · exact Token.isEnd_of_isPlain (Token.isPlain_of_isNumber hnumber)
        · exact .merge (hspan.back hspan'.moves) (hspan'.front hspan.moves)
      · exact hsign .neg hplain hspot
    · rename_i hpeek
      exact .advance (hpeek ▸ rfl) fun hspot => hsign .not (hpeek ▸ rfl) hspot
    · exact walks_accessed hexpr hdepth

theorem walks_factor : Walks tokens (J + 1) (K + 1) (factor expr) (factor expr') :=
  fun _ hdepth => .left (reads_signed hexpr (.refl _ _) hdepth)

theorem walks_product : Walks tokens (J + 1) (K + 1) (product expr) (product expr') :=
  walks_level (joins_operatorAt? (by decide)) (walks_factor hexpr)

theorem walks_sum : Walks tokens (J + 1) (K + 1) (sum expr) (sum expr') :=
  walks_level (joins_operatorAt? (by decide)) (walks_product hexpr)

theorem walks_ranged : Walks tokens (J + 1) (K + 1) (ranged expr) (ranged expr') := by
  intro s hdepth
  have hnone : ∀ {s₀ s : Parsing}, ∀ e ∈ (none : Option Expr), e.Made tokens false s₀ s := by
    rintro _ _ _ ⟨⟩
  have hsome : ∀ {s₀ s : Parsing} {e : Expr}, e.Made tokens false s₀ s →
      ∀ e' ∈ some e, e'.Made tokens false s₀ s := by
    rintro _ _ _ he _ ⟨⟩
    exact he
  refine .isAt (.ite (fun hat => ?_) fun _ => ?_)
  · have hplain : s.peek.isPlain = true := Token.eq_of_isMark hat ▸ rfl
    refine .advance hplain fun hspot => ?_
    have hdots := Lies.token hplain hspot
    refine (walks_sum hexpr (hdepth.takes (takes_advance s))).bind fun max s₁ hmoves hmax => ?_
    exact does_range (hdots.back hmoves) hnone (hsome (hmax.front hdots.moves)) (.inr rfl)
  · refine (walks_sum hexpr hdepth).bind fun min s₁ hmoves hmin => .isAt ?_
    refine .ite (fun hat => ?_) fun _ => .pure hmin
    have hplain : s₁.peek.isPlain = true := Token.eq_of_isMark hat ▸ rfl
    refine .advance hplain fun hspot => .peek (.ite (fun _ => ?_) fun _ => ?_)
    · rw [bind_map_left, bind_map_left]
      have hdots := Lies.token hplain hspot
      have htakes := hmoves.takes.trans (takes_advance s₁)
      refine (walks_sum hexpr (hdepth.takes htakes)).bind fun max s₂ hmoves₂ hmax => ?_
      refine does_range (.widen hmoves hdots hmoves₂) ?_ ?_ (.inl rfl)
      · exact hsome (hmin.back (.trans (.take hplain) hmoves₂))
      · exact hsome (hmax.front (.trans hmoves (.take hplain)))
    · have hdots := (Lies.token hplain hspot).front hmoves
      exact does_range hdots (hsome (hmin.back (.take hplain))) hnone (.inl rfl)

theorem walks_relation : Walks tokens (J + 1) (K + 1) (relation expr) (relation expr') :=
  walks_level joins_relationAt? (walks_ranged hexpr)

theorem walks_conjunction : Walks tokens (J + 1) (K + 1) (conjunction expr) (conjunction expr') :=
  walks_level (joins_operatorAt? (by decide)) (walks_relation hexpr)

theorem walks_disjunction : Walks tokens (J + 1) (K + 1) (disjunction expr) (disjunction expr') :=
  walks_level (joins_operatorAt? (by decide)) (walks_conjunction hexpr)

end Nested

/-- **Expressions** are not cut short by the levels of their brackets. -/
theorem walks_expressionWithin : ∀ j k : Nat,
    Walks tokens j k (expressionWithin j) (expressionWithin k)
  | 0, 0 => fun _ _ => .failExpecting _
  | 0, _ + 1 => fun _ hdepth => by cases hdepth.zero_iff.mp rfl
  | _ + 1, 0 => fun _ hdepth => by cases hdepth.zero_iff.mpr rfl
  | j + 1, k + 1 => walks_disjunction (walks_expressionWithin j k)

/-- **Expressions** are made as the grammar says. -/
theorem does_expression :
    Does tokens .plain s expression fun e s' => e.Made tokens false s s' :=
  .left (walks_expressionWithin _ _ (.refl _ _))

end Parse

end Packwright
