import Packwright.Proofs.Core.Computing
import Packwright.Proofs.Core.Trees
import Packwright.Proofs.Folding

/-!
# Numbers of the core

What generation makes of a number of the core, and what a run of its lines does.  A constant needs
no line: its value is known.  Every other number ends in a score.

* `Draft.env d w`: the values that the variables of the draft have in a world.
* `NumberTree.constant`: the value of a constant number.
* `Computes d lines d' v a`: behind the lines, the value `v` stands for the value of the number `a`.
* `NumberTree.generates`: trees of numbers become such lines.
-/

namespace Packwright

open Gen Run Words Packwright.Core

/-! ## The values of variables -/

/-- The values that the variables of a draft have in a world. -/
def Draft.env (d : Draft) (w : World) : Env := fun x =>
  match d.lookup? x with
  | some (.score s) => w.score? s
  | _ => none

/-- Every variable of the draft has a value. -/
def Draft.Ready (d : Draft) (w : World) : Prop :=
  ∀ x s, d.lookup? x = some (.score s) → ∃ n, w.score? s = some n

/-- The names of some variables are bound to scores. -/
def Draft.Binds (d : Draft) (V : Set String) : Prop := ∀ x ∈ V, ∃ s, d.lookup? x = some (.score s)

theorem Draft.lookup?_of_scopes {d d' : Draft} (h : d'.scopes = d.scopes) (x : String) :
    d'.lookup? x = d.lookup? x := by
  rw [Draft.lookup?, Draft.lookup?, h]

theorem Expr.generate_name {d : Draft} {x : String} {v : Value} (i : Info)
    (h : d.lookup? x = some v) : (Expr.name i x).generate.run.run d = (some v, d) := by
  rw [Expr.generate]
  exact congrArg (·, d) h

theorem Draft.Binds.of_scopes {d d' : Draft} {V : Set String} (h : d.Binds V)
    (hscopes : d'.scopes = d.scopes) : d'.Binds V := fun x hx =>
  (Draft.lookup?_of_scopes hscopes x).symm ▸ h x hx

namespace Draft.Neat

variable {d d' : Draft} {w w' : World} {F : Set Score} {x : String} {s : Score}

theorem of_lookup? (h : d.Neat) (hx : d.lookup? x = some (.score s)) :
    s.IsVariable ∧ s.Plain ∧ s.entry ∈ d.taken := h.owned s (mem_scoresOf_of_findSome? hx)

/-- The values of variables stay where no score of a variable changes. -/
theorem env_eq (h : d.Neat) (hscopes : d'.scopes = d.scopes) (hF : ∀ s ∈ F, ¬ s.IsVariable)
    (hw : World.Agree F w w') : d'.env w' = d.env w := by
  funext x
  unfold Draft.env
  rw [Draft.lookup?_of_scopes hscopes]
  cases hx : d.lookup? x with
  | none => rfl
  | some v =>
    cases v with
    | score s => exact hw.score s fun hs => hF s hs (h.of_lookup? hx).1
    | _ => rfl

theorem ready (h : d.Neat) (hscopes : d'.scopes = d.scopes) (hF : ∀ s ∈ F, ¬ s.IsVariable)
    (hw : World.Agree F w w') (hr : d.Ready w) : d'.Ready w' := by
  intro x s hx
  rw [Draft.lookup?_of_scopes hscopes] at hx
  obtain ⟨n, hn⟩ := hr x s hx
  exact ⟨n, (hw.score s fun hs => hF s hs (h.of_lookup? hx).1).trans hn⟩

end Draft.Neat

/-! ## Constants -/

namespace Core

/-- A number without variables has one value. -/
theorem Number.eval_of_constant? (env : Env) : ∀ {a : Number} {n : Amount},
    a.constant? = some n → a.eval env = some n
  | .literal _, _, h => h
  | .variable _, _, h => by cases h
  | .arith op a b, n, h => by
    obtain ⟨k, hk, h⟩ := Option.bind_eq_some_iff.mp h
    obtain ⟨m, hm, h⟩ := Option.bind_eq_some_iff.mp h
    have ha := eval_of_constant? env hk
    have hb := eval_of_constant? env hm
    rw [Number.eval, ha, hb]
    exact h
  | .negate a, n, h => by
    obtain ⟨k, hk, h⟩ := Option.bind_eq_some_iff.mp h
    have ha := eval_of_constant? env hk
    rw [Number.eval, ha]
    exact h

variable {V : Set String} {e : Expr} {a : Number} {d : Draft}

theorem onWord_eq {op : Arith} {m n : Amount} (h : (op = .div ∨ op = .mod) → n ≠ 0) :
    op.onWord m n = some (wrap (arithmetic op m.toInt n.toInt)) := by
  have hzero : n ≠ 0 → n.toInt ≠ 0 := fun hn hz => hn (toInt_eq_zero.mp hz)
  rw [Arith.onWord_eq_result]
  cases op with
  | add => rfl
  | sub => rfl
  | mul => rfl
  | div =>
    have hn := hzero (h (Or.inl rfl))
    simp [Arith.result?, arithmetic, hn, wrap]
  | mod =>
    have hn := hzero (h (Or.inr rfl))
    simp [Arith.result?, arithmetic, hn, wrap]

/-- A constant number is known when the lines are written. -/
theorem NumberTree.constant : ∀ {e : Expr} {a : Number}, NumberTree V e a .int → a.safe = true →
    ∃ n, a.constant? = some n ∧ ∀ d, e.generate.run.run d = (some (.int n), d)
  | _, _, .literal _ n, _ => ⟨n, rfl, fun _ => rfl⟩
  | _, _, @NumberTree.fold _ i op l r a b o hl hr ho, hsafe => by
    simp only [Number.safe, Bool.and_eq_true, Bool.not_eq_true'] at hsafe
    obtain ⟨⟨hsl, hsr⟩, hdiv⟩ := hsafe
    obtain ⟨m, hm, hlm⟩ := NumberTree.constant hl hsl
    obtain ⟨n, hn, hrn⟩ := NumberTree.constant hr hsr
    have hzero : (op = .div ∨ op = .mod) → n ≠ 0 := by
      rintro hop rfl
      simp only [hm, hn, Option.isSome_some, Bool.and_true, decide_true, Bool.or_eq_false_iff,
        decide_eq_false_iff_not] at hdiv
      exact hop.elim hdiv.1 hdiv.2
    refine ⟨wrap (arithmetic op m.toInt n.toInt), ?_, fun d => ?_⟩
    · rw [Number.constant?] at hm hn ⊢
      rw [Number.eval, hm, hn]
      rfl
    · rw [Expr.generate]
      rw [run_andThen (hlm d), run_andThen (hrn d), ho]
      show (Value.arith op (.int m) (.int n), d) = _
      rw [Value.arith, onWord_eq hzero]
      rfl
  | _, _, @NumberTree.negate _ i e a o he ho, hsafe => by
    obtain ⟨n, hn, hen⟩ := NumberTree.constant he hsafe
    refine ⟨-n, ?_, fun d => ?_⟩
    · rw [Number.constant?] at hn ⊢
      rw [Number.eval, hn]
      exact congrArg some (ofInt_toInt_neg n)
    · rw [Expr.generate]
      rw [run_andThen (hen d), ho]
      rfl

/-! ## Numbers -/

/-- Lines behind which a value stands for the value of a number. -/
structure Computes (d : Draft) (lines : List String) (d' : Draft) (v : Value) (a : Number) :
    Prop where
  adds : d.Adds lines d'
  steady : v.Steady d'
  runs : ∀ callee w f w', d.Ready w → sequence callee (lines.map Order.ofText) w = .ok f w' →
    f = .next ∧ World.Agree (d.fresh d') w w' ∧ ∃ n, a.eval (d.env w) = some n ∧ v.Denotes w' n

namespace Computes

variable {d₁ d₂ : Draft} {lines lines' : List String} {v v' : Value} {b : Number}

/-- A constant needs no line. -/
theorem constant {n : Amount} (d : Draft) (h : a.constant? = some n) :
    Computes d [] d (.int n) a := by
  refine ⟨.refl d, .int n, fun callee w f w' _ hrun => ?_⟩
  obtain ⟨rfl, rfl⟩ := sequence_nil_ok.mp hrun
  exact ⟨rfl, .refl _ _, n, Number.eval_of_constant? _ h, .int n⟩

/-- A variable needs no line. -/
theorem of_lookup? {x : String} {s : Score} (hd : d.Neat) (hx : d.lookup? x = some (.score s)) :
    Computes d [] d (.score s) (.variable x) := by
  obtain ⟨hvar, hplain, -⟩ := hd.of_lookup? hx
  refine ⟨.refl d, .score hplain (Draft.old_of_isVariable hvar), fun callee w f w' hr hrun => ?_⟩
  obtain ⟨rfl, rfl⟩ := sequence_nil_ok.mp hrun
  obtain ⟨n, hn⟩ := hr x s hx
  refine ⟨rfl, .refl _ _, n, ?_, .score hn⟩
  rw [Number.eval, Draft.env, hx]
  exact hn

/-- Two numbers one behind the other. -/
theorem both (hd : d.Neat) (h : Computes d lines d₁ v a) (h' : Computes d₁ lines' d₂ v' b) :
    d.Adds (lines ++ lines') d₂ ∧ v.Steady d₂ ∧ ∀ callee w f w', d.Ready w →
      sequence callee ((lines ++ lines').map Order.ofText) w = .ok f w' →
      f = .next ∧ World.Agree (d.fresh d₂) w w' ∧ ∃ m n, a.eval (d.env w) = some m ∧
        b.eval (d.env w) = some n ∧ v.Denotes w' m ∧ v'.Denotes w' n := by
  refine ⟨h.adds.trans h'.adds, h.steady.grow h'.adds.toGrows, fun callee w f w' hr hrun => ?_⟩
  obtain ⟨u, hu, hrest⟩ := sequence_lines_append (fun g u hs => (h.runs callee w g u hr hs).1) hrun
  obtain ⟨-, hagree, m, hm, hvm⟩ := h.runs callee w _ u hr hu
  have hfresh : ∀ s ∈ d.fresh d₁, ¬ s.IsVariable := fun s hs => Draft.not_isVariable_of_mem_fresh hs
  obtain ⟨rfl, hagree', n, hn, hvn⟩ := h'.runs callee u _ w'
    (hd.ready h.adds.scopes_eq hfresh hagree hr) hrest
  rw [hd.env_eq h.adds.scopes_eq hfresh hagree] at hn
  exact ⟨rfl, (hagree.mono h'.adds.toGrows.fresh_left).trans
    (hagree'.mono h.adds.toGrows.fresh_right), m, n, hm, hn, hvm.agree h.steady hagree', hvn⟩

/-- More lines behind those of a number. -/
theorem andThen {n : Amount → Amount} (h : Computes d lines d₁ v a) (hadds : d₁.Adds lines' d₂)
    (hsteady : v'.Steady d₂) (heval : ∀ env m, a.eval env = some m → b.eval env = some (n m))
    (hruns : ∀ callee w f w' m, v.Denotes w m →
      sequence callee (lines'.map Order.ofText) w = .ok f w' →
      f = .next ∧ World.Agree (d₁.fresh d₂) w w' ∧ v'.Denotes w' (n m)) :
    Computes d (lines ++ lines') d₂ v' b := by
  refine ⟨h.adds.trans hadds, hsteady, fun callee w f w' hr hrun => ?_⟩
  obtain ⟨u, hu, hrest⟩ := sequence_lines_append (fun g u hs => (h.runs callee w g u hr hs).1) hrun
  obtain ⟨-, hagree, m, hm, hvm⟩ := h.runs callee w _ u hr hu
  obtain ⟨rfl, hagree', hvn⟩ := hruns callee u _ w' m hvm hrest
  exact ⟨rfl, (hagree.mono hadds.toGrows.fresh_left).trans
    (hagree'.mono h.adds.toGrows.fresh_right), n m, heval _ m hm, hvn⟩

end Computes

theorem arithmetic_comm {op : Arith} (h : op = .add ∨ op = .mul) (a b : Int) :
    arithmetic op a b = arithmetic op b a := by
  rcases h with rfl | rfl
  · exact Int.add_comm a b
  · exact Int.mul_comm a b

/-- The operator of two numbers, of which the one in a score is changed by the other. -/
theorem Computes.arith {d₁ d₂ : Draft} {lines lines' : List String} {s : Score} {v l r : Value}
    {b : Number} {op : Arith} (hd : d.Neat) (h : Computes d lines d₁ l a)
    (h' : Computes d₁ lines' d₂ r b) (hv : v.Steady d₂) (hs : Value.Steady d₂ (.score s))
    (hside : (l = .score s ∧ r = v) ∨ ((op = .add ∨ op = .mul) ∧ r = .score s ∧ l = v)) :
    ∃ t lines'' d', (s.compute op v).run.run d₂ = (some (.score t), d') ∧
      Computes d (lines ++ lines' ++ lines'') d' (.score t) (.arith op a b) := by
  obtain ⟨hadds, -, hruns⟩ := h.both hd h'
  cases hs with
  | score hplain _ =>
    obtain ⟨t, lines'', d', hrun, hadds', htp, hto, hdoes⟩ :=
      Score.compute_spec (hadds.plain hd.plain) op hplain hv
    refine ⟨t, lines'', d', hrun, hadds.trans hadds', .score htp hto,
      fun callee w f w' hr hall => ?_⟩
    obtain ⟨u, hu, hrest⟩ := sequence_lines_append
      (fun g u hs => (hruns callee w g u hr hs).1) hall
    obtain ⟨-, hagree, m, n, hm, hn, hlm, hrn⟩ := hruns callee w _ u hr hu
    have heval : (Number.arith op a b).eval (d.env w) =
        some (wrap (arithmetic op m.toInt n.toInt)) := by
      rw [Number.eval, hm, hn]
      rfl
    rcases hside with ⟨rfl, rfl⟩ | ⟨hop, rfl, rfl⟩
    · cases hlm with
      | score hm' =>
        obtain ⟨rfl, hagree', hscore⟩ := hdoes callee u _ w' m n hm' hrn hrest
        exact ⟨rfl, (hagree.mono hadds'.toGrows.fresh_left).trans
          (hagree'.mono hadds.toGrows.fresh_right), _, heval, .score hscore⟩
    · cases hrn with
      | score hn' =>
        obtain ⟨rfl, hagree', hscore⟩ := hdoes callee u _ w' n m hn' hlm hrest
        rw [arithmetic_comm hop] at hscore
        exact ⟨rfl, (hagree.mono hadds'.toGrows.fresh_left).trans
          (hagree'.mono hadds.toGrows.fresh_right), _, heval, .score hscore⟩

/-- **Numbers of the core** become lines that compute them. -/
theorem NumberTree.generates : ∀ {e : Expr} {a : Number} {k : Kind}, NumberTree V e a k →
    a.safe = true → ∀ {d : Draft}, d.Neat → d.Binds V →
      ∃ v lines d', e.generate.run.run d = (some v, d') ∧ v.kind = k ∧ Computes d lines d' v a
  | _, _, _, .literal i n, hsafe, d, _, _ => ⟨.int n, [], d, rfl, rfl, .constant d rfl⟩
  | _, _, _, .variable i hx, _, d, hd, hV => by
    obtain ⟨s, hs⟩ := hV _ hx
    exact ⟨.score s, [], d, Expr.generate_name i hs, rfl, .of_lookup? hd hs⟩
  | _, _, _, .fold hl hr ho, hsafe, d, _, _ => by
    obtain ⟨n, hn, hgen⟩ := NumberTree.constant (V := V) (.fold hl hr ho) hsafe
    exact ⟨.int n, [], d, hgen d, rfl, .constant d hn⟩
  | _, _, _, .negate he ho, hsafe, d, _, _ => by
    obtain ⟨n, hn, hgen⟩ := NumberTree.constant (V := V) (.negate he ho) hsafe
    exact ⟨.int n, [], d, hgen d, rfl, .constant d hn⟩
  | _, _, _, .scoreArith hl hr ho, hsafe, d, hd, hV => by
    simp only [Number.safe, Bool.and_eq_true] at hsafe
    obtain ⟨⟨hsl, hsr⟩, -⟩ := hsafe
    obtain ⟨l, lines, d₁, hgl, hkl, hcl⟩ := NumberTree.generates hl hsl hd hV
    have hd₁ := hd.grow hcl.adds.toGrows hcl.adds.scopes_eq
    obtain ⟨r, lines', d₂, hgr, -, hcr⟩ := NumberTree.generates hr hsr hd₁
      (hV.of_scopes hcl.adds.scopes_eq)
    obtain ⟨s, rfl⟩ := hcl.steady.exists_score hkl
    obtain ⟨t, lines'', d', hrun, hc⟩ := hcl.arith hd hcr hcr.steady
      (hcl.steady.grow hcr.adds.toGrows) (Or.inl ⟨rfl, rfl⟩)
    refine ⟨.score t, _, d', ?_, rfl, hc⟩
    rw [Expr.generate]
    rw [run_andThen hgl, run_andThen hgr, ho]
    exact hrun
  | _, _, _, .arithWithScore hop hl hr ho, hsafe, d, hd, hV => by
    simp only [Number.safe, Bool.and_eq_true] at hsafe
    obtain ⟨⟨hsl, hsr⟩, -⟩ := hsafe
    obtain ⟨n, hn, hgl⟩ := NumberTree.constant hl hsl
    obtain ⟨r, lines', d₂, hgr, hkr, hcr⟩ := NumberTree.generates hr hsr hd hV
    obtain ⟨s, rfl⟩ := hcr.steady.exists_score hkr
    obtain ⟨t, lines'', d', hrun, hc⟩ := (Computes.constant d hn).arith hd hcr (.int n) hcr.steady
      (Or.inr ⟨hop, rfl, rfl⟩)
    refine ⟨.score t, _, d', ?_, rfl, hc⟩
    rw [Expr.generate]
    rw [run_andThen (hgl d), run_andThen hgr, ho]
    exact hrun
  | _, _, _, .negateScore he ho, hsafe, d, hd, hV => by
    obtain ⟨v, lines, d₁, hg, hk, hc⟩ := NumberTree.generates he hsafe hd hV
    obtain ⟨s, rfl⟩ := hc.steady.exists_score hk
    cases hsteady : hc.steady with
    | score hplain hold =>
      obtain ⟨t, lines', d', hrun, hadds, htp, hto, hdoes⟩ :=
        Score.opposite_spec (hc.adds.plain hd.plain) hplain hold
      refine ⟨.score t, _, d', ?_, rfl, hc.andThen hadds (.score htp hto)
        (n := fun m => wrap (-m.toInt)) (fun env m hm => ?_) fun callee w f w' m hm h => ?_⟩
      · rw [Expr.generate]
        rw [run_andThen hg, ho]
        show (some (s.opposite.run d₁).1, (s.opposite.run d₁).2) = _
        rw [hrun]
      · rw [Number.eval, hm]
        rfl
      · cases hm with
        | score hm =>
          obtain ⟨hf, hagree, hscore⟩ := hdoes callee w f w' m hm h
          exact ⟨hf, hagree, .score hscore⟩
  | _, _, _, .toScore he hc, hsafe, d, hd, hV => by
    obtain ⟨n, hn, hgen⟩ := NumberTree.constant he hsafe
    obtain ⟨t, lines, d', hrun, hadds, htp, hto, hdoes⟩ := Score.ofValue_spec hd.plain n
    refine ⟨.score t, lines, d', ?_, rfl, hadds, .score htp hto, fun callee w f w' _ h => ?_⟩
    · rw [Expr.generate]
      rw [run_andThen (hgen d), Cast.apply_score hc]
      exact hrun
    · obtain ⟨hf, hagree, hscore⟩ := hdoes callee w f w' h
      exact ⟨hf, hagree, n, Number.eval_of_constant? _ hn, .score hscore⟩

end Core

end Packwright
