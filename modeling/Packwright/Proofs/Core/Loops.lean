import Packwright.Proofs.Core.Simulation

/-!
# Loops

The list of a loop holds the lines of its body, the lines in front of its condition, and a guarded
call of itself.  The condition is tested once in front of the loop and again at the end of every
round, so that it is false behind the loop.

* `Repeat t R`: rounds of `R` as long as the condition `t` holds.
* `loop_ok`: a run of the guarded call goes through such rounds.
* `Realizes.loop`: the lines of a loop.
-/

namespace Packwright

open Gen Run Words Packwright.Core

/-- Rounds of a step, as long as a condition holds. -/
inductive Repeat (t : Truth) (R : State → State → Prop) : State → State → Prop
  | stop {σ : State} (h : t.eval σ.lookup? = some false) : Repeat t R σ σ
  | round {σ σ₁ τ : State} (h : t.eval σ.lookup? = some true) (hR : R σ σ₁)
    (h' : Repeat t R σ₁ τ) : Repeat t R σ τ

/-! ## A list under a name that was drawn first -/

section Drawn

variable {d d₁ : Draft} {purpose : String} {l lines body : List String} {T : Set ResourceId}

theorem Draft.listed_withFunction (purpose : String) (id : ResourceId) (body : List String)
    {other : ResourceId} (h : other ∈ d.listed (d₁.withFunction id body)) :
    other = d.options.list purpose (d.count (.list purpose)) ∨
      other ∈ (d.draw (.list purpose)).listed d₁ := by
  obtain ⟨purpose', n, hp', hlo, hhi, rfl⟩ := h
  have hcount := count_draw d (.list purpose) (.list purpose')
  by_cases hn : (d.draw (.list purpose)).count (.list purpose') ≤ n
  · exact Or.inr ⟨purpose', n, hp', hn, hhi, rfl⟩
  · left
    rw [hcount] at hn
    by_cases heq : Series.list purpose' = .list purpose
    · obtain rfl : purpose' = purpose := by simpa using heq
      rw [if_pos rfl] at hn
      obtain rfl : n = d.count (.list purpose') := by omega
      rfl
    · rw [if_neg heq] at hn
      omega

/-- The name that was drawn first is not one of those that were drawn later. -/
theorem Draft.ne_of_mem_listed (hp : Lettered purpose) {other : ResourceId}
    (h : other ∈ (d.draw (.list purpose)).listed d₁) :
    other ≠ d.options.list purpose (d.count (.list purpose)) := by
  obtain ⟨purpose', n, hp', hlo, -, rfl⟩ := h
  intro heq
  obtain ⟨rfl, rfl⟩ := Options.list_inj hp' hp heq
  rw [count_draw, if_pos rfl] at hlo
  omega

theorem Draft.function?_withFunction (hp : Lettered purpose) {other : ResourceId}
    (h : other ∈ (d.draw (.list purpose)).listed d₁) (body : List String) :
    (d₁.withFunction (d.options.list purpose (d.count (.list purpose))) body).pack.function? other =
      d₁.pack.function? other :=
  Table.get?_put_of_ne _ _ (Draft.ne_of_mem_listed hp h)

theorem Draft.full_withFunction (hp : Lettered purpose) (body : List String) :
    (d.draw (.list purpose)).full d₁ ⊆
      d.full (d₁.withFunction (d.options.list purpose (d.count (.list purpose))) body) := by
  rintro other ⟨hother, line, rest, hrest⟩
  refine ⟨?_, line, rest, ?_⟩
  · exact (Grows.draw d (.list purpose)).listed_right hother
  · rw [function?_withFunction hp hother, hrest]

theorem Draft.mem_listed_withFunction (hp : Lettered purpose)
    (hg : (d.draw (.list purpose)).Grows l d₁) (body : List String) :
    d.options.list purpose (d.count (.list purpose)) ∈
      d.listed (d₁.withFunction (d.options.list purpose (d.count (.list purpose))) body) := by
  refine ⟨purpose, _, hp, le_rfl, ?_, rfl⟩
  exact (d.lt_count_draw _).trans_le (hg.count _)

/-- The list under the name may hold what was tidy, and what was tidy may call it. -/
theorem Draft.Tidy.withFunction (hp : Lettered purpose)
    (h : Tidy T (d.draw (.list purpose)) d₁ lines) (body : List String) (hbody : body ⊆ lines)
    (hT : T ⊆ d.full (d₁.withFunction (d.options.list purpose (d.count (.list purpose))) body)) :
    Tidy ∅ d (d₁.withFunction (d.options.list purpose (d.count (.list purpose))) body) lines := by
  have hsub : T ∪ (d.draw (.list purpose)).full d₁ ⊆
      ∅ ∪ d.full (d₁.withFunction (d.options.list purpose (d.count (.list purpose))) body) := by
    rintro id (hid | hid)
    · exact Or.inr (hT hid)
    · exact Or.inr (full_withFunction hp body hid)
  refine ⟨fun line hline => (h.clear line hline).mono hsub,
    fun id hid content hcontent line hline => ?_⟩
  rcases listed_withFunction purpose _ body hid with rfl | hid
  · have hget : some body = some content := (Table.get?_put_self _ _ _).symm.trans hcontent
    obtain rfl := Option.some.inj hget
    exact (h.clear line (hbody hline)).mono hsub
  · rw [function?_withFunction hp hid] at hcontent
    exact (h.bodies id hid content hcontent line hline).mono hsub

/-- The program holds the list under the name and all that were added before it. -/
theorem Program.Holds.withFunction {p : Program} (hl : Lettered purpose)
    (hg : (d.draw (.list purpose)).Grows l d₁)
    (h : p.Holds d (d₁.withFunction (d.options.list purpose (d.count (.list purpose))) body)) :
    p.get? (d.options.list purpose (d.count (.list purpose))) = some (body.map Order.ofText) ∧
      p.Holds (d.draw (.list purpose)) d₁ := by
  constructor
  · rw [h _ (Draft.mem_listed_withFunction hl hg body), Pack.get?_program]
    have hget := Table.get?_put_self d₁.pack.functions
      (d.options.list purpose (d.count (.list purpose))) body
    exact congrArg (Option.map _) hget
  · intro other hother
    have hlisted := (Draft.Grows.draw d (.list purpose)).listed_right hother
    rw [h other hlisted, Pack.get?_program, Pack.get?_program,
      Draft.function?_withFunction hl hother]

end Drawn

/-- A condition that leaves no line has drawn nothing. -/
theorem Condition.eq_of_lower_nil : ∀ {c : Condition} {run : String} {d d' : Draft},
    (c.lower run).run d = ([], d') → d' = d
  | .leaf _ (.constant _), _, _, _, h | .leaf _ (.within _ _), _, _, _, h
  | .leaf _ (.compare _ _ _), _, _, _, h | .leaf _ (.entity _), _, _, _, h
  | .leaf _ (.data _), _, _, _, h => (Prod.mk.inj h).2.symm
  | .all _ [], _, _, _, h => (Prod.mk.inj h).2.symm
  | .all _ (_ :: _), _, _, _, h => absurd rfl (lowerAll_ne_nil h)
  | .any _ [], _, _, _, h => (Prod.mk.inj h).2.symm
  | .any _ (_ :: _), _, _, _, h => by
    obtain ⟨tests, -, hlines⟩ := lower_any_cases h
    cases hlines

/-! ## Rounds -/

section Rounds

variable {p : Program} {d d₀ d₁ d₂ d₃ : Draft} {setup guard lines : List String} {c : Condition}
  {t : Truth} {R : State → State → Prop} {id : ResourceId}

/-- **Rounds of a loop.**  The lines in front of the condition have run, so its truth is known; a
run of the guarded call goes through rounds until the condition is false.  By induction on the
depth: every round is one call deeper. -/
theorem loop_ok (hd : d₀.Neat) (ht : Tests d₀ setup d₁ c t) (hid : id.Worded)
    (hlower : (c.lower (Line.call id)).run d₁.popFrame = (guard, d₂)) (hg₂₃ : d₂.Grows [] d₃)
    (hs₃ : d₃.scopes = d₂.scopes) (h : Realizes d₂ d₃ lines R) (hp : p.Holds d₀ d₃)
    (hget : p.get? id = some ((lines ++ setup ++ guard).map Order.ofText)) :
    ∀ (depth : Nat) {w w' : World} {f : Flow} {σ : State}, d₀.Reflects w σ →
      t.eval σ.lookup? = some (c.holds w) →
      sequence (function p depth) (guard.map Order.ofText) w = .ok f w' →
      f = .next ∧ World.Kept (d₀.fresh d₃) w w' ∧ c.holds w' = false ∧
        ∃ τ, Repeat t R σ τ ∧ d₀.Reflects w' τ := by
  have hg₂ := Condition.grows_of_lower hlower
  have hs₂ : d₂.scopes = d₀.scopes := (Condition.scopes_of_lower hlower).trans ht.adds.scopes_eq
  have hplain : d₁.popFrame.options.Plain := ht.adds.plain hd.plain
  have hc : c.Steady d₁.popFrame := ht.steady
  have hpd₁ := hp.right ht.adds.toGrows
  have hp₁ : p.Holds d₁.popFrame d₃ := hpd₁
  have hfirst : d₀.fresh d₁ ⊆ d₀.fresh d₃ := (hg₂.trans hg₂₃).fresh_left
  have hlow : d₁.popFrame.fresh d₂ ⊆ d₀.fresh d₃ := fun s hs =>
    ht.adds.toGrows.fresh_right (hg₂₃.fresh_left hs)
  have hlast : d₂.fresh d₃ ⊆ d₀.fresh d₃ := fun s hs =>
    ht.adds.toGrows.fresh_right (hg₂.fresh_right hs)
  intro depth
  induction depth using Nat.strong_induction_on with
  | _ depth ih =>
    intro w w' f σ hσ heval hrun
    -- one round, and all that follow it
    have hround : ∀ n ≤ depth, ∀ u g v, World.Agree (d₁.popFrame.fresh d₂) w u →
        command (function p n) (Order.ofText (Line.call id)) u = .ok g v →
        g = .next ∧ World.Kept (d₀.fresh d₃) u v ∧ c.holds v = false ∧
          ∃ σ₁ τ, R σ σ₁ ∧ Repeat t R σ₁ τ ∧ d₀.Reflects v τ := by
      intro n hn u g v hu hcmd
      obtain ⟨rfl, m, g', rfl, hs⟩ := command_list_ok hid hget hcmd
      have hσu : d₂.Reflects u.counted σ :=
        ((hσ.fresh hd hu).agree hd (fun s hs => absurd hs (Set.notMem_empty s))
          (.counted ∅ u)).of_scopes hs₂
      rw [List.append_assoc] at hs
      obtain ⟨u₁, hu₁, hs₁⟩ := sequence_lines_append
        (fun g x hx => (h.runs p (hp₁.right hg₂) m _ g x σ hσu hx).1) hs
      obtain ⟨-, hkept₁, σ₁, hR, hreflects₁⟩ := h.runs p (hp₁.right hg₂) m _ _ u₁ σ hσu hu₁
      have hσ₁ : d₀.Reflects u₁ σ₁ := hreflects₁.of_scopes (hs₃.trans hs₂).symm
      obtain ⟨u₂, hu₂, hs₂'⟩ := sequence_lines_append
        (fun g x hx => (ht.prepares hd hσ₁ hx).1) hs₁
      obtain ⟨-, hkept₂, heval₂, hreflects₂⟩ := ht.prepares hd hσ₁ hu₂
      obtain ⟨-, hkept₃, hfalse, τ, hτ, hv⟩ := ih m (by omega)
        (hreflects₂.of_scopes ht.adds.scopes_eq.symm) heval₂ hs₂'
      have hcount : World.Kept (d₀.fresh d₃) u u.counted := .of_agree (.counted _ u)
      exact ⟨rfl, ((hcount.trans (hkept₁.mono hlast)).trans (hkept₂.mono hfirst)).trans hkept₃,
        hfalse, σ₁, τ, hR, hτ, hv⟩
    obtain ⟨hf, hcases⟩ := Condition.lower_ok hlower hplain hc (hp₁.left hg₂ hg₂₃)
      (Line.joined_call hid) (fun n hn u g v hu hcmd =>
        ⟨(hround n hn u g v hu hcmd).1, Or.inr (hround n hn u g v hu hcmd).2.2.1⟩) hrun
    refine ⟨hf, ?_⟩
    rcases hcases with ⟨hfalse, hagree⟩ | ⟨htrue, n, u, v, hn, hu, hcmd, hv⟩
    · refine ⟨.of_agree (hagree.mono hlow), ?_, σ, .stop (by rw [heval, hfalse]),
        hσ.fresh hd hagree⟩
      rw [hagree.holds (hc.spares d₂), hfalse]
    · obtain ⟨-, hkept, hfalse, σ₁, τ, hR, hτ, hreflects⟩ := hround n hn u _ v hu hcmd
      refine ⟨((World.Kept.of_agree (hu.mono hlow)).trans hkept).trans (.of_agree (hv.mono hlow)),
        ?_, τ, .round (by rw [heval, htrue]) hR hτ, hreflects.fresh hd hv⟩
      rw [hv.holds (hc.spares d₂), hfalse]

/-- **Loops**: the lines in front of the condition and the guarded call, with the list of the loop
under the name that was drawn for it. -/
theorem Realizes.loop (hd : d.Neat)
    (ht : Tests (d.draw (.list "while")).pushFrame setup d₁ c t)
    (hlower : (c.lower (Line.call (d.options.list "while" (d.count (.list "while"))))).run
      d₁.popFrame = (guard, d₂))
    (h : Realizes d₂ d₃ lines R) (hg₂₃ : d₂.Grows [] d₃) (hs₃ : d₃.scopes = d₂.scopes) :
    d.Grows [] (d₃.withFunction (d.options.list "while" (d.count (.list "while")))
        (lines ++ setup ++ guard)) ∧
      Realizes d (d₃.withFunction (d.options.list "while" (d.count (.list "while")))
        (lines ++ setup ++ guard)) (setup ++ guard) (Repeat t R) := by
  have hwhile : Lettered "while" := by decide
  have hd₀ := (hd.grow (.draw d (.list "while")) rfl).pushFrame
  have hg₁ : (d.draw (.list "while")).Grows [] d₁.popFrame := ht.adds.toGrows.popFrame.2
  have hg₂ := Condition.grows_of_lower hlower
  have hg₁₃ := hg₂.trans hg₂₃
  have hg₀₃ : (d.draw (.list "while")).Grows [] d₃ := hg₁.trans hg₁₃
  have hgrows := ((Draft.Grows.draw d (.list "while")).trans hg₀₃).addFunction hwhile le_rfl
    ((d.lt_count_draw _).trans_le (hg₀₃.count _)) (lines ++ setup ++ guard)
  have hs : d₃.scopes = d.scopes :=
    hs₃.trans ((Condition.scopes_of_lower hlower).trans ht.adds.scopes_eq)
  have hid := hd.plain.worded_list hwhile (d.count (.list "while"))
  have htext := hd.plain.isPlain_list hwhile (d.count (.list "while"))
  refine ⟨hgrows, hd.grow hgrows hs, ?_, fun p hp depth w f w' σ hσ hrun => ?_⟩
  · have hplain : d₁.popFrame.options.Plain := ht.adds.plain hd₀.plain
    have tidySetup : Draft.Tidy ∅ (d.draw (.list "while")) d₁.popFrame setup :=
      ⟨ht.tidy.clear, ht.tidy.bodies⟩
    have tidyGuard := Condition.tidy_lower c hlower hplain (fun q hq => (ht.steady q hq).1)
      (.call hid htext (Set.mem_singleton _))
    by_cases hne : guard = []
    · -- the loop is never entered, and nothing calls its list
      subst hne
      obtain rfl := Condition.eq_of_lower_nil hlower
      have hall := (tidySetup.append h.tidy hg₁ hg₂₃).withFunction hwhile (lines ++ setup ++ [])
        (by simp) (Set.empty_subset _)
      exact hall.sub (by simp)
    · have htail := tidyGuard.append (h.tidy.mono (Set.empty_subset _)) hg₂ hg₂₃
      have hall := (tidySetup.mono (Set.empty_subset _)).append htail hg₁ hg₁₃
      obtain ⟨line, rest, hlist⟩ : ∃ line rest, lines ++ setup ++ guard = line :: rest :=
        List.exists_cons_of_ne_nil fun hnil => hne (List.append_eq_nil_iff.mp hnil).2
      refine (hall.withFunction hwhile (lines ++ setup ++ guard) ?_ ?_).sub ?_
      · intro x hx
        simp only [List.mem_append] at hx ⊢
        tauto
      · rintro id rfl
        refine ⟨Draft.mem_listed_withFunction hwhile hg₀₃ _, line, rest, ?_⟩
        rw [← hlist]
        exact Table.get?_put_self _ _ _
      · intro x hx
        simp only [List.mem_append] at hx ⊢
        tauto
  · obtain ⟨hget, hp₀⟩ := hp.withFunction hwhile hg₀₃
    obtain ⟨v, hv, hrest⟩ := sequence_lines_append
      (fun g v hs => (ht.prepares hd₀ ⟨hσ.values, hσ.said⟩ hs).1) hrun
    obtain ⟨-, hkept, heval, hreflects⟩ := ht.prepares hd₀ ⟨hσ.values, hσ.said⟩ hv
    obtain ⟨hf, hkept', -, τ, hτ, hw'⟩ := loop_ok hd₀ ht hid hlower hg₂₃ hs₃ h hp₀ hget depth
      (hreflects.of_scopes ht.adds.scopes_eq.symm) heval hrest
    have hfirst := hkept.mono (hg₁₃.fresh_left (d := (d.draw (.list "while")).pushFrame))
    have hdraw := Draft.Grows.draw d (.list "while")
    exact ⟨hf, (hfirst.trans hkept').mono hdraw.fresh_right, τ, hτ, hw'.of_scopes hs⟩

end Rounds

end Packwright
