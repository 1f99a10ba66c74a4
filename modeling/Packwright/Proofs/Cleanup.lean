import Packwright.Pack.Cleanup
import Packwright.Proofs.Running

/-!
# The cleanup of a pack keeps what its lists do

`Pack.cleanup` works in rounds.  A round that takes empty lists away also drops the lines that call
them: such a line did nothing but count.  A round that takes orphans away changes no list that is
left, and none of those calls an orphan.

* `Pack.Legible`: the list that the text of a line calls is the list that its order calls.
* `Pack.follows_withoutCalls`, `Pack.follows_removeEmpty`: without the empty lists and their calls,
  every other list goes the same way as before, with no more commands.
* `Pack.function_removeOrphans`: without the orphans, the other lists run exactly as before.
* `Pack.run_cleanup`: a list that is left runs to the same scores and the same output.
-/

namespace Packwright

namespace Table

variable {κ α : Type} [DecidableEq κ]

theorem mem_of_get? {t : Table κ α} {key : κ} {value : α} (h : t.get? key = some value) :
    (key, value) ∈ t := by
  induction t with
  | nil => cases h
  | cons p t ih =>
    obtain ⟨k, v⟩ := p
    by_cases hk : k = key
    · rw [get?, if_pos hk] at h
      obtain rfl := Option.some.inj h
      rw [hk]
      exact List.mem_cons_self
    · rw [get?, if_neg hk] at h
      exact List.mem_cons_of_mem _ (ih h)

theorem get?_of_mem {t : Table κ α} (hkeys : t.keys.Nodup) {key : κ} {value : α}
    (h : (key, value) ∈ t) : t.get? key = some value := by
  induction t with
  | nil => cases h
  | cons p t ih =>
    obtain ⟨k, v⟩ := p
    obtain ⟨hk, hkeys⟩ := List.nodup_cons.mp hkeys
    rcases List.mem_cons.mp h with heq | hmem
    · obtain ⟨rfl, rfl⟩ := Prod.mk.inj heq
      rw [get?, if_pos rfl]
    · have hne : k ≠ key := by
        rintro rfl
        exact hk (List.mem_map.mpr ⟨(k, value), hmem, rfl⟩)
      rw [get?, if_neg hne]
      exact ih hkeys hmem

theorem get?_filter_key (t : Table κ α) (keep : κ → Bool) (key : κ) :
    get? (t.filter fun p => keep p.1) key = if keep key then t.get? key else none := by
  induction t with
  | nil => simp [get?]
  | cons p t ih =>
    obtain ⟨k, v⟩ := p
    by_cases hk : k = key
    · subst hk
      by_cases hkeep : keep k <;> simp [get?, hkeep, ih]
    · by_cases hkeep : keep k <;> simp [get?, hkeep, hk, ih]

end Table

/-! ## Lines that call an empty list -/

/-- A command that ends in a call of an empty list does nothing but count. -/
theorem Run.order_of_target_empty {p : Program} {depth : Nat} {id : ResourceId}
    (hid : p.get? id = some []) : ∀ {o : Order}, o.target? = some id → ∀ {w w' : World} {f : Flow},
      Run.order (Run.function p depth) o w = .ok f w' → f = .next ∧ World.Agree ∅ w w'
  | .call _, ht, w, w', f, h => by
    obtain rfl := Option.some.inj ht
    obtain ⟨rfl, hc⟩ := Run.order_call_ok.mp h
    obtain ⟨n, os, g, -, hos, hs⟩ := Run.function_ok.mp hc
    obtain rfl : os = [] := Option.some.inj (hos.symm.trans hid)
    obtain ⟨-, rfl⟩ := Run.sequence_nil_ok.mp hs
    exact ⟨rfl, World.Agree.refl ∅ _⟩
  | .guard expected t text o, ht, w, w', f, h => by
    rw [Run.order_guard] at h
    split at h
    · obtain ⟨rfl, hagree⟩ := Run.order_of_target_empty hid (o := o) ht h
      exact ⟨rfl, (World.Agree.evaluated ∅ w text).trans hagree⟩
    · cases h
      exact ⟨rfl, World.Agree.evaluated ∅ w text⟩
  | .run o, ht, w, w', f, h => by
    obtain ⟨-, ho⟩ := Run.command_ok.mp h
    obtain ⟨rfl, hagree⟩ := Run.order_of_target_empty hid (o := o) ht ho
    exact ⟨rfl, (World.Agree.counted ∅ w).trans hagree⟩

/-- A list from which idle lines are dropped goes the same way. -/
theorem Run.sequence_filter {callee callee' : ResourceId → Run Unit} {keep : String → Bool}
    (hmono : ∀ id w w', callee id w = .ok () w' → w.executed ≤ w'.executed) :
    ∀ {lines : List String},
      (∀ line ∈ lines, keep line = false → ∀ w w' f,
        Run.order callee (Order.ofText line) w = .ok f w' → f = .next ∧ World.Agree ∅ w w') →
      (∀ line ∈ lines, keep line = true → ∀ id, (Order.ofText line).target? = some id →
        Run.Follows ∅ (callee id) (callee' id)) →
      ∀ {w w' v : World} {f : Flow}, Run.sequence callee (lines.map Order.ofText) w = .ok f w' →
        World.Covers ∅ w v →
        ∃ v', Run.sequence callee' ((lines.filter keep).map Order.ofText) v = .ok f v' ∧
          World.Covers ∅ w' v'
  | [], _, _, w, w', v, f, h, hv => by
    obtain ⟨rfl, rfl⟩ := Run.sequence_nil_ok.mp h
    exact ⟨v, Run.sequence_nil_ok.mpr ⟨rfl, rfl⟩, hv⟩
  | line :: lines, hidle, hkept, w, w', v, f, h, hv => by
    have hidle' := fun l hl => hidle l (List.mem_cons_of_mem line hl)
    have hkept' := fun l hl => hkept l (List.mem_cons_of_mem line hl)
    cases hk : keep line with
    | false =>
      rw [List.filter_cons_of_neg (by simp [hk])]
      -- the dropped line went on to the next one in a world that the second run still covers
      have hdrop : ∀ u g, Run.command callee (Order.ofText line) w = .ok g u →
          g = .next ∧ World.Covers ∅ u v := by
        intro u g hc
        have hle := Run.command_executed hmono hc
        obtain ⟨hg, hagree⟩ := hidle line List.mem_cons_self hk _ _ _ (Run.command_ok.mp hc).2
        have hwu : World.Agree ∅ w u := (World.Agree.counted ∅ w).trans hagree
        exact ⟨hg, hwu.symm.trans hv.toAgree, hv.executed.trans hle⟩
      rcases Run.sequence_cons_ok.mp h with ⟨u, hc, hs⟩ | ⟨rfl, hc⟩
      · exact Run.sequence_filter hmono hidle' hkept' hs (hdrop u _ hc).2
      · cases (hdrop w' _ hc).1
    | true =>
      rw [List.filter_cons_of_pos hk, List.map_cons]
      have hcall := hkept line List.mem_cons_self hk
      rcases Run.sequence_cons_ok.mp h with ⟨u, hc, hs⟩ | ⟨rfl, hc⟩
      · obtain ⟨u', hc', hcov⟩ := Run.command_transfer (by simp) hcall hc hv
        obtain ⟨v', hs', hcov'⟩ := Run.sequence_filter hmono hidle' hkept' hs hcov
        exact ⟨v', Run.sequence_cons_ok.mpr (Or.inl ⟨u', hc', hs'⟩), hcov'⟩
      · obtain ⟨v', hc', hcov⟩ := Run.command_transfer (by simp) hcall hc hv
        exact ⟨v', Run.sequence_cons_ok.mpr (Or.inr ⟨rfl, hc'⟩), hcov⟩

namespace Pack

variable {p : Pack} {dir : String} {ids : List ResourceId} {id : ResourceId}

/-- The text of every line shows the list that the line calls, and every id names one list. -/
structure Legible (p : Pack) : Prop where
  keys : p.functions.keys.Nodup
  invoked : ∀ f ∈ p.functions, ∀ line ∈ f.2, invoked? line = (Order.ofText line).target?

/-! ## The parts of a round -/

theorem function?_without (p : Pack) (ids : List ResourceId) (id : ResourceId) :
    (p.without ids).function? id = if id ∈ ids then none else p.function? id := by
  unfold function? without
  rw [Table.get?_filter_key p.functions (fun id => decide (id ∉ ids)) id]
  by_cases h : id ∈ ids <;> simp [h]

theorem function?_withoutCalls (p : Pack) (ids : List ResourceId) (id : ResourceId) :
    (p.withoutCalls ids).function? id = (p.function? id).map fun lines =>
      lines.filter fun line => !(invoked? line).any (· ∈ ids) :=
  Table.get?_mapValues p.functions _ id

theorem keys_withoutCalls (p : Pack) (ids : List ResourceId) :
    (p.withoutCalls ids).functions.keys = p.functions.keys := by
  simp [withoutCalls, Table.mapValues, Table.keys, Function.comp_def]

theorem keys_without_sublist (p : Pack) (ids : List ResourceId) :
    (p.without ids).functions.keys.Sublist p.functions.keys :=
  List.filter_sublist.map Prod.fst

theorem Legible.invoked_of_function? (h : p.Legible) {lines : List String}
    (hid : p.function? id = some lines) {line : String} (hline : line ∈ lines) :
    invoked? line = (Order.ofText line).target? :=
  h.invoked (id, lines) (Table.mem_of_get? hid) line hline

theorem Legible.without (h : p.Legible) (ids : List ResourceId) : (p.without ids).Legible :=
  ⟨h.keys.sublist (keys_without_sublist p ids),
    fun f hf => h.invoked f (List.mem_filter.mp hf).1⟩

theorem Legible.withoutCalls (h : p.Legible) (ids : List ResourceId) :
    (p.withoutCalls ids).Legible := by
  constructor
  · rw [keys_withoutCalls]
    exact h.keys
  · intro f hf line hline
    obtain ⟨g, hg, rfl⟩ := List.mem_map.mp hf
    exact h.invoked g hg line (List.mem_filter.mp hline).1

theorem function?_of_mem_emptyLists (h : p.Legible) (hid : id ∈ p.emptyLists dir) :
    p.function? id = some [] := by
  obtain ⟨⟨_, lines⟩, hf, rfl⟩ := List.mem_map.mp hid
  obtain ⟨hmem, hempty⟩ := List.mem_filter.mp hf
  obtain rfl : lines = [] := by
    have := (Bool.and_eq_true_iff.mp hempty).1
    simpa using this
  exact Table.get?_of_mem h.keys hmem

/-! ## Empty lists -/

/-- **One round without empty lists**: the lists that are left go the same way as before. -/
theorem follows_withoutCalls (h : p.Legible) (hids : ∀ id ∈ ids, p.function? id = some []) :
    ∀ depth, ∀ id ∉ ids, Run.Follows ∅ (Run.function p.program depth id)
      (Run.function ((p.without ids).withoutCalls ids).program depth id) := by
  intro depth
  induction depth with
  | zero =>
    intro id _ w w' v hrun _
    cases hrun
  | succ n ih =>
    intro id hid w w' v hrun hv
    obtain ⟨m, os, f, hm, hos, hs⟩ := Run.function_ok.mp hrun
    obtain rfl : n = m := by omega
    rw [Pack.get?_program] at hos
    obtain ⟨lines, hlines, rfl⟩ := Option.map_eq_some_iff.mp hos
    have hidle : ∀ line ∈ lines, (!(invoked? line).any (· ∈ ids)) = false → ∀ w w' f,
        Run.order (Run.function p.program n) (Order.ofText line) w = .ok f w' →
          f = .next ∧ World.Agree ∅ w w' := by
      intro line hline hdrop w w' f hrun
      obtain ⟨t, ht, hmem⟩ : ∃ t, invoked? line = some t ∧ t ∈ ids := by
        simpa [Option.any_eq_true] using hdrop
      rw [h.invoked_of_function? hlines hline] at ht
      have hempty : p.program.get? t = some [] := by
        rw [Pack.get?_program, hids t hmem]
        rfl
      exact Run.order_of_target_empty hempty ht hrun
    have hkept : ∀ line ∈ lines, (!(invoked? line).any (· ∈ ids)) = true → ∀ t,
        (Order.ofText line).target? = some t → Run.Follows ∅ (Run.function p.program n t)
          (Run.function ((p.without ids).withoutCalls ids).program n t) := by
      intro line hline hkeep t ht
      rw [← h.invoked_of_function? hlines hline] at ht
      refine ih t ?_
      rw [ht] at hkeep
      simpa using hkeep
    obtain ⟨v', hs', hcov⟩ :=
      Run.sequence_filter (Run.function_executed p.program n) hidle hkept hs hv
    refine ⟨v', Run.function_ok.mpr ⟨n, _, f, rfl, ?_, hs'⟩, hcov⟩
    rw [Pack.get?_program, function?_withoutCalls, function?_without, if_neg hid, hlines]
    rfl

theorem legible_removeEmpty (h : p.Legible) : (p.removeEmpty dir).Legible := by
  fun_induction removeEmpty p dir with
  | case1 p _ => exact h
  | case2 p _ ih => exact ih ((h.without _).withoutCalls _)

theorem not_mem_of_isSome_without (hid : ((p.without ids).function? id).isSome) :
    id ∉ ids ∧ (p.function? id).isSome := by
  rw [function?_without] at hid
  split at hid
  · cases hid
  · rename_i hmem
    exact ⟨hmem, hid⟩

theorem isSome_of_isSome_removeEmpty (hid : ((p.removeEmpty dir).function? id).isSome) :
    (p.function? id).isSome := by
  fun_induction removeEmpty p dir with
  | case1 p _ => exact hid
  | case2 p _ ih =>
    have hround := ih hid
    rw [function?_withoutCalls, Option.isSome_map] at hround
    exact (not_mem_of_isSome_without hround).2

/-- Without the empty lists and their calls, every list that is left goes the same way. -/
theorem follows_removeEmpty (h : p.Legible) (depth : Nat)
    (hid : ((p.removeEmpty dir).function? id).isSome) :
    Run.Follows ∅ (Run.function p.program depth id)
      (Run.function (p.removeEmpty dir).program depth id) := by
  fun_induction removeEmpty p dir with
  | case1 p _ =>
    exact Run.function_transfer (S := Set.univ) (fun _ _ _ _ _ _ => ⟨by simp, by simp⟩) le_rfl id
      trivial
  | case2 p _ ih =>
    have hempty := fun t (ht : t ∈ p.emptyLists dir) => function?_of_mem_emptyLists h ht
    have hleft : id ∉ p.emptyLists dir := by
      have hround := isSome_of_isSome_removeEmpty hid
      rw [function?_withoutCalls, Option.isSome_map] at hround
      exact (not_mem_of_isSome_without hround).1
    exact (follows_withoutCalls h hempty depth id hleft).trans
      (ih ((h.without _).withoutCalls _) hid)

/-! ## Orphans -/

/-- The lists that are left do not call an orphan. -/
theorem not_mem_orphans_of_invoked? {caller : ResourceId} {lines : List String} {line : String}
    (hcaller : p.function? caller = some lines) (hleft : caller ∉ p.orphans dir)
    (hline : line ∈ lines) (hcall : invoked? line = some id) : id ∉ p.orphans dir := by
  by_cases hself : id = caller
  · rw [hself]
    exact hleft
  · have hcalled : id ∈ p.called := List.mem_flatMap.mpr
      ⟨(caller, lines), Table.mem_of_get? hcaller, List.mem_filter.mpr
        ⟨List.mem_filterMap.mpr ⟨line, hline, hcall⟩, by simpa using hself⟩⟩
    intro horphan
    obtain ⟨f, hf, rfl⟩ := List.mem_map.mp horphan
    have := (List.mem_filter.mp hf).2
    simp [hcalled] at this

/-- **One round without orphans**: the lists that are left run as before. -/
theorem function_without_orphans (h : p.Legible) (depth : Nat) (hid : id ∉ p.orphans dir) :
    Run.function p.program depth id =
      Run.function (p.without (p.orphans dir)).program depth id := by
  refine Run.function_congr (S := fun id => id ∉ p.orphans dir) ?_ ?_ depth id hid
  · intro t ht
    rw [Pack.get?_program, Pack.get?_program, function?_without, if_neg ht]
  · intro t ht os hos o ho
    rw [Pack.get?_program] at hos
    obtain ⟨lines, hlines, rfl⟩ := Option.map_eq_some_iff.mp hos
    obtain ⟨line, hline, rfl⟩ := List.mem_map.mp ho
    refine ⟨by simp, fun callee hcallee => ?_⟩
    rw [← h.invoked_of_function? hlines hline] at hcallee
    exact not_mem_orphans_of_invoked? hlines ht hline hcallee

theorem isSome_of_isSome_removeOrphans (hid : ((p.removeOrphans dir).function? id).isSome) :
    (p.function? id).isSome := by
  fun_induction removeOrphans p dir with
  | case1 p _ => exact hid
  | case2 p _ ih => exact (not_mem_of_isSome_without (ih hid)).2

/-- Without the orphans, every list that is left runs exactly as before. -/
theorem function_removeOrphans (h : p.Legible) (depth : Nat)
    (hid : ((p.removeOrphans dir).function? id).isSome) :
    Run.function p.program depth id = Run.function (p.removeOrphans dir).program depth id := by
  fun_induction removeOrphans p dir with
  | case1 p _ => rfl
  | case2 p _ ih =>
    have hleft := (not_mem_of_isSome_without (isSome_of_isSome_removeOrphans hid)).1
    exact (function_without_orphans h depth hleft).trans (ih (h.without _) hid)

/-- **The cleanup keeps what lists do.**  A run without a fault of a list that is left ends without
a fault behind the cleanup too, with the same scores and the same output, and carries out no more
commands. -/
theorem run_cleanup {w w₁ : World} (h : p.Legible) (hid : ((p.cleanup dir).function? id).isSome)
    (hrun : p.program.run w id = (none, w₁)) :
    ∃ w₂, (p.cleanup dir).program.run w id = (none, w₂) ∧
      (∀ s, w₂.score? s = w₁.score? s) ∧ w₂.output = w₁.output ∧ w₂.executed ≤ w₁.executed := by
  have hmid := isSome_of_isSome_removeOrphans hid
  obtain ⟨w₂, hw₂, hcov⟩ := follows_removeEmpty h (Run.maxDepth + 1) hmid w w₁ w
    (Program.run_ok.mp hrun) ⟨World.Agree.refl ∅ w, le_rfl⟩
  rw [function_removeOrphans (legible_removeEmpty h) _ hid] at hw₂
  exact ⟨w₂, Program.run_ok.mpr hw₂, fun s => hcov.score s (Set.notMem_empty s), hcov.output,
    hcov.executed⟩

/-- A pack in which an empty list empties the list that calls it, beside a loop that nothing
calls. -/
def cascade : Pack where
  space := "ds"
  functions :=
    [(⟨"ds", "main"⟩, ["scoreboard players set a o 1",
      "execute if score a o matches 1 run function ds:gen/outer_0", "say end"]),
     (⟨"ds", "gen/outer_0"⟩, ["function ds:gen/inner_0"]),
     (⟨"ds", "gen/inner_0"⟩, []),
     (⟨"ds", "gen/while_0"⟩, ["say loop", "function ds:gen/while_0"])]
  tags := [(.load, [⟨"ds", "main"⟩])]

theorem run_cleanup_cascade :
    ((cascade.cleanup "gen").functions =
      [(⟨"ds", "main"⟩, ["scoreboard players set a o 1", "say end"])]) ∧
    ∃ w₁ w₂, cascade.program.run { } ⟨"ds", "main"⟩ = (none, w₁) ∧
      (cascade.cleanup "gen").program.run { } ⟨"ds", "main"⟩ = (none, w₂) ∧
      (∀ s, w₂.score? s = w₁.score? s) ∧ w₂.output = w₁.output ∧ w₂.executed ≤ w₁.executed := by
  have hlegible : cascade.Legible := ⟨by decide +kernel, by decide +kernel⟩
  have hrun : cascade.program.run { } ⟨"ds", "main"⟩ =
      (none, (cascade.program.run { } ⟨"ds", "main"⟩).2) := Prod.ext (by decide +kernel) rfl
  have hleft : ((cascade.cleanup "gen").function? ⟨"ds", "main"⟩).isSome := by decide +kernel
  obtain ⟨w₂, h⟩ := run_cleanup hlegible hleft hrun
  exact ⟨by decide +kernel, _, w₂, hrun, h⟩

end Pack

end Packwright
