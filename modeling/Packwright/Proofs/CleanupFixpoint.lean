import Packwright.Proofs.Cleanup
import Mathlib.Data.List.Nodup

/-!
# What a cleanup leaves

A round of the cleanup takes loose lists away and with them every line that calls one of them.  That
is a preorder between packs, `Pack.Trims`, so it holds of all rounds together.  The first loop ends
without loose lists that are empty, the second without loose lists that no other list calls.  The
second one takes no line from a list that it leaves, so what the first one has reached stays.

* `Pack.Trims`: a pack without some of its loose lists and without the lines that call them.
* `Pack.trims_removeEmpty`, `Pack.trims_removeOrphans`: what the loops do.
* `Pack.emptyLists_cleanup`, `Pack.orphans_cleanup`: what they reach.
* `Pack.length_cleanup`: the lists that were taken away are counted.
* `Pack.cleanup_settles`: the whole of it.
-/

namespace Packwright

theorem Table.isSome_get?_of_mem_keys {κ α : Type} [DecidableEq κ] {t : Table κ α} {key : κ}
    (h : key ∈ t.keys) : (t.get? key).isSome := by
  induction t with
  | nil => simp [Table.keys] at h
  | cons f t ih =>
    rw [Table.get?]
    by_cases hf : f.1 = key
    · rw [if_pos hf]
      rfl
    · rw [if_neg hf]
      exact ih ((List.mem_cons.mp h).resolve_left (Ne.symm hf))

namespace Pack

variable {p q r : Pack} {dir : String} {ids : List ResourceId} {id : ResourceId}

/-- Whether a line calls a list of `p` that is gone in `q`. -/
def callsGone (p q : Pack) (line : String) : Bool :=
  (invoked? line).any fun t => (p.function? t).isSome && (q.function? t).isNone

/-- `q` is `p` without some of its loose lists, and without the lines that call one of them. -/
structure Trims (dir : String) (p q : Pack) : Prop where
  space : q.space = p.space
  tags : q.tags = p.tags
  /-- The lists that are left stand in their order. -/
  keys : q.functions.keys.Sublist p.functions.keys
  /-- A list that was not generated or that has a tag is left. -/
  kept : ∀ id, (p.function? id).isSome → p.isLoose dir id = false → (q.function? id).isSome
  /-- A list that is left has lost exactly the lines that call a list that is gone. -/
  lines : ∀ id lines, q.function? id = some lines → ∃ original, p.function? id = some original ∧
    lines = original.filter fun line => !callsGone p q line

theorem isLoose_congr (hspace : q.space = p.space) (htags : q.tags = p.tags) (id : ResourceId) :
    q.isLoose dir id = p.isLoose dir id := by
  unfold isLoose tagged
  rw [hspace, htags]

namespace Trims

theorem isLoose (h : Trims dir p q) (id : ResourceId) : q.isLoose dir id = p.isLoose dir id :=
  isLoose_congr h.space h.tags id

theorem isSome (h : Trims dir p q) (hid : (q.function? id).isSome) : (p.function? id).isSome := by
  obtain ⟨lines, hlines⟩ := Option.isSome_iff_exists.mp hid
  obtain ⟨original, horiginal, -⟩ := h.lines id lines hlines
  exact Option.isSome_iff_exists.mpr ⟨original, horiginal⟩

theorem refl (dir : String) (p : Pack) : Trims dir p p := by
  refine ⟨rfl, rfl, List.Sublist.refl _, fun _ hid _ => hid, fun id lines hlines => ?_⟩
  refine ⟨lines, hlines, (List.filter_eq_self.mpr fun line _ => ?_).symm⟩
  unfold callsGone
  cases invoked? line with
  | none => rfl
  | some t => cases hp : p.function? t <;> simp [hp]

/-- What is gone after two steps went in the first one or in the second one. -/
theorem callsGone_or (h : Trims dir p q) (h' : Trims dir q r) (line : String) :
    callsGone p r line = (callsGone p q line || callsGone q r line) := by
  unfold callsGone
  cases invoked? line with
  | none => rfl
  | some t =>
    have hpq : (q.function? t).isSome → (p.function? t).isSome := h.isSome
    have hqr : (r.function? t).isSome → (q.function? t).isSome := h'.isSome
    cases hp : p.function? t <;> cases hq : q.function? t <;> cases hr : r.function? t <;>
      simp_all

theorem trans (h : Trims dir p q) (h' : Trims dir q r) : Trims dir p r := by
  refine ⟨h'.space.trans h.space, h'.tags.trans h.tags, h'.keys.trans h.keys, ?_, ?_⟩
  · intro id hid hloose
    exact h'.kept id (h.kept id hid hloose) (by rw [h.isLoose]; exact hloose)
  · intro id lines hlines
    obtain ⟨between, hbetween, rfl⟩ := h'.lines id lines hlines
    obtain ⟨original, horiginal, rfl⟩ := h.lines id between hbetween
    refine ⟨original, horiginal, ?_⟩
    rw [List.filter_filter]
    refine List.filter_congr fun line _ => ?_
    rw [callsGone_or h h', Bool.not_or, Bool.and_comm]

/-- No line that is left calls a list that is gone. -/
theorem calls (h : Trims dir p q) {caller : ResourceId} {lines : List String} {line : String}
    (hcaller : q.function? caller = some lines) (hline : line ∈ lines)
    (hcall : invoked? line = some id) (hid : (p.function? id).isSome) :
    (q.function? id).isSome := by
  obtain ⟨original, -, rfl⟩ := h.lines caller lines hcaller
  have hleft := (List.mem_filter.mp hline).2
  cases hq : q.function? id with
  | some _ => rfl
  | none => simp [callsGone, hcall, hid, hq] at hleft

end Trims

/-! ## Rounds -/

theorem isLoose_of_mem_emptyLists (h : id ∈ p.emptyLists dir) : p.isLoose dir id = true := by
  obtain ⟨f, hf, rfl⟩ := List.mem_map.mp h
  exact (Bool.and_eq_true_iff.mp (List.mem_filter.mp hf).2).2

/-- **One round without empty lists.** -/
theorem trims_withoutCalls (hids : ∀ id ∈ ids, (p.function? id).isSome ∧ p.isLoose dir id = true) :
    Trims dir p ((p.without ids).withoutCalls ids) := by
  have hround : ∀ id, ((p.without ids).withoutCalls ids).function? id =
      if id ∈ ids then none
      else (p.function? id).map fun lines =>
        lines.filter fun line => !(invoked? line).any (· ∈ ids) := by
    intro id
    rw [function?_withoutCalls, function?_without]
    split <;> rfl
  refine ⟨rfl, rfl, ?_, ?_, ?_⟩
  · rw [keys_withoutCalls]
    exact keys_without_sublist p ids
  · intro id hid hloose
    have hleft : id ∉ ids := by
      intro hmem
      rw [(hids id hmem).2] at hloose
      cases hloose
    rw [hround, if_neg hleft, Option.isSome_map]
    exact hid
  · intro id lines hlines
    rw [hround] at hlines
    split_ifs at hlines
    obtain ⟨original, horiginal, rfl⟩ := Option.map_eq_some_iff.mp hlines
    refine ⟨original, horiginal, List.filter_congr fun line _ => ?_⟩
    -- the lists that are gone are those of the round
    unfold callsGone
    cases invoked? line with
    | none => rfl
    | some t =>
      rw [Option.any_some, Option.any_some, hround]
      by_cases ht : t ∈ ids
      · simp [ht, (hids t ht).1]
      · cases hp : p.function? t <;> simp [ht]

/-- **One round without orphans** takes no line from a list that is left. -/
theorem trims_without_orphans (p : Pack) (dir : String) :
    Trims dir p (p.without (p.orphans dir)) := by
  refine ⟨rfl, rfl, keys_without_sublist p _, ?_, ?_⟩
  · intro id hid hloose
    have hleft : id ∉ p.orphans dir := by
      intro hmem
      obtain ⟨f, hf, rfl⟩ := List.mem_map.mp hmem
      have := (List.mem_filter.mp hf).2
      simp [hloose] at this
    rw [function?_without, if_neg hleft]
    exact hid
  · intro id lines hlines
    rw [function?_without] at hlines
    split_ifs at hlines with hmem
    refine ⟨lines, hlines, (List.filter_eq_self.mpr fun line hline => ?_).symm⟩
    unfold callsGone
    cases hcall : invoked? line with
    | none => rfl
    | some t =>
      have ht := not_mem_orphans_of_invoked? hlines hmem hline hcall
      cases hp : p.function? t <;> simp [function?_without, ht, hp]

/-! ## Loops -/

theorem trims_removeEmpty (p : Pack) (dir : String) : Trims dir p (p.removeEmpty dir) := by
  fun_induction removeEmpty p dir with
  | case1 p _ => exact .refl dir p
  | case2 p _ ih =>
    refine (trims_withoutCalls fun id hid => ⟨?_, isLoose_of_mem_emptyLists hid⟩).trans ih
    exact Table.isSome_get?_of_mem_keys (mem_keys_of_mem_emptyLists hid)

theorem trims_removeOrphans (p : Pack) (dir : String) : Trims dir p (p.removeOrphans dir) := by
  fun_induction removeOrphans p dir with
  | case1 p _ => exact .refl dir p
  | case2 p _ ih => exact (trims_without_orphans p dir).trans ih

theorem trims_cleanup (p : Pack) (dir : String) : Trims dir p (p.cleanup dir) :=
  (trims_removeEmpty p dir).trans (trims_removeOrphans _ dir)

theorem emptyLists_removeEmpty (p : Pack) (dir : String) :
    (p.removeEmpty dir).emptyLists dir = [] := by
  fun_induction removeEmpty p dir with
  | case1 p h => exact h
  | case2 p _ ih => exact ih

/-- A round without orphans leaves no list empty that was not. -/
theorem emptyLists_without (h : p.emptyLists dir = []) (ids : List ResourceId) :
    (p.without ids).emptyLists dir = [] := by
  have hnone := List.filter_eq_nil_iff.mp (List.map_eq_nil_iff.mp h)
  refine List.map_eq_nil_iff.mpr (List.filter_eq_nil_iff.mpr fun f hf => ?_)
  exact hnone f (List.mem_filter.mp hf).1

theorem emptyLists_removeOrphans (h : p.emptyLists dir = []) :
    (p.removeOrphans dir).emptyLists dir = [] := by
  fun_induction removeOrphans p dir with
  | case1 p _ => exact h
  | case2 p _ ih => exact ih (emptyLists_without h _)

theorem emptyLists_cleanup (p : Pack) (dir : String) : (p.cleanup dir).emptyLists dir = [] :=
  emptyLists_removeOrphans (emptyLists_removeEmpty p dir)

theorem orphans_cleanup (p : Pack) (dir : String) : (p.cleanup dir).orphans dir = [] := by
  unfold cleanup
  fun_induction removeOrphans (p.removeEmpty dir) dir with
  | case1 p h => exact h
  | case2 p _ ih => exact ih

/-- Where there is neither an empty list nor an orphan, nothing is taken away. -/
theorem cleanup_eq_self (hempty : p.emptyLists dir = []) (horphans : p.orphans dir = []) :
    p.cleanup dir = p ∧ p.cleanupCount dir = 0 := by
  have hself : p.removeEmpty dir = p := by rw [removeEmpty, if_pos hempty]
  constructor
  · rw [cleanup, hself, removeOrphans, if_pos horphans]
  · rw [cleanupCount, hself, emptyCount, if_pos hempty, orphanCount, if_pos horphans]

/-! ## Counting -/

theorem length_withoutCalls (p : Pack) (ids : List ResourceId) :
    (p.withoutCalls ids).functions.length = p.functions.length :=
  List.length_map _

/-- The lists that a property of lists picks out, if every id names one list. -/
theorem length_without (hkeys : p.functions.keys.Nodup)
    (pick : ResourceId × List String → Bool) :
    (p.without ((p.functions.filter pick).map Prod.fst)).functions.length +
      ((p.functions.filter pick).map Prod.fst).length = p.functions.length := by
  have hpick : ∀ f ∈ p.functions,
      decide (f.1 ∉ (p.functions.filter pick).map Prod.fst) = !pick f := by
    intro f hf
    cases hf' : pick f with
    | true => simpa using ⟨f.2, hf, hf'⟩
    | false =>
      rw [Bool.not_false, decide_eq_true_eq]
      intro hmem
      obtain ⟨g, hg, heq⟩ := List.mem_map.mp hmem
      obtain ⟨hg, hpick⟩ := List.mem_filter.mp hg
      rw [List.inj_on_of_nodup_map hkeys hg hf heq, hf'] at hpick
      cases hpick
  have hwithout : (p.without ((p.functions.filter pick).map Prod.fst)).functions =
      p.functions.filter fun f => !pick f := List.filter_congr hpick
  rw [hwithout, List.length_map, Nat.add_comm]
  exact (List.length_eq_length_filter_add pick).symm

theorem length_removeEmpty (dir : String) (hkeys : p.functions.keys.Nodup) :
    (p.removeEmpty dir).functions.length + p.emptyCount dir = p.functions.length := by
  fun_induction removeEmpty p dir with
  | case1 p h => rw [emptyCount, if_pos h, Nat.add_zero]
  | case2 p h ih =>
    have hround : (p.without (p.emptyLists dir)).functions.length + (p.emptyLists dir).length =
        p.functions.length := length_without hkeys _
    have hrest := ih ((keys_withoutCalls _ _).symm ▸ hkeys.sublist (keys_without_sublist p _))
    rw [length_withoutCalls] at hrest
    rw [emptyCount, if_neg h]
    omega

theorem length_removeOrphans (dir : String) (hkeys : p.functions.keys.Nodup) :
    (p.removeOrphans dir).functions.length + p.orphanCount dir = p.functions.length := by
  fun_induction removeOrphans p dir with
  | case1 p h => rw [orphanCount, if_pos h, Nat.add_zero]
  | case2 p h ih =>
    have hround : (p.without (p.orphans dir)).functions.length + (p.orphans dir).length =
        p.functions.length := length_without hkeys _
    have hrest := ih (hkeys.sublist (keys_without_sublist p _))
    rw [orphanCount, if_neg h]
    omega

/-- **The lists that were taken away are counted.** -/
theorem length_cleanup (dir : String) (hkeys : p.functions.keys.Nodup) :
    (p.cleanup dir).functions.length + p.cleanupCount dir = p.functions.length := by
  have hempty := length_removeEmpty dir hkeys
  have horphans := length_removeOrphans dir (hkeys.sublist (trims_removeEmpty p dir).keys)
  unfold cleanup cleanupCount
  omega

/-! ## What is left -/

/-- A list that another list calls. -/
def CalledFromOutside (p : Pack) (id : ResourceId) : Prop :=
  ∃ caller lines line, caller ≠ id ∧ p.function? caller = some lines ∧ line ∈ lines ∧
    invoked? line = some id

theorem calledFromOutside_of_mem (hkeys : p.functions.keys.Nodup) (h : id ∈ p.called) :
    p.CalledFromOutside id := by
  obtain ⟨⟨caller, lines⟩, hf, hmem⟩ := List.mem_flatMap.mp h
  obtain ⟨hcalls, hne⟩ := List.mem_filter.mp hmem
  obtain ⟨line, hline, hcall⟩ := List.mem_filterMap.mp hcalls
  exact ⟨caller, lines, line, Ne.symm (of_decide_eq_true hne), Table.get?_of_mem hkeys hf, hline,
    hcall⟩

/-- A loose list is not empty where there are no empty lists, and called where there are no
orphans. -/
theorem needed_of_isLoose (hkeys : p.functions.keys.Nodup) (hempty : p.emptyLists dir = [])
    (horphans : p.orphans dir = []) {lines : List String} (hid : p.function? id = some lines)
    (hloose : p.isLoose dir id = true) : lines ≠ [] ∧ p.CalledFromOutside id := by
  have hmem : (id, lines) ∈ p.functions := Table.mem_of_get? hid
  constructor
  · rintro rfl
    have := List.filter_eq_nil_iff.mp (List.map_eq_nil_iff.mp hempty) _ hmem
    simp [hloose] at this
  · refine calledFromOutside_of_mem hkeys ?_
    by_contra hcalled
    have := List.filter_eq_nil_iff.mp (List.map_eq_nil_iff.mp horphans) _ hmem
    simp [hloose, hcalled] at this

/-- **The cleanup reaches a fixpoint.**  Every list that was not generated or that has a tag is
left, and every list that is left has lost exactly the lines that call a list that is gone.  A loose
list that is left is not empty, and another list that is left calls it.  No line that is left calls
a list that is gone.  The lists that were taken away are counted, and a second cleanup takes nothing
away. -/
theorem cleanup_settles (dir : String) (hkeys : p.functions.keys.Nodup) :
    Trims dir p (p.cleanup dir) ∧
    (∀ id lines, (p.cleanup dir).function? id = some lines → p.isLoose dir id = true →
      lines ≠ [] ∧ (p.cleanup dir).CalledFromOutside id) ∧
    (∀ caller lines, (p.cleanup dir).function? caller = some lines → ∀ line ∈ lines, ∀ id,
      invoked? line = some id → (p.function? id).isSome → ((p.cleanup dir).function? id).isSome) ∧
    (p.cleanup dir).functions.length + p.cleanupCount dir = p.functions.length ∧
    (p.cleanup dir).cleanup dir = p.cleanup dir ∧ (p.cleanup dir).cleanupCount dir = 0 := by
  have htrims := trims_cleanup p dir
  have hempty := emptyLists_cleanup p dir
  have horphans := orphans_cleanup p dir
  refine ⟨htrims, ?_, ?_, length_cleanup dir hkeys, cleanup_eq_self hempty horphans⟩
  · intro id lines hid hloose
    refine needed_of_isLoose (hkeys.sublist htrims.keys) hempty horphans hid ?_
    rw [htrims.isLoose]
    exact hloose
  · intro caller lines hcaller line hline id hcall hid
    exact htrims.calls hcaller hline hcall hid

/-- A pack with an empty list whose only caller calls nothing else, two lists that call one another,
a loop that calls itself and is called, one that is not, and an empty list with a tag. -/
def tangle : Pack where
  space := "ds"
  functions :=
    [(⟨"ds", "main"⟩, ["function ds:gen/outer", "execute as @a run function ds:gen/loop"]),
     (⟨"ds", "gen/inner"⟩, []),
     (⟨"ds", "gen/outer"⟩, ["execute if score a o matches 1 run function ds:gen/inner"]),
     (⟨"ds", "gen/loop"⟩, ["say loop", "function ds:gen/loop"]),
     (⟨"ds", "gen/stray"⟩, ["function ds:gen/stray", "function ds:gen/behind"]),
     (⟨"ds", "gen/behind"⟩, ["say behind"]),
     (⟨"ds", "gen/left"⟩, ["function ds:gen/right"]),
     (⟨"ds", "gen/right"⟩, ["function ds:gen/left"]),
     (⟨"ds", "gen/init"⟩, [])]
  tags := [(.load, [⟨"ds", "gen/init"⟩, ⟨"ds", "main"⟩])]

theorem cleanup_settles_tangle :
    tangle.functions.keys.Nodup ∧
    (tangle.cleanup "gen").functions =
      [(⟨"ds", "main"⟩, ["execute as @a run function ds:gen/loop"]),
       (⟨"ds", "gen/loop"⟩, ["say loop", "function ds:gen/loop"]),
       (⟨"ds", "gen/left"⟩, ["function ds:gen/right"]),
       (⟨"ds", "gen/right"⟩, ["function ds:gen/left"]),
       (⟨"ds", "gen/init"⟩, [])] ∧
    tangle.cleanupCount "gen" = 4 ∧ Trims "gen" tangle (tangle.cleanup "gen") ∧
    (tangle.cleanup "gen").CalledFromOutside ⟨"ds", "gen/loop"⟩ ∧
    (tangle.cleanup "gen").cleanup "gen" = tangle.cleanup "gen" := by
  have hkeys : tangle.functions.keys.Nodup := by decide +kernel
  have hloose : tangle.isLoose "gen" ⟨"ds", "gen/loop"⟩ = true := by decide +kernel
  obtain ⟨htrims, hneeded, -, hcount, hagain, -⟩ := cleanup_settles "gen" hkeys
  have hleft : (tangle.cleanup "gen").functions =
      [(⟨"ds", "main"⟩, ["execute as @a run function ds:gen/loop"]),
       (⟨"ds", "gen/loop"⟩, ["say loop", "function ds:gen/loop"]),
       (⟨"ds", "gen/left"⟩, ["function ds:gen/right"]),
       (⟨"ds", "gen/right"⟩, ["function ds:gen/left"]),
       (⟨"ds", "gen/init"⟩, [])] := by decide +kernel
  have hloop : (tangle.cleanup "gen").function? ⟨"ds", "gen/loop"⟩ =
      some ["say loop", "function ds:gen/loop"] := by
    rw [function?, hleft]
    decide +kernel
  rw [hleft] at hcount
  exact ⟨hkeys, hleft, Nat.add_left_cancel hcount, htrims, (hneeded _ _ hloop hloose).2, hagain⟩

end Pack

end Packwright
