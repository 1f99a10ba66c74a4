import Packwright.Proofs.Cleanup
import Packwright.Proofs.Core.Statements

/-!
# Finished packs

What generation writes outside of functions becomes the main list, and a list that prepares the
scoreboard comes before it.  The cleanup takes lists away that are empty or that nothing calls; no
line of a core script calls an empty list, so the lists that are left run as they did.

* `Pack.Complete`: every line shows the list that it calls, and that list has lines.
* `Pack.Complete.function_cleanup`: the cleanup of a complete pack keeps what tagged lists do.
* `Draft.complete_assembled`: the pack of tidy lines is complete.
* `Draft.runAll_finish`: a run of the load lists is a run of the lines.
-/

namespace Packwright

open Gen Run Words Packwright.Core

namespace Pack

variable {p : Pack} {dir : String} {id : ResourceId} {ids : List ResourceId}

/-- The lists with lines. -/
def full (p : Pack) : Set ResourceId :=
  fun id => ∃ line lines, p.function? id = some (line :: lines)

/-- Every line shows the list that it calls, and that list has lines. -/
structure Complete (p : Pack) : Prop where
  keys : p.functions.keys.Nodup
  clear : ∀ id lines, p.function? id = some lines → ∀ line ∈ lines, Line.Clear p.full line

namespace Complete

theorem legible (h : p.Complete) : p.Legible :=
  ⟨h.keys, fun f hf line hline =>
    (h.clear f.1 f.2 (Table.get?_of_mem h.keys hf) line hline).invoked⟩

/-- Nothing calls an empty list, so no line goes with it. -/
theorem function?_round (h : p.Complete) (hids : ∀ id ∈ ids, p.function? id = some [])
    (id : ResourceId) : ((p.without ids).withoutCalls ids).function? id =
      if id ∈ ids then none else p.function? id := by
  rw [function?_withoutCalls, function?_without]
  by_cases hid : id ∈ ids
  · rw [if_pos hid, Option.map_none]
  · rw [if_neg hid]
    cases hlines : p.function? id with
    | none => rfl
    | some lines =>
      refine congrArg some (List.filter_eq_self.mpr fun line hline => ?_)
      have hclear := h.clear id lines hlines line hline
      cases ht : invoked? line with
      | none => rfl
      | some t =>
        obtain ⟨first, rest, hfull⟩ := hclear.target t (hclear.invoked ▸ ht)
        have hnot : t ∉ ids := by
          intro hmem
          rw [hids t hmem] at hfull
          cases hfull
        simp [hnot]

/-- Without its empty lists, a pack is as complete as before and has the same full lists. -/
theorem round (h : p.Complete) (hids : ∀ id ∈ ids, p.function? id = some []) :
    ((p.without ids).withoutCalls ids).Complete ∧
      ∀ id ∈ p.full, ((p.without ids).withoutCalls ids).function? id = p.function? id := by
  have hsame : ∀ id ∈ p.full,
      ((p.without ids).withoutCalls ids).function? id = p.function? id := by
    rintro id ⟨line, lines, hfull⟩
    rw [h.function?_round hids, if_neg]
    intro hmem
    rw [hids id hmem] at hfull
    cases hfull
  refine ⟨⟨((h.legible.without ids).withoutCalls ids).keys, fun id lines hlines line hline => ?_⟩,
    hsame⟩
  rw [h.function?_round hids] at hlines
  split at hlines
  · cases hlines
  · refine (h.clear id lines hlines line hline).mono ?_
    rintro t ⟨first, rest, hfull⟩
    exact ⟨first, rest, (hsame t ⟨first, rest, hfull⟩).trans hfull⟩

theorem function?_removeEmpty (h : p.Complete) :
    ∀ id ∈ p.full, (p.removeEmpty dir).function? id = p.function? id := by
  fun_induction removeEmpty p dir with
  | case1 p _ => exact fun _ _ => rfl
  | case2 p _ ih =>
    obtain ⟨hround, hsame⟩ := h.round fun id hid => function?_of_mem_emptyLists h.legible hid
    intro id hid
    have hmem : id ∈ ((p.without (p.emptyLists dir)).withoutCalls (p.emptyLists dir)).full := by
      obtain ⟨line, lines, hfull⟩ := hid
      exact ⟨line, lines, (hsame id ⟨line, lines, hfull⟩).trans hfull⟩
    exact (ih hround id hmem).trans (hsame id hid)

end Complete

theorem tags_removeEmpty : (p.removeEmpty dir).tags = p.tags := by
  fun_induction removeEmpty p dir with
  | case1 p _ => rfl
  | case2 p _ ih => exact ih

theorem tags_removeOrphans : (p.removeOrphans dir).tags = p.tags := by
  fun_induction removeOrphans p dir with
  | case1 p _ => rfl
  | case2 p _ ih => exact ih

/-- A list with a tag is no orphan. -/
theorem function?_removeOrphans (hid : id ∈ p.tagged .load) :
    (p.removeOrphans dir).function? id = p.function? id := by
  fun_induction removeOrphans p dir with
  | case1 p _ => rfl
  | case2 p _ ih =>
    have hnot : id ∉ p.orphans dir := by
      intro hmem
      obtain ⟨f, hf, rfl⟩ := List.mem_map.mp hmem
      have := (List.mem_filter.mp hf).2
      simp [isLoose, hid] at this
    rw [ih hid, function?_without, if_neg hnot]

/-- **The cleanup of a complete pack keeps what tagged lists do.** -/
theorem Complete.function_cleanup (h : p.Complete) (dir : String) (hid : id ∈ p.tagged .load)
    (hfull : id ∈ p.full) (depth : Nat) : ((p.cleanup dir).function? id).isSome ∧
      function (p.cleanup dir).program depth id = function p.program depth id := by
  have htag : id ∈ (p.removeEmpty dir).tagged .load := by
    rw [tagged, tags_removeEmpty]
    exact hid
  have hleft : ((p.cleanup dir).function? id).isSome := by
    obtain ⟨line, lines, hlines⟩ := hfull
    rw [cleanup, function?_removeOrphans htag, h.function?_removeEmpty id ⟨line, lines, hlines⟩,
      hlines]
    rfl
  refine ⟨hleft, ?_⟩
  have hempty : function p.program depth id = function (p.removeEmpty dir).program depth id := by
    refine function_congr (S := p.full) (fun t ht => ?_) (fun t ht os hos o ho => ?_) depth id hfull
    · rw [get?_program, get?_program, h.function?_removeEmpty t ht]
    · rw [get?_program] at hos
      obtain ⟨lines, hlines, rfl⟩ := Option.map_eq_some_iff.mp hos
      obtain ⟨line, hline, rfl⟩ := List.mem_map.mp ho
      exact ⟨by simp, (h.clear t lines hlines line hline).target⟩
  rw [hempty]
  exact (function_removeOrphans (legible_removeEmpty h.legible) depth hleft).symm

theorem tagged_retainTagged (p : Pack) (tag : Tag) :
    p.retainTagged.tagged tag = (p.tagged tag).filter p.functions.has := by
  have hget : p.retainTagged.tags.get? tag = (p.tags.get? tag).map (·.filter p.functions.has) :=
    Table.get?_mapValues p.tags _ tag
  rw [tagged, hget, tagged]
  cases p.tags.get? tag <;> rfl

end Pack

/-! ## The pack of a draft -/

/-- The main list is not in the folder of generated lists. -/
def Options.MainApart (o : Options) : Prop :=
  Text.after? (o.generatedDir ++ "/").toList o.main.toList = none

instance (o : Options) : Decidable o.MainApart := inferInstanceAs (Decidable (_ = none))

/-- The id of the main list. -/
def Options.mainId (o : Options) : ResourceId := ⟨o.space, o.main⟩

theorem Options.MainApart.ne {o : Options} (h : o.MainApart) (path : String) :
    o.mainId ≠ ⟨o.space, o.generatedDir ++ "/" ++ path⟩ := by
  intro heq
  have hpath : o.main = o.generatedDir ++ "/" ++ path := congrArg ResourceId.path heq
  have hafter := after?_append (o.generatedDir ++ "/").toList path.toList
  rw [← String.toList_append, ← hpath, h] at hafter
  cases hafter

theorem Options.MainApart.ne_initId {o : Options} (h : o.MainApart) :
    o.mainId ≠ Draft.initId o := by
  have := h.ne "init"
  rwa [String.append_assoc] at this

theorem Options.initId_ne_list (o : Options) (purpose : String) (n : Nat) :
    Draft.initId o ≠ o.list purpose n := by
  intro heq
  have hpath := congrArg (fun id : ResourceId => id.path.toList) heq
  simp only [Draft.initId, Options.list, String.toList_append, List.append_assoc,
    List.append_cancel_left_eq] at hpath
  have hmem : '_' ∈ "/init".toList := by
    rw [hpath]
    simp
  revert hmem
  decide

namespace Draft

/-- The pack of a draft before the cleanup. -/
def assembled (d : Draft) : Pack :=
  (d.withMain.addFunction (initId d.options)
    [Line.addObjective d.options.objective]).addTagFirst .load (initId d.options)

theorem finish_eq (d : Draft) : d.finish =
    (if d.options.cleanup then d.assembled.cleanup d.options.generatedDir
      else d.assembled).retainTagged := rfl

variable {o : Options} {d : Draft} {lines : List String}

theorem mainLines_eq (hg : (empty o).pushScope.Grows lines d) : d.mainLines = lines := by
  have hframes : d.frames = addLines [#[]] lines := hg.frames
  simp [mainLines, hframes, addLines]

/-- The lists of the pack. -/
theorem function?_assembled (hg : (empty o).pushScope.Grows lines d) (id : ResourceId) :
    d.assembled.function? id =
      if id = initId o then some [Line.addObjective o.objective]
      else if id = o.mainId ∧ lines ≠ [] then some lines else d.pack.function? id := by
  have ho : d.options = o := hg.options
  have hfunctions : d.assembled.functions =
      d.withMain.functions.put (initId o) [Line.addObjective o.objective] := by
    rw [← ho]
    rfl
  rw [Pack.function?, hfunctions]
  by_cases hinit : id = initId o
  · rw [if_pos hinit, hinit, Table.get?_put_self]
  · rw [if_neg hinit, Table.get?_put_of_ne _ _ hinit]
    by_cases hlines : lines = []
    · have hmain : d.withMain = d.pack := by
        rw [withMain, mainLines_eq hg, hlines]
        rfl
      rw [hmain, if_neg (by simp [hlines])]
      rfl
    · have hmain : d.withMain.functions = d.pack.functions.put o.mainId lines := by
        rw [withMain, mainLines_eq hg, if_neg (by simpa using hlines), ho]
        rfl
      rw [hmain]
      by_cases hid : id = o.mainId
      · rw [if_pos ⟨hid, hlines⟩, hid, Table.get?_put_self]
      · rw [if_neg (by simp [hid]), Table.get?_put_of_ne _ _ hid]
        rfl

/-- Generated lists are in the pack as they are. -/
theorem function?_assembled_of_listed (hg : (empty o).pushScope.Grows lines d) (ho : o.MainApart)
    {id : ResourceId} (hid : id ∈ (empty o).pushScope.listed d) :
    d.assembled.function? id = d.pack.function? id := by
  obtain ⟨purpose, n, -, -, -, hid⟩ := hid
  obtain rfl : id = o.list purpose n := hid
  have hinit := (o.initId_ne_list purpose n).symm
  have hmain : o.list purpose n ≠ o.mainId := by
    have := ho.ne (purpose ++ "_" ++ toString n)
    simpa only [Options.list, String.append_assoc] using this.symm
  rw [function?_assembled hg, if_neg hinit, if_neg (fun h => hmain h.1)]

theorem holds_assembled (hg : (empty o).pushScope.Grows lines d) (ho : o.MainApart) :
    d.assembled.program.Holds (empty o).pushScope d := by
  intro id hid
  rw [Pack.get?_program, Pack.get?_program, function?_assembled_of_listed hg ho hid]

/-- The pack of tidy lines is complete. -/
theorem complete_assembled (hg : (empty o).pushScope.Grows lines d) (hplain : o.Plain)
    (ho : o.MainApart) (tidy : Tidy ∅ (empty o).pushScope d lines) : d.assembled.Complete := by
  have hfull : ∅ ∪ (empty o).pushScope.full d ⊆ d.assembled.full := by
    rintro id (hid | ⟨hid, line, body, hbody⟩)
    · exact absurd hid (Set.notMem_empty id)
    · exact ⟨line, body, (function?_assembled_of_listed hg ho hid).trans hbody⟩
  constructor
  · have hkeys : d.pack.functions.keys.Nodup := hg.keys List.nodup_nil
    refine Table.nodup_keys_put ?_ _ _
    rw [withMain]
    split
    · exact hkeys
    · exact Table.nodup_keys_put hkeys _ _
  · intro id body hbody line hline
    rw [function?_assembled hg] at hbody
    split at hbody
    · obtain rfl := Option.some.inj hbody
      rw [List.mem_singleton.mp hline]
      exact .addObjective hplain.objective
    · split at hbody
      · obtain rfl := Option.some.inj hbody
        exact (tidy.clear line hline).mono hfull
      · have hlisted : id ∈ (empty o).pushScope.listed d := by
          by_contra hnot
          rw [hg.others id hnot] at hbody
          cases hbody
        exact (tidy.bodies id hlisted body hbody line hline).mono hfull

/-- The lists that run when the pack is loaded. -/
theorem tagged_assembled (hg : (empty o).pushScope.Grows lines d) (ho : o.MainApart) :
    d.assembled.tagged .load = initId o :: if lines = [] then [] else [o.mainId] := by
  have hopt : d.options = o := hg.options
  have htags : d.pack.tags = [] := hg.tags
  have hmain : d.withMain.tagged .load = if lines = [] then [] else [o.mainId] := by
    rw [withMain, mainLines_eq hg]
    by_cases hlines : lines = []
    · rw [if_pos hlines, if_pos (by simpa using hlines), Pack.tagged, htags]
      rfl
    · rw [if_neg hlines, if_neg (by simpa using hlines), Pack.tagged, hopt]
      simp [Pack.addTag, Pack.tagged, Pack.addFunction, htags, Table.get?, Table.put,
        Options.mainId]
  have htagged : d.assembled.tagged .load =
      initId o :: (d.withMain.tagged .load).filter (· ≠ initId o) := by
    rw [← hopt, Pack.tagged]
    exact congrArg (Option.getD · []) (Table.get?_put_self _ _ _)
  rw [htagged, hmain]
  split
  · rfl
  · simp [ho.ne_initId]

/-- Every list that runs when the pack is loaded has lines. -/
theorem mem_full_assembled (hg : (empty o).pushScope.Grows lines d) (ho : o.MainApart)
    {id : ResourceId} (hid : id ∈ d.assembled.tagged .load) : id ∈ d.assembled.full := by
  rw [tagged_assembled hg ho] at hid
  rcases List.mem_cons.mp hid with rfl | hid
  · exact ⟨_, [], by rw [function?_assembled hg, if_pos rfl]⟩
  · cases lines with
    | nil => cases hid
    | cons line rest =>
      obtain rfl := List.mem_singleton.mp hid
      exact ⟨line, rest, by rw [function?_assembled hg, if_neg ho.ne_initId, if_pos (by simp)]⟩

/-- The finished pack loads the same lists, and they do the same. -/
theorem finish_spec (hg : (empty o).pushScope.Grows lines d) (hplain : o.Plain) (ho : o.MainApart)
    (tidy : Tidy ∅ (empty o).pushScope d lines) :
    d.finish.tagged .load = d.assembled.tagged .load ∧
      ∀ id ∈ d.assembled.tagged .load, ∀ depth,
        function d.finish.program depth id = function d.assembled.program depth id := by
  have hcomplete := complete_assembled hg hplain ho tidy
  have hkeep : ∀ p : Pack, p.tags = d.assembled.tags →
      (∀ id ∈ d.assembled.tagged .load, (p.function? id).isSome) →
      p.retainTagged.tagged .load = d.assembled.tagged .load := by
    intro p htags hsome
    rw [Pack.tagged_retainTagged, Pack.tagged, htags]
    exact List.filter_eq_self.mpr hsome
  rw [finish_eq]
  split
  · have hclean := fun id (hid : id ∈ d.assembled.tagged .load) =>
      hcomplete.function_cleanup d.options.generatedDir hid (mem_full_assembled hg ho hid)
    refine ⟨hkeep _ ?_ fun id hid => (hclean id hid 0).1,
      fun id hid depth => (hclean id hid depth).2⟩
    rw [Pack.cleanup, Pack.tags_removeOrphans, Pack.tags_removeEmpty]
  · refine ⟨hkeep _ rfl fun id hid => ?_, fun id _ depth => rfl⟩
    obtain ⟨line, body, hbody⟩ := mem_full_assembled hg ho hid
    rw [hbody]
    rfl

end Draft

/-- Lists that run one behind the other without a fault. -/
theorem Program.runAll_cons_ok {p : Program} {w w' : World} {id : ResourceId}
    {ids : List ResourceId} {faults : List (Option Fault)}
    (h : p.runAll w (id :: ids) = (faults, w')) (hok : ∀ f ∈ faults, f = none) :
    ∃ u faults', function p (maxDepth + 1) id w = .ok () u ∧ p.runAll u ids = (faults', w') ∧
      ∀ f ∈ faults', f = none := by
  obtain ⟨fault, u, hu⟩ : ∃ fault u, p.run w id = (fault, u) := ⟨_, _, rfl⟩
  obtain ⟨faults', v, hv⟩ : ∃ faults' v, p.runAll u ids = (faults', v) := ⟨_, _, rfl⟩
  have hall : p.runAll w (id :: ids) = (fault :: faults', v) := by
    rw [Program.runAll]
    simp only [hu, hv]
  obtain ⟨rfl, rfl⟩ := Prod.mk.inj (hall.symm.trans h)
  obtain rfl : fault = none := hok fault List.mem_cons_self
  exact ⟨u, faults', Program.run_ok.mp hu, hv, fun f hf => hok f (List.mem_cons_of_mem _ hf)⟩

/-- **A run of the load lists** of the finished pack is a run of the lines that were written. -/
theorem Draft.runAll_finish {o : Options} {d : Draft} {lines : List String}
    (hg : (empty o).pushScope.Grows lines d) (hplain : o.Plain) (ho : o.MainApart)
    (tidy : Tidy ∅ (empty o).pushScope d lines) {w w' : World} {faults : List (Option Fault)}
    (hrun : d.finish.program.runAll w (d.finish.tagged .load) = (faults, w'))
    (hok : ∀ f ∈ faults, f = none) :
    ∃ depth f, sequence (function d.assembled.program depth) (lines.map Order.ofText) w.counted =
      .ok f w' := by
  obtain ⟨htagged, hsame⟩ := finish_spec hg hplain ho tidy
  rw [tagged_assembled hg ho] at htagged hsame
  rw [htagged] at hrun
  obtain ⟨u, faults', hinit, hrest, hok'⟩ := Program.runAll_cons_ok hrun hok
  -- the first list prepares the scoreboard
  obtain rfl : u = w.counted := by
    rw [hsame _ List.mem_cons_self] at hinit
    obtain ⟨n, os, f, -, hos, hs⟩ := function_ok.mp hinit
    rw [Pack.get?_program, function?_assembled hg, if_pos rfl] at hos
    obtain rfl := Option.some.inj hos
    have hcmd := sequence_singleton_ok.mp hs
    rw [Order.ofText_addObjective hplain.objective.isWord] at hcmd
    have horder := (command_ok.mp hcmd).2
    cases horder
    rfl
  by_cases hlines : lines = []
  · rw [if_pos hlines] at hrest
    obtain ⟨-, rfl⟩ := Prod.mk.inj hrest
    exact ⟨0, .next, by rw [hlines]; exact sequence_nil_ok.mpr ⟨rfl, rfl⟩⟩
  · rw [if_neg hlines] at hrest hsame
    obtain ⟨v, faults'', hmain, hend, -⟩ := Program.runAll_cons_ok hrest hok'
    obtain ⟨-, rfl⟩ := Prod.mk.inj hend
    rw [hsame _ (by simp)] at hmain
    obtain ⟨n, os, f, -, hos, hs⟩ := function_ok.mp hmain
    rw [Pack.get?_program, function?_assembled hg, if_neg ho.ne_initId,
      if_pos ⟨rfl, hlines⟩] at hos
    obtain rfl := Option.some.inj hos
    exact ⟨n, f, hs⟩

end Packwright
