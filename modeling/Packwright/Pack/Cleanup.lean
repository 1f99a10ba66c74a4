import Packwright.Pack.Basic
import Packwright.Text.Blank

/-!
# Cleaning up a pack

Generation leaves command lists behind that hold no command or that nothing calls.  `Pack.cleanup`
takes them away, and with an empty list every line that calls it.  Only untagged lists in the folder
of generated lists go.
-/

namespace Packwright

/-- The command list that a line calls at its end: behind the last `run`, if there is one. -/
def invoked? (line : String) : Option ResourceId :=
  let action :=
    match Text.splitLast " run ".toList line.toList with
    | some (_, action) => action
    | none => line.toList
  (Text.after? "function ".toList action).map fun id => .ofText (String.ofList (Text.trim id))

namespace Pack

/-- Whether a list may be taken away: it was generated and has no tag. -/
def isLoose (p : Pack) (dir : String) (id : ResourceId) : Bool :=
  id.space = p.space && (Text.after? (dir ++ "/").toList id.path.toList).isSome &&
    id ∉ p.tagged .load && id ∉ p.tagged .tick

/-- The loose lists without a command. -/
def emptyLists (p : Pack) (dir : String) : List ResourceId :=
  (p.functions.filter fun f => f.2.isEmpty && p.isLoose dir f.1).map Prod.fst

/-- The lists that another list calls. -/
def called (p : Pack) : List ResourceId :=
  p.functions.flatMap fun f => (f.2.filterMap invoked?).filter (· ≠ f.1)

/-- The loose lists that no other list calls. -/
def orphans (p : Pack) (dir : String) : List ResourceId :=
  let called := p.called
  (p.functions.filter fun f => p.isLoose dir f.1 && f.1 ∉ called).map Prod.fst

/-- The pack without some of its lists. -/
def without (p : Pack) (ids : List ResourceId) : Pack :=
  { p with functions := p.functions.filter fun f => f.1 ∉ ids }

/-- The pack without the lines that call one of some lists. -/
def withoutCalls (p : Pack) (ids : List ResourceId) : Pack :=
  { p with
    functions := p.functions.mapValues fun lines =>
      lines.filter fun line => !(invoked? line).any (· ∈ ids) }

theorem length_without_lt {p : Pack} {ids : List ResourceId} (hne : ids ≠ [])
    (hids : ∀ id ∈ ids, id ∈ p.functions.keys) :
    (p.without ids).functions.length < p.functions.length := by
  obtain ⟨id, hid⟩ := List.exists_mem_of_ne_nil ids hne
  obtain ⟨f, hf, rfl⟩ := List.mem_map.1 (hids id hid)
  exact List.length_filter_lt_length_iff_exists.2 ⟨f, hf, by simp [hid]⟩

theorem mem_keys_of_mem_emptyLists {p : Pack} {dir : String} {id : ResourceId}
    (h : id ∈ p.emptyLists dir) : id ∈ p.functions.keys := by
  obtain ⟨f, hf, rfl⟩ := List.mem_map.1 h
  exact List.mem_map.2 ⟨f, (List.mem_filter.1 hf).1, rfl⟩

theorem mem_keys_of_mem_orphans {p : Pack} {dir : String} {id : ResourceId}
    (h : id ∈ p.orphans dir) : id ∈ p.functions.keys := by
  obtain ⟨f, hf, rfl⟩ := List.mem_map.1 h
  exact List.mem_map.2 ⟨f, (List.mem_filter.1 hf).1, rfl⟩

theorem length_withoutCalls_lt {p : Pack} {dir : String} (h : p.emptyLists dir ≠ []) :
    ((p.without (p.emptyLists dir)).withoutCalls (p.emptyLists dir)).functions.length <
      p.functions.length := by
  simpa [withoutCalls, Table.mapValues] using
    length_without_lt h fun _ h => mem_keys_of_mem_emptyLists h

theorem length_withoutOrphans_lt {p : Pack} {dir : String} (h : p.orphans dir ≠ []) :
    (p.without (p.orphans dir)).functions.length < p.functions.length :=
  length_without_lt h fun _ h => mem_keys_of_mem_orphans h

/-- Takes empty lists and the calls of them away, until there are none: a list can become empty when
a call goes. -/
def removeEmpty (p : Pack) (dir : String) : Pack :=
  if p.emptyLists dir = [] then p
  else ((p.without (p.emptyLists dir)).withoutCalls (p.emptyLists dir)).removeEmpty dir
termination_by p.functions.length
decreasing_by exact length_withoutCalls_lt (by assumption)

/-- Takes lists away that no other list calls, until there are none. -/
def removeOrphans (p : Pack) (dir : String) : Pack :=
  if p.orphans dir = [] then p else (p.without (p.orphans dir)).removeOrphans dir
termination_by p.functions.length
decreasing_by exact length_withoutOrphans_lt (by assumption)

/-- The pack without the generated lists that do nothing. -/
def cleanup (p : Pack) (dir : String) : Pack := (p.removeEmpty dir).removeOrphans dir

/-- How many lists the rounds of `removeEmpty` take away. -/
def emptyCount (p : Pack) (dir : String) : Nat :=
  if p.emptyLists dir = [] then 0
  else (p.emptyLists dir).length +
    ((p.without (p.emptyLists dir)).withoutCalls (p.emptyLists dir)).emptyCount dir
termination_by p.functions.length
decreasing_by exact length_withoutCalls_lt (by assumption)

/-- How many lists the rounds of `removeOrphans` take away. -/
def orphanCount (p : Pack) (dir : String) : Nat :=
  if p.orphans dir = [] then 0
  else (p.orphans dir).length + (p.without (p.orphans dir)).orphanCount dir
termination_by p.functions.length
decreasing_by exact length_withoutOrphans_lt (by assumption)

/-- How many lists `cleanup` takes away. -/
def cleanupCount (p : Pack) (dir : String) : Nat :=
  p.emptyCount dir + (p.removeEmpty dir).orphanCount dir

end Pack

end Packwright
