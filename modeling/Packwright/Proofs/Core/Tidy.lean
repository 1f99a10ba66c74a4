import Packwright.Proofs.Core.Computing
import Packwright.Proofs.Lowering

/-!
# Tidy growth

Lines that are written on the way from one draft to another call only lists that were added on the
way, and none that is empty.  What is tidy in its parts is tidy as a whole.

* `Draft.full d d'`: the lists that were added and are not empty.
* `Draft.Tidy T d d' lines`: the lines, and those of the lists that were added, are clear; they call
  lists of `T` and full ones.
* `Condition.tidy_lower`: the lines of a condition are tidy if the command that it guards is.
-/

namespace Packwright

open Gen Words

namespace Draft

/-- The lists with lines that were added on the way from one draft to another. -/
def full (d d' : Draft) : Set ResourceId :=
  fun id => id ∈ d.listed d' ∧ ∃ line body, d'.pack.function? id = some (line :: body)

variable {d d₁ d₂ : Draft} {l l' lines lines' : List String} {T T' : Set ResourceId}

theorem Grows.full_left (h : d.Grows l d₁) (h' : d₁.Grows l' d₂) : d.full d₁ ⊆ d.full d₂ := by
  rintro id ⟨hid, line, body, hbody⟩
  refine ⟨h'.listed_left hid, line, body, ?_⟩
  rw [h.function?_of_listed h' hid, hbody]

theorem Grows.full_right (h : d.Grows l d₁) : d₁.full d₂ ⊆ d.full d₂ := by
  rintro id ⟨hid, hbody⟩
  exact ⟨h.listed_right hid, hbody⟩

/-- The lines and the lists that were added are clear, and call only lists of `T` and lists that
were added and are not empty. -/
structure Tidy (T : Set ResourceId) (d d' : Draft) (lines : List String) : Prop where
  clear : ∀ line ∈ lines, Line.Clear (T ∪ d.full d') line
  bodies : ∀ id ∈ d.listed d', ∀ body, d'.pack.function? id = some body →
    ∀ line ∈ body, Line.Clear (T ∪ d.full d') line

namespace Tidy

theorem mono (h : Tidy T d d₁ lines) (hT : T ⊆ T') : Tidy T' d d₁ lines :=
  ⟨fun line hline => (h.clear line hline).mono (Set.union_subset_union_left _ hT),
    fun id hid body hbody line hline =>
      (h.bodies id hid body hbody line hline).mono (Set.union_subset_union_left _ hT)⟩

/-- What `T` held beside the full lists may be full itself. -/
theorem absorb (h : Tidy T d d₁ lines) (hT : T ⊆ d.full d₁) : Tidy ∅ d d₁ lines := by
  have hsub : T ∪ d.full d₁ ⊆ ∅ ∪ d.full d₁ := by
    rintro id (hid | hid)
    · exact Or.inr (hT hid)
    · exact Or.inr hid
  exact ⟨fun line hline => (h.clear line hline).mono hsub,
    fun id hid body hbody line hline => (h.bodies id hid body hbody line hline).mono hsub⟩

theorem of_adds (h : d.Adds l d₁) (hlines : ∀ line ∈ lines, Line.Clear T line) :
    Tidy T d d₁ lines := by
  refine ⟨fun line hline => (hlines line hline).mono Set.subset_union_left, fun id hid => ?_⟩
  obtain ⟨purpose, n, -, hlo, hhi, -⟩ := hid
  have := h.lists purpose
  omega

theorem wrote (h : Tidy T d d₁ lines) (hT : T ∪ d.full d₁ ⊆ T') :
    Wrote (Line.Clear T') d d₁ lines :=
  Wrote.mono ⟨h.clear, h.bodies⟩ fun _ hline => hline.mono hT

/-- One part behind the other. -/
theorem append (h : Tidy T d d₁ lines) (h' : Tidy T d₁ d₂ lines') (hg : d.Grows l d₁)
    (hg' : d₁.Grows l' d₂) : Tidy T d d₂ (lines ++ lines') := by
  have hleft := h.wrote (Set.union_subset_union_right T (hg.full_left hg'))
  have hfull : d₁.full d₂ ⊆ d.full d₂ := hg.full_right
  have hright := h'.wrote (Set.union_subset_union_right T hfull)
  obtain ⟨hlines, hbodies⟩ := hleft.append hright hg hg'
  exact ⟨hlines, hbodies⟩

/-- What is clear stays clear while more is added. -/
theorem carry (h : Tidy T d d₁ lines) (hg : d.Grows l d₁) (hg' : d₁.Grows l' d₂)
    (h' : Tidy T d d₂ lines') : Tidy T d d₂ lines :=
  ⟨fun line hline => (h.clear line hline).mono
    (Set.union_subset_union_right T (hg.full_left hg')), h'.bodies⟩

theorem cons (h : Tidy T d d₁ lines) {line : String} (hline : Line.Clear (T ∪ d.full d₁) line) :
    Tidy T d d₁ (line :: lines) := by
  refine ⟨fun line' hline' => ?_, h.bodies⟩
  rcases List.mem_cons.mp hline' with rfl | hline'
  · exact hline
  · exact h.clear line' hline'

theorem write (h : Tidy T d d₁ lines) (l : List String) : Tidy T d (d₁.write l) lines :=
  ⟨h.clear, h.bodies⟩

theorem sub (h : Tidy T d d₁ lines) (hsub : lines' ⊆ lines) : Tidy T d d₁ lines' :=
  ⟨fun line hline => h.clear line (hsub hline), h.bodies⟩

/-- Lines that become a list of their own leave a call of it. -/
theorem withList (h : Tidy T d d₁ lines) (hg : d.Grows l d₁) (hd : d.options.Plain)
    {purpose : String} (hp : Lettered purpose) (hne : lines ≠ []) :
    Tidy T d (d₁.withList purpose lines)
      [Line.call (d₁.options.list purpose (d₁.count (.list purpose)))] := by
  have hlist : d₁.Grows [] (d₁.withList purpose lines) := .withList hp lines d₁
  have hplain : d₁.options.Plain := hg.options ▸ hd
  obtain ⟨first, rest, rfl⟩ := List.exists_cons_of_ne_nil hne
  have hfull : d₁.options.list purpose (d₁.count (.list purpose)) ∈
      d₁.full (d₁.withList purpose (first :: rest)) :=
    ⟨mem_listed_withList hp d₁ _, first, rest, function?_withList d₁ purpose _⟩
  have hcall : Line.Clear (T ∪ d.full (d₁.withList purpose (first :: rest)))
      (Line.call (d₁.options.list purpose (d₁.count (.list purpose)))) :=
    .call (hplain.worded_list hp _) (hplain.isPlain_list hp _) (Or.inr (hg.full_right hfull))
  obtain ⟨hlines, hbodies⟩ :=
    (h.wrote (Set.union_subset_union_right T (hg.full_left hlist))).withList hg hp
      (List.forall_mem_singleton.mpr hcall)
  exact ⟨hlines, hbodies⟩

end Tidy

end Draft

/-! ## The lines of a condition -/

namespace Condition

open Draft

variable {T : Set ResourceId}

/-- The predicates test scores with plain names. -/
def Plain (ps : List Predicate) : Prop := ∀ p ∈ ps, p.Plain

/-- Guards and flags with plain names are clear, and so are calls of the lists that were added. -/
theorem closed_clear {ps : List Predicate} {d d' : Draft} (hd : d.options.Plain) (hps : Plain ps) :
    Line.Closed (Line.Clear (T ∪ d.full d')) (Line.Clear (T ∪ d.full d')) ps d d' where
  alone hrun := hrun
  guard q hq hc negated _ hrun := hrun.guard negated hc (hps q hq)
  guardAmount := by
    rintro s ⟨purpose, n, hp, -, -, rfl⟩ m run hrun
    exact hrun.guardAmount false (hd.plain_temp hp n) m
  set := by
    rintro s ⟨purpose, n, hp, -, -, rfl⟩ m
    exact .set (hd.plain_temp hp n) m
  call := by
    intro id hid body hbody hne _
    obtain ⟨line, rest, rfl⟩ := List.exists_cons_of_ne_nil hne
    have hfull : id ∈ d.full d' := ⟨hid, line, rest, hbody⟩
    obtain ⟨purpose, n, hp, -, -, rfl⟩ := hid
    exact .call (hd.worded_list hp n) (hd.isPlain_list hp n) (Or.inr hfull)

/-- **Lowered conditions are tidy** if the command that they guard is. -/
theorem tidy_lower (c : Condition) {run : String} {d d' : Draft} {lines : List String}
    (hlower : (c.lower run).run d = (lines, d')) (hd : d.options.Plain)
    (hps : Plain c.predicates) (hrun : Line.Clear T run) : Tidy T d d' lines := by
  obtain ⟨hlines, hbodies⟩ :=
    wrote_lower c hlower (closed_clear hd hps) (hrun.mono Set.subset_union_left)
  exact ⟨hlines, hbodies⟩

end Condition

end Packwright
