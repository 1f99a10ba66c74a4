import Packwright.Proofs.Calls
import Packwright.Proofs.Core.Language
import Packwright.Proofs.Guard
import Mathlib.Data.List.Nodup
import Mathlib.Data.List.Perm.Subperm

/-!
# Variables and their scores

Every variable in scope has a score of its own, whose entry begins with a mark that no other score
has.  `Mirrors w scopes frames` says that the scores hold what the interpreter has in its frames.

* `Draft.Neat`: the scopes of the draft give different variables different scores.
* `Mirrors.lookup`, `Mirrors.assign`, `Mirrors.declare`: looking up, assigning and declaring keep
  the two sides together.
* `Gen.newVariable_spec`: a new variable gets an entry that is not taken.
-/

namespace Packwright

open Gen Run Words Packwright.Core

/-- The entry of a score is that of a variable. -/
def Score.IsVariable (s : Score) : Prop := s.entry.toList.head? = some '$'

theorem Score.IsVariable.ne_run {s : Score} (h : s.IsVariable) : s.entry ≠ "run" := by
  intro hrun
  rw [Score.IsVariable, hrun] at h
  revert h
  decide

theorem Options.Plain.plain_temp {o : Options} (h : o.Plain) {purpose : String}
    (hp : Lettered purpose) (n : Nat) : (o.temp purpose n).Plain := by
  refine ⟨isPlain_temp hp n, h.objective, fun hrun => ?_⟩
  have hhead := congrArg (fun s : String => s.toList.head?) hrun
  simp [Options.temp] at hhead

theorem Draft.not_isVariable_of_mem_fresh {d d' : Draft} {s : Score} (h : s ∈ d.fresh d') :
    ¬ s.IsVariable := by
  rw [Score.IsVariable, Draft.head?_of_mem_fresh h]
  decide

/-! ## Values in the world -/

/-- The scores of a scope hold the values of a frame. -/
def Shows (w : World) (scope : Table String Value) (frame : Table String Amount) : Prop :=
  ∀ x, (scope.get? x = none ∧ frame.get? x = none) ∨
    ∃ s n, scope.get? x = some (.score s) ∧ frame.get? x = some n ∧ w.score? s = some n

/-- The scores of the scopes hold the values of the frames. -/
def Mirrors (w : World) : List (Table String Value) → List (Table String Amount) → Prop
  | [], [] => True
  | scope :: outer, frame :: frames => Shows w scope frame ∧ Mirrors w outer frames
  | _, _ => False

/-- The scores of the variables in some scopes. -/
def scoresOf (scopes : List (Table String Value)) : Set Score :=
  fun s => ∃ scope ∈ scopes, ∃ x, scope.get? x = some (.score s)

theorem mem_scoresOf_cons {scope : Table String Value} {outer : List (Table String Value)}
    {s : Score} : s ∈ scoresOf (scope :: outer) ↔
      (∃ x, scope.get? x = some (.score s)) ∨ s ∈ scoresOf outer := by
  constructor
  · rintro ⟨t, ht, hx⟩
    rcases List.mem_cons.mp ht with rfl | ht
    · exact Or.inl hx
    · exact Or.inr ⟨t, ht, hx⟩
  · rintro (hx | ⟨t, ht, hx⟩)
    · exact ⟨scope, List.mem_cons_self, hx⟩
    · exact ⟨t, List.mem_cons_of_mem _ ht, hx⟩

/-- Different variables have different scores. -/
def Apart : List (Table String Value) → Prop
  | [] => True
  | scope :: outer =>
    (∀ x y s, scope.get? x = some (.score s) → scope.get? y = some (.score s) → x = y) ∧
      (∀ x s, scope.get? x = some (.score s) → s ∉ scoresOf outer) ∧ Apart outer

theorem mem_scoresOf_of_findSome? : ∀ {scopes : List (Table String Value)} {x : String} {s : Score},
    scopes.findSome? (·.get? x) = some (.score s) → s ∈ scoresOf scopes
  | [], _, _, h => by cases h
  | scope :: outer, x, s, h => by
    rw [List.findSome?_cons] at h
    rw [mem_scoresOf_cons]
    cases hx : scope.get? x with
    | none =>
      rw [hx] at h
      exact Or.inr (mem_scoresOf_of_findSome? h)
    | some v =>
      rw [hx] at h
      exact Or.inl ⟨x, by rw [hx, ← h]⟩

namespace Mirrors

variable {w w' : World}

theorem lookup : ∀ {scopes : List (Table String Value)} {frames : List (Table String Amount)},
    Mirrors w scopes frames → ∀ {x : String} {s : Score},
      scopes.findSome? (·.get? x) = some (.score s) →
        ∃ n, frames.findSome? (·.get? x) = some n ∧ w.score? s = some n
  | [], [], _, _, _, h => by cases h
  | [], _ :: _, h, _, _, _ => h.elim
  | _ :: _, [], h, _, _, _ => h.elim
  | scope :: outer, frame :: frames, ⟨hshow, houter⟩, x, s, h => by
    rw [List.findSome?_cons] at h ⊢
    rcases hshow x with ⟨hscope, hframe⟩ | ⟨t, n, hscope, hframe, hn⟩
    · rw [hscope] at h
      rw [hframe]
      exact lookup houter h
    · rw [hscope] at h
      rw [hframe]
      obtain rfl : t = s := by simpa using h
      exact ⟨n, rfl, hn⟩

/-- Worlds that are the same on the scores of the variables mirror the same frames. -/
theorem congr : ∀ {scopes : List (Table String Value)} {frames : List (Table String Amount)},
    Mirrors w scopes frames → (∀ s ∈ scoresOf scopes, w'.score? s = w.score? s) →
      Mirrors w' scopes frames
  | [], [], _, _ => trivial
  | [], _ :: _, h, _ => h.elim
  | _ :: _, [], h, _ => h.elim
  | scope :: outer, frame :: frames, ⟨hshow, houter⟩, hsame => by
    refine ⟨fun x => ?_, congr houter fun s hs => hsame s (mem_scoresOf_cons.mpr (Or.inr hs))⟩
    rcases hshow x with hnone | ⟨s, n, hscope, hframe, hn⟩
    · exact Or.inl hnone
    · have hs := hsame s (mem_scoresOf_cons.mpr (Or.inl ⟨x, hscope⟩))
      exact Or.inr ⟨s, n, hscope, hframe, hs.trans hn⟩

/-- An assignment to the score of a variable is one to the variable. -/
theorem assign : ∀ {scopes : List (Table String Value)} {frames : List (Table String Amount)},
    Mirrors w scopes frames → Apart scopes → ∀ {x : String} {s : Score} {n : Amount},
      scopes.findSome? (·.get? x) = some (.score s) → w'.score? s = some n →
      (∀ t ∈ scoresOf scopes, t ≠ s → w'.score? t = w.score? t) →
        ∃ frames', State.assignIn x n frames = some frames' ∧ Mirrors w' scopes frames'
  | [], _, _, _, _, _, _, h, _, _ => by cases h
  | _ :: _, [], h, _, _, _, _, _, _, _ => h.elim
  | scope :: outer, frame :: frames, ⟨hshow, houter⟩, ⟨hown, hcross, hapart⟩, x, s, n, h, hn,
      hsame => by
    rw [List.findSome?_cons] at h
    rw [State.assignIn]
    rcases hshow x with ⟨hscope, hframe⟩ | ⟨t, m, hscope, hframe, -⟩
    · -- the variable is one of an outer scope
      rw [hscope] at h
      have hmem : s ∈ scoresOf outer := mem_scoresOf_of_findSome? h
      obtain ⟨frames', hassign, hmirrors⟩ := assign houter hapart h hn fun t ht hne =>
        hsame t (mem_scoresOf_cons.mpr (Or.inr ht)) hne
      refine ⟨frame :: frames', by simp [Table.has, hframe, hassign], fun y => ?_, hmirrors⟩
      rcases hshow y with hnone | ⟨t, m, hy, hfy, hm⟩
      · exact Or.inl hnone
      · have hne : t ≠ s := by
          rintro rfl
          exact hcross y t hy hmem
        have ht := hsame t (mem_scoresOf_cons.mpr (Or.inl ⟨y, hy⟩)) hne
        exact Or.inr ⟨t, m, hy, hfy, ht.trans hm⟩
    · rw [hscope] at h
      obtain rfl : t = s := by simpa using h
      refine ⟨frame.put x n :: frames, by simp [Table.has, hframe], fun y => ?_, ?_⟩
      · by_cases hxy : y = x
        · subst hxy
          exact Or.inr ⟨t, n, hscope, Table.get?_put_self _ _ _, hn⟩
        · rw [Table.get?_put_of_ne _ _ hxy]
          rcases hshow y with hnone | ⟨t', m', hy, hfy, hm'⟩
          · exact Or.inl hnone
          · have hne : t' ≠ t := by
              rintro rfl
              exact hxy (hown y x t' hy hscope)
            have ht := hsame t' (mem_scoresOf_cons.mpr (Or.inl ⟨y, hy⟩)) hne
            exact Or.inr ⟨t', m', hy, hfy, ht.trans hm'⟩
      · refine congr houter fun t' ht' => ?_
        have hne : t' ≠ t := by
          rintro rfl
          exact hcross x t' hscope ht'
        exact hsame t' (mem_scoresOf_cons.mpr (Or.inr ht')) hne

/-- A new variable comes into the innermost scope. -/
theorem declare {scope : Table String Value} {outer : List (Table String Value)}
    {frame : Table String Amount} {frames : List (Table String Amount)} {x : String} {s : Score}
    {n : Amount} (h : Mirrors w (scope :: outer) (frame :: frames)) (hn : w'.score? s = some n)
    (hsame : ∀ t ∈ scoresOf (scope :: outer), w'.score? t = w.score? t) :
    Mirrors w' (scope.put x (.score s) :: outer) (frame.put x n :: frames) := by
  obtain ⟨hshow, houter⟩ := congr h hsame
  refine ⟨fun y => ?_, houter⟩
  by_cases hxy : y = x
  · subst hxy
    exact Or.inr ⟨s, n, Table.get?_put_self _ _ _, Table.get?_put_self _ _ _, hn⟩
  · rw [Table.get?_put_of_ne _ _ hxy, Table.get?_put_of_ne _ _ hxy]
    exact hshow y

end Mirrors

theorem mem_scoresOf_put {scope : Table String Value} {outer : List (Table String Value)}
    {x : String} {s t : Score} (h : t ∈ scoresOf (scope.put x (.score s) :: outer)) :
    t = s ∨ t ∈ scoresOf (scope :: outer) := by
  rcases mem_scoresOf_cons.mp h with ⟨y, hy⟩ | houter
  · by_cases hxy : y = x
    · subst hxy
      rw [Table.get?_put_self] at hy
      left
      simpa using hy.symm
    · rw [Table.get?_put_of_ne _ _ hxy] at hy
      exact Or.inr (mem_scoresOf_cons.mpr (Or.inl ⟨y, hy⟩))
  · exact Or.inr (mem_scoresOf_cons.mpr (Or.inr houter))

theorem Apart.put {scope : Table String Value} {outer : List (Table String Value)} {x : String}
    {s : Score} (h : Apart (scope :: outer)) (hs : s ∉ scoresOf (scope :: outer)) :
    Apart (scope.put x (.score s) :: outer) := by
  obtain ⟨hown, hcross, hapart⟩ := h
  have hnew : ∀ y, scope.get? y ≠ some (.score s) := fun y hy =>
    hs (mem_scoresOf_cons.mpr (Or.inl ⟨y, hy⟩))
  refine ⟨fun y z t hy hz => ?_, fun y t hy ht => ?_, hapart⟩
  · by_cases hyx : y = x
    · by_cases hzx : z = x
      · rw [hyx, hzx]
      · subst hyx
        rw [Table.get?_put_self] at hy
        rw [Table.get?_put_of_ne _ _ hzx, ← hy] at hz
        exact absurd hz (hnew z)
    · rw [Table.get?_put_of_ne _ _ hyx] at hy
      by_cases hzx : z = x
      · subst hzx
        rw [Table.get?_put_self] at hz
        rw [← hz] at hy
        exact absurd hy (hnew y)
      · rw [Table.get?_put_of_ne _ _ hzx] at hz
        exact hown y z t hy hz
  · by_cases hyx : y = x
    · subst hyx
      rw [Table.get?_put_self] at hy
      obtain rfl : s = t := by simpa using hy
      exact hs (mem_scoresOf_cons.mpr (Or.inr ht))
    · rw [Table.get?_put_of_ne _ _ hyx] at hy
      exact hcross y t hy ht

/-! ## Drafts with variables -/

/-- The scopes of the draft give different variables different scores, and all these are taken. -/
structure Draft.Neat (d : Draft) : Prop where
  plain : d.options.Plain
  opened : d.scopes ≠ []
  apart : Apart d.scopes
  owned : ∀ s ∈ scoresOf d.scopes, s.IsVariable ∧ s.Plain ∧ s.entry ∈ d.taken

namespace Draft.Neat

variable {d d' : Draft} {lines : List String}

/-- Growth that leaves the scopes alone keeps the draft neat. -/
theorem grow (h : d.Neat) (hg : d.Grows lines d') (hscopes : d'.scopes = d.scopes) : d'.Neat := by
  refine ⟨hg.options ▸ h.plain, hscopes ▸ h.opened, hscopes ▸ h.apart, fun s hs => ?_⟩
  rw [hscopes] at hs
  obtain ⟨hvar, hplain, htaken⟩ := h.owned s hs
  exact ⟨hvar, hplain, hg.taken htaken⟩

theorem pushFrame (h : d.Neat) : d.pushFrame.Neat := ⟨h.plain, h.opened, h.apart, h.owned⟩

theorem pushScope (h : d.Neat) : d.pushScope.Neat := by
  have hscores : ∀ s ∈ scoresOf d.pushScope.scopes, s ∈ scoresOf d.scopes := by
    intro s hs
    rcases mem_scoresOf_cons.mp hs with ⟨x, hx⟩ | hs
    · cases hx
    · exact hs
  refine ⟨h.plain, List.cons_ne_nil _ _, ⟨?_, ?_, h.apart⟩, fun s hs => h.owned s (hscores s hs)⟩
  · intro x y s hx
    cases hx
  · intro x s hx
    cases hx

/-- A score for a new variable. -/
theorem declare (h : d.Neat) {x : String} {s : Score} (hvar : s.IsVariable) (hplain : s.Plain)
    (hnew : s.entry ∉ d.taken) (hg : d.Grows lines d') (hscopes : d'.scopes = d.scopes)
    (htaken : s.entry ∈ d'.taken) : (d'.bind x (.score s)).Neat := by
  have hneat := h.grow hg hscopes
  cases hs : d'.scopes with
  | nil => exact absurd hs hneat.opened
  | cons scope outer =>
    have hbind : d'.bind x (.score s) = { d' with scopes := scope.put x (.score s) :: outer } := by
      rw [Draft.bind, hs]
    have hfree : s ∉ scoresOf (scope :: outer) := fun hmem =>
      hnew (h.owned s (hscopes ▸ hs ▸ hmem)).2.2
    rw [hbind]
    refine ⟨hneat.plain, List.cons_ne_nil _ _, Apart.put (hs ▸ hneat.apart) hfree, fun t ht => ?_⟩
    rcases mem_scoresOf_put ht with rfl | ht
    · exact ⟨hvar, hplain, htaken⟩
    · exact hneat.owned t (hs ▸ ht)

end Draft.Neat

/-! ## New variables -/

namespace Draft

theorem variableEntry_inj {name : String} {m n : Nat} (hm : 0 < m) (hn : 0 < n)
    (h : variableEntry name m = variableEntry name n) : m = n := by
  obtain ⟨m, rfl⟩ : ∃ k, m = k + 1 := ⟨m - 1, by omega⟩
  obtain ⟨n, rfl⟩ : ∃ k, n = k + 1 := ⟨n - 1, by omega⟩
  have hchars := congrArg String.toList h
  simp only [variableEntry, String.toList_append] at hchars
  exact toString_inj (String.toList_inj.mp (List.append_cancel_left hchars))

/-- The search stops at an entry that is not taken, or it has met one that is at every step. -/
theorem freeNumber_cases (taken : List String) (name : String) : ∀ steps n,
    variableEntry name (freeNumber taken name steps n) ∉ taken ∨
      (freeNumber taken name steps n = n + steps ∧
        ∀ k < steps, variableEntry name (n + k) ∈ taken)
  | 0, n => Or.inr ⟨rfl, fun k hk => by omega⟩
  | steps + 1, n => by
    rw [freeNumber]
    by_cases hn : variableEntry name n ∈ taken
    · rw [if_pos hn]
      rcases freeNumber_cases taken name steps (n + 1) with hfree | ⟨heq, hall⟩
      · exact Or.inl hfree
      · refine Or.inr ⟨by omega, fun k hk => ?_⟩
        cases k with
        | zero => exact hn
        | succ k =>
          have := hall k (by omega)
          rwa [Nat.add_right_comm] at this
    · rw [if_neg hn]
      exact Or.inl hn

/-- There are more numbers than entries that are taken. -/
theorem variableEntry_freeNumber (taken : List String) (name : String) {n : Nat} (hn : 0 < n) :
    variableEntry name (freeNumber taken name taken.length n) ∉ taken := by
  rcases freeNumber_cases taken name taken.length n with hfree | ⟨heq, hall⟩
  · exact hfree
  · intro hmem
    rw [heq] at hmem
    have hnodup :
        ((List.range (taken.length + 1)).map fun k => variableEntry name (n + k)).Nodup := by
      refine List.Nodup.map_on (fun j _ k _ hjk => ?_) List.nodup_range
      have := variableEntry_inj (by omega) (by omega) hjk
      omega
    have hsub :
        ((List.range (taken.length + 1)).map fun k => variableEntry name (n + k)) ⊆ taken := by
      intro entry hentry
      obtain ⟨k, hk, rfl⟩ := List.mem_map.mp hentry
      rw [List.mem_range] at hk
      by_cases hlast : k = taken.length
      · rw [hlast]
        exact hmem
      · exact hall k (by omega)
    have hlen := (List.subperm_of_subset hnodup hsub).length_le
    rw [List.length_map, List.length_range] at hlen
    omega

theorem isPlain_variableEntry {name : String} (hname : ∀ c ∈ name.toList, isInner c = true)
    (n : Nat) : IsPlain (variableEntry name n) := by
  have hmark : IsPlain "$" := by decide
  cases n with
  | zero => exact hmark.append hname
  | succ n =>
    refine ((hmark.append hname).append fun c hc => ?_).append fun _ => isInner_of_mem_toString
    exact isInner_of_mem (by decide) hc

theorem head?_variableEntry (name : String) (n : Nat) :
    (variableEntry name n).toList.head? = some '$' := by
  cases n <;> simp [variableEntry]

end Draft

/-- A new variable has a score whose entry was not taken. -/
theorem Gen.newVariable_spec {name : String} (hname : ∀ c ∈ name.toList, isInner c = true)
    {d : Draft} (hd : d.options.Plain) {s : Score} {d' : Draft}
    (h : (newVariable name).run d = (s, d')) :
    s.IsVariable ∧ s.Plain ∧ s.entry ∉ d.taken ∧ s.entry ∈ d'.taken := by
  have hvar : ∀ n, Score.IsVariable ⟨Draft.variableEntry name n, d.options.objective⟩ :=
    Draft.head?_variableEntry name
  have hplain : ∀ n, Score.Plain ⟨Draft.variableEntry name n, d.options.objective⟩ := fun n =>
    ⟨Draft.isPlain_variableEntry hname n, hd.objective, (hvar n).ne_run⟩
  rw [run_newVariable] at h
  split at h
  · rename_i hfree
    obtain ⟨rfl, rfl⟩ := Prod.mk.inj h
    exact ⟨hvar 0, hplain 0, hfree, List.mem_cons_self⟩
  · obtain ⟨rfl, rfl⟩ := Prod.mk.inj h
    exact ⟨hvar _, hplain _, Draft.variableEntry_freeNumber d.taken name (Nat.succ_pos _),
      List.mem_cons_self⟩

end Packwright
