/-!
# Tables

A table is a list of pairs in the order in which their keys first came in.  Putting a value under a
key that is present replaces the value and keeps the place.
-/

namespace Packwright

/-- Pairs of keys and values in the order of insertion. -/
abbrev Table (κ α : Type) := List (κ × α)

namespace Table

variable {κ α : Type} [DecidableEq κ]

/-- The value under a key. -/
def get? : Table κ α → κ → Option α
  | [], _ => none
  | (k, v) :: t, key => if k = key then some v else get? t key

/-- Whether a key is present. -/
def has (t : Table κ α) (key : κ) : Bool := (t.get? key).isSome

/-- The table with `value` under `key`, in its place or at the end. -/
def put : Table κ α → κ → α → Table κ α
  | [], key, value => [(key, value)]
  | (k, v) :: t, key, value =>
    if k = key then (k, value) :: t else (k, v) :: put t key value

/-- The table without a key. -/
def erase (t : Table κ α) (key : κ) : Table κ α := t.filter fun p => p.1 ≠ key

/-- The keys in order. -/
def keys (t : Table κ α) : List κ := t.map Prod.fst

/-- The table with a function applied to its values. -/
def mapValues {β : Type} (t : Table κ α) (f : α → β) : Table κ β := t.map fun p => (p.1, f p.2)

/-- The table of a list of pairs, in which a later pair replaces an earlier one. -/
def ofPairs (pairs : List (κ × α)) : Table κ α := pairs.foldl (fun t p => t.put p.1 p.2) []

@[simp] theorem get?_put_self (t : Table κ α) (key : κ) (value : α) :
    (t.put key value).get? key = some value := by
  induction t with
  | nil => simp [put, get?]
  | cons p t ih =>
    obtain ⟨k, v⟩ := p
    by_cases h : k = key <;> simp [put, get?, h, ih]

theorem get?_put_of_ne (t : Table κ α) {key other : κ} (value : α) (h : other ≠ key) :
    (t.put key value).get? other = t.get? other := by
  induction t with
  | nil => simp [put, get?, Ne.symm h]
  | cons p t ih =>
    obtain ⟨k, v⟩ := p
    by_cases hk : k = key
    · subst hk
      simp [put, get?, Ne.symm h]
    · rw [put, if_neg hk, get?, get?, ih]

theorem get?_mapValues {β : Type} (t : Table κ α) (f : α → β) (key : κ) :
    (t.mapValues f).get? key = (t.get? key).map f := by
  induction t with
  | nil => rfl
  | cons p t ih =>
    obtain ⟨k, v⟩ := p
    by_cases h : k = key
    · simp [mapValues, get?, h]
    · simp only [mapValues, List.map_cons, get?, if_neg h]
      exact ih

end Table

end Packwright
