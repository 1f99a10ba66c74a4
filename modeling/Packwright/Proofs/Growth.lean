import Packwright.Draft.Statement
import Packwright.Proofs.Cleanup
import Packwright.Proofs.Numerals

/-!
# How drafts grow

Generation only adds to a draft.  Lines are written at the end of the innermost list, names are
drawn from series that count upwards, and a list that was put into the pack under a drawn name stays
as it is.

* `Options.temp`, `Options.list`: the `n`th score and the `n`th list for a purpose.  They differ for
  different purposes and numbers.
* `Draft.Grows d lines d'`: what a computation that writes `lines` can do to a draft.
* `Draft.fresh d d'`, `Draft.listed d d'`: the scores and the lists that were drawn in between.
* `Gen.Grows`: the computation makes every draft grow.  All of generation does, but for the
  statement that declares a function.
* `Program.Holds p d d'`: the program holds the lists that were added in between.
-/

namespace Packwright

/-! ## Names for a purpose -/

namespace Options

/-- The `n`th score for a purpose. -/
def temp (o : Options) (purpose : String) (n : Nat) : Score :=
  ⟨"#" ++ purpose ++ toString n, o.objective⟩

/-- The `n`th list for a purpose. -/
def list (o : Options) (purpose : String) (n : Nat) : ResourceId :=
  ⟨o.space, o.generatedDir ++ "/" ++ purpose ++ "_" ++ toString n⟩

end Options

/-- The text is made of letters. -/
def Lettered (s : String) : Prop := ∀ c ∈ s.toList, c.isAlpha = true

instance (s : String) : Decidable (Lettered s) := List.decidableBAll _ _

theorem not_isAlpha_of_isDigit {c : Char} (h : c.isDigit = true) : c.isAlpha = false := by
  rw [Bool.eq_false_iff]
  intro ha
  have hdigit := toNat_of_isDigit h
  have halpha := toNat_of_isAlpha ha
  omega

theorem toString_inj {m n : Nat} (h : toString m = toString n) : m = n := by
  rw [Nat.toString_eq_repr, Nat.toString_eq_repr] at h
  have hdigits := congrArg String.toList h
  rw [Nat.toList_repr, Nat.toList_repr] at hdigits
  rw [← Word.foldl_digits m, hdigits, Word.foldl_digits]

/-- Letters in front of something that begins with no letter are found again. -/
theorem takeWhile_isAlpha_append {s : String} (hs : Lettered s) {rest : List Char}
    (hrest : ∀ c ∈ rest.head?, c.isAlpha = false) :
    (s.toList ++ rest).takeWhile Char.isAlpha = s.toList := by
  rw [List.takeWhile_append_of_pos hs]
  cases rest with
  | nil => simp
  | cons c cs =>
    have hc : c.isAlpha = false := hrest c (by simp)
    simp [hc]

theorem lettered_append_inj {s t : String} (hs : Lettered s) (ht : Lettered t)
    {rest rest' : List Char} (hrest : ∀ c ∈ rest.head?, c.isAlpha = false)
    (hrest' : ∀ c ∈ rest'.head?, c.isAlpha = false)
    (h : s.toList ++ rest = t.toList ++ rest') : s = t ∧ rest = rest' := by
  have hst : s = t := by
    apply String.toList_inj.mp
    rw [← takeWhile_isAlpha_append hs hrest, h, takeWhile_isAlpha_append ht hrest']
  subst hst
  exact ⟨rfl, List.append_cancel_left h⟩

theorem head?_toString (n : Nat) : ∀ c ∈ (toString n).toList.head?, c.isAlpha = false := by
  intro c hc
  exact not_isAlpha_of_isDigit (isDigit_of_mem_toString (List.mem_of_mem_head? hc))

theorem Options.temp_inj {o : Options} {s t : String} (hs : Lettered s) (ht : Lettered t)
    {m n : Nat} (h : o.temp s m = o.temp t n) : s = t ∧ m = n := by
  have hentry : "#" ++ s ++ toString m = "#" ++ t ++ toString n := congrArg Score.entry h
  have hchars := congrArg String.toList hentry
  simp only [String.toList_append, List.append_assoc] at hchars
  obtain ⟨hst, hmn⟩ := lettered_append_inj hs ht (head?_toString m) (head?_toString n)
    (List.append_cancel_left hchars)
  exact ⟨hst, toString_inj (String.toList_inj.mp hmn)⟩

theorem Options.list_inj {o : Options} {s t : String} (hs : Lettered s) (ht : Lettered t)
    {m n : Nat} (h : o.list s m = o.list t n) : s = t ∧ m = n := by
  have hpath : o.generatedDir ++ "/" ++ s ++ "_" ++ toString m =
      o.generatedDir ++ "/" ++ t ++ "_" ++ toString n := congrArg ResourceId.path h
  have hchars := congrArg String.toList hpath
  simp only [String.toList_append, List.append_assoc] at hchars
  obtain ⟨hst, hmn⟩ := lettered_append_inj hs ht (by simp) (by simp)
    (List.append_cancel_left (List.append_cancel_left hchars))
  exact ⟨hst, toString_inj (String.toList_inj.mp (List.append_cancel_left hmn))⟩

/-! ## Growth -/

theorem Table.mem_keys_put {κ α : Type} [DecidableEq κ] (t : Table κ α) (key : κ) (value : α)
    {other : κ} (h : other ∈ (t.put key value).keys) : other = key ∨ other ∈ t.keys := by
  induction t with
  | nil =>
    left
    simpa [put, keys] using h
  | cons p t ih =>
    obtain ⟨k, v⟩ := p
    by_cases hk : k = key
    · rw [put, if_pos hk] at h
      exact Or.inr h
    · rw [put, if_neg hk] at h
      rcases List.mem_cons.mp h with rfl | h
      · exact Or.inr List.mem_cons_self
      · exact (ih h).imp_right (List.mem_cons_of_mem _)

theorem Table.mem_of_mem_put {κ α : Type} [DecidableEq κ] {t : Table κ α} {key : κ} {value : α}
    {p : κ × α} (h : p ∈ t.put key value) : p ∈ t ∨ p.2 = value := by
  induction t with
  | nil =>
    obtain rfl := List.mem_singleton.mp h
    exact .inr rfl
  | cons q t ih =>
    obtain ⟨k, v⟩ := q
    by_cases hk : k = key
    · rw [put, if_pos hk] at h
      rcases List.mem_cons.mp h with rfl | h
      · exact .inr rfl
      · exact .inl (List.mem_cons_of_mem _ h)
    · rw [put, if_neg hk] at h
      rcases List.mem_cons.mp h with rfl | h
      · exact .inl List.mem_cons_self
      · exact (ih h).imp_left (List.mem_cons_of_mem _)

theorem Table.nodup_keys_put {κ α : Type} [DecidableEq κ] {t : Table κ α} (h : t.keys.Nodup)
    (key : κ) (value : α) : (t.put key value).keys.Nodup := by
  induction t with
  | nil => exact List.pairwise_singleton _ key
  | cons p t ih =>
    obtain ⟨k, v⟩ := p
    obtain ⟨hk, ht⟩ := List.nodup_cons.mp h
    by_cases heq : k = key
    · rw [put, if_pos heq]
      exact h
    · rw [put, if_neg heq]
      refine List.nodup_cons.mpr ⟨fun hmem => ?_, ih ht⟩
      rcases mem_keys_put t key value hmem with rfl | hmem
      · exact heq rfl
      · exact hk hmem

/-- A table of pairs has each key once, and its values are those of the pairs. -/
theorem Table.ofPairs_spec {κ α : Type} [DecidableEq κ] (pairs : List (κ × α)) :
    (ofPairs pairs).keys.Nodup ∧ ∀ p ∈ ofPairs pairs, ∃ q ∈ pairs, p.2 = q.2 := by
  have hfold : ∀ (rest : List (κ × α)) (t : Table κ α), t.keys.Nodup → rest ⊆ pairs →
      (∀ p ∈ t, ∃ q ∈ pairs, p.2 = q.2) →
      (rest.foldl (fun t p => t.put p.1 p.2) t).keys.Nodup ∧
        ∀ p ∈ rest.foldl (fun t p => t.put p.1 p.2) t, ∃ q ∈ pairs, p.2 = q.2 := by
    intro rest
    induction rest with
    | nil => exact fun t hkeys _ ht => ⟨hkeys, ht⟩
    | cons q rest ih =>
      intro t hkeys hrest ht
      obtain ⟨hq, hrest⟩ := List.cons_subset.mp hrest
      refine ih _ (nodup_keys_put hkeys _ _) hrest fun p hp => ?_
      rcases mem_of_mem_put hp with hp | hp
      · exact ht p hp
      · exact ⟨q, hq, hp⟩
  exact hfold pairs [] List.nodup_nil (fun _ h => h) fun _ hp => nomatch hp

theorem Table.put_of_not_mem {κ α : Type} [DecidableEq κ] {key : κ} (value : α) :
    ∀ {t : Table κ α}, key ∉ t.keys → t.put key value = t ++ [(key, value)]
  | [], _ => rfl
  | (k, v) :: t, h => by
    obtain ⟨hk, ht⟩ := not_or.mp (List.mem_cons.not.mp h)
    rw [put, if_neg (Ne.symm hk), put_of_not_mem value ht]
    rfl

/-- Pairs whose keys are different are a table as they stand. -/
theorem Table.ofPairs_of_nodup {κ α : Type} [DecidableEq κ] {pairs : List (κ × α)}
    (h : (keys pairs).Nodup) : ofPairs pairs = pairs := by
  have hfold : ∀ (pairs : List (κ × α)) (t : Table κ α), (keys (t ++ pairs)).Nodup →
      pairs.foldl (fun t p => t.put p.1 p.2) t = t ++ pairs := by
    intro pairs
    induction pairs with
    | nil => exact fun t _ => (List.append_nil t).symm
    | cons p pairs ih =>
      intro t ht
      have hp : p.1 ∉ t.keys := by
        rw [keys, List.map_append, List.map_cons] at ht
        exact fun hmem => (List.nodup_append.mp ht).2.2 _ hmem _ List.mem_cons_self rfl
      rw [List.foldl_cons, put_of_not_mem p.2 hp, ih _ (by rwa [List.append_assoc]),
        List.append_assoc]
      rfl
  exact hfold pairs [] h

namespace Draft

/-- The lists that are being written, with lines at the end of the innermost. -/
def addLines : List (Array String) → List String → List (Array String)
  | [], _ => []
  | frame :: outer, lines => (frame ++ lines.toArray) :: outer

/-- The lists that were drawn on the way from one draft to another. -/
def listed (d d' : Draft) : Set ResourceId :=
  fun id => ∃ purpose n, Lettered purpose ∧ d.count (.list purpose) ≤ n ∧
    n < d'.count (.list purpose) ∧ id = d.options.list purpose n

/-- What a computation that writes `lines` can do to a draft. -/
structure Grows (d : Draft) (lines : List String) (d' : Draft) : Prop where
  options : d'.options = d.options
  frames : d'.frames = addLines d.frames lines
  scopes : d'.scopes.drop 1 = d.scopes.drop 1
  count : ∀ series, d.count series ≤ d'.count series
  taken : d.taken ⊆ d'.taken
  space : d'.pack.space = d.pack.space
  tags : d'.pack.tags = d.pack.tags
  /-- A list under a name that was drawn before stays as it is. -/
  kept : ∀ purpose n, Lettered purpose → n < d.count (.list purpose) →
    d'.pack.function? (d.options.list purpose n) = d.pack.function? (d.options.list purpose n)
  /-- A list comes in under a name that was drawn on the way. -/
  others : ∀ id ∉ d.listed d', d'.pack.function? id = d.pack.function? id
  keys : d.pack.functions.keys.Nodup → d'.pack.functions.keys.Nodup

theorem addLines_nil (frames : List (Array String)) : addLines frames [] = frames := by
  cases frames <;> simp [addLines]

theorem addLines_addLines (frames : List (Array String)) (lines lines' : List String) :
    addLines (addLines frames lines) lines' = addLines frames (lines ++ lines') := by
  cases frames <;> simp [addLines]

theorem count_draw (d : Draft) (series other : Series) :
    (d.draw series).count other = d.count other + if other = series then 1 else 0 := by
  unfold draw count
  by_cases h : other = series
  · subst h
    simp
  · rw [if_neg h, Table.get?_put_of_ne _ _ h]
    simp

theorem lt_count_draw (d : Draft) (series : Series) :
    d.count series < (d.draw series).count series := by
  rw [count_draw, if_pos rfl]
  exact Nat.lt_succ_self _

namespace Grows

variable {d d₁ d₂ : Draft} {lines lines' : List String}

theorem listed_left (h' : Grows d₁ lines' d₂) : d.listed d₁ ⊆ d.listed d₂ := by
  rintro id ⟨purpose, n, hp, hlo, hhi, rfl⟩
  exact ⟨purpose, n, hp, hlo, hhi.trans_le (h'.count _), rfl⟩

theorem listed_right (h : Grows d lines d₁) : d₁.listed d₂ ⊆ d.listed d₂ := by
  rintro id ⟨purpose, n, hp, hlo, hhi, rfl⟩
  exact ⟨purpose, n, hp, (h.count _).trans hlo, hhi, by rw [h.options]⟩

theorem refl (d : Draft) : Grows d [] d :=
  ⟨rfl, (addLines_nil _).symm, rfl, fun _ => le_rfl, fun _ h => h, rfl, rfl, fun _ _ _ _ => rfl,
    fun _ _ => rfl, id⟩

theorem trans (h : Grows d lines d₁) (h' : Grows d₁ lines' d₂) :
    Grows d (lines ++ lines') d₂ := by
  refine ⟨h'.options.trans h.options, ?_, h'.scopes.trans h.scopes,
    fun series => (h.count series).trans (h'.count series), fun e he => h'.taken (h.taken he),
    h'.space.trans h.space, h'.tags.trans h.tags, fun purpose n hp hn => ?_, fun id hid => ?_,
    fun hkeys => h'.keys (h.keys hkeys)⟩
  · rw [h'.frames, h.frames, addLines_addLines]
  · rw [← h.kept purpose n hp hn, ← h.options]
    exact h'.kept purpose n hp (hn.trans_le (h.count _))
  · rw [h'.others id fun hmem => hid (h.listed_right hmem),
      h.others id fun hmem => hid (h'.listed_left hmem)]

theorem draw (d : Draft) (series : Series) : Grows d [] (d.draw series) := by
  refine ⟨rfl, (addLines_nil _).symm, rfl, fun other => ?_, fun _ h => h, rfl, rfl,
    fun _ _ _ _ => rfl, fun _ _ => rfl, id⟩
  rw [count_draw]
  exact Nat.le_add_right _ _

theorem emit (d : Draft) (line : String) : Grows d [line] (d.emit line) := by
  unfold Draft.emit
  cases hf : d.frames with
  | nil =>
    refine ⟨rfl, ?_, rfl, fun _ => le_rfl, fun _ h => h, rfl, rfl, fun _ _ _ _ => rfl,
      fun _ _ => rfl, id⟩
    rw [hf]
    rfl
  | cons frame outer =>
    refine ⟨rfl, ?_, rfl, fun _ => le_rfl, fun _ h => h, rfl, rfl, fun _ _ _ _ => rfl,
      fun _ _ => rfl, id⟩
    simp [hf, addLines]

theorem bind (d : Draft) (name : String) (value : Value) : Grows d [] (d.bind name value) := by
  unfold Draft.bind
  cases hs : d.scopes with
  | nil => exact refl d
  | cons scope outer =>
    refine ⟨rfl, (addLines_nil _).symm, ?_, fun _ => le_rfl, fun _ h => h, rfl, rfl,
      fun _ _ _ _ => rfl, fun _ _ => rfl, id⟩
    simp [hs]

/-- A list under a name that was not drawn before may be put into the pack. -/
theorem addFunction (h : Grows d lines d₁) {purpose : String} (hp : Lettered purpose) {n : Nat}
    (hn : d.count (.list purpose) ≤ n) (hn₁ : n < d₁.count (.list purpose)) (body : List String) :
    Grows d lines { d₁ with pack := d₁.pack.addFunction (d.options.list purpose n) body } := by
  refine ⟨h.options, h.frames, h.scopes, h.count, h.taken, h.space, h.tags,
    fun purpose' n' hp' hn' => ?_, fun id hid => ?_,
    fun hkeys => Table.nodup_keys_put (h.keys hkeys) _ _⟩
  · rw [← h.kept purpose' n' hp' hn']
    refine Table.get?_put_of_ne _ _ fun heq => ?_
    obtain ⟨rfl, rfl⟩ := Options.list_inj hp' hp heq
    omega
  · rw [← h.others id hid]
    refine Table.get?_put_of_ne _ _ ?_
    rintro rfl
    exact hid ⟨purpose, n, hp, hn, hn₁, rfl⟩

end Grows

end Draft

/-! ## What was drawn in between -/

namespace Draft

/-- The scores that were drawn on the way from one draft to another. -/
def fresh (d d' : Draft) : Set Score :=
  fun s => ∃ purpose n, Lettered purpose ∧ d.count (.temp purpose) ≤ n ∧
    n < d'.count (.temp purpose) ∧ s = d.options.temp purpose n

variable {d d₁ d₂ : Draft} {lines lines' : List String}

theorem Grows.fresh_left (h' : Grows d₁ lines' d₂) : d.fresh d₁ ⊆ d.fresh d₂ := by
  rintro s ⟨purpose, n, hp, hlo, hhi, rfl⟩
  exact ⟨purpose, n, hp, hlo, hhi.trans_le (h'.count _), rfl⟩

theorem Grows.fresh_right (h : Grows d lines d₁) : d₁.fresh d₂ ⊆ d.fresh d₂ := by
  rintro s ⟨purpose, n, hp, hlo, hhi, rfl⟩
  exact ⟨purpose, n, hp, (h.count _).trans hlo, hhi, by rw [h.options]⟩

/-- What is drawn later is not drawn again. -/
theorem Grows.fresh_disjoint (h : Grows d lines d₁) {s : Score} (hs : s ∈ d.fresh d₁) :
    s ∉ d₁.fresh d₂ := by
  obtain ⟨purpose, n, hp, -, hhi, rfl⟩ := hs
  rintro ⟨purpose', n', hp', hlo', -, heq⟩
  rw [h.options] at heq
  obtain ⟨rfl, rfl⟩ := Options.temp_inj hp hp' heq
  omega

/-- The entry of a drawn score begins with a mark that no variable has. -/
theorem head?_of_mem_fresh {s : Score} (h : s ∈ d.fresh d₁) : s.entry.toList.head? = some '#' := by
  obtain ⟨purpose, n, -, -, -, rfl⟩ := h
  simp [Options.temp]

/-- Later growth leaves the lists alone that were drawn before. -/
theorem Grows.function?_of_listed (h : Grows d lines d₁) (h' : Grows d₁ lines' d₂)
    {id : ResourceId} (hid : id ∈ d.listed d₁) : d₂.pack.function? id = d₁.pack.function? id := by
  obtain ⟨purpose, n, hp, -, hhi, rfl⟩ := hid
  rw [← h.options]
  exact h'.kept purpose n hp hhi

end Draft

/-- The program holds the lists that were added on the way from one draft to another. -/
def Program.Holds (p : Program) (d d' : Draft) : Prop :=
  ∀ id ∈ d.listed d', p.get? id = d'.pack.program.get? id

namespace Program.Holds

variable {p : Program} {d d₁ d₂ : Draft} {lines lines' : List String}

theorem left (hp : p.Holds d d₂) (h : d.Grows lines d₁) (h' : d₁.Grows lines' d₂) :
    p.Holds d d₁ := by
  intro id hid
  rw [hp id (h'.listed_left hid), Pack.get?_program, Pack.get?_program,
    h.function?_of_listed h' hid]

theorem right (hp : p.Holds d d₂) (h : d.Grows lines d₁) : p.Holds d₁ d₂ :=
  fun id hid => hp id (h.listed_right hid)

end Program.Holds

end Packwright
