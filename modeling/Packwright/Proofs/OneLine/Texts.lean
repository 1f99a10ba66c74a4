import Packwright.Draft.Command
import Packwright.Proofs.Parsing.Identifiers

/-!
# Texts on one line

A text is on one line if it has no line feed.  Numbers, names and ids are; quoted texts are, since a
line feed is written as an escape; so the text of a value is on one line if the selectors, scores
and data paths in it are.

* `Text.OneLine`: texts on one line; joining keeps to it.
* `Condition.oneLine_text_all`, `Value.oneLine_render_list`, `Json.oneLine_compact_object`: trees
  are on one line exactly if their parts are.
* `Text.splitAll_intercalate`: lines that are joined by line feeds are split again.
-/

namespace Packwright

open Words Lexical

namespace Text

/-- The text has no line feed. -/
def OneLine (s : String) : Prop := '\n' ∉ s.toList

instance (s : String) : Decidable (OneLine s) := inferInstanceAs (Decidable (_ ∉ _))

@[simp] theorem oneLine_append {s t : String} : OneLine (s ++ t) ↔ OneLine s ∧ OneLine t := by
  simp [OneLine, String.toList_append]

@[simp] theorem oneLine_ofList {cs : List Char} : OneLine (String.ofList cs) ↔ '\n' ∉ cs := by
  rw [OneLine, String.toList_ofList]

theorem oneLine_intercalate {sep : String} (hsep : OneLine sep) {ss : List String} :
    OneLine (sep.intercalate ss) ↔ ∀ s ∈ ss, OneLine s := by
  induction ss with
  | nil => exact ⟨fun _ _ hs => (nomatch hs), fun _ => by simp [OneLine]⟩
  | cons s ss ih =>
    cases ss with
    | nil => simp [String.intercalate_singleton]
    | cons t ss => simp [String.intercalate_cons_cons, hsep, ih]

theorem oneLine_of_isInner {s : String} (h : ∀ c ∈ s.toList, isInner c = true) : OneLine s :=
  fun hmem => absurd (h _ hmem) (by decide)

theorem oneLine_quote (s : String) : OneLine (quote s) := by
  have hescape : ∀ c : Char, '\n' ∉ escape c := by
    intro c
    unfold escape
    grind
  simp +decide [quote, escapeAll, hescape]

/-- The lower case of a name is on one line. -/
theorem oneLine_lower {s : String} (h : ∀ c ∈ s.toList, isNamePart c = true) :
    OneLine (lower s) := by
  have hfrom : ∀ (cs before : List Char), (∀ c ∈ cs, isNamePart c = true) →
      '\n' ∉ lowerFrom before cs := by
    intro cs
    induction cs with
    | nil => exact fun _ _ hmem => nomatch hmem
    | cons c cs ih =>
      intro before hcs
      obtain ⟨hc, hcs⟩ := List.forall_mem_cons.mp hcs
      have hrange := toNat_of_isNamePart hc
      have hsigma : c ≠ 'Σ' := by
        rintro rfl
        revert hc
        decide
      have hlower : '\n' ≠ c.toLower := by
        unfold Char.toLower
        split
        · intro heq
          have := congrArg Char.toNat heq
          simp at this
          omega
        · rintro rfl
          revert hc
          decide
      rw [lowerFrom, if_neg hsigma, lowerChar, if_pos (by omega)]
      simpa [hlower] using ih (c :: before) hcs
  rw [lower, oneLine_ofList]
  exact hfrom _ _ h

/-! ## Splitting lines -/

theorem splitAll_ne_nil (sep : Char) (cs : List Char) : splitAll sep cs ≠ [] := by
  cases cs with
  | nil => simp [splitAll]
  | cons c cs =>
    rw [splitAll]
    split
    · simp
    · split <;> simp

theorem splitAll_of_not_mem {sep : Char} {cs : List Char} (h : sep ∉ cs) :
    splitAll sep cs = [cs] := by
  induction cs with
  | nil => rfl
  | cons c cs ih =>
    obtain ⟨hc, hcs⟩ := not_or.mp (List.mem_cons.not.mp h)
    rw [splitAll, ih hcs]
    simp [Ne.symm hc]

theorem splitAll_append_cons {sep : Char} {cs : List Char} (h : sep ∉ cs) (rest : List Char) :
    splitAll sep (cs ++ sep :: rest) = cs :: splitAll sep rest := by
  induction cs with
  | nil =>
    obtain ⟨part, parts, hparts⟩ := List.exists_cons_of_ne_nil (splitAll_ne_nil sep rest)
    rw [List.nil_append, splitAll, hparts]
    simp
  | cons c cs ih =>
    obtain ⟨hc, hcs⟩ := not_or.mp (List.mem_cons.not.mp h)
    rw [List.cons_append, splitAll, ih hcs]
    simp [Ne.symm hc]

/-- **Lines** that are joined by line feeds are split again. -/
theorem splitAll_intercalate {lines : List String} (hne : lines ≠ [])
    (h : ∀ line ∈ lines, OneLine line) :
    (splitAll '\n' ("\n".intercalate lines).toList).map String.ofList = lines := by
  induction lines with
  | nil => exact absurd rfl hne
  | cons line lines ih =>
    obtain ⟨hline, hlines⟩ := List.forall_mem_cons.mp h
    cases lines with
    | nil => rw [String.intercalate_singleton, splitAll_of_not_mem hline]; simp
    | cons next lines =>
      have hjoin : ("\n".intercalate (line :: next :: lines)).toList =
          line.toList ++ '\n' :: ("\n".intercalate (next :: lines)).toList := by
        simp [String.intercalate_cons_cons, String.toList_append]
      rw [hjoin, splitAll_append_cons hline, List.map_cons, ih (List.cons_ne_nil _ _) hlines,
        String.ofList_toList]

end Text

open Text

/-! ## Names and numbers -/

theorem oneLine_of_isIdentifier {x : String} (h : isIdentifier x = true) : OneLine x :=
  oneLine_of_isInner fun _ hc => isInner_of_isNamePart (isNamePart_of_isIdentifier h _ hc)

@[simp] theorem oneLine_repr (n : Nat) : OneLine n.repr :=
  oneLine_of_isInner fun _ hc => isInner_of_mem_toString hc

@[simp] theorem Word.oneLine_text {w : Width} (v : Word w) : OneLine v.text :=
  oneLine_of_isInner fun _ hc => isInner_of_mem_text v hc

@[simp] theorem Range.oneLine_text (r : Range) : OneLine r.text := by
  have hbound : ∀ o : Option Amount, OneLine ((o.map Word.text).getD "") := by
    intro o
    cases o with
    | none => decide
    | some n => exact Word.oneLine_text n
  simp +decide [Range.text, hbound]

theorem Decimal.oneLine_positional (keepsPoint : Bool) (d : Scientific) :
    OneLine (positional keepsPoint d) := by
  have hdigits : '\n' ∉ Nat.toDigits 10 d.digits := fun hmem =>
    absurd (Nat.isDigit_of_mem_toDigits (by decide) (by decide) hmem) (by decide)
  have htake : ∀ n, '\n' ∉ (Nat.toDigits 10 d.digits).take n := fun n hmem =>
    hdigits (List.mem_of_mem_take hmem)
  have hdrop : ∀ n, '\n' ∉ (Nat.toDigits 10 d.digits).drop n := fun n hmem =>
    hdigits (List.mem_of_mem_drop hmem)
  unfold positional
  simp only
  split
  · cases keepsPoint <;> simp +decide [hdigits]
  · split
    · simp +decide [htake, hdrop]
    · simp +decide [hdigits]

theorem Decimal.Layout.oneLine_plain (f : Binary.Format) (d : Binary.Datum) :
    OneLine (Layout.plain.datum f d) := by
  have hsign : ∀ negative : Bool, OneLine (if negative then "-" else "") := by decide
  cases d with
  | notANumber => simp only [datum]; decide
  | infinite negative =>
    simp only [datum, oneLine_append, hsign, true_and]
    decide
  | finite negative significand exponent =>
    simp only [datum, oneLine_append, hsign, true_and]
    exact oneLine_positional _ _

@[simp] theorem Score.oneLine_text {s : Score} :
    OneLine s.text ↔ OneLine s.entry ∧ OneLine s.objective := by
  simp +decide [Score.text]

@[simp] theorem ResourceId.oneLine_text {id : ResourceId} :
    OneLine id.text ↔ OneLine id.space ∧ OneLine id.path := by
  simp +decide [ResourceId.text]

@[simp] theorem DataPath.oneLine_text {path : DataPath} :
    OneLine path.text ↔ OneLine path.target.text ∧ OneLine path.path := by
  simp +decide [DataPath.text]

/-! ## Conditions -/

namespace Condition

theorem texts_eq_map (cs : List Condition) : texts cs = cs.map text := by
  induction cs with
  | nil => rfl
  | cons c cs ih => rw [texts, ih, List.map_cons]

theorem oneLine_negation (negated : Bool) : OneLine (if negated then "!" else "") := by
  cases negated <;> decide

@[simp] theorem oneLine_text_leaf {negated : Bool} {p : Predicate} :
    OneLine (leaf negated p).text ↔ OneLine p.text := by
  simp [text, oneLine_negation]

@[simp] theorem oneLine_text_all {negated : Bool} {cs : List Condition} :
    OneLine (all negated cs).text ↔ ∀ c ∈ cs, OneLine c.text := by
  simp +decide [text, oneLine_negation, oneLine_intercalate, texts_eq_map]

@[simp] theorem oneLine_text_any {negated : Bool} {cs : List Condition} :
    OneLine (any negated cs).text ↔ ∀ c ∈ cs, OneLine c.text := by
  simp +decide [text, oneLine_negation, oneLine_intercalate, texts_eq_map]

@[simp] theorem oneLine_text_constant (b : Bool) : OneLine (constant b).text := by
  cases b <;> decide

@[simp] theorem oneLine_text_negate {c : Condition} :
    OneLine c.negate.text ↔ OneLine c.text := by
  cases c <;> simp [negate]

theorem oneLine_conjuncts {c : Condition} (h : OneLine c.text) :
    ∀ d ∈ c.conjuncts, OneLine d.text := by
  unfold conjuncts
  split
  · exact oneLine_text_all.mp h
  · exact List.forall_mem_singleton.mpr h

theorem oneLine_disjuncts {c : Condition} (h : OneLine c.text) :
    ∀ d ∈ c.disjuncts, OneLine d.text := by
  unfold disjuncts
  split
  · exact oneLine_text_any.mp h
  · exact List.forall_mem_singleton.mpr h

theorem oneLine_and {a b : Condition} (ha : OneLine a.text) (hb : OneLine b.text) :
    OneLine (a.and b).text :=
  oneLine_text_all.mpr (List.forall_mem_append.mpr ⟨oneLine_conjuncts ha, oneLine_conjuncts hb⟩)

theorem oneLine_or {a b : Condition} (ha : OneLine a.text) (hb : OneLine b.text) :
    OneLine (a.or b).text :=
  oneLine_text_any.mpr (List.forall_mem_append.mpr ⟨oneLine_disjuncts ha, oneLine_disjuncts hb⟩)

end Condition

@[simp] theorem Predicate.oneLine_text_within {s : Score} {r : Range} :
    OneLine (Predicate.within s r).text ↔ OneLine s.text := by
  simp +decide [Predicate.text]

@[simp] theorem Predicate.oneLine_text_compare {s t : Score} {c : Comparison} :
    OneLine (Predicate.compare s c t).text ↔ OneLine s.text ∧ OneLine t.text := by
  have hc : OneLine c.text := by cases c <;> decide
  simp +decide [Predicate.text, hc]

@[simp] theorem Predicate.oneLine_text_entity {s : Selector} :
    OneLine (Predicate.entity s).text ↔ OneLine s.text := by
  simp +decide [Predicate.text]

@[simp] theorem Predicate.oneLine_text_data {path : DataPath} :
    OneLine (Predicate.data path).text ↔ OneLine path.text := by
  simp +decide [Predicate.text]

/-! ## Values -/

namespace Value

-- One lemma for each sort of value follows, so the equations are made once and here.
attribute [local simp] render renderAll renderEntries

theorem renderAll_eq_map (vs : List Value) : renderAll vs = vs.map render := by
  induction vs with
  | nil => rfl
  | cons v vs ih => rw [renderAll, ih, List.map_cons]

theorem renderEntries_eq_map (es : List (String × Value)) :
    renderEntries es = es.map fun e => renderKey e.1 ++ ": " ++ render e.2 := by
  induction es with
  | nil => rfl
  | cons e es ih => rw [renderEntries, ih, List.map_cons]

theorem oneLine_renderKey (key : String) : OneLine (renderKey key) := by
  unfold renderKey
  split
  · rename_i hbare
    refine oneLine_of_isInner fun c hc => isInner_of_isNamePart ?_
    unfold isBareKey at hbare
    split at hbare
    · cases hbare
    · rename_i d ds hkey
      simp only [Bool.and_eq_true] at hbare
      exact List.all_eq_true.mp hbare.1.2 c (hkey ▸ hc)
  · exact oneLine_quote key

theorem oneLine_braced {es : List (String × Value)} :
    OneLine (braced (renderEntries es)) ↔ ∀ e ∈ es, OneLine e.2.render := by
  rw [braced, oneLine_append, oneLine_append, oneLine_intercalate (by decide),
    renderEntries_eq_map, List.forall_mem_map]
  simp +decide [oneLine_renderKey]

@[simp] theorem oneLine_render_integer {w : Width} (n : Word w) :
    OneLine (integer w n).render := by
  have hsuffix : OneLine w.suffix := by cases w <;> decide
  simp [hsuffix]

@[simp] theorem oneLine_render_float (x : Float32) : OneLine (float x).render := by
  rw [render, oneLine_append]
  exact ⟨Decimal.Layout.oneLine_plain _ _, by decide⟩

@[simp] theorem oneLine_render_double (x : Float) : OneLine (double x).render := by
  rw [render, oneLine_append]
  exact ⟨Decimal.Layout.oneLine_plain _ _, by decide⟩

@[simp] theorem oneLine_render_string (s : String) : OneLine (string s).render := oneLine_quote s

@[simp] theorem oneLine_render_bool (b : Bool) : OneLine (bool b).render := by
  cases b <;> decide

@[simp] theorem oneLine_render_range (r : Range) : OneLine (range r).render := r.oneLine_text

@[simp] theorem oneLine_render_selector {s : Selector} :
    OneLine (selector s).render ↔ OneLine s.text := .rfl

@[simp] theorem oneLine_render_score {s : Score} : OneLine (score s).render ↔ OneLine s.text := .rfl

@[simp] theorem oneLine_render_condition {c : Condition} :
    OneLine (condition c).render ↔ OneLine c.text := .rfl

@[simp] theorem oneLine_render_data {path : DataPath} :
    OneLine (data path).render ↔ OneLine path.text := .rfl

@[simp] theorem oneLine_render_resource {id : ResourceId} :
    OneLine (resource id).render ↔ OneLine id.text := .rfl

@[simp] theorem oneLine_render_list {vs : List Value} :
    OneLine (list vs).render ↔ ∀ v ∈ vs, OneLine v.render := by
  simp +decide [oneLine_intercalate, renderAll_eq_map]

@[simp] theorem oneLine_render_compound {es : List (String × Value)} :
    OneLine (compound es).render ↔ ∀ e ∈ es, OneLine e.2.render := by
  rw [render]
  exact oneLine_braced

theorem oneLine_render_item {id : ResourceId} {data : Option (List (String × Value))} :
    OneLine (item id data).render ↔
      OneLine id.text ∧ ∀ es ∈ data, ∀ e ∈ es, OneLine e.2.render := by
  cases data with
  | none => simp
  | some es => rw [render, oneLine_append, oneLine_braced]; simp

end Value

/-! ## Documents -/

namespace Json

theorem oneLine_quote (s : String) : OneLine (quote s) := by
  have hescape : ∀ c : Char, '\n' ∉ escape c := by
    intro c
    by_cases hc : c.toNat < 0x20
    · have hlow : ∀ n < 0x20, '\n' ∉ escape (Char.ofNat n) := by decide
      simpa using hlow c.toNat hc
    · have hne : '\n' ≠ c := by
        rintro rfl
        exact hc (by decide)
      unfold escape
      grind
  simp +decide [quote, hescape]

theorem compactAll_eq_map (js : List Json) : compactAll js = js.map compact := by
  induction js with
  | nil => rfl
  | cons j js ih => rw [compactAll, ih, List.map_cons]

theorem compactEntries_eq_map (es : List (String × Json)) :
    compactEntries es = es.map fun e => quote e.1 ++ ":" ++ compact e.2 := by
  induction es with
  | nil => rfl
  | cons e es ih => rw [compactEntries, ih, List.map_cons]

@[simp] theorem oneLine_compact_string (s : String) : OneLine (string s).compact := oneLine_quote s

@[simp] theorem oneLine_compact_array {js : List Json} :
    OneLine (array js).compact ↔ ∀ j ∈ js, OneLine j.compact := by
  simp +decide [compact, oneLine_intercalate, compactAll_eq_map]

@[simp] theorem oneLine_compact_object {es : List (String × Json)} :
    OneLine (object es).compact ↔ ∀ e ∈ es, OneLine e.2.compact := by
  rw [compact, oneLine_append, oneLine_append, oneLine_intercalate (by decide),
    compactEntries_eq_map, List.forall_mem_map]
  simp +decide [oneLine_quote]

end Json

/-! ## Lines -/

namespace Line

variable {s t : Score} {n : Amount} {run : String}

@[simp] theorem oneLine_set : OneLine (set s n) ↔ OneLine s.text := by
  unfold set
  simp +decide

@[simp] theorem oneLine_add : OneLine (add s n) ↔ OneLine s.text := by
  unfold add
  simp +decide

@[simp] theorem oneLine_remove : OneLine (remove s n) ↔ OneLine s.text := by
  unfold remove
  simp +decide

@[simp] theorem oneLine_reset : OneLine (reset s) ↔ OneLine s.text := by
  unfold reset
  simp +decide

@[simp] theorem oneLine_operation {sign : String} : OneLine (operation s sign t) ↔
    OneLine s.text ∧ OneLine sign ∧ OneLine t.text := by
  unfold operation
  simp +decide [and_assoc]

@[simp] theorem oneLine_addObjective {objective : String} :
    OneLine (addObjective objective) ↔ OneLine objective := by
  unfold addObjective
  simp +decide

@[simp] theorem oneLine_call {id : ResourceId} : OneLine (call id) ↔ OneLine id.text := by
  unfold call
  simp +decide

@[simp] theorem oneLine_guard {negated : Bool} {p : Predicate} :
    OneLine (guard negated p run) ↔ OneLine p.text ∧ OneLine run := by
  unfold guard
  cases negated <;> simp +decide

@[simp] theorem oneLine_guardAmount {negated : Bool} :
    OneLine (guardAmount negated s n run) ↔ OneLine s.text ∧ OneLine run := by
  unfold guardAmount
  cases negated <;> simp +decide

@[simp] theorem oneLine_within {word : String} {selector : Selector} :
    OneLine (within word selector run) ↔
      OneLine word ∧ OneLine selector.text ∧ OneLine run := by
  unfold within
  simp +decide [and_assoc]

@[simp] theorem oneLine_fetch {path : DataPath} :
    OneLine (fetch s path) ↔ OneLine s.text ∧ OneLine path.text := by
  unfold fetch
  simp +decide

end Line

end Packwright
