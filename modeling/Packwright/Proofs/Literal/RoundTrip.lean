import Packwright.Proofs.Literal.Reading
import Packwright.Tree.Literal

/-!
# Literals read back

The text of a value that was read from a literal is a literal of the same value, whatever lists,
compounds, items and ranges are nested in it.  Floating-point numbers are left out, and so are
carriage returns, which `Text.quote` does not escape.

* `Value.isExact`: the values that are spoken of.
* `Value.Sourced.writable`: what a literal is read as can be written.
* `Value.Writable.parseLiteral?_render`: what can be written is read back.
* `literal_roundTrip`: both together.
-/

namespace Packwright

open Lexical Lexeme Parse

namespace Value

mutual

/-- Whether no floating-point number occurs in the value, at any depth, and no carriage return in
its strings and keys. -/
def isExact : Value → Bool
  | float _ | double _ => false
  | string s => '\r' ∉ s.toList
  | list items => allExact items
  | compound entries | item _ (some entries) => entriesExact entries
  | _ => true

/-- Whether all of the values are exact. -/
def allExact : List Value → Bool
  | [] => true
  | v :: vs => isExact v && allExact vs

/-- Whether the keys and values of all entries are exact. -/
def entriesExact : List (String × Value) → Bool
  | [] => true
  | (key, v) :: es => '\r' ∉ key.toList && isExact v && entriesExact es

end

theorem allExact_iff {vs : List Value} : allExact vs = true ↔ ∀ v ∈ vs, v.isExact = true := by
  induction vs with
  | nil => simp [allExact]
  | cons v vs ih => rw [allExact, Bool.and_eq_true, ih, List.forall_mem_cons]

theorem entriesExact_iff {es : List (String × Value)} :
    entriesExact es = true ↔ ∀ e ∈ es, '\r' ∉ e.1.toList ∧ e.2.isExact = true := by
  induction es with
  | nil => simp [entriesExact]
  | cons e es ih =>
    rw [entriesExact, Bool.and_eq_true, Bool.and_eq_true, ih, List.forall_mem_cons,
      decide_eq_true_eq]

end Value

/-! ## What is read can be written -/

theorem Word.toInt_of_ofInt? {w : Width} {n : Int} {word : Word w}
    (h : Word.ofInt? w n = some word) : word.toInt = n := by
  have hbits : 0 < w.bits := by cases w <;> decide
  unfold ofInt? at h
  split at h
  · rename_i hholds
    cases h
    obtain ⟨hleast, hgreatest⟩ := Bool.and_eq_true_iff.mp hholds
    exact BitVec.toInt_ofInt_eq_self hbits (of_decide_eq_true hleast)
      (Int.lt_of_le_sub_one (of_decide_eq_true hgreatest))
  · cases h

theorem Value.Sourced.writable {T : List Located} (hT : ∀ t : Token, t.Among T → t.Formed True)
    {v : Value} (h : v.Sourced False T) (hexact : v.isExact = true) : v.Writable := by
  have hresource : ∀ {text : String}, (Token.resource text).Among T →
      ResourceText (ResourceId.ofText text).text.toList ∧
        ResourceId.ofText (ResourceId.ofText text).text = ResourceId.ofText text := by
    intro text ht
    have hformed : ResourceText text.toList := hT _ ht
    rw [hformed.text_ofText]
    exact ⟨hformed, rfl⟩
  induction h with
  | integer negative ht hword =>
    have hmagnitude : _ < Nat.pow 2 63 := hT _ ht
    refine .integer ?_
    rw [Word.toInt_of_ofInt? hword]
    cases negative <;> simpa using hmagnitude
  | float | double => cases hexact
  | string _ => exact .string (of_decide_eq_true hexact)
  | bool b => exact .bool b
  | selector ht hs =>
    have htext := Selector.text_of_parse? hs
    refine .selector ?_ ?_
    · rw [htext]
      exact hT _ ht trivial
    · rw [htext, hs]
  | resource ht =>
    obtain ⟨htext, hread⟩ := hresource ht
    exact .resource htext hread
  | item ht hkeys _ ih =>
    obtain ⟨htext, hread⟩ := hresource ht
    have hexact := entriesExact_iff.mp hexact
    exact .item htext hread hkeys (fun e he => (hexact e he).1) fun e he => ih e he (hexact e he).2
  | list hitems hkinds ih =>
    have hexact := allExact_iff.mp hexact
    exact .list (fun v hv => ih v hv (hexact v hv)) (hkinds.resolve_right id)
  | compound hkeys _ ih =>
    have hexact := entriesExact_iff.mp hexact
    exact .compound hkeys (fun e he => (hexact e he).1) fun e he => ih e he (hexact e he).2
  | range h => exact .range h

/-! ## What can be written is read back -/

/-- The tokens of a value, and nothing else, are an expression. -/
theorem Value.Writable.runs_expression {v : Value} (h : v.Writable) (here stop : Nat) :
    Runs expression { rest := located here v.lexemes ++ [⟨.endOfSource, ⟨stop, stop⟩⟩] }
      [⟨.endOfSource, ⟨stop, stop⟩⟩] (ReadAs v) := by
  refine Runs.step rfl rfl ?_
  rw [List.length_append, length_located]
  exact h.readBy (Nat.le_succ _) rfl rfl

theorem Value.Writable.parseLiteral?_render {v : Value} (h : v.Writable) :
    parseLiteral? v.kind v.render = some v := by
  have htokens := tokenize_of_allRead (h.allRead fun _ hc => nomatch hc) h.texts_lexemes.symm
  have hliteral : literalOf? (tokenize v.render).1 = some v := by
    obtain ⟨e, s, hrun, hrest, hreport, he⟩ := h.runs_expression 0 (Text.size (texts v.lexemes))
    rw [htokens, literalOf?, hrun]
    dsimp only
    rw [peek_of_rest hrest, hreport, he.1]
    rfl
  rw [parseLiteral?, htokens]
  rw [htokens] at hliteral
  simp [hliteral]

/-- The values that are read as literals come from the tokens of the text. -/
theorem sourced_of_parseLiteral? {kind : Kind} {text : String} {v : Value}
    (h : parseLiteral? kind text = some v) :
    (tokenize text).2 = [] ∧ v.kind = kind ∧ v.Sourced False (tokenize text).1 := by
  unfold parseLiteral? at h
  split at h
  · rename_i tokens htokens
    obtain ⟨hliteral, hkind⟩ := Option.filter_eq_some_iff.mp h
    rw [htokens]
    refine ⟨rfl, of_decide_eq_true hkind, ?_⟩
    unfold literalOf? at hliteral
    split at hliteral
    · rename_i e s hrun
      split at hliteral
      · rename_i hend
        have hclean : s.report.hasErrors = false := by
          simpa using (Bool.and_eq_true_iff.mp hend).2
        have hmade := (does_expression.ok (.start tokens) hrun).2
        have hF : ¬ s.Clean → False := fun hfault => hfault hclean
        exact (hmade.sourced hF).constant (hmade.built hF).operand hliteral
      · cases hliteral
    · cases hliteral
  · cases h

/-- **Literals read back**: the text of a value that a literal was read as is a literal of the same
value. -/
theorem literal_roundTrip {kind : Kind} {text : String} {v : Value}
    (h : parseLiteral? kind text = some v) (hexact : v.isExact = true) :
    parseLiteral? kind v.render = some v := by
  obtain ⟨hclean, hkind, hsourced⟩ := sourced_of_parseLiteral? h
  have hformed : ∀ t : Token, t.Among (tokenize text).1 → t.Formed True := fun t ht =>
    (formed_of_among ht).mono fun _ => hclean
  rw [← hkind]
  exact (hsourced.writable hformed hexact).parseLiteral?_render

namespace Nested

/-- A literal with values of all sorts: keys that are keywords or no names, a key that comes twice,
ranges that are open in front of commas and brackets, the least integers, escapes, and marks in the
arguments of a selector. -/
def source : String :=
  "\x7bif:[1..,-3..2,..0],\"a b\":\x7bx:[-128b,5b],true:-2147483648\x7d,x:7,\n" ++
    "x: \"q\\\"\\n\\\\\",s:@e[nbt=\x7ba:\"]\"\x7d]," ++
    "i: m:stick\x7bn:[true,false],id: ns:a/b-c.d\x7d\x7d"

/-- The text of its value. -/
def rendered : String :=
  "\x7b\"if\": [1.., -3..2, ..0], \"a b\": \x7bx: [-128b, 5b], \"true\": -2147483648\x7d, " ++
    "x: \"q\\\"\\n\\\\\", s: @e[nbt=\x7ba:\"]\"\x7d], " ++
    "i: m:stick\x7bn: [true, false], id: ns:a/b-c.d\x7d\x7d"

end Nested

open Nested in
theorem literal_roundTrip_nested :
    ∃ v, parseLiteral? .compound source = some v ∧ v.isExact = true ∧ v.render = rendered ∧
      parseLiteral? .compound rendered = some v := by
  have hread : (parseLiteral? .compound source).map (fun v => (v.isExact, v.render)) =
      some (true, rendered) := by decide +kernel
  obtain ⟨v, hv, hfacts⟩ := Option.map_eq_some_iff.mp hread
  obtain ⟨hexact, hrender⟩ := Prod.mk.inj hfacts
  refine ⟨v, hv, hexact, hrender, ?_⟩
  rw [← hrender]
  exact literal_roundTrip hv hexact

end Packwright
