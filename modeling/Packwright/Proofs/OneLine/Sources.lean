import Packwright.Pack.Assets
import Packwright.Proofs.Core.Finish
import Packwright.Proofs.Functions
import Packwright.Proofs.OneLine.Statements
import Packwright.Proofs.Token.Shapes

/-!
# One command a line

The commands of a list are written one a line, so the file of a list is read back as the list if no
command has a line feed.  In a source whose selectors are on one line, only `say`, `cmd` and the
name of a tag can bring one in.

* `Expr.Sourced.oneLine`, `analyze_oneLine`: what is read from a source brings no line feed in.
* `Draft.OneLine.finish`: the finished pack of a draft without line feeds.
* `compile_oneLine`: the commands of a source, and the files that they are written to.
-/

namespace Packwright

open Lexical Text

/-! ## What is read -/

section Read

variable {source : String} {F : Prop}

/-- The selectors of the source are on one line. -/
def SelectorsOneLine (source : String) : Prop :=
  ∀ text, (Token.selector text).Among (tokenize source).1 → OneLine text

theorem oneLine_of_named {x : String} (h : Named (tokenize source).1 x) : OneLine x :=
  oneLine_of_isIdentifier (isIdentifier_of_named h)

theorem oneLine_of_resource {text : String}
    (h : (Token.resource text).Among (tokenize source).1) :
    OneLine (ResourceId.ofText text).text := by
  have hformed : ResourceText text.toList := formed_of_among h
  rw [hformed.text_ofText]
  obtain ⟨c, space, d, path, htext, hc, hspace, hd, hpath⟩ := hformed
  have hpart : ∀ {e : Char}, isNamePart e = true → e ≠ '\n' := by
    rintro e he rfl
    revert he
    decide
  have hpathPart : ∀ {e : Char}, isPathPart e = true → e ≠ '\n' := by
    rintro e he rfl
    revert he
    decide
  rw [OneLine, htext]
  intro hmem
  rcases List.mem_append.mp hmem with hmem | hmem
  · rcases List.mem_cons.mp hmem with heq | hmem
    · exact hpart (isNamePart_of_isNameStart hc) heq.symm
    · exact hpart (hspace _ hmem) rfl
  · rcases List.mem_cons.mp hmem with heq | hmem
    · revert heq
      decide
    · rcases List.mem_cons.mp hmem with heq | hmem
      · exact hpart (isNamePart_of_isNameStart hd) heq.symm
      · exact hpathPart (hpath _ hmem) rfl

theorem Value.Sourced.oneLine {v : Value} (h : v.Sourced F (tokenize source).1)
    (hselectors : SelectorsOneLine source) : OneLine v.render := by
  induction h with
  | integer | float | double | string | bool | range => simp
  | selector ht hs =>
    rw [oneLine_render_selector, Selector.text_of_parse? hs]
    exact hselectors _ ht
  | resource ht => exact oneLine_of_resource ht
  | item ht _ _ ih =>
    refine oneLine_render_item.mpr ⟨oneLine_of_resource ht, fun es hes e he => ?_⟩
    cases hes
    exact ih e he
  | list _ _ ih => exact oneLine_render_list.mpr ih
  | compound _ _ ih => exact oneLine_render_compound.mpr ih

theorem oneLine_of_pathText {path : String} (h : PathText (tokenize source).1 path) :
    OneLine path := by
  intro hmem
  rcases h _ hmem with ⟨x, hx, hc⟩ | hc | hc
  · exact oneLine_of_named hx hc
  · revert hc
    decide
  · revert hc
    decide

/-- **Expressions** that are read bring no line feed in. -/
theorem Expr.Sourced.oneLine {e : Expr} (h : e.Sourced F (tokenize source).1)
    (hselectors : SelectorsOneLine source) : e.OneLine := by
  intro p hp
  have hnode := h p hp
  cases p with
  | literal i v => exact Value.Sourced.oneLine hnode hselectors
  | member i e x m as => exact oneLine_of_named hnode
  | dataPath i e path => exact oneLine_of_pathText hnode
  | variant i e x =>
    exact oneLine_lower (isNamePart_of_isIdentifier (isIdentifier_of_named hnode.2))
  | call i target =>
    cases target with
    | here x => exact oneLine_of_named hnode
    | elsewhere id =>
      obtain ⟨text, ht, rfl⟩ := hnode
      exact oneLine_of_resource ht
  | _ => trivial

/-- **Statements** that are read bring no line feed in. -/
theorem analyze_oneLine (registry : Registry) (hselectors : SelectorsOneLine source) :
    ∀ t ∈ (analyze source registry).1.body, t.OneLine := by
  obtain ⟨Γ, hbuilt⟩ := parseScript_built (tokenize source).1 (Or.inr trivial)
  intro t ht p hp
  refine ⟨fun e he => ?_, ?_⟩
  · exact ((analyze_sourced source registry t ht p hp).operands e he).oneLine hselectors
  · rintro span x e o rfl
    obtain ⟨Γ₁, Γ₂, ht⟩ := hbuilt.of_mem ht
    obtain ⟨_, _, hvar⟩ := ht.part hp
    cases hvar with
    | varPlain hx => exact oneLine_of_named hx
    | var hx _ => exact oneLine_of_named hx

end Read

/-! ## Packs -/

namespace Pack.OneLine

variable {p : Pack}

theorem removeEmpty (h : p.OneLine) (dir : String) : (p.removeEmpty dir).OneLine := by
  fun_induction Pack.removeEmpty p dir with
  | case1 => exact h
  | case2 p _ ih =>
    refine ih fun f hf line hline => ?_
    obtain ⟨g, hg, rfl⟩ := List.mem_map.mp hf
    exact h g (List.mem_filter.mp hg).1 line (List.mem_filter.mp hline).1

theorem removeOrphans (h : p.OneLine) (dir : String) : (p.removeOrphans dir).OneLine := by
  fun_induction Pack.removeOrphans p dir with
  | case1 => exact h
  | case2 p _ ih => exact ih fun f hf => h f (List.mem_filter.mp hf).1

theorem cleanup (h : p.OneLine) (dir : String) : (p.cleanup dir).OneLine :=
  (h.removeEmpty dir).removeOrphans dir

end Pack.OneLine

/-- **The finished pack** of a draft without line feeds has none. -/
theorem Draft.OneLine.finish {d : Draft} (h : d.OneLine) : d.finish.OneLine := by
  have hmain : ∀ line ∈ d.mainLines, Text.OneLine line := by
    intro line hline
    unfold mainLines at hline
    cases hlast : d.frames.getLast? with
    | none => simp [hlast] at hline
    | some frame =>
      rw [hlast] at hline
      exact h.frames frame (List.mem_of_getLast? hlast) line hline
  have hassembled : d.assembled.OneLine := by
    have hwith : d.withMain.OneLine := by
      unfold withMain
      split
      · exact h.pack
      · exact h.pack.addFunction _ hmain
    refine hwith.addFunction (initId d.options) (List.forall_mem_singleton.mpr ?_)
    exact Line.oneLine_addObjective.mpr h.options.objective
  rw [finish_eq]
  split
  · exact hassembled.cleanup _
  · exact hassembled

/-! ## Sources -/

/-- **One command a line**: if the options and the selectors of a source have no line feed, and no
text that generation takes over as it is has one, then no command has a line feed.  Every list is
written to a file of the pack, and what is written of a list with commands is split at its line
feeds into the commands. -/
theorem compile_oneLine (source : String) (options : Options) (registry : Registry)
    (hoptions : options.OneLine) (hselectors : SelectorsOneLine source)
    (htexts : unbrokenAll (analyze source registry).1.body (Draft.empty options).pushScope = true) :
    ∀ id lines, (id, lines) ∈ (compile source options registry).1.functions →
      (∀ line ∈ lines, OneLine line) ∧
      Pack.functionAsset id lines ∈ (compile source options registry).1.assets ∧
      (lines ≠ [] → (splitAll '\n' (Pack.functionAsset id lines).content.toList).map String.ofList =
        lines) := by
  intro id lines hmem
  have hempty : (Draft.empty options).OneLine := .empty hoptions
  have hscript := (oneLine_generateAll _ (analyze_oneLine registry hselectors) htexts
    hempty.pushScope).popScope
  have hdraft : ((Draft.empty options).addScript (analyze source registry).1).2.OneLine :=
    ⟨hscript.options, hscript.pack, hscript.frames, hscript.scopes⟩
  have hlines : ∀ line ∈ lines, OneLine line := hdraft.finish (id, lines) hmem
  refine ⟨hlines, ?_, fun hne => splitAll_intercalate hne hlines⟩
  exact List.mem_append_left _ (List.mem_map.mpr ⟨(id, lines), hmem, rfl⟩)

namespace QuotedBreaks

/-- A source with line feeds in texts that are quoted, in lists of all sorts. -/
def source : String :=
  "let text = \"a\\nb\"\nvar n = 2\n" ++
    "tellraw @a text, \"c\\nd\", n\n" ++
    "summon minecraft:pig \x7b\"k\\nl\": [text, \"\\n\"]\x7d\n" ++
    "while n > 0 \x7b\n n -= 1\n as @e[name=\"x\"] \x7b say \"one\" \x7d\n\x7d\n" ++
    "function f \x7b if n > 1 && n < 5 \x7b cmd \"seed\" \x7d else \x7b tag @s add t \x7d \x7d\n"

/-- Nothing is cleaned up. -/
def options : Options := { cleanup := false }

end QuotedBreaks

open QuotedBreaks in
theorem compile_oneLine_quotedBreaks :
    options.OneLine ∧ SelectorsOneLine source ∧
    unbrokenAll (analyze source {}).1.body (Draft.empty options).pushScope = true ∧
    (compile source options {}).1.functions.length = 6 ∧
    ∀ id lines, (id, lines) ∈ (compile source options {}).1.functions →
      (∀ line ∈ lines, OneLine line) ∧
      Pack.functionAsset id lines ∈ (compile source options {}).1.assets ∧
      (lines ≠ [] → (splitAll '\n' (Pack.functionAsset id lines).content.toList).map String.ofList =
        lines) := by
  have hoptions : options.OneLine := ⟨by decide, by decide, by decide⟩
  have hfacts : (∀ t ∈ (tokenize source).1,
      (match t.token with
        | .selector text => decide (OneLine text)
        | _ => true) = true) ∧
      unbrokenAll (analyze source {}).1.body (Draft.empty options).pushScope = true ∧
      (compile source options {}).1.functions.length = 6 := by decide +kernel
  obtain ⟨hall, htexts, hlength⟩ := hfacts
  have hselectors : SelectorsOneLine source := by
    rintro text ⟨span, hmem⟩
    exact of_decide_eq_true (hall _ hmem)
  refine ⟨hoptions, hselectors, htexts, hlength, ?_⟩
  exact compile_oneLine source options {} hoptions hselectors htexts

/-- A text that is taken over as it is may break its line, and nothing is reported. -/
theorem compile_breaks_line :
    (compile "say \"a\\nb\"" {} {}).2.diagnostics.isEmpty = true ∧
    (compile "say \"a\\nb\"" {} {}).1.function? ⟨"datascript", "main"⟩ = some ["say a\nb"] ∧
    (splitAll '\n' (Pack.functionAsset ⟨"datascript", "main"⟩ ["say a\nb"]).content.toList).map
      String.ofList = ["say a", "b"] := by
  decide +kernel

end Packwright
