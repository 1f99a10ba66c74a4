import Packwright.Settings.Basic

/-!
# The schema of the settings file
-/

namespace Packwright.Settings

/-- The schema of one field: what it is for, its default, and its type. -/
def fieldSchema (description : String) (default type : Json) : Json :=
  .object [("description", .string description), ("default", default), ("type", type)]

/-- The schema of the settings file.  The fields stand in alphabetical order. -/
def schema : Json :=
  let d : Settings := {}
  let text (description default : String) : Json :=
    fieldSchema description (.string default) (.string "string")
  .object
    [("$schema", .string "http://json-schema.org/draft-07/schema#"),
      ("title", .string "BuildSettings"),
      ("description", .string
        "Build configuration, read from `datascript.json`. Every field is optional in the file."),
      ("type", .string "object"),
      ("properties", .object
        [("generated_dir",
            text "Directory (inside the namespace) for synthesized functions."
              d.options.generatedDir),
          ("main_function", text "Function receiving top-level statements." d.options.main),
          ("namespace", text "Namespace that generated functions live in." d.options.space),
          ("objective",
            text "Scoreboard objective holding variables and temporaries." d.options.objective),
          ("optimize",
            fieldSchema "Remove empty and unreferenced synthesized functions."
              (.bool d.options.cleanup) (.string "boolean")),
          ("output_dir", text "Output root; `data/` is created inside it." d.outputDir),
          ("registry",
            fieldSchema "Optional static registry JSON for id and NBT validation." .null
              (.array [.string "string", .string "null"]))])]

end Packwright.Settings
