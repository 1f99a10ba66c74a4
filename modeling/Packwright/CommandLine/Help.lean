/-!
# Help texts
-/

namespace Packwright.CommandLine

/-- The name of the program. -/
def program : String := "datascript-cli"

/-- The line about the version. -/
def versionLine : String := program ++ " 0.1.0\n"

/-- What can be asked about. -/
inductive Topic where
  | program
  | build
  | check
  | tokens
  | schema
  | help
  deriving DecidableEq, Repr

/-- Some lines as one text. -/
def text (lines : List String) : String := String.join (lines.map (· ++ "\n"))

/-- The options of the commands that compile. -/
def sourceOptions (more : List String) : List String :=
  ["Arguments:",
    "  <FILES>...  Source files, compiled into one namespace",
    "",
    "Options:",
    "      --config <CONFIG>        " ++
      "Settings file (default: datascript.json next to the first source)",
    "      --namespace <NAMESPACE>  ",
    "      --objective <OBJECTIVE>  ",
    "      --registry <REGISTRY>    Static registry JSON for id and NBT validation",
    "      --json                   Output raw JSON instead of formatted text"] ++ more ++
    ["  -h, --help                   Print help"]

/-- The help about a topic. -/
def help : Topic → String
  | .program => text
    ["Compile datascript sources into function packs",
      "",
      "Usage: datascript-cli [OPTIONS] <COMMAND>",
      "",
      "Commands:",
      "  build          Compile sources and write the output tree",
      "  check          Compile sources and report diagnostics without writing anything",
      "  tokens         Print the token stream of a source file",
      "  config-schema  Print the JSON schema of the settings file",
      "  help           Print this message or the help of the given subcommand(s)",
      "",
      "Options:",
      "      --json     Output raw JSON instead of formatted text",
      "  -h, --help     Print help",
      "  -V, --version  Print version"]
  | .build => text <|
    ["Compile sources and write the output tree",
      "",
      "Usage: datascript-cli build [OPTIONS] <FILES>...",
      ""] ++
      sourceOptions
        ["      --out <OUT>              Output directory (overrides the settings file)"]
  | .check => text <|
    ["Compile sources and report diagnostics without writing anything",
      "",
      "Usage: datascript-cli check [OPTIONS] <FILES>...",
      ""] ++ sourceOptions []
  | .tokens => text
    ["Print the token stream of a source file",
      "",
      "Usage: datascript-cli tokens [OPTIONS] <FILE>",
      "",
      "Arguments:",
      "  <FILE>  ",
      "",
      "Options:",
      "      --json  Output raw JSON instead of formatted text",
      "  -h, --help  Print help"]
  | .schema => text
    ["Print the JSON schema of the settings file",
      "",
      "Usage: datascript-cli config-schema [OPTIONS]",
      "",
      "Options:",
      "      --json  Output raw JSON instead of formatted text",
      "  -h, --help  Print help"]
  | .help => text
    ["Print this message or the help of the given subcommand(s)",
      "",
      "Usage: datascript-cli help [COMMAND]...",
      "",
      "Arguments:",
      "  [COMMAND]...  Print help for the subcommand(s)"]

end Packwright.CommandLine
