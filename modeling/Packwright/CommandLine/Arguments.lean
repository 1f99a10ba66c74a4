import Packwright.CommandLine.Help
import Packwright.Table
import Packwright.Text.Split

/-!
# Arguments

`CommandLine.parse` reads the arguments of the program, from left to right.  An option takes the
next argument for its value, or what stands behind `=`; behind `--` there are no options.
-/

namespace Packwright.CommandLine

/-- The arguments of a command that compiles. -/
structure SourceArguments where
  /-- The source files; there is at least one. -/
  files : List String
  config : Option String
  space : Option String
  objective : Option String
  registry : Option String
  deriving DecidableEq, Repr

/-- What the program is asked to do. -/
inductive Action where
  | build (args : SourceArguments) (out : Option String)
  | check (args : SourceArguments)
  | tokens (file : String)
  | schema
  deriving DecidableEq, Repr

/-- The arguments of the program. -/
structure Invocation where
  action : Action
  json : Bool
  deriving DecidableEq, Repr

/-- Why there is nothing to do. -/
inductive Refusal where
  /-- The arguments make no sense. -/
  | misuse
  | help (topic : Topic)
  | version
  deriving DecidableEq, Repr

/-- What a command takes. -/
structure Shape where
  topic : Topic
  /-- The options with a value; `true` if the value must not be empty. -/
  options : List (String × Bool)
  /-- How many arguments it takes at most, if there is a limit. -/
  limit : Option Nat

/-- What has been read of the arguments of a command. -/
structure Given where
  json : Bool := false
  options : Table String String := []
  operands : List String := []

/-- The options of commands that compile. -/
def compileOptions : List (String × Bool) :=
  [("config", true), ("namespace", false), ("objective", false), ("registry", true)]

namespace Topic

/-- What a command takes. -/
def shape : Topic → Shape
  | program => ⟨.program, [], some 0⟩
  | build => ⟨.build, compileOptions ++ [("out", true)], none⟩
  | check => ⟨.check, compileOptions, none⟩
  | tokens => ⟨.tokens, [], some 1⟩
  | schema => ⟨.schema, [], some 0⟩
  | help => ⟨.help, [], none⟩

/-- The command with a given name. -/
def ofName? : String → Option Topic
  | "build" => some build
  | "check" => some check
  | "tokens" => some tokens
  | "config-schema" => some schema
  | _ => none

end Topic

/-- An argument by its form. -/
inductive Form where
  /-- `--name` or `--name=value` -/
  | long (name : String) (value : Option String)
  /-- `-x`, with the letter -/
  | short (letter : Char)
  /-- `--` -/
  | divider
  | operand (text : String)
  deriving DecidableEq, Repr

/-- The form of an argument.  A single `-` is an operand. -/
def Form.of (arg : String) : Form :=
  match arg.toList with
  | ['-', '-'] => divider
  | '-' :: '-' :: rest =>
    match Text.splitOnce ['='] rest with
    | some (name, value) => long (String.ofList name) (some (String.ofList value))
    | none => long (String.ofList rest) none
  | '-' :: letter :: _ => short letter
  | _ => operand arg

namespace Given

/-- One more operand. -/
def addOperand (g : Given) (shape : Shape) (operand : String) : Except Refusal Given :=
  if operand.isEmpty || shape.limit.any (· ≤ g.operands.length) then .error .misuse
  else .ok { g with operands := g.operands ++ [operand] }

/-- One more option.  Options do not repeat. -/
def addOption (g : Given) (shape : Shape) (name value : String) : Except Refusal Given :=
  match shape.options.find? (·.1 = name) with
  | none => .error .misuse
  | some (_, filled) =>
    if g.options.has name || (filled && value.isEmpty) then .error .misuse
    else .ok { g with options := g.options.put name value }

/-- Several more operands. -/
def addOperands (g : Given) (shape : Shape) (operands : List String) : Except Refusal Given :=
  operands.foldlM (fun g operand => g.addOperand shape operand) g

/-- The flags that every command knows: help, and the form of the output. -/
def addFlag (g : Given) (shape : Shape) : Form → Except Refusal Given
  | .long "help" none | .short 'h' => .error (.help shape.topic)
  | .long "json" none => if g.json then .error .misuse else .ok { g with json := true }
  | _ => .error .misuse

/-- Reads the arguments of a command. -/
def read (shape : Shape) (g : Given) : List String → Except Refusal Given
  | [] => .ok g
  | arg :: args =>
    match Form.of arg with
    | .divider => g.addOperands shape args
    | .operand text => g.addOperand shape text >>= fun g => read shape g args
    | .short letter => g.addFlag shape (.short letter) >>= fun g => read shape g args
    | .long name (some value) => g.addOption shape name value >>= fun g => read shape g args
    | .long name none =>
      if shape.options.any (·.1 = name) then
        match args with
        | value :: rest =>
          match Form.of value with
          | .operand text => g.addOption shape name text >>= fun g => read shape g rest
          | _ => .error .misuse
        | [] => .error .misuse
      else g.addFlag shape (.long name none) >>= fun g => read shape g args

/-- The arguments of a command that compiles. -/
def sources (g : Given) : Except Refusal SourceArguments :=
  if g.operands.isEmpty then .error .misuse
  else
    .ok ⟨g.operands, g.options.get? "config", g.options.get? "namespace",
      g.options.get? "objective", g.options.get? "registry"⟩

/-- What a command with these arguments does. -/
def action (g : Given) : Topic → Except Refusal Action
  | .program | .help => .error .misuse
  | .build => g.sources.map (.build · (g.options.get? "out"))
  | .check => g.sources.map .check
  | .tokens =>
    match g.operands with
    | [file] => .ok (.tokens file)
    | _ => .error .misuse
  | .schema => .ok .schema

end Given

/-- Reads the arguments of a command; `json` if the flag stood in front of the command. -/
def parseCommand (json : Bool) (topic : Topic) (args : List String) :
    Except Refusal Invocation := do
  let given ← Given.read topic.shape {} args
  let action ← given.action topic
  return ⟨action, json || given.json⟩

/-- The help that is asked for by name. -/
def parseHelp : List String → Refusal
  | [] => .help .program
  | ["help"] => .help .help
  | [name] => ((Topic.ofName? name).map .help).getD .misuse
  | _ => .misuse

/-- Reads arguments up to the name of a command. -/
def parseFrom (json : Bool) : List String → Except Refusal Invocation
  | [] => .error .misuse
  | arg :: args =>
    match Form.of arg with
    | .operand "help" => .error (parseHelp args)
    | .operand name =>
      match Topic.ofName? name with
      | some topic => parseCommand json topic args
      | none => .error .misuse
    | .long "help" none | .short 'h' => .error (.help .program)
    | .long "version" none | .short 'V' => .error .version
    | .long "json" none => if json then .error .misuse else parseFrom true args
    | _ => .error .misuse

/-- Reads the arguments of the program. -/
def parse (args : List String) : Except Refusal Invocation := parseFrom false args

end Packwright.CommandLine
