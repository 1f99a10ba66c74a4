import Packwright.Condition.Basic
import Packwright.Decimal.Layout
import Packwright.Table
import Packwright.Text.Lowercase
import Packwright.Token.Basic
import Packwright.Value.Kind

/-!
# Values

The values of the language and their texts.  `Value.render` is the form in commands; literals are
read back from it.  `Value.plain` differs in that a string stands without quotes.
-/

namespace Packwright

/-- A value known while commands are generated.  Scores, conditions and data paths stand for what
only the running commands know. -/
inductive Value where
  | integer (width : Width) (word : Word width)
  | float (value : Float32)
  | double (value : Float)
  | string (text : String)
  | bool (value : Bool)
  | selector (selector : Selector)
  | compound (entries : List (String × Value))
  | list (items : List Value)
  | range (range : Range)
  | score (score : Score)
  | condition (condition : Condition)
  | variant (enum name : String)
  | item (id : ResourceId) (data : Option (List (String × Value)))
  | resource (id : ResourceId)
  | data (path : DataPath)
  deriving Inhabited

/-- The kind of the integers of a width. -/
def Width.kind : Width → Kind
  | byte => .byte
  | short => .short
  | int => .int
  | long => .long

/-- The letter behind an integer literal of a width. -/
def Width.suffix : Width → String
  | byte => "b"
  | short => "s"
  | int => ""
  | long => "L"

namespace Value

/-- The value of a plain integer. -/
abbrev int (n : Amount) : Value := .integer .int n

/-- The kind of a value. -/
def kind : Value → Kind
  | integer w _ => w.kind
  | float _ => .float
  | double _ => .double
  | string _ => .string
  | bool _ => .bool
  | selector _ => .selector
  | compound _ => .compound
  | list _ => .list
  | range _ => .range
  | score _ => .score
  | condition _ => .condition
  | variant _ _ => .enum
  | item _ _ => .item
  | resource _ => .resource
  | data _ => .data

/-- Whether a key of a compound can be written without quotes. -/
def isBareKey (key : String) : Bool :=
  match key.toList with
  | [] => false
  | c :: cs =>
    !c.isDigit && (c :: cs).all (fun c => c.isAlphanum || c = '_') && (Keyword.ofText? key).isNone

/-- A key of a compound as it is written. -/
def renderKey (key : String) : String := if isBareKey key then key else Text.quote key

/-- Entries of a compound, already written, between their braces. -/
def braced (entries : List String) : String :=
  "\x7b" ++ ", ".intercalate entries ++ "\x7d"

mutual

/-- The text of a value in commands. -/
def render : Value → String
  | integer w v => v.text ++ w.suffix
  | float v => Decimal.Layout.plain.single v ++ "f"
  | double v => Decimal.Layout.plain.double v ++ "d"
  | string s => Text.quote s
  | bool b => if b then "true" else "false"
  | selector s => s.text
  | compound entries => braced (renderEntries entries)
  | list items => "[" ++ ", ".intercalate (renderAll items) ++ "]"
  | range r => r.text
  | score s => s.text
  | condition c => c.text
  | variant _ name => Text.lower name
  | item id (some entries) => id.text ++ braced (renderEntries entries)
  | item id none => id.text
  | resource id => id.text
  | data path => path.text

/-- The texts of several values. -/
def renderAll : List Value → List String
  | [] => []
  | v :: vs => render v :: renderAll vs

/-- The entries of a compound, each as `key: value`. -/
def renderEntries : List (String × Value) → List String
  | [] => []
  | (key, v) :: es => (renderKey key ++ ": " ++ render v) :: renderEntries es

end

/-- The text of a value in chat: a string stands without quotes. -/
def plain : Value → String
  | string s => s
  | v => render v

mutual

/-- Whether two values are equal.  Numbers compare as numbers, and the order of the entries of a
compound does not matter. -/
def same : Value → Value → Bool
  | integer v a, integer w b => v = w && a.toInt = b.toInt
  | float a, float b => a == b
  | double a, double b => a == b
  | string a, string b => a = b
  | bool a, bool b => a = b
  | selector a, selector b => a = b
  | compound a, compound b => a.length = b.length && sameEntries a b
  | list a, list b => sameAll a b
  | range a, range b => a = b
  | score a, score b => a = b
  | condition a, condition b => a.same b
  | variant e a, variant f b => e = f && a = b
  | item a (some d), item b (some e) => a = b && d.length = e.length && sameEntries d e
  | item a none, item b none => a = b
  | resource a, resource b => a = b
  | data a, data b => a = b
  | _, _ => false

/-- Whether two lists of values are equal. -/
def sameAll : List Value → List Value → Bool
  | [], [] => true
  | v :: vs, w :: ws => same v w && sameAll vs ws
  | _, _ => false

/-- Whether every entry of the first table has an equal one under its key in the second. -/
def sameEntries : List (String × Value) → List (String × Value) → Bool
  | [], _ => true
  | (key, v) :: es, others =>
    (match Table.get? others key with
      | some w => same v w
      | none => false) && sameEntries es others

end

mutual

/-- Whether the value, or a part of it, exists only while the commands run. -/
def isRuntime : Value → Bool
  | score _ | condition _ | data _ => true
  | list items => anyRuntime items
  | compound entries => anyEntryRuntime entries
  | _ => false

/-- Whether one of several values exists only while the commands run. -/
def anyRuntime : List Value → Bool
  | [] => false
  | v :: vs => isRuntime v || anyRuntime vs

/-- Whether a value in a compound exists only while the commands run. -/
def anyEntryRuntime : List (String × Value) → Bool
  | [] => false
  | (_, v) :: es => isRuntime v || anyEntryRuntime es

end

end Value

end Packwright
