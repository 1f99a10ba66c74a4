import Packwright.Decimal.Layout
import Packwright.Source.Span
import Packwright.Text.Quoted
import Packwright.Word

/-!
# Tokens

The tokens of the language, the spelling of its keywords and marks, and the text under which a token
appears in messages.
-/

namespace Packwright

/-- The reserved words. -/
inductive Keyword where
  | varKw | letKw | ifKw | elseKw | whileKw | functionKw | enumKw | asKw | atKw | sayKw | tellrawKw
  | giveKw | tagKw | killKw | summonKw | cmdKw | returnKw | trueKw | falseKw | inKw
  deriving DecidableEq, Repr

namespace Keyword

/-- The spelling of a keyword. -/
def text : Keyword → String
  | varKw => "var" | letKw => "let" | ifKw => "if" | elseKw => "else" | whileKw => "while"
  | functionKw => "function" | enumKw => "enum" | asKw => "as" | atKw => "at" | sayKw => "say"
  | tellrawKw => "tellraw" | giveKw => "give" | tagKw => "tag" | killKw => "kill"
  | summonKw => "summon" | cmdKw => "cmd" | returnKw => "return" | trueKw => "true"
  | falseKw => "false" | inKw => "in"

/-- Every keyword. -/
def all : List Keyword :=
  [varKw, letKw, ifKw, elseKw, whileKw, functionKw, enumKw, asKw, atKw, sayKw, tellrawKw, giveKw,
    tagKw, killKw, summonKw, cmdKw, returnKw, trueKw, falseKw, inKw]

/-- The keyword with a given spelling. -/
def ofText? (word : String) : Option Keyword := all.find? (·.text = word)

end Keyword

/-- Punctuation and operators. -/
inductive Mark where
  | lparen | rparen | lbrace | rbrace | lbracket | rbracket
  | comma | dot | dotDot | colon | semicolon
  | plus | minus | star | slash | percent
  | lt | gt | le | ge | eqEq | ne | and | or | bang
  | eq | plusEq | minusEq | starEq | slashEq | percentEq
  deriving DecidableEq, Repr

namespace Mark

/-- The spelling of a mark. -/
def text : Mark → String
  | lparen => "(" | rparen => ")" | lbrace => "\x7b" | rbrace => "\x7d" | lbracket => "["
  | rbracket => "]" | comma => "," | dot => "." | dotDot => ".." | colon => ":" | semicolon => ";"
  | plus => "+" | minus => "-" | star => "*" | slash => "/" | percent => "%" | lt => "<" | gt => ">"
  | le => "<=" | ge => ">=" | eqEq => "==" | ne => "!=" | and => "&&" | or => "||" | bang => "!"
  | eq => "=" | plusEq => "+=" | minusEq => "-=" | starEq => "*=" | slashEq => "/="
  | percentEq => "%="

/-- The name of a mark in messages. -/
def name : Mark → String
  | lparen => "LParen" | rparen => "RParen" | lbrace => "LBrace" | rbrace => "RBrace"
  | lbracket => "LBracket" | rbracket => "RBracket" | comma => "Comma" | dot => "Dot"
  | dotDot => "DotDot" | colon => "Colon" | semicolon => "Semicolon" | plus => "Plus"
  | minus => "Minus" | star => "Star" | slash => "Slash" | percent => "Percent" | lt => "Lt"
  | gt => "Gt" | le => "Le" | ge => "Ge" | eqEq => "EqEq" | ne => "Ne" | and => "And" | or => "Or"
  | bang => "Bang" | eq => "Eq" | plusEq => "PlusEq" | minusEq => "MinusEq" | starEq => "StarEq"
  | slashEq => "SlashEq" | percentEq => "PercentEq"

/-- Every mark, those of two characters first, so that the first match is the longest. -/
def all : List Mark :=
  [dotDot, and, or, eqEq, ne, le, ge, plusEq, minusEq, starEq, slashEq, percentEq, lparen, rparen,
    lbrace, rbrace, lbracket, rbracket, comma, dot, colon, semicolon, plus, minus, star, slash,
    percent, lt, gt, bang, eq]

end Mark

/-- The tokens.  An integer carries its magnitude; a sign in front is a token of its own. -/
inductive Token where
  | integer (width : Width) (magnitude : Nat)
  | single (value : Float32)
  | double (value : Float)
  | string (value : String)
  | name (text : String)
  | keyword (word : Keyword)
  /-- `@s`, `@e[type=zombie]` -/
  | selector (text : String)
  /-- `@tick` -/
  | marker (name : String)
  /-- `minecraft:stone`, `pack:util/reset` -/
  | resource (text : String)
  | mark (mark : Mark)
  | invalid (text : String)
  | newline
  | endOfSource
  deriving Inhabited

namespace Token

/-- The text of a token in messages. -/
def describe : Token → String
  | integer .int n => "Int(" ++ toString n ++ ")"
  | integer .byte n => "Byte(" ++ toString n ++ ")"
  | integer .short n => "Short(" ++ toString n ++ ")"
  | integer .long n => "Long(" ++ toString n ++ ")"
  | single v => "Float(" ++ Decimal.Layout.exact.single v ++ ")"
  | double v => "Double(" ++ Decimal.Layout.exact.double v ++ ")"
  | string s => "String(" ++ Text.display s ++ ")"
  | name s => "Ident(" ++ Text.display s ++ ")"
  | keyword k => "Keyword(" ++ k.text.capitalize ++ ")"
  | selector s => "Selector(" ++ Text.display s ++ ")"
  | marker s => "Annotation(" ++ Text.display s ++ ")"
  | resource s => "Resource(" ++ Text.display s ++ ")"
  | mark m => m.name
  | invalid s => "Invalid(" ++ Text.display s ++ ")"
  | newline => "Newline"
  | endOfSource => "Eof"

/-- Whether the token is a given mark. -/
def isMark (m : Mark) : Token → Bool
  | mark n => m = n
  | _ => false

/-- Whether the token is a given keyword. -/
def isKeyword (k : Keyword) : Token → Bool
  | keyword l => k = l
  | _ => false

/-- Whether the token is a number. -/
def isNumber : Token → Bool
  | integer _ _ | single _ | double _ => true
  | _ => false

/-- Whether the token separates lines. -/
def isNewline : Token → Bool
  | newline => true
  | _ => false

/-- Whether the token ends the source. -/
def isEnd : Token → Bool
  | endOfSource => true
  | _ => false

/-- Whether an expression goes on after the token, so that a line break behind it is none. -/
def opensLine : Token → Bool
  | mark m =>
    m ∈ [.plus, .minus, .star, .slash, .percent, .lt, .gt, .le, .ge, .eqEq, .ne, .and, .or, .eq,
      .plusEq, .minusEq, .starEq, .slashEq, .percentEq, .comma, .lparen, .lbrace, .lbracket]
  | marker _ | newline => true
  | _ => false

/-- Whether the token carries on with the line before it.  A minus sign, a slash and an exclamation
mark do not, since they can begin a line. -/
def continuesLine : Token → Bool
  | mark m => m ∈ [.plus, .star, .percent, .lt, .gt, .le, .ge, .eqEq, .ne, .and, .or, .dot]
  | keyword .elseKw => true
  | _ => false

end Token

/-- A token and the bytes it was read from. -/
structure Located where
  token : Token
  span : Span
  deriving Inhabited

end Packwright
