import GraphQuery.Text.Basic

/-! The tokens of query text, the faults that a text can have below the level of tokens, and how
both are named in messages. -/
namespace GraphQuery.Document

inductive Punctuator where
  | bang | dollar | ampersand | parenOpen | parenClose | spread | colon | equals | atSign
  | bracketOpen | bracketClose | braceOpen | bar | braceClose
  deriving DecidableEq, Repr

def Punctuator.text : Punctuator → String
  | .bang => "!"
  | .dollar => "$"
  | .ampersand => "&"
  | .parenOpen => "("
  | .parenClose => ")"
  | .spread => "..."
  | .colon => ":"
  | .equals => "="
  | .atSign => "@"
  | .bracketOpen => "["
  | .bracketClose => "]"
  | .braceOpen => "\x7b"
  | .bar => "|"
  | .braceClose => "\x7d"

/-- A token. Numbers keep their text; strings have their decoded value. -/
inductive Token where
  | punctuator (p : Punctuator)
  | name (text : String)
  | int (text : String)
  | float (text : String)
  | string (value : String)
  | blockString (value : String)
  deriving DecidableEq, Repr

def quoted (text : String) : String := "\"" ++ text ++ "\""

def Token.describe : Token → String
  | .punctuator p => quoted p.text
  | .name s => "Name " ++ quoted s
  | .int s => "Int " ++ quoted s
  | .float s => "Float " ++ quoted s
  | .string s => "String " ++ quoted s
  | .blockString s => "BlockString " ++ quoted s

/-- The value that a token carries; punctuators carry none. -/
def Token.value? : Token → Option String
  | .punctuator _ => none
  | .name s | .int s | .float s | .string s | .blockString s => some s

def describeNext : Option Token → String
  | none => "<EOF>"
  | some t => t.describe

def describeChar : Option Char → String
  | none => "<EOF>"
  | some '"' => "'\"'"
  | some c =>
    if 0x20 ≤ c.toNat ∧ c.toNat ≤ 0x7E then quoted (String.singleton c)
    else "U+" ++ String.ofList (Text.hexText c.toNat)

/-- What keeps a text from being read as tokens. -/
inductive LexicalFault where
  | unexpectedCharacter (c : Char)
  | digitAfterZero (c : Char)
  | digitExpected (found : Option Char)
  | unterminatedString
  /-- The backslash and what follows it. -/
  | characterEscape (text : String)
  | unicodeEscape (text : String)
  deriving DecidableEq, Repr

def LexicalFault.message : LexicalFault → String
  | .unexpectedCharacter c =>
    if c = '\'' then
      "Unexpected single quote character ('), did you mean to use a double quote (\")?"
    else "Unexpected character: " ++ describeChar (some c) ++ "."
  | .digitAfterZero c =>
    "Invalid number, unexpected digit after 0: " ++ describeChar (some c) ++ "."
  | .digitExpected found =>
    "Invalid number, expected digit but got: " ++ describeChar found ++ "."
  | .unterminatedString => "Unterminated string."
  | .characterEscape s => "Invalid character escape sequence: " ++ quoted s ++ "."
  | .unicodeEscape s => "Invalid Unicode escape sequence: " ++ quoted s ++ "."

end GraphQuery.Document
