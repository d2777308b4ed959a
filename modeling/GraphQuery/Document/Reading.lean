import GraphQuery.Document.Lexer

/-! Reading from the front of a token stream. A reading yields a value and what is left, a stream
shorter than a limit; names and punctuators are read here, and items up to a closing
punctuator. -/
namespace GraphQuery.Document

inductive Expectation where
  | name
  | punctuator (p : Punctuator)
  | keyword (text : String)
  deriving DecidableEq, Repr

def Expectation.describe : Expectation → String
  | .name => "Name"
  | .punctuator p => quoted p.text
  | .keyword s => quoted s

/-- Why a text is no document. A missing token stands for the end of the text. -/
inductive Fault where
  | lexical (f : LexicalFault)
  | expected (wanted : Expectation) (found : Option Token)
  | unexpected (found : Option Token)
  | variableInConstant (name : String)
  /-- A description in front of a query without a keyword. -/
  | shorthandDescription
  /-- A description in front of a name that begins no definition. -/
  | strayDescription
  deriving DecidableEq, Repr

def Fault.reason : Fault → String
  | .lexical f => f.message
  | .expected wanted found =>
    "Expected " ++ wanted.describe ++ ", found " ++ describeNext found ++ "."
  | .unexpected found => "Unexpected " ++ describeNext found ++ "."
  | .variableInConstant name =>
    "Unexpected variable " ++ quoted ("$" ++ name) ++ " in constant value."
  | .shorthandDescription =>
    "Unexpected description, descriptions are not supported on shorthand queries."
  | .strayDescription =>
    "Unexpected description, only GraphQL definitions support descriptions."

def Fault.message (f : Fault) : String := "Syntax Error: " ++ f.reason

namespace Parser

/-- A value that was read, and the stream after it. -/
structure Parsed (α : Type) (limit : Nat) where
  value : α
  rest : TokenStream
  shorter : rest.length < limit

/-- The fault of a stream that does not begin as it has to: a lexical one goes before. -/
def refusal (fault : Option Token → Fault) : TokenStream → Fault
  | .done => fault none
  | .fault f => .lexical f
  | .next t _ => fault (some t)

def accept (p : Punctuator) : (s : TokenStream) → Option (Parsed Unit s.length)
  | .next (.punctuator q) rest => if q = p then some ⟨(), rest, rest.length_lt_succ⟩ else none
  | _ => none

def expect (p : Punctuator) (s : TokenStream) : Except Fault (Parsed Unit s.length) :=
  match accept p s with
  | some r => .ok r
  | none => .error (refusal (.expected (.punctuator p)) s)

def name : (s : TokenStream) → Except Fault (Parsed String s.length)
  | .next (.name n) rest => .ok ⟨n, rest, rest.length_lt_succ⟩
  | s => .error (refusal (.expected .name) s)

def keyword (k : String) : (s : TokenStream) → Except Fault (Parsed Unit s.length)
  | .next (.name n) rest =>
    if n = k then .ok ⟨(), rest, rest.length_lt_succ⟩
    else .error (.expected (.keyword k) (some (.name n)))
  | s => .error (refusal (.expected (.keyword k)) s)

def labelled {α : Type} (s : TokenStream)
    (read : (t : TokenStream) → t.length < s.length → Except Fault (Parsed α t.length)) :
    Except Fault (Parsed (String × α) s.length) := do
  let ⟨n, s₁, h₁⟩ ← name s
  let ⟨_, s₂, h₂⟩ ← expect .colon s₁
  let ⟨x, s₃, h₃⟩ ← read s₂ (by omega)
  return ⟨(n, x), s₃, by omega⟩

def itemsUntil {α : Type} (close : Punctuator) (s : TokenStream)
    (item : (t : TokenStream) → t.length ≤ s.length → Except Fault (Parsed α t.length)) :
    Except Fault (Parsed (List α) s.length) := do
  let ⟨x, s₁, h₁⟩ ← item s (Nat.le_refl _)
  match accept close s₁ with
  | some ⟨_, s₂, h₂⟩ => return ⟨[x], s₂, by omega⟩
  | none =>
    let ⟨xs, s₂, h₂⟩ ← itemsUntil close s₁ fun t h => item t (by omega)
    return ⟨x :: xs, s₂, by omega⟩
termination_by s.length

/-- Items and the closing punctuator, or the closing punctuator alone. -/
def anyUntil {α : Type} (close : Punctuator) (s : TokenStream)
    (item : (t : TokenStream) → t.length ≤ s.length → Except Fault (Parsed α t.length)) :
    Except Fault (Parsed (List α) s.length) :=
  match accept close s with
  | some ⟨_, rest, h⟩ => .ok ⟨[], rest, h⟩
  | none => itemsUntil close s item

def optionalItems {α : Type} (opening closing : Punctuator) (s : TokenStream)
    (item : (t : TokenStream) → t.length ≤ s.length → Except Fault (Parsed α t.length)) :
    Except Fault (Parsed (List α) (s.length + 1)) :=
  match accept opening s with
  | none => .ok ⟨[], s, s.length_lt_succ⟩
  | some ⟨_, s₁, h₁⟩ => do
    let ⟨xs, s₂, h₂⟩ ← itemsUntil closing s₁ fun t h => item t (by omega)
    return ⟨xs, s₂, by omega⟩

end Parser

end GraphQuery.Document
