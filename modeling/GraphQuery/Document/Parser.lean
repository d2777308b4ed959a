import GraphQuery.Datum
import GraphQuery.Document.Basic
import GraphQuery.Document.Reading

/-! The grammar of executable documents, read from left to right with one token of lookahead,
and a second one after a description. Definitions and extensions of types are no part of it: where
one begins, its keyword is a fault like any other word that is out of place. -/
namespace GraphQuery.Document.Parser

def namedValue : String → Value
  | "true" => .boolean true
  | "false" => .boolean false
  | "null" => .null
  | n => .enumeration n

/-- A variable reference, from what follows its dollar sign; it has no place in a constant. -/
def variableReference (constant : Bool) (s : TokenStream) : Except Fault (Parsed Value s.length) :=
  if constant then
    match s with
    | .next (.name n) _ => .error (.variableInConstant n)
    | s => .error (refusal (fun _ => .unexpected (some (.punctuator .dollar))) s)
  else do
    let ⟨n, rest, h⟩ ← name s
    return ⟨.variable n, rest, h⟩

def value (constant : Bool) : (s : TokenStream) → Except Fault (Parsed Value s.length)
  | .next (.int x) rest => .ok ⟨.int x, rest, rest.length_lt_succ⟩
  | .next (.float x) rest => .ok ⟨.float x, rest, rest.length_lt_succ⟩
  | .next (.string x) rest => .ok ⟨.string x false, rest, rest.length_lt_succ⟩
  | .next (.blockString x) rest => .ok ⟨.string x true, rest, rest.length_lt_succ⟩
  | .next (.name n) rest => .ok ⟨namedValue n, rest, rest.length_lt_succ⟩
  | .next (.punctuator .dollar) s => do
    let ⟨v, rest, h⟩ ← variableReference constant s
    return ⟨v, rest, by simp only [TokenStream.length_next]; omega⟩
  | .next (.punctuator .bracketOpen) s => do
    let ⟨vs, rest, h⟩ ← anyUntil .bracketClose s fun t _ => value constant t
    return ⟨.list vs, rest, by simp only [TokenStream.length_next]; omega⟩
  | .next (.punctuator .braceOpen) s => do
    let ⟨fields, rest, h⟩ ← anyUntil .braceClose s fun t _ =>
      labelled t fun u _ => value constant u
    return ⟨.object fields, rest, by simp only [TokenStream.length_next]; omega⟩
  | s => .error (refusal .unexpected s)
termination_by s => s.length
decreasing_by all_goals simp; omega

def argument (constant : Bool) (s : TokenStream) : Except Fault (Parsed Argument s.length) := do
  let ⟨(n, v), rest, h⟩ ← labelled s fun t _ => value constant t
  return ⟨⟨n, v⟩, rest, h⟩

def arguments (constant : Bool) (s : TokenStream) :
    Except Fault (Parsed (List Argument) (s.length + 1)) :=
  optionalItems .parenOpen .parenClose s fun t _ => argument constant t

def directives (constant : Bool) (s : TokenStream) :
    Except Fault (Parsed (List Directive) (s.length + 1)) :=
  match accept .atSign s with
  | none => .ok ⟨[], s, s.length_lt_succ⟩
  | some ⟨_, s₁, h₁⟩ => do
    let ⟨n, s₂, h₂⟩ ← name s₁
    let ⟨args, s₃, h₃⟩ ← arguments constant s₂
    let ⟨ds, s₄, h₄⟩ ← directives constant s₃
    return ⟨⟨n, args⟩ :: ds, s₄, by omega⟩
termination_by s.length

def withBang (type : TypeRef) (s : TokenStream) : Parsed TypeRef (s.length + 1) :=
  match accept .bang s with
  | some ⟨_, rest, _⟩ => ⟨.nonNull type, rest, by omega⟩
  | none => ⟨type, s, s.length_lt_succ⟩

def typeRef (s : TokenStream) : Except Fault (Parsed TypeRef s.length) :=
  match accept .bracketOpen s with
  | some ⟨_, s₁, h₁⟩ => do
    let ⟨element, s₂, h₂⟩ ← typeRef s₁
    let ⟨_, s₃, h₃⟩ ← expect .bracketClose s₂
    let ⟨type, s₄, h₄⟩ := withBang (.list element) s₃
    have h₂ := TokenStream.length_lt_trans h₂ h₁
    have h₃ := TokenStream.length_lt_trans h₃ h₂
    return ⟨type, s₄, TokenStream.length_lt_of_lt_succ h₄ h₃⟩
  | none => do
    let ⟨n, s₁, h₁⟩ ← name s
    let ⟨type, s₂, h₂⟩ := withBang (.named n) s₁
    return ⟨type, s₂, TokenStream.length_lt_of_lt_succ h₂ h₁⟩
termination_by s.length

/-- A string in front of a definition describes it. -/
def description : (s : TokenStream) → Parsed (Option Description) (s.length + 1)
  | .next (.string x) rest => ⟨some ⟨x, false⟩, rest, TokenStream.length_lt_next _ _⟩
  | .next (.blockString x) rest => ⟨some ⟨x, true⟩, rest, TokenStream.length_lt_next _ _⟩
  | s => ⟨none, s, s.length_lt_succ⟩

def defaultValue (s : TokenStream) : Except Fault (Parsed (Option Value) (s.length + 1)) :=
  match accept .equals s with
  | none => .ok ⟨none, s, s.length_lt_succ⟩
  | some ⟨_, s₁, h₁⟩ => do
    let ⟨v, s₂, h₂⟩ ← value true s₁
    have h := TokenStream.length_lt_trans h₂ h₁
    return ⟨some v, s₂, TokenStream.length_lt_succ_of_lt h⟩

def variableDefinition (s : TokenStream) :
    Except Fault (Parsed VariableDefinition s.length) := do
  let ⟨text, s₁, h₁⟩ := description s
  let ⟨_, s₂, h₂⟩ ← expect .dollar s₁
  let ⟨n, s₃, h₃⟩ ← name s₂
  let ⟨_, s₄, h₄⟩ ← expect .colon s₃
  let ⟨type, s₅, h₅⟩ ← typeRef s₄
  let ⟨default, s₆, h₆⟩ ← defaultValue s₅
  let ⟨ds, s₇, h₇⟩ ← directives true s₆
  return ⟨⟨text, n, type, default, ds⟩, s₇, by omega⟩

/-- What is selected under: a name, or an alias and a name. -/
def fieldName (s : TokenStream) : Except Fault (Parsed (Option String × String) s.length) := do
  let ⟨first, s₁, h₁⟩ ← name s
  match accept .colon s₁ with
  | none => return ⟨(none, first), s₁, h₁⟩
  | some ⟨_, s₂, h₂⟩ =>
    let ⟨second, s₃, h₃⟩ ← name s₂
    have h := TokenStream.length_lt_trans h₃ h₂
    return ⟨(some first, second), s₃, TokenStream.length_lt_trans h h₁⟩

def typeCondition : (s : TokenStream) → Except Fault (Parsed (Option String) (s.length + 1))
  | .next (.name "on") s => do
    let ⟨n, rest, h⟩ ← name s
    return ⟨some n, rest, by simp only [TokenStream.length_next]; omega⟩
  | s => .ok ⟨none, s, s.length_lt_succ⟩

/-- The name of a fragment spread: any but the one that begins a type condition. -/
def spreadName? : (s : TokenStream) → Option (Parsed String s.length)
  | .next (.name n) rest => if n = "on" then none else some ⟨n, rest, rest.length_lt_succ⟩
  | _ => none

def selection (s : TokenStream) : Except Fault (Parsed Selection s.length) :=
  match accept .spread s with
  | some ⟨_, s₁, h₁⟩ =>
    match spreadName? s₁ with
    | some ⟨n, s₂, h₂⟩ => do
      let ⟨ds, s₃, h₃⟩ ← directives false s₂
      return ⟨.spread n ds, s₃, by omega⟩
    | none => do
      let ⟨type, s₂, h₂⟩ ← typeCondition s₁
      let ⟨ds, s₃, h₃⟩ ← directives false s₂
      let ⟨_, s₄, h₄⟩ ← expect .braceOpen s₃
      let ⟨selections, s₅, h₅⟩ ← itemsUntil .braceClose s₄ fun t _ => selection t
      return ⟨.inline type ds selections, s₅, by omega⟩
  | none => do
    let ⟨(aliasName, n), s₁, h₁⟩ ← fieldName s
    let ⟨args, s₂, h₂⟩ ← arguments false s₁
    let ⟨ds, s₃, h₃⟩ ← directives false s₂
    match accept .braceOpen s₃ with
    | none => return ⟨.field aliasName n args ds none, s₃, by omega⟩
    | some ⟨_, s₄, h₄⟩ =>
      let ⟨selections, s₅, h₅⟩ ← itemsUntil .braceClose s₄ fun t _ => selection t
      return ⟨.field aliasName n args ds (some selections), s₅, by omega⟩
termination_by s.length

def selectionSet (s : TokenStream) : Except Fault (Parsed (List Selection) s.length) := do
  let ⟨_, s₁, h₁⟩ ← expect .braceOpen s
  let ⟨selections, s₂, h₂⟩ ← itemsUntil .braceClose s₁ fun t _ => selection t
  return ⟨selections, s₂, TokenStream.length_lt_trans h₂ h₁⟩

def operationName : (s : TokenStream) → Parsed (Option String) (s.length + 1)
  | .next (.name n) rest => ⟨some n, rest, TokenStream.length_lt_next _ _⟩
  | s => ⟨none, s, s.length_lt_succ⟩

/-- An operation, from what follows its keyword. -/
def operation (text : Option Description) (kind : OperationKind) (s : TokenStream) :
    Except Fault (Parsed Definition s.length) := do
  let ⟨n, s₁, h₁⟩ := operationName s
  let ⟨definitions, s₂, h₂⟩ ←
    optionalItems .parenOpen .parenClose s₁ fun t _ => variableDefinition t
  let ⟨ds, s₃, h₃⟩ ← directives false s₂
  let ⟨selections, s₄, h₄⟩ ← selectionSet s₃
  return ⟨.operation ⟨text, kind, n, definitions, ds, selections⟩, s₄, by omega⟩

def firstValue? : TokenStream → Option String
  | .next t _ => t.value?
  | _ => none

/-- The name of a fragment definition: no token whose value is the word before the type. -/
def fragmentName (s : TokenStream) : Except Fault (Parsed String s.length) :=
  if firstValue? s = some "on" then .error (refusal .unexpected s) else name s

/-- A fragment, from what follows its keyword. -/
def fragment (text : Option Description) (s : TokenStream) :
    Except Fault (Parsed Definition s.length) := do
  let ⟨n, s₁, h₁⟩ ← fragmentName s
  let ⟨_, s₂, h₂⟩ ← keyword "on" s₁
  let ⟨type, s₃, h₃⟩ ← name s₂
  let ⟨ds, s₄, h₄⟩ ← directives false s₃
  let ⟨selections, s₅, h₅⟩ ← selectionSet s₄
  return ⟨.fragment ⟨text, n, type, ds, selections⟩, s₅, by omega⟩

/-- A definition that begins with a name, after its description if it has one. -/
def namedDefinition (text : Option Description) (s : TokenStream) :
    Except Fault (Parsed Definition s.length) :=
  match s with
  | .next (.name n) s₁ =>
    match OperationKind.ofKeyword? n with
    | some kind => do
      let ⟨d, rest, h⟩ ← operation text kind s₁
      return ⟨d, rest, by simp only [TokenStream.length_next]; omega⟩
    | none =>
      if n = "fragment" then do
        let ⟨d, rest, h⟩ ← fragment text s₁
        return ⟨d, rest, by simp only [TokenStream.length_next]; omega⟩
      else if text.isSome then .error .strayDescription
      else .error (.unexpected (some (.name n)))
  | s => .error (refusal .unexpected s)

def definition (s : TokenStream) : Except Fault (Parsed Definition s.length) :=
  match accept .braceOpen s with
  | some _ => do
    let ⟨selections, rest, h⟩ ← selectionSet s
    return ⟨.operation ⟨none, .query, none, [], [], selections⟩, rest, h⟩
  | none =>
    let ⟨text, s₁, h₁⟩ := description s
    if text.isSome ∧ (accept .braceOpen s₁).isSome then .error .shorthandDescription
    else do
      let ⟨d, rest, h⟩ ← namedDefinition text s₁
      return ⟨d, rest, TokenStream.length_lt_of_lt_of_lt_succ h h₁⟩

def definitions (s : TokenStream) : Except Fault (List Definition) := do
  let ⟨d, s₁, _⟩ ← definition s
  match s₁ with
  | .done => return [d]
  | _ => return d :: (← definitions s₁)
termination_by s.length
decreasing_by omega

end GraphQuery.Document.Parser

namespace GraphQuery.Document

def parse (text : String) : Except Fault Document :=
  (Parser.definitions (lex text.toList)).map Document.mk

/-- Why a value is not the text of a document. -/
inductive Rejection where
  | notText (d : Datum)
  | fault (f : Fault)

/-- What is to be checked may turn out not to be text at all. -/
def check : Datum → Except Rejection Document
  | .string s => (parse s).mapError .fault
  | d => .error (.notText d)

/-- The text of an atom in interchange notation. -/
def atomText : Datum → String
  | .boolean b => toString b
  | .number n => if n.isFinite then n.text else "null"
  | _ => "null"

def notTextMessage (d : Datum) : String := "Body must be a string. Received: " ++ atomText d ++ "."

/-- The message of a required document that is not one, with the name of who requires it. -/
def requiredMessage (context : String) (f : Fault) : String :=
  let place := if context.isEmpty then "" else " (" ++ context ++ ")"
  "GraphQL syntax error" ++ place ++ ": " ++ f.message

end GraphQuery.Document
