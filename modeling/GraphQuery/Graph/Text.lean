import GraphQuery.Graph.Record
import GraphQuery.Surface.Normal

/-! The text of a graph, without insignificant white space: a node is its head, then its quoted
name, arguments and parameters in parentheses, and children in braces, each only if present. A value
stands for a graph in surface form, which is brought to record form and read as a graph. -/
namespace GraphQuery.Graph

def parenthesised (parts : List String) : String := "(" ++ ",".intercalate parts ++ ")"

/-- An operation name, quoted as it is. -/
def nameText : Option String → String
  | none => ""
  | some name => " \"" ++ name ++ "\""

def childrenText : List String → String
  | [] => ""
  | parts => "\x7b" ++ " ".intercalate parts ++ "\x7d"

mutual

/-- A value as written. Strings are quoted without escapes. -/
def Value.text : Value → String
  | .token s => s
  | .variable name => "$" ++ name
  | .object fields => "\x7b" ++ ",".intercalate (argumentTexts fields) ++ "\x7d"
  | .string s => "\"" ++ s ++ "\""
  | .number n => n.text
  | .graph node => node.text

def Argument.text : Argument → String
  | ⟨name, value⟩ => name ++ ":" ++ value.text

def argumentTexts : List Argument → List String
  | [] => []
  | a :: rest => a.text :: argumentTexts rest

/-- A declaration: name and type, a mark if required, and the default if there is one. -/
def Parameter.text : Parameter → String
  | ⟨name, type, required, defaultValue⟩ =>
    "$" ++ name ++ ":" ++ type ++ (if required then "!" else "") ++ defaultText defaultValue

def defaultText : Option Value → String
  | none => ""
  | some v => "=" ++ v.text

def parameterTexts : List Parameter → List String
  | [] => []
  | p :: rest => p.text :: parameterTexts rest

def argumentsText : Option (List Argument) → String
  | none => ""
  | some args => parenthesised (argumentTexts args)

def parametersText : Option (List Parameter) → String
  | none => ""
  | some ps => parenthesised (parameterTexts ps)

def Node.text : Node → String
  | ⟨identifier, name, args, ps, children⟩ =>
    identifier.text ++ nameText name ++ argumentsText args ++ parametersText ps ++
      childrenText (nodeTexts children)

def nodeTexts : List Node → List String
  | [] => []
  | n :: rest => n.text :: nodeTexts rest

end

@[simp] theorem argumentTexts_eq_map (args : List Argument) :
    argumentTexts args = args.map Argument.text := by
  induction args with
  | nil => simp [argumentTexts]
  | cons a args ih => simp [argumentTexts, ih]

@[simp] theorem parameterTexts_eq_map (ps : List Parameter) :
    parameterTexts ps = ps.map Parameter.text := by
  induction ps with
  | nil => simp [parameterTexts]
  | cons p ps ih => simp [parameterTexts, ih]

@[simp] theorem nodeTexts_eq_map (nodes : List Node) : nodeTexts nodes = nodes.map Node.text := by
  induction nodes with
  | nil => simp [nodeTexts]
  | cons n nodes ih => simp [nodeTexts, ih]

/-! The graph that a value stands for. -/

/-- Why a value stands for no graph. -/
inductive NotGraph where
  | malformed (m : Surface.Malformed)
  /-- A value passed for one in record form that lacks what its kind has to have. -/
  | unreadable (d : Datum)
  deriving Repr

def Node.ofRecord (d : Datum) : Except NotGraph Node :=
  match nodeOf? d with
  | some n => .ok n
  | none => .error (.unreadable d)

/-- The graph that a value in any form stands for. -/
def Node.ofDatum (d : Datum) : Except NotGraph Node := do
  let record ← (Surface.readGraph d).mapError .malformed
  ofRecord record

def Node.outlineOfDatum (d : Datum) : Except NotGraph Node := do
  let record ← (Surface.readGraph d).mapError .malformed
  match outlineOf? record with
  | some n => return n
  | none => throw (.unreadable record)

/-- The text of the graph that a value stands for. -/
def textOf (d : Datum) : Except NotGraph String := (Node.ofDatum d).map Node.text

end GraphQuery.Graph
