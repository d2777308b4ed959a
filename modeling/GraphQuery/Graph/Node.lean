import GraphQuery.Number.Text

/-! Parsed graphs: nodes with metadata and children, and the values of their arguments and
parameters. A value may be a whole graph. -/
namespace GraphQuery.Graph

/-- The head of a node. An alias is kept beside the name and is not written. -/
inductive Identifier where
  | token (text : String)
  | string (value : String)
  | number (value : Number)
  | aliased (name aliasName : String)
  deriving DecidableEq, Repr

/-- How an identifier is written; a string stands without quotes. -/
def Identifier.text : Identifier → String
  | .token s => s
  | .string s => s
  | .number n => n.text
  | .aliased name _ => name

mutual

inductive Value where
  /-- Written as it is: an enumeration value, or a word like `true`. -/
  | token (text : String)
  | variable (name : String)
  | object (fields : List Argument)
  | string (value : String)
  | number (value : Number)
  | graph (node : Node)

structure Argument where
  name : String
  value : Value

structure Parameter where
  name : String
  type : String
  required : Bool
  defaultValue : Option Value

/-- A field with what is selected below it. Metadata that is absent is not written, unlike
metadata that is there and empty. -/
structure Node where
  identifier : Identifier
  name : Option String
  arguments : Option (List Argument)
  parameters : Option (List Parameter)
  children : List Node

end

def Node.plain (identifier : Identifier) (children : List Node) : Node :=
  ⟨identifier, none, none, none, children⟩

def Node.isBare (n : Node) : Bool :=
  n.name.isNone && n.arguments.isNone && n.parameters.isNone && n.children.isEmpty

end GraphQuery.Graph
