/-! Executable query documents: operations and fragments, their selections, and the values, types
and directives in them. -/
namespace GraphQuery.Document

inductive Value where
  | variable (name : String)
  /-- A number without fraction and exponent, as it is written. -/
  | int (text : String)
  | float (text : String)
  | string (value : String) (block : Bool)
  | boolean (value : Bool)
  | null
  | enumeration (name : String)
  | list (values : List Value)
  | object (fields : List (String × Value))
  deriving Repr

inductive TypeRef where
  | named (name : String)
  | list (element : TypeRef)
  | nonNull (type : TypeRef)
  deriving DecidableEq, Repr

structure Argument where
  name : String
  value : Value
  deriving Repr

structure Directive where
  name : String
  arguments : List Argument
  deriving Repr

/-- The text that documents a definition. -/
structure Description where
  value : String
  block : Bool
  deriving DecidableEq, Repr

structure VariableDefinition where
  description : Option Description
  name : String
  type : TypeRef
  defaultValue : Option Value
  directives : List Directive
  deriving Repr

inductive Selection where
  /-- A field, selected under its alias if it has one. -/
  | field (aliasName : Option String) (name : String) (arguments : List Argument)
      (directives : List Directive) (selections : Option (List Selection))
  | spread (fragment : String) (directives : List Directive)
  | inline (typeCondition : Option String) (directives : List Directive)
      (selections : List Selection)
  deriving Repr

inductive OperationKind where
  | query | mutation | subscription
  deriving DecidableEq, Repr

def OperationKind.keyword : OperationKind → String
  | .query => "query"
  | .mutation => "mutation"
  | .subscription => "subscription"

def OperationKind.ofKeyword? : String → Option OperationKind
  | "query" => some .query
  | "mutation" => some .mutation
  | "subscription" => some .subscription
  | _ => none

@[simp] theorem OperationKind.ofKeyword?_keyword (k : OperationKind) :
    ofKeyword? k.keyword = some k := by cases k <;> rfl

structure Operation where
  description : Option Description
  kind : OperationKind
  name : Option String
  variableDefinitions : List VariableDefinition
  directives : List Directive
  selections : List Selection
  deriving Repr

structure Fragment where
  description : Option Description
  name : String
  typeCondition : String
  directives : List Directive
  selections : List Selection
  deriving Repr

inductive Definition where
  | operation (o : Operation)
  | fragment (f : Fragment)
  deriving Repr

end GraphQuery.Document

namespace GraphQuery

/-- A document is its definitions, in order. -/
structure Document where
  definitions : List Document.Definition
  deriving Repr

end GraphQuery
