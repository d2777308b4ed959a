import GraphQuery.Datum

/-! The record form of graphs: how parsed nodes and values are written as untyped records that
name their kind, and how such records are recognised. -/
namespace GraphQuery.Form

def ofKind (kind : String) (entries : List (String × Datum)) : Datum :=
  .record (("kind", .string kind) :: entries)

def token (text : Datum) : Datum := ofKind "token" [("text", text)]

def reference (name : Datum) : Datum := ofKind "variable" [("name", name)]

def string (value : Datum) : Datum := ofKind "string" [("value", value)]

def number (value : Datum) : Datum := ofKind "number" [("value", value)]

def object (fields : List Datum) : Datum := ofKind "object" [("fields", .list fields)]

def graph (node : Datum) : Datum := ofKind "subquery" [("graph", node)]

def aliased (name aliasName : Datum) : Datum :=
  ofKind "alias" [("name", name), ("alias", aliasName)]

/-- An argument, or a field of an input object. -/
def field (name : String) (value : Datum) : Datum :=
  .record [("name", .string name), ("value", value)]

def parameter (name type : String) (required : Bool) (defaultValue : Option Datum) : Datum :=
  .record ([("name", .string name), ("type", .string type), ("required", .boolean required)] ++
    (defaultValue.map (("defaultValue", ·))).toList)

def metadata (name : Option String) (arguments parameters : Option (List Datum)) : Datum :=
  .record ((name.map fun s => ("name", .string s)).toList ++
    (arguments.map fun xs => ("arguments", .list xs)).toList ++
    (parameters.map fun xs => ("parameters", .list xs)).toList)

def node (object metadata : Datum) (fields : List Datum) : Datum :=
  ofKind "node" [("object", object), ("metadata", metadata), ("fields", .list fields)]

/-- Whether a value is a record of the kind. -/
def hasKind (kind : String) (d : Datum) : Bool := (d.get "kind").string? == some kind

@[simp] theorem get_kind_ofKind (kind : String) (entries : List (String × Datum)) :
    (ofKind kind entries).get "kind" = .string kind := rfl

@[simp] theorem hasKind_ofKind (kind kind' : String) (entries : List (String × Datum)) :
    hasKind kind (ofKind kind' entries) = (kind' == kind) := by
  simp [hasKind, Datum.string?]

def isNode (d : Datum) : Bool := hasKind "node" d && (d.get "fields").isList

@[simp] theorem isNode_node (object metadata : Datum) (fields : List Datum) :
    isNode (node object metadata fields) = true := rfl

def isToken (d : Datum) : Bool := hasKind "token" d && (d.get "text").isString

@[simp] theorem isToken_token (text : Datum) : isToken (token text) = text.isString := rfl

def isAlias (d : Datum) : Bool :=
  hasKind "alias" d && (d.get "name").isString && (d.get "alias").isString

@[simp] theorem isAlias_aliased (name aliasName : Datum) :
    isAlias (aliased name aliasName) = (name.isString && aliasName.isString) := rfl

/-- Whether a value is an argument value in record form, as far as its own entries show. -/
def isValue (d : Datum) : Bool :=
  match (d.get "kind").string? with
  | some "token" => (d.get "text").isString
  | some "variable" => (d.get "name").isString
  | some "object" => (d.get "fields").isList
  | some "string" => (d.get "value").isString
  | some "number" => (d.get "value").isNumber
  | some "subquery" => isNode (d.get "graph")
  | _ => false

@[simp] theorem isValue_token (text : Datum) : isValue (token text) = text.isString := rfl

@[simp] theorem isValue_reference (name : Datum) : isValue (reference name) = name.isString := rfl

@[simp] theorem isValue_string (value : Datum) : isValue (string value) = value.isString := rfl

@[simp] theorem isValue_number (value : Datum) : isValue (number value) = value.isNumber := rfl

@[simp] theorem isValue_object (fields : List Datum) : isValue (object fields) = true := rfl

@[simp] theorem isValue_graph (node : Datum) : isValue (graph node) = isNode node := rfl

def isMetaTag : Datum → Bool
  | .mark (.tag _) => true
  | _ => false

end GraphQuery.Form
