import GraphQuery.Graph.Form
import GraphQuery.Graph.Node

/-! Graphs and their record form: each graph has one, and a record is read back as the graph it
describes. Entries that a graph has no place for are passed over, and one that ought to be text
counts as the text of what it holds. -/
namespace GraphQuery.Graph

def Identifier.toDatum : Identifier → Datum
  | .token s => Form.token (.string s)
  | .string s => Form.string (.string s)
  | .number n => Form.number (.number n)
  | .aliased name a => Form.aliased (.string name) (.string a)

mutual

def Value.toDatum : Value → Datum
  | .token s => Form.token (.string s)
  | .variable name => Form.reference (.string name)
  | .object fields => Form.object (argumentData fields)
  | .string s => Form.string (.string s)
  | .number n => Form.number (.number n)
  | .graph node => Form.graph node.toDatum

def Argument.toDatum : Argument → Datum
  | ⟨name, value⟩ => Form.field name value.toDatum

def argumentData : List Argument → List Datum
  | [] => []
  | a :: rest => a.toDatum :: argumentData rest

def defaultDatum : Option Value → Option Datum
  | none => none
  | some v => some v.toDatum

def Parameter.toDatum : Parameter → Datum
  | ⟨name, type, required, defaultValue⟩ =>
    Form.parameter name type required (defaultDatum defaultValue)

def parameterData : List Parameter → List Datum
  | [] => []
  | p :: rest => p.toDatum :: parameterData rest

def argumentListDatum : Option (List Argument) → Option (List Datum)
  | none => none
  | some args => some (argumentData args)

def parameterListDatum : Option (List Parameter) → Option (List Datum)
  | none => none
  | some ps => some (parameterData ps)

def Node.toDatum : Node → Datum
  | ⟨identifier, name, args, ps, children⟩ =>
    Form.node identifier.toDatum
      (Form.metadata name (argumentListDatum args) (parameterListDatum ps)) (nodeData children)

def nodeData : List Node → List Datum
  | [] => []
  | n :: rest => n.toDatum :: nodeData rest

end

/-- The kind that a record names. -/
def kindOf (d : Datum) : String := ((d.get "kind").string?).getD ""

/-- The entry of a head that is written. -/
def headEntry (d : Datum) : Datum :=
  match kindOf d with
  | "token" => d.get "text"
  | "string" | "number" => d.get "value"
  | "alias" => d.get "name"
  | _ => .absent

/-- Whether a head is written as text of its own, as any number is. -/
def headIsText (d : Datum) : Bool := kindOf d == "number" || (headEntry d).isString

/-- Whether a head has nothing that could be written. -/
def headIsNothing (d : Datum) : Bool := kindOf d != "number" && (headEntry d).isNothing

def identifierOf? (d : Datum) : Option Identifier :=
  match kindOf d with
  | "string" => (headEntry d).asText?.map .string
  | "alias" =>
    (headEntry d).asText?.map fun n => .aliased n (((d.get "alias").string?).getD "")
  | "number" =>
    match headEntry d with
    | .number n => some (.number n)
    | v => v.written?.map .token
  | _ => if d.isNothing then none else (headEntry d).asText?.map .token

/-- An entry of a node's metadata; one with a false value counts as absent. -/
def metadataEntry? (key : String) (d : Datum) : Option Datum :=
  ((d.get "metadata").get? key).filter (!·.isFalsy)

/-- The operation name of a node, which may be empty. -/
def nameOf? (d : Datum) : Option (Option String) :=
  match (d.get "metadata").get "name" with
  | .absent => some none
  | v => v.asText?.map some

/-- A node as it is written among others: nothing stands for a head without text and nothing
else. -/
def amongOthers (d : Datum) (n : Node) : Node :=
  if headIsNothing (d.get "object") && n.isBare then .plain (.token "") [] else n

theorem sizeOf_metadataEntry_lt {d v : Datum} {key : String} (h : metadataEntry? key d = some v) :
    sizeOf v < sizeOf d := by
  obtain ⟨hv, _⟩ := Option.filter_eq_some_iff.1 h
  cases hm : d.get? "metadata" with
  | none =>
    rw [Datum.get, hm, Option.getD_none] at hv
    cases hv
  | some m =>
    simp only [Datum.get, hm, Option.getD_some] at hv
    have := Datum.sizeOf_get?_lt hv
    have := Datum.sizeOf_get?_lt hm
    omega

mutual

def valueOf? (d : Datum) : Option Value :=
  match kindOf d with
  | "token" => (d.get "text").asText?.map .token
  | "variable" => (d.get "name").asText?.map .variable
  | "string" => (d.get "value").asText?.map .string
  | "number" =>
    match d.get "value" with
    | .number n => some (.number n)
    | v => v.written?.map .token
  | "object" =>
    match _h : d.get? "fields" with
    | some (.list fields) => (argumentsOf? fields).map .object
    | _ => none
  | "subquery" =>
    match _h : d.get? "graph" with
    | some node => (nodeOf? node).map .graph
    | none => none
  | _ => if d.isNothing then none else Datum.absent.asText?.map .token
termination_by sizeOf d
decreasing_by
  all_goals
    have := Datum.sizeOf_get?_lt _h
    simp at this ⊢
    omega

def argumentOf? (d : Datum) : Option Argument :=
  match (d.get "name").asText?, _h : d.get? "value" with
  | some name, some v => (valueOf? v).map fun v => ⟨name, v⟩
  | _, _ => none
termination_by sizeOf d
decreasing_by exact Datum.sizeOf_get?_lt _h

def argumentsOf? : List Datum → Option (List Argument)
  | [] => some []
  | d :: rest => do
    let a ← argumentOf? d
    let args ← argumentsOf? rest
    return a :: args
termination_by ds => sizeOf ds

def parameterOf? (d : Datum) : Option Parameter :=
  if d.isNothing then none
  else match (d.get "name").asText?, (d.get "type").asText? with
  | some name, some type =>
    let required := !(d.get "required").isFalsy
    match _h : d.get? "defaultValue" with
    | none => some ⟨name, type, required, none⟩
    | some .absent => some ⟨name, type, required, none⟩
    | some v => (valueOf? v).map fun v => ⟨name, type, required, some v⟩
  | _, _ => none
termination_by sizeOf d
decreasing_by exact Datum.sizeOf_get?_lt _h

def parametersOf? : List Datum → Option (List Parameter)
  | [] => some []
  | d :: rest => do
    let p ← parameterOf? d
    let ps ← parametersOf? rest
    return p :: ps
termination_by ds => sizeOf ds

/-- A node, if it has metadata and a sequence of children, and all of it can be read. -/
def nodeOf? (d : Datum) : Option Node :=
  if (d.get "metadata").isNothing then none
  else match identifierOf? (d.get "object"), nameOf? d with
  | some identifier, some name => do
    let args ← match _h : metadataEntry? "arguments" d with
      | none => some none
      | some (.list args) => (argumentsOf? args).map some
      | some _ => none
    let ps ← match _h : metadataEntry? "parameters" d with
      | none => some none
      | some (.list ps) => (parametersOf? ps).map some
      | some _ => none
    match _h : d.get? "fields" with
    | some (.list fields) =>
      (nodesOf? fields).map fun children => ⟨identifier, name, args, ps, children⟩
    | some v => if v.isEmptySequence then some ⟨identifier, name, args, ps, []⟩ else none
    | none => none
  | _, _ => none
termination_by sizeOf d
decreasing_by
  · have := Datum.sizeOf_get?_lt _h
    simp at this; omega
  · have := sizeOf_metadataEntry_lt _h
    simp at this; omega
  · have := sizeOf_metadataEntry_lt _h
    simp at this; omega

def nodesOf? : List Datum → Option (List Node)
  | [] => some []
  | d :: rest => do
    let n ← nodeOf? d
    let nodes ← nodesOf? rest
    return amongOthers d n :: nodes
termination_by ds => sizeOf ds

end

mutual

/-- The outline of a graph: heads and children alone, whatever else the record holds. -/
def outlineOf? (d : Datum) : Option Node :=
  if !headIsText (d.get "object") then none
  else match identifierOf? (d.get "object") with
  | none => none
  | some identifier =>
    match _h : d.get? "fields" with
    | some (.list fields) => (outlinesOf? fields).map (.plain identifier)
    | some (.string s) => if s.isEmpty then some (.plain identifier []) else none
    | _ => none
termination_by sizeOf d
decreasing_by
  have := Datum.sizeOf_get?_lt _h
  simp at this; omega

def outlinesOf? : List Datum → Option (List Node)
  | [] => some []
  | d :: rest => do
    let n ← outlineOf? d
    let nodes ← outlinesOf? rest
    return n :: nodes
termination_by ds => sizeOf ds

end

end GraphQuery.Graph
