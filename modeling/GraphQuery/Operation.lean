import GraphQuery.Graph.Text

/-! Operations: a graph under the keyword of a query or a mutation, with a header of a name and
parameters or none. -/
namespace GraphQuery

inductive Operation where
  | query | mutation
  deriving DecidableEq, Repr

def Operation.keyword : Operation → String
  | .query => "query"
  | .mutation => "mutation"

inductive OperationFault where
  /-- The first of two arguments is no header. -/
  | header (o : Operation)
  | argumentCount (o : Operation) (count : Nat)
  | graph (f : Graph.NotGraph)
  deriving Repr

def OperationFault.headerMessage (o : Operation) : String :=
  o.keyword ++ " header must be [name] or [name, parameters]"

def OperationFault.argumentCountMessage (o : Operation) (count : Nat) : String :=
  o.keyword ++ " expects (graph), ([name], graph) or ([name, parameters], graph); got " ++
    toString count ++ " arguments"

namespace Operation

/-- The metadata that a header gives to an operation. -/
def readHeader (o : Operation) : Datum → Except OperationFault Datum
  | .list [.string name] => .ok (Form.metadata (some name) none none)
  | .list [.string name, .list parameters] => do
    let ps ← (Surface.readParameters parameters).mapError (.graph ∘ .malformed)
    return Form.metadata (some name) none (some ps)
  | _ => .error (.header o)

/-- The operation on a graph, in record form; its header is read first. -/
def record (o : Operation) (metadata graph : Datum) : Except OperationFault Datum := do
  let child ← (Surface.readGraph graph).mapError (.graph ∘ .malformed)
  return Form.node (Form.token (.string o.keyword)) metadata [child]

def ofArguments (o : Operation) : List Datum → Except OperationFault Datum
  | [graph] => o.record (Form.metadata none none none) graph
  | [header, graph] => do
    let metadata ← o.readHeader header
    o.record metadata graph
  | args => .error (.argumentCount o args.length)

def textOf (o : Operation) (args : List Datum) : Except OperationFault String := do
  let d ← o.ofArguments args
  let n ← (Graph.Node.ofRecord d).mapError .graph
  return n.text

end Operation
end GraphQuery
