import GraphQuery.Graph.Text
import GraphQuery.Text.Lowercase

/-! Limits on graphs: how deep they may be, how many fields they may have, and which fields they
may not have. Only heads and children count, and not what metadata holds. -/
namespace GraphQuery

structure Limits where
  maxDepth : Nat := 10
  maxFields : Nat := 100
  /-- The names of fields to be refused, in any letter case; the check wants them to be texts. -/
  blocked : List Datum := []
  deriving Repr

inductive LimitOption where
  | maxDepth | maxFields | blockedFields
  deriving DecidableEq, Repr

def LimitOption.key : LimitOption → String
  | .maxDepth => "maxDepth"
  | .maxFields => "maxFields"
  | .blockedFields => "blockedFields"

def LimitOption.message : LimitOption → String
  | .maxDepth => "maxDepth must be a positive integer"
  | .maxFields => "maxFields must be a positive integer"
  | .blockedFields => "blockedFields must be an array"

namespace Limits

/-- A bound given as an option, or the one that holds without it. -/
def bound (option : LimitOption) (default : Nat) : Datum → Except LimitOption Nat
  | .absent => .ok default
  | .number n =>
    match n.toNat? with
    | some (k + 1) => .ok (k + 1)
    | _ => .error option
  | _ => .error option

def blockedList : Datum → Except LimitOption (List Datum)
  | .absent => .ok []
  | .list names => .ok names
  | _ => .error .blockedFields

/-- Limits from options; the failure is the first option without a proper value. -/
def ofOptions (options : Datum) : Except LimitOption Limits := do
  let maxDepth ← bound .maxDepth 10 (options.get "maxDepth")
  let maxFields ← bound .maxFields 100 (options.get "maxFields")
  let blocked ← blockedList (options.get "blockedFields")
  return ⟨maxDepth, maxFields, blocked⟩

def toDatum (l : Limits) : Datum :=
  .record [("maxDepth", .number (.ofNat l.maxDepth)), ("maxFields", .number (.ofNat l.maxFields)),
    ("blockedFields", .list l.blocked)]

end Limits

namespace Graph

mutual

def Node.height : Node → Nat
  | ⟨_, _, _, _, children⟩ => height children + 1

def height : List Node → Nat
  | [] => 0
  | n :: rest => max n.height (height rest)

end

mutual

def Node.size : Node → Nat
  | ⟨_, _, _, _, children⟩ => size children + 1

def size : List Node → Nat
  | [] => 0
  | n :: rest => n.size + size rest

end

mutual

/-- The written names of a node and of all below it, each node before its children. -/
def Node.fieldNames : Node → List String
  | ⟨identifier, _, _, _, children⟩ => identifier.text :: fieldNames children

def fieldNames : List Node → List String
  | [] => []
  | n :: rest => n.fieldNames ++ fieldNames rest

end

end Graph

inductive Violation where
  | malformed (m : Surface.Malformed)
  | depth (found allowed : Nat)
  | fields (found allowed : Nat)
  | blocked (names : List String)
  deriving Repr

def Violation.message : Violation → String
  | .malformed m => m.message
  | .depth found allowed =>
    "Graph depth " ++ toString found ++ " exceeds maximum of " ++ toString allowed
  | .fields found allowed =>
    "Graph has " ++ toString found ++ " fields, exceeding maximum of " ++ toString allowed
  | .blocked names => "Graph contains blocked fields: " ++ ", ".intercalate names

namespace Limits

/-- The names to be refused, in lower case, as far as they are texts. -/
def blockedNames (l : Limits) : List String :=
  (l.blocked.filterMap Datum.string?).map Text.lowercase

def isBlocked (l : Limits) (name : String) : Bool := Text.lowercase name ∈ l.blockedNames

/-- What a graph violates: depth, then number of fields, then blocked fields. -/
def violations (l : Limits) (n : Graph.Node) : List Violation :=
  let blocked := n.fieldNames.filter l.isBlocked
  (if l.maxDepth < n.height then [.depth n.height l.maxDepth] else []) ++
    (if l.maxFields < n.size then [.fields n.size l.maxFields] else []) ++
    (if blocked.isEmpty then [] else [.blocked blocked])

/-- Checks a value against limits. One that stands for no graph violates them by that. -/
def check (l : Limits) (graph : Datum) : Except Graph.NotGraph (List Violation) :=
  match Graph.Node.outlineOfDatum graph with
  | .ok n => .ok (l.violations n)
  | .error (.malformed m) => .ok [.malformed m]
  | .error f => .error f

end Limits

/-- Why there is no check: an option without a proper value, a name to be refused that is no text,
or a value that only pretends to be a graph in record form. -/
inductive LimitFault where
  | option (o : LimitOption)
  | blockedName (d : Datum)
  | graph (f : Graph.NotGraph)
  deriving Repr

/-- Checks a graph against the limits that options give. The options come first, and then the
names to be refused, which have to be texts. -/
def checkLimits (graph options : Datum) : Except LimitFault (List Violation) := do
  let l ← (Limits.ofOptions options).mapError .option
  match l.blocked.find? (!·.isString) with
  | some d => throw (.blockedName d)
  | none => (l.check graph).mapError .graph

def violationsMessage (vs : List Violation) : String :=
  "Graph validation failed: " ++ "; ".intercalate (vs.map Violation.message)

end GraphQuery
