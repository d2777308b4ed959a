import GraphQuery.Document.Parser
import GraphQuery.Limits
import GraphQuery.Operation

/-! Reports of failures: what a caller is shown of one, which is its kind, a message, a code, and
one detail whose meaning depends on the kind. -/
namespace GraphQuery

inductive ReportKind where
  | malformedGraph | malformedOperation | queryValidation | configuration
  deriving DecidableEq, Repr

namespace ReportKind

def name : ReportKind → String
  | .malformedGraph => "MalformedGraphError"
  | .malformedOperation => "MalformedOperationError"
  | .queryValidation => "QueryValidationError"
  | .configuration => "ConfigurationError"

def code : ReportKind → String
  | .malformedGraph => "MALFORMED_GRAPH"
  | .malformedOperation => "MALFORMED_OPERATION"
  | .queryValidation => "QUERY_VALIDATION_ERROR"
  | .configuration => "CONFIGURATION_ERROR"

def detailName : ReportKind → String
  | .malformedGraph => "value"
  | .malformedOperation => "operation"
  | .queryValidation => "errors"
  | .configuration => "configKey"

def defaultDetail : ReportKind → Datum
  | .queryValidation => .list []
  | _ => .absent

def all : List ReportKind := [malformedGraph, malformedOperation, queryValidation, configuration]

def ofName? (name : String) : Option ReportKind := all.find? (·.name == name)

theorem ofName?_name (k : ReportKind) : ofName? k.name = some k := by cases k <;> decide

end ReportKind

structure Report where
  kind : ReportKind
  message : String
  code : Datum
  detail : Datum
  deriving Repr

namespace Report

/-- A value, or another in place of none. -/
def orElse (d default : Datum) : Datum := if d.isAbsent then default else d

/-- A report made of a message, a detail and a code; each may be missing, and the message has to
have a text. -/
def ofArguments? (k : ReportKind) (args : List Datum) : Option Report := do
  let message ← (orElse (args.getD 0 .absent) (.string "")).asText?
  return {
    kind := k
    message := message
    detail := orElse (args.getD 1 .absent) k.defaultDetail
    code := orElse (args.getD 2 .absent) (.string k.code) }

def make (k : ReportKind) (message : String) (detail : Datum) : Report :=
  ⟨k, message, .string k.code, detail⟩

def ofMalformed (m : Surface.Malformed) : Report := make .malformedGraph m.message m.value

def ofOperation (o : Operation) (message : String) : Report :=
  make .malformedOperation message (.string o.keyword)

def ofLimitOption (o : LimitOption) : Report := make .configuration o.message (.string o.key)

def ofViolations (vs : List Violation) : Report :=
  make .queryValidation (violationsMessage vs) (.list (vs.map fun v => .string v.message))

def ofFault (context : String) (f : Document.Fault) : Report :=
  ⟨.queryValidation, Document.requiredMessage context f, .string "SYNTAX_ERROR",
    .list [.string f.message]⟩

end Report

/-- A value that only pretends to be in record form is not reported on. -/
def Graph.NotGraph.report? : Graph.NotGraph → Option Report
  | .malformed m => some (.ofMalformed m)
  | .unreadable _ => none

def OperationFault.report? : OperationFault → Option Report
  | .header o => some (.ofOperation o (headerMessage o))
  | .argumentCount o n => some (.ofOperation o (argumentCountMessage o n))
  | .graph f => f.report?

/-- A value that is not even text is not reported on. -/
def Document.Rejection.report? (context : String) : Document.Rejection → Option Report
  | .notText _ => none
  | .fault f => some (.ofFault context f)

/-- A name to be refused that is no text is not reported on. -/
def LimitFault.report? : LimitFault → Option Report
  | .option o => some (.ofLimitOption o)
  | .blockedName _ => none
  | .graph f => f.report?

end GraphQuery
