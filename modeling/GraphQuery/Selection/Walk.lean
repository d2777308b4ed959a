import GraphQuery.Document.Basic
import GraphQuery.Selection.Request
import GraphQuery.Selection.Schema

/-! The request that a document makes of its first field: fragments are written out, skipped
selections left out, and what is selected repeatedly is merged by type and response key. -/
namespace GraphQuery.Selection

open Document (Selection Directive Value Fragment)

abbrev Conditions := List (String × Bool)

/-- Whether a condition holds. A variable without a value does not. -/
def holds (conditions : Conditions) : Value → Bool
  | .boolean b => b
  | .variable name => (conditions.lookup name).getD false
  | _ => false

def leavesOut (conditions : Conditions) (d : Directive) : Bool :=
  match d.arguments.find? (·.name == "if") with
  | none => false
  | some a =>
    (d.name == "skip" && holds conditions a.value) ||
      (d.name == "include" && !holds conditions a.value)

def isSkipped (conditions : Conditions) (ds : List Directive) : Bool :=
  ds.any (leavesOut conditions)

def without (fragments : List Fragment) (name : String) : List Fragment :=
  fragments.filter (·.name != name)

theorem length_without_lt {fragments : List Fragment} {f : Fragment} {name : String}
    (h : fragments.find? (·.name == name) = some f) :
    (without fragments name).length < fragments.length := by
  have hm := List.mem_of_find?_eq_some h
  have hn := List.find?_some h
  refine Nat.lt_of_le_of_ne (List.length_filter_le _ _) fun he => ?_
  have := List.length_filter_eq_length_iff.1 he f hm
  simp_all

mutual

/-- A selection with its spreads written out as inline fragments. A fragment is not written out
within itself. -/
def writeOut (fragments : List Fragment) : Selection → Selection
  | .field a name args ds none => .field a name args ds none
  | .field a name args ds (some ss) => .field a name args ds (some (writeOutAll fragments ss))
  | .inline type ds ss => .inline type ds (writeOutAll fragments ss)
  | .spread name ds =>
    match _h : fragments.find? (·.name == name) with
    | some f =>
      .inline (some f.typeCondition) ds (writeOutAll (without fragments name) f.selections)
    | none => .inline none ds []
termination_by s => (fragments.length, sizeOf s)
decreasing_by
  · refine Prod.Lex.right _ ?_
    simp only [Selection.field.sizeOf_spec, Option.some.sizeOf_spec]
    omega
  · exact Prod.Lex.right _ (by simp only [Selection.inline.sizeOf_spec]; omega)
  · exact Prod.Lex.left _ _ (length_without_lt _h)

def writeOutAll (fragments : List Fragment) : List Selection → List Selection
  | [] => []
  | s :: rest => writeOut fragments s :: writeOutAll fragments rest
termination_by ss => (fragments.length, sizeOf ss)
decreasing_by
  · exact Prod.Lex.right _ (by simp only [List.cons.sizeOf_spec]; omega)
  · exact Prod.Lex.right _ (by simp only [List.cons.sizeOf_spec]; omega)

end

mutual

/-- The fields that a selection without spreads makes on the type it stands in, or on a type that
its fragments name. -/
def fieldsOf (conditions : Conditions) (type : String) : Selection → List Selection
  | .field a name args ds ss =>
    if isSkipped conditions ds then [] else [.field a name args ds ss]
  | .inline condition ds ss =>
    if isSkipped conditions ds || condition.any (· != type) then []
    else fieldsOfAll conditions type ss
  | .spread _ _ => []

def fieldsOfAll (conditions : Conditions) (type : String) : List Selection → List Selection
  | [] => []
  | s :: rest => fieldsOf conditions type s ++ fieldsOfAll conditions type rest

end

def responseKey : Selection → String
  | .field a name _ _ _ => a.getD name
  | _ => ""

def isAboutSchema (name : String) : Bool := name.startsWith "__"

def isData : Selection → Bool
  | .field _ name _ _ _ => !isAboutSchema name
  | _ => false

/-- The selections that make up the first field with a resolver of its own. -/
def firstField (fields : List Selection) : List Selection :=
  match fields.find? isData with
  | none => []
  | some f => fields.filter (responseKey · == responseKey f)

/-- Response keys that are taken before anything is requested. -/
def takenKeys : List String :=
  ["__proto__", "constructor", "hasOwnProperty", "isPrototypeOf", "propertyIsEnumerable",
    "toLocaleString", "toString", "valueOf", "__defineGetter__", "__defineSetter__",
    "__lookupGetter__", "__lookupSetter__"]

abbrev ByType := List (String × List (String × Request))

def alter {α : Type} (key : String) (f : Option α → α) : List (String × α) → List (String × α)
  | [] => [(key, f none)]
  | (k, a) :: rest => if k = key then (k, f (some a)) :: rest else (k, a) :: alter key f rest

def withType (type : String) (t : ByType) : ByType := alter type (·.getD []) t

def fieldsOfType (type : String) (t : ByType) : List (String × Request) :=
  (t.lookup type).getD []

def requestUnder (s : Schema) (t : ByType) (type key name valueType : String) : Request :=
  ((fieldsOfType type t).lookup key).getD
    ⟨name, key, if s.isComposite valueType then [(valueType, [])] else []⟩

def putRequest (t : ByType) (type key : String) (r : Request) : ByType :=
  alter type (fun fields => alter key (fun _ => r) (fields.getD [])) t

mutual

/-- Adds what a selection requests of a type. Fields that the type does not have, those about the
schema, and those under a taken key are passed over. -/
def walk (s : Schema) (conditions : Conditions) (type : String) (t : ByType) : Selection → ByType
  | .field a name _ ds ss =>
    if isSkipped conditions ds || isAboutSchema name then t
    else match s.fieldType? type name with
      | none => t
      | some valueType =>
        let key := a.getD name
        if key ∈ takenKeys then t
        else
          let r := requestUnder s t type key name valueType
          putRequest t type key ⟨r.name, r.key, walkBelow s conditions valueType r.byType ss⟩
  | .inline condition ds ss =>
    if isSkipped conditions ds then t
    else walkAll s conditions (condition.getD type) (withType (condition.getD type) t) ss
  | .spread _ _ => t

def walkBelow (s : Schema) (conditions : Conditions) (type : String) (t : ByType) :
    Option (List Selection) → ByType
  | none => t
  | some ss => walkAll s conditions type (withType type t) ss

def walkAll (s : Schema) (conditions : Conditions) (type : String) (t : ByType) :
    List Selection → ByType
  | [] => t
  | x :: rest => walkAll s conditions type (walk s conditions type t x) rest

end

/-- The truth values of the variables of an operation: those given, else the defaults. -/
def conditionsOf (given : Conditions) (o : Document.Operation) : Conditions :=
  given ++ o.variableDefinitions.filterMap fun v =>
    match v.defaultValue with
    | some (.boolean b) => some (v.name, b)
    | _ => none

def operation? (d : Document) : Option Document.Operation :=
  d.definitions.findSome? fun
    | .operation o => some o
    | .fragment _ => none

def fragments (d : Document) : List Fragment :=
  d.definitions.filterMap fun
    | .fragment f => some f
    | .operation _ => none

/-- The request that the first operation of a document makes of its first field. -/
def requestOf (s : Schema) (given : Conditions) (d : Document) : Option Request := do
  let o ← operation? d
  let conditions := conditionsOf given o
  let selections := writeOutAll (fragments d) o.selections
  let first := firstField (fieldsOfAll conditions s.queryType selections)
  let requested := walkAll s conditions s.queryType (withType s.queryType []) first
  let (_, fields) ← requested.head?
  let (_, r) ← fields.head?
  return r

def treeOf (s : Schema) (given : Conditions) (d : Document) : Datum :=
  ((requestOf s given d).map Request.tree).getD .null

end GraphQuery.Selection
