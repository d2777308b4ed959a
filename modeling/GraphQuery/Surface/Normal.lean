import GraphQuery.Graph.Form
import GraphQuery.Surface.Metadata

/-! From the surface form to the record form. What already is in record form is left as it is;
the first failure from left to right is the one reported, a node's head before its metadata and
both before its children. -/
namespace GraphQuery.Surface

def readFinite (n : Number) : Except Malformed Datum :=
  if n.isFinite then .ok (Form.number (.number n)) else .error (.notFinite n)

def readIdentifier (d : Datum) : Except Malformed Datum :=
  match d with
  | .string s => .ok (Form.string (.string s))
  | .number n => readFinite n
  | d => if Form.isToken d || Form.isAlias d then .ok d else .error (.identifier d)

def readOperationName : Option Datum → Except Malformed (Option String)
  | none => .ok none
  | some (.string s) => .ok (some s)
  | some d => .error (.operationName d)

def pairs : List Datum → Except Malformed (List (Datum × Datum))
  | [] => .ok []
  | .list [key, value] :: rest => (pairs rest).map ((key, value) :: ·)
  | d :: _ => .error (.entry d)

/-- The entries of a collection, written as pairs or as a record. -/
def entriesOf : Datum → Except Malformed (List (Datum × Datum))
  | .list elements => pairs elements
  | .record entries => .ok (entries.map fun e => (.string e.1, e.2))
  | d => .error (.collection d)

/-- A parameter before its default is read. -/
structure ParameterShape where
  name : String
  type : String
  required : Bool
  defaultValue : Option Datum

/-- The name and type of a parameter written as the list `whole`. -/
def namedParameter (whole name type : Datum) (required : Bool) (defaultValue : Option Datum) :
    Except Malformed ParameterShape :=
  match name, type with
  | .string name, .string type => .ok ⟨name, type, required, defaultValue⟩
  | _, _ => .error (.parameterNames whole)

/-- A parameter written as a list: with a third element it says whether it is required, with
four elements it has the last as default. -/
def listedParameter (whole : Datum) : List Datum → Except Malformed ParameterShape
  | [name, type] => namedParameter whole name type false none
  | [name, type, required] => namedParameter whole name type (!required.isFalsy) none
  | [name, type, _, value] => namedParameter whole name type false (some value)
  | _ => .error (.parameterShape whole)

def isTrue : Datum → Bool
  | .boolean b => b
  | _ => false

def present : Option Datum → Option Datum
  | some .absent => none
  | d => d

/-- A parameter, written as a record that names it and its type, or as a list. -/
def parameterShape (d : Datum) : Except Malformed ParameterShape :=
  match (d.get "name").string?, (d.get "type").string? with
  | some name, some type =>
    .ok ⟨name, type, isTrue (d.get "required"), present (d.get? "defaultValue")⟩
  | _, _ =>
    match d with
    | .list elements => listedParameter d elements
    | d => .error (.parameterShape d)

noncomputable def valuesSize : List (Datum × Datum) → Nat
  | [] => 0
  | (_, value) :: rest => sizeOf value + 1 + valuesSize rest

theorem pairs_valuesSize {elements : List Datum} {entries : List (Datum × Datum)}
    (h : pairs elements = .ok entries) : valuesSize entries ≤ sizeOf elements := by
  fun_induction pairs elements generalizing entries with
  | case1 => cases h; simp [valuesSize]
  | case2 key value rest ih =>
    obtain ⟨es, he, rfl⟩ := map_eq_ok.1 h
    have := ih he
    simp [valuesSize]; omega
  | case3 => cases h

theorem entriesOf_valuesSize {d : Datum} {entries : List (Datum × Datum)}
    (h : entriesOf d = .ok entries) : valuesSize entries < sizeOf d := by
  unfold entriesOf at h
  split at h
  · have := pairs_valuesSize h
    simp; omega
  · next es =>
    cases h
    simp only [Datum.record.sizeOf_spec]
    have : valuesSize (es.map fun e => (Datum.string e.1, e.2)) ≤ sizeOf es := by
      induction es with
      | nil => simp [valuesSize]
      | cons e es ih =>
        obtain ⟨k, v⟩ := e
        simp [valuesSize]; omega
    omega
  · cases h

theorem sizeOf_splitElements {elements : List Datum} {s : Split}
    (h : splitElements elements = .ok s) : sizeOf s.positional ≤ sizeOf elements := by
  fun_induction splitElements elements generalizing s with
  | case1 => cases h; simp [Split.empty]
  | case2 => cases h
  | case3 t d rest ih =>
    obtain ⟨r, hr, rfl⟩ := map_eq_ok.1 h
    have := ih hr
    simp [Split.addTag]; omega
  | case4 d rest _ _ ih =>
    obtain ⟨r, hr, rfl⟩ := map_eq_ok.1 h
    have := ih hr
    simp [Split.addPositional]; omega

theorem sizeOf_children_le {d head : Datum} {s : Split} {children : List Datum}
    (h : split d = .ok s) (hp : s.positional = head :: children) :
    sizeOf children ≤ sizeOf d := by
  unfold split at h
  split at h
  · have := sizeOf_splitElements (mapError_eq_ok.1 h)
    simp [hp] at this
    simp; omega
  · cases h
    cases hp
    exact d.sizeOf_pos

mutual

def readValue (d : Datum) : Except Malformed Datum :=
  if Form.isValue d then .ok d
  else match d with
    | .null => .ok (Form.token (.string "null"))
    | .boolean b => .ok (Form.token (.string (toString b)))
    | .string s => .ok (Form.string (.string s))
    | .number n => readFinite n
    | .list [.mark .variable, .string name] => .ok (Form.reference (.string name))
    | .list elements => (readFields (.list elements)).map Form.object
    | .record entries =>
      if Form.isNode d then .ok (Form.graph d)
      else (readFields (.record entries)).map Form.object
    | d => .error (.argumentValue d)
termination_by 2 * sizeOf d + 1

/-- A collection of named values. Its shape is checked as a whole before any of them is read. -/
def readFields (d : Datum) : Except Malformed (List Datum) :=
  match _h : entriesOf d with
  | .error e => .error e
  | .ok entries => readEntries d [] entries
termination_by 2 * sizeOf d
decreasing_by
  have := entriesOf_valuesSize _h
  omega

/-- The entries of `whole` that come after those with the keys `seen`. -/
def readEntries (whole : Datum) (seen : List String) :
    List (Datum × Datum) → Except Malformed (List Datum)
  | [] => .ok []
  | (.string key, d) :: rest =>
    if key ∈ seen then .error (.duplicateKey key whole)
    else do
      let value ← readValue d
      let fields ← readEntries whole (key :: seen) rest
      return Form.field key value :: fields
  | (key, _) :: _ => .error (.key key)
termination_by entries => 2 * valuesSize entries
decreasing_by all_goals simp only [valuesSize]; omega

end

def readParameter (d : Datum) : Except Malformed Datum := do
  let p ← parameterShape d
  match p.defaultValue with
  | none => return Form.parameter p.name p.type p.required none
  | some v => return Form.parameter p.name p.type p.required (some (← readValue v))

def readParameters : List Datum → Except Malformed (List Datum)
  | [] => .ok []
  | d :: rest => do
    let p ← readParameter d
    let ps ← readParameters rest
    return p :: ps

def readParameterList : Option Datum → Except Malformed (Option (List Datum))
  | none => .ok none
  | some (.list elements) => (readParameters elements).map some
  | some d => .error (.parameterList d)

def readArguments : Option Datum → Except Malformed (Option (List Datum))
  | none => .ok none
  | some d => (readFields d).map some

def readMetadata (s : Split) : Except Malformed Datum := do
  let name ← readOperationName (s.value? .operationName)
  let arguments ← readArguments (s.value? .arguments)
  let parameters ← readParameterList (s.value? .operationParameters)
  return Form.metadata name arguments parameters

mutual

/-- A graph: a node in record form, an atom, or a list of a head, metadata and children. -/
def readGraph (d : Datum) : Except Malformed Datum :=
  if Form.isNode d then .ok d
  else match _hs : split d with
    | .error e => .error e
    | .ok s =>
      match _hp : s.positional with
      | [] => .error (.noIdentifier d)
      | head :: children => do
        let object ← readIdentifier head
        let metadata ← readMetadata s
        let fields ← readGraphs children
        return Form.node object metadata fields
termination_by 2 * sizeOf d + 1
decreasing_by
  have := sizeOf_children_le _hs _hp
  omega

def readGraphs : List Datum → Except Malformed (List Datum)
  | [] => .ok []
  | d :: rest => do
    let node ← readGraph d
    let nodes ← readGraphs rest
    return node :: nodes
termination_by ds => 2 * sizeOf ds
decreasing_by all_goals simp only [List.cons.sizeOf_spec]; omega

end

end GraphQuery.Surface
