import GraphQuery.Datum

/-! What was requested of a field: which fields of each type its value may have, under which
response keys. Each request has a tree of records, which other requests may be written as too. -/
namespace GraphQuery.Selection

/-- A requested field. The fields below it are listed by type, and for each type by response key,
in the order of their first request. -/
structure Request where
  name : String
  /-- The response key: the alias, or the name where there is none. -/
  key : String
  byType : List (String × List (String × Request))

mutual

def Request.tree : Request → Datum
  | ⟨name, key, byType⟩ =>
    .record [("name", .string name), ("alias", .string key),
      ("fieldsByTypeName", .record (typeTrees byType))]

def typeTrees : List (String × List (String × Request)) → List (String × Datum)
  | [] => []
  | (type, fields) :: rest => (type, .record (fieldTrees fields)) :: typeTrees rest

def fieldTrees : List (String × Request) → List (String × Datum)
  | [] => []
  | (key, r) :: rest => (key, r.tree) :: fieldTrees rest

end

/-- Whether a value is the tree of a request, as far as its own entries show. -/
def isTree (d : Datum) : Bool :=
  (d.get "name").isString &&
    match d.get "fieldsByTypeName" with
    | .null | .list _ | .record _ => true
    | _ => false

@[simp] theorem typeTrees_eq_map (byType : List (String × List (String × Request))) :
    typeTrees byType = byType.map fun t => (t.1, .record (fieldTrees t.2)) := by
  induction byType with
  | nil => simp [typeTrees]
  | cons t rest ih => simp [typeTrees, ih]

@[simp] theorem fieldTrees_eq_map (fields : List (String × Request)) :
    fieldTrees fields = fields.map fun f => (f.1, f.2.tree) := by
  induction fields with
  | nil => simp [fieldTrees]
  | cons f rest ih => simp [fieldTrees, ih]

end GraphQuery.Selection
