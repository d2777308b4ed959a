import GraphQuery.Datum

/-! Responses without the wrappers of paginated lists. An entry that holds nothing but a list of
edges is replaced by the list of the nodes of the edges; everything else keeps its place. -/
namespace GraphQuery.Connection

/-- The nodes of edges, if every edge has one. -/
def edgeNodes : List Datum → Option (List Datum)
  | [] => some []
  | edge :: rest =>
    match edge.get? "node", edgeNodes rest with
    | some node, some nodes => some (node :: nodes)
    | _, _ => none

/-- The nodes of a wrapper: a record with edges and nothing else. -/
def nodes? : Datum → Option (List Datum)
  | .record [("edges", .list edges)] => edgeNodes edges
  | _ => none

theorem sizeOf_edgeNodes_le {edges nodes : List Datum} (h : edgeNodes edges = some nodes) :
    sizeOf nodes ≤ sizeOf edges := by
  induction edges generalizing nodes with
  | nil => cases h; simp
  | cons edge rest ih =>
    simp only [edgeNodes] at h
    split at h
    · next node ns hn hr =>
      cases h
      have := Datum.sizeOf_get?_lt hn
      have := ih hr
      simp; omega
    · cases h

theorem sizeOf_nodes_lt {d : Datum} {nodes : List Datum} (h : nodes? d = some nodes) :
    sizeOf nodes < sizeOf d := by
  unfold nodes? at h
  split at h
  · have := sizeOf_edgeNodes_le h
    simp; omega
  · cases h

mutual

/-- A response tree without wrappers. A wrapper collapses only as the value of an entry. -/
def collapse : Datum → Datum
  | .list elements => .list (collapseAll elements)
  | .record entries => .record (collapseEntries entries)
  | d => d
termination_by d => 2 * sizeOf d

def collapseAll : List Datum → List Datum
  | [] => []
  | d :: rest => collapse d :: collapseAll rest
termination_by ds => 2 * sizeOf ds

def collapseEntries : List (String × Datum) → List (String × Datum)
  | [] => []
  | (key, d) :: rest => (key, collapseEntry d) :: collapseEntries rest
termination_by entries => 2 * sizeOf entries

/-- The value of an entry: the nodes of a wrapper, or a tree without wrappers. -/
def collapseEntry (d : Datum) : Datum :=
  match _h : nodes? d with
  | some nodes => .list (collapseAll nodes)
  | none => collapse d
termination_by 2 * sizeOf d + 1
decreasing_by
  · have := sizeOf_nodes_lt _h
    omega
  · omega

end

end GraphQuery.Connection
