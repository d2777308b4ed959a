import GraphQuery.Proofs.Connection.Settling
import GraphQuery.Proofs.Surface.Parts

/-! Properties of all records in a response, and a pass over the elements and entries of one. -/
namespace GraphQuery.Connection

open GraphQuery.Surface (IsPart)

/-- The entries of every record that stands anywhere in a value have a property. -/
def AllRecords (P : List (String × Datum) → Prop) (t : Datum) : Prop :=
  ∀ entries, IsPart (.record entries) t → P entries

section
variable {P : List (String × Datum) → Prop}

theorem AllRecords.of_isPart {d t : Datum} (h : AllRecords P t) (hd : IsPart d t) :
    AllRecords P d :=
  fun entries hp => h entries (hp.trans hd)

theorem AllRecords.entries {entries : List (String × Datum)} (h : AllRecords P (.record entries)) :
    P entries :=
  h entries (.self _)

theorem AllRecords.element {elements : List Datum} (h : AllRecords P (.list elements)) {d : Datum}
    (hd : d ∈ elements) : AllRecords P d :=
  h.of_isPart (.element hd (.self _))

theorem AllRecords.entry {entries : List (String × Datum)} (h : AllRecords P (.record entries))
    {e : String × Datum} (he : e ∈ entries) : AllRecords P e.2 :=
  h.of_isPart (.entry he (.self _))

theorem AllRecords.get? {d v : Datum} (h : AllRecords P d) {key : String}
    (hv : d.get? key = some v) : AllRecords P v :=
  h.of_isPart (Surface.isPart_of_get? hv)

theorem allRecords_atom {d : Datum} (h : Surface.isCompound d = false) : AllRecords P d := by
  intro entries hp
  cases hp <;> cases h

theorem allRecords_list {elements : List Datum} :
    AllRecords P (.list elements) ↔ ∀ d ∈ elements, AllRecords P d := by
  constructor
  · exact fun h d hd => h.element hd
  · intro h entries hp
    cases hp with
    | element hd hp => exact h _ hd entries hp

theorem allRecords_record {entries : List (String × Datum)} :
    AllRecords P (.record entries) ↔ P entries ∧ ∀ e ∈ entries, AllRecords P e.2 := by
  constructor
  · exact fun h => ⟨h.entries, fun e he => h.entry he⟩
  · rintro ⟨hp, hes⟩ below h
    cases h with
    | self => exact hp
    | entry he h => exact hes _ he below h

end

/-- An edge and its node stand at one position. -/
theorem node_of_edge {edges nodes : List Datum} (h : edgeNodes edges = some nodes) {i : Nat}
    {edge : Datum} (hi : edges[i]? = some edge) :
    edge.get? "node" = some (edge.get "node") ∧ nodes[i]? = some (edge.get "node") := by
  obtain ⟨hown, rfl⟩ := edgeNodes_eq_some_iff.1 h
  rw [List.getElem?_map, hi, Option.map_some]
  exact ⟨hown edge (List.mem_of_getElem? hi), rfl⟩

theorem sizeOf_snd_lt {entries : List (String × Datum)} {e : String × Datum} (h : e ∈ entries) :
    sizeOf e.2 < sizeOf entries := by
  have := List.sizeOf_lt_of_mem h
  obtain ⟨key, d⟩ := e
  rw [Prod.mk.sizeOf_spec] at this
  show sizeOf d < sizeOf entries
  omega

theorem collapseAll_eq_map (ds : List Datum) : collapseAll ds = ds.map collapse := by
  induction ds with
  | nil => rw [collapseAll, List.map_nil]
  | cons d ds ih => rw [collapseAll, List.map_cons, ih]

theorem collapseEntries_eq_map (es : List (String × Datum)) :
    collapseEntries es = es.map fun e => (e.1, collapseEntry e.2) := by
  induction es with
  | nil => rw [collapseEntries, List.map_nil]
  | cons e es ih => rw [collapseEntries, List.map_cons, ih]

end GraphQuery.Connection
