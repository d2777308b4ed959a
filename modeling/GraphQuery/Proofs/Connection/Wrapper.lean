import GraphQuery.Connection

/-! The shape of a wrapper, apart from how one is opened: a pass opens a value exactly if it has
this shape, and finds the nodes where the edges have them. -/
namespace GraphQuery.Connection

/-- A record with a list of edges and nothing else, where each edge has a node. -/
def IsWrapper (d : Datum) : Prop :=
  ∃ edges, d = .record [("edges", .list edges)] ∧
    ∀ edge ∈ edges, ∃ node, edge.get? "node" = some node

/-- The node of the edge at a position. -/
def nodeAt? (d : Datum) (i : Nat) : Option Datum :=
  match d.get? "edges" with
  | some (.list edges) => edges[i]?.bind (·.get? "node")
  | _ => none

theorem nodes?_eq_some_iff {d : Datum} {nodes : List Datum} :
    nodes? d = some nodes ↔
      ∃ edges, d = .record [("edges", .list edges)] ∧ edgeNodes edges = some nodes := by
  constructor
  · intro h
    unfold nodes? at h
    split at h
    · exact ⟨_, rfl, h⟩
    · cases h
  · rintro ⟨edges, rfl, h⟩
    exact h

theorem edgeNodes_eq_some_iff {edges nodes : List Datum} :
    edgeNodes edges = some nodes ↔
      (∀ edge ∈ edges, edge.get? "node" = some (edge.get "node")) ∧
        nodes = edges.map (·.get "node") := by
  induction edges generalizing nodes with
  | nil => simp [edgeNodes, eq_comm]
  | cons edge rest ih =>
    rw [edgeNodes]
    cases hn : edge.get? "node" with
    | none => simp [hn]
    | some node =>
      have hnode : edge.get "node" = node := by rw [Datum.get, hn, Option.getD_some]
      cases hr : edgeNodes rest with
      | none =>
        have hrest : ¬∀ e ∈ rest, e.get? "node" = some (e.get "node") := fun h => by
          have := ih.2 ⟨h, rfl⟩
          rw [hr] at this
          cases this
        simp [hrest]
      | some ns =>
        obtain ⟨hrest, rfl⟩ := ih.1 hr
        simp only [List.forall_mem_cons, List.map_cons, hn, hnode, true_and, Option.some.injEq]
        exact ⟨fun h => ⟨hrest, h.symm⟩, fun h => h.2.symm⟩

theorem isSome_edgeNodes_iff {edges : List Datum} :
    (edgeNodes edges).isSome = true ↔ ∀ edge ∈ edges, ∃ node, edge.get? "node" = some node := by
  rw [Option.isSome_iff_exists]
  constructor
  · rintro ⟨nodes, h⟩ edge he
    exact ⟨_, (edgeNodes_eq_some_iff.1 h).1 edge he⟩
  · intro h
    refine ⟨_, edgeNodes_eq_some_iff.2 ⟨fun edge he => ?_, rfl⟩⟩
    obtain ⟨node, hn⟩ := h edge he
    rw [Datum.get, hn, Option.getD_some]

theorem isSome_nodes?_iff {d : Datum} : (nodes? d).isSome = true ↔ IsWrapper d := by
  rw [Option.isSome_iff_exists, IsWrapper]
  simp only [nodes?_eq_some_iff, ← isSome_edgeNodes_iff, Option.isSome_iff_exists]
  rw [exists_comm]
  exact exists_congr fun edges => exists_and_left

instance : DecidablePred IsWrapper := fun _ => decidable_of_iff _ isSome_nodes?_iff

theorem isWrapper_of_nodes {d : Datum} {nodes : List Datum} (h : nodes? d = some nodes) :
    IsWrapper d :=
  isSome_nodes?_iff.1 (by rw [h, Option.isSome_some])

theorem nodes?_eq_none_iff {d : Datum} : nodes? d = none ↔ ¬IsWrapper d := by
  rw [← isSome_nodes?_iff, Option.not_isSome_iff_eq_none]

theorem nodeAt?_of_nodes {d : Datum} {nodes : List Datum} (h : nodes? d = some nodes) (i : Nat) :
    nodeAt? d i = nodes[i]? := by
  obtain ⟨edges, rfl, hedges⟩ := nodes?_eq_some_iff.1 h
  obtain ⟨hown, rfl⟩ := edgeNodes_eq_some_iff.1 hedges
  show edges[i]?.bind (·.get? "node") = _
  rw [List.getElem?_map]
  cases hi : edges[i]? with
  | none => rfl
  | some edge => exact hown edge (List.mem_of_getElem? hi)

end GraphQuery.Connection
