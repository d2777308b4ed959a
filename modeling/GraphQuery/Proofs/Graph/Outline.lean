import GraphQuery.Graph.Text
import GraphQuery.Limits
import GraphQuery.Proofs.Graph.RecordForm

/-! The outline of a graph against the graph itself: both are read from one record, and the outline
is the graph without its metadata. -/
namespace GraphQuery.Graph

mutual

/-- A graph without its metadata. -/
def Node.outline : Node → Node
  | ⟨i, _, _, _, children⟩ => .plain i (outlines children)

def outlines : List Node → List Node
  | [] => []
  | n :: rest => n.outline :: outlines rest

end

mutual

theorem Node.height_outline (n : Node) : n.outline.height = n.height := by
  obtain ⟨i, name, as, ps, ns⟩ := n
  rw [Node.outline, Node.plain, Node.height, Node.height, height_outlines ns]
termination_by structural n

theorem height_outlines (ns : List Node) : height (outlines ns) = height ns := by
  match ns with
  | [] => rw [outlines]
  | n :: ns => rw [outlines, height, height, Node.height_outline n, height_outlines ns]
termination_by structural ns

end

mutual

theorem Node.fieldNames_outline (n : Node) : n.outline.fieldNames = n.fieldNames := by
  obtain ⟨i, name, as, ps, ns⟩ := n
  rw [Node.outline, Node.plain, Node.fieldNames, Node.fieldNames, fieldNames_outlines ns]
termination_by structural n

theorem fieldNames_outlines (ns : List Node) : fieldNames (outlines ns) = fieldNames ns := by
  match ns with
  | [] => rw [outlines]
  | n :: ns =>
    rw [outlines, fieldNames, fieldNames, Node.fieldNames_outline n, fieldNames_outlines ns]
termination_by structural ns

end

mutual

/-- Each node has one name. -/
theorem Node.length_fieldNames (n : Node) : n.fieldNames.length = n.size := by
  obtain ⟨i, name, as, ps, ns⟩ := n
  rw [Node.fieldNames, Node.size, List.length_cons, length_fieldNames ns]
termination_by structural n

theorem length_fieldNames (ns : List Node) : (fieldNames ns).length = size ns := by
  match ns with
  | [] => rw [fieldNames, size, List.length_nil]
  | n :: ns =>
    rw [fieldNames, size, List.length_append, Node.length_fieldNames n, length_fieldNames ns]
termination_by structural ns

end

theorem Node.size_outline (n : Node) : n.outline.size = n.size := by
  rw [← Node.length_fieldNames, ← Node.length_fieldNames, Node.fieldNames_outline]

/-- The children that a record has: those in its list, or none if it has no list. -/
def ReadsChildren (read : List Datum → Option (List Node)) (d : Datum) (ns : List Node) : Prop :=
  ∃ v, d.get? "fields" = some v ∧
    ((∃ ds, v = .list ds ∧ read ds = some ns) ∨ (∀ ds, v ≠ .list ds) ∧ ns = [])

theorem children_of_nodeOf? {d : Datum} {n : Node} (h : nodeOf? d = some n) :
    identifierOf? (d.get "object") = some n.identifier ∧
      ReadsChildren nodesOf? d n.children := by
  rw [nodeOf?] at h
  split at h
  · cases h
  · split at h
    · next i name hi hname =>
      -- Whatever the metadata, the children are read last and in the same way.
      extract_lets readParameters at h
      have hparameters : ∀ as, readParameters as = some n →
          n.identifier = i ∧ ReadsChildren nodesOf? d n.children := by
        intro as h
        unfold readParameters at h
        extract_lets readFields at h
        have hfields : ∀ ps, readFields ps = some n →
            n.identifier = i ∧ ReadsChildren nodesOf? d n.children := by
          intro ps h
          unfold readFields at h
          split at h
          · next ds hf =>
            obtain ⟨ns, hns, rfl⟩ := Option.map_eq_some_iff.1 h
            exact ⟨rfl, _, hf, Or.inl ⟨ds, rfl, hns⟩⟩
          · next v hv hf =>
            split at h
            · cases h
              exact ⟨rfl, v, hf, Or.inr ⟨hv, rfl⟩⟩
            · cases h
          · cases h
        split at h
        all_goals
          obtain ⟨ps, -, h⟩ := Option.bind_eq_some_iff.1 h
          exact hfields ps h
      have hn : n.identifier = i ∧ ReadsChildren nodesOf? d n.children := by
        split at h
        all_goals
          obtain ⟨as, -, h⟩ := Option.bind_eq_some_iff.1 h
          exact hparameters as h
      exact ⟨hn.1 ▸ hi, hn.2⟩
    · cases h

theorem children_of_outlineOf? {d : Datum} {m : Node} (h : outlineOf? d = some m) :
    headIsText (d.get "object") = true ∧
      ∃ i ms, m = .plain i ms ∧ identifierOf? (d.get "object") = some i ∧
        ReadsChildren outlinesOf? d ms := by
  rw [outlineOf?] at h
  split at h
  · cases h
  · next ht =>
    have ht' : headIsText (d.get "object") = true := by simpa using ht
    split at h
    · cases h
    · next i hi =>
      split at h
      · next ds hf =>
        obtain ⟨ms, hms, rfl⟩ := Option.map_eq_some_iff.1 h
        exact ⟨ht', i, ms, rfl, hi, _, hf, Or.inl ⟨ds, rfl, hms⟩⟩
      · next s hf =>
        split at h
        · cases h
          exact ⟨ht', i, [], rfl, hi, _, hf, Or.inr ⟨by simp, rfl⟩⟩
        · cases h
      · cases h

mutual

theorem outline_eq (d : Datum) {m n : Node} (hm : outlineOf? d = some m)
    (hn : nodeOf? d = some n) : m = n.outline := by
  obtain ⟨-, i, ms, rfl, hi, v, hv, hms⟩ := children_of_outlineOf? hm
  obtain ⟨hi', w, hw, hns⟩ := children_of_nodeOf? hn
  obtain ⟨j, name, as, ps, ns⟩ := n
  obtain rfl : i = j := Option.some.inj (hi.symm.trans hi')
  obtain rfl : v = w := Option.some.inj (hv.symm.trans hw)
  rw [Node.outline]
  rcases hms with ⟨ds, rfl, hms⟩ | ⟨hl, rfl⟩
  · rcases hns with ⟨es, he, hns⟩ | ⟨hl, -⟩
    · cases he
      rw [outlines_eq ds hms hns]
    · exact absurd rfl (hl ds)
  · rcases hns with ⟨es, rfl, -⟩ | ⟨-, rfl⟩
    · exact absurd rfl (hl es)
    · rw [outlines]
termination_by sizeOf d
decreasing_by
  have := Datum.sizeOf_get?_lt hv
  simp at this
  omega

theorem outlines_eq (ds : List Datum) {ms ns : List Node} (hm : outlinesOf? ds = some ms)
    (hn : nodesOf? ds = some ns) : ms = outlines ns := by
  match ds with
  | [] =>
    rw [outlinesOf?] at hm
    rw [nodesOf?] at hn
    cases hm
    cases hn
    rw [outlines]
  | d :: ds =>
    rw [outlinesOf?] at hm
    rw [nodesOf?] at hn
    obtain ⟨m, hm₀, hm⟩ := Option.bind_eq_some_iff.1 hm
    obtain ⟨ms', hms, hm⟩ := Option.bind_eq_some_iff.1 hm
    obtain ⟨n, hn₀, hn⟩ := Option.bind_eq_some_iff.1 hn
    obtain ⟨ns', hns, hn⟩ := Option.bind_eq_some_iff.1 hn
    cases hm
    cases hn
    rw [amongOthers_of_headIsText (children_of_outlineOf? hm₀).1, outlines, outline_eq d hm₀ hn₀,
      outlines_eq ds hms hns]
termination_by sizeOf ds

end

theorem outlineOf?_of_get {d : Datum} {i : Identifier} {ds : List Datum}
    (ht : headIsText (d.get "object") = true) (hi : identifierOf? (d.get "object") = some i)
    (hf : d.get "fields" = .list ds) : outlineOf? d = (outlinesOf? ds).map (.plain i) := by
  have hg : d.get? "fields" = some (.list ds) := get?_of_get hf (by simp)
  rw [outlineOf?, ht, hi]
  generalize d.get? "fields" = x at hg
  subst hg
  rfl

mutual

/-- The outline that is read from a record that describes a graph. -/
theorem DescribesNode.outlineOf? {d : Datum} {n : Node} (h : DescribesNode d n) :
    Graph.outlineOf? d = some n.outline := by
  match h with
  | .mk _ hi _ _ _ hf hn =>
    rw [outlineOf?_of_get hi.headIsText hi.identifierOf? hf, hn.outlinesOf?, Node.outline,
      Option.map_some]
termination_by structural h

theorem DescribesNodes.outlinesOf? {ds : List Datum} {ns : List Node} (h : DescribesNodes ds ns) :
    Graph.outlinesOf? ds = some (outlines ns) := by
  match h with
  | .nil => rw [Graph.outlinesOf?, outlines]
  | .cons hn hs =>
    rw [Graph.outlinesOf?, hn.outlineOf?, hs.outlinesOf?, outlines]
    rfl
termination_by structural h

end

theorem Node.outlineOf?_toDatum (n : Node) : Graph.outlineOf? n.toDatum = some n.outline :=
  n.describes_toDatum.outlineOf?

end GraphQuery.Graph
