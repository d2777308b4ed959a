import GraphQuery.Proofs.Connection.Wrapper

/-! When a second pass over a response changes nothing. A pass leaves a wrapper behind only where
one stood around another: the inner one becomes a list, and the list may hold edges. -/
namespace GraphQuery.Connection

/-- The value under `edges` in a record of this one entry. -/
def soleEdges? : Datum → Option Datum
  | .record [(key, d)] => if key = "edges" then some d else none
  | _ => none

def listNodes? : Datum → Option (List Datum)
  | .list edges => edgeNodes edges
  | _ => none

theorem nodes?_eq_bind (d : Datum) : nodes? d = (soleEdges? d).bind listNodes? := by
  match d with
  | .record [(key, e)] =>
    by_cases hk : key = "edges"
    · subst hk
      cases e <;> rfl
    · have hn : nodes? (.record [(key, e)]) = none := by
        unfold nodes?
        split
        · next he => simp_all
        · rfl
      rw [hn]
      simp [soleEdges?, hk]
  | .record [] => rfl
  | .record ((_, _) :: (_, _) :: _) =>
    unfold nodes?
    split
    · next he => simp at he
    · rfl
  | .absent | .null | .boolean _ | .number _ | .integer _ | .string _ | .mark _ | .list _ => rfl

@[simp] theorem nodes?_list (elements : List Datum) : nodes? (.list elements) = none := rfl

theorem soleEdges?_eq_some_iff {d e : Datum} :
    soleEdges? d = some e ↔ d = .record [("edges", e)] := by
  constructor
  · intro h
    unfold soleEdges? at h
    split at h
    · next key e' =>
      split at h
      · next hk => cases h; rw [hk]
      · cases h
    · cases h
  · rintro rfl
    rfl

theorem collapseEntry_of_nodes {d : Datum} {nodes : List Datum} (h : nodes? d = some nodes) :
    collapseEntry d = .list (collapseAll nodes) := by
  unfold collapseEntry
  split <;> simp_all

theorem collapseEntry_of_none {d : Datum} (h : nodes? d = none) :
    collapseEntry d = collapse d := by
  unfold collapseEntry
  split <;> simp_all

theorem lookup_collapseEntries (key : String) (entries : List (String × Datum)) :
    (collapseEntries entries).lookup key = (entries.lookup key).map collapseEntry := by
  induction entries with
  | nil => simp [collapseEntries]
  | cons e entries ih =>
    obtain ⟨k, d⟩ := e
    simp only [collapseEntries, List.lookup_cons, ih]
    by_cases hk : key == k <;> simp [hk]

theorem get?_collapse (key : String) (d : Datum) :
    (collapse d).get? key = (d.get? key).map collapseEntry := by
  cases d with
  | record entries =>
    rw [collapse]
    exact lookup_collapseEntries key entries
  | list elements => rw [collapse]; rfl
  | _ => simp [collapse, Datum.get?, Datum.entries?]

theorem soleEdges?_collapse (d : Datum) :
    soleEdges? (collapse d) = (soleEdges? d).map collapseEntry := by
  match d with
  | .record [(key, e)] =>
    simp only [collapse, collapseEntries, soleEdges?]
    by_cases hk : key = "edges" <;> simp [hk]
  | .record [] => simp [collapse, collapseEntries, soleEdges?]
  | .record ((_, _) :: (_, _) :: _) => simp [collapse, collapseEntries, soleEdges?]
  | .list _ => simp [collapse, soleEdges?]
  | .absent | .null | .boolean _ | .number _ | .integer _ | .string _ | .mark _ =>
    simp [collapse, soleEdges?]

theorem isSome_edgeNodes_cons (edge : Datum) (rest : List Datum) :
    (edgeNodes (edge :: rest)).isSome =
      ((edge.get? "node").isSome && (edgeNodes rest).isSome) := by
  rw [edgeNodes]
  cases edge.get? "node" <;> cases edgeNodes rest <;> rfl

theorem isSome_edgeNodes_collapseAll (ds : List Datum) :
    (edgeNodes (collapseAll ds)).isSome = (edgeNodes ds).isSome := by
  induction ds with
  | nil => rw [collapseAll]
  | cons d ds ih =>
    rw [collapseAll, isSome_edgeNodes_cons, isSome_edgeNodes_cons, get?_collapse,
      Option.isSome_map, ih]

/-- Whether a value has `edges` alone and there a wrapper, the nodes of which are edges with
nodes of their own. -/
def hidesWrapper (d : Datum) : Bool :=
  ((soleEdges? d).bind nodes?).any fun nodes => (edgeNodes nodes).isSome

theorem hidesWrapper_iff {d : Datum} :
    hidesWrapper d = true ↔
      ∃ edges, d = .record [("edges", .record [("edges", .list edges)])] ∧
        ∀ edge ∈ edges, ∃ node below,
          edge.get? "node" = some node ∧ node.get? "node" = some below := by
  rw [hidesWrapper, Option.any_eq_true]
  constructor
  · rintro ⟨nodes, hnodes, hbelow⟩
    obtain ⟨e, hd, he⟩ := Option.bind_eq_some_iff.1 hnodes
    obtain ⟨edges, rfl, hedges⟩ := nodes?_eq_some_iff.1 he
    obtain ⟨hown, rfl⟩ := edgeNodes_eq_some_iff.1 hedges
    refine ⟨edges, soleEdges?_eq_some_iff.1 hd, fun edge he => ?_⟩
    obtain ⟨below, hb⟩ := isSome_edgeNodes_iff.1 hbelow _ (List.mem_map_of_mem he)
    exact ⟨_, below, hown edge he, hb⟩
  · rintro ⟨edges, rfl, h⟩
    have hown : ∀ edge ∈ edges, ∃ node, edge.get? "node" = some node := fun edge he =>
      (h edge he).imp fun _ ⟨_, hn, _⟩ => hn
    obtain ⟨nodes, hnodes⟩ := Option.isSome_iff_exists.1 (isSome_edgeNodes_iff.2 hown)
    refine ⟨nodes, hnodes, isSome_edgeNodes_iff.2 fun node hn => ?_⟩
    obtain ⟨hget, rfl⟩ := edgeNodes_eq_some_iff.1 hnodes
    obtain ⟨edge, he, rfl⟩ := List.mem_map.1 hn
    obtain ⟨node, below, hnode, hb⟩ := h edge he
    obtain rfl : edge.get "node" = node := Option.some.inj ((hget edge he).symm.trans hnode)
    exact ⟨below, hb⟩

theorem isSome_listNodes?_collapseEntry (d : Datum) :
    (listNodes? (collapseEntry d)).isSome =
      ((listNodes? d).isSome || (nodes? d).any fun nodes => (edgeNodes nodes).isSome) := by
  cases hd : nodes? d with
  | some nodes =>
    have hl : listNodes? d = none := by
      cases d with
      | list elements => cases hd
      | _ => rfl
    rw [collapseEntry_of_nodes hd, hl]
    exact isSome_edgeNodes_collapseAll nodes
  | none =>
    rw [collapseEntry_of_none hd]
    cases d with
    | list elements =>
      rw [collapse]
      simpa [listNodes?] using isSome_edgeNodes_collapseAll elements
    | _ => simp [collapse, listNodes?]

/-- What a pass makes of a value that is no wrapper is one exactly if the value hides one. -/
theorem isSome_nodes?_collapse {d : Datum} (h : nodes? d = none) :
    (nodes? (collapse d)).isSome = hidesWrapper d := by
  rw [nodes?_eq_bind] at h
  rw [nodes?_eq_bind, soleEdges?_collapse, hidesWrapper]
  cases he : soleEdges? d with
  | none => rfl
  | some e =>
    rw [he] at h
    have hl : listNodes? e = none := h
    show (listNodes? (collapseEntry e)).isSome = (nodes? e).any _
    rw [isSome_listNodes?_collapseEntry, hl]
    rfl

mutual

/-- The values of the entries that a pass comes to. It goes from a wrapper on to its nodes, and
from any other value to what the value consists of. -/
def reached : Datum → List Datum
  | .list elements => reachedAll elements
  | .record entries => reachedEntries entries
  | _ => []
termination_by d => 2 * sizeOf d

def reachedAll : List Datum → List Datum
  | [] => []
  | d :: rest => reached d ++ reachedAll rest
termination_by ds => 2 * sizeOf ds

def reachedEntries : List (String × Datum) → List Datum
  | [] => []
  | (_, d) :: rest => d :: reachedBelow d ++ reachedEntries rest
termination_by entries => 2 * sizeOf entries

def reachedBelow (d : Datum) : List Datum :=
  match _h : nodes? d with
  | some nodes => reachedAll nodes
  | none => reached d
termination_by 2 * sizeOf d + 1
decreasing_by
  · have := sizeOf_nodes_lt _h
    omega
  · omega

end

theorem reachedBelow_of_nodes {d : Datum} {nodes : List Datum} (h : nodes? d = some nodes) :
    reachedBelow d = reachedAll nodes := by
  unfold reachedBelow
  split <;> simp_all

theorem reachedBelow_of_none {d : Datum} (h : nodes? d = none) : reachedBelow d = reached d := by
  unfold reachedBelow
  split <;> simp_all

def Settled (ds : List Datum) : Prop := ∀ d ∈ ds, hidesWrapper d = false

@[simp] theorem settled_nil : Settled [] := by simp [Settled]

@[simp] theorem settled_cons (d : Datum) (ds : List Datum) :
    Settled (d :: ds) ↔ hidesWrapper d = false ∧ Settled ds := by simp [Settled]

@[simp] theorem settled_append (ds es : List Datum) :
    Settled (ds ++ es) ↔ Settled ds ∧ Settled es := by
  simp only [Settled, List.mem_append]
  constructor
  · intro h
    exact ⟨fun d hd => h d (Or.inl hd), fun d hd => h d (Or.inr hd)⟩
  · rintro ⟨hds, hes⟩ d (hd | hd)
    · exact hds d hd
    · exact hes d hd

/-- A wrapper has a list under `edges`, and a list is no wrapper. -/
theorem hidesWrapper_of_nodes {d : Datum} {nodes : List Datum} (h : nodes? d = some nodes) :
    hidesWrapper d = false := by
  rw [nodes?_eq_bind] at h
  rw [hidesWrapper]
  cases he : soleEdges? d with
  | none => rfl
  | some e =>
    rw [he] at h
    cases e with
    | list elements => rfl
    | _ => cases h

mutual

theorem collapse_collapse_eq (d : Datum) :
    collapse (collapse d) = collapse d ↔ Settled (reached d) := by
  cases d with
  | list elements =>
    have ih := collapseAll_collapseAll_eq elements
    simpa only [collapse, reached, Datum.list.injEq] using ih
  | record entries =>
    have ih := collapseEntries_collapseEntries_eq entries
    simpa only [collapse, reached, Datum.record.injEq] using ih
  | _ => simp [collapse, reached]
termination_by 2 * sizeOf d

theorem collapseAll_collapseAll_eq (ds : List Datum) :
    collapseAll (collapseAll ds) = collapseAll ds ↔ Settled (reachedAll ds) := by
  cases ds with
  | nil => simp [collapseAll, reachedAll]
  | cons d ds =>
    have ih := collapse_collapse_eq d
    have ihs := collapseAll_collapseAll_eq ds
    simp only [collapseAll, reachedAll, List.cons.injEq, settled_append, ih, ihs]
termination_by 2 * sizeOf ds

theorem collapseEntries_collapseEntries_eq (entries : List (String × Datum)) :
    collapseEntries (collapseEntries entries) = collapseEntries entries ↔
      Settled (reachedEntries entries) := by
  match entries with
  | [] => simp [collapseEntries, reachedEntries]
  | (key, d) :: rest =>
    have ih := collapseEntry_collapseEntry_eq d
    have ihs := collapseEntries_collapseEntries_eq rest
    simp only [collapseEntries, reachedEntries, List.cons.injEq, Prod.mk.injEq, true_and,
      settled_append, ih, ihs]
termination_by 2 * sizeOf entries

/-- The nodes of a wrapper stay a list. Of any other value a second pass makes something else
than the first if the first has made a wrapper of it, or if it does so further below. -/
theorem collapseEntry_collapseEntry_eq (d : Datum) :
    collapseEntry (collapseEntry d) = collapseEntry d ↔ Settled (d :: reachedBelow d) := by
  cases hd : nodes? d with
  | none =>
    have ih := collapse_collapse_eq d
    have hw := isSome_nodes?_collapse hd
    rw [collapseEntry_of_none hd, settled_cons, reachedBelow_of_none hd, ← hw]
    cases hn : nodes? (collapse d) with
    | none =>
      rw [collapseEntry_of_none hn, ih]
      simp
    | some nodes =>
      rw [collapseEntry_of_nodes hn]
      constructor
      · intro he
        rw [← he] at hn
        cases hn
      · intro he
        cases he.1
  | some nodes =>
    have ih := collapseAll_collapseAll_eq nodes
    rw [collapseEntry_of_nodes hd, collapseEntry_of_none (nodes?_list _), collapse,
      Datum.list.injEq, settled_cons, reachedBelow_of_nodes hd, ih]
    simp [hidesWrapper_of_nodes hd]
termination_by 2 * sizeOf d + 1
decreasing_by
  · omega
  · have := sizeOf_nodes_lt hd
    omega

end

/-- A second pass changes nothing exactly if the first comes to no entry that hides a wrapper. -/
theorem collapse_idempotent_iff (t : Datum) :
    collapse (collapse t) = collapse t ↔ ∀ d ∈ reached t, hidesWrapper d = false :=
  collapse_collapse_eq t

/-- An empty wrapper inside the `edges` of an entry: the first pass leaves a wrapper behind. -/
theorem collapse_not_idempotent :
    collapse (collapse (.record [("a", .record [("edges", .record [("edges", .list [])])])])) ≠
      collapse (.record [("a", .record [("edges", .record [("edges", .list [])])])]) := by
  intro h
  have hs := (collapse_collapse_eq _).1 h
  revert hs
  simp [reached, reachedEntries, hidesWrapper, soleEdges?, nodes?, edgeNodes]

/-- A second pass changes something exactly if the first comes to an entry that has `edges` alone
and under it a wrapper, each edge of which has a node with a node of its own. -/
theorem collapse_collapse_ne_iff (t : Datum) :
    collapse (collapse t) ≠ collapse t ↔
      ∃ d ∈ reached t, ∃ edges, d = .record [("edges", .record [("edges", .list edges)])] ∧
        ∀ edge ∈ edges, ∃ node below,
          edge.get? "node" = some node ∧ node.get? "node" = some below := by
  rw [Ne, collapse_collapse_eq, Settled]
  simp only [← hidesWrapper_iff, Classical.not_forall, Bool.not_eq_false, exists_prop]

end GraphQuery.Connection
