import GraphQuery.Proofs.Connection.Records

/-! The places in a response, by their paths. What a pass keeps of a response it keeps as it is and
in its order, at a path without the steps into wrappers and edges. -/
namespace GraphQuery.Connection

/-- A step into a value: to an entry of a record or to an element of a list. -/
inductive Step where
  | key (key : String)
  | index (i : Nat)
  deriving DecidableEq, Repr

/-- What is seen of a value without a step into it. -/
inductive Face where
  | atom (d : Datum)
  | list (length : Nat)
  | record (keys : List String)

namespace Face

/-- The value, if it has nothing below it. -/
def leaf? : Face → Option Datum
  | .atom d => some d
  | .list 0 => some (.list [])
  | .record [] => some (.record [])
  | _ => none

def keys? : Face → Option (List String)
  | .record keys => some keys
  | _ => none

end Face

section
variable {α β : Type}

/-- The places under a step, seen from where the step is taken. -/
def below (s : Step) (ps : List (List Step × α)) : List (List Step × α) :=
  ps.map fun p => (s :: p.1, p.2)

/-- What stands at a path, at the path it has afterwards. -/
def relocate (f : List Step → Option (List Step)) (p : List Step × α) : Option (List Step × α) :=
  (f p.1).map (·, p.2)

theorem filterMap_relocate_kept {f : List Step → Option (List Step)} {path path' : List Step}
    (h : f path = some path') (a : α) (ps : List (List Step × α)) :
    ((path, a) :: ps).filterMap (relocate f) = (path', a) :: ps.filterMap (relocate f) := by
  have ha : relocate f (path, a) = some (path', a) := by rw [relocate, h, Option.map_some]
  rw [List.filterMap_cons_some ha]

theorem filterMap_relocate_dropped {f : List Step → Option (List Step)} {path : List Step}
    (h : f path = none) (a : α) (ps : List (List Step × α)) :
    ((path, a) :: ps).filterMap (relocate f) = ps.filterMap (relocate f) := by
  have ha : relocate f (path, a) = none := by rw [relocate, h, Option.map_none]
  rw [List.filterMap_cons_none ha]

theorem filterMap_below_eq (f : List Step → Option (List Step)) (s : Step)
    (ps : List (List Step × α)) :
    (below s ps).filterMap (relocate f) = ps.filterMap (relocate fun path => f (s :: path)) := by
  rw [below, List.filterMap_map]
  rfl

theorem filterMap_below {f g : List Step → Option (List Step)} {s s' : Step}
    (h : ∀ path, f (s :: path) = (g path).map (s' :: ·)) (ps : List (List Step × α)) :
    (below s ps).filterMap (relocate f) = below s' (ps.filterMap (relocate g)) := by
  rw [filterMap_below_eq, below, List.map_filterMap]
  refine List.filterMap_congr fun p _ => ?_
  simp only [relocate, h, Option.map_map]
  rfl

theorem filterMap_below_of_none {f : List Step → Option (List Step)} {s : Step}
    (h : ∀ path, f (s :: path) = none) (ps : List (List Step × α)) :
    (below s ps).filterMap (relocate f) = [] := by
  rw [filterMap_below_eq, List.filterMap_eq_nil_iff]
  intro p _
  rw [relocate, h, Option.map_none]

end

mutual

/-- All places in a value, each with its path and with what is seen there, in the order in which
the value is walked through. -/
def places : Datum → List (List Step × Face)
  | .list elements => ([], .list elements.length) :: elementPlaces 0 elements
  | .record entries => ([], .record (entries.map Prod.fst)) :: entryPlaces entries
  | d => [([], .atom d)]

def elementPlaces (i : Nat) : List Datum → List (List Step × Face)
  | [] => []
  | d :: rest => below (.index i) (places d) ++ elementPlaces (i + 1) rest

def entryPlaces : List (String × Datum) → List (List Step × Face)
  | [] => []
  | (key, d) :: rest => below (.key key) (places d) ++ entryPlaces rest

end

theorem elementPlaces_map (f : Datum → Datum) (i : Nat) (ds : List Datum) :
    elementPlaces i (ds.map f) =
      (ds.zipIdx i).flatMap fun e => below (.index e.2) (places (f e.1)) := by
  induction ds generalizing i with
  | nil => rfl
  | cons d ds ih => rw [List.map_cons, elementPlaces, ih, List.zipIdx_cons, List.flatMap_cons]

theorem places_list_map (f : Datum → Datum) (ds : List Datum) :
    places (.list (ds.map f)) = ([], .list ds.length) ::
      ds.zipIdx.flatMap fun e => below (.index e.2) (places (f e.1)) := by
  rw [places, List.length_map, elementPlaces_map]

theorem entryPlaces_map (f : Datum → Datum) (es : List (String × Datum)) :
    entryPlaces (es.map fun e => (e.1, f e.2)) =
      es.flatMap fun e => below (.key e.1) (places (f e.2)) := by
  induction es with
  | nil => rfl
  | cons e es ih => rw [List.map_cons, entryPlaces, ih, List.flatMap_cons]

theorem places_record_map (f : Datum → Datum) (es : List (String × Datum)) :
    places (.record (es.map fun e => (e.1, f e.2))) = ([], .record (es.map Prod.fst)) ::
      es.flatMap fun e => below (.key e.1) (places (f e.2)) := by
  rw [places, entryPlaces_map, List.map_map]
  rfl

theorem places_list (ds : List Datum) :
    places (.list ds) = ([], .list ds.length) ::
      ds.zipIdx.flatMap fun e => below (.index e.2) (places e.1) := by
  simpa using places_list_map id ds

theorem places_record (es : List (String × Datum)) :
    places (.record es) = ([], .record (es.map Prod.fst)) ::
      es.flatMap fun e => below (.key e.1) (places e.2) := by
  simpa using places_record_map id es

theorem places_wrapper (edges : List Datum) :
    places (.record [("edges", .list edges)]) = ([], .record ["edges"]) ::
      ([.key "edges"], .list edges.length) ::
        edges.zipIdx.flatMap fun e => below (.key "edges") (below (.index e.2) (places e.1)) := by
  simp only [places_record, places_list, below, List.flatMap_cons, List.flatMap_nil,
    List.append_nil, List.map_cons, List.map_nil, List.map_flatMap]

mutual

/-- The path that a pass gives to what stands at a path; none where it does not keep that. -/
def newPath (d : Datum) (path : List Step) : Option (List Step) :=
  match d, path with
  | _, [] => some []
  | .list elements, .index i :: path =>
    (elements[i]?.bind fun d => newPath d path).map (.index i :: ·)
  | .record entries, .key key :: path =>
    ((entries.lookup key).bind fun d => newEntryPath d path).map (.key key :: ·)
  | _, _ => none
termination_by 2 * path.length

/-- The same in the value of an entry. In a wrapper, `edges` leads to the list that takes the place
of the wrapper, and `edges`, an index and `node` lead to the element there. -/
def newEntryPath (d : Datum) (path : List Step) : Option (List Step) :=
  if IsWrapper d then
    match path with
    | [.key "edges"] => some []
    | .key "edges" :: .index i :: .key "node" :: path =>
      ((nodeAt? d i).bind fun d => newPath d path).map (.index i :: ·)
    | _ => none
  else newPath d path
termination_by 2 * path.length + 1

end

@[simp] theorem newPath_nil (d : Datum) : newPath d [] = some [] := by
  rw [newPath.eq_def]

theorem newPath_element {elements : List Datum} {i : Nat} {d : Datum} (h : elements[i]? = some d)
    (path : List Step) :
    newPath (.list elements) (.index i :: path) = (newPath d path).map (.index i :: ·) := by
  rw [newPath, h, Option.bind_some]

theorem newPath_entry {entries : List (String × Datum)} {key : String} {d : Datum}
    (h : entries.lookup key = some d) (path : List Step) :
    newPath (.record entries) (.key key :: path) = (newEntryPath d path).map (.key key :: ·) := by
  rw [newPath, h, Option.bind_some]

theorem newEntryPath_of_not {d : Datum} (h : ¬IsWrapper d) : newEntryPath d = newPath d := by
  funext path
  rw [newEntryPath.eq_def, if_neg h]

section
variable {d : Datum} (h : IsWrapper d)
include h

theorem newEntryPath_wrapper : newEntryPath d [] = none := by
  rw [newEntryPath.eq_def, if_pos h]

theorem newEntryPath_edges : newEntryPath d [.key "edges"] = some [] := by
  rw [newEntryPath.eq_def, if_pos h]
  simp

theorem newEntryPath_edge (i : Nat) : newEntryPath d [.key "edges", .index i] = none := by
  rw [newEntryPath.eq_def, if_pos h]
  simp

theorem newEntryPath_node {i : Nat} {node : Datum} (hi : nodeAt? d i = some node)
    (path : List Step) :
    newEntryPath d (.key "edges" :: .index i :: .key "node" :: path) =
      (newPath node path).map (.index i :: ·) := by
  rw [newEntryPath.eq_def, if_pos h]
  simp [hi]

theorem newEntryPath_besides {key : String} (hk : key ≠ "node") (i : Nat) (path : List Step) :
    newEntryPath d (.key "edges" :: .index i :: .key key :: path) = none := by
  rw [newEntryPath.eq_def, if_pos h]
  simp [hk]

end

/-- No record anywhere in a value has a key twice. -/
def DistinctKeys (t : Datum) : Prop := AllRecords (fun entries => (entries.map Prod.fst).Nodup) t

theorem DistinctKeys.lookup {entries : List (String × Datum)} (h : DistinctKeys (.record entries))
    {e : String × Datum} (he : e ∈ entries) : entries.lookup e.1 = some e.2 :=
  Keyed.lookup_of_mem h.entries he

/-- Where only one key counts, the entries come down to that of the key. -/
theorem flatMap_of_lookup {β : Type} {es : List (String × Datum)} {key : String} {d : Datum}
    (hn : (es.map Prod.fst).Nodup) (hl : es.lookup key = some d) {g : String × Datum → List β}
    (hg : ∀ e, e.1 ≠ key → g e = []) : es.flatMap g = g (key, d) := by
  induction es with
  | nil => cases hl
  | cons e es ih =>
    obtain ⟨k, v⟩ := e
    rw [List.map_cons, List.nodup_cons] at hn
    rw [List.flatMap_cons]
    by_cases hk : key = k
    · subst hk
      rw [List.lookup_cons_self] at hl
      cases hl
      have hrest : es.flatMap g = [] := List.flatMap_eq_nil_iff.2 fun e he =>
        hg e fun hkey => hn.1 (List.mem_map.2 ⟨e, he, hkey⟩)
      rw [hrest, List.append_nil]
    · rw [Keyed.lookup_cons_of_ne hk] at hl
      rw [hg (k, v) (Ne.symm hk), List.nil_append, ih hn.2 hl]

/-- Of an edge only what its node has is kept. -/
theorem filterMap_places_edge {f : List Step → Option (List Step)} {edge node : Datum} {i : Nat}
    (hd : DistinctKeys edge) (hn : edge.get? "node" = some node) (hnil : f [] = none)
    (hnode : ∀ path, f (.key "node" :: path) = (newPath node path).map (.index i :: ·))
    (hbesides : ∀ key, key ≠ "node" → ∀ path, f (.key key :: path) = none) :
    (places edge).filterMap (relocate f) =
      below (.index i) ((places node).filterMap (relocate (newPath node))) := by
  cases edge with
  | record es =>
    have hl : es.lookup "node" = some node := hn
    have hrest : ∀ e : String × Datum, e.1 ≠ "node" →
        (below (.key e.1) (places e.2)).filterMap (relocate f) = [] :=
      fun e he => filterMap_below_of_none (hbesides e.1 he) _
    rw [places_record, filterMap_relocate_dropped hnil, List.filterMap_flatMap,
      flatMap_of_lookup hd.entries hl hrest]
    exact filterMap_below hnode _
  | _ => cases hn

mutual

/-- The places after a pass are those from before that have a new path, in the same order. -/
theorem places_collapse {t : Datum} (h : DistinctKeys t) :
    places (collapse t) = (places t).filterMap (relocate (newPath t)) := by
  cases t with
  | list elements =>
    rw [collapse, collapseAll_eq_map, places_list_map, places_list,
      filterMap_relocate_kept (newPath_nil _), List.filterMap_flatMap]
    refine congrArg _ (List.flatMap_congr fun e he => ?_)
    have hget := List.mk_mem_zipIdx_iff_getElem?.1 he
    have hmem := List.mem_of_getElem? hget
    rw [filterMap_below (newPath_element hget), places_collapse (h.element hmem)]
  | record entries =>
    rw [collapse, collapseEntries_eq_map, places_record_map, places_record,
      filterMap_relocate_kept (newPath_nil _), List.filterMap_flatMap]
    refine congrArg _ (List.flatMap_congr fun e he => ?_)
    rw [filterMap_below (newPath_entry (h.lookup he)), places_collapseEntry (h.entry he)]
  | _ => simp [collapse, places, relocate]
termination_by 2 * sizeOf t
decreasing_by
  · have := List.sizeOf_lt_of_mem hmem
    subst_vars
    simp only [Datum.list.sizeOf_spec]
    omega
  · have := sizeOf_snd_lt he
    subst_vars
    simp only [Datum.record.sizeOf_spec]
    omega

theorem places_collapseEntry {d : Datum} (h : DistinctKeys d) :
    places (collapseEntry d) = (places d).filterMap (relocate (newEntryPath d)) := by
  cases hn : nodes? d with
  | none =>
    rw [collapseEntry_of_none hn, newEntryPath_of_not (nodes?_eq_none_iff.1 hn), places_collapse h]
  | some nodes =>
    have hw := isWrapper_of_nodes hn
    have hat := nodeAt?_of_nodes hn
    obtain ⟨edges, rfl, hedges⟩ := nodes?_eq_some_iff.1 hn
    obtain rfl := (edgeNodes_eq_some_iff.1 hedges).2
    -- The record of the wrapper is dropped, and the list of its edges comes to where it was.
    rw [collapseEntry_of_nodes hn, collapseAll_eq_map, List.map_map, places_list_map,
      places_wrapper, filterMap_relocate_dropped (newEntryPath_wrapper hw),
      filterMap_relocate_kept (newEntryPath_edges hw), List.filterMap_flatMap]
    refine congrArg _ (List.flatMap_congr fun e he => ?_)
    have hget := List.mk_mem_zipIdx_iff_getElem?.1 he
    obtain ⟨hown, hnode⟩ := node_of_edge hedges hget
    have hedge : DistinctKeys e.1 :=
      (h.entry (List.mem_singleton_self _)).element (List.mem_of_getElem? hget)
    rw [filterMap_below_eq, filterMap_below_eq, Function.comp_apply,
      places_collapse (hedge.get? hown)]
    exact (filterMap_places_edge hedge hown (newEntryPath_edge hw _)
      (newEntryPath_node hw ((hat _).trans hnode))
      fun key hk => newEntryPath_besides hw hk _).symm
termination_by 2 * sizeOf d + 1
decreasing_by
  · omega
  · have := List.sizeOf_lt_of_mem (List.mem_of_getElem? hnode)
    have := sizeOf_nodes_lt hn
    subst_vars
    omega

end

end GraphQuery.Connection
