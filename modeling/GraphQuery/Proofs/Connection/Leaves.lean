import GraphQuery.Proofs.Connection.Places

/-! The leaves of a response and the keys of its records under a pass. Nothing is left out but the
wrappers that the pass comes to as entries, their edges, and what the edges have beside nodes. -/
namespace GraphQuery.Connection

/-! Consumed entries. -/

mutual

/-- The path leads to an entry that holds a wrapper, and a pass comes to it as an entry. -/
inductive Consumed : Datum → List Step → Prop
  | element {elements : List Datum} {i : Nat} {d : Datum} {path : List Step}
    (hd : elements[i]? = some d) (h : Consumed d path) :
    Consumed (.list elements) (.index i :: path)
  | entry {entries : List (String × Datum)} {key : String} {d : Datum} {path : List Step}
    (hd : entries.lookup key = some d) (h : ConsumedFromEntry d path) :
    Consumed (.record entries) (.key key :: path)

/-- The same from the value of an entry on. From a wrapper a pass goes on to the nodes, which it
does not take for entries. -/
inductive ConsumedFromEntry : Datum → List Step → Prop
  | wrapper {d : Datum} (hw : IsWrapper d) : ConsumedFromEntry d []
  | node {d : Datum} (hw : IsWrapper d) {i : Nat} {node : Datum} (hi : nodeAt? d i = some node)
    {path : List Step} (h : Consumed node path) :
    ConsumedFromEntry d (.key "edges" :: .index i :: .key "node" :: path)
  | other {d : Datum} (hw : ¬IsWrapper d) {path : List Step} (h : Consumed d path) :
    ConsumedFromEntry d path

end

/-- Ways on from a consumed entry to what is not kept: the wrapper, an edge, and all that an edge
has under keys other than that of its node. -/
inductive Lost : List Step → Prop
  | wrapper : Lost []
  | edge (i : Nat) : Lost [.key "edges", .index i]
  | besides (i : Nat) {key : String} (hk : key ≠ "node") (path : List Step) :
    Lost (.key "edges" :: .index i :: .key key :: path)

def LeftOut (t : Datum) (path : List Step) : Prop :=
  ∃ c rest, Consumed t c ∧ Lost rest ∧ path = c ++ rest

def LeftOutFromEntry (d : Datum) (path : List Step) : Prop :=
  ∃ c rest, ConsumedFromEntry d c ∧ Lost rest ∧ path = c ++ rest

theorem not_leftOut_nil (t : Datum) : ¬LeftOut t [] := by
  rintro ⟨c, rest, hc, -, h⟩
  cases hc <;> cases h

theorem leftOut_element {elements : List Datum} {i : Nat} {d : Datum} (h : elements[i]? = some d)
    (path : List Step) : LeftOut (.list elements) (.index i :: path) ↔ LeftOut d path := by
  constructor
  · rintro ⟨c, rest, hc, hrest, hp⟩
    cases hc with
    | element hd hc =>
      cases hp
      obtain rfl := Option.some.inj (h.symm.trans hd)
      exact ⟨_, rest, hc, hrest, rfl⟩
  · rintro ⟨c, rest, hc, hrest, rfl⟩
    exact ⟨_, rest, .element h hc, hrest, rfl⟩

theorem leftOut_entry {entries : List (String × Datum)} {key : String} {d : Datum}
    (h : entries.lookup key = some d) (path : List Step) :
    LeftOut (.record entries) (.key key :: path) ↔ LeftOutFromEntry d path := by
  constructor
  · rintro ⟨c, rest, hc, hrest, hp⟩
    cases hc with
    | entry hd hc =>
      cases hp
      obtain rfl := Option.some.inj (h.symm.trans hd)
      exact ⟨_, rest, hc, hrest, rfl⟩
  · rintro ⟨c, rest, hc, hrest, rfl⟩
    exact ⟨_, rest, .entry h hc, hrest, rfl⟩

theorem leftOutFromEntry_of_not {d : Datum} (h : ¬IsWrapper d) (path : List Step) :
    LeftOutFromEntry d path ↔ LeftOut d path := by
  constructor
  · rintro ⟨c, rest, hc, hrest, hp⟩
    cases hc with
    | wrapper hw => exact absurd hw h
    | node hw => exact absurd hw h
    | other _ hc => exact ⟨c, rest, hc, hrest, hp⟩
  · rintro ⟨c, rest, hc, hrest, hp⟩
    exact ⟨c, rest, .other h hc, hrest, hp⟩

section
variable {d : Datum} (h : IsWrapper d)
include h

theorem leftOutFromEntry_of_lost {path : List Step} (hp : Lost path) : LeftOutFromEntry d path :=
  ⟨[], path, .wrapper h, hp, rfl⟩

theorem not_leftOutFromEntry_edges : ¬LeftOutFromEntry d [.key "edges"] := by
  rintro ⟨c, rest, hc, hrest, hp⟩
  cases hc with
  | wrapper => cases hp; cases hrest
  | node => cases hp
  | other hw => exact hw h

theorem leftOutFromEntry_node {i : Nat} {node : Datum} (hi : nodeAt? d i = some node)
    (path : List Step) :
    LeftOutFromEntry d (.key "edges" :: .index i :: .key "node" :: path) ↔
      LeftOut node path := by
  constructor
  · rintro ⟨c, rest, hc, hrest, hp⟩
    cases hc with
    | wrapper =>
      cases hp
      cases hrest with
      | besides _ hk => exact absurd rfl hk
    | node _ hi' hc =>
      cases hp
      obtain rfl := Option.some.inj (hi.symm.trans hi')
      exact ⟨_, rest, hc, hrest, rfl⟩
    | other hw => exact absurd h hw
  · rintro ⟨c, rest, hc, hrest, rfl⟩
    exact ⟨_, rest, .node h hi hc, hrest, rfl⟩

end

theorem mem_below {α : Type} {s : Step} {ps : List (List Step × α)} {path : List Step} {a : α} :
    (path, a) ∈ below s ps ↔ ∃ rest, (rest, a) ∈ ps ∧ path = s :: rest := by
  simp [below, eq_comm]

theorem mem_places_list {elements : List Datum} {path : List Step} {f : Face}
    (h : (path, f) ∈ places (.list elements)) :
    path = [] ∨ ∃ i d rest, elements[i]? = some d ∧ (rest, f) ∈ places d ∧
      path = .index i :: rest := by
  rw [places_list, List.mem_cons, List.mem_flatMap] at h
  rcases h with h | ⟨e, he, h⟩
  · cases h
    exact .inl rfl
  · obtain ⟨rest, hrest, rfl⟩ := mem_below.1 h
    exact .inr ⟨e.2, e.1, rest, List.mk_mem_zipIdx_iff_getElem?.1 he, hrest, rfl⟩

theorem mem_places_record {entries : List (String × Datum)} {path : List Step} {f : Face}
    (h : (path, f) ∈ places (.record entries)) :
    path = [] ∨ ∃ e ∈ entries, ∃ rest, (rest, f) ∈ places e.2 ∧ path = .key e.1 :: rest := by
  rw [places_record, List.mem_cons, List.mem_flatMap] at h
  rcases h with h | ⟨e, he, h⟩
  · cases h
    exact .inl rfl
  · obtain ⟨rest, hrest, rfl⟩ := mem_below.1 h
    exact .inr ⟨e, he, rest, hrest, rfl⟩

/-! What has no path after a pass. -/

mutual

theorem newPath_eq_none_iff {t : Datum} (h : DistinctKeys t) {path : List Step} {f : Face}
    (hp : (path, f) ∈ places t) : newPath t path = none ↔ LeftOut t path := by
  cases t with
  | list elements =>
    rcases mem_places_list hp with rfl | ⟨i, d, rest, hd, hrest, rfl⟩
    · simp [not_leftOut_nil]
    · rw [newPath_element hd, Option.map_eq_none_iff, leftOut_element hd]
      exact newPath_eq_none_iff (h.element (List.mem_of_getElem? hd)) hrest
  | record entries =>
    rcases mem_places_record hp with rfl | ⟨e, he, rest, hrest, rfl⟩
    · simp [not_leftOut_nil]
    · rw [newPath_entry (h.lookup he), Option.map_eq_none_iff, leftOut_entry (h.lookup he)]
      exact newEntryPath_eq_none_iff (h.entry he) hrest
  | _ =>
    obtain ⟨rfl, -⟩ := Prod.mk.inj (List.mem_singleton.1 hp)
    simp [not_leftOut_nil]
termination_by 2 * path.length

theorem newEntryPath_eq_none_iff {d : Datum} (h : DistinctKeys d) {path : List Step} {f : Face}
    (hp : (path, f) ∈ places d) : newEntryPath d path = none ↔ LeftOutFromEntry d path := by
  cases hn : nodes? d with
  | none =>
    have hw := nodes?_eq_none_iff.1 hn
    rw [newEntryPath_of_not hw, leftOutFromEntry_of_not hw]
    exact newPath_eq_none_iff h hp
  | some nodes =>
    have hw := isWrapper_of_nodes hn
    have hat := nodeAt?_of_nodes hn
    obtain ⟨edges, rfl, hedges⟩ := nodes?_eq_some_iff.1 hn
    rcases mem_places_record hp with rfl | ⟨e, he, rest, hrest, rfl⟩
    · simp [newEntryPath_wrapper hw, leftOutFromEntry_of_lost hw .wrapper]
    obtain rfl := List.mem_singleton.1 he
    rcases mem_places_list hrest with rfl | ⟨i, edge, rest, hi, hrest, rfl⟩
    · simp [newEntryPath_edges hw, not_leftOutFromEntry_edges hw]
    obtain ⟨hown, hnode⟩ := node_of_edge hedges hi
    replace hnode := (hat i).trans hnode
    have hedge : DistinctKeys edge := (h.entry he).element (List.mem_of_getElem? hi)
    cases edge with
    | record entries =>
      rcases mem_places_record hrest with rfl | ⟨⟨key, v⟩, hv, rest, hbelow, rfl⟩
      · simp [newEntryPath_edge hw, leftOutFromEntry_of_lost hw (.edge i)]
      by_cases hk : key = "node"
      · subst hk
        obtain rfl := Option.some.inj (hown.symm.trans (hedge.lookup hv))
        rw [newEntryPath_node hw hnode, Option.map_eq_none_iff, leftOutFromEntry_node hw hnode]
        exact newPath_eq_none_iff (hedge.entry hv) hbelow
      · simp [newEntryPath_besides hw hk, leftOutFromEntry_of_lost hw (.besides i hk rest)]
    | _ => cases hown
termination_by 2 * path.length + 1

end

/-- The values with nothing below them in a response, each with its path, in order. -/
def leaves (t : Datum) : List (List Step × Datum) :=
  (places t).filterMap fun p => p.2.leaf?.map (p.1, ·)

/-- The keys of all records in a response, each list with the path of the record, in order. -/
def recordKeys (t : Datum) : List (List Step × List String) :=
  (places t).filterMap fun p => p.2.keys?.map (p.1, ·)

/-- What is seen at places does not depend on where they are. -/
theorem filterMap_relocate_comm {α β : Type} (f : List Step → Option (List Step)) (g : α → Option β)
    (ps : List (List Step × α)) :
    (ps.filterMap (relocate f)).filterMap (fun p => (g p.2).map (p.1, ·)) =
      (ps.filterMap fun p => (g p.2).map (p.1, ·)).filterMap (relocate f) := by
  rw [List.filterMap_filterMap, List.filterMap_filterMap]
  refine List.filterMap_congr fun p _ => ?_
  obtain ⟨path, a⟩ := p
  rw [relocate]
  cases hf : f path <;> cases hg : g a <;> simp [relocate, hf, hg]

/-- The leaves after a pass are those from before, in the same order and at their new paths, but
for those that are left out, and the records likewise, each with its keys in the same order. Left
out are the wrappers that the pass comes to as entries, their edges, and what stands in an edge
under a key other than that of the node. -/
theorem leaves_collapse {t : Datum} (h : DistinctKeys t) :
    leaves (collapse t) = (leaves t).filterMap (relocate (newPath t)) ∧
      recordKeys (collapse t) = (recordKeys t).filterMap (relocate (newPath t)) ∧
      ∀ path face, (path, face) ∈ places t → (newPath t path = none ↔ LeftOut t path) := by
  refine ⟨?_, ?_, fun path face hp => newPath_eq_none_iff h hp⟩
  · rw [leaves, places_collapse h, filterMap_relocate_comm, ← leaves]
  · rw [recordKeys, places_collapse h, filterMap_relocate_comm, ← recordKeys]

/-- A repository with a wrapper around no nodes. -/
def starredRepository : Datum :=
  .record [("__proto__", .string "a"), ("issues", .record [("edges", .list [])])]

/-- A wrapper around that repository and an empty record. -/
def starredEdges : Datum :=
  .record [("edges", .list [
    .record [("cursor", .string "c1"), ("node", starredRepository)],
    .record [("node", .record []), ("cursor", .string "c2")]])]

def starredRepositories : Datum := .record [("starred", starredEdges)]

theorem distinctKeys_starredRepositories : DistinctKeys starredRepositories := by
  have hstring (s : String) : DistinctKeys (.string s) := allRecords_atom rfl
  simp only [DistinctKeys] at hstring
  simp [DistinctKeys, starredRepositories, starredEdges, starredRepository, allRecords_record,
    allRecords_list, hstring]

theorem leaves_collapse_starredRepositories :
    DistinctKeys starredRepositories ∧
      leaves (collapse starredRepositories) =
        [([.key "starred", .index 0, .key "__proto__"], .string "a"),
          ([.key "starred", .index 0, .key "issues"], .list []),
          ([.key "starred", .index 1], .record [])] ∧
      recordKeys (collapse starredRepositories) =
        [([], ["starred"]), ([.key "starred", .index 0], ["__proto__", "issues"]),
          ([.key "starred", .index 1], [])] ∧
      LeftOut starredRepositories [.key "starred", .key "edges", .index 1, .key "cursor"] := by
  obtain ⟨hleaves, hkeys, hleft⟩ := leaves_collapse distinctKeys_starredRepositories
  have hl : leaves starredRepositories =
      [([.key "starred", .key "edges", .index 0, .key "cursor"], .string "c1"),
        ([.key "starred", .key "edges", .index 0, .key "node", .key "__proto__"], .string "a"),
        ([.key "starred", .key "edges", .index 0, .key "node", .key "issues", .key "edges"],
          .list []),
        ([.key "starred", .key "edges", .index 1, .key "node"], .record []),
        ([.key "starred", .key "edges", .index 1, .key "cursor"], .string "c2")] := rfl
  have hk : recordKeys starredRepositories =
      [([], ["starred"]), ([.key "starred"], ["edges"]),
        ([.key "starred", .key "edges", .index 0], ["cursor", "node"]),
        ([.key "starred", .key "edges", .index 0, .key "node"], ["__proto__", "issues"]),
        ([.key "starred", .key "edges", .index 0, .key "node", .key "issues"], ["edges"]),
        ([.key "starred", .key "edges", .index 1], ["node", "cursor"]),
        ([.key "starred", .key "edges", .index 1, .key "node"], [])] := rfl
  have hplace : ([.key "starred", .key "edges", .index 1, .key "cursor"],
      Face.atom (.string "c2")) ∈ places starredRepositories := by
    simp [starredRepositories, starredEdges, places, entryPlaces, elementPlaces, below]
  have hedges : IsWrapper starredEdges := isWrapper_of_nodes rfl
  have hissues : IsWrapper (.record [("edges", .list [])]) := isWrapper_of_nodes rfl
  have hatom : ¬IsWrapper (.string "a") := nodes?_eq_none_iff.1 rfl
  have hstarred (path : List Step) : newPath starredRepositories (.key "starred" :: path) =
      (newEntryPath starredEdges path).map (.key "starred" :: ·) := newPath_entry rfl path
  have hfirst := @newEntryPath_node _ hedges 0 starredRepository rfl
  have hsecond := @newEntryPath_node _ hedges 1 (.record []) rfl
  have hproto : newPath starredRepository [.key "__proto__"] = some [.key "__proto__"] := by
    rw [starredRepository, newPath_entry rfl, newEntryPath_of_not hatom, newPath_nil]
    rfl
  have hbelow (path : List Step) : newPath starredRepository (.key "issues" :: path) =
      (newEntryPath (.record [("edges", .list [])]) path).map (.key "issues" :: ·) :=
    newPath_entry rfl path
  refine ⟨distinctKeys_starredRepositories, ?_, ?_, (hleft _ _ hplace).1 ?_⟩
  · rw [hleaves, hl]
    simp [relocate, hstarred, hfirst, hsecond, hproto, hbelow,
      newEntryPath_besides hedges, newEntryPath_edges hissues]
  · rw [hkeys, hk]
    simp [relocate, hstarred, hfirst, hsecond, hbelow,
      newEntryPath_wrapper hedges, newEntryPath_edge hedges, newEntryPath_wrapper hissues]
  · simp [hstarred, newEntryPath_besides hedges]

end GraphQuery.Connection
