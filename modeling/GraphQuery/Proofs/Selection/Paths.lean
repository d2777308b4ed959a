import Mathlib.Data.List.Forall2
import GraphQuery.Proofs.Graph.RecordForm
import GraphQuery.Proofs.Selection.Request
import GraphQuery.Selection.Graph

/-! What a graph keeps of a request when nothing is to be left out: under each response key the
first field that was requested, and what was requested below that. All of the request is kept
exactly if no later field under the same key asks for more. -/
namespace GraphQuery.Graph

def Identifier.responseKey : Identifier → String
  | .aliased _ aliasName => aliasName
  | i => i.text

/-- The response keys on the way down through nodes. -/
inductive Reaches : List Node → List String → Prop
  | nil (ns : List Node) : Reaches ns []
  | cons {ns : List Node} {n : Node} {path : List String} (hn : n ∈ ns)
    (h : Reaches n.children path) : Reaches ns (n.identifier.responseKey :: path)

theorem reaches_cons_iff {ns : List Node} {key : String} {path : List String} :
    Reaches ns (key :: path) ↔
      ∃ n ∈ ns, n.identifier.responseKey = key ∧ Reaches n.children path := by
  constructor
  · intro h
    cases h with
    | cons hn h => exact ⟨_, hn, rfl, h⟩
  · rintro ⟨n, hn, rfl, h⟩
    exact .cons hn h

theorem reaches_nil_iff {path : List String} : Reaches [] path ↔ path = [] := by
  cases path with
  | nil => exact ⟨fun _ => rfl, fun _ => .nil []⟩
  | cons key path => simp [reaches_cons_iff]

end GraphQuery.Graph

namespace GraphQuery.Selection

open GraphQuery.Graph

/-- The options leave out nothing of a request. -/
structure LeavesOutNothing (options tree : Datum) : Prop where
  excluded : (Keep.ofOptions options).excluded = .list []
  typenames : (Keep.ofOptions options).typenames = true
  levels : ∀ path, Requests tree path → (Keep.ofOptions options).keepsLevel path.length = true

theorem IsRequestTree.exists_identifier {d : Datum} (h : IsRequestTree d) :
    ∃ i : Identifier, headOf d = i.toDatum ∧ i.responseKey = treeKey d := by
  cases h with
  | @intro _ name aliasName _ hname hn halias ha _ _ _ _ =>
    rw [treeKey_eq hname halias]
    have hh : headOf d = if aliasName = name then Form.string (.string name)
        else Form.aliased (.string name) (.string aliasName) := by
      simp only [headOf, hname, halias]
      simp [Datum.isFalsy, Datum.isSame, ha]
    by_cases he : aliasName = name
    · exact ⟨.string name, by rw [hh, if_pos he]; rfl, he.symm⟩
    · exact ⟨.aliased name aliasName, by rw [hh, if_neg he]; rfl, rfl⟩

/-! Which trees survive: the first under each key. -/

theorem entriesBelow?_record {d : Datum} {types : List (String × Datum)}
    (htypes : d.get? "fieldsByTypeName" = some (.record types))
    (h : ∀ t ∈ types, ∃ fields, t.2 = .record fields) :
    entriesBelow? (.record types) = some (fieldsBelow d) := by
  have hm : (Datum.record types).members? = some types := rfl
  have hfields : types.mapM (fun t => t.2.members?) =
      some (types.map fun t => (t.2.entries?).getD []) := by
    refine mapM_eq_some_map fun t ht => ?_
    obtain ⟨fields, hf⟩ := h t ht
    rw [hf]
    rfl
  rw [entriesBelow?, hm, fieldsBelow, Datum.get, htypes]
  simp only [Option.bind_eq_bind, Option.bind_some, hfields]
  rfl

theorem IsFieldTree.survivorsBelow?_eq {d : Datum} (h : IsFieldTree d) (k : Keep) :
    survivorsBelow? k (d.get "fieldsByTypeName") = survivors? k [] (fieldsBelow d) := by
  cases h with
  | @intro _ _ types _ htypes hfields _ =>
    have hget : d.get "fieldsByTypeName" = .record types := by rw [Datum.get, htypes]; rfl
    rw [hget, survivorsBelow?, entriesBelow?_record htypes hfields]
    rfl

section
variable {k : Keep}

theorem keepsName?_eq (hx : k.excluded = .list []) (ht : k.typenames = true) (d : Datum) :
    k.keepsName? d = some true := by
  rw [Keep.keepsName?, if_neg (by simp [ht]), Keep.excludes?, hx]
  rfl

theorem exists_survivors (hk : ∀ d : Datum, k.keepsName? d = some true) {es : List (String × Datum)}
    (hes : ∀ e ∈ es, e.2.isNothing = false) (seen : List String) :
    ∃ ds, survivors? k seen es = some ds ∧
      ∀ d, d ∈ ds ↔ ∃ key, key ∉ seen ∧ es.lookup key = some d := by
  induction es generalizing seen with
  | nil => exact ⟨[], rfl, by simp⟩
  | cons e es ih =>
    obtain ⟨key, d⟩ := e
    have hes' : ∀ e ∈ es, e.2.isNothing = false := fun e he => hes e (List.mem_cons_of_mem _ he)
    by_cases hs : key ∈ seen
    · obtain ⟨ds, hds, hiff⟩ := ih hes' seen
      refine ⟨ds, by rw [survivors?, if_pos hs, hds], fun x => ?_⟩
      rw [hiff]
      refine exists_congr fun l => and_congr_right fun hl => ?_
      have hne : l ≠ key := fun h => hl (h ▸ hs)
      rw [Keyed.lookup_cons_of_ne hne]
    · obtain ⟨ds, hds, hiff⟩ := ih hes' (key :: seen)
      refine ⟨d :: ds, ?_, fun x => ?_⟩
      · rw [survivors?, if_neg hs, if_neg (by simp [hes (key, d) (by simp)]), hk, hds]
        rfl
      · rw [List.mem_cons, hiff]
        constructor
        · rintro (rfl | ⟨l, hl, hx⟩)
          · exact ⟨key, hs, by simp⟩
          · rw [List.mem_cons, not_or] at hl
            exact ⟨l, hl.2, by rw [Keyed.lookup_cons_of_ne hl.1, hx]⟩
        · rintro ⟨l, hl, hx⟩
          by_cases he : l = key
          · subst he
            rw [List.lookup_cons, beq_self_eq_true] at hx
            exact Or.inl (Option.some.inj hx).symm
          · rw [Keyed.lookup_cons_of_ne he] at hx
            exact Or.inr ⟨l, by simp [he, hl], hx⟩

theorem IsRequestTree.exists_survivorsBelow {d : Datum} (h : IsRequestTree d)
    (hk : ∀ d : Datum, k.keepsName? d = some true) :
    ∃ ds, survivorsBelow? k (d.get "fieldsByTypeName") = some ds ∧
      ∀ f, f ∈ ds ↔ ∃ key, (fieldsBelow d).lookup key = some f := by
  have hthere : ∀ e ∈ fieldsBelow d, e.2.isNothing = false := fun e he =>
    (h.of_mem he).fieldTree.isNothing_eq
  obtain ⟨ds, hds, hmem⟩ := exists_survivors hk hthere []
  exact ⟨ds, h.fieldTree.survivorsBelow?_eq k ▸ hds, fun f => by simp [hmem]⟩

end

/-! The graph of a request. -/

/-- A node that stands for a requested field with what is first below it. -/
structure StandsFor (d : Datum) (n : Node) : Prop where
  key : n.identifier.responseKey = treeKey d
  below : ∀ path, Reaches n.children path ↔ RequestsFirst d path

section
variable {k : Keep} {level : Nat}

def below? (k : Keep) (level : Nat) (d : Datum) : Option (List Datum) :=
  match d.get? "fieldsByTypeName" with
  | some types => children? k (level + 1) types
  | none => if k.keepsLevel (level + 1) then none else some []

theorem nodes?_cons_eq (d : Datum) (ds : List Datum) :
    nodes? k level (d :: ds) = (below? k level d).bind fun below =>
      (nodes? k level ds).map
        (Form.node (headOf d) (Form.metadata none none none) below :: ·) := by
  rw [nodes?, below?]
  generalize d.get? "fieldsByTypeName" = types
  cases types with
  | none =>
    simp only
    cases k.keepsLevel (level + 1) <;> cases nodes? k level ds <;> rfl
  | some types =>
    simp only
    cases children? k (level + 1) types <;> cases nodes? k level ds <;> rfl

theorem nodes?_cons {d types : Datum} {rest : List Datum}
    (htypes : d.get? "fieldsByTypeName" = some types) {i : Identifier} (hi : headOf d = i.toDatum)
    {below nodes : List Node} (hb : children? k (level + 1) types = some (nodeData below))
    (hn : nodes? k level rest = some (nodeData nodes)) :
    nodes? k level (d :: rest) = some (nodeData (.plain i below :: nodes)) := by
  have hbelow : below? k level d = some (nodeData below) := by
    rw [below?, htypes]
    exact hb
  rw [nodes?_cons_eq, hbelow, hn, hi]
  rfl

theorem exists_nodes {ds : List Datum} (h : ∀ d ∈ ds, IsRequestTree d ∧
      ∃ ns, children? k (level + 1) (d.get "fieldsByTypeName") = some (nodeData ns) ∧
        ∀ path, Reaches ns path ↔ RequestsFirst d path) :
    ∃ ns, nodes? k level ds = some (nodeData ns) ∧ List.Forall₂ StandsFor ds ns := by
  induction ds with
  | nil => exact ⟨[], by rw [nodes?, nodeData], .nil⟩
  | cons d ds ih =>
    obtain ⟨hd, below, hb, hp⟩ := h d (by simp)
    obtain ⟨ns, hns, hall⟩ := ih fun d hd => h d (List.mem_cons_of_mem _ hd)
    obtain ⟨i, hi, hk⟩ := hd.exists_identifier
    obtain ⟨types, htypes, hget⟩ := hd.fieldTree.exists_types
    rw [hget] at hb
    exact ⟨_, nodes?_cons htypes hi hb hns, .cons ⟨hk, hp⟩ hall⟩

theorem exists_mem_of_standsFor {ds : List Datum} {ns : List Node}
    (h : List.Forall₂ StandsFor ds ns) {key : String} {path : List String} :
    (∃ n ∈ ns, n.identifier.responseKey = key ∧ Reaches n.children path) ↔
      ∃ d ∈ ds, treeKey d = key ∧ RequestsFirst d path := by
  induction h with
  | nil => simp
  | cons hn _ ih => simp [ih, hn.key, hn.below]

/-- Nodes for the first field under each key reach what is first. -/
theorem IsRequestTree.reaches_iff {d : Datum} (h : IsRequestTree d) {ds : List Datum}
    {ns : List Node} (hds : ∀ f, f ∈ ds ↔ ∃ key, (fieldsBelow d).lookup key = some f)
    (hns : List.Forall₂ StandsFor ds ns) (path : List String) :
    Reaches ns path ↔ RequestsFirst d path := by
  cases path with
  | nil => exact ⟨fun _ => .nil d, fun _ => .nil ns⟩
  | cons key path =>
    rw [reaches_cons_iff, requestsFirst_cons_iff, exists_mem_of_standsFor hns]
    constructor
    · rintro ⟨f, hf, hkey, hpath⟩
      obtain ⟨key', hlookup⟩ := (hds f).1 hf
      rw [← hkey, h.treeKey_of_mem (Keyed.mem_of_lookup hlookup)]
      exact ⟨f, hlookup, hpath⟩
    · rintro ⟨f, hlookup, hpath⟩
      have hkey := h.treeKey_of_mem (Keyed.mem_of_lookup hlookup)
      exact ⟨f, (hds f).2 ⟨key, hlookup⟩, hkey, hpath⟩

theorem children?_of_survivors {types : Datum} {ds : List Datum} (hl : k.keepsLevel level = true)
    (hs : survivorsBelow? k types = some ds) : children? k level types = nodes? k level ds := by
  rw [children?, if_pos hl]
  split
  · next h =>
    rw [hs] at h
    cases h
    rfl
  · next h =>
    rw [hs] at h
    cases h

/-- If nothing is left out, the nodes below a requested field reach what is first below it. -/
theorem IsRequestTree.exists_children {d : Datum} (h : IsRequestTree d)
    (hx : k.excluded = .list []) (ht : k.typenames = true)
    (hl : ∀ path, Requests d path → k.keepsLevel (level + path.length) = true) :
    ∃ ns, children? k (level + 1) (d.get "fieldsByTypeName") = some (nodeData ns) ∧
      ∀ path, Reaches ns path ↔ RequestsFirst d path := by
  induction h generalizing level with
  | @intro d name aliasName types hname hn halias ha htypes hfields hkeys hbelow ih =>
    have hd : IsRequestTree d := .intro hname hn halias ha htypes hfields hkeys hbelow
    by_cases hlevel : k.keepsLevel (level + 1) = true
    · obtain ⟨ds, hds, hmem⟩ := hd.exists_survivorsBelow (keepsName?_eq hx ht)
      have hnodes : ∀ f ∈ ds, IsRequestTree f ∧
          ∃ ns, children? k (level + 1 + 1) (f.get "fieldsByTypeName") = some (nodeData ns) ∧
            ∀ path, Reaches ns path ↔ RequestsFirst f path := by
        intro f hf
        obtain ⟨key, hlookup⟩ := (hmem f).1 hf
        have hm := Keyed.mem_of_lookup hlookup
        refine ⟨hd.of_mem hm, ih key f hm fun path hpath => ?_⟩
        have hlonger := hl (key :: path) (hd.requests_cons_iff.2 ⟨f, hm, hpath⟩)
        rwa [List.length_cons, Nat.add_comm path.length, ← Nat.add_assoc] at hlonger
      obtain ⟨ns, hns, hall⟩ := exists_nodes hnodes
      exact ⟨ns, (children?_of_survivors hlevel hds).trans hns, hd.reaches_iff hmem hall⟩
    -- At a level that is cut off nothing is requested, or a way down would lead there.
    · have hnone : fieldsBelow d = [] := by
        refine List.eq_nil_iff_forall_not_mem.2 fun e he => hlevel ?_
        exact hl [e.1] (hd.requests_cons_iff.2 ⟨e.2, he, .nil e.2⟩)
      refine ⟨[], by rw [children?, if_neg hlevel, nodeData], fun path => ?_⟩
      rw [reaches_nil_iff, requestsFirst_iff_of_fieldsBelow_eq_nil hnone]

end

theorem graphFor_of_children {options tree : Datum} {arguments : Option (List Datum)}
    {ns : List Datum} (htree : isTree tree = true)
    (hargs : givenArguments options = .ok arguments)
    (hns : children? (.ofOptions options) 1 (tree.get "fieldsByTypeName") = some ns) :
    graphFor options tree =
      .ok (some (Form.node (headOf tree) (Form.metadata none arguments none) ns)) := by
  have hgraph : graphOf? (.ofOptions options) arguments tree =
      some (Form.node (headOf tree) (Form.metadata none arguments none) ns) := by
    rw [graphOf?, hns]
    rfl
  rw [graphFor, if_pos htree, hargs]
  simp only [mapError_ok, bind, Except.bind, hgraph]
  rfl

/-- If nothing is left out of a request, its graph reaches what is first under its response keys;
that is all of the request exactly if the first fields cover the others. -/
theorem graphFor_reaches_iff {options tree : Datum} {arguments : Option (List Datum)}
    (htree : IsRequestTree tree) (hoptions : LeavesOutNothing options tree)
    (hargs : givenArguments options = .ok arguments) :
    ∃ ns, graphFor options tree = .ok (some
        (Form.node (headOf tree) (Form.metadata none arguments none) (nodeData ns))) ∧
      (∀ path, Reaches ns path ↔ RequestsFirst tree path) ∧
      ((∀ path, Reaches ns path ↔ Requests tree path) ↔ FirstCovers tree) := by
  have hlevels : ∀ path, Requests tree path →
      (Keep.ofOptions options).keepsLevel (0 + path.length) = true := by
    intro path hpath
    rw [Nat.zero_add]
    exact hoptions.levels path hpath
  obtain ⟨ns, hns, hreach⟩ :=
    htree.exists_children hoptions.excluded hoptions.typenames hlevels
  refine ⟨ns, graphFor_of_children htree.isTree_eq hargs hns, hreach, ?_⟩
  rw [← htree.first_iff_covers]
  exact forall_congr' fun path => by rw [hreach]

/-- Options under which the name of the type counts as any other field. -/
def typenameOptions : Datum := .record [("includeTypename", .boolean true)]

theorem leavesOutNothing_of_length_le {tree : Datum}
    (h : ∀ path, Requests tree path → path.length ≤ 10) :
    LeavesOutNothing typenameOptions tree :=
  ⟨rfl, rfl, fun path hp => decide_eq_true (h path hp)⟩

/-- A node of which two types are asked for different fields. -/
def nodeRequest : Request :=
  ⟨"node", "node", [("User", [("id", .leaf "id"), ("login", .leaf "login")]),
    ("Repository", [("id", .leaf "id"), ("name", .leaf "name")])]⟩

theorem fieldsBelow_nodeRequest :
    fieldsBelow nodeRequest.tree = [("id", (Request.leaf "id").tree),
      ("login", (Request.leaf "login").tree), ("id", (Request.leaf "id").tree),
      ("name", (Request.leaf "name").tree)] := by
  rw [fieldsBelow_tree]
  rfl

theorem nodeRequest_kept :
    ∃ ns, graphFor typenameOptions nodeRequest.tree =
        .ok (some (Form.node (headOf nodeRequest.tree) (Form.metadata none none none)
          (nodeData ns))) ∧
      ∀ path, Reaches ns path ↔ Requests nodeRequest.tree path := by
  have htree : IsRequestTree nodeRequest.tree := by
    refine isRequestTree_tree _ (by decide) (by decide) ?_
    simp [fieldsBelow_nodeRequest, get_alias_tree, isRequestTree_leaf]
  have hflat : ∀ e ∈ fieldsBelow nodeRequest.tree, fieldsBelow e.2 = [] := by
    simp [fieldsBelow_nodeRequest]
  have hoptions : LeavesOutNothing typenameOptions nodeRequest.tree :=
    leavesOutNothing_of_length_le fun path hp =>
      Nat.le_trans (length_le_of_flat hflat hp) (by decide)
  obtain ⟨ns, hgraph, -, hiff⟩ := graphFor_reaches_iff htree hoptions rfl
  exact ⟨ns, hgraph, hiff.2 (firstCovers_of_flat hflat)⟩

def authorRequest (field : String) : Request :=
  ⟨"author", "author", [("Actor", [(field, .leaf field)])]⟩

@[simp] theorem author_name (field : String) : (authorRequest field).name = "author" := rfl

@[simp] theorem author_key (field : String) : (authorRequest field).key = "author" := rfl

theorem fieldsBelow_author (field : String) :
    fieldsBelow (authorRequest field).tree = [(field, (Request.leaf field).tree)] := by
  rw [fieldsBelow_tree]
  rfl

theorem isRequestTree_author {field : String} (h : field ≠ "") :
    IsRequestTree (authorRequest field).tree := by
  refine isRequestTree_tree _ (by simp) (by simp) ?_
  simp [fieldsBelow_author, get_alias_tree, isRequestTree_leaf h]

/-- A search whose results, of two types, are asked for different data of their authors. -/
def searchRequest : Request :=
  ⟨"search", "search", [("Issue", [("author", authorRequest "login")]),
    ("PullRequest", [("author", authorRequest "avatarUrl")])]⟩

theorem fieldsBelow_searchRequest :
    fieldsBelow searchRequest.tree = [("author", (authorRequest "login").tree),
      ("author", (authorRequest "avatarUrl").tree)] := by
  rw [fieldsBelow_tree]
  rfl

theorem isRequestTree_searchRequest : IsRequestTree searchRequest.tree := by
  refine isRequestTree_tree _ (by decide) (by decide) ?_
  simp [fieldsBelow_searchRequest, get_alias_tree, isRequestTree_author]

theorem length_le_of_searchRequest {path : List String}
    (hp : Requests searchRequest.tree path) : path.length ≤ 2 := by
  refine length_le_of_below ?_ hp
  simp only [fieldsBelow_searchRequest, List.forall_mem_cons]
  exact ⟨fun path => length_le_of_flat (by simp [fieldsBelow_author]),
    fun path => length_le_of_flat (by simp [fieldsBelow_author]), List.forall_mem_nil _⟩

theorem graphFor_searchRequest :
    graphFor typenameOptions searchRequest.tree =
      .ok (some (Node.plain (.string "search")
        [.plain (.string "author") [.plain (.string "login") []]]).toDatum) := by
  have hleaf : children? (.ofOptions typenameOptions) 3
      ((Request.leaf "login").tree.get "fieldsByTypeName") = some (nodeData []) :=
    (children?_of_survivors rfl rfl).trans (by rw [nodes?, nodeData])
  have hauthor : children? (.ofOptions typenameOptions) 2
      ((authorRequest "login").tree.get "fieldsByTypeName") =
        some (nodeData [.plain (.string "login") []]) :=
    (children?_of_survivors rfl rfl).trans
      (nodes?_cons (get?_types_tree (.leaf "login")) rfl hleaf (by rw [nodes?, nodeData]))
  have hsearch : children? (.ofOptions typenameOptions) 1
      (searchRequest.tree.get "fieldsByTypeName") =
        some (nodeData [.plain (.string "author") [.plain (.string "login") []]]) :=
    (children?_of_survivors rfl rfl).trans
      (nodes?_cons (get?_types_tree (authorRequest "login")) rfl hauthor
        (by rw [nodes?, nodeData]))
  exact graphFor_of_children isRequestTree_searchRequest.isTree_eq rfl hsearch

/-- What the second type asks of its author is lost, although it is the same field. -/
theorem searchRequest_lost :
    IsRequestTree searchRequest.tree ∧
      (∀ e ∈ fieldsBelow searchRequest.tree, e.2.get "name" = .string "author") ∧
      LeavesOutNothing typenameOptions searchRequest.tree ∧
      graphFor typenameOptions searchRequest.tree =
        .ok (some (Node.plain (.string "search")
          [.plain (.string "author") [.plain (.string "login") []]]).toDatum) ∧
      Requests searchRequest.tree ["author", "avatarUrl"] ∧
      ¬ Reaches [.plain (.string "author") [.plain (.string "login") []]]
        ["author", "avatarUrl"] := by
  have hoptions : LeavesOutNothing typenameOptions searchRequest.tree :=
    leavesOutNothing_of_length_le fun path hp =>
      Nat.le_trans (length_le_of_searchRequest hp) (by decide)
  refine ⟨isRequestTree_searchRequest, ?_, hoptions, graphFor_searchRequest, ?_, ?_⟩
  · simp [fieldsBelow_searchRequest, get_name_tree]
  · rw [isRequestTree_searchRequest.requests_cons_iff]
    refine ⟨(authorRequest "avatarUrl").tree, by simp [fieldsBelow_searchRequest], ?_⟩
    rw [(isRequestTree_author (by decide)).requests_cons_iff]
    exact ⟨(Request.leaf "avatarUrl").tree, by simp [fieldsBelow_author], .nil _⟩
  · simp [reaches_cons_iff, Node.plain, Identifier.responseKey, Identifier.text]

end GraphQuery.Selection
