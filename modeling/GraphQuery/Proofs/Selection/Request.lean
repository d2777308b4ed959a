import GraphQuery.Keyed
import GraphQuery.Selection.Request

/-! The ways down in a request: the response keys from a field to one requested below it. Where
types are asked for different fields under one key, the way on depends on which of them is taken,
and the first of them may have all of the ways or not. -/
namespace GraphQuery.Selection

/-- The fields requested below a field, of all types, in order and under their response keys. -/
def fieldsBelow (d : Datum) : List (String × Datum) :=
  (((d.get "fieldsByTypeName").entries?).getD []).flatMap fun t => (t.2.entries?).getD []

/-- The alias of a requested field where it differs from the name, else the name. -/
def treeKey (d : Datum) : String :=
  let name := ((d.get "name").string?).getD ""
  let aliasName := ((d.get "alias").string?).getD ""
  if aliasName = name then name else aliasName

/-- The tree of a requested field: it has a name, and below it, by type and under keys, the trees
of other fields. -/
inductive IsFieldTree : Datum → Prop
  | intro {d : Datum} {name : String} {types : List (String × Datum)}
    (hname : d.get "name" = .string name)
    (htypes : d.get? "fieldsByTypeName" = some (.record types))
    (hfields : ∀ t ∈ types, ∃ fields, t.2 = .record fields)
    (hbelow : ∀ key f, (key, f) ∈ fieldsBelow d → IsFieldTree f) : IsFieldTree d

/-- A tree of a requested field that also has an alias, and below it fields that are each under
their aliases. -/
inductive IsRequestTree : Datum → Prop
  | intro {d : Datum} {name aliasName : String} {types : List (String × Datum)}
    (hname : d.get "name" = .string name) (hn : name ≠ "")
    (halias : d.get "alias" = .string aliasName) (ha : aliasName ≠ "")
    (htypes : d.get? "fieldsByTypeName" = some (.record types))
    (hfields : ∀ t ∈ types, ∃ fields, t.2 = .record fields)
    (hkeys : ∀ key f, (key, f) ∈ fieldsBelow d → f.get "alias" = .string key)
    (hbelow : ∀ key f, (key, f) ∈ fieldsBelow d → IsRequestTree f) : IsRequestTree d

/-- The response keys on the way from a requested field down to one that is requested below it, of
any of the types at each level. -/
inductive Requests : Datum → List String → Prop
  | nil (d : Datum) : Requests d []
  | cons {d f : Datum} {key : String} {path : List String} (hf : (key, f) ∈ fieldsBelow d)
    (h : Requests f path) : Requests d (treeKey f :: path)

/-- The ways down on which each field is the first under its response key. -/
inductive RequestsFirst : Datum → List String → Prop
  | nil (d : Datum) : RequestsFirst d []
  | cons {d f : Datum} {key : String} {path : List String}
    (hf : (fieldsBelow d).lookup key = some f) (h : RequestsFirst f path) :
    RequestsFirst d (key :: path)

/-- Whatever is requested below a field is requested below the first field under the same response
key, and the same holds again of that one. -/
inductive FirstCovers : Datum → Prop
  | intro {d : Datum}
    (hcovers : ∀ key e, (key, e) ∈ fieldsBelow d → ∀ f, (fieldsBelow d).lookup key = some f →
      ∀ path, Requests e path → Requests f path)
    (hbelow : ∀ key f, (fieldsBelow d).lookup key = some f → FirstCovers f) : FirstCovers d

section
variable {d : Datum}

theorem IsFieldTree.exists_name (h : IsFieldTree d) : ∃ name, d.get "name" = .string name := by
  cases h with
  | intro hname _ _ _ => exact ⟨_, hname⟩

theorem IsFieldTree.exists_types (h : IsFieldTree d) :
    ∃ types, d.get? "fieldsByTypeName" = some types ∧ d.get "fieldsByTypeName" = types := by
  cases h with
  | intro _ htypes _ _ => exact ⟨_, htypes, by rw [Datum.get, htypes]; rfl⟩

theorem IsFieldTree.of_mem (h : IsFieldTree d) {key : String} {f : Datum}
    (hf : (key, f) ∈ fieldsBelow d) : IsFieldTree f := by
  cases h with
  | intro _ _ _ hbelow => exact hbelow key f hf

theorem IsFieldTree.isNothing_eq (h : IsFieldTree d) : d.isNothing = false := by
  obtain ⟨name, hname⟩ := h.exists_name
  cases d with
  | record => rfl
  | _ => cases hname

theorem IsFieldTree.isTree_eq (h : IsFieldTree d) : isTree d = true := by
  cases h with
  | @intro _ _ types hname htypes _ _ =>
    have hget : d.get "fieldsByTypeName" = .record types := by rw [Datum.get, htypes]; rfl
    rw [isTree, hname, hget]
    rfl

theorem treeKey_eq {name aliasName : String} (hn : d.get "name" = .string name)
    (ha : d.get "alias" = .string aliasName) : treeKey d = aliasName := by
  have h : treeKey d = if aliasName = name then name else aliasName := by
    rw [treeKey, hn, ha]
    rfl
  rw [h]
  split
  · next he => exact he.symm
  · rfl

theorem IsRequestTree.treeKey_of_mem (h : IsRequestTree d) {key : String} {f : Datum}
    (hf : (key, f) ∈ fieldsBelow d) : treeKey f = key := by
  cases h with
  | intro _ _ _ _ _ _ hkeys hbelow =>
    cases hbelow key f hf with
    | intro hname _ _ _ _ _ _ _ => exact treeKey_eq hname (hkeys key f hf)

theorem IsRequestTree.of_mem (h : IsRequestTree d) {key : String} {f : Datum}
    (hf : (key, f) ∈ fieldsBelow d) : IsRequestTree f := by
  cases h with
  | intro _ _ _ _ _ _ _ hbelow => exact hbelow key f hf

theorem IsRequestTree.fieldTree (h : IsRequestTree d) : IsFieldTree d := by
  induction h with
  | intro hname _ _ _ htypes hfields _ _ ih => exact .intro hname htypes hfields ih

theorem IsRequestTree.isTree_eq (h : IsRequestTree d) : isTree d = true := h.fieldTree.isTree_eq

/-! A way down is a field below and a way down from there. -/

theorem IsRequestTree.requests_cons_iff (h : IsRequestTree d) {key : String} {path : List String} :
    Requests d (key :: path) ↔ ∃ f, (key, f) ∈ fieldsBelow d ∧ Requests f path := by
  constructor
  · intro hp
    cases hp with
    | @cons _ f key _ hf hp =>
      rw [h.treeKey_of_mem hf]
      exact ⟨f, hf, hp⟩
  · rintro ⟨f, hf, hp⟩
    rw [← h.treeKey_of_mem hf]
    exact .cons hf hp

theorem Requests.of_first (h : IsRequestTree d) {path : List String} (hp : RequestsFirst d path) :
    Requests d path := by
  induction hp with
  | nil d => exact .nil d
  | cons hf _ ih =>
    have hm := Keyed.mem_of_lookup hf
    exact h.requests_cons_iff.2 ⟨_, hm, ih (h.of_mem hm)⟩

theorem requestsFirst_cons_iff {key : String} {path : List String} :
    RequestsFirst d (key :: path) ↔
      ∃ f, (fieldsBelow d).lookup key = some f ∧ RequestsFirst f path := by
  constructor
  · intro h
    cases h with
    | cons hf h => exact ⟨_, hf, h⟩
  · rintro ⟨f, hf, h⟩
    exact .cons hf h

theorem requestsFirst_iff_of_fieldsBelow_eq_nil (h : fieldsBelow d = []) {path : List String} :
    RequestsFirst d path ↔ path = [] := by
  cases path with
  | nil => exact ⟨fun _ => rfl, fun _ => .nil d⟩
  | cons key path => simp [requestsFirst_cons_iff, h]

theorem FirstCovers.requestsFirst (hc : FirstCovers d) (h : IsRequestTree d) {path : List String}
    (hp : Requests d path) : RequestsFirst d path := by
  induction hc generalizing path with
  | @intro d hcovers _ ih =>
    cases path with
    | nil => exact .nil d
    | cons key path =>
      obtain ⟨e, he, hp⟩ := h.requests_cons_iff.1 hp
      obtain ⟨f, hf⟩ := Keyed.exists_lookup_of_mem he
      have hfp := hcovers key e he f hf path hp
      exact .cons hf (ih key f hf (h.of_mem (Keyed.mem_of_lookup hf)) hfp)

theorem IsRequestTree.firstCovers (h : IsRequestTree d)
    (hp : ∀ path, Requests d path → RequestsFirst d path) : FirstCovers d := by
  induction h with
  | @intro d name aliasName types hname hn halias ha htypes hfields hkeys hbelow ih =>
    have hd : IsRequestTree d := .intro hname hn halias ha htypes hfields hkeys hbelow
    have hsub : ∀ key e f, (key, e) ∈ fieldsBelow d → (fieldsBelow d).lookup key = some f →
        ∀ path, Requests e path → RequestsFirst f path := by
      intro key e f he hf path hpath
      obtain ⟨g, hg, hgp⟩ :=
        requestsFirst_cons_iff.1 (hp (key :: path) (hd.requests_cons_iff.2 ⟨e, he, hpath⟩))
      rw [hf] at hg
      cases hg
      exact hgp
    refine .intro (fun key e he f hf path hpath => ?_) fun key f hf => ?_
    · have hm := Keyed.mem_of_lookup hf
      exact .of_first (hd.of_mem hm) (hsub key e f he hf path hpath)
    · have hm := Keyed.mem_of_lookup hf
      exact ih key f hm (hsub key f f hm hf)

/-- The first fields are all of a request exactly if they cover the others. -/
theorem IsRequestTree.first_iff_covers (h : IsRequestTree d) :
    (∀ path, RequestsFirst d path ↔ Requests d path) ↔ FirstCovers d :=
  ⟨fun hp => h.firstCovers fun path => (hp path).2,
    fun hc _ => ⟨Requests.of_first h, hc.requestsFirst h⟩⟩

end

/-! Trees of requests. -/

section
variable (r : Request)

theorem get_name_tree : r.tree.get "name" = .string r.name := by
  cases r
  rw [Request.tree]
  rfl

theorem get_alias_tree : r.tree.get "alias" = .string r.key := by
  cases r
  rw [Request.tree]
  rfl

theorem get?_types_tree :
    r.tree.get? "fieldsByTypeName" =
      some (.record (r.byType.map fun t => (t.1, .record (fieldTrees t.2)))) := by
  cases r
  rw [Request.tree, typeTrees_eq_map]
  rfl

theorem fieldsBelow_tree :
    fieldsBelow r.tree = r.byType.flatMap fun t => t.2.map fun f => (f.1, f.2.tree) := by
  rw [fieldsBelow, Datum.get, get?_types_tree]
  simp [Datum.entries?, List.flatMap_map]

/-- The tree of a request whose fields are listed under their response keys. -/
theorem isRequestTree_tree (hn : r.name ≠ "") (hk : r.key ≠ "")
    (h : ∀ e ∈ fieldsBelow r.tree, e.2.get "alias" = .string e.1 ∧ IsRequestTree e.2) :
    IsRequestTree r.tree := by
  refine .intro (get_name_tree r) hn (get_alias_tree r) hk (get?_types_tree r) ?_
    (fun key f hf => (h (key, f) hf).1) fun key f hf => (h (key, f) hf).2
  intro t ht
  obtain ⟨t, -, rfl⟩ := List.mem_map.1 ht
  exact ⟨_, rfl⟩

end

/-- A request for one field and nothing below it. -/
def Request.leaf (name : String) : Request := ⟨name, name, []⟩

@[simp] theorem leaf_key (name : String) : (Request.leaf name).key = name := rfl

@[simp] theorem fieldsBelow_leaf (name : String) : fieldsBelow (Request.leaf name).tree = [] := by
  rw [fieldsBelow_tree]
  rfl

theorem isRequestTree_leaf {name : String} (hn : name ≠ "") :
    IsRequestTree (Request.leaf name).tree := by
  refine isRequestTree_tree _ hn hn ?_
  rw [fieldsBelow_leaf]
  exact List.forall_mem_nil _

section
variable {d : Datum}

theorem eq_nil_of_requests (h : fieldsBelow d = []) {path : List String} (hp : Requests d path) :
    path = [] := by
  cases hp with
  | nil => rfl
  | cons hf _ =>
    rw [h] at hf
    cases hf

/-- Ways down are as long as those from the fields below, and one step. -/
theorem length_le_of_below {n : Nat}
    (h : ∀ e ∈ fieldsBelow d, ∀ path, Requests e.2 path → path.length ≤ n)
    {path : List String} (hp : Requests d path) : path.length ≤ n + 1 := by
  cases hp with
  | nil => exact Nat.zero_le _
  | cons hf hp => exact Nat.succ_le_succ (h _ hf _ hp)

theorem length_le_of_flat (h : ∀ e ∈ fieldsBelow d, fieldsBelow e.2 = []) {path : List String}
    (hp : Requests d path) : path.length ≤ 1 := by
  refine length_le_of_below (fun e he path hpath => ?_) hp
  rw [eq_nil_of_requests (h e he) hpath]
  exact Nat.le_refl 0

/-- Fields that have nothing below them are covered. -/
theorem firstCovers_of_flat (h : ∀ e ∈ fieldsBelow d, fieldsBelow e.2 = []) :
    FirstCovers d := by
  refine .intro (fun key e he f hf path hp => ?_) fun key f hf => ?_
  · rw [eq_nil_of_requests (h (key, e) he) hp]
    exact .nil f
  · have hnone := h (key, f) (Keyed.mem_of_lookup hf)
    exact .intro (by simp [hnone]) (by simp [hnone])

end

end GraphQuery.Selection
