import GraphQuery.Proofs.Limits.Enforcement
import GraphQuery.Proofs.Selection.Admission
import GraphQuery.Proofs.Surface.Reading

/-! What the graph of a requested field keeps of its tree: at each level, of the fields whose names
are not left out, the first under each key; and nothing beyond the last level that is kept. -/
namespace GraphQuery.Selection

open GraphQuery.Graph

/-- The head of a field: its name, and its alias where that says something else. -/
inductive HeadFor (d : Datum) : Datum → Prop
  | name {name : String} (hn : d.get "name" = .string name)
    (ha : d.get "alias" ∈ falseValues ∨ d.get "alias" = .string name) :
    HeadFor d (Form.string (.string name))
  | aliased {name : String} (hn : d.get "name" = .string name)
    (ha : d.get "alias" ∉ falseValues) (hne : d.get "alias" ≠ .string name) :
    HeadFor d (Form.aliased (.string name) (d.get "alias"))

inductive NodeFor (d : Datum) (below : List Datum) : Datum → Prop
  | intro {head : Datum} (h : HeadFor d head) :
    NodeFor d below (Form.node head (Form.metadata none none none) below)

/-- The nodes at a level that are kept of what is below a field: one for each key, made of the
first field under it that is not left out, and of what is kept below that. -/
inductive Kept (p : String → Bool) (n : Nat) : Nat → Datum → List Datum → Prop
  | cut {level : Nat} {d : Datum} (hl : n < level) : Kept p n level d []
  | down {level : Nat} {d : Datum} {fs : List (Datum × List Datum)} {ns : List Datum}
    (hl : level ≤ n)
    (hfirst : List.Forall₂ (fun key f => (admitted p (fieldsBelow d)).lookup key = some f.1)
      (keysOf (admitted p (fieldsBelow d))) fs)
    (hbelow : ∀ f ∈ fs, Kept p n (level + 1) f.1 f.2)
    (hnodes : List.Forall₂ (fun f node => NodeFor f.1 f.2 node) fs ns) : Kept p n level d ns

inductive NodePath : List Datum → List Datum → Prop
  | nil (ns : List Datum) : NodePath ns []
  | cons {ns below path : List Datum} {n : Datum} (hn : n ∈ ns)
    (hb : n.get "fields" = .list below) (h : NodePath below path) : NodePath ns (n :: path)

/-- The fields on a way down from a field. -/
inductive FieldPath : Datum → List Datum → Prop
  | nil (d : Datum) : FieldPath d []
  | cons {d f : Datum} {key : String} {path : List Datum} (hf : (key, f) ∈ fieldsBelow d)
    (h : FieldPath f path) : FieldPath d (f :: path)

/-- A node that has the name and the alias of a field, which is not left out, and no metadata. -/
structure KeptAs (p : String → Bool) (n f : Datum) : Prop where
  object : HeadFor f (n.get "object")
  metadata : n.get "metadata" = Form.metadata none none none
  admitted : ∃ name, f.get "name" = .string name ∧ p name = true

/-- The number of levels that options bound a graph to. -/
inductive Bounds (options : Datum) : Nat → Prop
  | default (h : options.get? "maxDepth" = none) : Bounds options 10
  | given {x : Number} {n : Nat} (h : options.get? "maxDepth" = some (.number x))
    (hx : x.toNat? = some n) : Bounds options n

/-- The arguments that options give the root. -/
inductive RootArguments (options : Datum) : Option (List Datum) → Prop
  | none (h : options.get "rootArguments" = .absent) : RootArguments options none
  | some {arguments : List Datum} (ha : options.get "rootArguments" ≠ .absent)
    (h : Surface.readFields (options.get "rootArguments") = .ok arguments) :
    RootArguments options (some arguments)

theorem givenArguments_eq_ok_iff {options : Datum} {arguments : Option (List Datum)} :
    givenArguments options = .ok arguments ↔ RootArguments options arguments := by
  rw [givenArguments]
  constructor
  · intro h
    split at h
    · next ha =>
      cases h
      exact .none ha
    · next ha =>
      obtain ⟨as, has, rfl⟩ := map_eq_ok.1 h
      exact .some ha has
  · intro h
    cases h with
    | none ha => rw [ha]
    | some ha h =>
      split
      · next h' => exact absurd h' ha
      · rw [h]
        rfl

theorem Bounds.levels_eq {options : Datum} {n : Nat} (h : Bounds options n) :
    (Keep.ofOptions options).levels = some n := by
  cases h with
  | default h => rw [Keep.ofOptions, h]; rfl
  | @given x _ h hx =>
    rw [Keep.ofOptions, h]
    exact Number.floor?_of_toNat? hx

/-! Heads. -/

section
variable {d : Datum} {name : String}

theorem isSame_string_iff : d.isSame (.string name) = true ↔ d = .string name := by
  cases d <;> simp [Datum.isSame]

theorem headFor_headOf (hn : d.get "name" = .string name) : HeadFor d (headOf d) := by
  rw [headOf, hn]
  by_cases ha : d.get "alias" ∈ falseValues
  · rw [if_pos (by simp [isFalsy_iff.2 ha])]
    exact .name hn (.inl ha)
  · by_cases hs : d.get "alias" = .string name
    · rw [if_pos (by simp [isSame_string_iff.2 hs])]
      exact .name hn (.inr hs)
    · have hfalsy : ¬(d.get "alias").isFalsy = true := fun h => ha (isFalsy_iff.1 h)
      have hsame : ¬(d.get "alias").isSame (.string name) = true :=
        fun h => hs (isSame_string_iff.1 h)
      rw [if_neg (by simp [hfalsy, hsame])]
      exact .aliased hn ha hs

end

/-! Nodes. -/

def fieldNode (d : Datum) (below : List Datum) : Datum :=
  Form.node (headOf d) (Form.metadata none none none) below

theorem IsFieldTree.nodeFor {d : Datum} (h : IsFieldTree d) (below : List Datum) :
    NodeFor d below (fieldNode d below) := by
  obtain ⟨name, hname⟩ := h.exists_name
  exact .intro (headFor_headOf hname)

section
variable {k : Keep} {level : Nat}

theorem IsFieldTree.below?_eq {d : Datum} (h : IsFieldTree d) :
    below? k level d = children? k (level + 1) (d.get "fieldsByTypeName") := by
  obtain ⟨types, htypes, hget⟩ := h.exists_types
  rw [below?, htypes, hget]

theorem nodes?_eq_some_iff {ds ns : List Datum} (hds : ∀ d ∈ ds, IsFieldTree d) :
    nodes? k level ds = some ns ↔
      ∃ fs : List (Datum × List Datum), fs.map Prod.fst = ds ∧
        (∀ f ∈ fs, children? k (level + 1) (f.1.get "fieldsByTypeName") = some f.2) ∧
        ns = fs.map fun f => fieldNode f.1 f.2 := by
  induction ds generalizing ns with
  | nil =>
    rw [nodes?]
    constructor
    · intro h
      cases h
      exact ⟨[], rfl, by simp, rfl⟩
    · rintro ⟨fs, hfs, -, rfl⟩
      rw [List.map_eq_nil_iff.1 hfs, List.map_nil]
  | cons d ds ih =>
    have ih := fun ns => @ih ns fun d hd => hds d (List.mem_cons_of_mem _ hd)
    rw [nodes?_cons_eq, (hds d (by simp)).below?_eq, Option.bind_eq_some_iff]
    constructor
    · rintro ⟨below, hb, h⟩
      obtain ⟨ns, hns, rfl⟩ := Option.map_eq_some_iff.1 h
      obtain ⟨fs, rfl, hfs, rfl⟩ := (ih ns).1 hns
      exact ⟨(d, below) :: fs, rfl, List.forall_mem_cons.2 ⟨hb, hfs⟩, rfl⟩
    · rintro ⟨fs, hfs, hb, rfl⟩
      obtain ⟨f, fs, rfl, rfl, rfl⟩ := List.map_eq_cons_iff.1 hfs
      obtain ⟨hf, hb⟩ := List.forall_mem_cons.1 hb
      exact ⟨f.2, hf, by rw [(ih _).2 ⟨fs, rfl, hb, rfl⟩]; rfl⟩

theorem children?_of_cut (h : k.keepsLevel level = false) (types : Datum) :
    children? k level types = some [] := by
  rw [children?, if_neg (by simp [h])]

theorem exists_survivors_of_children? {types : Datum} {ns : List Datum}
    (hl : k.keepsLevel level = true) (h : children? k level types = some ns) :
    ∃ ds, survivorsBelow? k types = some ds ∧ nodes? k level ds = some ns := by
  rw [children?, if_pos hl] at h
  split at h
  · next ds hds => exact ⟨ds, hds, h⟩
  · cases h

end

/-! What is kept of a tree. -/

section
variable {k : Keep} {p : String → Bool} {level n : Nat} {d : Datum} {ns : List Datum}

theorem keepsLevel_iff (hn : k.levels = some n) : k.keepsLevel level = true ↔ level ≤ n := by
  rw [Keep.keepsLevel, hn]
  exact decide_eq_true_iff

theorem IsFieldTree.of_survivors (h : IsFieldTree d) {seen : List String} {ds : List Datum}
    (hds : survivors? k seen (fieldsBelow d) = some ds) : ∀ f ∈ ds, IsFieldTree f := by
  intro f hf
  obtain ⟨key, hm⟩ := mem_of_survivors hds f hf
  exact h.of_mem hm

theorem IsFieldTree.kept (h : IsFieldTree d) (hp : k.Agrees p) (hn : k.levels = some n)
    (hns : children? k level (d.get "fieldsByTypeName") = some ns) : Kept p n level d ns := by
  induction h generalizing level ns with
  | @intro d name types hname htypes hfields hbelow ih =>
    have hd : IsFieldTree d := .intro hname htypes hfields hbelow
    cases hl : k.keepsLevel level with
    | false =>
      rw [children?_of_cut hl] at hns
      cases hns
      rw [← Bool.not_eq_true, keepsLevel_iff hn] at hl
      exact .cut (Nat.lt_of_not_le hl)
    | true =>
      obtain ⟨ds, hds, hns⟩ := exists_survivors_of_children? hl hns
      rw [hd.survivorsBelow?_eq] at hds
      have hfirst := hp.survivors_first (fun e he => (hd.of_mem he).exists_name) hds
      simp only [List.not_mem_nil, not_false_eq_true, decide_true, List.filter_true,
        true_and] at hfirst
      have htrees := hd.of_survivors hds
      obtain ⟨fs, rfl, hfs, rfl⟩ := (nodes?_eq_some_iff htrees).1 hns
      rw [List.forall₂_map_right_iff] at hfirst
      refine .down ((keepsLevel_iff hn).1 hl) hfirst (fun f hf => ?_) ?_
      · obtain ⟨key, hm⟩ := mem_of_survivors hds f.1 (List.mem_map_of_mem hf)
        exact ih key f.1 hm (hfs f hf)
      · rw [List.forall₂_map_right_iff, List.forall₂_same]
        exact fun f hf => (htrees f.1 (List.mem_map_of_mem hf)).nodeFor f.2

theorem IsFieldTree.exists_children? (h : IsFieldTree d)
    (hk : ∀ name : String, ∃ b, k.keepsName? (.string name) = some b) (level : Nat) :
    ∃ ns, children? k level (d.get "fieldsByTypeName") = some ns := by
  induction h generalizing level with
  | @intro d name types hname htypes hfields hbelow ih =>
    have hd : IsFieldTree d := .intro hname htypes hfields hbelow
    cases hl : k.keepsLevel level with
    | false => exact ⟨[], children?_of_cut hl _⟩
    | true =>
      have hnames : ∀ e ∈ fieldsBelow d, ∃ b, k.keepsName? (e.2.get "name") = some b := by
        intro e he
        obtain ⟨name, hn⟩ := (hd.of_mem he).exists_name
        rw [hn]
        exact hk name
      obtain ⟨ds, hds⟩ :=
        exists_survivors? (fun e he => (hd.of_mem he).isNothing_eq) hnames []
      have hbelow : ∀ f ∈ ds, ∃ ns,
          children? k (level + 1) (f.get "fieldsByTypeName") = some ns := by
        intro f hf
        obtain ⟨key, hm⟩ := mem_of_survivors hds f hf
        exact ih key f hm (level + 1)
      choose! below hbelow using hbelow
      have hfst : (ds.map fun f => (f, below f)).map Prod.fst = ds := by
        rw [List.map_map]
        exact List.map_id ds
      have hnodes := (nodes?_eq_some_iff (hd.of_survivors hds)).2
        ⟨ds.map fun f => (f, below f), hfst, by simpa using hbelow, rfl⟩
      rw [← hd.survivorsBelow?_eq] at hds
      exact ⟨_, (children?_of_survivors hl hds).trans hnodes⟩

theorem exists_mem_of_forall₂ {α β : Type} {R : α → β → Prop} {as : List α} {bs : List β}
    (h : List.Forall₂ R as bs) {b : β} (hb : b ∈ bs) : ∃ a ∈ as, R a b := by
  induction h with
  | nil => cases hb
  | cons hr _ ih =>
    rcases List.mem_cons.1 hb with rfl | hb
    · exact ⟨_, by simp, hr⟩
    · obtain ⟨a, ha, hr⟩ := ih hb
      exact ⟨a, List.mem_cons_of_mem _ ha, hr⟩

theorem exists_of_first {fs : List (Datum × List Datum)}
    (h : List.Forall₂ (fun key f => (admitted p (fieldsBelow d)).lookup key = some f.1)
      (keysOf (admitted p (fieldsBelow d))) fs) {f : Datum × List Datum} (hf : f ∈ fs) :
    ∃ key name, (key, f.1) ∈ fieldsBelow d ∧ f.1.get "name" = .string name ∧ p name = true := by
  obtain ⟨key, -, hl⟩ := exists_mem_of_forall₂ h hf
  obtain ⟨hm, ha⟩ := List.mem_filter.1 (Keyed.mem_of_lookup hl)
  obtain ⟨name, hname, ha⟩ := (Option.any_eq_true _ _).1 ha
  refine ⟨key, name, hm, ?_, ha⟩
  cases hd : f.1.get "name" with
  | string s =>
    rw [hd] at hname
    cases hname
    rfl
  | _ =>
    rw [hd] at hname
    cases hname

/-- A way down through what is kept ends at the last level, and leads past the nodes of fields on
a way down. -/
theorem Kept.path (h : Kept p n level d ns) {path : List Datum} (hp : NodePath ns path) :
    path.length ≤ n + 1 - level ∧
      ∃ way, FieldPath d way ∧ List.Forall₂ (KeptAs p) path way := by
  induction h generalizing path with
  | cut =>
    cases hp with
    | nil => exact ⟨Nat.zero_le _, [], .nil _, .nil⟩
    | cons hm => cases hm
  | @down level d fs ns hl hfirst _ hnodes ih =>
    cases hp with
    | nil => exact ⟨Nat.zero_le _, [], .nil _, .nil⟩
    | cons hm hb hp =>
      obtain ⟨f, hf, hnode⟩ := exists_mem_of_forall₂ hnodes hm
      cases hnode with
      | intro hhead =>
        cases hb
        obtain ⟨hlength, way, hway, hall⟩ := ih f hf hp
        obtain ⟨key, name, hm, hname, ha⟩ := exists_of_first hfirst hf
        refine ⟨?_, f.1 :: way, .cons hm hway, .cons ⟨hhead, rfl, name, hname, ha⟩ hall⟩
        rw [List.length_cons]
        omega

/-! Outlines of what is kept. -/

theorem HeadFor.exists_outline {head : Datum} (h : HeadFor d head) (m : Datum) (ns : List Datum) :
    ∃ i, outlineOf? (Form.node head m ns) = (outlinesOf? ns).map (.plain i) := by
  have hhead : ∃ i, identifierOf? head = some i ∧ headIsText head = true := by
    cases h with
    | name => exact ⟨_, rfl, rfl⟩
    | aliased => exact ⟨_, rfl, rfl⟩
  obtain ⟨i, hi, ht⟩ := hhead
  exact ⟨i, outlineOf?_of_get ht hi rfl⟩

theorem exists_outlines {fs : List (Datum × List Datum)}
    (hnodes : List.Forall₂ (fun f node => NodeFor f.1 f.2 node) fs ns)
    (h : ∀ f ∈ fs, ∃ ms, outlinesOf? f.2 = some ms ∧ height ms ≤ n) :
    ∃ ms, outlinesOf? ns = some ms ∧ height ms ≤ n + 1 := by
  induction hnodes with
  | nil => exact ⟨[], by rw [outlinesOf?], Nat.zero_le _⟩
  | @cons f node fs ns hnode _ ih =>
    obtain ⟨ms, hms, hheight⟩ := ih fun f hf => h f (List.mem_cons_of_mem _ hf)
    obtain ⟨bs, hbs, hbelow⟩ := h f List.mem_cons_self
    cases hnode with
    | intro hhead =>
      obtain ⟨i, hi⟩ := hhead.exists_outline (Form.metadata none none none) f.2
      rw [hbs] at hi
      refine ⟨.plain i bs :: ms, ?_, ?_⟩
      · rw [outlinesOf?, hi, hms]
        rfl
      · rw [height, Node.plain, Node.height]
        omega

theorem Kept.outlines (h : Kept p n level d ns) :
    ∃ ms, outlinesOf? ns = some ms ∧ height ms ≤ n + 1 - level := by
  induction h with
  | cut => exact ⟨[], by rw [outlinesOf?], Nat.zero_le _⟩
  | @down level d fs ns hl _ _ hnodes ih =>
    obtain ⟨ms, hms, hheight⟩ := exists_outlines hnodes ih
    exact ⟨ms, hms, by omega⟩

end

/-! The graph. -/

section
variable {options tree : Datum}

theorem graphFor_eq_ok_iff (htree : isTree tree = true) {g : Datum} :
    graphFor options tree = .ok (some g) ↔ ∃ arguments ns,
      givenArguments options = .ok arguments ∧
        children? (.ofOptions options) 1 (tree.get "fieldsByTypeName") = some ns ∧
        g = Form.node (headOf tree) (Form.metadata none arguments none) ns := by
  constructor
  · intro h
    rw [graphFor, if_pos htree, bind_eq_ok] at h
    obtain ⟨arguments, hargs, h⟩ := h
    rw [mapError_eq_ok] at hargs
    split at h
    · next d hd =>
      obtain ⟨ns, hns, rfl⟩ := Option.map_eq_some_iff.1 hd
      cases h
      exact ⟨arguments, ns, hargs, hns, rfl⟩
    · cases h
  · rintro ⟨arguments, ns, hargs, hns, rfl⟩
    exact graphFor_of_children htree hargs hns

theorem not_depth_of_checkLimits {g limits : Datum} {l : Limits} {m : Node}
    (hl : Limits.ofOptions limits = .ok l) (hg : Form.isNode g = true)
    (hm : outlineOf? g = some m) (hd : m.height ≤ l.maxDepth) {vs : List Violation}
    (hvs : checkLimits g limits = .ok vs) (found allowed : Nat) :
    Violation.depth found allowed ∉ vs := by
  have hb := (Limits.check_of_checkLimits hl hvs).1
  rw [Limits.checkLimits_of_outline hl hb (Surface.readGraph_of_isNode hg) hm] at hvs
  cases hvs
  intro h
  rw [Limits.violations, if_neg (by omega)] at h
  simp only [List.nil_append, List.mem_append] at h
  rcases h with h | h
  · split at h <;> simp at h
  · split at h <;> simp at h

/-- The graph of a requested field has its name and alias, the arguments that are given for its root
and no other metadata. At each level it has one node for each key under which a field is not left
out, made of the first such field; it ends at the last level that is kept, so that no limit above
that level finds it too deep. There is a graph unless the arguments cannot be read or what is left
out is no list of names. -/
theorem graphFor_kept (options tree : Datum) (n : Nat) (htree : IsFieldTree tree)
    (hn : Bounds options n) :
    (∀ g, graphFor options tree = .ok (some g) →
      ∃ head arguments ns, HeadFor tree head ∧ RootArguments options arguments ∧
        g = Form.node head (Form.metadata none arguments none) ns ∧
        Kept (admits options) n 1 tree ns ∧
        (∀ path, NodePath ns path → path.length ≤ n ∧
          ∃ way, FieldPath tree way ∧ List.Forall₂ (KeptAs (admits options)) path way) ∧
        ∃ m, outlineOf? g = some m ∧ m.height ≤ n + 1 ∧
          ∀ limits l, Limits.ofOptions limits = .ok l → n + 1 ≤ l.maxDepth →
            (l.BlocksTexts → ∃ vs, checkLimits g limits = .ok vs) ∧
              ∀ vs, checkLimits g limits = .ok vs →
                ∀ found allowed, Violation.depth found allowed ∉ vs) ∧
      ∀ arguments, RootArguments options arguments →
        (options.get? "excludeFields" = none ∨
          ∃ names, options.get? "excludeFields" = some (.list names)) →
        ∃ g, graphFor options tree = .ok (some g) := by
  constructor
  · intro g hg
    obtain ⟨arguments, ns, hargs, hns, rfl⟩ := (graphFor_eq_ok_iff htree.isTree_eq).1 hg
    have hkept := htree.kept (agrees_ofOptions options) hn.levels_eq hns
    obtain ⟨name, hname⟩ := htree.exists_name
    have hhead := headFor_headOf hname
    obtain ⟨ms, hms, hheight⟩ := hkept.outlines
    obtain ⟨i, hi⟩ := hhead.exists_outline (Form.metadata none arguments none) ns
    rw [hms] at hi
    have hroot : (Node.plain i ms).height ≤ n + 1 := by
      rw [Node.plain, Node.height]
      omega
    refine ⟨headOf tree, arguments, ns, hhead, givenArguments_eq_ok_iff.1 hargs, rfl, hkept,
      fun path hp => hkept.path hp, .plain i ms, hi, hroot, fun limits l hl hd => ⟨fun hb => ?_, ?_⟩⟩
    · exact ⟨_, Limits.checkLimits_of_outline hl hb (Surface.readGraph_of_isNode rfl) hi⟩
    · exact fun vs => not_depth_of_checkLimits hl rfl hi (Nat.le_trans hroot hd)
  · intro arguments hargs hx
    have hlist : ∃ names, (Keep.ofOptions options).excluded = .list names := by
      rcases hx with hx | ⟨names, hx⟩
      · exact ⟨[], by rw [Keep.ofOptions, hx]; rfl⟩
      · exact ⟨names, by rw [Keep.ofOptions, hx]; rfl⟩
    obtain ⟨names, hlist⟩ := hlist
    obtain ⟨ns, hns⟩ := htree.exists_children? (exists_keepsName? hlist) 1
    exact ⟨_, (graphFor_eq_ok_iff htree.isTree_eq).2
      ⟨arguments, ns, givenArguments_eq_ok_iff.2 hargs, hns, rfl⟩⟩

end

theorem isFieldTree_tree (r : Request) : IsFieldTree r.tree := by
  refine .intro (get_name_tree r) (get?_types_tree r) ?_ fun key f hf => ?_
  · intro t ht
    obtain ⟨t, -, rfl⟩ := List.mem_map.1 ht
    exact ⟨_, rfl⟩
  · rw [fieldsBelow_tree] at hf
    obtain ⟨t, ht, hf⟩ := List.mem_flatMap.1 hf
    obtain ⟨e, he, hf⟩ := List.mem_map.1 hf
    cases hf
    exact isFieldTree_tree e.2
termination_by sizeOf r
decreasing_by
  obtain ⟨name, key, byType⟩ := r
  obtain ⟨type, fields⟩ := t
  obtain ⟨key, r⟩ := e
  have hfields := List.sizeOf_lt_of_mem ht
  have hr := List.sizeOf_lt_of_mem he
  simp at hfields hr ⊢
  omega

/-- A node that two types are asked for under one key, of the first one by a name to be left out. -/
def keyRequest : Request :=
  ⟨"node", "node", [("User", [("type", ⟨"__typename", "type", []⟩), ("key", ⟨"secret", "key", []⟩)]),
    ("Repository", [("key", ⟨"name", "key", []⟩), ("id", .leaf "id")])]⟩

def keyOptions : Datum := .record [("excludeFields", .list [.string "secret"])]

def keyNodes : List Datum :=
  [Form.node (Form.aliased (.string "name") (.string "key")) (Form.metadata none none none) [],
    Form.node (Form.string (.string "id")) (Form.metadata none none none) []]

theorem graphFor_keyRequest :
    graphFor keyOptions keyRequest.tree =
      .ok (some (Form.node (Form.string (.string "node")) (Form.metadata none none none)
        keyNodes)) := by
  have hname : children? (.ofOptions keyOptions) 2
      ((Request.mk "name" "key" []).tree.get "fieldsByTypeName") = some [] :=
    (children?_of_survivors rfl rfl).trans (by rw [nodes?])
  have hid : children? (.ofOptions keyOptions) 2
      ((Request.leaf "id").tree.get "fieldsByTypeName") = some [] :=
    (children?_of_survivors rfl rfl).trans (by rw [nodes?])
  refine graphFor_of_children rfl rfl ((children?_of_survivors rfl rfl).trans ?_)
  refine (nodes?_eq_some_iff ?_).2 ⟨[((Request.mk "name" "key" []).tree, []),
    ((Request.leaf "id").tree, [])], rfl, ?_, rfl⟩
  · simp [isFieldTree_tree]
  · simp [hname, hid]

/-- The secret of the one type does not stand in the way of the name that the other has under the
same key; the name of the type is left out, too. -/
theorem keyRequest_kept :
    graphFor keyOptions keyRequest.tree =
        .ok (some (Form.node (Form.string (.string "node")) (Form.metadata none none none)
          keyNodes)) ∧
      Kept (admits keyOptions) 10 1 keyRequest.tree keyNodes ∧
      (∀ path, NodePath keyNodes path → path.length ≤ 10) ∧
      admitted (admits keyOptions) (fieldsBelow keyRequest.tree) =
        [("key", (Request.mk "name" "key" []).tree), ("id", (Request.leaf "id").tree)] := by
  obtain ⟨hkept, -⟩ :=
    graphFor_kept keyOptions keyRequest.tree 10 (isFieldTree_tree keyRequest) (.default rfl)
  obtain ⟨head, arguments, ns, -, -, hg, hns, hpath, -⟩ := hkept _ graphFor_keyRequest
  obtain rfl : keyNodes = ns := Datum.list.inj (congrArg (Datum.get "fields") hg)
  refine ⟨graphFor_keyRequest, hns, fun path hp => (hpath path hp).1, ?_⟩
  rw [fieldsBelow_tree]
  rfl

end GraphQuery.Selection
