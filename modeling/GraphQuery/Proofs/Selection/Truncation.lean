import GraphQuery.Proofs.Selection.Keeping

/-! What a bound on the depth does to the graph of a requested field: it cuts the graph off and
changes nothing else. Which fields are kept at a level is decided without the bound, and a bound
that is not below the height of the tree cuts nothing off. -/
namespace GraphQuery.Selection

open GraphQuery.Graph

def childrenOf (d : Datum) : List Datum :=
  match d.get "fields" with
  | .list nodes => nodes
  | _ => []

/-- A node in record form cut off so many levels below it: the nodes of the last level keep their
heads and metadata and lose their children. -/
def cut : Nat → Datum → Datum
  | 0, d => Form.node (d.get "object") (d.get "metadata") []
  | n + 1, d => Form.node (d.get "object") (d.get "metadata") ((childrenOf d).map (cut n))

/-- So many levels of nodes, beginning with some. -/
def cutLevels : Nat → List Datum → List Datum
  | 0, _ => []
  | n + 1, nodes => nodes.map (cut n)

@[simp] theorem cutLevels_nil (n : Nat) : cutLevels n [] = [] := by
  cases n <;> rfl

theorem cut_node (n : Nat) (object metadata : Datum) (nodes : List Datum) :
    cut n (Form.node object metadata nodes) = Form.node object metadata (cutLevels n nodes) := by
  cases n <;> rfl

theorem cut_fieldNode (n : Nat) (d : Datum) (below : List Datum) :
    cut n (fieldNode d below) = fieldNode d (cutLevels n below) := cut_node n _ _ below

/-- Options that may differ in the bound on the depth alone. -/
def SameBesidesDepth (options options' : Datum) : Prop :=
  ∀ key, key ≠ "maxDepth" → options.get? key = options'.get? key

/-- Options under which no field is too deep: the bound is there without a value, or no depth is
above it. -/
inductive Unbounded (options : Datum) : Prop
  | absent (h : options.get? "maxDepth" = some .absent)
  | nan (h : options.get? "maxDepth" = some (.number .nan))
  | infinite (h : options.get? "maxDepth" = some (.number (.infinite false)))

/-- What to keep, of so many levels. -/
def Keep.upTo (k : Keep) (n : Nat) : Keep := { k with levels := some n }

section
variable {k : Keep} {n level : Nat}

theorem keepsLevel_upTo_of_le (h : level ≤ n) : (k.upTo n).keepsLevel level = true :=
  decide_eq_true h

theorem keepsLevel_upTo_of_lt (h : n < level) : (k.upTo n).keepsLevel level = false :=
  decide_eq_false (Nat.not_le.2 h)

/-! Which fields are kept. -/

theorem survivors?_upTo (seen : List String) (es : List (String × Datum)) :
    survivors? (k.upTo n) seen es = survivors? k seen es := by
  fun_induction survivors? k seen es with
  | case1 => rfl
  | case2 seen key d rest hs ih => rw [survivors?, if_pos hs, ih]
  | case3 seen key d rest hs hd => rw [survivors?, if_neg hs, if_pos hd]
  | case4 seen key d rest hs hd hk =>
    have hk' : (k.upTo n).keepsName? (d.get "name") = none := hk
    rw [survivors?, if_neg hs, if_neg hd, hk']
  | case5 seen key d rest hs hd hk ih =>
    have hk' : (k.upTo n).keepsName? (d.get "name") = some false := hk
    rw [survivors?, if_neg hs, if_neg hd, hk', ih]
  | case6 seen key d rest hs hd hk ih =>
    have hk' : (k.upTo n).keepsName? (d.get "name") = some true := hk
    rw [survivors?, if_neg hs, if_neg hd, hk', ih]

theorem survivorsBelow?_upTo (types : Datum) :
    survivorsBelow? (k.upTo n) types = survivorsBelow? k types := by
  rw [survivorsBelow?, survivorsBelow?]
  exact congrArg _ (funext (survivors?_upTo []))

/-! Nodes. -/

theorem nodes?_cons_eq_some {d : Datum} {ds ns : List Datum} :
    nodes? k level (d :: ds) = some ns ↔
      ∃ below nodes, below? k level d = some below ∧ nodes? k level ds = some nodes ∧
        fieldNode d below :: nodes = ns := by
  rw [nodes?_cons_eq]
  simp only [Option.bind_eq_some_iff, Option.map_eq_some_iff]
  constructor
  · rintro ⟨below, hb, nodes, hn, h⟩
    exact ⟨below, nodes, hb, hn, h⟩
  · rintro ⟨below, nodes, hb, hn, h⟩
    exact ⟨below, hb, nodes, hn, h⟩

theorem nodes?_upTo {ds ns : List Datum} (hl : level ≤ n)
    (h : ∀ d ∈ ds, ∀ below, below? k level d = some below →
      below? (k.upTo n) level d = some (cutLevels (n - level) below))
    (hns : nodes? k level ds = some ns) :
    nodes? (k.upTo n) level ds = some (cutLevels (n + 1 - level) ns) := by
  rw [Nat.sub_add_comm hl]
  induction ds generalizing ns with
  | nil =>
    rw [nodes?] at hns
    cases hns
    rw [nodes?]
    rfl
  | cons d ds ih =>
    obtain ⟨below, nodes, hb, hnodes, rfl⟩ := nodes?_cons_eq_some.1 hns
    refine nodes?_cons_eq_some.2 ⟨_, _, h d (by simp) below hb,
      ih (fun d hd => h d (List.mem_cons_of_mem _ hd)) hnodes, ?_⟩
    rw [cutLevels, cutLevels, List.map_cons, cut_fieldNode]

end

section
variable {k : Keep} {n : Nat}

/-- What is kept of so many levels is what is kept of more, cut off. -/
theorem children?_upTo (hk : ∀ level, level ≤ n → k.keepsLevel level = true) (level : Nat)
    (types : Datum) {ns : List Datum} (h : children? k level types = some ns) :
    children? (k.upTo n) level types = some (cutLevels (n + 1 - level) ns) := by
  by_cases hl : level ≤ n
  · obtain ⟨ds, hds, hns⟩ := exists_survivors_of_children? (hk level hl) h
    rw [children?_of_survivors (keepsLevel_upTo_of_le hl)
      ((survivorsBelow?_upTo types).trans hds)]
    refine nodes?_upTo hl (fun d hd below hb => ?_) hns
    rw [below?] at hb ⊢
    rw [← Nat.add_sub_add_right n 1 level]
    cases ht : d.get? "fieldsByTypeName" with
    | some t =>
      rw [ht] at hb
      have hbelow : children? k (level + 1) t = some below := hb
      exact children?_upTo hk (level + 1) t hbelow
    | none =>
      -- There is nothing below the tree, so that the level after it is not kept at all.
      rw [ht] at hb
      obtain ⟨hcut, hb⟩ := Option.ite_none_left_eq_some.1 hb
      cases hb
      have hn : n < level + 1 := Nat.lt_of_not_le fun hn => hcut (hk _ hn)
      simp [keepsLevel_upTo_of_lt hn]
  · rw [children?_of_cut (keepsLevel_upTo_of_lt (Nat.lt_of_not_le hl)),
      Nat.sub_eq_zero_of_le (Nat.lt_of_not_le hl)]
    rfl
termination_by sizeOf types
decreasing_by exact sizeOf_below_lt hds hd ht

theorem nodes?_congr {k' : Keep} {level : Nat} {ds : List Datum} (hds : ∀ d ∈ ds, IsFieldTree d)
    (h : ∀ d ∈ ds, children? k (level + 1) (d.get "fieldsByTypeName") =
      children? k' (level + 1) (d.get "fieldsByTypeName")) :
    nodes? k level ds = nodes? k' level ds := by
  refine Option.ext fun ns => ?_
  rw [nodes?_eq_some_iff hds, nodes?_eq_some_iff hds]
  refine exists_congr fun fs => and_congr_right fun hfs => and_congr_left fun _ => ?_
  refine forall₂_congr fun f hf => ?_
  rw [h f.1 (hfs ▸ List.mem_map_of_mem hf)]

theorem children?_of_no_survivors {level : Nat} {types : Datum} (hl : k.keepsLevel level = true)
    (h : survivorsBelow? k types = none) : children? k level types = none := by
  rw [children?, if_pos hl]
  split
  · next hds => rw [h] at hds; cases hds
  · rfl

theorem IsFieldTree.children?_upTo_of_length_le {d : Datum} (h : IsFieldTree d)
    (hk : ∀ level, level ≤ n → k.keepsLevel level = true) (level : Nat)
    (hl : ∀ way, FieldPath d way → level + way.length ≤ n + 1) :
    children? (k.upTo n) level (d.get "fieldsByTypeName") =
      children? k level (d.get "fieldsByTypeName") := by
  induction h generalizing level with
  | @intro d name types hname htypes hfields hbelow ih =>
    have hd : IsFieldTree d := .intro hname htypes hfields hbelow
    have hsame := survivorsBelow?_upTo (k := k) (n := n) (d.get "fieldsByTypeName")
    by_cases hlevel : level ≤ n
    · cases hds : survivorsBelow? k (d.get "fieldsByTypeName") with
      | none =>
        rw [children?_of_no_survivors (hk level hlevel) hds,
          children?_of_no_survivors (keepsLevel_upTo_of_le hlevel) (hsame.trans hds)]
      | some ds =>
        rw [children?_of_survivors (hk level hlevel) hds,
          children?_of_survivors (keepsLevel_upTo_of_le hlevel) (hsame.trans hds)]
        rw [hd.survivorsBelow?_eq] at hds
        refine nodes?_congr (hd.of_survivors hds) fun f hf => ?_
        obtain ⟨key, hm⟩ := mem_of_survivors hds f hf
        refine ih key f hm (level + 1) fun way hway => ?_
        have := hl (f :: way) (.cons hm hway)
        rw [List.length_cons] at this
        omega
    · -- A field below would be a way down that is too long.
      have hnone : fieldsBelow d = [] := by
        refine List.eq_nil_iff_forall_not_mem.2 fun e he => hlevel ?_
        exact Nat.le_of_succ_le_succ (hl [e.2] (.cons he (.nil e.2)))
      rw [children?_of_cut (keepsLevel_upTo_of_lt (Nat.lt_of_not_le hlevel))]
      cases hlevel' : k.keepsLevel level with
      | false => rw [children?_of_cut hlevel']
      | true =>
        have hds : survivorsBelow? k (d.get "fieldsByTypeName") = some [] := by
          rw [hd.survivorsBelow?_eq, hnone]
          rfl
        rw [children?_of_survivors hlevel' hds, nodes?]

end

/-! The graph. -/

section
variable {options options' tree : Datum} {n : Nat}

theorem Unbounded.keepsLevel_eq (h : Unbounded options) (level : Nat) :
    (Keep.ofOptions options).keepsLevel level = true := by
  have hlevels : (Keep.ofOptions options).levels = none := by
    cases h with
    | absent h => rw [Keep.ofOptions, h]; rfl
    | nan h => rw [Keep.ofOptions, h]; rfl
    | infinite h => rw [Keep.ofOptions, h]; rfl
  rw [Keep.keepsLevel, hlevels]

theorem Bounds.keepsLevel_of_le {m : Nat} (h : Bounds options m) (hle : n ≤ m) (level : Nat)
    (hl : level ≤ n) : (Keep.ofOptions options).keepsLevel level = true :=
  (keepsLevel_iff h.levels_eq).2 (Nat.le_trans hl hle)

theorem SameBesidesDepth.ofOptions_eq (h : SameBesidesDepth options options')
    (hn : Bounds options n) : Keep.ofOptions options = (Keep.ofOptions options').upTo n := by
  have hexcluded : (Keep.ofOptions options).excluded = (Keep.ofOptions options').excluded := by
    simp only [Keep.ofOptions, h "excludeFields" (by decide)]
  have htypenames : (Keep.ofOptions options).typenames = (Keep.ofOptions options').typenames := by
    simp only [Keep.ofOptions, Datum.get, h "includeTypename" (by decide)]
  rw [Keep.upTo, ← hexcluded, ← htypenames, ← hn.levels_eq]

theorem SameBesidesDepth.givenArguments_eq (h : SameBesidesDepth options options') :
    givenArguments options = givenArguments options' := by
  rw [givenArguments, givenArguments, Datum.get, Datum.get, h "rootArguments" (by decide)]

theorem graphFor_congr (hargs : givenArguments options = givenArguments options')
    (hns : children? (.ofOptions options) 1 (tree.get "fieldsByTypeName") =
      children? (.ofOptions options') 1 (tree.get "fieldsByTypeName")) :
    graphFor options tree = graphFor options' tree := by
  simp only [graphFor, graphOf?, hargs, hns]

theorem graphFor_of_malformed {m : Surface.Malformed} (htree : isTree tree = true)
    (h : givenArguments options = .error m) : graphFor options tree = .error (.malformed m) := by
  rw [graphFor, if_pos htree, h]
  rfl

theorem exists_of_graphFor_eq_ok {g : Option Datum} (htree : isTree tree = true)
    (h : graphFor options tree = .ok g) : ∃ d, g = some d := by
  rw [graphFor, if_pos htree, bind_eq_ok] at h
  obtain ⟨arguments, -, h⟩ := h
  split at h
  · next d hd =>
    cases h
    exact ⟨d, rfl⟩
  · cases h

theorem SameBesidesDepth.graphFor_eq_ok (hsame : SameBesidesDepth options options')
    (hn : Bounds options n)
    (hk : ∀ level, level ≤ n → (Keep.ofOptions options').keepsLevel level = true)
    {g : Option Datum} (h : graphFor options' tree = .ok g) :
    graphFor options tree = .ok (g.map (cut n)) := by
  cases htree : isTree tree with
  | false =>
    rw [graphFor, if_neg (by simp [htree])] at h ⊢
    cases h
    rfl
  | true =>
    obtain ⟨d, rfl⟩ := exists_of_graphFor_eq_ok htree h
    obtain ⟨arguments, ns, hargs, hns, rfl⟩ := (graphFor_eq_ok_iff htree).1 h
    refine (graphFor_eq_ok_iff htree).2 ⟨arguments, cutLevels n ns, ?_, ?_, ?_⟩
    · rw [hsame.givenArguments_eq, hargs]
    · rw [hsame.ofOptions_eq hn]
      exact children?_upTo hk 1 _ hns
    · exact cut_node n _ _ ns

theorem SameBesidesDepth.graphFor_eq (hsame : SameBesidesDepth options options')
    (hn : Bounds options n)
    (hk : ∀ level, level ≤ n → (Keep.ofOptions options').keepsLevel level = true)
    (htree : IsFieldTree tree) (hway : ∀ way, FieldPath tree way → way.length ≤ n) :
    graphFor options tree = graphFor options' tree := by
  refine graphFor_congr hsame.givenArguments_eq ?_
  rw [hsame.ofOptions_eq hn]
  refine htree.children?_upTo_of_length_le hk 1 fun way h => ?_
  have := hway way h
  omega

/-- Under a smaller bound on the depth and otherwise the same options, a requested field has the
same graph, cut off; it has one under the smaller bound if it has one under the larger one, and for
the tree of a field also the other way round. Which fields are kept below a field does not depend
on the bound, and a bound that is not below the height of the tree has no effect. -/
theorem graphFor_cut (options options' tree : Datum) (n n' : Nat)
    (hsame : SameBesidesDepth options options') (hn : Bounds options n) (hn' : Bounds options' n')
    (hle : n ≤ n') :
    (∀ g, graphFor options' tree = .ok g → graphFor options tree = .ok (g.map (cut n))) ∧
      (∀ types, survivorsBelow? (.ofOptions options) types =
        survivorsBelow? (.ofOptions options') types) ∧
      (IsFieldTree tree →
        (∀ names, (Keep.ofOptions options').excluded = .list names →
          graphFor options tree = (graphFor options' tree).map (Option.map (cut n))) ∧
        ((∀ way, FieldPath tree way → way.length ≤ n) →
          graphFor options tree = graphFor options' tree ∧
            ∀ unlimited, SameBesidesDepth options unlimited → Unbounded unlimited →
              graphFor options tree = graphFor unlimited tree)) := by
  have hk := hn'.keepsLevel_of_le hle
  have hcut : ∀ g, graphFor options' tree = .ok g → graphFor options tree = .ok (g.map (cut n)) :=
    fun g => hsame.graphFor_eq_ok hn hk
  refine ⟨hcut, fun types => ?_, fun htree => ⟨fun names hx => ?_, fun hway => ⟨?_, ?_⟩⟩⟩
  · rw [hsame.ofOptions_eq hn, survivorsBelow?_upTo]
  · cases hargs : givenArguments options' with
    | error m =>
      rw [graphFor_of_malformed htree.isTree_eq hargs,
        graphFor_of_malformed htree.isTree_eq (hsame.givenArguments_eq.trans hargs)]
      rfl
    | ok arguments =>
      obtain ⟨ns, hns⟩ := htree.exists_children? (exists_keepsName? hx) 1
      have hg := graphFor_of_children htree.isTree_eq hargs hns
      rw [hg, hcut _ hg]
      rfl
  · exact hsame.graphFor_eq hn hk htree hway
  · intro unlimited hsame' hunbounded
    exact hsame'.graphFor_eq hn (fun level _ => hunbounded.keepsLevel_eq level) htree hway

end

/-- Options that bound the depth and count the name of the type as any other field. -/
def depthOptions (n : Nat) : Datum :=
  .record [("maxDepth", .number (.ofNat n)), ("includeTypename", .boolean true)]

theorem sameBesidesDepth_depthOptions (n : Nat) :
    SameBesidesDepth (depthOptions n) typenameOptions :=
  fun _ hkey => Keyed.lookup_cons_of_ne hkey _ _

theorem FieldPath.exists_requests {d : Datum} {way : List Datum} (h : FieldPath d way) :
    ∃ path, Requests d path ∧ path.length = way.length := by
  induction h with
  | nil d => exact ⟨[], .nil d, rfl⟩
  | cons hf _ ih =>
    obtain ⟨path, hpath, hlength⟩ := ih
    exact ⟨_ :: path, .cons hf hpath, congrArg (· + 1) hlength⟩

/-- Cut off after one level, the search loses what it asks of the author; two levels keep it. -/
theorem graphFor_searchRequest_cut :
    graphFor (depthOptions 1) searchRequest.tree =
        .ok (some (Node.plain (.string "search") [.plain (.string "author") []]).toDatum) ∧
      graphFor (depthOptions 2) searchRequest.tree =
        graphFor typenameOptions searchRequest.tree := by
  have hone := graphFor_cut (depthOptions 1) typenameOptions searchRequest.tree 1 10
    (sameBesidesDepth_depthOptions 1) (.given rfl (by decide)) (.default rfl) (by decide)
  have htwo := graphFor_cut (depthOptions 2) typenameOptions searchRequest.tree 2 10
    (sameBesidesDepth_depthOptions 2) (.given rfl (by decide)) (.default rfl) (by decide)
  have hway : ∀ way, FieldPath searchRequest.tree way → way.length ≤ 2 := by
    intro way h
    obtain ⟨path, hpath, hlength⟩ := h.exists_requests
    exact hlength ▸ length_le_of_searchRequest hpath
  constructor
  · rw [hone.1 _ graphFor_searchRequest]
    rfl
  · exact ((htwo.2.2 (isFieldTree_tree searchRequest)).2 hway).1

end GraphQuery.Selection
