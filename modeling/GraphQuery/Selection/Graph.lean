import GraphQuery.Graph.Text
import GraphQuery.Selection.Keep
import GraphQuery.Selection.Request

/-! The graph of a requested field, from its tree. Fields requested on several types are merged
by response key, the first that is kept going before; arguments are attached to the root alone.
Of a tree only the parts that are kept have to be well-formed. -/
namespace GraphQuery.Selection

open GraphQuery.Graph

/-- The fields below a field, of all its types in order, from the trees by type. -/
def entriesBelow? (types : Datum) : Option (List (String × Datum)) := do
  let ts ← types.members?
  let es ← ts.mapM fun t => t.2.members?
  return es.flatten

/-- The trees that are kept of fields under response keys: of each key the first one whose name
is kept, unless the key is one of those seen before. -/
def survivors? (k : Keep) (seen : List String) : List (String × Datum) → Option (List Datum)
  | [] => some []
  | (key, d) :: rest =>
    if key ∈ seen then survivors? k seen rest
    else if d.isNothing then none
    else match k.keepsName? (d.get "name") with
      | none => none
      | some false => survivors? k seen rest
      | some true => (survivors? k (key :: seen) rest).map (d :: ·)

def survivorsBelow? (k : Keep) (types : Datum) : Option (List Datum) :=
  (entriesBelow? types).bind (survivors? k [])

theorem mem_of_survivors {k : Keep} {seen : List String} {es : List (String × Datum)}
    {ds : List Datum} (h : survivors? k seen es = some ds) : ∀ d ∈ ds, ∃ key, (key, d) ∈ es := by
  fun_induction survivors? k seen es generalizing ds with
  | case1 => cases h; simp
  | case2 seen key d rest _ ih =>
    intro x hx
    obtain ⟨y, hy⟩ := ih h x hx
    exact ⟨y, List.mem_cons_of_mem _ hy⟩
  | case3 => cases h
  | case4 => cases h
  | case5 seen key d rest _ _ _ ih =>
    intro x hx
    obtain ⟨y, hy⟩ := ih h x hx
    exact ⟨y, List.mem_cons_of_mem _ hy⟩
  | case6 seen key d rest _ _ _ ih =>
    obtain ⟨ds', h', rfl⟩ := Option.map_eq_some_iff.1 h
    intro x hx
    rcases List.mem_cons.1 hx with rfl | hx
    · exact ⟨key, List.mem_cons_self⟩
    · obtain ⟨y, hy⟩ := ih h' x hx
      exact ⟨y, List.mem_cons_of_mem _ hy⟩

theorem mem_of_entriesBelow {types : Datum} {es : List (String × Datum)}
    (h : entriesBelow? types = some es) : ∀ e ∈ es, ∃ ts, types.members? = some ts ∧
      ∃ t ∈ ts, ∃ fs, t.2.members? = some fs ∧ e ∈ fs := by
  simp only [entriesBelow?, Option.bind_eq_bind, Option.pure_def, Option.bind_eq_some_iff] at h
  obtain ⟨ts, hts, ess, hess, h⟩ := h
  cases h
  intro e he
  refine ⟨ts, hts, ?_⟩
  clear hts
  induction ts generalizing ess with
  | nil => simp at hess; simp [hess] at he
  | cons t ts ih =>
    simp only [List.mapM_cons, Option.bind_eq_bind, Option.pure_def,
      Option.bind_eq_some_iff] at hess
    obtain ⟨fs, hfs, ess', hess', hc⟩ := hess
    cases hc
    rcases List.mem_append.1 he with he | he
    · exact ⟨t, List.mem_cons_self, fs, hfs, he⟩
    · obtain ⟨t', ht', rest⟩ := ih _ hess' he
      exact ⟨t', List.mem_cons_of_mem _ ht', rest⟩

theorem sizeOf_below_lt {k : Keep} {types d t : Datum} {ds : List Datum} {key : String}
    (h : survivorsBelow? k types = some ds) (hd : d ∈ ds) (ht : d.get? key = some t) :
    sizeOf t < sizeOf types := by
  obtain ⟨es, hes, hs⟩ := Option.bind_eq_some_iff.1 h
  obtain ⟨key', he⟩ := mem_of_survivors hs d hd
  obtain ⟨ts, hts, p, hp, fs, hfs, hm⟩ := mem_of_entriesBelow hes _ he
  have hds := Datum.isString_of_get? ht
  have h₁ := Datum.sizeOf_get?_lt ht
  have h₂ := Datum.sizeOf_member_lt hfs _ hm hds
  have hps : p.2.isString = false := by
    cases hp2 : p.2 with
    | string s =>
      rw [hp2] at hfs
      exact absurd (Datum.isString_of_members hfs _ hm) (by simp [hds])
    | _ => rfl
  have h₃ := Datum.sizeOf_member_lt hts _ hp hps
  simp only at h₂
  omega

/-- The head of a requested field; an alias that repeats the name is none. -/
def headOf (d : Datum) : Datum :=
  let aliasName := d.get "alias"
  if aliasName.isFalsy || aliasName.isSame (d.get "name") then Form.string (d.get "name")
  else Form.aliased (d.get "name") aliasName

noncomputable def largestBelow : List Datum → Nat
  | [] => 0
  | d :: rest => max (((d.get? "fieldsByTypeName").map sizeOf).getD 0) (largestBelow rest)

theorem largestBelow_lt {ds : List Datum} {n : Nat} (hn : 0 < n)
    (h : ∀ d ∈ ds, ∀ t, d.get? "fieldsByTypeName" = some t → sizeOf t < n) :
    largestBelow ds < n := by
  induction ds with
  | nil => exact hn
  | cons d ds ih =>
    have hr := ih fun x hx => h x (List.mem_cons_of_mem _ hx)
    have hd := h d List.mem_cons_self
    cases ht : d.get? "fieldsByTypeName" with
    | none => simpa [largestBelow, ht] using hr
    | some t =>
      have := hd t ht
      simp only [largestBelow, ht, Option.map_some, Option.getD_some]
      omega

mutual

/-- The nodes of what is kept of the fields below a field, which stand at a level. -/
def children? (k : Keep) (level : Nat) (types : Datum) : Option (List Datum) :=
  if k.keepsLevel level then
    match _h : survivorsBelow? k types with
    | some ds => nodes? k level ds
    | none => none
  else some []
termination_by (sizeOf types, 0)
decreasing_by
  exact Prod.Lex.left _ _ (largestBelow_lt types.sizeOf_pos fun d hd t ht =>
    sizeOf_below_lt _h hd ht)

def nodes? (k : Keep) (level : Nat) : List Datum → Option (List Datum)
  | [] => some []
  | d :: rest =>
    let below? := match _h : d.get? "fieldsByTypeName" with
      | some types => children? k (level + 1) types
      | none => if k.keepsLevel (level + 1) then none else some []
    match below?, nodes? k level rest with
    | some below, some nodes =>
      some (Form.node (headOf d) (Form.metadata none none none) below :: nodes)
    | _, _ => none
termination_by ds => (largestBelow ds, ds.length + 1)
decreasing_by
  · have : sizeOf types ≤ largestBelow (d :: rest) := by
      simp only [largestBelow, _h, Option.map_some, Option.getD_some]
      exact Nat.le_max_left _ _
    rcases Nat.lt_or_eq_of_le this with h | h
    · exact Prod.Lex.left _ _ h
    · rw [h]; exact Prod.Lex.right _ (by simp)
  · have : largestBelow rest ≤ largestBelow (d :: rest) := Nat.le_max_right _ _
    rcases Nat.lt_or_eq_of_le this with h | h
    · exact Prod.Lex.left _ _ h
    · rw [h]; exact Prod.Lex.right _ (by simp)

end

def graphOf? (k : Keep) (arguments : Option (List Datum)) (tree : Datum) : Option Datum :=
  (children? k 1 (tree.get "fieldsByTypeName")).map
    (Form.node (headOf tree) (Form.metadata none arguments none))

def givenArguments (options : Datum) : Except Surface.Malformed (Option (List Datum)) :=
  match options.get "rootArguments" with
  | .absent => .ok none
  | d => (Surface.readFields d).map some

/-- The graph of a requested field under options; no graph where there is no request. The
arguments are read first. -/
def graphFor (options tree : Datum) : Except NotGraph (Option Datum) :=
  if isTree tree then do
    let arguments ← (givenArguments options).mapError .malformed
    match graphOf? (.ofOptions options) arguments tree with
    | some d => return some d
    | none => throw (.unreadable tree)
  else return none

end GraphQuery.Selection
