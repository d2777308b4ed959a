import GraphQuery.Proofs.Graph.RecordForm

/-! Well-formed graphs: all numbers are finite, and each argument list and each input object names
every key once. A record is well-formed if it describes such a graph. -/
namespace GraphQuery.Graph

def Identifier.WellFormed : Identifier → Prop
  | .number n => n.isFinite = true
  | .token _ | .string _ | .aliased _ _ => True

/-- Every argument has a name of its own. -/
def DistinctNames (as : List Argument) : Prop := (as.map Argument.name).Nodup

mutual

def Value.WellFormed : Value → Prop
  | .token _ | .variable _ | .string _ => True
  | .object fields => DistinctNames fields ∧ WellFormedArguments fields
  | .number n => n.isFinite = true
  | .graph n => n.WellFormed

def Argument.WellFormed : Argument → Prop
  | ⟨_, v⟩ => v.WellFormed

def WellFormedArguments : List Argument → Prop
  | [] => True
  | a :: rest => a.WellFormed ∧ WellFormedArguments rest

def WellFormedArgumentList : Option (List Argument) → Prop
  | none => True
  | some as => DistinctNames as ∧ WellFormedArguments as

def WellFormedDefault : Option Value → Prop
  | none => True
  | some v => v.WellFormed

def Parameter.WellFormed : Parameter → Prop
  | ⟨_, _, _, v⟩ => WellFormedDefault v

def WellFormedParameters : List Parameter → Prop
  | [] => True
  | p :: rest => p.WellFormed ∧ WellFormedParameters rest

def WellFormedParameterList : Option (List Parameter) → Prop
  | none => True
  | some ps => WellFormedParameters ps

def Node.WellFormed : Node → Prop
  | ⟨i, _, as, ps, children⟩ =>
    i.WellFormed ∧ WellFormedArgumentList as ∧ WellFormedParameterList ps ∧
      WellFormedNodes children

def WellFormedNodes : List Node → Prop
  | [] => True
  | n :: rest => n.WellFormed ∧ WellFormedNodes rest

end

section
variable {s name type : String} {n : Number} {m : Node} {v : Value} {as : List Argument}
  {required : Bool} {ps : List Parameter} {ns : List Node}

@[simp] theorem wellFormed_token : (Value.token s).WellFormed := by simp [Value.WellFormed]

@[simp] theorem wellFormed_variable : (Value.variable s).WellFormed := by simp [Value.WellFormed]

@[simp] theorem wellFormed_string : (Value.string s).WellFormed := by simp [Value.WellFormed]

@[simp] theorem wellFormed_number : (Value.number n).WellFormed ↔ n.isFinite = true := by
  rw [Value.WellFormed]

@[simp] theorem wellFormed_object :
    (Value.object as).WellFormed ↔ DistinctNames as ∧ WellFormedArguments as := by
  rw [Value.WellFormed]

@[simp] theorem wellFormed_graph : (Value.graph m).WellFormed ↔ m.WellFormed := by
  rw [Value.WellFormed]

@[simp] theorem wellFormedArguments_nil : WellFormedArguments [] := by
  simp [WellFormedArguments]

@[simp] theorem wellFormedArguments_cons :
    WellFormedArguments (⟨s, v⟩ :: as) ↔ v.WellFormed ∧ WellFormedArguments as := by
  rw [WellFormedArguments, Argument.WellFormed]

@[simp] theorem wellFormedArgumentList_none : WellFormedArgumentList none := by
  simp [WellFormedArgumentList]

@[simp] theorem wellFormedArgumentList_some :
    WellFormedArgumentList (some as) ↔ DistinctNames as ∧ WellFormedArguments as := by
  rw [WellFormedArgumentList]

@[simp] theorem wellFormedParameters_nil : WellFormedParameters [] := by
  simp [WellFormedParameters]

@[simp] theorem wellFormedParameters_cons_none :
    WellFormedParameters (⟨name, type, required, none⟩ :: ps) ↔ WellFormedParameters ps := by
  simp [WellFormedParameters, Parameter.WellFormed, WellFormedDefault]

@[simp] theorem wellFormedParameters_cons_some :
    WellFormedParameters (⟨name, type, required, some v⟩ :: ps) ↔
      v.WellFormed ∧ WellFormedParameters ps := by
  simp [WellFormedParameters, Parameter.WellFormed, WellFormedDefault]

@[simp] theorem wellFormedParameterList_none : WellFormedParameterList none := by
  simp [WellFormedParameterList]

@[simp] theorem wellFormedParameterList_some :
    WellFormedParameterList (some ps) ↔ WellFormedParameters ps := by
  rw [WellFormedParameterList]

@[simp] theorem wellFormedNodes_nil : WellFormedNodes [] := by simp [WellFormedNodes]

@[simp] theorem wellFormedNodes_cons :
    WellFormedNodes (m :: ns) ↔ m.WellFormed ∧ WellFormedNodes ns := by
  rw [WellFormedNodes]

theorem wellFormedArguments_iff : WellFormedArguments as ↔ ∀ a ∈ as, a.value.WellFormed := by
  induction as with
  | nil => simp
  | cons a as ih =>
    obtain ⟨s, v⟩ := a
    rw [wellFormedArguments_cons, ih, List.forall_mem_cons]

theorem wellFormedParameters_iff :
    WellFormedParameters ps ↔ ∀ p ∈ ps, ∀ v, p.defaultValue = some v → v.WellFormed := by
  induction ps with
  | nil => simp
  | cons p ps ih =>
    obtain ⟨name, type, required, v⟩ := p
    rw [List.forall_mem_cons, ← ih]
    cases v with
    | none => simp
    | some v => simp

theorem wellFormedNodes_iff : WellFormedNodes ns ↔ ∀ n ∈ ns, n.WellFormed := by
  induction ns with
  | nil => simp
  | cons n ns ih => rw [wellFormedNodes_cons, ih, List.forall_mem_cons]

theorem wellFormed_node {i : Identifier} {operation : Option String}
    {args : Option (List Argument)} {qs : Option (List Parameter)} :
    (Node.mk i operation args qs ns).WellFormed ↔
      i.WellFormed ∧ WellFormedArgumentList args ∧ WellFormedParameterList qs ∧
        WellFormedNodes ns := by
  rw [Node.WellFormed]

end

/-- A record of a well-formed value. -/
def WellFormedValue (d : Datum) : Prop := ∃ v, DescribesValue d v ∧ v.WellFormed

/-- A record of a well-formed graph. -/
def WellFormedNode (d : Datum) : Prop := ∃ n, DescribesNode d n ∧ n.WellFormed

theorem DescribesNode.isNode {d : Datum} {n : Node} (h : DescribesNode d n) :
    Form.isNode d = true := by
  obtain ⟨hk, -, -, -, -, hf, -⟩ := h
  rw [Form.isNode, hk, hf]
  rfl

end GraphQuery.Graph
