import GraphQuery.Proofs.Graph.Description

/-! The record form of a graph describes the graph, and is read back as it. -/
namespace GraphQuery.Graph

theorem Identifier.describes_toDatum (i : Identifier) : DescribesIdentifier i.toDatum i := by
  cases i with
  | token s => exact .token rfl rfl
  | string s => exact .string rfl rfl
  | number n => exact .number rfl rfl
  | aliased s a => exact .aliased rfl rfl rfl

theorem get_defaultValue_parameter (s type : String) (required : Bool) (v : Option Datum) :
    (Form.parameter s type required v).get "defaultValue" = v.getD .absent := by
  cases v <;> rfl

mutual

theorem Value.describes_toDatum (v : Value) : DescribesValue v.toDatum v := by
  rcases v with s | s | as | s | n | n
  · rw [Value.toDatum]
    exact .token rfl rfl
  · rw [Value.toDatum]
    exact .reference rfl rfl
  · rw [Value.toDatum]
    exact .object rfl rfl (describes_argumentData as)
  · rw [Value.toDatum]
    exact .string rfl rfl
  · rw [Value.toDatum]
    exact .number rfl rfl
  · rw [Value.toDatum]
    exact .graph rfl (Node.describes_toDatum n)
termination_by structural v

theorem describes_argumentData (as : List Argument) : DescribesFields (argumentData as) as := by
  match as with
  | [] =>
    rw [argumentData]
    exact .nil
  | ⟨s, v⟩ :: as =>
    rw [argumentData, Argument.toDatum]
    exact .cons rfl (Value.describes_toDatum v) (describes_argumentData as)
termination_by structural as

theorem describes_argumentListDatum (as : Option (List Argument)) :
    DescribesArguments (argumentListDatum as) as := by
  match as with
  | none =>
    rw [argumentListDatum]
    exact .none
  | some as =>
    rw [argumentListDatum]
    exact .some (describes_argumentData as)
termination_by structural as

theorem describes_defaultDatum (v : Option Value) :
    DescribesDefault ((defaultDatum v).getD .absent) v := by
  match v with
  | none =>
    rw [defaultDatum]
    exact .none
  | some v =>
    rw [defaultDatum]
    exact .some (Value.describes_toDatum v)
termination_by structural v

theorem describes_parameterData (ps : List Parameter) :
    DescribesParameters (parameterData ps) ps := by
  match ps with
  | [] =>
    rw [parameterData]
    exact .nil
  | ⟨s, type, required, v⟩ :: ps =>
    have hv := describes_defaultDatum v
    rw [← get_defaultValue_parameter s type required] at hv
    rw [parameterData, Parameter.toDatum]
    exact .cons rfl rfl rfl hv (describes_parameterData ps)
termination_by structural ps

theorem describes_parameterListDatum (ps : Option (List Parameter)) :
    DescribesParameterList (parameterListDatum ps) ps := by
  match ps with
  | none =>
    rw [parameterListDatum]
    exact .none
  | some ps =>
    rw [parameterListDatum]
    exact .some (describes_parameterData ps)
termination_by structural ps

theorem Node.describes_toDatum (n : Node) : DescribesNode n.toDatum n := by
  obtain ⟨i, name, as, ps, ns⟩ := n
  rw [Node.toDatum]
  exact .mk rfl i.describes_toDatum hasMetadata_metadata (describes_argumentListDatum as)
    (describes_parameterListDatum ps) rfl (describes_nodeData ns)
termination_by structural n

theorem describes_nodeData (ns : List Node) : DescribesNodes (nodeData ns) ns := by
  match ns with
  | [] =>
    rw [nodeData]
    exact .nil
  | n :: ns =>
    rw [nodeData]
    exact .cons (Node.describes_toDatum n) (describes_nodeData ns)
termination_by structural ns

end

theorem valueOf?_number (n : Number) : valueOf? (Form.number (.number n)) = some (.number n) :=
  (DescribesValue.number rfl rfl).valueOf?

theorem argumentsOf?_argumentData (as : List Argument) :
    argumentsOf? (argumentData as) = some as :=
  (describes_argumentData as).argumentsOf?

/-- The record form of a node is read as the node. -/
theorem Node.nodeOf?_toDatum (n : Node) : nodeOf? n.toDatum = some n :=
  n.describes_toDatum.nodeOf?

theorem amongOthers_toDatum (m n : Node) : amongOthers n.toDatum m = m :=
  amongOthers_of_headIsText n.describes_toDatum.headIsText m

end GraphQuery.Graph
