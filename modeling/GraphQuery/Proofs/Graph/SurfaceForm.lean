import GraphQuery.Proofs.Graph.WellFormed
import GraphQuery.Proofs.Surface.Grammar

/-! The surface form of a graph: a list of its head, its metadata under their tags, and its
children. Every well-formed graph is read back from it. -/
namespace GraphQuery.Graph

open Surface

/-- A text or a number stands for itself; other heads are in record form. -/
def Identifier.surface : Identifier → Datum
  | .string s => .string s
  | .number n => .number n
  | .token s => Form.token (.string s)
  | .aliased s a => Form.aliased (.string s) (.string a)

mutual

/-- An input object is a list of pairs, and a reference a pair with a mark of its own. Tokens and
graphs are in record form. -/
def Value.surface : Value → Datum
  | .string s => .string s
  | .number n => .number n
  | .variable s => .list [.mark .variable, .string s]
  | .object fields => .list (argumentPairs fields)
  | .token s => Form.token (.string s)
  | .graph n => Form.graph n.toDatum

def Argument.surface : Argument → Datum
  | ⟨s, v⟩ => .list [.string s, v.surface]

def argumentPairs : List Argument → List Datum
  | [] => []
  | a :: rest => a.surface :: argumentPairs rest

end

def Parameter.surface (p : Parameter) : Datum :=
  Form.parameter p.name p.type p.required (p.defaultValue.map Value.surface)

/-- The metadata that a node has, each under its tag. -/
def givenOf (name : Option String) (args : Option (List Argument))
    (ps : Option (List Parameter)) : List (MetaTag × Datum) :=
  (name.map fun s => (.operationName, .string s)).toList ++
    (args.map fun as => (.arguments, .list (argumentPairs as))).toList ++
    (ps.map fun ps => (.operationParameters, .list (ps.map Parameter.surface))).toList

/-- Tags, each with its value after it. -/
def tagged (given : List (MetaTag × Datum)) : List Datum :=
  given.flatMap fun g => [.mark (.tag g.1), g.2]

mutual

def Node.surface : Node → Datum
  | ⟨i, name, args, ps, children⟩ =>
    .list (i.surface :: (tagged (givenOf name args ps) ++ surfaces children))

def surfaces : List Node → List Datum
  | [] => []
  | n :: rest => n.surface :: surfaces rest

end

/-! Values and parameters. -/

/-- The entries that arguments are written as. -/
def surfaceEntries (as : List Argument) : List (String × Datum) :=
  as.map fun a => (a.name, a.value.surface)

theorem list_argumentPairs (as : List Argument) :
    Datum.list (argumentPairs as) = Writing.pairs.write (surfaceEntries as) := by
  have h : argumentPairs as = (surfaceEntries as).map fun e => .list [.string e.1, e.2] := by
    induction as with
    | nil => rw [argumentPairs]; rfl
    | cons a as ih =>
      obtain ⟨s, v⟩ := a
      rw [argumentPairs, Argument.surface, ih]
      rfl
  rw [h]
  rfl

theorem keys_surfaceEntries (as : List Argument) :
    (surfaceEntries as).map Prod.fst = as.map Argument.name := by
  simp [surfaceEntries]

/-- Arguments with names of their own are read back if their values are. -/
theorem readFields_argumentPairs {as : List Argument} (hn : DistinctNames as)
    (h : List.Forall₂ IsReadOf (surfaceEntries as) (argumentData as)) :
    readFields (.list (argumentPairs as)) = .ok (argumentData as) := by
  rw [list_argumentPairs]
  refine readFields_eq_ok.2 ⟨.pairs, surfaceEntries as, rfl, ?_, h⟩
  rw [keys_surfaceEntries]
  exact hn

mutual

theorem Value.readValue_surface (v : Value) (h : v.WellFormed) :
    readValue v.surface = .ok v.toDatum := by
  rcases v with s | s | as | s | n | n
  · rw [Value.surface, Value.toDatum]
    exact readValue_of_isValue rfl
  · rw [Value.surface, Value.toDatum]
    exact readValue_reference s
  · obtain ⟨hn, hw⟩ := wellFormed_object.1 h
    have hfields := readFields_argumentPairs hn (isReadOf_surfaceEntries as hw)
    rw [Value.surface, Value.toDatum]
    rw [list_argumentPairs] at hfields ⊢
    rw [readValue_pairs, hfields]
    rfl
  · rw [Value.surface, Value.toDatum, readValue]
    rfl
  · rw [Value.surface, Value.toDatum, readValue]
    exact readFinite_eq_ok.2 ⟨wellFormed_number.1 h, rfl⟩
  · rw [Value.surface, Value.toDatum]
    exact readValue_of_isValue n.describes_toDatum.isNode
termination_by structural v

theorem isReadOf_surfaceEntries (as : List Argument) (h : WellFormedArguments as) :
    List.Forall₂ IsReadOf (surfaceEntries as) (argumentData as) := by
  match as with
  | [] =>
    rw [argumentData]
    exact .nil
  | ⟨s, v⟩ :: as =>
    obtain ⟨hv, hrest⟩ := wellFormedArguments_cons.1 h
    rw [argumentData, Argument.toDatum]
    exact .cons ⟨v.toDatum, Value.readValue_surface v hv, rfl⟩ (isReadOf_surfaceEntries as hrest)
termination_by structural as

end

theorem Value.surface_ne_absent (v : Value) : v.surface ≠ .absent := by
  cases v <;> simp [Value.surface, Form.token, Form.graph, Form.ofKind]

theorem parameterShape_surface (p : Parameter) :
    parameterShape p.surface =
      .ok ⟨p.name, p.type, p.required, p.defaultValue.map Value.surface⟩ := by
  have hd : p.surface.get? "defaultValue" = p.defaultValue.map Value.surface := by
    rw [Parameter.surface]
    cases p.defaultValue <;> rfl
  have hp : present (p.defaultValue.map Value.surface) = p.defaultValue.map Value.surface := by
    cases p.defaultValue with
    | none => rfl
    | some v => exact present_eq_some.2 ⟨rfl, v.surface_ne_absent⟩
  have hname : p.surface.get "name" = .string p.name := rfl
  have htype : p.surface.get "type" = .string p.type := rfl
  rw [parameterShape_of_get hname htype, hd, hp]
  rfl

theorem Parameter.readParameter_surface (p : Parameter) (h : p.WellFormed) :
    readParameter p.surface = .ok p.toDatum := by
  obtain ⟨s, type, required, v⟩ := p
  have hs := parameterShape_surface ⟨s, type, required, v⟩
  rw [Parameter.WellFormed] at h
  rw [Parameter.toDatum]
  cases v with
  | none =>
    rw [readParameter_of_none hs rfl, defaultDatum]
  | some v =>
    rw [WellFormedDefault] at h
    rw [readParameter_of_some hs rfl, v.readValue_surface h, defaultDatum]
    rfl

theorem readParameters_surface (ps : List Parameter) (h : WellFormedParameters ps) :
    readParameters (ps.map Parameter.surface) = .ok (parameterData ps) := by
  induction ps with
  | nil => rw [parameterData]; rfl
  | cons p ps ih =>
    rw [WellFormedParameters] at h
    rw [List.map_cons, readParameters, p.readParameter_surface h.1, ih h.2, parameterData]
    rfl

/-! Nodes. -/

theorem Identifier.readIdentifier_surface (i : Identifier) (h : i.WellFormed) :
    readIdentifier i.surface = .ok i.toDatum := by
  cases i with
  | string s => rfl
  | number n => exact readFinite_eq_ok.2 ⟨h, rfl⟩
  | token s | aliased s a => exact readIdentifier_of_form rfl

theorem Identifier.isMetaTag_surface (i : Identifier) : Form.isMetaTag i.surface = false := by
  cases i <;> rfl

/-- A node is never taken for a tag, so its tags take their own values only. -/
theorem divides_surfaces (ns : List Node) : Divides (surfaces ns) [] (surfaces ns) := by
  induction ns with
  | nil => rw [surfaces]; exact .nil
  | cons n ns ih =>
    obtain ⟨i, name, args, ps, children⟩ := n
    rw [surfaces, Node.surface]
    exact .positional rfl ih

theorem divides_tagged (given : List (MetaTag × Datum)) {rest positional : List Datum}
    (h : Divides rest [] positional) : Divides (tagged given ++ rest) given positional := by
  induction given with
  | nil => exact h
  | cons g given ih => exact .tag g.1 g.2 ih

theorem readMetadata_givenOf (name : Option String) {args : Option (List Argument)}
    {ps : Option (List Parameter)} (positional : List Datum) (ha : WellFormedArgumentList args)
    (hp : WellFormedParameterList ps) :
    readMetadata ⟨Keyed.collect (givenOf name args ps), positional⟩ =
      .ok (Form.metadata name (argumentListDatum args) (parameterListDatum ps)) := by
  have hname : readOperationName (lastGiven (givenOf name args ps) .operationName) = .ok name := by
    cases name <;> cases args <;> cases ps <;> rfl
  have harguments : readArguments (lastGiven (givenOf name args ps) .arguments) =
      .ok (argumentListDatum args) := by
    have hl : lastGiven (givenOf name args ps) .arguments =
        args.map fun as => .list (argumentPairs as) := by
      cases name <;> cases args <;> cases ps <;> rfl
    rw [hl]
    cases args with
    | none => rw [argumentListDatum]; rfl
    | some as =>
      obtain ⟨hn, hw⟩ := wellFormedArgumentList_some.1 ha
      rw [Option.map_some, readArguments,
        readFields_argumentPairs hn (isReadOf_surfaceEntries as hw), argumentListDatum]
      rfl
  have hparameters : readParameterList (lastGiven (givenOf name args ps) .operationParameters) =
      .ok (parameterListDatum ps) := by
    have hl : lastGiven (givenOf name args ps) .operationParameters =
        ps.map fun ps => .list (ps.map Parameter.surface) := by
      cases name <;> cases args <;> cases ps <;> rfl
    rw [hl]
    cases ps with
    | none => rw [parameterListDatum]; rfl
    | some ps =>
      rw [Option.map_some, readParameterList,
        readParameters_surface ps (wellFormedParameterList_some.1 hp), parameterListDatum]
      rfl
  rw [readMetadata]
  simp only [value?_collect, hname, harguments, hparameters]
  rfl

mutual

theorem Node.readGraph_of_surface (n : Node) (h : n.WellFormed) :
    readGraph n.surface = .ok n.toDatum := by
  obtain ⟨i, name, args, ps, children⟩ := n
  obtain ⟨hi, ha, hp, hc⟩ := wellFormed_node.1 h
  have hdivides : Divides (i.surface :: (tagged (givenOf name args ps) ++ surfaces children))
      (givenOf name args ps) (i.surface :: surfaces children) :=
    .positional i.isMetaTag_surface (divides_tagged _ (divides_surfaces children))
  rw [Node.surface, readGraph_of_head rfl (split_of_divides hdivides) rfl,
    i.readIdentifier_surface hi, readMetadata_givenOf name _ ha hp, readGraphs_surfaces children hc,
    Node.toDatum]
  rfl
termination_by structural n

theorem readGraphs_surfaces (ns : List Node) (h : WellFormedNodes ns) :
    readGraphs (surfaces ns) = .ok (nodeData ns) := by
  match ns with
  | [] =>
    rw [surfaces, nodeData, readGraphs]
  | n :: ns =>
    obtain ⟨hn, hns⟩ := wellFormedNodes_cons.1 h
    rw [surfaces, nodeData, readGraphs, Node.readGraph_of_surface n hn, readGraphs_surfaces ns hns]
    rfl
termination_by structural ns

end

/-- The surface form can express every well-formed graph: it is read back as it was, also as to
which metadata is absent and which is there and empty. -/
theorem readGraph_surface (n : Node) (h : n.WellFormed) :
    readGraph n.surface = .ok n.toDatum ∧ Node.ofDatum n.surface = .ok n := by
  have hr := n.readGraph_of_surface h
  refine ⟨hr, ?_⟩
  rw [Node.ofDatum, hr]
  show Node.ofRecord n.toDatum = _
  rw [Node.ofRecord, n.nodeOf?_toDatum]

/-- A node with an empty name, an input object of two fields and an empty one, no parameters in a
list of them, and a child with an empty list of arguments. -/
theorem readGraph_surface_repository :
    readGraph (.list [Form.aliased (.string "repository") (.string "r"),
        .mark (.tag .operationName), .string "",
        .mark (.tag .arguments), .list [
          .list [.string "by", .list [.list [.string "state", Form.token (.string "OPEN")],
            .list [.string "owner", .list [.mark .variable, .string "owner"]]]],
          .list [.string "order", .list []]],
        .mark (.tag .operationParameters), .list [],
        .list [.string "name", .mark (.tag .arguments), .list []]]) =
      .ok (Form.node (Form.aliased (.string "repository") (.string "r"))
        (Form.metadata (some "") (some [
          Form.field "by" (Form.object [Form.field "state" (Form.token (.string "OPEN")),
            Form.field "owner" (Form.reference (.string "owner"))]),
          Form.field "order" (Form.object [])]) (some []))
        [Form.node (Form.string (.string "name")) (Form.metadata none (some []) none) []]) := by
  have hw : (Node.mk (.aliased "repository" "r") (some "")
      (some [⟨"by", .object [⟨"state", .token "OPEN"⟩, ⟨"owner", .variable "owner"⟩]⟩,
        ⟨"order", .object []⟩]) (some [])
      [.mk (.string "name") none (some []) none []]).WellFormed := by
    simp [wellFormed_node, DistinctNames, Identifier.WellFormed]
  have hr := (readGraph_surface _ hw).1
  simpa [Node.surface, Identifier.surface, givenOf, tagged, argumentPairs, Argument.surface,
    Value.surface, surfaces, Node.toDatum, nodeData, Identifier.toDatum, argumentListDatum,
    parameterListDatum, parameterData, argumentData, Argument.toDatum, Value.toDatum] using hr

end GraphQuery.Graph
