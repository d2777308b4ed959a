import GraphQuery.Proofs.Graph.Outline
import GraphQuery.Proofs.Operation.Reading
import GraphQuery.Proofs.Surface.Closure

/-! What reading guarantees. A graph that is read is well-formed if all that already was in record
form is, and a well-formed graph can be written, called as an operation and checked. -/
namespace GraphQuery.Surface

open GraphQuery.Graph

theorem readClosed_wellFormed : ReadClosed Value.WellFormed Node.WellFormed where
  token _ := wellFormed_token
  reference _ := wellFormed_variable
  string _ := wellFormed_string
  number _ hn := wellFormed_number.2 hn
  object _ has := wellFormed_object.2 ⟨has.1, wellFormedArguments_iff.2 has.2⟩
  graph _ hn := wellFormed_graph.2 hn
  node _ _ as ps _ hi has hps hns := by
    refine wellFormed_node.2 ⟨hi, ?_, ?_, wellFormedNodes_iff.2 hns⟩
    · cases as with
      | none => exact wellFormedArgumentList_none
      | some l =>
        obtain ⟨hdistinct, hvs⟩ := has l rfl
        exact wellFormedArgumentList_some.2 ⟨hdistinct, wellFormedArguments_iff.2 hvs⟩
    · cases ps with
      | none => exact wellFormedParameterList_none
      | some l => exact wellFormedParameterList_some.2 (wellFormedParameters_iff.2 (hps l rfl))

theorem PartsWellFormed.partsHave {d : Datum} (h : PartsWellFormed d) :
    PartsHave Value.WellFormed Node.WellFormed d :=
  ⟨h.value, h.node⟩

theorem wellFormedNode_of_readGraph {d r : Datum} (hd : PartsWellFormed d)
    (h : readGraph d = .ok r) : WellFormedNode r :=
  readClosed_wellFormed.node_of_readGraph hd.partsHave h

/-! Calls on what is read. -/

theorem ofRecord_of_describes {d : Datum} {n : Node} (h : DescribesNode d n) :
    Node.ofRecord d = .ok n := by
  rw [Node.ofRecord, h.nodeOf?]

theorem textOf_of_describes {o : Operation} {args : List Datum} {d : Datum} {n : Node}
    (h : o.ofArguments args = .ok d) (hd : DescribesNode d n) : o.textOf args = .ok n.text := by
  rw [Operation.textOf, h]
  show (Node.ofRecord d).mapError _ >>= _ = _
  rw [ofRecord_of_describes hd]
  rfl

theorem record_of_isNode (o : Operation) (m : Datum) {r : Datum} (h : Form.isNode r = true) :
    o.record m r = .ok (Form.node (Form.token (.string o.keyword)) m [r]) := by
  rw [Operation.record, readGraph_of_isNode h]
  rfl

theorem textOf_singleton_of_describes (o : Operation) {r : Datum} {n : Node}
    (h : DescribesNode r n) : o.textOf [r] = .ok (n.under o).text :=
  textOf_of_describes (record_of_isNode o _ h.isNode)
    (.mk rfl (.token rfl rfl) hasMetadata_metadata .none .none rfl (.cons h .nil))

theorem exists_textOf_of_readHeader {o : Operation} {header m r : Datum} {n : Node}
    (hd : PartsWellFormed header) (hm : o.readHeader header = .ok m) (h : DescribesNode r n)
    (hn : n.WellFormed) : ∃ text, o.textOf [header, r] = .ok text := by
  have hargs : o.ofArguments [header, r] =
      .ok (Form.node (Form.token (.string o.keyword)) m [r]) := by
    rw [Operation.ofArguments, hm]
    exact record_of_isNode o m h.isNode
  have hhead : DescribesIdentifier (Form.token (.string o.keyword)) (.token o.keyword) :=
    .token rfl rfl
  obtain ⟨k, hk, -⟩ := readClosed_wellFormed.node_of_fields ⟨_, hhead, trivial⟩
    (readClosed_wellFormed.metadata_of_readHeader hd.partsHave hm) (.cons h .nil)
    (List.forall_mem_singleton.2 hn)
  exact ⟨k.text, textOf_of_describes hargs hk⟩

theorem check_of_describes (l : Limits) {r : Datum} {n : Node} (h : DescribesNode r n) :
    l.check r = .ok (l.violations n) := by
  have ho : Node.outlineOfDatum r = .ok n.outline := by
    rw [Node.outlineOfDatum, readGraph_of_isNode h.isNode]
    simp [bind, Except.bind, h.outlineOf?, pure, Except.pure]
  rw [Limits.check, ho]
  simp only [Limits.violations, Node.height_outline, Node.size_outline, Node.fieldNames_outline]

theorem textOf_of_readGraph {g r : Datum} {n : Node} (hr : readGraph g = .ok r)
    (hn : Node.ofRecord r = .ok n) : Graph.textOf g = .ok n.text := by
  rw [Graph.textOf, Node.ofDatum, hr]
  show (Node.ofRecord r).map Node.text = _
  rw [hn]
  rfl

/-- A graph whose parts in record form are well-formed is read as a well-formed one, and that can
be written, be the graph of an operation under any header of the same kind, and be checked. -/
theorem wellFormed_of_readGraph {g r : Datum} (hg : PartsWellFormed g) (hr : readGraph g = .ok r) :
    ∃ n, DescribesNode r n ∧ n.WellFormed ∧ Node.ofRecord r = .ok n ∧
      Graph.textOf g = .ok n.text ∧
      (∀ o : Operation, o.textOf [r] = .ok (n.under o).text) ∧
      (∀ (o : Operation) header m, PartsWellFormed header → o.readHeader header = .ok m →
        ∃ text, o.textOf [header, r] = .ok text) ∧
      ∀ l : Limits, l.check r = .ok (l.violations n) := by
  obtain ⟨n, hn, hw⟩ := wellFormedNode_of_readGraph hg hr
  have hrecord := ofRecord_of_describes hn
  exact ⟨n, hn, hw, hrecord, textOf_of_readGraph hr hrecord,
    fun o => textOf_singleton_of_describes o hn,
    fun o header m hd hm => exists_textOf_of_readHeader hd hm hn hw,
    fun l => check_of_describes l hn⟩

/-- A graph with a token among its arguments and a child that are in record form. -/
def issueGraph : Datum :=
  .list [.string "issue", .mark (.tag .arguments),
    .list [.list [.string "state", Form.token (.string "OPEN")]],
    Form.node (Form.string (.string "title")) (Form.metadata none none none) []]

theorem partsWellFormed_issueGraph : PartsWellFormed issueGraph := by
  have htoken : PartsWellFormed (Form.token (.string "OPEN")) := by
    have h := partsWellFormed_value (.token "OPEN") wellFormed_token
    rwa [Value.toDatum] at h
  have hnode : (Node.mk (.string "title") none none none []).WellFormed := by
    simp [wellFormed_node, Identifier.WellFormed]
  have htitle : PartsWellFormed
      (Form.node (Form.string (.string "title")) (Form.metadata none none none) []) := by
    have h := partsWellFormed_node _ hnode
    rwa [Node.toDatum, argumentListDatum, parameterListDatum, nodeData] at h
  have hpair : PartsWellFormed (.list [.string "state", Form.token (.string "OPEN")]) :=
    partsWellFormed_list
      (List.forall_mem_cons.2 ⟨partsWellFormed_atom rfl, List.forall_mem_singleton.2 htoken⟩)
  refine partsWellFormed_list ?_
  simp only [List.forall_mem_cons]
  exact ⟨partsWellFormed_atom rfl, partsWellFormed_atom rfl,
    partsWellFormed_list (List.forall_mem_singleton.2 hpair), htitle, List.forall_mem_nil _⟩

theorem writesGraph_issueGraph : WritesGraph issueGraph := by
  refine .list (.positional rfl (.tag .arguments _ (.positional rfl .nil))) (.string "issue")
    ⟨fun d hd => ?_, fun d hd => ?_, fun d hd => ?_⟩ (List.forall_mem_singleton.2 (.inForm rfl))
  · cases hd
  · cases hd
    exact ⟨.pairs, [("state", Form.token (.string "OPEN"))], rfl, by decide,
      List.forall_mem_singleton.2 (.inForm rfl)⟩
  · cases hd

theorem wellFormed_of_issueGraph :
    PartsWellFormed issueGraph ∧
      ∃ r n text, readGraph issueGraph = .ok r ∧ DescribesNode r n ∧ n.WellFormed ∧
        Operation.query.textOf [r] = .ok (n.under .query).text ∧
        Operation.query.textOf [.list [.string "Open"], r] = .ok text := by
  have hheader : PartsWellFormed (.list [.string "Open"]) :=
    partsWellFormed_list (List.forall_mem_singleton.2 (partsWellFormed_atom rfl))
  obtain ⟨r, hr⟩ := exists_readGraph writesGraph_issueGraph
  obtain ⟨n, hn, hw, -, -, htext, hcall, -⟩ :=
    wellFormed_of_readGraph partsWellFormed_issueGraph hr
  obtain ⟨text, hopen⟩ := hcall .query (.list [.string "Open"]) _ hheader rfl
  exact ⟨partsWellFormed_issueGraph, r, n, text, hr, hn, hw, htext .query, hopen⟩

end GraphQuery.Surface
