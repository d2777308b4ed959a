import GraphQuery.Document.Parser
import GraphQuery.Operation
import GraphQuery.Proofs.Graph.Decoding
import GraphQuery.Proofs.Graph.RecordForm

/-! The document that an operation on one graph is: one operation without a header, with the field
that the graph means, where the graph is safe and means one. -/
namespace GraphQuery

open Document Document.Parser

def Operation.kind : Operation → OperationKind
  | .query => .query
  | .mutation => .mutation

@[simp] theorem Operation.keyword_kind (o : Operation) : o.kind.keyword = o.keyword := by
  cases o <;> rfl

theorem Operation.isName_keyword (o : Operation) : isName o.keyword = true := by
  cases o <;> decide

namespace Graph

/-- The tree that an operation on a value selects. -/
def selected? (g : Datum) : Option Node :=
  (Surface.readGraph g).toOption.bind fun d => (nodeOf? d).map (amongOthers d)

theorem exists_of_selected? {g : Datum} {n : Node} (h : selected? g = some n) :
    ∃ d m, Surface.readGraph g = .ok d ∧ nodeOf? d = some m ∧ amongOthers d m = n := by
  rw [selected?] at h
  obtain ⟨d, hd, h⟩ := Option.bind_eq_some_iff.1 h
  obtain ⟨m, hm, hn⟩ := Option.map_eq_some_iff.1 h
  exact ⟨d, m, toOption_eq_some.1 hd, hm, hn⟩

theorem readGraph_toDatum (n : Node) : Surface.readGraph n.toDatum = .ok n.toDatum := by
  obtain ⟨i, name, as, ps, ns⟩ := n
  rw [Surface.readGraph, Node.toDatum, Form.isNode_node, if_pos rfl]

theorem readGraph_string (s : String) :
    Surface.readGraph (.string s) = .ok (Node.plain (.string s) []).toDatum := by
  have hn : Form.isNode (.string s) = false := rfl
  rw [Surface.readGraph, if_neg (by simp [hn])]
  simp only [Surface.split, Surface.readIdentifier, Surface.readMetadata, Surface.Split.value?,
    Surface.readOperationName, Surface.readArguments, Surface.readParameterList,
    Surface.readGraphs, bind, Except.bind, pure, Except.pure]
  simp [Node.plain, Node.toDatum, nodeData, Identifier.toDatum, argumentListDatum,
    parameterListDatum]

theorem selected?_of_readGraph {g : Datum} {n : Node}
    (h : Surface.readGraph g = .ok n.toDatum) : selected? g = some n := by
  rw [selected?, h]
  show (nodeOf? n.toDatum).map _ = _
  rw [Node.nodeOf?_toDatum, Option.map_some, amongOthers_toDatum]

/-- An operation on a tree, as a graph. -/
def Node.under (o : Operation) (n : Node) : Node := .plain (.token o.keyword) [n]

theorem chars_under (o : Operation) (n : Node) :
    (n.under o).chars = o.keyword.toList ++ '\x7b' :: (n.chars ++ ['\x7d']) := by
  rw [Node.under, Node.plain, chars_node]
  simp [Identifier.chars, Identifier.text, nameChars, argumentsChars, parametersChars,
    childrenChars]

theorem nodesOf?_singleton (d : Datum) :
    nodesOf? [d] = (nodeOf? d).map fun n => [amongOthers d n] := by
  rw [nodesOf?, nodesOf?]
  cases nodeOf? d <;> rfl

end Graph

namespace Operation

open GraphQuery.Graph

theorem nodeOf?_record (o : Operation) (d : Datum) :
    nodeOf? (Form.node (Form.token (.string o.keyword)) (Form.metadata none none none) [d]) =
      ((nodeOf? d).map (amongOthers d)).map (Node.under o) := by
  rw [nodeOf?]
  simp [Form.node, Form.ofKind, Form.token, Form.metadata, Datum.get, Datum.get?, Datum.entries?,
    Datum.isNothing, identifierOf?, kindOf, headEntry, Datum.string?, nameOf?, metadataEntry?,
    List.lookup_cons]
  rw [nodesOf?_singleton, Option.map_map]
  rfl

theorem textOf_singleton (o : Operation) (g : Datum) (text : String) :
    o.textOf [g] = .ok text ↔ ∃ n, selected? g = some n ∧ text = (n.under o).text := by
  simp only [textOf, ofArguments, record, Node.ofRecord, selected?]
  cases Surface.readGraph g with
  | error m => simp [bind, Except.bind, Except.toOption]
  | ok d =>
    simp only [mapError_ok, Except.toOption, bind, Except.bind, pure, Except.pure,
      nodeOf?_record, Option.bind_some]
    cases nodeOf? d with
    | none => simp
    | some n => simp [eq_comm]

/-- The definition that consists of one field, under the keyword alone. -/
def definitionOf (o : Operation) (field : Selection) : Definition :=
  .operation ⟨none, o.kind, none, [], [], [field]⟩

theorem lex_under (o : Operation) (n : Node) :
    lex (n.under o).chars = .next (.name o.kind.keyword)
      (.next (.punctuator .braceOpen) (lex (n.chars ++ ['\x7d']))) := by
  rw [chars_under, lex_name o.isName_keyword (Text.stops_cons.2 (by decide)), lex_braceOpen, keyword_kind]

theorem yields_definition (o : Operation) {n : Node} (hs : n.Safe) :
    Yields (answer (definition (lex (n.under o).chars))) (n.meaning?.map o.definitionOf) .done := by
  have hitems : Yields (answer (itemsUntil .braceClose (lex (n.chars ++ ['\x7d']))
      fun t _ => selection t)) (nodeMeanings? [n]) (lex []) :=
    yields_fields n [] (by simpa using ⟨hs, Node.agrees n hs⟩) []
  rw [nodeMeanings?_eq_mapM] at hitems
  have hfield := hitems.map fun ss : List Selection =>
    Definition.operation ⟨none, o.kind, none, [], [], ss⟩
  rw [lex_under, definition_keyword, operation_braceOpen]
  cases hm : n.meaning? with
  | none =>
    rw [mapM_cons_of_none hm] at hfield
    exact hfield
  | some field =>
    rw [mapM_cons_of_some hm, lex_nil] at hfield
    exact hfield

/-- The text of an operation on a safe tree is the document with the field that the tree means, and
no document if it means none. -/
theorem parse_under (o : Operation) {n : Node} (hs : n.Safe) (doc : Document) :
    Document.parse (n.under o).text = .ok doc ↔
      ∃ field, n.meaning? = some field ∧ doc = ⟨[o.definitionOf field]⟩ := by
  have h := yields_definition o hs
  rw [Document.parse, ← Node.chars]
  cases hm : n.meaning? with
  | none =>
    rw [hm] at h
    obtain ⟨f, hf⟩ := h
    rw [definitions_of_error hf]
    simp [Except.map]
  | some field =>
    rw [hm] at h
    rw [definitions_of_done h]
    simp [Except.map, eq_comm]

theorem check_under (o : Operation) {n : Node} (hs : n.Safe) (doc : Document) :
    Document.check (.string (n.under o).text) = .ok doc ↔
      ∃ field, n.meaning? = some field ∧ doc = ⟨[o.definitionOf field]⟩ := by
  rw [Document.check, mapError_eq_ok]
  exact parse_under o hs doc

end Operation
end GraphQuery
