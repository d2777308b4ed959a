import GraphQuery.Proofs.Document.Declarations
import GraphQuery.Proofs.Operation.RoundTrip
import GraphQuery.Proofs.Graph.SurfaceForm

/-! Operations that declare parameters. The text of the list under the keyword, with specifications
and graphs, is a document whose variables are the parameters, in order and with their types. -/
namespace GraphQuery

open Document Document.Parser Text

namespace Graph

/-- A parameter that is written as it is meant: its type may be marked as required if it is not
marked already, and its default is a constant. -/
structure Parameter.Plain (p : Parameter) : Prop where
  name : isName p.name = true
  type : ∃ t, WritesType p.type.toList t
  required : p.required = true → p.type.toList.getLast? ≠ some '!'
  defaultValue : ∀ v ∈ p.defaultValue, v.Plain ∧ v.Constant

/-- The variable that a parameter declares. -/
structure Parameter.Declares (p : Parameter) (d : VariableDefinition) : Prop where
  description : d.description = none
  name : d.name = p.name
  type : ∃ t, WritesType p.type.toList t ∧ d.type = if p.required then .nonNull t else t
  defaultValue : d.defaultValue.map some = p.defaultValue.map Value.meaning?
  directives : d.directives = []

/-- What may stand behind a declaration: the next one, or the end of the list. -/
structure EndsDeclaration (rest : List Char) : Prop extends EndsValue rest where
  item : ∀ p, p ≠ .dollar → p ≠ .parenClose → accept p (lex rest) = none

section
variable {rest : List Char}

theorem chars_parameter_append (p : Parameter) (rest : List Char) :
    p.chars ++ rest = '$' :: (p.name.toList ++ ':' ::
      ((p.type.toList ++ if p.required then ['!'] else []) ++
        (defaultChars p.defaultValue ++ rest))) := by
  obtain ⟨s, type, required, v⟩ := p
  simp

theorem lex_parameter (p : Parameter) (rest : List Char) :
    ∃ s, lex (p.chars ++ rest) = .next (.punctuator .dollar) s := by
  rw [chars_parameter_append, lex_dollar]
  exact ⟨_, rfl⟩

theorem endsDeclaration_trail (ps : List Parameter) (rest : List Char) :
    EndsDeclaration (trail ',' Parameter.chars ps ++ ')' :: rest) := by
  refine ⟨⟨stops_trail argumentDelimiters (by decide) (by decide) ps,
    stops_trail argumentDelimiters (by decide) (by decide) ps⟩, fun q hd hp => ?_⟩
  cases ps with
  | nil =>
    rw [trail_nil, List.nil_append, lex_parenClose]
    exact accept_of_ne (Ne.symm hp)
  | cons p ps =>
    obtain ⟨s, hs⟩ := lex_parameter p (trail ',' Parameter.chars ps ++ ')' :: rest)
    rw [trail_cons_append, lex_comma, hs]
    exact accept_of_ne (Ne.symm hd)

theorem Parameter.Plain.exists_type {p : Parameter} (h : p.Plain) :
    ∃ t u, WritesType p.type.toList t ∧ u = (if p.required then .nonNull t else t) ∧
      WritesType (p.type.toList ++ if p.required then ['!'] else []) u := by
  obtain ⟨t, ht⟩ := h.type
  refine ⟨t, _, ht, rfl, ?_⟩
  cases hr : p.required with
  | true => exact ht.required (h.required hr)
  | false => simpa using ht

theorem accept_defaultChars (v : Option Value) (he : EndsDeclaration rest) :
    accept .bang (lex (defaultChars v ++ rest)) = none := by
  cases v with
  | none => exact he.item .bang (by decide) (by decide)
  | some v =>
    rw [defaultChars, List.cons_append, lex_equals]
    exact accept_of_ne (by decide)

theorem stops_defaultChars {p : Char → Bool} (v : Option Value) (hp : p '=' = false)
    (hr : Stops p rest) : Stops p (defaultChars v ++ rest) := by
  cases v with
  | none => exact hr
  | some v => exact stops_cons.2 hp

theorem exists_default (v : Option Value) (hv : ∀ w ∈ v, w.Plain ∧ w.Constant) :
    ∃ w, w.map some = v.map Value.meaning? ∧ ∀ rest, EndsDeclaration rest →
      answer (defaultValue (lex (defaultChars v ++ rest))) = .ok (w, lex rest) := by
  cases v with
  | none =>
    exact ⟨none, rfl, fun rest he =>
      defaultValue_of_none (he.item .equals (by decide) (by decide))⟩
  | some v =>
    obtain ⟨hp, hc⟩ := hv v rfl
    obtain ⟨hs, w, hw⟩ := Value.Plain.safe v hp
    refine ⟨some w, by rw [Option.map_some, Option.map_some, hw], fun rest he => ?_⟩
    have h : Agrees (answer (value true (lex (v.chars ++ rest)))) v.meaning? (lex rest) :=
      Value.agrees v hs (fun _ => hc) rest he.toEndsValue
    rw [hw, agrees_some] at h
    rw [defaultChars, List.cons_append, lex_equals]
    exact defaultValue_next h

/-- A declaration is read as the variable that the parameter declares, in front of any text that
ends it. -/
theorem exists_declaration {p : Parameter} (h : p.Plain) :
    ∃ d, p.Declares d ∧ ∀ rest, EndsDeclaration rest →
      answer (variableDefinition (lex (p.chars ++ rest))) = .ok (d, lex rest) := by
  obtain ⟨t, u, ht, hu, htype⟩ := h.exists_type
  obtain ⟨w, hw, hdefault⟩ := exists_default p.defaultValue h.defaultValue
  refine ⟨⟨none, p.name, u, w, []⟩, ⟨rfl, rfl, ⟨t, ht, hu⟩, hw, rfl⟩, fun rest he => ?_⟩
  have hstops : Stops isNamePart (defaultChars p.defaultValue ++ rest) :=
    stops_defaultChars p.defaultValue (by decide)
      (he.word.mono fun _ => isWordPart_of_isNamePart)
  have hread := htype.typeRef_eq hstops (accept_defaultChars p.defaultValue he)
  rw [chars_parameter_append, lex_dollar, lex_name h.name (stops_cons.2 (by decide)), lex_colon]
  exact variableDefinition_next hread (hdefault rest he)
    (he.item .atSign (by decide) (by decide))

theorem exists_declarations (p : Parameter) (ps : List Parameter)
    (h : ∀ q ∈ p :: ps, q.Plain) (rest : List Char) :
    ∃ ds, List.Forall₂ Parameter.Declares (p :: ps) ds ∧
      answer (itemsUntil .parenClose
        (lex (p.chars ++ (trail ',' Parameter.chars ps ++ ')' :: rest)))
        fun t _ => variableDefinition t) = .ok (ds, lex rest) := by
  induction ps generalizing p with
  | nil =>
    obtain ⟨d, hd, hread⟩ := exists_declaration (h p (by simp))
    have hp := hread _ (endsDeclaration_trail [] rest)
    rw [trail_nil, List.nil_append, lex_parenClose] at hp
    exact ⟨[d], .cons hd .nil, itemsUntil_of_close hp⟩
  | cons q qs ih =>
    obtain ⟨hp, hqs⟩ := List.forall_mem_cons.1 h
    obtain ⟨d, hd, hread⟩ := exists_declaration hp
    obtain ⟨ds, hds, hrest⟩ := ih q hqs
    have hfirst := hread _ (endsDeclaration_trail (q :: qs) rest)
    have hnext : lex (trail ',' Parameter.chars (q :: qs) ++ ')' :: rest) =
        lex (q.chars ++ (trail ',' Parameter.chars qs ++ ')' :: rest)) :=
      lex_trail_cons argumentDelimiters q qs (')' :: rest)
    obtain ⟨s, hs⟩ := lex_parameter q (trail ',' Parameter.chars qs ++ ')' :: rest)
    rw [hnext] at hfirst
    refine ⟨d :: ds, .cons hd hds, ?_⟩
    rw [itemsUntil_of_item hfirst (by rw [hs]; exact accept_of_ne (by decide)), hrest]
    rfl

end

def Node.declaring (o : Operation) (ps : List Parameter) (ns : List Node) : Node :=
  ⟨.string o.keyword, none, none, some ps, ns⟩

theorem chars_declaring (o : Operation) (p : Parameter) (ps : List Parameter) (n : Node)
    (ns : List Node) :
    (Node.declaring o (p :: ps) (n :: ns)).chars = o.keyword.toList ++
      '(' :: (p.chars ++ (trail ',' Parameter.chars ps ++ ')' ::
        '\x7b' :: (n.chars ++ (trail ' ' Node.chars ns ++ ['\x7d'])))) := by
  rw [Node.declaring, chars_node, nameChars, argumentsChars, parametersChars, List.nil_append,
    List.nil_append, bracketed_cons_append, childrenChars]
  rfl

/-! Reading: the list is read as the operation if its specifications and its children are. -/

/-- The parameter that a specification declares. -/
def declared? (d : Datum) : Option Parameter :=
  (Surface.readParameter d).toOption.bind parameterOf?

theorem declared?_of_shape {d : Datum} {name type : String} {required : Bool} {w : Option Datum}
    {v : Option Value} (hs : Surface.parameterShape d = .ok ⟨name, type, required, w⟩)
    (hv : w.map Surface.readValue = v.map fun v => .ok v.toDatum) :
    declared? d = some ⟨name, type, required, v⟩ := by
  have hread : Surface.readParameter d =
      .ok (Form.parameter name type required (defaultDatum v)) := by
    cases w with
    | none =>
      cases v with
      | none => exact Surface.readParameter_of_none hs rfl
      | some v => cases hv
    | some w =>
      cases v with
      | none => cases hv
      | some v =>
        rw [Option.map_some, Option.map_some, Option.some.injEq] at hv
        rw [Surface.readParameter_of_some hs rfl, hv, defaultDatum]
        rfl
  have hdefault : defaultOf? ((Form.parameter name type required (defaultDatum v)).get
      "defaultValue") = some v := by
    rw [get_defaultValue_parameter]
    exact (describes_defaultDatum v).defaultOf?
  rw [declared?, hread]
  show parameterOf? _ = _
  rw [parameterOf?_of_get rfl rfl rfl, hdefault, Option.map_some]

theorem exists_parameters {specs : List Datum} {ps : List Parameter}
    (h : List.Forall₂ (fun d p => declared? d = some p) specs ps) :
    ∃ rs, Surface.readParameters specs = .ok rs ∧ parametersOf? rs = some ps := by
  induction h with
  | nil => exact ⟨[], rfl, by rw [parametersOf?]⟩
  | @cons d p specs ps hd _ ih =>
    obtain ⟨rs, hrs, hps⟩ := ih
    obtain ⟨r, hr, hp⟩ := Option.bind_eq_some_iff.1 hd
    refine ⟨r :: rs, ?_, ?_⟩
    · rw [Surface.readParameters, toOption_eq_some.1 hr, hrs]
      rfl
    · rw [parametersOf?, hp, hps]
      rfl

theorem exists_nodes {children : List Datum} {ns : List Node}
    (h : List.Forall₂ (fun g n => selected? g = some n) children ns) :
    ∃ ds, Surface.readGraphs children = .ok ds ∧ nodesOf? ds = some ns := by
  induction h with
  | nil => exact ⟨[], by rw [Surface.readGraphs], by rw [nodesOf?]⟩
  | @cons g n children ns hg _ ih =>
    obtain ⟨ds, hds, hns⟩ := ih
    obtain ⟨d, m, hd, hm, hn⟩ := exists_of_selected? hg
    refine ⟨d :: ds, ?_, ?_⟩
    · rw [Surface.readGraphs, hd, hds]
      rfl
    · rw [nodesOf?, hm, hns, ← hn]
      rfl

theorem isMetaTag_of_selected? {g : Datum} {n : Node} (h : selected? g = some n) :
    Form.isMetaTag g = false := by
  obtain ⟨d, -, hd, -⟩ := exists_of_selected? h
  refine Surface.isMetaTag_eq_false.2 fun t ht => ?_
  rw [ht, Surface.readGraph] at hd
  cases hd

theorem divides_children {children : List Datum} {ns : List Node}
    (h : List.Forall₂ (fun g n => selected? g = some n) children ns) :
    Surface.Divides children [] children := by
  induction h with
  | nil => exact .nil
  | cons hg _ ih => exact .positional (isMetaTag_of_selected? hg) ih

theorem nodeOf?_declaring (o : Operation) {rs ds : List Datum} {ps : List Parameter}
    {ns : List Node} (hp : parametersOf? rs = some ps) (hn : nodesOf? ds = some ns) :
    nodeOf? (Form.node (Form.string (.string o.keyword)) (Form.metadata none none (some rs)) ds) =
      some (.declaring o ps ns) := by
  have hm : HasMetadata ((Form.node (Form.string (.string o.keyword))
      (Form.metadata none none (some rs)) ds).get "metadata") none none (some rs) :=
    hasMetadata_metadata
  have hi : DescribesIdentifier ((Form.node (Form.string (.string o.keyword))
      (Form.metadata none none (some rs)) ds).get "object") (.string o.keyword) := .string rfl rfl
  rw [nodeOf?_of_hasMetadata hm rfl, hi.identifierOf?, listOf?, listOf?, hp]
  show ((nodesOf? ds) >>= _) = _
  rw [hn]
  rfl

theorem ofDatum_declaring (o : Operation) {specs children : List Datum} {ps : List Parameter}
    {ns : List Node} (hp : List.Forall₂ (fun d p => declared? d = some p) specs ps)
    (hn : List.Forall₂ (fun g n => selected? g = some n) children ns) :
    Node.ofDatum (.list (.string o.keyword :: .mark (.tag .operationParameters) :: .list specs ::
      children)) = .ok (.declaring o ps ns) := by
  obtain ⟨rs, hrs, hps⟩ := exists_parameters hp
  obtain ⟨ds, hds, hns⟩ := exists_nodes hn
  have hdivides := Surface.Divides.positional (d := .string o.keyword) rfl
    (.tag .operationParameters (.list specs) (divides_children hn))
  have hmetadata : Surface.readMetadata ⟨Keyed.collect [(.operationParameters, .list specs)],
      .string o.keyword :: children⟩ = .ok (Form.metadata none none (some rs)) := by
    show ((Surface.readParameters specs).map some >>= _) = _
    rw [hrs]
    rfl
  have hread := Surface.readGraph_of_head rfl (Surface.split_of_divides hdivides) rfl
  rw [hmetadata, hds] at hread
  rw [Node.ofDatum, hread]
  show Node.ofRecord (Form.node (Form.string (.string o.keyword))
    (Form.metadata none none (some rs)) ds) = _
  rw [Node.ofRecord, nodeOf?_declaring o hps hns]

end Graph

namespace Operation

open GraphQuery.Graph

/-- The text of an operation that declares plain parameters, on safe trees that mean something, is
the document with the variables that the parameters declare and the fields that the trees mean. -/
theorem exists_definition_declaring (o : Operation) {p : Parameter} {ps : List Parameter}
    {n : Node} {ns : List Node} (hp : ∀ q ∈ p :: ps, q.Plain) (hs : SafeNodes (n :: ns))
    {fields : List Selection} (hf : nodeMeanings? (n :: ns) = some fields) :
    ∃ defs, List.Forall₂ Parameter.Declares (p :: ps) defs ∧
      answer (definition (lex (Node.declaring o (p :: ps) (n :: ns)).chars)) =
        .ok (.operation ⟨none, o.kind, none, defs, [], fields⟩, .done) := by
  obtain ⟨defs, hdefs, hread⟩ := exists_declarations p ps hp
    ('\x7b' :: (n.chars ++ (trail ' ' Node.chars ns ++ ['\x7d'])))
  have hfields := yields_fields n ns (nodes_agree (n :: ns) hs) []
  rw [hf, lex_nil] at hfields
  have hoperation := hfields.map fun ss : List Selection =>
    Definition.operation ⟨none, o.kind, none, defs, [], ss⟩
  refine ⟨defs, hdefs, ?_⟩
  rw [lex_braceOpen] at hread
  rw [chars_declaring, lex_name o.isName_keyword (stops_cons.2 (by decide)), lex_parenOpen,
    ← keyword_kind, definition_keyword, operation_parenOpen _ hread]
  exact hoperation

/-- The list of a keyword, plain parameters in any form, and graphs of fields without empty lists of
arguments is a document: one operation without a name, whose variables are the parameters, in order
and each with its type, and whose fields are what the graphs mean. -/
theorem check_textOf_declaring (o : Operation) {specs children : List Datum}
    {ps : List Parameter} {ns : List Node} (hps : specs ≠ []) (hns : children ≠ [])
    (hp : List.Forall₂ (fun d p => declared? d = some p) specs ps)
    (hn : List.Forall₂ (fun g n => selected? g = some n) children ns)
    (hplain : ∀ p ∈ ps, p.Plain) (hnamed : NamedNodes ns) (hargs : haveEmptyArguments ns = false) :
    ∃ text defs fields,
      Graph.textOf (.list (.string o.keyword :: .mark (.tag .operationParameters) ::
        .list specs :: children)) = .ok text ∧
      Document.check (.string text) = .ok ⟨[.operation ⟨none, o.kind, none, defs, [], fields⟩]⟩ ∧
      List.Forall₂ Parameter.Declares ps defs ∧ nodeMeanings? ns = some fields := by
  obtain ⟨hs, hm⟩ := NamedNodes.safe ns hnamed
  rw [hargs] at hm
  obtain ⟨fields, hf⟩ := Option.isSome_iff_exists.1 hm
  have hdatum := ofDatum_declaring o hp hn
  cases hp with
  | nil => exact absurd rfl hps
  | @cons d p specs ps hd hp =>
    cases hn with
    | nil => exact absurd rfl hns
    | @cons g n children ns hg hn =>
      obtain ⟨defs, hdefs, hread⟩ := exists_definition_declaring o hplain hs hf
      refine ⟨_, defs, fields, by rw [Graph.textOf, hdatum]; rfl, ?_, hdefs, hf⟩
      rw [Document.check, Document.parse, ← Node.chars, definitions_of_done hread]
      rfl

/-- A list type with marks, a required parameter and a default with a key, on a field with a
variable. -/
theorem check_textOf_orders :
    ∃ text defs fields,
      Graph.textOf (.list [.string "query", .mark (.tag .operationParameters),
        .list [.list [.string "ids", .string "[ID!]!"],
          .list [.string "first", .string "Int", .boolean true],
          .list [.string "by", .string "Order", .null,
            .list [.list [.string "field", .string "date"]]]],
        .list [.string "orders", .mark (.tag .arguments),
          .list [.list [.string "ids", .list [.mark .variable, .string "ids"]]]]]) = .ok text ∧
      Document.check (.string text) =
        .ok ⟨[.operation ⟨none, .query, none, defs, [], fields⟩]⟩ ∧
      List.Forall₂ Parameter.Declares
        [⟨"ids", "[ID!]!", false, none⟩, ⟨"first", "Int", true, none⟩,
          ⟨"by", "Order", false, some (.object [⟨"field", .string "date"⟩])⟩] defs ∧
      nodeMeanings? [⟨.string "orders", none, some [⟨"ids", .variable "ids"⟩], none, []⟩] =
        some fields := by
  have hby : declared? (.list [.string "by", .string "Order", .null,
      .list [.list [.string "field", .string "date"]]]) =
      some ⟨"by", "Order", false, some (.object [⟨"field", .string "date"⟩])⟩ :=
    declared?_of_shape rfl (congrArg some
      (Value.readValue_surface (.object [⟨"field", .string "date"⟩]) (by simp [DistinctNames])))
  have hnode : selected? (.list [.string "orders", .mark (.tag .arguments),
      .list [.list [.string "ids", .list [.mark .variable, .string "ids"]]]]) =
      some ⟨.string "orders", none, some [⟨"ids", .variable "ids"⟩], none, []⟩ :=
    selected?_of_readGraph (Node.readGraph_of_surface
      ⟨.string "orders", none, some [⟨"ids", .variable "ids"⟩], none, []⟩
      (by simp [wellFormed_node, DistinctNames, Identifier.WellFormed]))
  have hid : WritesType "[ID!]!".toList (.nonNull (.list (.nonNull (.named "ID")))) :=
    .nonNullList (.nonNullNamed (s := "ID") (by decide))
  refine check_textOf_declaring .query (by simp) (by simp)
    (.cons (declared?_of_shape rfl rfl) (.cons (declared?_of_shape rfl rfl)
      (.cons hby .nil)))
    (.cons hnode .nil) ?_ ?_ rfl
  · simp only [List.forall_mem_cons]
    refine ⟨⟨by decide, ⟨_, hid⟩, by simp, by simp⟩,
      ⟨by decide, ⟨_, .named (s := "Int") (by decide)⟩, by decide, by simp⟩,
      ⟨by decide, ⟨_, .named (s := "Order") (by decide)⟩, by simp, ?_⟩, by simp⟩
    simp [Value.Plain, PlainArguments, Argument.Plain, Value.Constant, ConstantArguments,
      Argument.Constant]
    decide
  · simp [NamedNodes, Node.Named, PlainArguments, Argument.Plain, Value.Plain, Identifier.text]
    decide

end Operation
end GraphQuery
