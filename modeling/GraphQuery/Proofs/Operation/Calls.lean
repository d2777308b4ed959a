import GraphQuery.Proofs.Graph.Description
import GraphQuery.Proofs.Surface.Reading
import GraphQuery.Report

/-! Calls of operations. An operation on a graph comes to the same as the list with its keyword for
a head, its header for metadata and the graph for a child; whatever is no call is refused under the
name of the operation. -/
namespace GraphQuery.Operation

open GraphQuery.Graph GraphQuery.Surface

/-- The arguments of a call, the header as it is written in a list, and the graph. -/
inductive Calls : List Datum → List Datum → Datum → Prop
  | bare (g : Datum) : Calls [g] [] g
  | named (name : String) (g : Datum) :
    Calls [.list [.string name], g] [.mark (.tag .operationName), .string name] g
  | declaring (name : String) (ps : List Datum) (g : Datum) :
    Calls [.list [.string name, .list ps], g]
      [.mark (.tag .operationName), .string name, .mark (.tag .operationParameters), .list ps] g

/-- The keyword of an operation as the head of a list. -/
inductive IsKeyword (o : Operation) : Datum → Prop
  | string : IsKeyword o (.string o.keyword)
  | token : IsKeyword o (Form.token (.string o.keyword))

/-- What is said of arguments that are no call. -/
def refusalMessage (o : Operation) (args : List Datum) : String :=
  if args.length = 2 then o.keyword ++ " header must be [name] or [name, parameters]"
  else o.keyword ++ " expects (graph), ([name], graph) or ([name, parameters], graph); got " ++
    toString args.length ++ " arguments"

section
variable {o : Operation} {args between : List Datum} {g head : Datum}

theorem IsKeyword.isMetaTag_eq (h : IsKeyword o head) : Form.isMetaTag head = false := by
  cases h <;> rfl

theorem IsKeyword.exists_identifier (h : IsKeyword o head) :
    ∃ object i, readIdentifier head = .ok object ∧ DescribesIdentifier object i ∧
      i.text = o.keyword := by
  cases h with
  | string => exact ⟨_, .string o.keyword, rfl, .string rfl rfl, rfl⟩
  | token => exact ⟨_, .token o.keyword, rfl, .token rfl rfl, rfl⟩

/-! Metadata: the header gives the operation what the tags give the list. -/

theorem Calls.exists_split (h : Calls args between g) (hg : Form.isMetaTag g = false)
    (hh : Form.isMetaTag head = false) :
    ∃ s, splitElements (head :: (between ++ [g])) = .ok s ∧ s.positional = [head, g] ∧
      o.ofArguments args =
        (readMetadata s).mapError (.graph ∘ .malformed) >>= fun m => o.record m g := by
  have hlast : splitElements [g] = .ok ⟨[], [g]⟩ := by
    rw [splitElements_cons hg]
    rfl
  cases h with
  | bare =>
    refine ⟨⟨[], [head, g]⟩, ?_, rfl, rfl⟩
    rw [List.nil_append, splitElements_cons hh, hlast]
    rfl
  | named name =>
    refine ⟨⟨[(.operationName, .string name)], [head, g]⟩, ?_, rfl, rfl⟩
    rw [splitElements_cons hh]
    simp only [List.cons_append, List.nil_append, splitElements, hlast]
    rfl
  | declaring name ps =>
    refine ⟨⟨[(.operationName, .string name), (.operationParameters, .list ps)], [head, g]⟩, ?_,
      rfl, ?_⟩
    · rw [splitElements_cons hh]
      simp only [List.cons_append, List.nil_append, splitElements, hlast]
      rfl
    · have hm : readMetadata
            ⟨[(.operationName, .string name), (.operationParameters, .list ps)], [head, g]⟩ =
          (readParameters ps).map fun qs => Form.metadata (some name) none (some qs) := by
        show ((readParameters ps).map some >>= _) = _
        cases readParameters ps <;> rfl
      rw [hm, ofArguments, readHeader]
      cases readParameters ps <;> rfl

theorem exists_of_readMetadata {s : Split} {m : Datum} (h : readMetadata s = .ok m) :
    ∃ name args ps, m = Form.metadata name args ps := by
  simp only [readMetadata, bind_eq_ok] at h
  obtain ⟨name, -, args, -, ps, -, h⟩ := h
  exact ⟨name, args, ps, (Except.ok.inj h).symm⟩

/-! Text. -/

theorem map_text_nodeOf?_congr {object object' : Datum} {i i' : Identifier}
    (hi : DescribesIdentifier object i) (hi' : DescribesIdentifier object' i')
    (ht : i.text = i'.text) (name : Option String) (args ps : Option (List Datum))
    (fields : List Datum) :
    (nodeOf? (Form.node object (Form.metadata name args ps) fields)).map Node.text =
      (nodeOf? (Form.node object' (Form.metadata name args ps) fields)).map Node.text := by
  have hnode : ∀ {d : Datum} {j : Identifier}, DescribesIdentifier d j →
      nodeOf? (Form.node d (Form.metadata name args ps) fields) = do
        let as ← listOf? argumentsOf? args
        let qs ← listOf? parametersOf? ps
        let ns ← nodesOf? fields
        return ⟨j, name, as, qs, ns⟩ := by
    intro d j hj
    have hm : HasMetadata
        ((Form.node d (Form.metadata name args ps) fields).get "metadata") name args ps :=
      hasMetadata_metadata
    have hobject : (Form.node d (Form.metadata name args ps) fields).get "object" = d := rfl
    rw [nodeOf?_of_hasMetadata hm rfl, hobject, hj.identifierOf?]
    rfl
  rw [hnode hi, hnode hi']
  cases listOf? argumentsOf? args with
  | none => rfl
  | some as =>
    cases listOf? parametersOf? ps with
    | none => rfl
    | some qs =>
      cases nodesOf? fields with
      | none => rfl
      | some ns =>
        show some (Node.text _) = some (Node.text _)
        rw [Node.text, Node.text, ht]

theorem report_eq_of_record {object m : Datum} {i : Identifier} (hi : DescribesIdentifier object i)
    (ht : i.text = o.keyword) (hm : ∃ name args ps, m = Form.metadata name args ps)
    (child : Datum) :
    (((Node.ofRecord (Form.node (Form.token (.string o.keyword)) m [child])).mapError
        OperationFault.graph).map Node.text).mapError OperationFault.report? =
      ((Node.ofRecord (Form.node object m [child])).map Node.text).mapError
        NotGraph.report? := by
  obtain ⟨name, args, ps, rfl⟩ := hm
  have hkeyword : DescribesIdentifier (Form.token (.string o.keyword)) (.token o.keyword) :=
    .token rfl rfl
  have htext := map_text_nodeOf?_congr hkeyword hi ht.symm name args ps [child]
  rw [Node.ofRecord, Node.ofRecord]
  generalize nodeOf? (Form.node (Form.token (.string o.keyword)) (Form.metadata name args ps)
    [child]) = n at htext
  generalize nodeOf? (Form.node object (Form.metadata name args ps) [child]) = n' at htext
  cases n <;> cases n' <;> simp_all [Except.map, OperationFault.report?, NotGraph.report?]

theorem Calls.report_eq (h : Calls args between g) (hg : Form.isMetaTag g = false)
    (hh : IsKeyword o head) :
    (o.textOf args).mapError OperationFault.report? =
      (Graph.textOf (.list (head :: (between ++ [g])))).mapError NotGraph.report? := by
  obtain ⟨s, hs, hp, hargs⟩ := h.exists_split (o := o) hg hh.isMetaTag_eq
  obtain ⟨object, i, hobject, hi, ht⟩ := hh.exists_identifier
  have hsplit : split (.list (head :: (between ++ [g]))) = .ok s := by
    rw [split, hs]
    rfl
  have hread := readGraph_of_head rfl hsplit hp
  rw [textOf, hargs, Graph.textOf, Node.ofDatum, hread, hobject]
  cases hm : readMetadata s with
  | error e => rfl
  | ok m =>
    have hlist : readGraphs [g] = (readGraph g).map fun child => [child] := by
      rw [readGraphs, readGraphs]
      cases readGraph g <;> rfl
    rw [hlist]
    simp only [mapError_ok, record]
    cases readGraph g with
    | error e => rfl
    | ok child => exact report_eq_of_record hi ht (exists_of_readMetadata hm) child

/-! Which arguments are calls. -/

theorem Calls.exists_graph_fault (h : Calls args between g) {f : OperationFault}
    (hf : o.textOf args = .error f) : ∃ e, f = .graph e := by
  have hrecord : ∀ m f, o.record m g = .error f → ∃ e, f = .graph e := by
    intro m f hf
    rw [record] at hf
    cases hg : readGraph g with
    | error e =>
      rw [hg] at hf
      cases hf
      exact ⟨_, rfl⟩
    | ok child =>
      rw [hg] at hf
      cases hf
  have hargs : ∀ f, o.ofArguments args = .error f → ∃ e, f = .graph e := by
    intro f hf
    cases h with
    | bare => exact hrecord _ f hf
    | named name => exact hrecord _ f hf
    | declaring name ps =>
      rw [ofArguments, readHeader] at hf
      cases hps : readParameters ps with
      | error e =>
        rw [hps] at hf
        cases hf
        exact ⟨_, rfl⟩
      | ok qs =>
        rw [hps] at hf
        exact hrecord _ f hf
  rw [textOf] at hf
  cases hd : o.ofArguments args with
  | error e =>
    rw [hd] at hf
    cases hf
    exact hargs f hd
  | ok d =>
    rw [hd] at hf
    cases hn : Node.ofRecord d with
    | error e =>
      simp only [bind, Except.bind, hn, mapError_error] at hf
      cases hf
      exact ⟨e, rfl⟩
    | ok n =>
      simp only [bind, Except.bind, hn, mapError_ok] at hf
      cases hf

theorem readHeader_of_no_call {header : Datum} (h : ∀ between, ¬ Calls [header, g] between g) :
    o.readHeader header = .error (.header o) := by
  unfold readHeader
  split
  · next name => exact absurd (.named name g) (h _)
  · next name ps => exact absurd (.declaring name ps g) (h _)
  · rfl

theorem textOf_of_no_call (h : ∀ between g, ¬ Calls args between g) :
    o.textOf args =
      .error (if args.length = 2 then .header o else .argumentCount o args.length) := by
  match args with
  | [] => rfl
  | [g] => exact absurd (.bare g) (h [] g)
  | [header, g] =>
    rw [textOf, ofArguments, readHeader_of_no_call fun between => h between g]
    rfl
  | _ :: _ :: _ :: _ => rfl

end

/-- A call has the same outcome as its graph in a list under the keyword of the operation, with the
header for metadata: the same text, or the same report of the part that cannot be read. All other
arguments are reported as no operation, under its keyword. -/
theorem textOf_classified (o : Operation) (args : List Datum) :
    (∀ between g head, Calls args between g → Form.isMetaTag g = false → IsKeyword o head →
      (o.textOf args).mapError OperationFault.report? =
        (Graph.textOf (.list (head :: (between ++ [g])))).mapError NotGraph.report?) ∧
      (∀ between g r, Calls args between g →
        (o.textOf args).mapError OperationFault.report? = .error (some r) →
        r.kind = .malformedGraph) ∧
      ((∀ between g, ¬ Calls args between g) →
        (o.textOf args).mapError OperationFault.report? =
          .error (some ⟨.malformedOperation, o.refusalMessage args, .string "MALFORMED_OPERATION",
            .string o.keyword⟩)) := by
  refine ⟨fun between g head h hg hh => h.report_eq hg hh, fun between g r h hr => ?_,
    fun h => ?_⟩
  · cases ht : o.textOf args with
    | ok text =>
      rw [ht] at hr
      cases hr
    | error f =>
      rw [ht] at hr
      obtain ⟨e, rfl⟩ := h.exists_graph_fault ht
      cases e with
      | malformed m =>
        cases hr
        rfl
      | unreadable d => cases hr
  · rw [textOf_of_no_call h, refusalMessage]
    split <;> rfl

/-- A parameter that is none is told before a graph that is none, in a call and in the list; and
what is in the place of a header has to be one, whatever is in the place of the graph. -/
theorem textOf_missing :
    (query.textOf [.list [.string "Viewer", .list [.null]], .list []]).mapError
        OperationFault.report? =
      (Graph.textOf (.list [.string "query", .mark (.tag .operationName), .string "Viewer",
        .mark (.tag .operationParameters), .list [.null], .list []])).mapError NotGraph.report? ∧
    (∀ r, (query.textOf [.list [.string "Viewer", .list [.null]], .list []]).mapError
        OperationFault.report? = .error (some r) → r.kind = .malformedGraph) ∧
    (mutation.textOf [.string "Viewer", .list []]).mapError OperationFault.report? =
      .error (some ⟨.malformedOperation, "mutation header must be [name] or [name, parameters]",
        .string "MALFORMED_OPERATION", .string "mutation"⟩) := by
  have hcall : Calls [.list [.string "Viewer", .list [.null]], .list []]
      [.mark (.tag .operationName), .string "Viewer", .mark (.tag .operationParameters),
        .list [.null]] (.list []) := .declaring "Viewer" [.null] (.list [])
  refine ⟨(textOf_classified query _).1 _ _ _ hcall rfl .string,
    fun r => (textOf_classified query _).2.1 _ _ r hcall, ?_⟩
  exact (textOf_classified mutation _).2.2 fun between g h => by cases h

end GraphQuery.Operation
