import GraphQuery.Proofs.Graph.WellFormed
import GraphQuery.Proofs.Surface.Reading

/-! The parts of a value. Parts in record form can stand anywhere in it, and are well-formed if
they describe well-formed graphs and values; all parts of the record form of such a graph are. -/
namespace GraphQuery.Surface

open GraphQuery.Graph

/-- A value, or what stands at any depth in it. -/
inductive IsPart : Datum → Datum → Prop
  | self (d : Datum) : IsPart d d
  | element {c d : Datum} {elements : List Datum} (hd : d ∈ elements) (h : IsPart c d) :
    IsPart c (.list elements)
  | entry {c : Datum} {e : String × Datum} {entries : List (String × Datum)} (he : e ∈ entries)
    (h : IsPart c e.2) : IsPart c (.record entries)

theorem IsPart.trans {a b c : Datum} (hab : IsPart a b) (hbc : IsPart b c) : IsPart a c := by
  induction hbc with
  | self => exact hab
  | element hd _ ih => exact .element hd ih
  | entry he _ ih => exact .entry he ih

theorem isPart_of_mem {d : Datum} {elements : List Datum} (h : d ∈ elements) :
    IsPart d (.list elements) :=
  .element h (.self d)

theorem isPart_of_get? {d v : Datum} {key : String} (h : d.get? key = some v) : IsPart v d := by
  cases d with
  | record entries =>
    have hv : entries.lookup key = some v := h
    exact .entry (Keyed.mem_of_lookup hv) (.self v)
  | _ => cases h

theorem isPart_write (w : Writing) {es : List (String × Datum)} {e : String × Datum}
    (h : e ∈ es) : IsPart e.2 (w.write es) := by
  cases w with
  | record => exact .entry h (.self e.2)
  | pairs =>
    have hpair : Datum.list [.string e.1, e.2] ∈
        es.map fun e => Datum.list [.string e.1, e.2] := List.mem_map_of_mem h
    exact .element hpair (isPart_of_mem (by simp))

/-- All that is in record form, at any depth, is well-formed. -/
structure PartsWellFormed (d : Datum) : Prop where
  value : ∀ c, IsPart c d → Form.isValue c = true → WellFormedValue c
  node : ∀ c, IsPart c d → Form.isNode c = true → WellFormedNode c

theorem partsWellFormed_atom {d : Datum} (h : isCompound d = false) : PartsWellFormed d := by
  have hself : ∀ c, IsPart c d → c = d := by
    intro c hc
    cases hc with
    | self => rfl
    | element | entry => cases h
  refine ⟨fun c hc hv => ?_, fun c hc hn => ?_⟩
  all_goals
    rw [hself c hc] at *
    cases d <;> first | cases hv | cases hn | cases h

theorem partsWellFormed_list {elements : List Datum} (h : ∀ d ∈ elements, PartsWellFormed d) :
    PartsWellFormed (.list elements) := by
  refine ⟨fun c hc hv => ?_, fun c hc hn => ?_⟩
  · cases hc with
    | self => cases hv
    | element hd hc => exact (h _ hd).value c hc hv
  · cases hc with
    | self => cases hn
    | element hd hc => exact (h _ hd).node c hc hn

theorem partsWellFormed_record {entries : List (String × Datum)}
    (hv : Form.isValue (.record entries) = true → WellFormedValue (.record entries))
    (hn : Form.isNode (.record entries) = true → WellFormedNode (.record entries))
    (h : ∀ e ∈ entries, PartsWellFormed e.2) : PartsWellFormed (.record entries) := by
  refine ⟨fun c hc hvalue => ?_, fun c hc hnode => ?_⟩
  · cases hc with
    | self => exact hv hvalue
    | entry he hc => exact (h _ he).value c hc hvalue
  · cases hc with
    | self => exact hn hnode
    | entry he hc => exact (h _ he).node c hc hnode

/-! Record forms. -/

theorem partsWellFormed_ofKind {kind : String} {entries : List (String × Datum)}
    (hv : Form.isValue (Form.ofKind kind entries) = true →
      WellFormedValue (Form.ofKind kind entries))
    (hn : Form.isNode (Form.ofKind kind entries) = true →
      WellFormedNode (Form.ofKind kind entries))
    (h : ∀ e ∈ entries, PartsWellFormed e.2) : PartsWellFormed (Form.ofKind kind entries) :=
  partsWellFormed_record hv hn (List.forall_mem_cons.2 ⟨partsWellFormed_atom rfl, h⟩)

/-- A kind of value with one entry. -/
theorem partsWellFormed_ofEntry {kind key : String} {d : Datum}
    (hw : WellFormedValue (Form.ofKind kind [(key, d)]))
    (hn : Form.isNode (Form.ofKind kind [(key, d)]) = false) (hd : PartsWellFormed d) :
    PartsWellFormed (Form.ofKind kind [(key, d)]) := by
  refine partsWellFormed_ofKind (fun _ => hw) (fun h => ?_) (List.forall_mem_singleton.2 hd)
  rw [hn] at h
  cases h

/-- A record without a kind is no value or node itself. -/
theorem partsWellFormed_of_no_kind {entries : List (String × Datum)}
    (hk : (Datum.record entries).get "kind" = .absent)
    (h : ∀ e ∈ entries, PartsWellFormed e.2) : PartsWellFormed (.record entries) := by
  refine partsWellFormed_record (fun hv => ?_) (fun hn => ?_) h
  · rw [Form.isValue, hk] at hv
    cases hv
  · rw [Form.isNode, Form.hasKind, hk] at hn
    cases hn

theorem partsWellFormed_identifier {i : Identifier} (h : i.WellFormed) :
    PartsWellFormed i.toDatum := by
  cases i with
  | token s =>
    have hw : WellFormedValue (Form.token (.string s)) := ⟨_, .token rfl rfl, wellFormed_token⟩
    exact partsWellFormed_ofEntry hw rfl (partsWellFormed_atom rfl)
  | string s =>
    have hw : WellFormedValue (Form.string (.string s)) := ⟨_, .string rfl rfl, wellFormed_string⟩
    exact partsWellFormed_ofEntry hw rfl (partsWellFormed_atom rfl)
  | number n =>
    have hw : WellFormedValue (Form.number (.number n)) :=
      ⟨_, .number rfl rfl, wellFormed_number.2 h⟩
    exact partsWellFormed_ofEntry hw rfl (partsWellFormed_atom rfl)
  | aliased s a =>
    refine partsWellFormed_ofKind (fun hv => by cases hv) (fun hn => by cases hn) ?_
    simp only [List.forall_mem_cons]
    exact ⟨partsWellFormed_atom rfl, partsWellFormed_atom rfl, List.forall_mem_nil _⟩

theorem partsWellFormed_metadata {name : Option String} {args ps : Option (List Datum)}
    (ha : ∀ ds, args = some ds → ∀ d ∈ ds, PartsWellFormed d)
    (hp : ∀ ds, ps = some ds → ∀ d ∈ ds, PartsWellFormed d) :
    PartsWellFormed (Form.metadata name args ps) := by
  have hkind : (Form.metadata name args ps).get "kind" = .absent := by
    cases name <;> cases args <;> cases ps <;> rfl
  refine partsWellFormed_of_no_kind hkind fun e he => ?_
  simp only [List.mem_append, Option.mem_toList, Option.map_eq_some_iff] at he
  obtain (⟨s, -, rfl⟩ | ⟨ds, hds, rfl⟩) | ⟨ds, hds, rfl⟩ := he
  · exact partsWellFormed_atom rfl
  · exact partsWellFormed_list (ha ds hds)
  · exact partsWellFormed_list (hp ds hds)

mutual

theorem partsWellFormed_value (v : Value) (h : v.WellFormed) : PartsWellFormed v.toDatum := by
  have hself : WellFormedValue v.toDatum := ⟨v, v.describes_toDatum, h⟩
  rcases v with s | s | as | s | n | n <;> rw [Value.toDatum] at hself ⊢
  · exact partsWellFormed_ofEntry hself rfl (partsWellFormed_atom rfl)
  · exact partsWellFormed_ofEntry hself rfl (partsWellFormed_atom rfl)
  · have hfields := partsWellFormed_arguments as (wellFormed_object.1 h).2
    exact partsWellFormed_ofEntry hself rfl (partsWellFormed_list hfields)
  · exact partsWellFormed_ofEntry hself rfl (partsWellFormed_atom rfl)
  · exact partsWellFormed_ofEntry hself rfl (partsWellFormed_atom rfl)
  · have hnode := partsWellFormed_node n (wellFormed_graph.1 h)
    exact partsWellFormed_ofEntry hself rfl hnode
termination_by structural v

theorem partsWellFormed_arguments (as : List Argument) (h : WellFormedArguments as) :
    ∀ d ∈ argumentData as, PartsWellFormed d := by
  match as with
  | [] =>
    rw [argumentData]
    exact List.forall_mem_nil _
  | ⟨s, v⟩ :: as =>
    obtain ⟨hv, has⟩ := wellFormedArguments_cons.1 h
    have hvalue := partsWellFormed_value v hv
    rw [argumentData, Argument.toDatum]
    refine List.forall_mem_cons.2 ⟨?_, partsWellFormed_arguments as has⟩
    exact partsWellFormed_of_no_kind rfl (List.forall_mem_cons.2
      ⟨partsWellFormed_atom rfl, List.forall_mem_singleton.2 hvalue⟩)
termination_by structural as

theorem partsWellFormed_argumentList (as : Option (List Argument))
    (h : WellFormedArgumentList as) :
    ∀ ds, argumentListDatum as = some ds → ∀ d ∈ ds, PartsWellFormed d := by
  match as with
  | none =>
    rw [argumentListDatum]
    exact fun _ hds => by cases hds
  | some as =>
    have has := partsWellFormed_arguments as (wellFormedArgumentList_some.1 h).2
    rw [argumentListDatum]
    intro ds hds
    cases hds
    exact has
termination_by structural as

theorem partsWellFormed_default (v : Option Value) (h : WellFormedDefault v) :
    ∀ d, defaultDatum v = some d → PartsWellFormed d := by
  match v with
  | none =>
    rw [defaultDatum]
    exact fun _ hd => by cases hd
  | some v =>
    have hv : v.WellFormed := by rwa [WellFormedDefault] at h
    have hvalue := partsWellFormed_value v hv
    rw [defaultDatum]
    intro d hd
    cases hd
    exact hvalue
termination_by structural v

theorem partsWellFormed_parameters (ps : List Parameter) (h : WellFormedParameters ps) :
    ∀ d ∈ parameterData ps, PartsWellFormed d := by
  match ps with
  | [] =>
    rw [parameterData]
    exact List.forall_mem_nil _
  | ⟨s, type, required, v⟩ :: ps =>
    rw [WellFormedParameters, Parameter.WellFormed] at h
    have hdefault := partsWellFormed_default v h.1
    have hkind : (Form.parameter s type required (defaultDatum v)).get "kind" = .absent := by
      cases defaultDatum v <;> rfl
    rw [parameterData, Parameter.toDatum]
    refine List.forall_mem_cons.2 ⟨partsWellFormed_of_no_kind hkind fun e he => ?_,
      partsWellFormed_parameters ps h.2⟩
    simp only [List.mem_append, List.mem_cons, List.not_mem_nil, or_false, Option.mem_toList,
      Option.map_eq_some_iff] at he
    obtain (rfl | rfl | rfl) | ⟨d, hd, rfl⟩ := he
    · exact partsWellFormed_atom rfl
    · exact partsWellFormed_atom rfl
    · exact partsWellFormed_atom rfl
    · exact hdefault d hd
termination_by structural ps

theorem partsWellFormed_parameterList (ps : Option (List Parameter))
    (h : WellFormedParameterList ps) :
    ∀ ds, parameterListDatum ps = some ds → ∀ d ∈ ds, PartsWellFormed d := by
  match ps with
  | none =>
    rw [parameterListDatum]
    exact fun _ hds => by cases hds
  | some ps =>
    have hps := partsWellFormed_parameters ps (wellFormedParameterList_some.1 h)
    rw [parameterListDatum]
    intro ds hds
    cases hds
    exact hps
termination_by structural ps

/-- The record form of a well-formed node is well-formed in all its parts. -/
theorem partsWellFormed_node (n : Node) (h : n.WellFormed) : PartsWellFormed n.toDatum := by
  have hself : WellFormedNode n.toDatum := ⟨n, n.describes_toDatum, h⟩
  obtain ⟨i, name, as, ps, ns⟩ := n
  obtain ⟨hi, has, hps, hns⟩ := wellFormed_node.1 h
  have hmetadata : PartsWellFormed
      (Form.metadata name (argumentListDatum as) (parameterListDatum ps)) :=
    partsWellFormed_metadata (partsWellFormed_argumentList as has)
      (partsWellFormed_parameterList ps hps)
  have hchildren := partsWellFormed_nodes ns hns
  rw [Node.toDatum] at hself ⊢
  refine partsWellFormed_ofKind (fun hv => by cases hv) (fun _ => hself) ?_
  simp only [List.forall_mem_cons]
  exact ⟨partsWellFormed_identifier hi, hmetadata, partsWellFormed_list hchildren,
    List.forall_mem_nil _⟩
termination_by structural n

theorem partsWellFormed_nodes (ns : List Node) (h : WellFormedNodes ns) :
    ∀ d ∈ nodeData ns, PartsWellFormed d := by
  match ns with
  | [] =>
    rw [nodeData]
    exact List.forall_mem_nil _
  | n :: ns =>
    obtain ⟨hn, hns⟩ := wellFormedNodes_cons.1 h
    rw [nodeData]
    exact List.forall_mem_cons.2 ⟨partsWellFormed_node n hn, partsWellFormed_nodes ns hns⟩
termination_by structural ns

end

end GraphQuery.Surface
