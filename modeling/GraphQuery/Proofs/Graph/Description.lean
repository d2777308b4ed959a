import GraphQuery.Graph.Record

/-! Records that describe graphs: every part of the graph stands under the entry that is declared
for it, as a value of the declared form, and other entries do not matter. Such a record is read as
the graph that it describes. -/
namespace GraphQuery.Graph

inductive DescribesIdentifier : Datum → Identifier → Prop
  | token {d : Datum} {s : String} (hk : Form.hasKind "token" d = true)
    (hs : d.get "text" = .string s) : DescribesIdentifier d (.token s)
  | string {d : Datum} {s : String} (hk : Form.hasKind "string" d = true)
    (hs : d.get "value" = .string s) : DescribesIdentifier d (.string s)
  | number {d : Datum} {n : Number} (hk : Form.hasKind "number" d = true)
    (hn : d.get "value" = .number n) : DescribesIdentifier d (.number n)
  | aliased {d : Datum} {s a : String} (hk : Form.hasKind "alias" d = true)
    (hs : d.get "name" = .string s) (ha : d.get "alias" = .string a) :
    DescribesIdentifier d (.aliased s a)

/-- A record of metadata, without a value where there is nothing. -/
structure HasMetadata (d : Datum) (name : Option String) (args ps : Option (List Datum)) :
    Prop where
  isRecord : ∃ entries, d = .record entries
  name : d.get "name" = (name.map Datum.string).getD .absent
  arguments : d.get "arguments" = (args.map Datum.list).getD .absent
  parameters : d.get "parameters" = (ps.map Datum.list).getD .absent

mutual

inductive DescribesValue : Datum → Value → Prop
  | token {d : Datum} {s : String} (hk : Form.hasKind "token" d = true)
    (hs : d.get "text" = .string s) : DescribesValue d (.token s)
  | reference {d : Datum} {s : String} (hk : Form.hasKind "variable" d = true)
    (hs : d.get "name" = .string s) : DescribesValue d (.variable s)
  | object {d : Datum} {fs : List Datum} {as : List Argument}
    (hk : Form.hasKind "object" d = true) (hf : d.get "fields" = .list fs)
    (h : DescribesFields fs as) : DescribesValue d (.object as)
  | string {d : Datum} {s : String} (hk : Form.hasKind "string" d = true)
    (hs : d.get "value" = .string s) : DescribesValue d (.string s)
  | number {d : Datum} {n : Number} (hk : Form.hasKind "number" d = true)
    (hn : d.get "value" = .number n) : DescribesValue d (.number n)
  | graph {d : Datum} {n : Node} (hk : Form.hasKind "subquery" d = true)
    (h : DescribesNode (d.get "graph") n) : DescribesValue d (.graph n)

/-- Fields of an input object, or arguments. -/
inductive DescribesFields : List Datum → List Argument → Prop
  | nil : DescribesFields [] []
  | cons {d : Datum} {ds : List Datum} {s : String} {v : Value} {as : List Argument}
    (hs : d.get "name" = .string s) (hv : DescribesValue (d.get "value") v)
    (h : DescribesFields ds as) : DescribesFields (d :: ds) (⟨s, v⟩ :: as)

inductive DescribesArguments : Option (List Datum) → Option (List Argument) → Prop
  | none : DescribesArguments none none
  | some {ds : List Datum} {as : List Argument} (h : DescribesFields ds as) :
    DescribesArguments (some ds) (some as)

inductive DescribesDefault : Datum → Option Value → Prop
  | none : DescribesDefault .absent none
  | some {d : Datum} {v : Value} (h : DescribesValue d v) : DescribesDefault d (some v)

inductive DescribesParameters : List Datum → List Parameter → Prop
  | nil : DescribesParameters [] []
  | cons {d : Datum} {ds : List Datum} {s type : String} {required : Bool} {v : Option Value}
    {ps : List Parameter} (hs : d.get "name" = .string s) (ht : d.get "type" = .string type)
    (hr : d.get "required" = .boolean required)
    (hv : DescribesDefault (d.get "defaultValue") v) (h : DescribesParameters ds ps) :
    DescribesParameters (d :: ds) (⟨s, type, required, v⟩ :: ps)

inductive DescribesParameterList : Option (List Datum) → Option (List Parameter) → Prop
  | none : DescribesParameterList none none
  | some {ds : List Datum} {ps : List Parameter} (h : DescribesParameters ds ps) :
    DescribesParameterList (some ds) (some ps)

inductive DescribesNode : Datum → Node → Prop
  | mk {d : Datum} {i : Identifier} {name : Option String} {args ps : Option (List Datum)}
    {fields : List Datum} {as : Option (List Argument)} {qs : Option (List Parameter)}
    {ns : List Node} (hk : Form.hasKind "node" d = true)
    (hi : DescribesIdentifier (d.get "object") i)
    (hm : HasMetadata (d.get "metadata") name args ps) (ha : DescribesArguments args as)
    (hp : DescribesParameterList ps qs) (hf : d.get "fields" = .list fields)
    (hn : DescribesNodes fields ns) : DescribesNode d ⟨i, name, as, qs, ns⟩

inductive DescribesNodes : List Datum → List Node → Prop
  | nil : DescribesNodes [] []
  | cons {d : Datum} {ds : List Datum} {n : Node} {ns : List Node} (h : DescribesNode d n)
    (hs : DescribesNodes ds ns) : DescribesNodes (d :: ds) (n :: ns)

end

/-! What the readers make of an entry that is there. -/

@[simp] theorem asText?_string (s : String) : (Datum.string s).asText? = some s := by
  simp [Datum.asText?]

theorem get?_of_get {d v : Datum} {key : String} (h : d.get key = v) (hv : v ≠ .absent) :
    d.get? key = some v := by
  rw [Datum.get] at h
  cases hg : d.get? key with
  | none =>
    rw [hg] at h
    exact absurd h.symm hv
  | some w =>
    rw [hg] at h
    exact congrArg some h

theorem kindOf_of_hasKind {d : Datum} {kind : String} (h : Form.hasKind kind d = true) :
    kindOf d = kind := by
  have hk : (d.get "kind").string? = some kind := by simpa [Form.hasKind] using h
  rw [kindOf, hk]
  rfl

/-- A value with a kind is there. -/
theorem ne_absent_of_hasKind {d : Datum} {kind : String} (h : Form.hasKind kind d = true) :
    d ≠ .absent := by
  rintro rfl
  cases h

/-! Heads. -/

theorem DescribesIdentifier.identifierOf? {d : Datum} {i : Identifier}
    (h : DescribesIdentifier d i) : Graph.identifierOf? d = some i := by
  cases h with
  | token hk hs =>
    have hn : d.isNothing = false := by
      cases d with
      | record => rfl
      | _ => cases hk
    simp [Graph.identifierOf?, headEntry, kindOf_of_hasKind hk, hs, hn]
  | string hk hs => simp [Graph.identifierOf?, headEntry, kindOf_of_hasKind hk, hs]
  | number hk hn => simp [Graph.identifierOf?, headEntry, kindOf_of_hasKind hk, hn]
  | aliased hk hs ha =>
    simp [Graph.identifierOf?, headEntry, kindOf_of_hasKind hk, hs, ha, Datum.string?]

/-- A head that is described is written as text of its own. -/
theorem DescribesIdentifier.headIsText {d : Datum} {i : Identifier}
    (h : DescribesIdentifier d i) : Graph.headIsText d = true := by
  cases h with
  | token hk hs | string hk hs | aliased hk hs =>
    simp [Graph.headIsText, headEntry, kindOf_of_hasKind hk, hs, Datum.isString, Datum.string?]
  | number hk hn => simp [Graph.headIsText, kindOf_of_hasKind hk]

/-- A head with a text of its own is written among others as it is alone. -/
theorem amongOthers_of_headIsText {d : Datum} (h : headIsText (d.get "object") = true) (n : Node) :
    amongOthers d n = n := by
  have hn : headIsNothing (d.get "object") = false := by
    rw [headIsText, Bool.or_eq_true] at h
    rw [headIsNothing]
    rcases h with h | h
    · simp only [bne, h, Bool.not_true, Bool.false_and]
    · cases he : headEntry (d.get "object") with
      | string s => simp [Datum.isNothing]
      | _ =>
        rw [he] at h
        cases h
  rw [amongOthers, hn, Bool.false_and, if_neg (by decide)]

/-! Metadata. -/

theorem metadataEntry?_of_get {d : Datum} {key : String} {xs : Option (List Datum)}
    (h : (d.get "metadata").get key = (xs.map Datum.list).getD .absent) :
    metadataEntry? key d = xs.map .list := by
  unfold metadataEntry?
  cases xs with
  | some ds =>
    rw [get?_of_get (v := .list ds) h (by simp)]
    rfl
  | none =>
    rw [Datum.get] at h
    cases hg : (d.get "metadata").get? key with
    | none => rfl
    | some v =>
      rw [hg] at h
      obtain rfl : v = .absent := h
      rfl

section
variable {d : Datum} {name : Option String} {args ps : Option (List Datum)}

theorem HasMetadata.isNothing (h : HasMetadata d name args ps) : d.isNothing = false := by
  obtain ⟨entries, rfl⟩ := h.isRecord
  rfl

theorem HasMetadata.nameOf? (h : HasMetadata (d.get "metadata") name args ps) :
    Graph.nameOf? d = some name := by
  rw [Graph.nameOf?, h.name]
  cases name with
  | none => rfl
  | some s => simp

theorem hasMetadata_metadata : HasMetadata (Form.metadata name args ps) name args ps := by
  refine ⟨⟨_, rfl⟩, ?_, ?_, ?_⟩ <;> cases name <;> cases args <;> cases ps <;> rfl

end

/-- The items of a list that may be absent. -/
def listOf? {α : Type} (read : List Datum → Option (List α)) :
    Option (List Datum) → Option (Option (List α))
  | none => some none
  | some ds => (read ds).map some

theorem nodeOf?_of_hasMetadata {d : Datum} {name : Option String} {args ps : Option (List Datum)}
    {fields : List Datum} (hm : HasMetadata (d.get "metadata") name args ps)
    (hf : d.get "fields" = .list fields) :
    nodeOf? d = do
      let i ← identifierOf? (d.get "object")
      let as ← listOf? argumentsOf? args
      let qs ← listOf? parametersOf? ps
      let ns ← nodesOf? fields
      return ⟨i, name, as, qs, ns⟩ := by
  have hfields : d.get? "fields" = some (.list fields) := get?_of_get hf (by simp)
  have hargs := metadataEntry?_of_get hm.arguments
  have hps := metadataEntry?_of_get hm.parameters
  rw [nodeOf?, hm.isNothing, hm.nameOf?]
  -- The look-ups are under proofs of what they give, and are replaced as variables.
  generalize metadataEntry? "arguments" d = as at hargs
  generalize metadataEntry? "parameters" d = qs at hps
  generalize d.get? "fields" = fs at hfields
  subst hargs hps hfields
  cases identifierOf? (d.get "object") with
  | none => rfl
  | some i =>
    simp only [bind_pure_comp, Option.map_eq_map]
    cases args <;> cases ps <;> rfl

/-- A default that may be absent. -/
def defaultOf? : Datum → Option (Option Value)
  | .absent => some none
  | d => (valueOf? d).map some

theorem parameterOf?_of_get {d : Datum} {s type : String} {required : Bool}
    (hs : d.get "name" = .string s) (ht : d.get "type" = .string type)
    (hr : d.get "required" = .boolean required) :
    parameterOf? d =
      (defaultOf? (d.get "defaultValue")).map fun v => ⟨s, type, required, v⟩ := by
  have hn : d.isNothing = false := by
    cases d with
    | record => rfl
    | _ => cases hs
  rw [parameterOf?, hn, hs, ht, hr, asText?_string, asText?_string, Datum.get, Datum.isFalsy,
    Bool.not_not]
  generalize d.get? "defaultValue" = v
  cases v with
  | none => rfl
  | some v =>
    cases v with
    | absent => rfl
    | _ => exact (Option.map_map _ some (valueOf? _)).symm

theorem DescribesValue.ne_absent {d : Datum} {v : Value} (h : DescribesValue d v) :
    d ≠ .absent := by
  cases h with
  | token hk | reference hk | object hk | string hk | number hk | graph hk =>
    exact ne_absent_of_hasKind hk

theorem DescribesNode.headIsText {d : Datum} {n : Node} (h : DescribesNode d n) :
    Graph.headIsText (d.get "object") = true := by
  obtain ⟨-, hi, -⟩ := h
  exact hi.headIsText

/-! Whole graphs, by the structure of the description. -/

mutual

theorem DescribesValue.valueOf? {d : Datum} {v : Value} (h : DescribesValue d v) :
    Graph.valueOf? d = some v := by
  match h with
  | .token hk hs | .reference hk hs | .string hk hs =>
    rw [Graph.valueOf?, kindOf_of_hasKind hk]
    simp [hs]
  | .number hk hn =>
    rw [Graph.valueOf?, kindOf_of_hasKind hk]
    simp [hn]
  | @DescribesValue.object d fs as hk hf hfs =>
    have hg : d.get? "fields" = some (.list fs) := get?_of_get hf (by simp)
    rw [Graph.valueOf?, kindOf_of_hasKind hk]
    generalize d.get? "fields" = x at hg
    subst hg
    show (argumentsOf? fs).map Value.object = _
    rw [hfs.argumentsOf?, Option.map_some]
  | .graph hk hn =>
    have hg : d.get? "graph" = some (d.get "graph") :=
      get?_of_get rfl (by obtain ⟨hk, -⟩ := hn; exact ne_absent_of_hasKind hk)
    have hr := hn.nodeOf?
    rw [Graph.valueOf?, kindOf_of_hasKind hk]
    generalize d.get "graph" = x at hg hr
    generalize d.get? "graph" = y at hg
    subst hg
    show (nodeOf? x).map Value.graph = _
    rw [hr, Option.map_some]
termination_by structural h

theorem DescribesFields.argumentsOf? {ds : List Datum} {as : List Argument}
    (h : DescribesFields ds as) : Graph.argumentsOf? ds = some as := by
  match h with
  | .nil => rw [Graph.argumentsOf?]
  | @DescribesFields.cons d ds s v as hs hv hrest =>
    have hg : d.get? "value" = some (d.get "value") := get?_of_get rfl hv.ne_absent
    have hr := hv.valueOf?
    have ha : argumentOf? d = some ⟨s, v⟩ := by
      rw [argumentOf?, hs, asText?_string]
      generalize d.get "value" = x at hg hr
      generalize d.get? "value" = y at hg
      subst hg
      show (Graph.valueOf? x).map _ = _
      rw [hr, Option.map_some]
    rw [Graph.argumentsOf?, ha, hrest.argumentsOf?]
    rfl
termination_by structural h

theorem DescribesArguments.listOf? {ds : Option (List Datum)} {as : Option (List Argument)}
    (h : DescribesArguments ds as) : Graph.listOf? Graph.argumentsOf? ds = some as := by
  match h with
  | .none => rw [Graph.listOf?]
  | .some hs => rw [Graph.listOf?, hs.argumentsOf?, Option.map_some]
termination_by structural h

theorem DescribesParameters.parametersOf? {ds : List Datum} {ps : List Parameter}
    (h : DescribesParameters ds ps) : Graph.parametersOf? ds = some ps := by
  match h with
  | .nil => rw [Graph.parametersOf?]
  | @DescribesParameters.cons d ds s type required v ps hs ht hr hv hrest =>
    have hp : parameterOf? d = some ⟨s, type, required, v⟩ := by
      rw [parameterOf?_of_get hs ht hr, hv.defaultOf?, Option.map_some]
    rw [Graph.parametersOf?, hp, hrest.parametersOf?]
    rfl
termination_by structural h

theorem DescribesDefault.defaultOf? {d : Datum} {v : Option Value} (h : DescribesDefault d v) :
    Graph.defaultOf? d = some v := by
  match h with
  | .none => rfl
  | .some hv =>
    have hr := hv.valueOf?
    have hn := hv.ne_absent
    cases d with
    | absent => exact absurd rfl hn
    | _ => simp only [Graph.defaultOf?, hr, Option.map_some]
termination_by structural h

theorem DescribesParameterList.listOf? {ds : Option (List Datum)} {ps : Option (List Parameter)}
    (h : DescribesParameterList ds ps) : Graph.listOf? Graph.parametersOf? ds = some ps := by
  match h with
  | .none => rw [Graph.listOf?]
  | .some hs => rw [Graph.listOf?, hs.parametersOf?, Option.map_some]
termination_by structural h

/-- A record is read as the graph that it describes. -/
theorem DescribesNode.nodeOf? {d : Datum} {n : Node} (h : DescribesNode d n) :
    Graph.nodeOf? d = some n := by
  match h with
  | .mk hk hi hm ha hp hf hn =>
    rw [nodeOf?_of_hasMetadata hm hf, hi.identifierOf?, ha.listOf?, hp.listOf?, hn.nodesOf?]
    rfl
termination_by structural h

theorem DescribesNodes.nodesOf? {ds : List Datum} {ns : List Node} (h : DescribesNodes ds ns) :
    Graph.nodesOf? ds = some ns := by
  match h with
  | .nil => rw [Graph.nodesOf?]
  | @DescribesNodes.cons d ds n ns hn hs =>
    rw [Graph.nodesOf?, hn.nodeOf?, hs.nodesOf?]
    show some (amongOthers d n :: _) = _
    rw [amongOthers_of_headIsText hn.headIsText]
termination_by structural h

end

end GraphQuery.Graph
