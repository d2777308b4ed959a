import GraphQuery.Operation
import GraphQuery.Proofs.Surface.Grammar
import GraphQuery.Proofs.Surface.Parts

/-! What reading keeps. A property of values and graphs that is closed under the ways in which they
are read holds of a graph that is read, if it holds of all that already was in record form. -/
namespace GraphQuery.Surface

open GraphQuery.Graph

/-- Each argument has a name of its own and a value with a property. -/
def HoldsOfArguments (V : Value → Prop) (as : List Argument) : Prop :=
  DistinctNames as ∧ ∀ a ∈ as, V a.value

def HoldsOfDefaults (V : Value → Prop) (ps : List Parameter) : Prop :=
  ∀ p ∈ ps, ∀ v, p.defaultValue = some v → V v

/-- Properties of values and of graphs that are kept when a larger one is read of others. -/
structure ReadClosed (V : Value → Prop) (N : Node → Prop) : Prop where
  token : ∀ s, V (.token s)
  reference : ∀ s, V (.variable s)
  string : ∀ s, V (.string s)
  number : ∀ n : Number, n.isFinite = true → V (.number n)
  object : ∀ as, HoldsOfArguments V as → V (.object as)
  graph : ∀ n, N n → V (.graph n)
  node : ∀ (i : Identifier) (name : Option String) (as : Option (List Argument))
    (ps : Option (List Parameter)) (ns : List Node), i.WellFormed →
    (∀ l, as = some l → HoldsOfArguments V l) → (∀ l, ps = some l → HoldsOfDefaults V l) →
    (∀ n ∈ ns, N n) → N ⟨i, name, as, ps, ns⟩

/-- All that is in record form, at any depth, describes what has the properties. -/
structure PartsHave (V : Value → Prop) (N : Node → Prop) (d : Datum) : Prop where
  value : ∀ c, IsPart c d → Form.isValue c = true → ∃ v, DescribesValue c v ∧ V v
  node : ∀ c, IsPart c d → Form.isNode c = true → ∃ n, DescribesNode c n ∧ N n

/-- A record describes metadata whose values have a property. -/
def MetadataHas (V : Value → Prop) (m : Datum) : Prop :=
  ∃ name args ps as qs, HasMetadata m name args ps ∧ DescribesArguments args as ∧
    DescribesParameterList ps qs ∧ (∀ l, as = some l → HoldsOfArguments V l) ∧
    ∀ l, qs = some l → HoldsOfDefaults V l

/-! Heads. -/

theorem isString_iff {d : Datum} : d.isString = true ↔ ∃ s, d = .string s := by
  cases d <;> simp [Datum.isString, Datum.string?]

theorem exists_describes_of_form {d : Datum} (h : (Form.isToken d || Form.isAlias d) = true) :
    ∃ i, DescribesIdentifier d i ∧ i.WellFormed := by
  rcases Bool.or_eq_true_iff.1 h with h | h
  · rw [Form.isToken, Bool.and_eq_true] at h
    obtain ⟨s, hs⟩ := isString_iff.1 h.2
    exact ⟨.token s, .token h.1 hs, trivial⟩
  · rw [Form.isAlias, Bool.and_eq_true, Bool.and_eq_true] at h
    obtain ⟨⟨hk, hs⟩, ha⟩ := h
    obtain ⟨s, hs⟩ := isString_iff.1 hs
    obtain ⟨a, ha⟩ := isString_iff.1 ha
    exact ⟨.aliased s a, .aliased hk hs ha, trivial⟩

theorem exists_describes_of_readIdentifier {d r : Datum} (h : readIdentifier d = .ok r) :
    ∃ i, DescribesIdentifier r i ∧ i.WellFormed := by
  unfold readIdentifier at h
  split at h
  · next s =>
    cases h
    exact ⟨.string s, .string rfl rfl, trivial⟩
  · next n =>
    obtain ⟨hn, rfl⟩ := readFinite_eq_ok.1 h
    exact ⟨.number n, .number rfl rfl, hn⟩
  · split at h
    · next hf =>
      cases h
      exact exists_describes_of_form hf
    · cases h

/-! Parts. -/

theorem isPart_of_parameterShape {d v : Datum} {s : ParameterShape}
    (h : parameterShape d = .ok s) (hv : s.defaultValue = some v) : IsPart v d := by
  unfold parameterShape at h
  split at h
  · cases h
    exact isPart_of_get? (present_eq_some.1 hv).1
  · split at h
    · next elements _ _ =>
      unfold listedParameter at h
      split at h
      · obtain ⟨-, -, hn⟩ := namedParameter_eq_ok h
        rw [hn] at hv
        cases hv
      · obtain ⟨-, -, hn⟩ := namedParameter_eq_ok h
        rw [hn] at hv
        cases hv
      · obtain ⟨-, -, hn⟩ := namedParameter_eq_ok h
        rw [hn] at hv
        cases hv
        exact isPart_of_mem (by simp)
      · cases h
    · cases h

theorem isPart_of_split {d : Datum} {s : Split} (h : split d = .ok s) :
    (∀ c ∈ s.positional, IsPart c d) ∧ ∀ t c, s.value? t = some c → IsPart c d := by
  unfold split at h
  split at h
  · obtain ⟨hp, hm⟩ := mem_of_splitElements (mapError_eq_ok.1 h)
    refine ⟨fun c hc => isPart_of_mem (hp c hc), fun t c hc => ?_⟩
    exact isPart_of_mem (hm (t, c) (Keyed.mem_of_lookup hc))
  · cases h
    refine ⟨fun c hc => ?_, fun t c hc => by cases hc⟩
    rw [List.mem_singleton.1 hc]
    exact .self d

section
variable {V : Value → Prop} {N : Node → Prop}

theorem PartsHave.of_isPart {c d : Datum} (hd : PartsHave V N d) (h : IsPart c d) :
    PartsHave V N c :=
  ⟨fun b hb => hd.value b (hb.trans h), fun b hb => hd.node b (hb.trans h)⟩

/-! Values. -/

theorem exists_describes_of_isReadOf {es : List (String × Datum)} {fs : List Datum}
    (h : List.Forall₂ IsReadOf es fs)
    (hw : ∀ e ∈ es, ∀ r, readValue e.2 = .ok r → ∃ v, DescribesValue r v ∧ V v) :
    ∃ as, DescribesFields fs as ∧ as.map Argument.name = es.map Prod.fst ∧
      ∀ a ∈ as, V a.value := by
  induction h with
  | nil => exact ⟨[], .nil, rfl, List.forall_mem_nil _⟩
  | @cons e f es fs hf _ ih =>
    obtain ⟨r, hr, rfl⟩ := hf
    obtain ⟨v, hd, hv⟩ := hw e (by simp) r hr
    obtain ⟨as, has, hnames, hvs⟩ := ih fun e' he' => hw e' (List.mem_cons_of_mem e he')
    exact ⟨⟨e.1, v⟩ :: as, .cons rfl hd has, by simp [hnames], List.forall_mem_cons.2 ⟨hv, hvs⟩⟩

theorem exists_describes_of_readFields {d : Datum} {fs : List Datum} (h : readFields d = .ok fs)
    (hw : ∀ w es, d = Writing.write w es → ∀ e ∈ es, ∀ r, readValue e.2 = .ok r →
      ∃ v, DescribesValue r v ∧ V v) :
    ∃ as, DescribesFields fs as ∧ HoldsOfArguments V as := by
  obtain ⟨w, es, rfl, hk, hes⟩ := readFields_eq_ok.1 h
  obtain ⟨as, hd, hnames, hvs⟩ := exists_describes_of_isReadOf hes (hw w es rfl)
  refine ⟨as, hd, ?_, hvs⟩
  rw [DistinctNames, hnames]
  exact hk

theorem ReadClosed.value_of_readValue (hc : ReadClosed V N) {d r : Datum}
    (hd : PartsHave V N d) (h : readValue d = .ok r) : ∃ v, DescribesValue r v ∧ V v := by
  have hread := readingOf d
  rw [h] at hread
  generalize hx : (Except.ok r : Except Malformed Datum) = x at hread
  cases hread with
  | inForm hv =>
    cases hx
    exact hd.value d (.self d) hv
  | null =>
    cases hx
    exact ⟨.token "null", .token rfl rfl, hc.token _⟩
  | boolean b =>
    cases hx
    exact ⟨.token (toString b), .token rfl rfl, hc.token _⟩
  | string s =>
    cases hx
    exact ⟨.string s, .string rfl rfl, hc.string s⟩
  | number n =>
    obtain ⟨hn, rfl⟩ := readFinite_eq_ok.1 hx.symm
    exact ⟨.number n, .number rfl rfl, hc.number n hn⟩
  | reference name =>
    cases hx
    exact ⟨.variable name, .reference rfl rfl, hc.reference name⟩
  | node hn =>
    cases hx
    obtain ⟨n, hdn, hn⟩ := hd.node d (.self d) hn
    exact ⟨.graph n, .graph rfl hdn, hc.graph n hn⟩
  | compound =>
    obtain ⟨fs, hfs, rfl⟩ := map_eq_ok.1 hx.symm
    obtain ⟨as, has, hvs⟩ := exists_describes_of_readFields hfs
      fun w es hw e he r hr => hc.value_of_readValue
        (hd.of_isPart (hw ▸ isPart_write w he)) hr
    exact ⟨.object as, .object rfl rfl has, hc.object as hvs⟩
  | refused => cases hx
termination_by sizeOf d
decreasing_by
  rw [hw]
  exact sizeOf_entry_lt w he

/-! Parameters and metadata. -/

theorem ReadClosed.parameters_of_readParameters (hc : ReadClosed V N) {ds rs : List Datum}
    (hd : ∀ d ∈ ds, PartsHave V N d) (h : readParameters ds = .ok rs) :
    ∃ ps, DescribesParameters rs ps ∧ HoldsOfDefaults V ps := by
  have hrs := readParameters_eq_ok.1 h
  clear h
  induction hrs with
  | nil => exact ⟨[], .nil, List.forall_mem_nil _⟩
  | @cons d r ds rs hr _ ih =>
    obtain ⟨ps, hps, hvs⟩ := ih fun e he => hd e (List.mem_cons_of_mem d he)
    cases hs : parameterShape d with
    | error m =>
      rw [readParameter_of_error hs] at hr
      cases hr
    | ok s =>
      cases hv : s.defaultValue with
      | none =>
        rw [readParameter_of_none hs hv] at hr
        cases hr
        exact ⟨⟨s.name, s.type, s.required, none⟩ :: ps, .cons rfl rfl rfl .none hps,
          List.forall_mem_cons.2 ⟨by simp, hvs⟩⟩
      | some v =>
        rw [readParameter_of_some hs hv] at hr
        obtain ⟨w, hw, rfl⟩ := map_eq_ok.1 hr
        have hpart := (hd d (by simp)).of_isPart (isPart_of_parameterShape hs hv)
        obtain ⟨u, hu, hwu⟩ := hc.value_of_readValue hpart hw
        refine ⟨⟨s.name, s.type, s.required, some u⟩ :: ps, .cons rfl rfl rfl (.some hu) hps,
          List.forall_mem_cons.2 ⟨fun v hv => ?_, hvs⟩⟩
        cases hv
        exact hwu

theorem ReadClosed.arguments_of_readArguments (hc : ReadClosed V N) {o : Option Datum}
    {args : Option (List Datum)} (hd : ∀ d, o = some d → PartsHave V N d)
    (h : readArguments o = .ok args) :
    ∃ as, DescribesArguments args as ∧ ∀ l, as = some l → HoldsOfArguments V l := by
  cases o with
  | none =>
    rw [readArguments] at h
    cases h
    exact ⟨none, .none, by simp⟩
  | some d =>
    rw [readArguments] at h
    obtain ⟨fs, hfs, rfl⟩ := map_eq_ok.1 h
    obtain ⟨as, has, hvs⟩ := exists_describes_of_readFields hfs
      fun w es hw e he r hr => hc.value_of_readValue
        ((hd d rfl).of_isPart (hw ▸ isPart_write w he)) hr
    refine ⟨some as, .some has, fun l hl => ?_⟩
    cases hl
    exact hvs

theorem ReadClosed.parameters_of_readParameterList (hc : ReadClosed V N) {o : Option Datum}
    {ps : Option (List Datum)} (hd : ∀ d, o = some d → PartsHave V N d)
    (h : readParameterList o = .ok ps) :
    ∃ qs, DescribesParameterList ps qs ∧ ∀ l, qs = some l → HoldsOfDefaults V l := by
  unfold readParameterList at h
  split at h
  · cases h
    exact ⟨none, .none, by simp⟩
  · next elements =>
    obtain ⟨rs, hrs, rfl⟩ := map_eq_ok.1 h
    obtain ⟨qs, hqs, hvs⟩ := hc.parameters_of_readParameters
      (fun d he => (hd _ rfl).of_isPart (isPart_of_mem he)) hrs
    refine ⟨some qs, .some hqs, fun l hl => ?_⟩
    cases hl
    exact hvs
  · cases h

theorem ReadClosed.metadata_of_readMetadata (hc : ReadClosed V N) {s : Split} {m : Datum}
    (hd : ∀ t d, s.value? t = some d → PartsHave V N d) (h : readMetadata s = .ok m) :
    MetadataHas V m := by
  simp only [readMetadata, bind_eq_ok] at h
  obtain ⟨name, -, args, hargs, ps, hps, hm⟩ := h
  cases hm
  obtain ⟨as, has, hvs⟩ := hc.arguments_of_readArguments (hd .arguments) hargs
  obtain ⟨qs, hqs, hws⟩ := hc.parameters_of_readParameterList (hd .operationParameters) hps
  exact ⟨name, args, ps, as, qs, hasMetadata_metadata, has, hqs, hvs, hws⟩

theorem ReadClosed.metadata_of_readHeader (hc : ReadClosed V N) {o : Operation}
    {header m : Datum} (hd : PartsHave V N header) (h : o.readHeader header = .ok m) :
    MetadataHas V m := by
  unfold Operation.readHeader at h
  split at h
  · next name =>
    cases h
    exact ⟨some name, none, none, none, none, hasMetadata_metadata, .none, .none,
      by simp, by simp⟩
  · next name elements =>
    simp only [bind_eq_ok, mapError_eq_ok] at h
    obtain ⟨ps, hps, h⟩ := h
    cases h
    have hlist : PartsHave V N (.list elements) := hd.of_isPart (isPart_of_mem (by simp))
    obtain ⟨qs, hqs, hvs⟩ := hc.parameters_of_readParameters
      (fun d he => hlist.of_isPart (isPart_of_mem he)) hps
    refine ⟨some name, none, some ps, none, some qs, hasMetadata_metadata, .none, .some hqs,
      by simp, fun l hl => ?_⟩
    cases hl
    exact hvs
  · cases h

/-! Graphs. -/

theorem ReadClosed.node_of_fields (hc : ReadClosed V N) {object metadata : Datum}
    {fields : List Datum} {ns : List Node}
    (ho : ∃ i, DescribesIdentifier object i ∧ i.WellFormed) (hm : MetadataHas V metadata)
    (hn : DescribesNodes fields ns) (hw : ∀ n ∈ ns, N n) :
    ∃ n, DescribesNode (Form.node object metadata fields) n ∧ N n := by
  obtain ⟨i, hi, hwi⟩ := ho
  obtain ⟨name, args, ps, as, qs, hmeta, has, hqs, hvs, hws⟩ := hm
  exact ⟨⟨i, name, as, qs, ns⟩, .mk rfl hi hmeta has hqs rfl hn,
    hc.node i name as qs ns hwi hvs hws hw⟩

mutual

theorem ReadClosed.node_of_readGraph (hc : ReadClosed V N) {d r : Datum}
    (hd : PartsHave V N d) (h : readGraph d = .ok r) : ∃ n, DescribesNode r n ∧ N n := by
  by_cases hn : Form.isNode d = true
  · rw [readGraph_of_isNode hn] at h
    cases h
    exact hd.node d (.self d) hn
  rw [Bool.not_eq_true] at hn
  cases hs : split d with
  | error m =>
    rw [readGraph_of_split_error hn hs] at h
    cases h
  | ok s =>
    obtain ⟨hpositional, hvalue⟩ := isPart_of_split hs
    cases hp : s.positional with
    | nil =>
      rw [readGraph_of_no_head hn hs hp] at h
      cases h
    | cons head children =>
      rw [readGraph_of_head hn hs hp] at h
      simp only [bind_eq_ok] at h
      obtain ⟨object, ho, metadata, hm, fields, hf, h⟩ := h
      cases h
      obtain ⟨ns, hns, hws⟩ := hc.nodes_of_readGraphs
        (fun c hc => hd.of_isPart (hpositional c (by rw [hp]; exact List.mem_cons_of_mem head hc)))
        hf
      exact hc.node_of_fields (exists_describes_of_readIdentifier ho)
        (hc.metadata_of_readMetadata (fun t c hc => hd.of_isPart (hvalue t c hc)) hm) hns hws
termination_by 2 * sizeOf d + 1
decreasing_by
  have := sizeOf_children_le hs hp
  omega

theorem ReadClosed.nodes_of_readGraphs (hc : ReadClosed V N) {ds rs : List Datum}
    (hd : ∀ d ∈ ds, PartsHave V N d) (h : readGraphs ds = .ok rs) :
    ∃ ns, DescribesNodes rs ns ∧ ∀ n ∈ ns, N n := by
  match ds with
  | [] =>
    rw [readGraphs] at h
    cases h
    exact ⟨[], .nil, List.forall_mem_nil _⟩
  | d :: ds =>
    rw [readGraphs] at h
    simp only [bind_eq_ok] at h
    obtain ⟨r, hr, rs, hrs, h⟩ := h
    cases h
    obtain ⟨n, hn, hwn⟩ := hc.node_of_readGraph (hd d (by simp)) hr
    obtain ⟨ns, hns, hws⟩ := hc.nodes_of_readGraphs
      (fun e he => hd e (List.mem_cons_of_mem d he)) hrs
    exact ⟨n :: ns, .cons hn hns, List.forall_mem_cons.2 ⟨hwn, hws⟩⟩
termination_by 2 * sizeOf ds

end

end

/-- All that is in record form, at any depth, describes a value or a graph. -/
structure PartsDescribed (d : Datum) : Prop where
  value : ∀ c, IsPart c d → Form.isValue c = true → ∃ v, DescribesValue c v
  node : ∀ c, IsPart c d → Form.isNode c = true → ∃ n, DescribesNode c n

theorem readClosed_true : ReadClosed (fun _ => True) (fun _ => True) := by
  constructor <;> intros <;> trivial

theorem PartsDescribed.partsHave {d : Datum} (h : PartsDescribed d) :
    PartsHave (fun _ => True) (fun _ => True) d := by
  refine ⟨fun c hc hv => ?_, fun c hc hn => ?_⟩
  · obtain ⟨v, hv⟩ := h.value c hc hv
    exact ⟨v, hv, trivial⟩
  · obtain ⟨n, hn⟩ := h.node c hc hn
    exact ⟨n, hn, trivial⟩

/-- A graph whose parts in record form are described is read as one that is. -/
theorem exists_describes_of_readGraph {d r : Datum} (hd : PartsDescribed d)
    (h : readGraph d = .ok r) : ∃ n, DescribesNode r n := by
  obtain ⟨n, hn, -⟩ := readClosed_true.node_of_readGraph hd.partsHave h
  exact ⟨n, hn⟩

end GraphQuery.Surface
