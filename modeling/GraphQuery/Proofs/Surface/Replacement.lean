import GraphQuery.Proofs.Surface.Agreement
import GraphQuery.Proofs.Surface.Grammar

/-! Parts in record form among others. What is read is in record form, and is left as it is where
it is read again, so that parts of a graph can be replaced by what they are read as. -/
namespace GraphQuery.Surface

/-! Reading again. -/

theorem isValue_of_readValue {d r : Datum} (h : readValue d = .ok r) : Form.isValue r = true := by
  have hread := readingOf d
  rw [h] at hread
  generalize hx : (Except.ok r : Except Malformed Datum) = x at hread
  cases hread with
  | inForm hv =>
    cases hx
    exact hv
  | null | boolean | string | reference =>
    cases hx
    rfl
  | number n =>
    obtain ⟨-, rfl⟩ := readFinite_eq_ok.1 hx.symm
    rfl
  | node hn =>
    cases hx
    exact hn
  | compound =>
    obtain ⟨fs, -, rfl⟩ := map_eq_ok.1 hx.symm
    rfl
  | refused => cases hx

theorem readValue_of_readValue {d r : Datum} (h : readValue d = .ok r) : readValue r = .ok r :=
  readValue_of_isValue (isValue_of_readValue h)

theorem parameterShape_parameter (name type : String) (required : Bool) {v : Option Datum}
    (hv : v ≠ some .absent) :
    parameterShape (Form.parameter name type required v) = .ok ⟨name, type, required, v⟩ := by
  have hname : (Form.parameter name type required v).get "name" = .string name := rfl
  have htype : (Form.parameter name type required v).get "type" = .string type := rfl
  have hrequired : (Form.parameter name type required v).get "required" = .boolean required := rfl
  have hdefault : (Form.parameter name type required v).get? "defaultValue" = v := by
    cases v <;> rfl
  have hpresent : present v = v := by
    cases v with
    | none => rfl
    | some d => exact present_eq_some.2 ⟨rfl, fun hd => hv (congrArg some hd)⟩
  rw [parameterShape_of_get hname htype, hrequired, hdefault, hpresent]
  rfl

theorem ne_absent_of_isValue {d : Datum} (h : Form.isValue d = true) : d ≠ .absent := by
  rintro rfl
  cases h

theorem readParameter_of_readParameter {d p : Datum} (h : readParameter d = .ok p) :
    readParameter p = .ok p := by
  cases hs : parameterShape d with
  | error m =>
    rw [readParameter_of_error hs] at h
    cases h
  | ok s =>
    cases hv : s.defaultValue with
    | none =>
      rw [readParameter_of_none hs hv] at h
      cases h
      have hne : (none : Option Datum) ≠ some .absent := by simp
      rw [readParameter_of_none (parameterShape_parameter _ _ _ hne) rfl]
    | some v =>
      rw [readParameter_of_some hs hv] at h
      obtain ⟨r, hr, rfl⟩ := map_eq_ok.1 h
      have hne : some r ≠ some Datum.absent := by
        simpa using ne_absent_of_isValue (isValue_of_readValue hr)
      rw [readParameter_of_some (parameterShape_parameter _ _ _ hne) rfl,
        readValue_of_readValue hr]
      rfl

theorem isNode_of_readGraph {d r : Datum} (h : readGraph d = .ok r) : Form.isNode r = true := by
  by_cases hn : Form.isNode d = true
  · rw [readGraph_of_isNode hn] at h
    cases h
    exact hn
  rw [Bool.not_eq_true] at hn
  cases hs : split d with
  | error m =>
    rw [readGraph_of_split_error hn hs] at h
    cases h
  | ok s =>
    cases hp : s.positional with
    | nil =>
      rw [readGraph_of_no_head hn hs hp] at h
      cases h
    | cons head children =>
      rw [readGraph_of_head hn hs hp] at h
      simp only [bind_eq_ok] at h
      obtain ⟨_, -, _, -, _, -, h⟩ := h
      cases h
      rfl

theorem readGraph_of_readGraph {d r : Datum} (h : readGraph d = .ok r) : readGraph r = .ok r :=
  readGraph_of_isNode (isNode_of_readGraph h)

/-! Replacing. -/

mutual

/-- A value, with some of it replaced by what that is read as: itself, or values in a list of
pairs, at any depth of such lists. -/
inductive ReplacedValue : Datum → Datum → Prop
  | refl (d : Datum) : ReplacedValue d d
  | read {d r : Datum} (h : readValue d = .ok r) : ReplacedValue d r
  | pairs {es fs : List (String × Datum)} (h : ReplacedEntries es fs) :
    ReplacedValue (Writing.pairs.write es) (Writing.pairs.write fs)

inductive ReplacedEntries : List (String × Datum) → List (String × Datum) → Prop
  | nil : ReplacedEntries [] []
  | cons (key : String) {d e : Datum} {es fs : List (String × Datum)} (h : ReplacedValue d e)
    (hs : ReplacedEntries es fs) : ReplacedEntries ((key, d) :: es) ((key, e) :: fs)

end

/-- A collection in either writing, with some of its values replaced. -/
inductive ReplacedFields : Datum → Datum → Prop
  | refl (d : Datum) : ReplacedFields d d
  | entries (w : Writing) {es fs : List (String × Datum)} (h : ReplacedEntries es fs) :
    ReplacedFields (w.write es) (w.write fs)

inductive ReplacedParameter : Datum → Datum → Prop
  | refl (d : Datum) : ReplacedParameter d d
  | read {d p : Datum} (h : readParameter d = .ok p) : ReplacedParameter d p

/-- What is given to a tag, with some of it replaced. -/
inductive ReplacedGiven : MetaTag × Datum → MetaTag × Datum → Prop
  | refl (g : MetaTag × Datum) : ReplacedGiven g g
  | arguments {d e : Datum} (h : ReplacedFields d e) :
    ReplacedGiven (.arguments, d) (.arguments, e)
  | parameters {ps qs : List Datum} (h : List.Forall₂ ReplacedParameter ps qs) :
    ReplacedGiven (.operationParameters, .list ps) (.operationParameters, .list qs)

mutual

/-- A graph, with some of it replaced by what that is read as: itself, or children, parameters and
values of arguments in it and in the lists among its children. The head stays. -/
inductive ReplacedGraph : Datum → Datum → Prop
  | refl (d : Datum) : ReplacedGraph d d
  | read {d r : Datum} (h : readGraph d = .ok r) : ReplacedGraph d r
  | list {es fs children children' : List Datum} {head : Datum}
    {given given' : List (MetaTag × Datum)} (hd : Divides es given (head :: children))
    (he : Divides fs given' (head :: children')) (hg : List.Forall₂ ReplacedGiven given given')
    (hc : ReplacedGraphs children children') : ReplacedGraph (.list es) (.list fs)

inductive ReplacedGraphs : List Datum → List Datum → Prop
  | nil : ReplacedGraphs [] []
  | cons {d e : Datum} {ds es : List Datum} (h : ReplacedGraph d e) (hs : ReplacedGraphs ds es) :
    ReplacedGraphs (d :: ds) (e :: es)

end

/-! Agreement. -/

theorem agree_of_read {α : Type} {x y : Except Malformed α} {a : α} (hx : x = .ok a)
    (hy : y = .ok a) : Agree x y :=
  agree_iff.2 (Or.inl ⟨a, hx, hy⟩)

mutual

theorem ReplacedValue.agree {d e : Datum} (h : ReplacedValue d e) :
    Agree (readValue d) (readValue e) := by
  match h with
  | .refl d => exact .refl _
  | .read h => exact agree_of_read h (readValue_of_readValue h)
  | .pairs hs =>
    rw [readValue_pairs, readValue_pairs]
    exact (agree_readFields_write hs.agree).map _
termination_by structural h

theorem ReplacedEntries.agree {es fs : List (String × Datum)} (h : ReplacedEntries es fs) :
    List.Forall₂ (fun e f => e.1 = f.1 ∧ Agree (readValue e.2) (readValue f.2)) es fs := by
  match h with
  | .nil => exact .nil
  | .cons key h hs => exact .cons ⟨rfl, h.agree⟩ hs.agree
termination_by structural h

end

theorem ReplacedFields.agree {d e : Datum} (h : ReplacedFields d e) :
    Agree (readFields d) (readFields e) := by
  cases h with
  | refl => exact .refl _
  | entries w h => exact agree_readFields_write h.agree

theorem ReplacedParameter.agree {d e : Datum} (h : ReplacedParameter d e) :
    Agree (readParameter d) (readParameter e) := by
  cases h with
  | refl => exact .refl _
  | read h => exact agree_of_read h (readParameter_of_readParameter h)

theorem lastGiven_rel {given given' : List (MetaTag × Datum)}
    (h : List.Forall₂ ReplacedGiven given given') (t : MetaTag) :
    Option.Rel (fun d e => ReplacedGiven (t, d) (t, e)) (lastGiven given t)
      (lastGiven given' t) := by
  have hrev := List.rel_reverse h
  rw [lastGiven, lastGiven]
  generalize given.reverse = l, given'.reverse = l' at hrev
  induction hrev with
  | nil => exact .none
  | @cons g g' l l' hg _ ih =>
    have hfst : g.1 = g'.1 := by cases hg <;> rfl
    obtain ⟨t₁, d⟩ := g
    obtain ⟨t₂, e⟩ := g'
    obtain rfl : t₁ = t₂ := hfst
    by_cases ht : t = t₁
    · subst ht
      simpa using Option.Rel.some hg
    · rw [Keyed.lookup_cons_of_ne ht, Keyed.lookup_cons_of_ne ht]
      exact ih

theorem agree_name_of_replaced {o o' : Option Datum}
    (h : Option.Rel (fun d e => ReplacedGiven (.operationName, d) (.operationName, e)) o o') :
    Agree (readOperationName o) (readOperationName o') := by
  cases h with
  | none => exact .refl _
  | some hde =>
    cases hde
    exact .refl _

theorem agree_arguments_of_replaced {o o' : Option Datum}
    (h : Option.Rel (fun d e => ReplacedGiven (.arguments, d) (.arguments, e)) o o') :
    Agree (readArguments o) (readArguments o') := by
  cases h with
  | none => exact .refl _
  | some hde =>
    cases hde with
    | refl => exact .refl _
    | arguments hfields => exact hfields.agree.map some

theorem agree_parameters_of_replaced {o o' : Option Datum}
    (h : Option.Rel
      (fun d e => ReplacedGiven (.operationParameters, d) (.operationParameters, e)) o o') :
    Agree (readParameterList o) (readParameterList o') := by
  cases h with
  | none => exact .refl _
  | some hde =>
    cases hde with
    | refl => exact .refl _
    | parameters hps => exact (agree_readParameters (hps.imp fun _ _ hpq => hpq.agree)).map some

theorem agreeingMetadata_of_replaced {given given' : List (MetaTag × Datum)}
    (h : List.Forall₂ ReplacedGiven given given') (ds es : List Datum) :
    AgreeingMetadata ⟨Keyed.collect given, ds⟩ ⟨Keyed.collect given', es⟩ := by
  refine ⟨?_, ?_, ?_⟩ <;> rw [value?_collect, value?_collect]
  · exact agree_name_of_replaced (lastGiven_rel h .operationName)
  · exact agree_arguments_of_replaced (lastGiven_rel h .arguments)
  · exact agree_parameters_of_replaced (lastGiven_rel h .operationParameters)

mutual

theorem ReplacedGraph.agree {d e : Datum} (h : ReplacedGraph d e) :
    Agree (readGraph d) (readGraph e) := by
  match h with
  | .refl d => exact .refl _
  | .read h => exact agree_of_read h (readGraph_of_readGraph h)
  | .list hd he hg hc =>
    exact agree_of_splits (splitElements_of_divides hd) (splitElements_of_divides he)
      (.parts rfl rfl (.refl _) (agreeingMetadata_of_replaced hg _ _).agree
        (agree_readGraphs hc.agree))
termination_by structural h

theorem ReplacedGraphs.agree {ds es : List Datum} (h : ReplacedGraphs ds es) :
    List.Forall₂ (fun d e => Agree (readGraph d) (readGraph e)) ds es := by
  match h with
  | .nil => exact .nil
  | .cons h hs => exact .cons h.agree hs.agree
termination_by structural h

end

/-- Values and parameters that have been read are read as they are, and parts of a graph can be
replaced by what they are read as: the graph is read as before, and nothing that is done with it
has another outcome. -/
theorem readings_interchangeable :
    (∀ d r, readValue d = .ok r → readValue r = .ok r) ∧
      (∀ d p, readParameter d = .ok p → readParameter p = .ok p) ∧
      ∀ g h, ReplacedGraph g h →
        (∀ r, readGraph g = .ok r → readGraph h = .ok r) ∧ SameOutcomes g h :=
  ⟨fun _ _ => readValue_of_readValue, fun _ _ => readParameter_of_readParameter,
    fun _ _ h => ⟨fun _ => h.agree.eq_ok, .of_agree h.agree⟩⟩

/-- A graph with a parameter, a value in a list of pairs in a record, and a child. -/
def userGraph (parameter id child : Datum) : Datum :=
  .list [.string "user", .mark (.tag .operationParameters), .list [parameter],
    .mark (.tag .arguments), .record [("by", .list [.list [.string "id", id]])], child]

theorem divides_userGraph (parameter id : Datum) {child : Datum}
    (hc : Form.isMetaTag child = false) :
    Divides [.string "user", .mark (.tag .operationParameters), .list [parameter],
        .mark (.tag .arguments), .record [("by", .list [.list [.string "id", id]])], child]
      [(.operationParameters, .list [parameter]),
        (.arguments, .record [("by", .list [.list [.string "id", id]])])]
      [.string "user", child] :=
  .positional rfl (.tag .operationParameters _ (.tag .arguments _ (.positional hc .nil)))

theorem writesGraph_userGraph {parameter id child : Datum} (hp : WritesParameter parameter)
    (hid : WritesValue id) (hc : WritesGraph child) (hm : Form.isMetaTag child = false) :
    WritesGraph (userGraph parameter id child) := by
  have hby : WritesValue (.list [.list [.string "id", id]]) :=
    @WritesValue.fields .pairs [("id", id)] (by simp) (List.forall_mem_singleton.2 hid)
  refine .list (divides_userGraph parameter id hm) (.string "user")
    ⟨fun d hd => ?_, fun d hd => ?_, fun d hd => ?_⟩ (List.forall_mem_singleton.2 hc)
  · cases hd
  · cases hd
    exact ⟨.record, [("by", .list [.list [.string "id", id]])], rfl, by simp,
      List.forall_mem_singleton.2 hby⟩
  · cases hd
    exact ⟨[parameter], rfl, List.forall_mem_singleton.2 hp⟩

/-- A graph as it is written first, and with its parameter, its value and its child read. -/
theorem user_interchangeable :
    readValue (Form.token (.string "true")) = .ok (Form.token (.string "true")) ∧
      readParameter (Form.parameter "id" "ID" true none) =
        .ok (Form.parameter "id" "ID" true none) ∧
      ∃ r,
        readGraph (userGraph (.list [.string "id", .string "ID", .boolean true]) (.string "x")
          (.string "name")) = .ok r ∧
        readGraph (userGraph (Form.parameter "id" "ID" true none) (Form.string (.string "x"))
          (Form.node (Form.string (.string "name")) (Form.metadata none none none) [])) =
          .ok r := by
  have htrue : readValue (.boolean true) = .ok (Form.token (.string "true")) := by
    rw [readValue]
    rfl
  have hshape : parameterShape (.list [.string "id", .string "ID", .boolean true]) =
      .ok ⟨"id", "ID", true, none⟩ := rfl
  have hparameter : readParameter (.list [.string "id", .string "ID", .boolean true]) =
      .ok (Form.parameter "id" "ID" true none) := readParameter_of_none hshape rfl
  have hx : readValue (.string "x") = .ok (Form.string (.string "x")) := by
    rw [readValue]
    rfl
  have hname : readGraph (.string "name") =
      .ok (Form.node (Form.string (.string "name")) (Form.metadata none none none) []) := by
    rw [readGraph_of_head rfl rfl rfl, readGraphs]
    rfl
  have hraw : WritesGraph (userGraph (.list [.string "id", .string "ID", .boolean true])
      (.string "x") (.string "name")) :=
    writesGraph_userGraph (.flagged "id" "ID" _) (.string "x") (.head (.string "name")) rfl
  have hfields : ReplacedFields (.record [("by", .list [.list [.string "id", .string "x"]])])
      (.record [("by", .list [.list [.string "id", Form.string (.string "x")]])]) :=
    .entries .record (.cons "by" (.pairs (.cons "id" (.read hx) .nil)) .nil)
  have hgraph : ReplacedGraph
      (userGraph (.list [.string "id", .string "ID", .boolean true]) (.string "x")
        (.string "name"))
      (userGraph (Form.parameter "id" "ID" true none) (Form.string (.string "x"))
        (Form.node (Form.string (.string "name")) (Form.metadata none none none) [])) :=
    .list (divides_userGraph _ _ rfl) (divides_userGraph _ _ rfl)
      (.cons (.parameters (.cons (.read hparameter) .nil)) (.cons (.arguments hfields) .nil))
      (.cons (.read hname) .nil)
  obtain ⟨r, hr⟩ := exists_readGraph hraw
  exact ⟨readings_interchangeable.1 _ _ htrue, readings_interchangeable.2.1 _ _ hparameter,
    r, hr, (readings_interchangeable.2.2 _ _ hgraph).1 r hr⟩

end GraphQuery.Surface
