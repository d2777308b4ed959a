import GraphQuery.Proofs.Surface.Reading
import GraphQuery.Report

/-! The grammar of the surface form. A value is read as a graph exactly if the grammar has it, and
every other value is refused as malformed. -/
namespace GraphQuery.Surface

/-- What stands for a value: anything that already is one in record form, a word, a reference, an
atom, a graph in record form, or entries with keys of their own in either writing. -/
inductive WritesValue : Datum → Prop
  | inForm {d : Datum} (h : Form.isValue d = true) : WritesValue d
  | null : WritesValue .null
  | boolean (b : Bool) : WritesValue (.boolean b)
  | reference (name : String) : WritesValue (.list [.mark .variable, .string name])
  | string (s : String) : WritesValue (.string s)
  | number {n : Number} (h : n.isFinite = true) : WritesValue (.number n)
  | node {d : Datum} (h : Form.isNode d = true) : WritesValue d
  | fields (w : Writing) {es : List (String × Datum)} (hk : (es.map Prod.fst).Nodup)
    (hv : ∀ e ∈ es, WritesValue e.2) : WritesValue (w.write es)

/-- What stands for a collection of named values: entries with keys of their own, written as pairs
or as a record. -/
def WritesFields (d : Datum) : Prop :=
  ∃ (w : Writing) (es : List (String × Datum)),
    d = w.write es ∧ (es.map Prod.fst).Nodup ∧ ∀ e ∈ es, WritesValue e.2

/-- What stands for a parameter. -/
inductive WritesParameter : Datum → Prop
  | record {d : Datum} {name type : String} (hn : d.get "name" = .string name)
    (ht : d.get "type" = .string type)
    (hd : d.get "defaultValue" = .absent ∨ WritesValue (d.get "defaultValue")) :
    WritesParameter d
  | bare (name type : String) : WritesParameter (.list [.string name, .string type])
  | flagged (name type : String) (required : Datum) :
    WritesParameter (.list [.string name, .string type, required])
  | defaulted (name type : String) (third : Datum) {value : Datum} (h : WritesValue value) :
    WritesParameter (.list [.string name, .string type, third, value])

/-- What stands for the head of a node. -/
inductive WritesHead : Datum → Prop
  | string (s : String) : WritesHead (.string s)
  | number {n : Number} (h : n.isFinite = true) : WritesHead (.number n)
  | token {d : Datum} (h : Form.isToken d = true) : WritesHead d
  | aliased {d : Datum} (h : Form.isAlias d = true) : WritesHead d

/-- How elements divide: each tag at the front takes the element after it, and any other element
is positional. -/
inductive Divides : List Datum → List (MetaTag × Datum) → List Datum → Prop
  | nil : Divides [] [] []
  | tag (t : MetaTag) (d : Datum) {rest : List Datum} {given : List (MetaTag × Datum)}
    {positional : List Datum} (h : Divides rest given positional) :
    Divides (.mark (.tag t) :: d :: rest) ((t, d) :: given) positional
  | positional {d : Datum} (hd : Form.isMetaTag d = false) {rest : List Datum}
    {given : List (MetaTag × Datum)} {positional : List Datum}
    (h : Divides rest given positional) : Divides (d :: rest) given (d :: positional)

/-- The last of the values given to a tag. -/
def lastGiven (given : List (MetaTag × Datum)) (t : MetaTag) : Option Datum :=
  given.reverse.lookup t

/-- What the last values given to the tags have to be. -/
structure WritesMetadata (given : List (MetaTag × Datum)) : Prop where
  name : ∀ d, lastGiven given .operationName = some d → d.isString = true
  arguments : ∀ d, lastGiven given .arguments = some d → WritesFields d
  parameters : ∀ d, lastGiven given .operationParameters = some d →
    ∃ ps, d = .list ps ∧ ∀ p ∈ ps, WritesParameter p

/-- What stands for a graph. -/
inductive WritesGraph : Datum → Prop
  | inForm {d : Datum} (h : Form.isNode d = true) : WritesGraph d
  | head {d : Datum} (h : WritesHead d) : WritesGraph d
  | list {elements : List Datum} {given : List (MetaTag × Datum)} {head : Datum}
    {children : List Datum} (hd : Divides elements given (head :: children))
    (hh : WritesHead head) (hm : WritesMetadata given) (hc : ∀ c ∈ children, WritesGraph c) :
    WritesGraph (.list elements)

theorem writesValue_of_readValue {d r : Datum} (h : readValue d = .ok r) : WritesValue d := by
  have hd := readingOf d
  rw [h] at hd
  generalize hx : (Except.ok r : Except Malformed Datum) = x at hd
  cases hd with
  | inForm h => exact .inForm h
  | null => exact .null
  | boolean b => exact .boolean b
  | string s => exact .string s
  | number n => exact .number (readFinite_eq_ok.1 hx.symm).1
  | reference name => exact .reference name
  | node h => exact .node h
  | compound hc hv hn hr =>
    obtain ⟨fs, hfs, -⟩ := map_eq_ok.1 hx.symm
    obtain ⟨w, es, rfl, hk, hes⟩ := readFields_eq_ok.1 hfs
    refine .fields w hk fun e he => ?_
    obtain ⟨v, hv⟩ := exists_forall₂_isReadOf.1 ⟨fs, hes⟩ e he
    exact writesValue_of_readValue hv
  | refused h => cases hx
termination_by sizeOf d
decreasing_by
  subst_vars
  exact sizeOf_entry_lt w he

theorem exists_readValue {d : Datum} (h : WritesValue d) : ∃ r, readValue d = .ok r := by
  induction h with
  | inForm h => exact ⟨_, readValue_of_isValue h⟩
  | null => exact ⟨_, by rw [readValue]; rfl⟩
  | boolean b => exact ⟨_, by rw [readValue]; rfl⟩
  | reference name => exact ⟨_, readValue_reference name⟩
  | string s => exact ⟨_, by rw [readValue]; rfl⟩
  | @number n h =>
    have hr : readValue (.number n) = readFinite n := by rw [readValue]; rfl
    exact ⟨_, hr.trans (readFinite_eq_ok.2 ⟨h, rfl⟩)⟩
  | node h => exact ⟨_, readValue_of_isNode h⟩
  | @fields w es hk _ ih =>
    -- Entries in a record may also be a value or a graph in record form.
    by_cases hv : Form.isValue (w.write es) = true
    · exact ⟨_, readValue_of_isValue hv⟩
    by_cases hn : Form.isNode (w.write es) = true
    · exact ⟨_, readValue_of_isNode hn⟩
    rw [Bool.not_eq_true] at hv hn
    obtain ⟨fs, hfs⟩ := exists_forall₂_isReadOf.2 ih
    rw [readValue_of_isCompound (isCompound_write w es) hv hn (write_ne_reference w es)]
    exact ⟨_, map_eq_ok.2 ⟨fs, readFields_eq_ok.2 ⟨w, es, rfl, hk, hfs⟩, rfl⟩⟩

theorem exists_readValue_iff {d : Datum} : (∃ r, readValue d = .ok r) ↔ WritesValue d :=
  ⟨fun ⟨_, h⟩ => writesValue_of_readValue h, exists_readValue⟩

theorem exists_readFields_iff {d : Datum} : (∃ fs, readFields d = .ok fs) ↔ WritesFields d := by
  constructor
  · rintro ⟨fs, h⟩
    obtain ⟨w, es, rfl, hk, hes⟩ := readFields_eq_ok.1 h
    refine ⟨w, es, rfl, hk, fun e he => ?_⟩
    exact exists_readValue_iff.1 (exists_forall₂_isReadOf.1 ⟨fs, hes⟩ e he)
  · rintro ⟨w, es, rfl, hk, hes⟩
    obtain ⟨fs, hfs⟩ := exists_forall₂_isReadOf.2 fun e he => exists_readValue_iff.2 (hes e he)
    exact ⟨fs, readFields_eq_ok.2 ⟨w, es, rfl, hk, hfs⟩⟩

/-! Parameters: the shape first, then the default. -/

theorem present_eq_some {o : Option Datum} {v : Datum} :
    present o = some v ↔ o = some v ∧ v ≠ .absent := by
  unfold present
  split
  · simp; rintro rfl; simp
  · next h =>
    constructor
    · rintro rfl
      exact ⟨rfl, fun hv => h (by rw [hv])⟩
    · exact And.left

theorem namedParameter_eq_ok {whole name type : Datum} {required : Bool} {v : Option Datum}
    {s : ParameterShape} (h : namedParameter whole name type required v = .ok s) :
    name = .string s.name ∧ type = .string s.type ∧ s.defaultValue = v := by
  unfold namedParameter at h
  split at h
  · cases h
    exact ⟨rfl, rfl, rfl⟩
  · cases h

theorem writesParameter_of_shape {d : Datum} {s : ParameterShape} (h : parameterShape d = .ok s)
    (hv : ∀ v, s.defaultValue = some v → WritesValue v) : WritesParameter d := by
  unfold parameterShape at h
  split at h
  · next name type hn ht =>
    cases h
    refine .record (string?_eq_some.1 hn) (string?_eq_some.1 ht) ?_
    by_cases ha : d.get "defaultValue" = .absent
    · exact Or.inl ha
    · refine Or.inr (hv _ (present_eq_some.2 ⟨?_, ha⟩))
      cases hd : d.get? "defaultValue" with
      | none => exact absurd (by rw [Datum.get, hd]; rfl) ha
      | some v => rw [Datum.get, hd]; rfl
  · split at h
    · next elements _ _ =>
      unfold listedParameter at h
      split at h
      · obtain ⟨rfl, rfl, -⟩ := namedParameter_eq_ok h
        exact .bare _ _
      · obtain ⟨rfl, rfl, -⟩ := namedParameter_eq_ok h
        exact .flagged _ _ _
      · obtain ⟨rfl, rfl, hd⟩ := namedParameter_eq_ok h
        exact .defaulted _ _ _ (hv _ hd)
      · cases h
    · cases h

theorem exists_shape_of_writesParameter {d : Datum} (h : WritesParameter d) :
    ∃ s, parameterShape d = .ok s ∧ ∀ v, s.defaultValue = some v → WritesValue v := by
  cases h with
  | record hn ht hd =>
    refine ⟨_, parameterShape_of_get hn ht, fun v hv => ?_⟩
    obtain ⟨hv, ha⟩ := present_eq_some.1 hv
    have hg : d.get "defaultValue" = v := by rw [Datum.get, hv]; rfl
    rw [hg] at hd
    exact hd.resolve_left ha
  | bare name type => exact ⟨_, rfl, fun v h => by cases h⟩
  | flagged name type required => exact ⟨_, rfl, fun v h => by cases h⟩
  | defaulted name type third hv =>
    refine ⟨_, rfl, fun v h => ?_⟩
    cases h
    exact hv

theorem exists_readParameter_iff {d : Datum} :
    (∃ p, readParameter d = .ok p) ↔ WritesParameter d := by
  constructor
  · rintro ⟨p, h⟩
    cases hs : parameterShape d with
    | error e => rw [readParameter_of_error hs] at h; cases h
    | ok s =>
      refine writesParameter_of_shape hs fun v hv => ?_
      rw [readParameter_of_some hs hv] at h
      obtain ⟨r, hr, -⟩ := map_eq_ok.1 h
      exact writesValue_of_readValue hr
  · intro h
    obtain ⟨s, hs, hd⟩ := exists_shape_of_writesParameter h
    cases hv : s.defaultValue with
    | none => exact ⟨_, readParameter_of_none hs hv⟩
    | some v =>
      obtain ⟨r, hr⟩ := exists_readValue (hd v hv)
      exact ⟨_, (readParameter_of_some hs hv).trans (map_eq_ok.2 ⟨r, hr, rfl⟩)⟩

/-! Graphs: elements are divided, then the head, the metadata and the children are read. -/

theorem divides_of_splitElements {elements : List Datum} {s : Split}
    (h : splitElements elements = .ok s) :
    ∃ given, Divides elements given s.positional ∧ s.metadata = Keyed.collect given := by
  fun_induction splitElements elements generalizing s with
  | case1 =>
    cases h
    exact ⟨[], .nil, rfl⟩
  | case2 => cases h
  | case3 t d rest ih =>
    obtain ⟨r, hr, rfl⟩ := map_eq_ok.1 h
    obtain ⟨given, hd, hm⟩ := ih hr
    exact ⟨(t, d) :: given, .tag t d hd, by rw [Keyed.collect_cons, ← hm]; rfl⟩
  | case4 d rest h₁ h₂ ih =>
    obtain ⟨r, hr, rfl⟩ := map_eq_ok.1 h
    obtain ⟨given, hd, hm⟩ := ih hr
    refine ⟨given, .positional (isMetaTag_eq_false.2 fun t he => ?_) hd, hm⟩
    cases rest with
    | nil => exact h₁ t he rfl
    | cons e rest => exact h₂ t e rest he rfl

theorem splitElements_of_divides {elements positional : List Datum}
    {given : List (MetaTag × Datum)} (h : Divides elements given positional) :
    splitElements elements = .ok ⟨Keyed.collect given, positional⟩ := by
  induction h with
  | nil => rfl
  | tag t d _ ih =>
    rw [splitElements, ih]
    rfl
  | positional hd _ ih =>
    rw [splitElements_cons hd, ih]
    rfl

theorem split_of_divides {elements positional : List Datum} {given : List (MetaTag × Datum)}
    (h : Divides elements given positional) :
    split (.list elements) = .ok ⟨Keyed.collect given, positional⟩ := by
  rw [split, splitElements_of_divides h]
  rfl

theorem readIdentifier_of_form {d : Datum} (h : (Form.isToken d || Form.isAlias d) = true) :
    readIdentifier d = .ok d := by
  unfold readIdentifier
  split
  · cases h
  · cases h
  · rw [if_pos h]

theorem exists_readIdentifier_iff {d : Datum} :
    (∃ r, readIdentifier d = .ok r) ↔ WritesHead d := by
  constructor
  · rintro ⟨r, h⟩
    unfold readIdentifier at h
    split at h
    · exact .string _
    · exact .number (readFinite_eq_ok.1 h).1
    · split at h
      · next ht =>
        rcases Bool.or_eq_true_iff.1 ht with ht | ht
        · exact .token ht
        · exact .aliased ht
      · cases h
  · intro h
    cases h with
    | string s => exact ⟨_, rfl⟩
    | number h => exact ⟨_, readFinite_eq_ok.2 ⟨h, rfl⟩⟩
    | token h => exact ⟨_, readIdentifier_of_form (by rw [h, Bool.true_or])⟩
    | aliased h => exact ⟨_, readIdentifier_of_form (by rw [h, Bool.or_true])⟩

theorem readOperationName_eq_ok {o : Option Datum} :
    (∃ name, readOperationName o = .ok name) ↔ ∀ d, o = some d → d.isString = true := by
  cases o with
  | none => simp [readOperationName]
  | some d => cases d <;> simp [readOperationName, Datum.isString, Datum.string?]

theorem readArguments_eq_ok {o : Option Datum} :
    (∃ as, readArguments o = .ok as) ↔ ∀ d, o = some d → WritesFields d := by
  cases o with
  | none => simp [readArguments]
  | some d =>
    rw [readArguments]
    simp only [map_eq_ok, Option.some.injEq, forall_eq', ← exists_readFields_iff]
    exact ⟨fun ⟨_, fs, h, _⟩ => ⟨fs, h⟩, fun ⟨fs, h⟩ => ⟨_, fs, h, rfl⟩⟩

theorem exists_readParameters_iff {ds : List Datum} :
    (∃ ps, readParameters ds = .ok ps) ↔ ∀ d ∈ ds, WritesParameter d := by
  simp only [readParameters_eq_ok, exists_forall₂_iff, exists_readParameter_iff]

theorem readParameterList_eq_ok {o : Option Datum} :
    (∃ ps, readParameterList o = .ok ps) ↔
      ∀ d, o = some d → ∃ ps, d = .list ps ∧ ∀ p ∈ ps, WritesParameter p := by
  cases o with
  | none => simp [readParameterList]
  | some d =>
    cases d with
    | list ps =>
      rw [readParameterList]
      simp only [map_eq_ok, Option.some.injEq, forall_eq', Datum.list.injEq, exists_eq_left',
        ← exists_readParameters_iff]
      exact ⟨fun ⟨_, fs, h, _⟩ => ⟨fs, h⟩, fun ⟨fs, h⟩ => ⟨_, fs, h, rfl⟩⟩
    | _ => simp [readParameterList]

theorem value?_collect (given : List (MetaTag × Datum)) (positional : List Datum) (t : MetaTag) :
    Split.value? ⟨Keyed.collect given, positional⟩ t = lastGiven given t :=
  Keyed.lookup_collect t given

theorem exists_readMetadata_iff {given : List (MetaTag × Datum)} {positional : List Datum} :
    (∃ m, readMetadata ⟨Keyed.collect given, positional⟩ = .ok m) ↔ WritesMetadata given := by
  simp only [readMetadata, value?_collect, bind_eq_ok]
  constructor
  · rintro ⟨_, name, hname, as, has, ps, hps, -⟩
    exact ⟨readOperationName_eq_ok.1 ⟨name, hname⟩, readArguments_eq_ok.1 ⟨as, has⟩,
      readParameterList_eq_ok.1 ⟨ps, hps⟩⟩
  · rintro ⟨hname, has, hps⟩
    obtain ⟨name, hname⟩ := readOperationName_eq_ok.2 hname
    obtain ⟨as, has⟩ := readArguments_eq_ok.2 has
    obtain ⟨ps, hps⟩ := readParameterList_eq_ok.2 hps
    exact ⟨_, name, hname, as, has, ps, hps, rfl⟩

theorem isList_of_writesHead {d : Datum} (h : WritesHead d) : d.isList = false := by
  cases h with
  | string | number => rfl
  | token h | aliased h =>
    cases d with
    | list => cases h
    | _ => rfl

theorem exists_readGraphs_iff {ds : List Datum} :
    (∃ ns, readGraphs ds = .ok ns) ↔ ∀ d ∈ ds, ∃ n, readGraph d = .ok n := by
  simp only [readGraphs_eq_ok, exists_forall₂_iff]

/-- What a split is read as, if all of its parts are read. -/
theorem exists_readGraph_iff_of_head {d head : Datum} {given : List (MetaTag × Datum)}
    {children : List Datum} (hn : Form.isNode d = false)
    (hs : split d = .ok ⟨Keyed.collect given, head :: children⟩) :
    (∃ r, readGraph d = .ok r) ↔
      WritesHead head ∧ WritesMetadata given ∧ ∀ c ∈ children, ∃ n, readGraph c = .ok n := by
  rw [readGraph_of_head hn hs rfl, ← exists_readIdentifier_iff, ← exists_readGraphs_iff,
    ← @exists_readMetadata_iff given (head :: children)]
  simp only [bind_eq_ok]
  constructor
  · rintro ⟨_, object, ho, metadata, hm, fields, hf, -⟩
    exact ⟨⟨object, ho⟩, ⟨metadata, hm⟩, fields, hf⟩
  · rintro ⟨⟨object, ho⟩, ⟨metadata, hm⟩, fields, hf⟩
    exact ⟨_, object, ho, metadata, hm, fields, hf, rfl⟩

theorem writesGraph_of_readGraph {d r : Datum} (h : readGraph d = .ok r) : WritesGraph d := by
  by_cases hn : Form.isNode d = true
  · exact .inForm hn
  rw [Bool.not_eq_true] at hn
  by_cases hl : d.isList = true
  · cases he : d with
    | list elements =>
      rw [he] at h hn
      cases hs : splitElements elements with
      | error t =>
        rw [readGraph_of_split_error hn (by rw [split, hs]; rfl)] at h
        cases h
      | ok s =>
        obtain ⟨given, hd, hm⟩ := divides_of_splitElements hs
        obtain ⟨metadata, positional⟩ := s
        cases hm
        have hsplit : split (.list elements) = .ok ⟨Keyed.collect given, positional⟩ := by
          rw [split, hs]
          rfl
        cases positional with
        | nil =>
          rw [readGraph_of_no_head hn hsplit rfl] at h
          cases h
        | cons head children =>
          obtain ⟨hh, hmeta, hc⟩ := (exists_readGraph_iff_of_head hn hsplit).1 ⟨r, h⟩
          refine .list hd hh hmeta fun c hc' => ?_
          obtain ⟨n, hn⟩ := hc c hc'
          exact writesGraph_of_readGraph hn
    | _ => rw [he] at hl; cases hl
  · rw [Bool.not_eq_true] at hl
    have hs : split d = .ok ⟨Keyed.collect [], [d]⟩ := split_of_not_list hl
    exact .head ((exists_readGraph_iff_of_head hn hs).1 ⟨r, h⟩).1
termination_by sizeOf d
decreasing_by
  rw [he]
  have := sizeOf_children_le hsplit rfl
  have := List.sizeOf_lt_of_mem hc'
  omega

theorem exists_readGraph {d : Datum} (h : WritesGraph d) : ∃ r, readGraph d = .ok r := by
  induction h with
  | inForm h => exact ⟨_, readGraph_of_isNode h⟩
  | @head d h =>
    by_cases hn : Form.isNode d = true
    · exact ⟨_, readGraph_of_isNode hn⟩
    rw [Bool.not_eq_true] at hn
    have hs : split d = .ok ⟨Keyed.collect [], [d]⟩ :=
      split_of_not_list (isList_of_writesHead h)
    have hnone : WritesMetadata [] := by constructor <;> simp [lastGiven]
    exact (exists_readGraph_iff_of_head hn hs).2 ⟨h, hnone, List.forall_mem_nil _⟩
  | @list elements given head children hd hh hm _ ih =>
    exact (exists_readGraph_iff_of_head rfl (split_of_divides hd)).2 ⟨hh, hm, ih⟩

/-- A value is read as a graph exactly if it stands for one, and exactly the others are reported
as malformed. -/
theorem readGraph_ok_iff (d : Datum) :
    ((∃ r, readGraph d = .ok r) ↔ WritesGraph d) ∧
      ((∃ m, readGraph d = .error m ∧ (Report.ofMalformed m).kind = .malformedGraph) ↔
        ¬ WritesGraph d) := by
  have hiff : (∃ r, readGraph d = .ok r) ↔ WritesGraph d :=
    ⟨fun ⟨_, h⟩ => writesGraph_of_readGraph h, exists_readGraph⟩
  refine ⟨hiff, ?_⟩
  rw [← hiff]
  cases readGraph d with
  | error m => simp [Report.ofMalformed, Report.make]
  | ok r => simp

end GraphQuery.Surface
