import GraphQuery.Proofs.Datum.Order
import GraphQuery.Proofs.Surface.Agreement

/-! The two writings of a collection. Graphs that differ only in how their input objects are
written are read alike, unless a record that is meant as entries is a value in record form. -/
namespace GraphQuery.Surface

/-- Entries as a record has them: under keys of their own, in the order of keys. -/
structure InOrder (es : List (String × Datum)) : Prop where
  distinct : (es.map Prod.fst).Nodup
  ordered : (es.map Prod.fst).Pairwise Datum.KeyOrder

/-- Entries that are listed, or put into a record. -/
def Writing.make : Writing → List (String × Datum) → Datum
  | .pairs, es => Writing.pairs.write es
  | .record, es => Datum.ofEntries es

theorem make_eq_write (w : Writing) {es : List (String × Datum)} (h : InOrder es) :
    w.make es = w.write es := by
  cases w with
  | pairs => rfl
  | record =>
    rw [Writing.make, Datum.ofEntries, Keyed.collect_of_nodup h.distinct,
      Datum.orderEntries_of_pairwise h.ordered]
    rfl

/-- Whether a value is read as one in record form. -/
def inForm (d : Datum) : Bool := Form.isValue d || Form.isNode d

mutual

/-- Values that differ only in how input objects in them are written. No record among these
writings is a value in record form. -/
inductive SameValue : Datum → Datum → Prop
  | refl (d : Datum) : SameValue d d
  | object {d e : Datum} (h : SameFields d e) (hd : inForm d = false) (he : inForm e = false) :
    SameValue d e

/-- Collections that differ only in how they and input objects in them are written. Where one of
two writings may be a record, the entries are those of a record. -/
inductive SameFields : Datum → Datum → Prop
  | refl (d : Datum) : SameFields d d
  | rewritten (v w : Writing) {es fs : List (String × Datum)} (ho : InOrder es)
    (h : SameEntries es fs) : SameFields (v.make es) (w.make fs)
  | pairs {es fs : List (String × Datum)} (h : SameEntries es fs) :
    SameFields (Writing.pairs.write es) (Writing.pairs.write fs)

inductive SameEntries : List (String × Datum) → List (String × Datum) → Prop
  | nil : SameEntries [] []
  | cons (key : String) {d e : Datum} {es fs : List (String × Datum)} (h : SameValue d e)
    (hs : SameEntries es fs) : SameEntries ((key, d) :: es) ((key, e) :: fs)

end

/-! Agreement of what is read. -/

theorem SameEntries.keys_eq {es fs : List (String × Datum)} (h : SameEntries es fs) :
    es.map Prod.fst = fs.map Prod.fst := by
  match h with
  | .nil => rfl
  | .cons key _ hs => rw [List.map_cons, List.map_cons, keys_eq hs]

theorem InOrder.of_same {es fs : List (String × Datum)} (ho : InOrder es)
    (h : SameEntries es fs) : InOrder fs :=
  ⟨h.keys_eq ▸ ho.distinct, h.keys_eq ▸ ho.ordered⟩

theorem SameFields.write (v w : Writing) {es fs : List (String × Datum)} (ho : InOrder es)
    (h : SameEntries es fs) : SameFields (v.write es) (w.write fs) := by
  rw [← make_eq_write v ho, ← make_eq_write w (ho.of_same h)]
  exact .rewritten v w ho h

theorem SameFields.eq_or_write {d e : Datum} (h : SameFields d e) :
    d = e ∨ ∃ (v w : Writing) (es fs : List (String × Datum)),
      d = v.write es ∧ e = w.write fs ∧ SameEntries es fs := by
  cases h with
  | refl => exact Or.inl rfl
  | rewritten v w ho h =>
    exact Or.inr ⟨v, w, _, _, make_eq_write v ho, make_eq_write w (ho.of_same h), h⟩
  | pairs h => exact Or.inr ⟨.pairs, .pairs, _, _, rfl, rfl, h⟩

theorem readValue_write {w : Writing} {es : List (String × Datum)}
    (h : inForm (w.write es) = false) :
    readValue (w.write es) = (readFields (w.write es)).map Form.object := by
  rw [inForm, Bool.or_eq_false_iff] at h
  exact readValue_of_isCompound (isCompound_write w es) h.1 h.2 (write_ne_reference w es)

mutual

theorem SameValue.agree {d e : Datum} (h : SameValue d e) :
    Agree (readValue d) (readValue e) := by
  match h with
  | .refl d => exact .refl _
  | .object h hd he =>
    have hf := h.agree
    rcases h.eq_or_write with rfl | ⟨v, w, es, fs, rfl, rfl, -⟩
    · exact .refl _
    · rw [readValue_write hd, readValue_write he]
      exact hf.map _
termination_by structural h

theorem SameFields.agree {d e : Datum} (h : SameFields d e) :
    Agree (readFields d) (readFields e) := by
  match h with
  | .refl d => exact .refl _
  | .rewritten v w ho hs =>
    rw [make_eq_write v ho, make_eq_write w (ho.of_same hs)]
    exact agree_readFields_write hs.agree
  | .pairs hs => exact agree_readFields_write hs.agree
termination_by structural h

theorem SameEntries.agree {es fs : List (String × Datum)} (h : SameEntries es fs) :
    List.Forall₂ (fun e f => e.1 = f.1 ∧ Agree (readValue e.2) (readValue f.2)) es fs := by
  match h with
  | .nil => exact .nil
  | .cons key h hs => exact .cons ⟨rfl, h.agree⟩ hs.agree
termination_by structural h

end

/-! Parameters and graphs, by way of their parts. -/

/-- Parameters that differ only in how input objects in their defaults are written. -/
inductive SameParameter : Datum → Datum → Prop
  | refl (d : Datum) : SameParameter d d
  | list (name type third : Datum) {d e : Datum} (h : SameValue d e) :
    SameParameter (.list [name, type, third, d]) (.list [name, type, third, e])
  | record {es fs : List (String × Datum)}
    (hk : ∀ key ∈ ["name", "type", "required"],
      (Datum.record es).get key = (Datum.record fs).get key)
    (h : SameValue ((Datum.record es).get "defaultValue")
      ((Datum.record fs).get "defaultValue")) : SameParameter (.record es) (.record fs)

/-- What may be given to a tag in place of another value. -/
def SameGiven : MetaTag → Datum → Datum → Prop
  | .arguments, d, e => SameFields d e
  | .operationName, d, e => d = e
  | .operationParameters, d, e =>
    d = e ∨ ∃ ps qs, d = .list ps ∧ e = .list qs ∧ List.Forall₂ SameParameter ps qs

theorem SameGiven.refl (t : MetaTag) (d : Datum) : SameGiven t d d := by
  cases t with
  | arguments => exact SameFields.refl d
  | operationName => rfl
  | operationParameters => exact Or.inl rfl

/-- Lists of elements that differ only in what is given to tags, and in positional elements by
some relation. -/
inductive SameElements (R : Datum → Datum → Prop) : List Datum → List Datum → Prop
  | refl (es : List Datum) : SameElements R es es
  | tag (t : MetaTag) {d e : Datum} {es fs : List Datum} (hd : SameGiven t d e)
    (h : SameElements R es fs) :
    SameElements R (.mark (.tag t) :: d :: es) (.mark (.tag t) :: e :: fs)
  | positional {d e : Datum} {es fs : List Datum} (hd : Form.isMetaTag d = false)
    (he : Form.isMetaTag e = false) (hde : R d e) (h : SameElements R es fs) :
    SameElements R (d :: es) (e :: fs)

/-- Graphs that differ only in how input objects in them are written. -/
inductive SameGraph : Datum → Datum → Prop
  | refl (d : Datum) : SameGraph d d
  | list {es fs : List Datum} (h : SameElements SameGraph es fs) : SameGraph (.list es) (.list fs)

section
variable {R : Datum → Datum → Prop}

theorem SameElements.length_eq {es fs : List Datum} (h : SameElements R es fs) :
    es.length = fs.length := by
  induction h with
  | refl es => rfl
  | tag t _ _ ih => simp [ih]
  | positional _ _ _ _ ih => simp [ih]

/-- Splits of elements that differ only so: the same tags have values, and those differ as they
may. -/
structure SameSplit (R : Datum → Datum → Prop) (s s' : Split) : Prop where
  positional : List.Forall₂ R s.positional s'.positional
  given : ∀ t, Option.Rel (SameGiven t) (s.value? t) (s'.value? t)

theorem SameSplit.refl (hR : ∀ d, R d d) (s : Split) : SameSplit R s s := by
  refine ⟨List.forall₂_same.2 fun d _ => hR d, fun t => ?_⟩
  cases s.value? t with
  | none => exact .none
  | some d => exact .some (.refl t d)

theorem SameSplit.addTag {t : MetaTag} {d e : Datum} {s s' : Split} (hd : SameGiven t d e)
    (h : SameSplit R s s') : SameSplit R (s.addTag t d) (s'.addTag t e) := by
  refine ⟨h.positional, fun t' => ?_⟩
  by_cases ht : t' = t
  · subst ht
    rw [Split.value?_addTag_self, Split.value?_addTag_self]
    have hg := h.given t'
    cases hs : s.value? t' <;> cases hs' : s'.value? t' <;> rw [hs, hs'] at hg <;> cases hg
    · exact .some hd
    · next hg => exact .some hg
  · rw [Split.value?_addTag_of_ne ht, Split.value?_addTag_of_ne ht]
    exact h.given t'

theorem SameElements.split (hR : ∀ d, R d d) {es fs : List Datum} (h : SameElements R es fs) :
    (∃ t, splitElements es = .error t ∧ splitElements fs = .error t) ∨
      ∃ s s', splitElements es = .ok s ∧ splitElements fs = .ok s' ∧ SameSplit R s s' := by
  induction h with
  | refl es =>
    cases splitElements es with
    | error t => exact Or.inl ⟨t, rfl, rfl⟩
    | ok s => exact Or.inr ⟨s, s, rfl, rfl, .refl hR s⟩
  | tag t hd h ih =>
    rw [splitElements, splitElements]
    rcases ih with ⟨t', he, hf⟩ | ⟨s, s', he, hf, hs⟩
    · rw [he, hf]
      exact Or.inl ⟨t', rfl, rfl⟩
    · rw [he, hf]
      exact Or.inr ⟨_, _, rfl, rfl, hs.addTag hd⟩
  | positional hd he hde h ih =>
    rw [splitElements_cons hd, splitElements_cons he]
    rcases ih with ⟨t', he, hf⟩ | ⟨s, s', he, hf, hs⟩
    · rw [he, hf]
      exact Or.inl ⟨t', rfl, rfl⟩
    · rw [he, hf]
      exact Or.inr ⟨_, _, rfl, rfl, .cons hde hs.positional, hs.given⟩

end

theorem SameValue.absent_iff {d e : Datum} (h : SameValue d e) : d = .absent ↔ e = .absent := by
  cases h with
  | refl => rfl
  | object h hd he =>
    rcases h.eq_or_write with rfl | ⟨v, w, es, fs, rfl, rfl, -⟩
    · rfl
    · cases v <;> cases w <;> simp [Writing.write]

theorem agree_of_shapes {d e : Datum} {s s' : ParameterShape} (hd : parameterShape d = .ok s)
    (he : parameterShape e = .ok s') (hn : s.name = s'.name) (ht : s.type = s'.type)
    (hr : s.required = s'.required) (hv : Option.Rel SameValue s.defaultValue s'.defaultValue) :
    Agree (readParameter d) (readParameter e) := by
  cases hs : s.defaultValue <;> cases hs' : s'.defaultValue <;> rw [hs, hs'] at hv <;> cases hv
  · rw [readParameter_of_none hd hs, readParameter_of_none he hs', hn, ht, hr]
    exact .refl _
  · next h =>
    rw [readParameter_of_some hd hs, readParameter_of_some he hs', hn, ht, hr]
    exact h.agree.map _

theorem agree_of_errors {d e : Datum} {m m' : Malformed} (hd : parameterShape d = .error m)
    (he : parameterShape e = .error m') (h : m.message = m'.message) :
    Agree (readParameter d) (readParameter e) := by
  rw [readParameter_of_error hd, readParameter_of_error he]
  exact agree_error h

theorem isAbsent_iff {d : Datum} : d.isAbsent = true ↔ d = .absent := by
  cases d <;> simp [Datum.isAbsent]

theorem present_get? (d : Datum) (key : String) :
    present (d.get? key) = if (d.get key).isAbsent then none else some (d.get key) := by
  rw [Datum.get]
  cases d.get? key with
  | none => rfl
  | some v => cases v <;> rfl

theorem present_rel {d e : Datum} {key : String} (h : SameValue (d.get key) (e.get key)) :
    Option.Rel SameValue (present (d.get? key)) (present (e.get? key)) := by
  rw [present_get?, present_get?]
  have hi : (d.get key).isAbsent = (e.get key).isAbsent := by
    rw [Bool.eq_iff_iff, isAbsent_iff, isAbsent_iff]
    exact h.absent_iff
  rw [hi]
  split
  · exact .none
  · exact .some h

theorem namedParameter_cases (name type : Datum) :
    (∃ n t, ∀ whole r v, namedParameter whole name type r v = .ok ⟨n, t, r, v⟩) ∨
      ∀ whole r v, namedParameter whole name type r v = .error (.parameterNames whole) := by
  unfold namedParameter
  split
  · next n t => exact Or.inl ⟨n, t, fun _ _ _ => rfl⟩
  · exact Or.inr fun _ _ _ => rfl

theorem parameterShape_of_not_named {es : List (String × Datum)}
    (h : ¬ ∃ name type, (Datum.record es).get "name" = .string name ∧
      (Datum.record es).get "type" = .string type) :
    parameterShape (.record es) = .error (.parameterShape (.record es)) := by
  unfold parameterShape
  split
  · next name type hn ht =>
    exact absurd ⟨name, type, string?_eq_some.1 hn, string?_eq_some.1 ht⟩ h
  · rfl

theorem SameParameter.agree {d e : Datum} (h : SameParameter d e) :
    Agree (readParameter d) (readParameter e) := by
  cases h with
  | refl => exact .refl _
  | @list name type third d e h =>
    rcases namedParameter_cases name type with ⟨n, t, hok⟩ | herror
    · exact agree_of_shapes (hok _ false (some d)) (hok _ false (some e)) rfl rfl rfl (.some h)
    · exact agree_of_errors (herror _ false (some d)) (herror _ false (some e)) rfl
  | @record es fs hk h =>
    have hn := hk "name" (by simp)
    have ht := hk "type" (by simp)
    have hr := hk "required" (by simp)
    by_cases hs : ∃ n t, (Datum.record es).get "name" = .string n ∧
        (Datum.record es).get "type" = .string t
    · obtain ⟨n, t, hen, het⟩ := hs
      refine agree_of_shapes (parameterShape_of_get hen het)
        (parameterShape_of_get (hn ▸ hen) (ht ▸ het)) rfl rfl ?_ (present_rel h)
      rw [hr]
    · have hs' := hs
      rw [hn, ht] at hs'
      exact agree_of_errors (parameterShape_of_not_named hs) (parameterShape_of_not_named hs') rfl

theorem SameGiven.agree_name {d e : Option Datum}
    (h : Option.Rel (SameGiven .operationName) d e) :
    Agree (readOperationName d) (readOperationName e) := by
  cases h with
  | none => exact .refl _
  | some h =>
    cases h
    exact .refl _

theorem SameGiven.agree_arguments {d e : Option Datum}
    (h : Option.Rel (SameGiven .arguments) d e) : Agree (readArguments d) (readArguments e) := by
  cases h with
  | none => exact .refl _
  | some h => exact (SameFields.agree h).map some

theorem SameGiven.agree_parameters {d e : Option Datum}
    (h : Option.Rel (SameGiven .operationParameters) d e) :
    Agree (readParameterList d) (readParameterList e) := by
  cases h with
  | none => exact .refl _
  | some h =>
    obtain rfl | ⟨ps, qs, rfl, rfl, h⟩ := h
    · exact .refl _
    · exact (agree_readParameters (h.imp fun _ _ hpq => hpq.agree)).map some

theorem SameSplit.agree {R : Datum → Datum → Prop} {s s' : Split} (h : SameSplit R s s') :
    Agree (readMetadata s) (readMetadata s') :=
  AgreeingMetadata.agree ⟨SameGiven.agree_name (h.given .operationName),
    SameGiven.agree_arguments (h.given .arguments),
    SameGiven.agree_parameters (h.given .operationParameters)⟩

theorem SameGraph.agree_identifier {d e : Datum} (h : SameGraph d e) :
    Agree (readIdentifier d) (readIdentifier e) := by
  cases h with
  | refl => exact .refl _
  | @list es fs h =>
    have hd : (Datum.list es).describe = (Datum.list fs).describe :=
      congrArg (fun n : Nat => "array of " ++ toString n) h.length_eq
    have hm : (Malformed.identifier (.list es)).message =
        (Malformed.identifier (.list fs)).message :=
      congrArg ("Unencodable object identifier: " ++ ·) hd
    exact agree_error hm

mutual

theorem SameGraph.agree {d e : Datum} (h : SameGraph d e) :
    Agree (readGraph d) (readGraph e) := by
  match h with
  | .refl d => exact .refl _
  | @SameGraph.list es fs h =>
    rcases h.split .refl with ⟨t, he, hf⟩ | ⟨s, s', he, hf, hs⟩
    · exact agree_of_split_errors he hf
    have hsplit : split (.list es) = .ok s := by rw [split, he]; rfl
    have hp := hs.positional
    refine agree_of_splits he hf ?_
    cases hes : s.positional with
    | nil =>
      rw [hes, List.forall₂_nil_left_iff] at hp
      exact .empty hes hp
    | cons head children =>
      rw [hes, List.forall₂_cons_left_iff] at hp
      obtain ⟨head', children', hh, hc, hfs⟩ := hp
      exact .parts hes hfs hh.agree_identifier hs.agree
        (agree_readGraphs (SameGraph.agree_children hc))
termination_by 2 * sizeOf d + 1
decreasing_by
  have := sizeOf_children_le hsplit hes
  omega

theorem SameGraph.agree_children {ds es : List Datum} (h : List.Forall₂ SameGraph ds es) :
    List.Forall₂ (fun d e => Agree (readGraph d) (readGraph e)) ds es := by
  match h with
  | .nil => exact .nil
  | .cons h hs => exact .cons h.agree (SameGraph.agree_children hs)
termination_by 2 * sizeOf ds

end

/-! What a record in record form changes. -/

theorem SameEntries.refl (es : List (String × Datum)) : SameEntries es es := by
  induction es with
  | nil => exact .nil
  | cons e es ih => exact .cons e.1 (.refl e.2) ih

/-- Entries that are read are no fields of a value in record form: a list of these is no list of
pairs. -/
theorem record_ne_object {es : List (String × Datum)} {fs : List Datum}
    (h : readFields (Writing.pairs.write es) = .ok fs) : Datum.record es ≠ Form.object fs := by
  intro he
  cases he
  rw [readFields_write] at h
  obtain ⟨-, hfs⟩ := readEntries_named_eq_ok.1 h
  obtain ⟨f, fs, ⟨v, -, rfl⟩, hfs, rfl⟩ := List.forall₂_cons_left_iff.1 hfs
  obtain ⟨_, _, ⟨r, hr, -⟩, -, -⟩ := List.forall₂_cons_left_iff.1 hfs
  rw [readValue_of_isCompound rfl rfl rfl (fun _ he => by cases he)] at hr
  obtain ⟨gs, hgs, -⟩ := map_eq_ok.1 hr
  obtain ⟨w, ds, hw, -⟩ := readFields_eq_ok.1 hgs
  cases w with
  | pairs =>
    cases ds with
    | nil => cases hw
    | cons d ds => cases hw
  | record => cases hw

/-- Entries are read alike in both writings exactly if their record is no value in record form. -/
theorem agree_make_iff {es : List (String × Datum)} (ho : InOrder es) :
    Agree (readValue (Writing.pairs.make es)) (readValue (Writing.record.make es)) ↔
      inForm (Writing.record.make es) = false := by
  constructor
  · intro h
    rw [make_eq_write .pairs ho, make_eq_write .record ho] at h
    rw [make_eq_write .record ho, inForm, Bool.or_eq_false_iff, ← Bool.not_eq_true,
      ← Bool.not_eq_true]
    rw [readValue_write rfl] at h
    constructor
    · intro hv
      rw [readValue_of_isValue hv] at h
      obtain ⟨a, hp, hr⟩ | ⟨_, _, -, hr, -⟩ := agree_iff.1 h
      · cases hr
        obtain ⟨fs, hfs, he⟩ := map_eq_ok.1 hp
        exact record_ne_object hfs he.symm
      · cases hr
    · intro hn
      rw [readValue_of_isNode hn] at h
      obtain ⟨a, hp, hr⟩ | ⟨_, _, -, hr, -⟩ := agree_iff.1 h
      · cases hr
        obtain ⟨fs, -, he⟩ := map_eq_ok.1 hp
        simp [Form.object, Form.graph, Form.ofKind] at he
      · cases hr
  · exact fun h => (SameValue.object (.rewritten .pairs .record ho (.refl es)) rfl h).agree

theorem textOf_eq_ok_of_agree {g h : Datum} (hr : Agree (readGraph g) (readGraph h))
    (text : String) : Graph.textOf g = .ok text ↔ Graph.textOf h = .ok text := by
  rw [Graph.textOf, Graph.textOf, Graph.Node.ofDatum, Graph.Node.ofDatum]
  obtain ⟨r, hg, hh⟩ | ⟨m, m', hg, hh, -⟩ := agree_iff.1 hr
  · rw [hg, hh]
  · rw [hg, hh]
    constructor
    · intro ht
      cases ht
    · intro ht
      cases ht

/-- Values that differ only in how input objects are written are read alike, and graphs that do
have the same text, as long as no record among the writings is a value in record form. One that is
makes a difference. -/
theorem readings_agree_of_same :
    (∀ d e, SameValue d e → Agree (readValue d) (readValue e)) ∧
      (∀ g h, SameGraph g h →
        ∀ text, Graph.textOf g = .ok text ↔ Graph.textOf h = .ok text) ∧
      ∀ es, InOrder es →
        (Agree (readValue (Writing.pairs.make es)) (readValue (Writing.record.make es)) ↔
          inForm (Writing.record.make es) = false) :=
  ⟨fun _ _ h => h.agree, fun _ _ h => textOf_eq_ok_of_agree h.agree, fun _ => agree_make_iff⟩

/-- A filter with a filter inside, of which one is a record and the other is not. -/
theorem filter_readings_agree :
    Agree
        (readValue (.list [.list [.string "where",
          .record [("kind", .string "open"), ("name", .null)]]]))
        (readValue (.record [("where",
          .list [.list [.string "kind", .string "open"], .list [.string "name", .null]])])) ∧
      ∀ text,
        Graph.textOf (.list [.string "issue", .mark (.tag .arguments),
            .record [("kind", .string "token"), ("text", .string "x")]]) = .ok text ↔
          Graph.textOf (.list [.string "issue", .mark (.tag .arguments),
            .list [.list [.string "kind", .string "token"],
              .list [.string "text", .string "x"]]]) = .ok text := by
  have hin : SameFields (.record [("kind", .string "open"), ("name", .null)])
      (.list [.list [.string "kind", .string "open"], .list [.string "name", .null]]) :=
    .write .record .pairs ⟨by decide, by decide⟩ (.refl _)
  have hout : SameFields
      (.list [.list [.string "where", .record [("kind", .string "open"), ("name", .null)]]])
      (.record [("where",
        .list [.list [.string "kind", .string "open"], .list [.string "name", .null]])]) :=
    .write .pairs .record ⟨by decide, by decide⟩ (.cons "where" (.object hin rfl rfl) .nil)
  have harguments : SameFields (.record [("kind", .string "token"), ("text", .string "x")])
      (.list [.list [.string "kind", .string "token"], .list [.string "text", .string "x"]]) :=
    .write .record .pairs ⟨by decide, by decide⟩ (.refl _)
  refine ⟨readings_agree_of_same.1 _ _ (.object hout rfl rfl),
    readings_agree_of_same.2.1 _ _ (.list (.positional rfl rfl (.refl _) ?_))⟩
  exact .tag .arguments harguments (.refl [])

/-- Entries that make up a token where they are a record, and an object with two fields where they
are listed. -/
theorem token_entries_disagree :
    InOrder [("kind", .string "token"), ("text", .string "x")] ∧
      readValue (Writing.pairs.make [("kind", .string "token"), ("text", .string "x")]) =
        .ok (Form.object [Form.field "kind" (Form.string (.string "token")),
          Form.field "text" (Form.string (.string "x"))]) ∧
      readValue (Writing.record.make [("kind", .string "token"), ("text", .string "x")]) =
        .ok (Form.token (.string "x")) ∧
      ¬ Agree (readValue (Writing.pairs.make [("kind", .string "token"), ("text", .string "x")]))
        (readValue (Writing.record.make [("kind", .string "token"), ("text", .string "x")])) := by
  have ho : InOrder [("kind", .string "token"), ("text", .string "x")] := ⟨by decide, by decide⟩
  have hp : readValue (Writing.pairs.make [("kind", .string "token"), ("text", .string "x")]) =
      .ok (Form.object [Form.field "kind" (Form.string (.string "token")),
        Form.field "text" (Form.string (.string "x"))]) := by
    rw [make_eq_write .pairs ho, readValue_write rfl]
    refine map_eq_ok.2 ⟨_, readFields_eq_ok.2 ⟨.pairs, _, rfl, ho.distinct,
      .cons ⟨_, ?_, rfl⟩ (.cons ⟨_, ?_, rfl⟩ .nil)⟩, rfl⟩
    · rw [readValue]
      rfl
    · rw [readValue]
      rfl
  have hr : readValue (Writing.record.make [("kind", .string "token"), ("text", .string "x")]) =
      .ok (Form.token (.string "x")) := by
    rw [make_eq_write .record ho]
    exact readValue_of_isValue rfl
  refine ⟨ho, hp, hr, ?_⟩
  rw [hp, hr, agree_iff]
  rintro (⟨_, h, h'⟩ | ⟨_, _, h, -⟩)
  · cases h
    simp [Form.object, Form.token, Form.ofKind] at h'
  · cases h

end GraphQuery.Surface
