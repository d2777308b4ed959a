import GraphQuery.Graph.Text
import GraphQuery.Proofs.Graph.RecordForm
import GraphQuery.Proofs.Number.Numeral
import GraphQuery.Proofs.Surface.Reading

/-! Numbers that are not finite. Reading lets none through that stands in surface form; those in
the result are the ones that stand in a value already in record form. -/
namespace GraphQuery.Surface

/-- A number stands in a value in record form: at the top, or in a field of an input object. What
stands in a graph does not count. -/
inductive Occurs (n : Number) : Datum → Prop
  | number {d : Datum} (hk : Form.hasKind "number" d = true) (hv : d.get "value" = .number n) :
    Occurs n d
  | field {d f : Datum} {fields : List Datum} (hk : Form.hasKind "object" d = true)
    (hf : d.get "fields" = .list fields) (hm : f ∈ fields) (hv : Occurs n (f.get "value")) :
    Occurs n d

/-- A number stands in record form within a value: the value has that form itself, or the number
is given so in one of its entries. -/
inductive Given (n : Number) : Datum → Prop
  | inForm {d : Datum} (h : Form.isValue d = true) (hn : Occurs n d) : Given n d
  | entry (w : Writing) {es : List (String × Datum)} {e : String × Datum}
    (hv : Form.isValue (w.write es) = false) (hn : Form.isNode (w.write es) = false)
    (he : e ∈ es) (h : Given n e.2) : Given n (w.write es)

/-- A number stands in record form within a collection. -/
def GivenInFields (n : Number) (d : Datum) : Prop :=
  ∃ (w : Writing) (es : List (String × Datum)), d = w.write es ∧ ∃ e ∈ es, Given n e.2

/-- A number stands in record form within the default of a parameter. -/
def GivenInDefault (n : Number) (d : Datum) : Prop :=
  ∃ s v, parameterShape d = .ok s ∧ s.defaultValue = some v ∧ Given n v

theorem not_occurs_of_kind {n : Number} {kind : String} (hn : kind ≠ "number")
    (ho : kind ≠ "object") (es : List (String × Datum)) : ¬ Occurs n (Form.ofKind kind es) := by
  rintro (⟨hk, -⟩ | ⟨hk, -⟩)
  · simp [hn] at hk
  · simp [ho] at hk

theorem occurs_object {n : Number} {fs : List Datum} :
    Occurs n (Form.object fs) ↔ ∃ f ∈ fs, Occurs n (f.get "value") := by
  constructor
  · rintro (⟨hk, -⟩ | ⟨-, hf, hm, hv⟩)
    · cases hk
    · cases hf
      exact ⟨_, hm, hv⟩
  · rintro ⟨f, hm, hv⟩
    exact .field rfl rfl hm hv

theorem occurs_fields {n : Number} {es : List (String × Datum)} {fs : List Datum}
    (h : List.Forall₂ IsReadOf es fs) :
    (∃ f ∈ fs, Occurs n (f.get "value")) ↔
      ∃ e ∈ es, ∃ v, readValue e.2 = .ok v ∧ Occurs n v := by
  induction h with
  | nil => simp
  | @cons e f es fs hf _ ih =>
    obtain ⟨v, hv, rfl⟩ := hf
    have hg : (Form.field e.1 v).get "value" = v := rfl
    simp only [List.mem_cons, exists_eq_or_imp, ih, hg, hv, Except.ok.injEq, exists_eq_left']

theorem given_iff_of_isValue {n : Number} {d : Datum} (h : Form.isValue d = true) :
    Given n d ↔ Occurs n d := by
  constructor
  · rintro (⟨-, hn⟩ | ⟨w, hv, -, -, -⟩)
    · exact hn
    · rw [h] at hv
      cases hv
  · exact .inForm h

theorem given_write {n : Number} {w : Writing} {es : List (String × Datum)}
    (hv : Form.isValue (w.write es) = false) (hn : Form.isNode (w.write es) = false) :
    Given n (w.write es) ↔ ∃ e ∈ es, Given n e.2 := by
  constructor
  · intro h
    generalize hd : w.write es = d at h
    cases h with
    | inForm h =>
      rw [hd, h] at hv
      cases hv
    | entry w' _ _ he h =>
      rw [write_inj hd]
      exact ⟨_, he, h⟩
  · rintro ⟨e, he, h⟩
    exact .entry w hv hn he h

/-- Nothing is given in record form in what is no collection of entries. -/
theorem not_given {n : Number} {d : Datum} (hv : Form.isValue d = false)
    (h : Form.isNode d = true ∨ ∀ (w : Writing) es, d ≠ w.write es) : ¬ Given n d := by
  rintro (⟨hv', -⟩ | ⟨w, -, hn, -, -⟩)
  · rw [hv] at hv'
    cases hv'
  · rcases h with h | h
    · rw [h] at hn
      cases hn
    · exact h w _ rfl

theorem not_given_atom {n : Number} {d : Datum} (hc : isCompound d = false) : ¬ Given n d := by
  refine not_given ?_ (Or.inr fun w es he => ?_)
  · cases d with
    | list | record => cases hc
    | _ => rfl
  · rw [he, isCompound_write] at hc
    cases hc

/-- The numbers in what is read that are not finite are those that were given in record form. -/
theorem occurs_iff_given {d r : Datum} {n : Number} (h : readValue d = .ok r)
    (hn : n.isFinite = false) : Occurs n r ↔ Given n d := by
  have hd := readingOf d
  rw [h] at hd
  generalize hx : (Except.ok r : Except Malformed Datum) = x at hd
  cases hd with
  | inForm hv =>
    cases hx
    exact (given_iff_of_isValue hv).symm
  | null | boolean | string =>
    cases hx
    exact iff_of_false (not_occurs_of_kind (by decide) (by decide) _) (not_given_atom rfl)
  | number m =>
    obtain ⟨hm, rfl⟩ := readFinite_eq_ok.1 hx.symm
    refine iff_of_false ?_ (not_given_atom rfl)
    rintro (⟨-, hv⟩ | ⟨hk, -⟩)
    · cases hv
      rw [hm] at hn
      cases hn
    · cases hk
  | reference name =>
    cases hx
    exact iff_of_false (not_occurs_of_kind (by decide) (by decide) _)
      (not_given rfl (Or.inr fun w es he => write_ne_reference w es name he.symm))
  | node hn' =>
    cases hx
    exact iff_of_false (not_occurs_of_kind (by decide) (by decide) _)
      (not_given (isValue_of_isNode hn') (Or.inl hn'))
  | compound hc hv hn' hr =>
    obtain ⟨fs, hfs, rfl⟩ := map_eq_ok.1 hx.symm
    obtain ⟨w, es, rfl, -, hes⟩ := readFields_eq_ok.1 hfs
    rw [occurs_object, occurs_fields hes, given_write hv hn']
    constructor
    · rintro ⟨e, he, v, hr, ho⟩
      exact ⟨e, he, (occurs_iff_given hr hn).1 ho⟩
    · rintro ⟨e, he, hg⟩
      obtain ⟨v, hr⟩ := exists_forall₂_isReadOf.1 ⟨fs, hes⟩ e he
      exact ⟨e, he, v, hr, (occurs_iff_given hr hn).2 hg⟩
  | refused h => cases hx
termination_by sizeOf d
decreasing_by
  all_goals
    subst_vars
    exact sizeOf_entry_lt w he

theorem occurs_fields_iff_given {d : Datum} {fs : List Datum} {n : Number}
    (h : readFields d = .ok fs) (hn : n.isFinite = false) :
    (∃ f ∈ fs, Occurs n (f.get "value")) ↔ GivenInFields n d := by
  obtain ⟨w, es, rfl, -, hes⟩ := readFields_eq_ok.1 h
  rw [occurs_fields hes]
  constructor
  · rintro ⟨e, he, v, hr, ho⟩
    exact ⟨w, es, rfl, e, he, (occurs_iff_given hr hn).1 ho⟩
  · rintro ⟨w', es', hw, e, he, hg⟩
    rw [← write_inj hw] at he
    obtain ⟨v, hr⟩ := exists_forall₂_isReadOf.1 ⟨fs, hes⟩ e he
    exact ⟨e, he, v, hr, (occurs_iff_given hr hn).2 hg⟩

theorem not_occurs_absent {n : Number} : ¬ Occurs n .absent := by
  rintro (⟨hk, -⟩ | ⟨hk, -⟩) <;> cases hk

theorem occurs_default_iff_given {d p : Datum} {n : Number} (h : readParameter d = .ok p)
    (hn : n.isFinite = false) : Occurs n (p.get "defaultValue") ↔ GivenInDefault n d := by
  cases hs : parameterShape d with
  | error e =>
    rw [readParameter_of_error hs] at h
    cases h
  | ok s =>
    cases hv : s.defaultValue with
    | none =>
      rw [readParameter_of_none hs hv] at h
      cases h
      refine iff_of_false not_occurs_absent ?_
      rintro ⟨s', v, hs', hv', -⟩
      cases hs.symm.trans hs'
      rw [hv] at hv'
      cases hv'
    | some v =>
      rw [readParameter_of_some hs hv] at h
      obtain ⟨r, hr, rfl⟩ := map_eq_ok.1 h
      have hg : (Form.parameter s.name s.type s.required (some r)).get "defaultValue" = r := rfl
      rw [hg, occurs_iff_given hr hn]
      constructor
      · intro hg
        exact ⟨s, v, hs, hv, hg⟩
      · rintro ⟨s', v', hs', hv', hg⟩
        cases hs.symm.trans hs'
        cases hv.symm.trans hv'
        exact hg

end GraphQuery.Surface

namespace GraphQuery.Graph

open GraphQuery.Surface

mutual

/-- The numbers that are written as such in a value, other than those in graphs. -/
def Value.numbers : Value → List Number
  | .number n => [n]
  | .object fields => argumentNumbers fields
  | .token _ | .variable _ | .string _ | .graph _ => []

def Argument.numbers : Argument → List Number
  | ⟨_, value⟩ => value.numbers

def argumentNumbers : List Argument → List Number
  | [] => []
  | a :: rest => a.numbers ++ argumentNumbers rest

end

theorem hasKind_of_kindOf {d : Datum} {kind : String} (h : kindOf d = kind) (hk : kind ≠ "") :
    Form.hasKind kind d = true := by
  unfold kindOf at h
  cases hs : (d.get "kind").string? with
  | none => rw [hs] at h; exact absurd h.symm hk
  | some k =>
    rw [hs] at h
    rw [Form.hasKind, hs, ← h]
    simp

theorem numbers_of_valueOf? {d : Datum} {v : Value} (h : valueOf? d = some v) :
    v.numbers = [] ∨
      (∃ n, v = .number n ∧ Form.hasKind "number" d = true ∧ d.get "value" = .number n) ∨
      ∃ as fields, v = .object as ∧ Form.hasKind "object" d = true ∧
        d.get "fields" = .list fields ∧ argumentsOf? fields = some as := by
  rw [valueOf?] at h
  split at h
  · obtain ⟨s, -, rfl⟩ := Option.map_eq_some_iff.1 h
    exact Or.inl (by rw [Value.numbers])
  · obtain ⟨s, -, rfl⟩ := Option.map_eq_some_iff.1 h
    exact Or.inl (by rw [Value.numbers])
  · obtain ⟨s, -, rfl⟩ := Option.map_eq_some_iff.1 h
    exact Or.inl (by rw [Value.numbers])
  · next hk =>
    split at h
    · next n hv =>
      cases h
      exact Or.inr (Or.inl ⟨n, rfl, hasKind_of_kindOf hk (by decide), hv⟩)
    · obtain ⟨s, -, rfl⟩ := Option.map_eq_some_iff.1 h
      exact Or.inl (by rw [Value.numbers])
  · next hk =>
    split at h
    · next fields hf =>
      obtain ⟨as, has, rfl⟩ := Option.map_eq_some_iff.1 h
      refine Or.inr (Or.inr ⟨as, fields, rfl, hasKind_of_kindOf hk (by decide), ?_, has⟩)
      rw [Datum.get, hf]
      rfl
    · cases h
  · split at h
    · obtain ⟨s, -, rfl⟩ := Option.map_eq_some_iff.1 h
      exact Or.inl (by rw [Value.numbers])
    · cases h
  · split at h
    · cases h
    · obtain ⟨s, -, rfl⟩ := Option.map_eq_some_iff.1 h
      exact Or.inl (by rw [Value.numbers])

theorem value_of_argumentOf? {d : Datum} {a : Argument} (h : argumentOf? d = some a) :
    valueOf? (d.get "value") = some a.value := by
  rw [argumentOf?] at h
  split at h
  · next name v hn hv =>
    obtain ⟨w, hw, rfl⟩ := Option.map_eq_some_iff.1 h
    rw [Datum.get, hv]
    exact hw
  · cases h

theorem default_of_parameterOf? {d : Datum} {q : Parameter} {v : Value}
    (h : parameterOf? d = some q) (hv : q.defaultValue = some v) :
    valueOf? (d.get "defaultValue") = some v := by
  rw [parameterOf?] at h
  split at h
  · cases h
  · split at h
    · extract_lets required at h
      split at h
      · cases h; cases hv
      · cases h; cases hv
      · next w _ hw =>
        obtain ⟨u, hu, rfl⟩ := Option.map_eq_some_iff.1 h
        rw [Datum.get, hw]
        exact hu.trans hv
    · cases h

mutual

theorem Value.occurs_of_mem (v : Value) {d : Datum} {n : Number} (h : valueOf? d = some v)
    (hn : n ∈ v.numbers) : Occurs n d := by
  match v with
  | .number m =>
    obtain h | ⟨_, he, hk, hv⟩ | ⟨_, _, he, -⟩ := numbers_of_valueOf? h
    · rw [h] at hn; cases hn
    · cases he
      rw [Value.numbers, List.mem_singleton] at hn
      subst hn
      exact .number hk hv
    · cases he
  | .object as =>
    obtain h | ⟨_, he, -⟩ | ⟨_, fields, he, hk, hf, has⟩ := numbers_of_valueOf? h
    · rw [h] at hn; cases hn
    · cases he
    · cases he
      rw [Value.numbers] at hn
      obtain ⟨f, hm, ho⟩ := exists_occurs_of_mem as has hn
      exact .field hk hf hm ho
  | .token _ | .variable _ | .string _ | .graph _ => rw [Value.numbers] at hn; cases hn
termination_by structural v

theorem Argument.occurs_of_mem (a : Argument) {d : Datum} {n : Number}
    (h : argumentOf? d = some a) (hn : n ∈ a.numbers) : Occurs n (d.get "value") := by
  obtain ⟨name, v⟩ := a
  rw [Argument.numbers] at hn
  exact Value.occurs_of_mem v (value_of_argumentOf? h) hn
termination_by structural a

theorem exists_occurs_of_mem (as : List Argument) {ds : List Datum} {n : Number}
    (h : argumentsOf? ds = some as) (hn : n ∈ argumentNumbers as) :
    ∃ d ∈ ds, Occurs n (d.get "value") := by
  match as with
  | [] => rw [argumentNumbers] at hn; cases hn
  | a :: as =>
    cases ds with
    | nil => rw [argumentsOf?] at h; cases h
    | cons d ds =>
      rw [argumentsOf?] at h
      obtain ⟨a', ha, h⟩ := Option.bind_eq_some_iff.1 h
      obtain ⟨as', has, h⟩ := Option.bind_eq_some_iff.1 h
      cases h
      rw [argumentNumbers, List.mem_append] at hn
      rcases hn with hn | hn
      · exact ⟨d, by simp, Argument.occurs_of_mem a ha hn⟩
      · obtain ⟨e, he, ho⟩ := exists_occurs_of_mem as has hn
        exact ⟨e, List.mem_cons_of_mem d he, ho⟩
termination_by structural as

end

/-- Reading lets no number through that is not finite, save what was given in record form: those
that occur in what is read are those that were given so, and no other is written. -/
theorem nonfinite_numbers_given :
    (∀ d r n, readValue d = .ok r → n.isFinite = false → (Occurs n r ↔ Given n d)) ∧
      (∀ d fs as n, readFields d = .ok fs → argumentsOf? fs = some as → n ∈ argumentNumbers as →
        n.text ∈ Number.nonFiniteTexts → GivenInFields n d) ∧
      ∀ d p q v n, readParameter d = .ok p → parameterOf? p = some q →
        q.defaultValue = some v → n ∈ v.numbers → n.text ∈ Number.nonFiniteTexts →
        GivenInDefault n d := by
  refine ⟨fun d r n h hn => occurs_iff_given h hn, fun d fs as n h has hm ht => ?_,
    fun d p q v n h hq hv hm ht => ?_⟩
  · have hn := Number.text_mem_nonFiniteTexts.1 ht
    exact (occurs_fields_iff_given h hn).1 (exists_occurs_of_mem as has hm)
  · have hn := Number.text_mem_nonFiniteTexts.1 ht
    exact (occurs_default_iff_given h hn).1 (v.occurs_of_mem (default_of_parameterOf? hq hv) hm)

/-- A collection with a zero and a number in record form that is none: the latter is given. -/
theorem nan_given_in_record :
    GivenInFields .nan
      (.record [("a", .number .zero), ("b", Form.number (.number .nan))]) := by
  have hzero : readValue (.number .zero) = .ok (Form.number (.number .zero)) := by
    rw [readValue]
    rfl
  have hnan : readValue (Form.number (.number .nan)) = .ok (Form.number (.number .nan)) :=
    readValue_of_isValue rfl
  have hread : readFields (.record [("a", .number .zero), ("b", Form.number (.number .nan))]) =
      .ok [Form.field "a" (Form.number (.number .zero)),
        Form.field "b" (Form.number (.number .nan))] :=
    readFields_eq_ok.2 ⟨.record, _, rfl, by decide,
      .cons ⟨_, hzero, rfl⟩ (.cons ⟨_, hnan, rfl⟩ .nil)⟩
  have has := argumentsOf?_argumentData [⟨"a", .number .zero⟩, ⟨"b", .number .nan⟩]
  exact nonfinite_numbers_given.2.1 _ _ _ .nan hread has
    (by simp [argumentNumbers, Argument.numbers, Value.numbers]) (by decide)

/-- A value in record form that holds no number is read and written as it is. -/
theorem nan_read :
    readValue (Form.number (.number .nan)) = .ok (Form.number (.number .nan)) ∧
      Occurs .nan (Form.number (.number .nan)) ∧ Number.nan.isFinite = false ∧
      valueOf? (Form.number (.number .nan)) = some (.number .nan) ∧
      (Value.number .nan).text = "NaN" := by
  refine ⟨readValue_of_isValue rfl, .number rfl rfl, rfl, valueOf?_number .nan, ?_⟩
  rw [Value.text]
  decide

end GraphQuery.Graph
