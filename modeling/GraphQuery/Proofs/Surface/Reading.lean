import Mathlib.Data.List.Forall2
import GraphQuery.Surface.Normal

/-! What reading makes of each form: a collection by its entries, a value by its shape, a graph by
its head, metadata and children. -/
namespace GraphQuery.Surface

theorem exists_forall₂_iff {α β : Type} {R : α → β → Prop} {as : List α} :
    (∃ bs, List.Forall₂ R as bs) ↔ ∀ a ∈ as, ∃ b, R a b := by
  induction as with
  | nil => simp
  | cons a as ih =>
    rw [List.forall_mem_cons, ← ih]
    constructor
    · rintro ⟨_, h⟩
      cases h with
      | cons hb hbs => exact ⟨⟨_, hb⟩, _, hbs⟩
    · rintro ⟨⟨b, hb⟩, bs, hbs⟩
      exact ⟨b :: bs, .cons hb hbs⟩

/-- How a collection is written: as a list of pairs, or as a record. -/
inductive Writing where
  | pairs | record
  deriving DecidableEq, Repr

/-- Entries in a writing. -/
def Writing.write (w : Writing) (es : List (String × Datum)) : Datum :=
  match w with
  | .pairs => .list (es.map fun e => .list [.string e.1, e.2])
  | .record => .record es

/-- Entries under keys that are texts. -/
def named (es : List (String × Datum)) : List (Datum × Datum) :=
  es.map fun e => (.string e.1, e.2)

theorem named_cons (key : String) (d : Datum) (es : List (String × Datum)) :
    named ((key, d) :: es) = (.string key, d) :: named es := rfl

theorem pairs_map_list (es : List (String × Datum)) :
    pairs (es.map fun e => .list [.string e.1, e.2]) = .ok (named es) := by
  induction es with
  | nil => rfl
  | cons e es ih =>
    rw [List.map_cons, pairs, ih]
    rfl

@[simp] theorem entriesOf_write (w : Writing) (es : List (String × Datum)) :
    entriesOf (w.write es) = .ok (named es) := by
  cases w with
  | pairs => exact pairs_map_list es
  | record => rfl

theorem named_injective {es fs : List (String × Datum)} (h : named es = named fs) : es = fs := by
  have hinj : Function.Injective fun e : String × Datum => (Datum.string e.1, e.2) := by
    rintro ⟨k, v⟩ ⟨l, w⟩ he
    cases he
    rfl
  exact List.map_injective_iff.2 hinj h

/-- Entries can be told from what they are written as. -/
theorem write_inj {v w : Writing} {es fs : List (String × Datum)} (h : v.write es = w.write fs) :
    es = fs := by
  have he := entriesOf_write v es
  rw [h, entriesOf_write] at he
  exact named_injective (Except.ok.inj he.symm)

theorem eq_of_pairs_eq_named {elements : List Datum} {es : List (String × Datum)}
    (h : pairs elements = .ok (named es)) :
    elements = es.map fun e => .list [.string e.1, e.2] := by
  induction es generalizing elements with
  | nil =>
    unfold pairs at h
    split at h
    · rfl
    · obtain ⟨_, _, he⟩ := map_eq_ok.1 h
      cases he
    · cases h
  | cons e es ih =>
    unfold pairs at h
    split at h
    · cases h
    · next rest =>
      obtain ⟨entries, hr, he⟩ := map_eq_ok.1 h
      cases he
      rw [ih hr]
      rfl
    · cases h

theorem eq_write_of_entriesOf {d : Datum} {es : List (String × Datum)}
    (h : entriesOf d = .ok (named es)) : ∃ w : Writing, d = w.write es := by
  unfold entriesOf at h
  split at h
  · exact ⟨.pairs, congrArg Datum.list (eq_of_pairs_eq_named h)⟩
  · next es' =>
    exact ⟨.record, congrArg Datum.record (named_injective (Except.ok.inj h))⟩
  · cases h

theorem readFields_of_entriesOf {d : Datum} {entries : List (Datum × Datum)}
    (h : entriesOf d = .ok entries) : readFields d = readEntries d [] entries := by
  unfold readFields
  split
  · next he => rw [h] at he; cases he
  · next he => rw [h] at he; cases he; rfl

@[simp] theorem readFields_write (w : Writing) (es : List (String × Datum)) :
    readFields (w.write es) = readEntries (w.write es) [] (named es) :=
  readFields_of_entriesOf (entriesOf_write w es)

theorem sizeOf_lt_of_entriesOf {d : Datum} {entries : List (Datum × Datum)}
    (h : entriesOf d = .ok entries) {e : Datum × Datum} (he : e ∈ entries) :
    sizeOf e.2 < sizeOf d := by
  have hd := entriesOf_valuesSize h
  have hvalues : sizeOf e.2 < valuesSize entries := by
    clear h hd
    induction entries with
    | nil => cases he
    | cons f entries ih =>
      rw [valuesSize]
      rcases List.mem_cons.1 he with rfl | he
      · omega
      · have := ih he
        omega
  omega

theorem sizeOf_entry_lt (w : Writing) {es : List (String × Datum)} {e : String × Datum}
    (h : e ∈ es) : sizeOf e.2 < sizeOf (w.write es) := by
  have hm : (Datum.string e.1, e.2) ∈ named es := List.mem_map.2 ⟨e, h, rfl⟩
  exact sizeOf_lt_of_entriesOf (entriesOf_write w es) hm

/-- A field is what is read of an entry. -/
def IsReadOf (e : String × Datum) (f : Datum) : Prop :=
  ∃ v, readValue e.2 = .ok v ∧ f = Form.field e.1 v

/-- Entries are read exactly if each value is. -/
theorem exists_forall₂_isReadOf {es : List (String × Datum)} :
    (∃ fs, List.Forall₂ IsReadOf es fs) ↔ ∀ e ∈ es, ∃ v, readValue e.2 = .ok v := by
  rw [exists_forall₂_iff]
  constructor
  · intro h e he
    obtain ⟨_, v, hv, -⟩ := h e he
    exact ⟨v, hv⟩
  · intro h e he
    obtain ⟨v, hv⟩ := h e he
    exact ⟨_, v, hv, rfl⟩

theorem readEntries_cons (whole d : Datum) (seen : List String) (key : String)
    (entries : List (Datum × Datum)) :
    readEntries whole seen ((.string key, d) :: entries) =
      if key ∈ seen then .error (.duplicateKey key whole)
      else do
        let value ← readValue d
        let fields ← readEntries whole (key :: seen) entries
        return Form.field key value :: fields := by
  rw [readEntries]

theorem readEntries_cons_eq_ok {whole d : Datum} {seen : List String} {key : String}
    {entries : List (Datum × Datum)} {fs : List Datum} :
    readEntries whole seen ((.string key, d) :: entries) = .ok fs ↔
      key ∉ seen ∧ ∃ f gs, fs = f :: gs ∧ IsReadOf (key, d) f ∧
        readEntries whole (key :: seen) entries = .ok gs := by
  rw [readEntries_cons]
  by_cases hk : key ∈ seen
  · simp [hk]
  · rw [if_neg hk]
    simp only [bind_eq_ok, hk, not_false_eq_true, true_and]
    constructor
    · rintro ⟨v, hv, gs, hgs, h⟩
      exact ⟨_, gs, (Except.ok.inj h).symm, ⟨v, hv, rfl⟩, hgs⟩
    · rintro ⟨_, gs, rfl, ⟨v, hv, rfl⟩, hgs⟩
      exact ⟨v, hv, gs, hgs, rfl⟩

/-- Entries are read exactly if their keys are texts, each of them new, and their values are. -/
theorem readEntries_named_eq_ok {whole : Datum} {seen : List String}
    {es : List (String × Datum)} {fs : List Datum} :
    readEntries whole seen (named es) = .ok fs ↔
      ((es.map Prod.fst).Nodup ∧ ∀ key ∈ es.map Prod.fst, key ∉ seen) ∧
        List.Forall₂ IsReadOf es fs := by
  induction es generalizing seen fs with
  | nil =>
    show readEntries whole seen [] = .ok fs ↔ _
    rw [readEntries]
    simp [eq_comm]
  | cons e es ih =>
    show readEntries whole seen ((.string e.1, e.2) :: named es) = .ok fs ↔ _
    simp only [readEntries_cons_eq_ok, ih, List.map_cons, List.nodup_cons, List.mem_cons,
      List.forall₂_cons_left_iff]
    constructor
    · rintro ⟨hk, f, gs, rfl, hf, ⟨hn, hs⟩, hgs⟩
      refine ⟨⟨⟨fun hm => hs _ hm (Or.inl rfl), hn⟩, ?_⟩, f, gs, hf, hgs, rfl⟩
      rintro key (rfl | hm)
      · exact hk
      · exact fun hk => hs _ hm (Or.inr hk)
    · rintro ⟨⟨⟨he, hn⟩, hs⟩, f, gs, hf, hgs, rfl⟩
      refine ⟨hs _ (Or.inl rfl), f, gs, rfl, hf, ⟨hn, ?_⟩, hgs⟩
      rintro key hm (rfl | hk)
      · exact he hm
      · exact hs _ (Or.inr hm) hk

theorem exists_named_of_readEntries {whole : Datum} {seen : List String}
    {entries : List (Datum × Datum)} {fs : List Datum}
    (h : readEntries whole seen entries = .ok fs) : ∃ es, entries = named es := by
  induction entries generalizing seen fs with
  | nil => exact ⟨[], rfl⟩
  | cons e entries ih =>
    obtain ⟨key, d⟩ := e
    cases key with
    | string key =>
      obtain ⟨-, f, gs, -, -, hgs⟩ := readEntries_cons_eq_ok.1 h
      obtain ⟨es, rfl⟩ := ih hgs
      exact ⟨(key, d) :: es, rfl⟩
    | _ =>
      rw [readEntries] at h
      · cases h
      · simp

/-- A collection is read exactly if it is a writing of entries with keys of their own and with
values that are read. -/
theorem readFields_eq_ok {d : Datum} {fs : List Datum} :
    readFields d = .ok fs ↔
      ∃ w es, d = Writing.write w es ∧ (es.map Prod.fst).Nodup ∧ List.Forall₂ IsReadOf es fs := by
  constructor
  · intro h
    cases he : entriesOf d with
    | error e =>
      unfold readFields at h
      split at h
      · cases h
      · next hok => rw [he] at hok; cases hok
    | ok entries =>
      rw [readFields_of_entriesOf he] at h
      obtain ⟨es, rfl⟩ := exists_named_of_readEntries h
      obtain ⟨w, rfl⟩ := eq_write_of_entriesOf he
      obtain ⟨⟨hn, -⟩, hfs⟩ := readEntries_named_eq_ok.1 h
      exact ⟨w, es, rfl, hn, hfs⟩
  · rintro ⟨w, es, rfl, hn, hfs⟩
    rw [readFields_write, readEntries_named_eq_ok]
    exact ⟨⟨hn, by simp⟩, hfs⟩

/-- Whether a value has entries, in one writing or the other. -/
def isCompound : Datum → Bool
  | .list _ | .record _ => true
  | _ => false

@[simp] theorem isCompound_write (w : Writing) (es : List (String × Datum)) :
    isCompound (w.write es) = true := by
  cases w <;> rfl

theorem write_ne_reference (w : Writing) (es : List (String × Datum)) (name : String) :
    w.write es ≠ .list [.mark .variable, .string name] := by
  cases w with
  | pairs =>
    intro h
    cases es with
    | nil => cases h
    | cons e es => cases h
  | record => nofun

theorem isValue_of_isNode {d : Datum} (h : Form.isNode d = true) : Form.isValue d = false := by
  rw [Form.isNode, Bool.and_eq_true, Form.hasKind, beq_iff_eq] at h
  rw [Form.isValue, h.1]
  rfl

theorem readFinite_eq_ok {n : Number} {r : Datum} :
    readFinite n = .ok r ↔ n.isFinite = true ∧ Form.number (.number n) = r := by
  rw [readFinite]
  split <;> simp_all

/-- What is read of a value, by its shape: the first of these shapes that it has. -/
inductive ReadingOf : Datum → Except Malformed Datum → Prop
  | inForm {d : Datum} (h : Form.isValue d = true) : ReadingOf d (.ok d)
  | null : ReadingOf .null (.ok (Form.token (.string "null")))
  | boolean (b : Bool) : ReadingOf (.boolean b) (.ok (Form.token (.string (toString b))))
  | string (s : String) : ReadingOf (.string s) (.ok (Form.string (.string s)))
  | number (n : Number) : ReadingOf (.number n) (readFinite n)
  | reference (name : String) :
    ReadingOf (.list [.mark .variable, .string name]) (.ok (Form.reference (.string name)))
  | node {d : Datum} (h : Form.isNode d = true) : ReadingOf d (.ok (Form.graph d))
  | compound {d : Datum} (hc : isCompound d = true) (hv : Form.isValue d = false)
    (hn : Form.isNode d = false) (hr : ∀ name, d ≠ .list [.mark .variable, .string name]) :
    ReadingOf d ((readFields d).map Form.object)
  | refused {d : Datum} (h : d = .absent ∨ (∃ i, d = .integer i) ∨ ∃ m, d = .mark m) :
    ReadingOf d (.error (.argumentValue d))

section
variable {d : Datum}

theorem readValue_of_isValue (h : Form.isValue d = true) : readValue d = .ok d := by
  rw [readValue.eq_def, if_pos h]

theorem readValue_of_isNode (h : Form.isNode d = true) : readValue d = .ok (Form.graph d) := by
  cases d with
  | record es =>
    rw [readValue, if_neg (by simp [isValue_of_isNode h]), if_pos h]
  | _ => cases h

theorem readValue_of_isCompound (hc : isCompound d = true) (hv : Form.isValue d = false)
    (hn : Form.isNode d = false) (hr : ∀ name, d ≠ .list [.mark .variable, .string name]) :
    readValue d = (readFields d).map Form.object := by
  cases d with
  | list elements =>
    rw [readValue, if_neg (by simp [hv])]
    exact fun name he => hr name (congrArg Datum.list he)
  | record es => rw [readValue, if_neg (by simp [hv]), if_neg (by simp [hn])]
  | _ => cases hc

end

theorem readValue_reference (name : String) :
    readValue (.list [.mark .variable, .string name]) =
      .ok (Form.reference (.string name)) := by
  rw [readValue]
  rfl

/-- A list of pairs always is an input object. -/
theorem readValue_pairs (es : List (String × Datum)) :
    readValue (Writing.pairs.write es) =
      (readFields (Writing.pairs.write es)).map Form.object :=
  readValue_of_isCompound rfl rfl rfl (write_ne_reference .pairs es)

theorem readingOf (d : Datum) : ReadingOf d (readValue d) := by
  by_cases hc : isCompound d = true
  · by_cases hv : Form.isValue d = true
    · rw [readValue_of_isValue hv]
      exact .inForm hv
    by_cases hn : Form.isNode d = true
    · rw [readValue_of_isNode hn]
      exact .node hn
    by_cases hr : ∃ name, d = .list [.mark .variable, .string name]
    · obtain ⟨name, rfl⟩ := hr
      rw [readValue_reference]
      exact .reference name
    have hr' : ∀ name, d ≠ .list [.mark .variable, .string name] := fun name he => hr ⟨name, he⟩
    rw [Bool.not_eq_true] at hv hn
    rw [readValue_of_isCompound hc hv hn hr']
    exact .compound hc hv hn hr'
  · cases d with
    | null => rw [readValue]; exact .null
    | boolean b => rw [readValue]; exact .boolean b
    | string s => rw [readValue]; exact .string s
    | number n => rw [readValue]; exact .number n
    | list | record => exact absurd rfl hc
    | absent => rw [readValue.eq_def]; exact .refused (Or.inl rfl)
    | integer i => rw [readValue.eq_def]; exact .refused (Or.inr (Or.inl ⟨i, rfl⟩))
    | mark m => rw [readValue.eq_def]; exact .refused (Or.inr (Or.inr ⟨m, rfl⟩))

/-! Parameters and graphs. -/

theorem readParameter_of_error {d : Datum} {e : Malformed} (h : parameterShape d = .error e) :
    readParameter d = .error e := by
  rw [readParameter, h]
  rfl

theorem readParameter_of_none {d : Datum} {s : ParameterShape} (h : parameterShape d = .ok s)
    (hv : s.defaultValue = none) :
    readParameter d = .ok (Form.parameter s.name s.type s.required none) := by
  simp only [readParameter, h, bind, Except.bind, hv]
  rfl

theorem readParameter_of_some {d v : Datum} {s : ParameterShape} (h : parameterShape d = .ok s)
    (hv : s.defaultValue = some v) :
    readParameter d =
      (readValue v).map fun r => Form.parameter s.name s.type s.required (some r) := by
  simp only [readParameter, h, bind, Except.bind, hv]
  cases readValue v <;> rfl

theorem string?_eq_some {d : Datum} {s : String} : d.string? = some s ↔ d = .string s := by
  cases d <;> simp [Datum.string?]

theorem parameterShape_of_get {d : Datum} {name type : String} (hn : d.get "name" = .string name)
    (ht : d.get "type" = .string type) :
    parameterShape d =
      .ok ⟨name, type, isTrue (d.get "required"), present (d.get? "defaultValue")⟩ := by
  unfold parameterShape
  rw [hn, ht]
  rfl

theorem readParameters_eq_ok {ds ps : List Datum} :
    readParameters ds = .ok ps ↔ List.Forall₂ (fun d p => readParameter d = .ok p) ds ps := by
  induction ds generalizing ps with
  | nil => simp [readParameters, eq_comm]
  | cons d ds ih =>
    rw [readParameters]
    simp only [bind_eq_ok, ih, List.forall₂_cons_left_iff]
    constructor
    · rintro ⟨p, hp, ps', hps, h⟩
      exact ⟨p, ps', hp, hps, (Except.ok.inj h).symm⟩
    · rintro ⟨p, ps', hp, hps, rfl⟩
      exact ⟨p, hp, ps', hps, rfl⟩

theorem isMetaTag_eq_false {d : Datum} :
    Form.isMetaTag d = false ↔ ∀ t, d ≠ .mark (.tag t) := by
  cases d with
  | mark m => cases m <;> simp [Form.isMetaTag]
  | _ => simp [Form.isMetaTag]

theorem splitElements_cons {d : Datum} (hd : Form.isMetaTag d = false) (rest : List Datum) :
    splitElements (d :: rest) = (splitElements rest).map (Split.addPositional d) := by
  have ht := isMetaTag_eq_false.1 hd
  rw [splitElements]
  · exact fun t he => absurd he (ht t)
  · exact fun t _ _ he => absurd he (ht t)

theorem split_of_not_list {d : Datum} (h : d.isList = false) : split d = .ok ⟨[], [d]⟩ := by
  cases d with
  | list => cases h
  | _ => rfl

theorem readGraphs_eq_ok {ds ns : List Datum} :
    readGraphs ds = .ok ns ↔ List.Forall₂ (fun d n => readGraph d = .ok n) ds ns := by
  induction ds generalizing ns with
  | nil => simp [readGraphs, eq_comm]
  | cons d ds ih =>
    rw [readGraphs]
    simp only [bind_eq_ok, ih, List.forall₂_cons_left_iff]
    constructor
    · rintro ⟨n, hn, ns', hns, h⟩
      exact ⟨n, ns', hn, hns, (Except.ok.inj h).symm⟩
    · rintro ⟨n, ns', hn, hns, rfl⟩
      exact ⟨n, hn, ns', hns, rfl⟩

section
variable {d : Datum}

theorem readGraph_of_isNode (h : Form.isNode d = true) : readGraph d = .ok d := by
  rw [readGraph, if_pos h]

theorem readGraph_of_split_error (hn : Form.isNode d = false) {e : Malformed}
    (hs : split d = .error e) : readGraph d = .error e := by
  rw [readGraph, if_neg (by simp [hn])]
  split
  · next he => rw [hs] at he; cases he; rfl
  · next he => rw [hs] at he; cases he

theorem readGraph_of_no_head (hn : Form.isNode d = false) {s : Split} (hs : split d = .ok s)
    (hp : s.positional = []) : readGraph d = .error (.noIdentifier d) := by
  rw [readGraph, if_neg (by simp [hn])]
  split
  · next he => rw [hs] at he; cases he
  · next he =>
    rw [hs] at he
    cases he
    split
    · rfl
    · next hc => rw [hp] at hc; cases hc

theorem readGraph_of_head (hn : Form.isNode d = false) {s : Split} (hs : split d = .ok s)
    {head : Datum} {children : List Datum} (hp : s.positional = head :: children) :
    readGraph d = do
      let object ← readIdentifier head
      let metadata ← readMetadata s
      let fields ← readGraphs children
      return Form.node object metadata fields := by
  rw [readGraph, if_neg (by simp [hn])]
  split
  · next he => rw [hs] at he; cases he
  · next he =>
    rw [hs] at he
    cases he
    split
    · next hc => rw [hp] at hc; cases hc
    · next hc =>
      rw [hp] at hc
      cases hc
      rfl

end

end GraphQuery.Surface
