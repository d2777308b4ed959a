import GraphQuery.Proofs.Limits.Decision
import GraphQuery.Proofs.Surface.Closure

/-! Where reading fails. What is reported always is a part of what was read; and a graph that cannot
be read fails in the same way at any depth of a larger one, as long as all is read that goes
before it. -/
namespace GraphQuery.Surface

open GraphQuery.Graph

/-- A reading that fails over nothing but parts of a value. -/
def FailsWithin (d : Datum) {α : Type} (x : Except Malformed α) : Prop :=
  ∀ m, x = .error m → IsPart m.value d

section
variable {α β : Type} {c d : Datum} {x : Except Malformed α}

theorem failsWithin_ok (a : α) : FailsWithin d (.ok a : Except Malformed α) := by
  intro m h
  cases h

theorem failsWithin_error {m : Malformed} (h : IsPart m.value d) :
    FailsWithin d (.error m : Except Malformed α) := by
  intro m' hm
  cases hm
  exact h

theorem FailsWithin.map (h : FailsWithin d x) (f : α → β) : FailsWithin d (x.map f) :=
  fun m hm => h m (map_eq_error.1 hm)

theorem FailsWithin.bind (h : FailsWithin d x) {f : α → Except Malformed β}
    (hf : ∀ a, x = .ok a → FailsWithin d (f a)) : FailsWithin d (x >>= f) := by
  cases x with
  | error e => exact fun m hm => h m (by cases hm; rfl)
  | ok a => exact hf a rfl

theorem FailsWithin.of_isPart (h : FailsWithin c x) (hc : IsPart c d) : FailsWithin d x :=
  fun m hm => (h m hm).trans hc

end

theorem failsWithin_readFinite (n : Number) : FailsWithin (.number n) (readFinite n) := by
  rw [readFinite]
  split
  · exact failsWithin_ok _
  · exact failsWithin_error (.self _)

theorem failsWithin_readIdentifier (d : Datum) : FailsWithin d (readIdentifier d) := by
  unfold readIdentifier
  split
  · exact failsWithin_ok _
  · exact failsWithin_readFinite _
  · split
    · exact failsWithin_ok _
    · exact failsWithin_error (.self _)

section
variable {d : Datum}

/-! Collections. -/

theorem failsWithin_pairs {elements : List Datum} (h : ∀ e ∈ elements, IsPart e d) :
    FailsWithin d (pairs elements) := by
  fun_induction pairs elements with
  | case1 => exact failsWithin_ok _
  | case2 key value rest ih => exact (ih fun e he => h e (List.mem_cons_of_mem _ he)).map _
  | case3 e rest => exact failsWithin_error (h e List.mem_cons_self)

theorem failsWithin_entriesOf (d : Datum) : FailsWithin d (entriesOf d) := by
  unfold entriesOf
  split
  · exact failsWithin_pairs fun e he => isPart_of_mem he
  · exact failsWithin_ok _
  · exact failsWithin_error (.self _)

/-- A pair among some elements, each of which is part of a value. -/
theorem isPart_of_pairs {elements : List Datum} {entries : List (Datum × Datum)}
    (hd : ∀ e ∈ elements, IsPart e d) (h : pairs elements = .ok entries) :
    ∀ e ∈ entries, IsPart e.1 d ∧ IsPart e.2 d := by
  fun_induction pairs elements generalizing entries with
  | case1 =>
    cases h
    exact List.forall_mem_nil _
  | case2 key value rest ih =>
    obtain ⟨es, hes, rfl⟩ := map_eq_ok.1 h
    have hpair := hd _ List.mem_cons_self
    exact List.forall_mem_cons.2 ⟨⟨(isPart_of_mem (by simp)).trans hpair,
      (isPart_of_mem (by simp)).trans hpair⟩,
      ih (fun e he => hd e (List.mem_cons_of_mem _ he)) hes⟩
  | case3 => cases h

/-- The values of entries are parts of the collection, and so are the keys that are no texts. -/
theorem isPart_of_entriesOf {entries : List (Datum × Datum)} (h : entriesOf d = .ok entries) :
    ∀ e ∈ entries, (e.1.isString = false → IsPart e.1 d) ∧ IsPart e.2 d := by
  unfold entriesOf at h
  split at h
  · intro e he
    obtain ⟨hkey, hvalue⟩ := isPart_of_pairs (fun e he => isPart_of_mem he) h e he
    exact ⟨fun _ => hkey, hvalue⟩
  · cases h
    intro e he
    obtain ⟨f, hf, rfl⟩ := List.mem_map.1 he
    refine ⟨fun hk => ?_, .entry hf (.self f.2)⟩
    cases hk
  · cases h

theorem failsWithin_readEntries {seen : List String} {entries : List (Datum × Datum)}
    (hparts : ∀ e ∈ entries, (e.1.isString = false → IsPart e.1 d) ∧ IsPart e.2 d)
    (hread : ∀ e ∈ entries, FailsWithin e.2 (readValue e.2)) :
    FailsWithin d (readEntries d seen entries) := by
  induction entries generalizing seen with
  | nil =>
    rw [readEntries]
    exact failsWithin_ok _
  | cons e entries ih =>
    obtain ⟨key, v⟩ := e
    obtain ⟨hkey, hv⟩ := hparts _ List.mem_cons_self
    have hrest : ∀ seen, FailsWithin d (readEntries d seen entries) := fun _ =>
      ih (fun e he => hparts e (List.mem_cons_of_mem _ he))
        fun e he => hread e (List.mem_cons_of_mem _ he)
    by_cases hs : key.isString = true
    · obtain ⟨s, rfl⟩ := isString_iff.1 hs
      rw [readEntries_cons]
      split
      · exact failsWithin_error (.self _)
      · refine ((hread _ List.mem_cons_self).of_isPart hv).bind fun _ _ => ?_
        exact (hrest _).bind fun _ _ => failsWithin_ok _
    · rw [readEntries]
      · exact failsWithin_error (hkey (by simpa using hs))
      · rintro s rfl
        exact hs rfl

/-! Values. -/

theorem failsWithin_readFields_of (h : ∀ entries, entriesOf d = .ok entries →
    ∀ e ∈ entries, FailsWithin e.2 (readValue e.2)) : FailsWithin d (readFields d) := by
  unfold readFields
  split
  · next m he => exact failsWithin_error (failsWithin_entriesOf d m he)
  · next entries he =>
    exact failsWithin_readEntries (isPart_of_entriesOf he) (h entries he)

end

theorem failsWithin_readValue (d : Datum) : FailsWithin d (readValue d) := by
  have hd := readingOf d
  generalize readValue d = x at hd
  cases hd with
  | inForm | null | boolean | string | reference | node => exact failsWithin_ok _
  | number n => exact failsWithin_readFinite n
  | compound =>
    exact (failsWithin_readFields_of fun entries h e he => failsWithin_readValue e.2).map _
  | refused => exact failsWithin_error (.self _)
termination_by sizeOf d
decreasing_by
  subst_vars
  exact sizeOf_lt_of_entriesOf h he

theorem failsWithin_readFields (d : Datum) : FailsWithin d (readFields d) :=
  failsWithin_readFields_of fun _ _ e _ => failsWithin_readValue e.2

/-! Parameters. -/

theorem failsWithin_namedParameter (d name type : Datum) (required : Bool) (v : Option Datum) :
    FailsWithin d (namedParameter d name type required v) := by
  unfold namedParameter
  split
  · exact failsWithin_ok _
  · exact failsWithin_error (.self _)

theorem failsWithin_parameterShape (d : Datum) : FailsWithin d (parameterShape d) := by
  unfold parameterShape
  split
  · exact failsWithin_ok _
  · split
    · unfold listedParameter
      split
      · exact failsWithin_namedParameter _ _ _ _ _
      · exact failsWithin_namedParameter _ _ _ _ _
      · exact failsWithin_namedParameter _ _ _ _ _
      · exact failsWithin_error (.self _)
    · exact failsWithin_error (.self _)

theorem failsWithin_readParameter (d : Datum) : FailsWithin d (readParameter d) := by
  refine (failsWithin_parameterShape d).bind fun s hs => ?_
  split
  · exact failsWithin_ok _
  · next v hv =>
    exact ((failsWithin_readValue v).of_isPart (isPart_of_parameterShape hs hv)).bind
      fun _ _ => failsWithin_ok _

section
variable {d : Datum}

theorem failsWithin_readParameters {ds : List Datum} (h : ∀ p ∈ ds, IsPart p d) :
    FailsWithin d (readParameters ds) := by
  induction ds with
  | nil => exact failsWithin_ok _
  | cons p ds ih =>
    rw [readParameters]
    refine ((failsWithin_readParameter p).of_isPart (h p List.mem_cons_self)).bind fun _ _ => ?_
    exact (ih fun p hp => h p (List.mem_cons_of_mem _ hp)).bind fun _ _ => failsWithin_ok _

/-! Metadata. -/

theorem failsWithin_readOperationName {o : Option Datum} (h : ∀ c, o = some c → IsPart c d) :
    FailsWithin d (readOperationName o) := by
  unfold readOperationName
  split
  · exact failsWithin_ok _
  · exact failsWithin_ok _
  · exact failsWithin_error (h _ rfl)

theorem failsWithin_readArguments {o : Option Datum} (h : ∀ c, o = some c → IsPart c d) :
    FailsWithin d (readArguments o) := by
  unfold readArguments
  split
  · exact failsWithin_ok _
  · exact ((failsWithin_readFields _).of_isPart (h _ rfl)).map _

theorem failsWithin_readParameterList {o : Option Datum} (h : ∀ c, o = some c → IsPart c d) :
    FailsWithin d (readParameterList o) := by
  unfold readParameterList
  split
  · exact failsWithin_ok _
  · exact (failsWithin_readParameters fun p hp => (isPart_of_mem hp).trans (h _ rfl)).map _
  · exact failsWithin_error (h _ rfl)

theorem failsWithin_readMetadata {s : Split} (h : ∀ t c, s.value? t = some c → IsPart c d) :
    FailsWithin d (readMetadata s) := by
  refine (failsWithin_readOperationName (h _)).bind fun _ _ => ?_
  refine (failsWithin_readArguments (h _)).bind fun _ _ => ?_
  exact (failsWithin_readParameterList (h _)).bind fun _ _ => failsWithin_ok _

/-! Graphs. -/

theorem failsWithin_split (d : Datum) : FailsWithin d (split d) := by
  unfold split
  split
  · next elements =>
    cases splitElements elements with
    | error t => exact failsWithin_error (.self _)
    | ok s => exact failsWithin_ok s
  · exact failsWithin_ok _

theorem failsWithin_readGraphs_of {ds : List Datum} (hparts : ∀ c ∈ ds, IsPart c d)
    (hread : ∀ c ∈ ds, FailsWithin c (readGraph c)) : FailsWithin d (readGraphs ds) := by
  induction ds with
  | nil =>
    rw [readGraphs]
    exact failsWithin_ok _
  | cons c ds ih =>
    rw [readGraphs]
    refine ((hread c List.mem_cons_self).of_isPart (hparts c List.mem_cons_self)).bind
      fun _ _ => ?_
    refine (ih (fun c hc => hparts c (List.mem_cons_of_mem _ hc))
      fun c hc => hread c (List.mem_cons_of_mem _ hc)).bind fun _ _ => failsWithin_ok _

end

theorem failsWithin_readGraph (d : Datum) : FailsWithin d (readGraph d) := by
  by_cases hn : Form.isNode d = true
  · rw [readGraph_of_isNode hn]
    exact failsWithin_ok _
  rw [Bool.not_eq_true] at hn
  cases hs : split d with
  | error m =>
    rw [readGraph_of_split_error hn hs]
    exact failsWithin_error (failsWithin_split d m hs)
  | ok s =>
    obtain ⟨hpositional, hmetadata⟩ := isPart_of_split hs
    cases hp : s.positional with
    | nil =>
      rw [readGraph_of_no_head hn hs hp]
      exact failsWithin_error (.self _)
    | cons head children =>
      rw [hp] at hpositional
      rw [readGraph_of_head hn hs hp]
      have hhead := hpositional head List.mem_cons_self
      refine ((failsWithin_readIdentifier head).of_isPart hhead).bind fun _ _ => ?_
      refine (failsWithin_readMetadata hmetadata).bind fun _ _ => ?_
      refine (failsWithin_readGraphs_of (fun c hc => hpositional c (List.mem_cons_of_mem _ hc))
        fun c hc => failsWithin_readGraph c).bind fun _ _ => failsWithin_ok _
termination_by sizeOf d
decreasing_by
  have := sizeOf_children_le hs hp
  have := List.sizeOf_lt_of_mem hc
  omega

/-! Faults within larger graphs. -/

/-- Reading a value comes as far as one in it: that is the value itself, or it is reached in a child
of a list of which the head, the metadata and the children before are read. -/
inductive ReachedIn (c : Datum) : Datum → Prop
  | self : ReachedIn c c
  | child {elements before after : List Datum} {head object metadata d : Datum} {s : Split}
    (hs : split (.list elements) = .ok s) (hp : s.positional = head :: (before ++ d :: after))
    (ho : readIdentifier head = .ok object) (hm : readMetadata s = .ok metadata)
    (hb : ∀ b ∈ before, ∃ r, readGraph b = .ok r) (h : ReachedIn c d) :
    ReachedIn c (.list elements)

theorem readGraphs_of_error {d : Datum} {m : Malformed} (h : readGraph d = .error m)
    {before : List Datum} (hb : ∀ b ∈ before, ∃ r, readGraph b = .ok r) (after : List Datum) :
    readGraphs (before ++ d :: after) = .error m := by
  induction before with
  | nil =>
    rw [List.nil_append, readGraphs, h]
    rfl
  | cons b before ih =>
    obtain ⟨r, hr⟩ := hb b List.mem_cons_self
    rw [List.cons_append, readGraphs, hr, ih fun b hb' => hb b (List.mem_cons_of_mem _ hb')]
    rfl

theorem ReachedIn.readGraph_eq {c d : Datum} (hd : ReachedIn c d) {m : Malformed}
    (h : readGraph c = .error m) : readGraph d = .error m := by
  induction hd with
  | self => exact h
  | child hs hp ho hm hb _ ih =>
    rw [readGraph_of_head rfl hs hp, ho, hm, readGraphs_of_error ih hb]
    rfl

/-- What is reported of a graph that cannot be read is part of it. Wherever reading comes as far as
this graph within a larger one, the same is reported of the larger one, whatever comes after it
there; and this is all that the check of the limits says, if it blocks names that are texts. -/
theorem fault_of_readGraph (g : Datum) (m : Malformed) (h : readGraph g = .error m) :
    IsPart m.value g ∧ ∀ d, ReachedIn g d →
      readGraph d = .error m ∧
        ∀ options l, Limits.ofOptions options = .ok l → l.BlocksTexts →
          (checkLimits d options).map (·.map Violation.message) = .ok [m.message] := by
  refine ⟨failsWithin_readGraph g m h, fun d hd => ?_⟩
  have hread := hd.readGraph_eq h
  refine ⟨hread, fun options l hl hb => ?_⟩
  rw [Limits.checkLimits_of_malformed hl hb hread]
  rfl

/-- A user with an argument that is a foreign mark, and a child that is no graph either. -/
def markedUser : Datum :=
  .list [.string "user", .mark (.tag .arguments),
    .list [.list [.string "id", .mark .foreign]], .null]

/-- The user is a child of the edges between others, of which the last is no graph. -/
def markedEdges : Datum :=
  .list [.string "viewer", .string "name",
    .list [.string "edges", .string "cursor", markedUser, .null], .list []]

theorem fault_of_markedUser :
    readGraph markedUser = .error (.argumentValue (.mark .foreign)) ∧
      IsPart (.mark .foreign) markedUser ∧ ReachedIn markedUser markedEdges ∧
      readGraph markedEdges = .error (.argumentValue (.mark .foreign)) ∧
      (checkLimits markedEdges .absent).map (·.map Violation.message) =
        .ok ["Unencodable argument value: Symbol(other)"] := by
  have hfields : readFields (.list [.list [.string "id", .mark .foreign]]) =
      .error (.argumentValue (.mark .foreign)) := by
    rw [readFields_of_entriesOf rfl, readEntries_cons, readValue.eq_def]
    rfl
  have hread : readGraph markedUser = .error (.argumentValue (.mark .foreign)) := by
    have hmetadata : readMetadata ⟨[(.arguments, .list [.list [.string "id", .mark .foreign]])],
        [.string "user", .null]⟩ = .error (.argumentValue (.mark .foreign)) := by
      show ((readFields _).map some >>= _) = _
      rw [hfields]
      rfl
    have hsplit : split markedUser =
        .ok ⟨[(.arguments, .list [.list [.string "id", .mark .foreign]])],
          [.string "user", .null]⟩ := rfl
    rw [readGraph_of_head rfl hsplit rfl, hmetadata]
    rfl
  have hreached : ReachedIn markedUser markedEdges := by
    refine @ReachedIn.child markedUser _ [.string "name"] [.list []] _ _ _ _ _ rfl rfl rfl rfl ?_
      (@ReachedIn.child markedUser _ [.string "cursor"] [.null] _ _ _ _ _ rfl rfl rfl rfl ?_ .self)
    · exact List.forall_mem_singleton.2 ⟨_, readGraph_string "name"⟩
    · exact List.forall_mem_singleton.2 ⟨_, readGraph_string "cursor"⟩
  obtain ⟨hpart, hlocal⟩ := fault_of_readGraph markedUser _ hread
  obtain ⟨hedges, hcheck⟩ := hlocal markedEdges hreached
  exact ⟨hread, hpart, hreached, hedges, hcheck .absent _ rfl (List.forall_mem_nil _)⟩

end GraphQuery.Surface
