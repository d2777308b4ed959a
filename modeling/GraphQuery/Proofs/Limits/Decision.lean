import GraphQuery.Proofs.Limits.Enforcement
import GraphQuery.Proofs.Surface.Agreement
import GraphQuery.Proofs.Surface.Invariant

/-! What the check against limits decides. Options are refused in their order and before any graph
is read; of a graph that is read the check tells how deep its nodes lie, how many there are and
which of them have names to be refused. -/
namespace GraphQuery

namespace Graph

mutual

/-- A node and all below it, each with its level and before its children. -/
def Node.levels (level : Nat) : Node → List (Nat × Node)
  | ⟨i, name, as, ps, children⟩ =>
    (level, ⟨i, name, as, ps, children⟩) :: levels (level + 1) children

def levels (level : Nat) : List Node → List (Nat × Node)
  | [] => []
  | n :: rest => n.levels level ++ levels level rest

end

mutual

theorem Node.names_levels (level : Nat) (n : Node) :
    ((n.levels level).map fun e => e.2.identifier.text) = n.fieldNames := by
  obtain ⟨i, name, as, ps, children⟩ := n
  rw [Node.levels, Node.fieldNames, List.map_cons, names_levels (level + 1) children]
termination_by structural n

theorem names_levels (level : Nat) (ns : List Node) :
    ((levels level ns).map fun e => e.2.identifier.text) = fieldNames ns := by
  match ns with
  | [] => rw [levels, fieldNames, List.map_nil]
  | n :: ns =>
    rw [levels, fieldNames, List.map_append, Node.names_levels level n, names_levels level ns]
termination_by structural ns

end

theorem Node.length_levels (level : Nat) (n : Node) : (n.levels level).length = n.size := by
  rw [← n.length_fieldNames, ← n.names_levels level, List.length_map]

mutual

theorem Node.level_lt (level : Nat) (n : Node) : ∀ e ∈ n.levels level, e.1 < level + n.height := by
  obtain ⟨i, name, as, ps, children⟩ := n
  rw [Node.levels, Node.height, List.forall_mem_cons]
  refine ⟨by omega, fun e he => ?_⟩
  have := level_lt (level + 1) children e he
  omega
termination_by structural n

theorem level_lt (level : Nat) (ns : List Node) :
    ∀ e ∈ levels level ns, e.1 < level + height ns := by
  match ns with
  | [] =>
    rw [levels]
    exact List.forall_mem_nil _
  | n :: ns =>
    rw [levels, height, List.forall_mem_append]
    refine ⟨fun e he => ?_, fun e he => ?_⟩
    · have := Node.level_lt level n e he
      omega
    · have := level_lt level ns e he
      omega
termination_by structural ns

end

mutual

theorem Node.exists_level (level : Nat) (n : Node) :
    ∃ e ∈ n.levels level, e.1 + 1 = level + n.height := by
  obtain ⟨i, name, as, ps, children⟩ := n
  rw [Node.levels, Node.height]
  cases hc : children with
  | nil => exact ⟨_, List.mem_cons_self, by rw [height]⟩
  | cons c rest =>
    obtain ⟨e, he, hlevel⟩ := exists_level (level + 1) children (by simp [hc])
    rw [hc] at he hlevel
    exact ⟨e, List.mem_cons_of_mem _ he, by omega⟩
termination_by structural n

theorem exists_level (level : Nat) (ns : List Node) (h : ns ≠ []) :
    ∃ e ∈ levels level ns, e.1 + 1 = level + height ns := by
  match ns with
  | [] => exact absurd rfl h
  | n :: ns =>
    rw [levels, height]
    by_cases hmax : height ns ≤ n.height
    · obtain ⟨e, he, hlevel⟩ := Node.exists_level level n
      exact ⟨e, List.mem_append_left _ he, by omega⟩
    · have hne : ns ≠ [] := by
        rintro rfl
        rw [height] at hmax
        omega
      obtain ⟨e, he, hlevel⟩ := exists_level level ns hne
      exact ⟨e, List.mem_append_right _ he, by omega⟩
termination_by structural ns

end

/-- The height is the level of the deepest nodes, where the root is on the first one. -/
theorem Node.isGreatest_height (n : Node) :
    (∃ e ∈ n.levels 1, e.1 = n.height) ∧ ∀ e ∈ n.levels 1, e.1 ≤ n.height := by
  obtain ⟨e, he, hlevel⟩ := n.exists_level 1
  refine ⟨⟨e, he, by omega⟩, fun e he => ?_⟩
  have := n.level_lt 1 e he
  omega

end Graph

/-! Options. -/

/-- A bound that is given as a positive natural number, or the default without one. -/
inductive GivenBound (default : Nat) : Datum → Nat → Prop
  | absent : GivenBound default .absent default
  | number {x : Number} {n : Nat} (hx : x.toNat? = some n) (hn : 0 < n) :
    GivenBound default (.number x) n

/-- Names that are given as a list, or none. -/
inductive GivenNames : Datum → List Datum → Prop
  | absent : GivenNames .absent []
  | list (names : List Datum) : GivenNames (.list names) names

structure GivenLimits (options : Datum) (l : Limits) : Prop where
  maxDepth : GivenBound 10 (options.get "maxDepth") l.maxDepth
  maxFields : GivenBound 100 (options.get "maxFields") l.maxFields
  blocked : GivenNames (options.get "blockedFields") l.blocked

/-- The first option with a value that gives no limit. -/
inductive FirstRefused (options : Datum) : LimitOption → Prop
  | maxDepth (h : ∀ n, ¬ GivenBound 10 (options.get "maxDepth") n) : FirstRefused options .maxDepth
  | maxFields {n : Nat} (hd : GivenBound 10 (options.get "maxDepth") n)
    (h : ∀ n, ¬ GivenBound 100 (options.get "maxFields") n) : FirstRefused options .maxFields
  | blockedFields {n m : Nat} (hd : GivenBound 10 (options.get "maxDepth") n)
    (hf : GivenBound 100 (options.get "maxFields") m)
    (h : ∀ names, ¬ GivenNames (options.get "blockedFields") names) :
    FirstRefused options .blockedFields

namespace Limits

open GraphQuery.Graph

section
variable {o : LimitOption} {default n : Nat} {d : Datum}

theorem bound_eq_ok_iff : bound o default d = .ok n ↔ GivenBound default d n := by
  constructor
  · intro h
    unfold bound at h
    split at h
    · cases h
      exact .absent
    · split at h
      · next hx =>
        cases h
        exact .number hx (Nat.succ_pos _)
      · cases h
    · cases h
  · intro h
    cases h with
    | absent => rfl
    | number hx hn =>
      obtain ⟨k, rfl⟩ := Nat.exists_eq_add_one_of_ne_zero (Nat.ne_of_gt hn)
      rw [bound, hx]

theorem bound_eq_error {o' : LimitOption} (h : bound o default d = .error o') : o' = o := by
  unfold bound at h
  split at h
  · cases h
  · split at h
    · cases h
    · cases h
      rfl
  · cases h
    rfl

theorem blockedList_eq_ok_iff {names : List Datum} :
    blockedList d = .ok names ↔ GivenNames d names := by
  constructor
  · intro h
    unfold blockedList at h
    split at h
    · cases h
      exact .absent
    · cases h
      exact .list names
    · cases h
  · intro h
    cases h with
    | absent => rfl
    | list => rfl

theorem blockedList_eq_error (h : blockedList d = .error o) : o = .blockedFields := by
  unfold blockedList at h
  split at h
  · cases h
  · cases h
  · cases h
    rfl

end

theorem forall_not_of_error {ε α : Type} {x : Except ε α} {P : α → Prop}
    (hx : ∀ a, x = .ok a ↔ P a) {e : ε} (h : x = .error e) (a : α) : ¬ P a := by
  intro ha
  rw [(hx a).2 ha] at h
  cases h

section
variable {options : Datum}

theorem ofOptions_eq_ok_iff {l : Limits} : ofOptions options = .ok l ↔ GivenLimits options l := by
  simp only [ofOptions, bind_eq_ok, bound_eq_ok_iff, blockedList_eq_ok_iff]
  constructor
  · rintro ⟨n, hn, m, hm, names, hnames, h⟩
    cases h
    exact ⟨hn, hm, hnames⟩
  · rintro ⟨hn, hm, hnames⟩
    exact ⟨_, hn, _, hm, _, hnames, rfl⟩

theorem ofOptions_eq_error_iff {o : LimitOption} :
    ofOptions options = .error o ↔ FirstRefused options o := by
  rw [ofOptions]
  cases hd : bound .maxDepth 10 (options.get "maxDepth") with
  | error e =>
    obtain rfl := bound_eq_error hd
    have hn := forall_not_of_error (fun n => bound_eq_ok_iff) hd
    constructor
    · intro h
      cases h
      exact .maxDepth hn
    · intro h
      cases h with
      | maxDepth => rfl
      | maxFields hd => exact absurd hd (hn _)
      | blockedFields hd => exact absurd hd (hn _)
  | ok n =>
    have hd := bound_eq_ok_iff.1 hd
    cases hf : bound .maxFields 100 (options.get "maxFields") with
    | error e =>
      obtain rfl := bound_eq_error hf
      have hm := forall_not_of_error (fun m => bound_eq_ok_iff) hf
      constructor
      · intro h
        cases h
        exact .maxFields hd hm
      · intro h
        cases h with
        | maxDepth hn => exact absurd hd (hn n)
        | maxFields => rfl
        | blockedFields _ hf => exact absurd hf (hm _)
    | ok m =>
      have hf := bound_eq_ok_iff.1 hf
      cases hb : blockedList (options.get "blockedFields") with
      | error e =>
        obtain rfl := blockedList_eq_error hb
        have hnames := forall_not_of_error (fun names => blockedList_eq_ok_iff) hb
        constructor
        · intro h
          cases h
          exact .blockedFields hd hf hnames
        · intro h
          cases h with
          | maxDepth hn => exact absurd hd (hn n)
          | maxFields _ hm => exact absurd hf (hm m)
          | blockedFields => rfl
      | ok names =>
        have hb := blockedList_eq_ok_iff.1 hb
        constructor
        · intro h
          cases h
        · intro h
          cases h with
          | maxDepth hn => exact absurd hd (hn n)
          | maxFields _ hm => exact absurd hf (hm m)
          | blockedFields _ _ hnames => exact absurd hb (hnames names)

theorem checkLimits_eq_option_iff (g : Datum) {o : LimitOption} :
    checkLimits g options = .error (.option o) ↔ FirstRefused options o := by
  rw [← ofOptions_eq_error_iff]
  cases hl : ofOptions options with
  | error e => simp [checkLimits, hl, bind, Except.bind]
  | ok l =>
    by_cases hb : l.BlocksTexts
    · rw [checkLimits_of_blocksTexts hl hb]
      cases l.check g <;> simp
    · obtain ⟨d, hd⟩ := checkLimits_of_not_blocksTexts g hl hb
      simp [hd]

end

/-! Verdicts. -/

/-- The blocked names among those of a graph, in its order and as often as they come. -/
def blockedIn (l : Limits) (n : Node) : List String :=
  ((n.levels 1).map fun e => e.2.identifier.text).filter l.isBlocked

/-- What is found of a graph: how deep it is if that is too deep, how many nodes it has if they are
too many, and then its blocked names if it has any; nothing of it is in metadata. -/
structure Judges (l : Limits) (n : Node) (vs : List Violation) : Prop where
  found : ∃ depth, (∃ e ∈ n.levels 1, e.1 = depth) ∧ (∀ e ∈ n.levels 1, e.1 ≤ depth) ∧
    vs.map Violation.message =
      (if l.maxDepth < depth then
        ["Graph depth " ++ toString depth ++ " exceeds maximum of " ++ toString l.maxDepth]
        else []) ++
      (if l.maxFields < (n.levels 1).length then
        ["Graph has " ++ toString (n.levels 1).length ++ " fields, exceeding maximum of " ++
          toString l.maxFields]
        else []) ++
      if (l.blockedIn n).isEmpty then []
        else ["Graph contains blocked fields: " ++ ", ".intercalate (l.blockedIn n)]
  blocked : ∀ name, l.isBlocked name = true ↔
    ∃ b, Datum.string b ∈ l.blocked ∧ Text.lowercase name = Text.lowercase b
  valid : vs = [] ↔ (∀ e ∈ n.levels 1, e.1 ≤ l.maxDepth) ∧ (n.levels 1).length ≤ l.maxFields ∧
    ∀ e ∈ n.levels 1, ∀ b, Datum.string b ∈ l.blocked →
      Text.lowercase e.2.identifier.text ≠ Text.lowercase b

section
variable {l : Limits} {n : Node}

theorem isBlocked_iff {name : String} :
    l.isBlocked name = true ↔
      ∃ b, Datum.string b ∈ l.blocked ∧ Text.lowercase name = Text.lowercase b := by
  have hstring : ∀ (d : Datum) (b : String), d.string? = some b ↔ d = .string b := by
    intro d b
    cases d <;> simp [Datum.string?]
  rw [isBlocked, decide_eq_true_eq]
  simp only [blockedNames, List.mem_map, List.mem_filterMap, hstring]
  constructor
  · rintro ⟨b, ⟨d, hd, rfl⟩, hb⟩
    exact ⟨b, hd, hb.symm⟩
  · rintro ⟨b, hd, hb⟩
    exact ⟨b, ⟨_, hd, rfl⟩, hb.symm⟩

theorem violations_eq_nil_iff_levels :
    l.violations n = [] ↔
      (∀ e ∈ n.levels 1, e.1 ≤ l.maxDepth) ∧ (n.levels 1).length ≤ l.maxFields ∧
        ∀ e ∈ n.levels 1, ∀ b, Datum.string b ∈ l.blocked →
          Text.lowercase e.2.identifier.text ≠ Text.lowercase b := by
  obtain ⟨⟨e, he, hlevel⟩, hle⟩ := n.isGreatest_height
  have hdepth : n.height ≤ l.maxDepth ↔ ∀ e ∈ n.levels 1, e.1 ≤ l.maxDepth :=
    ⟨fun h e he => Nat.le_trans (hle e he) h,
      fun h => Nat.le_trans (Nat.le_of_eq hlevel.symm) (h e he)⟩
  have hnames : (∀ name ∈ n.fieldNames, l.isBlocked name = false) ↔
      ∀ e ∈ n.levels 1, ∀ b, Datum.string b ∈ l.blocked →
        Text.lowercase e.2.identifier.text ≠ Text.lowercase b := by
    simp only [← n.names_levels 1, List.forall_mem_map, ← Bool.not_eq_true, isBlocked_iff,
      not_exists, not_and, ne_eq]
  rw [violations_eq_nil_iff, hdepth, n.length_levels, hnames]

theorem map_message_violations :
    (l.violations n).map Violation.message =
      (if l.maxDepth < n.height then
        ["Graph depth " ++ toString n.height ++ " exceeds maximum of " ++ toString l.maxDepth]
        else []) ++
      (if l.maxFields < (n.levels 1).length then
        ["Graph has " ++ toString (n.levels 1).length ++ " fields, exceeding maximum of " ++
          toString l.maxFields]
        else []) ++
      if (l.blockedIn n).isEmpty then []
        else ["Graph contains blocked fields: " ++ ", ".intercalate (l.blockedIn n)] := by
  rw [violations, n.length_levels, blockedIn, n.names_levels]
  simp only [List.map_append]
  congr 1
  · congr 1
    · split <;> rfl
    · split <;> rfl
  · split <;> rfl

theorem judges_violations (l : Limits) (n : Node) : l.Judges n (l.violations n) := by
  obtain ⟨hmem, hle⟩ := n.isGreatest_height
  exact ⟨⟨n.height, hmem, hle, map_message_violations⟩, fun name => isBlocked_iff,
    violations_eq_nil_iff_levels⟩

end

theorem checkLimits_of_malformed {g options : Datum} {l : Limits} {m : Surface.Malformed}
    (hl : ofOptions options = .ok l) (hb : l.BlocksTexts) (h : Surface.readGraph g = .error m) :
    checkLimits g options = .ok [.malformed m] := by
  rw [checkLimits_of_blocksTexts hl hb, Surface.check_of_error l h]
  rfl

theorem checkLimits_of_describes {g options r : Datum} {l : Limits} {n : Node}
    (hl : ofOptions options = .ok l) (hb : l.BlocksTexts) (hr : Surface.readGraph g = .ok r)
    (hn : DescribesNode r n) : checkLimits g options = .ok (l.violations n) := by
  rw [checkLimits_of_outline hl hb hr hn.outlineOf?, violations_outline]

theorem readGraph_of_textOf_error {g : Datum} {m : Surface.Malformed}
    (h : textOf g = .error (.malformed m)) : Surface.readGraph g = .error m := by
  cases hr : Surface.readGraph g with
  | error e =>
    rw [Surface.textOf_of_error hr] at h
    cases h
    rfl
  | ok r =>
    rw [textOf, Node.ofDatum, hr] at h
    simp only [mapError_ok, bind, Except.bind, Node.ofRecord] at h
    split at h <;> cases h

/-- The check decides what it is said to. The first option that gives no limit is refused whatever
the graph is, and after it a blocked name that is no text. Under limits, a graph whose parts in
record form are described either is malformed, and the check says just that, or it has a text and
the check tells what there is too deep, too much or blocked among its nodes; metadata plays no part
in this. -/
theorem checkLimits_decides (g options : Datum) (hg : Surface.PartsDescribed g) :
    (∀ o, checkLimits g options = .error (.option o) ↔ FirstRefused options o) ∧
      ((∀ o, ¬ FirstRefused options o) → ∃ l, GivenLimits options l) ∧
      ∀ l, GivenLimits options l →
        ((∃ d ∈ l.blocked, ∀ name, d ≠ .string name) →
          ∃ d, checkLimits g options = .error (.blockedName d)) ∧
        ((∀ d ∈ l.blocked, ∃ name, d = .string name) →
          (∀ m, textOf g = .error (.malformed m) → checkLimits g options = .ok [.malformed m]) ∧
          ((∀ m, textOf g ≠ .error (.malformed m)) → ∃ r n vs, Surface.readGraph g = .ok r ∧
            DescribesNode r n ∧ textOf g = .ok n.text ∧ checkLimits g options = .ok vs ∧
            l.Judges n vs ∧
            ∀ g' r' n', Surface.readGraph g' = .ok r' → DescribesNode r' n' →
              n'.outline = n.outline → checkLimits g' options = .ok vs)) := by
  refine ⟨fun o => checkLimits_eq_option_iff g, fun h => ?_,
    fun l hl => ⟨fun hd => ?_, fun hb => ⟨fun m hm => ?_, fun h => ?_⟩⟩⟩
  · cases hl : ofOptions options with
    | error o => exact absurd (ofOptions_eq_error_iff.1 hl) (h o)
    | ok l => exact ⟨l, ofOptions_eq_ok_iff.1 hl⟩
  · obtain ⟨d, hd, hname⟩ := hd
    refine checkLimits_of_not_blocksTexts g (ofOptions_eq_ok_iff.2 hl) fun hb => ?_
    obtain ⟨name, rfl⟩ := hb d hd
    exact hname name rfl
  · exact checkLimits_of_malformed (ofOptions_eq_ok_iff.2 hl) hb (readGraph_of_textOf_error hm)
  · have hl := ofOptions_eq_ok_iff.2 hl
    cases hr : Surface.readGraph g with
    | error m => exact absurd (Surface.textOf_of_error hr) (h m)
    | ok r =>
      obtain ⟨n, hn⟩ := Surface.exists_describes_of_readGraph hg hr
      refine ⟨r, n, l.violations n, rfl, hn,
        Surface.textOf_of_readGraph hr (Surface.ofRecord_of_describes hn),
        checkLimits_of_describes hl hb hr hn, judges_violations l n, fun g' r' n' hr' hn' ho => ?_⟩
      rw [checkLimits_of_describes hl hb hr' hn', ← violations_outline, ho, violations_outline]

/-- A user with a password, found by a graph among the arguments that has one, too. -/
def userNode : Node :=
  ⟨.token "user", none, some [⟨"by", .graph (.plain (.token "password") [])⟩], none,
    [.plain (.token "PassWord") []]⟩

def singleOptions : Datum :=
  .record [("maxDepth", .number (.ofNat 1)), ("maxFields", .number (.ofNat 1)),
    ("blockedFields", .list [.string "password"])]

theorem partsDescribed_userNode : Surface.PartsDescribed userNode.toDatum := by
  have hw : userNode.WellFormed := by
    simp [userNode, Node.plain, wellFormed_node, Identifier.WellFormed, DistinctNames]
  have hparts := Surface.partsWellFormed_node userNode hw
  refine ⟨fun c hc hv => ?_, fun c hc hn => ?_⟩
  · obtain ⟨v, hv, -⟩ := hparts.value c hc hv
    exact ⟨v, hv⟩
  · obtain ⟨n, hn, -⟩ := hparts.node c hc hn
    exact ⟨n, hn⟩

/-- The user is too deep and too much, and its password is found in whatever letter case; the
password of the argument is none of its fields. -/
theorem checkLimits_userNode :
    Surface.PartsDescribed userNode.toDatum ∧
      ∃ vs, checkLimits userNode.toDatum singleOptions = .ok vs ∧
        vs.map Violation.message = ["Graph depth 2 exceeds maximum of 1",
          "Graph has 2 fields, exceeding maximum of 1",
          "Graph contains blocked fields: PassWord"] := by
  have hread := readGraph_toDatum userNode
  have htext : textOf userNode.toDatum = .ok userNode.text :=
    Surface.textOf_of_readGraph hread (Surface.ofRecord_of_describes userNode.describes_toDatum)
  have hl : GivenLimits singleOptions ⟨1, 1, [.string "password"]⟩ :=
    ⟨.number rfl Nat.one_pos, .number rfl Nat.one_pos, .list _⟩
  obtain ⟨-, -, hdecides⟩ := checkLimits_decides userNode.toDatum _ partsDescribed_userNode
  obtain ⟨r, n, vs, hr, hn, -, hvs, hjudges, -⟩ :=
    ((hdecides _ hl).2 (blocksTexts_singleton _ _ _)).2 fun m h => by rw [htext] at h; cases h
  obtain rfl : userNode.toDatum = r := Except.ok.inj (hread.symm.trans hr)
  obtain rfl : userNode = n := Option.some.inj (userNode.nodeOf?_toDatum.symm.trans hn.nodeOf?)
  obtain ⟨depth, ⟨e, he, rfl⟩, hle, hmessages⟩ := hjudges.found
  have hlevels : userNode.levels 1 = [(1, userNode), (2, .plain (.token "PassWord") [])] := by
    simp [userNode, Node.plain, Node.levels, levels]
  have hdepth : e.1 = 2 := by
    rw [hlevels] at he hle
    have := hle (2, .plain (.token "PassWord") []) (by simp)
    simp only [List.mem_cons, List.not_mem_nil, or_false] at he
    rcases he with rfl | rfl <;> omega
  refine ⟨partsDescribed_userNode, vs, hvs, ?_⟩
  rw [hmessages, hdepth, blockedIn, hlevels]
  decide

end Limits

end GraphQuery
