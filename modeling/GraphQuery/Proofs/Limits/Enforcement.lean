import GraphQuery.Proofs.Graph.Outline
import GraphQuery.Proofs.Operation.Reading

/-! What a graph is checked for against what its text selects. For a safe graph the two agree: the
fields of the document are the nodes that were checked. -/
namespace GraphQuery

open Document (Selection Definition)

namespace Document

mutual

/-- The greatest number of selections on a way down. -/
def Selection.depth : Selection → Nat
  | .field _ _ _ _ none => 1
  | .field _ _ _ _ (some selections) => depth selections + 1
  | .spread _ _ => 1
  | .inline _ _ selections => depth selections + 1

def depth : List Selection → Nat
  | [] => 0
  | s :: rest => max s.depth (depth rest)

end

mutual

def Selection.fieldNames : Selection → List String
  | .field _ name _ _ none => [name]
  | .field _ name _ _ (some selections) => name :: fieldNames selections
  | .spread _ _ => []
  | .inline _ _ selections => fieldNames selections

def fieldNames : List Selection → List String
  | [] => []
  | s :: rest => s.fieldNames ++ fieldNames rest

end

theorem depth_field (x : String) (args : List Argument) (ss : List Selection) :
    (Selection.field none x args [] (Graph.selectionSet? ss)).depth = depth ss + 1 := by
  cases ss with
  | nil => rw [Graph.selectionSet?, Selection.depth, depth]
  | cons s ss =>
    rw [Graph.selectionSet?, Selection.depth]
    simp

theorem fieldNames_field (x : String) (args : List Argument) (ss : List Selection) :
    (Selection.field none x args [] (Graph.selectionSet? ss)).fieldNames = x :: fieldNames ss := by
  cases ss with
  | nil => rw [Graph.selectionSet?, Selection.fieldNames, fieldNames]
  | cons s ss =>
    rw [Graph.selectionSet?, Selection.fieldNames]
    simp

end Document

namespace Graph

theorem exists_of_meaning? {i : Identifier} {name : Option String}
    {args : Option (List Argument)} {ps : Option (List Parameter)} {children : List Node}
    {s : Selection} (h : (Node.mk i name args ps children).meaning? = some s) :
    ∃ as ss, nodeMeanings? children = some ss ∧
      s = .field none i.text as [] (selectionSet? ss) := by
  rcases name with _ | x
  · rcases ps with _ | qs
    · rw [Node.meaning?] at h
      split at h
      · obtain ⟨as, -, h⟩ := Option.bind_eq_some_iff.1 h
        obtain ⟨ss, hs, h⟩ := Option.bind_eq_some_iff.1 h
        cases h
        exact ⟨as, ss, hs, rfl⟩
      · cases h
    · simp [Node.meaning?] at h
  · simp [Node.meaning?] at h

mutual

/-- The field that a node means is as deep as the node and has the same names below it. -/
theorem Node.extent_eq (n : Node) {s : Selection} (h : n.meaning? = some s) :
    s.depth = n.height ∧ s.fieldNames = n.fieldNames := by
  obtain ⟨i, name, args, ps, children⟩ := n
  obtain ⟨as, ss, hss, rfl⟩ := exists_of_meaning? h
  obtain ⟨hd, hf⟩ := extents_eq children hss
  rw [Document.depth_field, Document.fieldNames_field, Node.height, Node.fieldNames, hd, hf]
  exact ⟨rfl, rfl⟩
termination_by structural n

theorem extents_eq (ns : List Node) {ss : List Selection} (h : nodeMeanings? ns = some ss) :
    Document.depth ss = height ns ∧ Document.fieldNames ss = fieldNames ns := by
  match ns with
  | [] =>
    rw [nodeMeanings?] at h
    cases h
    exact ⟨rfl, rfl⟩
  | n :: ns =>
    rw [nodeMeanings?] at h
    obtain ⟨s, hs, h⟩ := Option.bind_eq_some_iff.1 h
    obtain ⟨ss', hss, h⟩ := Option.bind_eq_some_iff.1 h
    cases h
    obtain ⟨hd, hf⟩ := Node.extent_eq n hs
    obtain ⟨hds, hfs⟩ := extents_eq ns hss
    rw [Document.depth, Document.fieldNames, height, fieldNames, hd, hds, hf, hfs]
    exact ⟨rfl, rfl⟩
termination_by structural ns

end

end Graph

namespace Limits

open GraphQuery.Graph

theorem violations_eq_nil_iff {l : Limits} {n : Node} :
    l.violations n = [] ↔
      n.height ≤ l.maxDepth ∧ n.size ≤ l.maxFields ∧
        ∀ name ∈ n.fieldNames, l.isBlocked name = false := by
  have hd : (if l.maxDepth < n.height then [Violation.depth n.height l.maxDepth] else []) = [] ↔
      n.height ≤ l.maxDepth := by
    split <;> simp <;> omega
  have hf : (if l.maxFields < n.size then [Violation.fields n.size l.maxFields] else []) = [] ↔
      n.size ≤ l.maxFields := by
    split <;> simp <;> omega
  have hb : (if (n.fieldNames.filter l.isBlocked).isEmpty then []
      else [Violation.blocked (n.fieldNames.filter l.isBlocked)]) = [] ↔
      ∀ name ∈ n.fieldNames, l.isBlocked name = false := by
    split
    · next he =>
      rw [List.isEmpty_iff, List.filter_eq_nil_iff] at he
      simpa using he
    · next he =>
      rw [List.isEmpty_iff, List.filter_eq_nil_iff] at he
      simpa using he
  simp only [violations, List.append_eq_nil_iff, hd, hf, hb, and_assoc]

theorem violations_outline (l : Limits) (n : Node) : l.violations n.outline = l.violations n := by
  simp only [violations, Node.height_outline, Node.size_outline, Node.fieldNames_outline]

theorem exists_outline_of_check {g d : Datum} {l : Limits} (hr : Surface.readGraph g = .ok d)
    (h : l.check g = .ok []) : ∃ m, outlineOf? d = some m ∧ l.violations m = [] := by
  rw [check, Node.outlineOfDatum, hr] at h
  simp only [mapError_ok, bind, Except.bind] at h
  cases hm : outlineOf? d with
  | none =>
    rw [hm] at h
    cases h
  | some m =>
    rw [hm] at h
    exact ⟨m, rfl, Except.ok.inj h⟩

/-- The names to be refused are texts. -/
def BlocksTexts (l : Limits) : Prop := ∀ d ∈ l.blocked, ∃ name, d = .string name

section
variable {g options : Datum} {l : Limits}

theorem find?_blocked_eq_none_iff : l.blocked.find? (!·.isString) = none ↔ l.BlocksTexts := by
  rw [List.find?_eq_none, BlocksTexts]
  refine forall₂_congr fun d _ => ?_
  cases d <;> simp [Datum.isString, Datum.string?]

theorem checkLimits_of_blocksTexts (hl : ofOptions options = .ok l) (hb : l.BlocksTexts) :
    checkLimits g options = (l.check g).mapError LimitFault.graph := by
  rw [checkLimits, hl]
  simp only [mapError_ok, bind, Except.bind, find?_blocked_eq_none_iff.2 hb]

theorem checkLimits_of_not_blocksTexts (g : Datum) (hl : ofOptions options = .ok l)
    (hb : ¬l.BlocksTexts) :
    ∃ d, checkLimits g options = .error (.blockedName d) := by
  cases hd : l.blocked.find? (!·.isString) with
  | none => exact absurd (find?_blocked_eq_none_iff.1 hd) hb
  | some d =>
    rw [checkLimits, hl]
    simp only [mapError_ok, bind, Except.bind, hd]
    exact ⟨d, rfl⟩

theorem check_of_checkLimits (hl : ofOptions options = .ok l) {vs : List Violation}
    (h : checkLimits g options = .ok vs) : l.BlocksTexts ∧ l.check g = .ok vs := by
  by_cases hb : l.BlocksTexts
  · rw [checkLimits_of_blocksTexts hl hb] at h
    exact ⟨hb, mapError_eq_ok.1 h⟩
  · obtain ⟨d, hd⟩ := checkLimits_of_not_blocksTexts g hl hb
    rw [hd] at h
    cases h

end

theorem of_checkLimits {g options : Datum} {l : Limits} {n : Node}
    (hl : ofOptions options = .ok l) (hc : checkLimits g options = .ok [])
    (hg : selected? g = some n) :
    n.height ≤ l.maxDepth ∧ n.size ≤ l.maxFields ∧
      ∀ name ∈ n.fieldNames, l.isBlocked name = false := by
  obtain ⟨d, m, hr, hm, rfl⟩ := exists_of_selected? hg
  have hcheck := (check_of_checkLimits hl hc).2
  obtain ⟨o, ho, hv⟩ := exists_outline_of_check hr hcheck
  rw [outline_eq d ho hm] at hv
  rw [amongOthers_of_headIsText (children_of_outlineOf? ho).1]
  obtain ⟨hheight, hsize, hblocked⟩ := violations_eq_nil_iff.1 hv
  rw [Node.height_outline] at hheight
  rw [Node.size_outline] at hsize
  rw [Node.fieldNames_outline] at hblocked
  exact ⟨hheight, hsize, hblocked⟩

theorem checkLimits_of_outline {g options d : Datum} {m : Node} {l : Limits}
    (hl : ofOptions options = .ok l) (hb : l.BlocksTexts) (hr : Surface.readGraph g = .ok d)
    (hm : outlineOf? d = some m) : checkLimits g options = .ok (l.violations m) := by
  have ho : Node.outlineOfDatum g = .ok m := by
    simp only [Node.outlineOfDatum, hr, mapError_ok, bind, Except.bind, hm]
    rfl
  rw [checkLimits_of_blocksTexts hl hb, check, ho]
  rfl

theorem checkLimits_of_readGraph {g options : Datum} {n : Node} {l : Limits}
    (hl : ofOptions options = .ok l) (hb : l.BlocksTexts)
    (h : Surface.readGraph g = .ok n.toDatum) :
    checkLimits g options = .ok (l.violations n.outline) :=
  checkLimits_of_outline hl hb h n.outlineOf?_toDatum

/-- What a safe graph was checked for is what its text selects: if the graph passes and the text of
the query is a document, the document is one query of one field, which keeps the limits. -/
theorem enforced_of_safe (g options : Datum) (l : Limits) (n : Node) (text : String)
    (doc : Document) (hl : ofOptions options = .ok l) (hc : checkLimits g options = .ok [])
    (ht : Operation.query.textOf [g] = .ok text) (hd : Document.check (.string text) = .ok doc)
    (hg : selected? g = some n) (hs : n.Safe) :
    ∃ field, doc = ⟨[.operation ⟨none, .query, none, [], [], [field]⟩]⟩ ∧
      Document.depth [field] ≤ l.maxDepth ∧
      (Document.fieldNames [field]).length ≤ l.maxFields ∧
      ∀ name ∈ Document.fieldNames [field], ∀ b, Datum.string b ∈ l.blocked →
        Text.lowercase name ≠ Text.lowercase b := by
  obtain ⟨n', hg', rfl⟩ := (Operation.textOf_singleton .query g text).1 ht
  obtain rfl : n = n' := Option.some.inj (hg.symm.trans hg')
  obtain ⟨field, hf, hdoc⟩ := (Operation.check_under .query hs doc).1 hd
  obtain ⟨hheight, hsize, hblocked⟩ := of_checkLimits hl hc hg
  obtain ⟨hdepth, hnames⟩ := Node.extent_eq n hf
  have hds : Document.depth [field] = n.height := by
    rw [Document.depth, Document.depth, hdepth, Nat.max_zero]
  have hfs : Document.fieldNames [field] = n.fieldNames := by
    rw [Document.fieldNames, Document.fieldNames, hnames, List.append_nil]
  refine ⟨field, hdoc, ?_⟩
  rw [hds, hfs, Node.length_fieldNames]
  refine ⟨hheight, hsize, fun name hn b hb he => ?_⟩
  have hnot := hblocked name hn
  have hmem : Text.lowercase name ∈ l.blockedNames := by
    rw [he]
    exact List.mem_map_of_mem (List.mem_filterMap.2 ⟨_, hb, rfl⟩)
  rw [isBlocked, decide_eq_false_iff_not] at hnot
  exact hnot hmem

/-- Limits that leave just enough room for a field and one below it. -/
def tightOptions : Datum :=
  .record [("maxDepth", .number (.ofNat 2)), ("maxFields", .number (.ofNat 2)),
    ("blockedFields", .list [.string "PassWord"])]

theorem ofOptions_tightOptions : ofOptions tightOptions = .ok ⟨2, 2, [.string "PassWord"]⟩ := rfl

theorem blocksTexts_singleton (depth fields : Nat) (name : String) :
    BlocksTexts ⟨depth, fields, [.string name]⟩ :=
  List.forall_mem_singleton.2 ⟨name, rfl⟩

/-- A user and its name pass the check, and nothing else is in the document. -/
theorem enforced_of_user :
    checkLimits (Node.plain (.token "user") [.plain (.token "name") []]).toDatum tightOptions =
        .ok [] ∧
      Operation.query.textOf [(Node.plain (.token "user") [.plain (.token "name") []]).toDatum] =
        .ok "query\x7buser\x7bname\x7d\x7d" ∧
      ∃ field, Document.check (.string "query\x7buser\x7bname\x7d\x7d") =
          .ok ⟨[.operation ⟨none, .query, none, [], [], [field]⟩]⟩ ∧
        field = .field none "user" [] [] (some [.field none "name" [] [] none]) ∧
        Document.depth [field] ≤ 2 ∧ (Document.fieldNames [field]).length ≤ 2 ∧
        ∀ name ∈ Document.fieldNames [field], Text.lowercase name ≠ "password" := by
  have hs : (Node.plain (.token "user") [.plain (.token "name") []]).Safe := by
    simp [Node.plain, Node.Safe, SafeNodes, Identifier.Safe, Identifier.text]
    decide
  have hread := readGraph_toDatum (.plain (.token "user") [.plain (.token "name") []])
  have hg := selected?_of_readGraph hread
  have hc := checkLimits_of_readGraph ofOptions_tightOptions (blocksTexts_singleton _ _ _) hread
  rw [violations_eq_nil_iff.2 ⟨by decide, by decide, by decide⟩] at hc
  have ht := (Operation.textOf_singleton .query _ _).2 ⟨_, hg, rfl⟩
  have hd := (Operation.check_under .query hs _).2 ⟨_, rfl, rfl⟩
  have htext : ((Node.plain (.token "user") [.plain (.token "name") []]).under .query).text =
      "query\x7buser\x7bname\x7d\x7d" := by decide
  obtain ⟨field, hdoc, hdepth, hsize, hblocked⟩ :=
    enforced_of_safe _ _ _ _ _ _ ofOptions_tightOptions hc ht hd hg hs
  have hlower : Text.lowercase "PassWord" = "password" := by decide
  cases hdoc
  rw [htext] at ht hd
  refine ⟨hc, ht, _, hd, rfl, hdepth, hsize, fun name hn => ?_⟩
  rw [← hlower]
  exact hblocked name hn "PassWord" (List.mem_singleton_self _)

/-- A query with a head that holds a selection of its own: the one name that is checked is no
blocked one, and the blocked field is in the document. -/
theorem blocked_field_selected :
    checkLimits (.string "user\x7bpassword\x7d")
        (.record [("blockedFields", .list [.string "password"])]) = .ok [] ∧
      Operation.query.textOf [.string "user\x7bpassword\x7d"] =
        .ok "query\x7buser\x7bpassword\x7d\x7d" ∧
      Document.check (.string "query\x7buser\x7bpassword\x7d\x7d") =
        .ok ⟨[.operation ⟨none, .query, none, [], [],
          [.field none "user" [] [] (some [.field none "password" [] [] none])]⟩]⟩ ∧
      "password" ∈ Document.fieldNames
        [.field none "user" [] [] (some [.field none "password" [] [] none])] := by
  have hread := readGraph_string "user\x7bpassword\x7d"
  refine ⟨?_, ?_, ?_, ?_⟩
  · have hl : ofOptions (.record [("blockedFields", .list [.string "password"])]) =
        .ok ⟨10, 100, [.string "password"]⟩ := rfl
    rw [checkLimits_of_readGraph hl (blocksTexts_singleton _ _ _) hread, violations_eq_nil_iff.2]
    exact ⟨by decide, by decide, by decide⟩
  · exact (Operation.textOf_singleton .query _ _).2 ⟨_, selected?_of_readGraph hread, by decide⟩
  · have hs : (Node.plain (.token "user") [.plain (.token "password") []]).Safe := by
      simp [Node.plain, Node.Safe, SafeNodes, Identifier.Safe, Identifier.text]
      decide
    have ht : "query\x7buser\x7bpassword\x7d\x7d" =
        ((Node.plain (.token "user") [.plain (.token "password") []]).under .query).text := by
      decide
    rw [ht]
    exact (Operation.check_under .query hs _).2 ⟨_, rfl, rfl⟩
  · simp [Document.fieldNames, Selection.fieldNames]

end Limits
end GraphQuery
