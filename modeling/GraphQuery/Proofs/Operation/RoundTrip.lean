import GraphQuery.Proofs.Operation.Reading

/-! Operations on plain trees: the text is a document unless a list of arguments is empty, and the
document is the tree. -/
namespace GraphQuery

open Document (isName isLineEnd Selection)

namespace Graph

/-- A head that is written as a name, and is no number. -/
def Identifier.Plain : Identifier → Prop
  | .number _ => False
  | i => isName i.text = true

mutual

/-- A value that is written as it is meant: without delimiters and line ends in its texts, and
without graphs. -/
def Value.Plain : Value → Prop
  | .token s => isName s = true
  | .variable s => isName s = true
  | .object fields => PlainArguments fields
  | .string s => '"' ∉ s.toList ∧ '\\' ∉ s.toList ∧ s.toList.any isLineEnd = false
  | .number n => n.isFinite = true
  | .graph _ => False

def Argument.Plain : Argument → Prop
  | ⟨name, v⟩ => isName name = true ∧ v.Plain

def PlainArguments : List Argument → Prop
  | [] => True
  | a :: rest => a.Plain ∧ PlainArguments rest

end

mutual

/-- A tree of fields with arguments, without quoted names and declarations. -/
def Node.Plain : Node → Prop
  | ⟨i, name, args, ps, children⟩ =>
    i.Plain ∧ name = none ∧ (∀ as ∈ args, PlainArguments as) ∧ ps = none ∧ PlainNodes children

def PlainNodes : List Node → Prop
  | [] => True
  | n :: rest => n.Plain ∧ PlainNodes rest

end

mutual

/-- A tree of fields as with `Node.Plain`, whose heads are whatever is written as a name. -/
def Node.Named : Node → Prop
  | ⟨i, name, args, ps, children⟩ =>
    isName i.text = true ∧ name = none ∧ (∀ as ∈ args, PlainArguments as) ∧ ps = none ∧
      NamedNodes children

def NamedNodes : List Node → Prop
  | [] => True
  | n :: rest => n.Named ∧ NamedNodes rest

end

mutual

/-- Whether a node, or one below it, has a list of arguments without arguments. -/
def Node.hasEmptyArguments : Node → Bool
  | ⟨_, _, args, _, children⟩ => args.any List.isEmpty || haveEmptyArguments children

def haveEmptyArguments : List Node → Bool
  | [] => false
  | n :: rest => n.hasEmptyArguments || haveEmptyArguments rest

end

theorem Identifier.Plain.isName {i : Identifier} (h : i.Plain) : isName i.text = true := by
  cases i with
  | number n => exact absurd h id
  | _ => exact h

theorem exists_numberMeaning {n : Number} (h : n.isFinite = true) :
    ∃ v, numberMeaning? n = some v := by
  cases n with
  | finite s m e hc => exact ⟨_, rfl⟩
  | _ => cases h

/-! What is plain is safe, and its values all mean something. -/

mutual

theorem Value.Plain.safe (v : Value) (h : v.Plain) : v.Safe ∧ ∃ w, v.meaning? = some w := by
  rcases v with s | s | as | s | n | n
  · rw [Value.Plain] at h
    rw [Value.Safe, Value.meaning?]
    exact ⟨h, _, rfl⟩
  · rw [Value.Plain] at h
    rw [Value.Safe, Value.meaning?]
    exact ⟨h, _, rfl⟩
  · rw [Value.Plain] at h
    obtain ⟨hs, hm⟩ := PlainArguments.safe as h
    obtain ⟨fs, hf⟩ := exists_mapM hm
    rw [Value.Safe, Value.meaning?, fieldMeanings?_eq_mapM, hf]
    exact ⟨hs, _, rfl⟩
  · rw [Value.Plain] at h
    rw [Value.Safe, Value.meaning?, if_neg (by simp [h.2.2])]
    exact ⟨⟨h.1, h.2.1⟩, _, rfl⟩
  · rw [Value.Plain] at h
    rw [Value.Safe, Value.meaning?]
    exact ⟨trivial, exists_numberMeaning h⟩
  · rw [Value.Plain] at h
    exact absurd h id
termination_by structural v

theorem Argument.Plain.safe (a : Argument) (h : a.Plain) : a.Safe ∧ ∃ f, a.meaning? = some f := by
  obtain ⟨name, v⟩ := a
  rw [Argument.Plain] at h
  obtain ⟨hs, w, hw⟩ := Value.Plain.safe v h.2
  rw [Argument.Safe, Argument.meaning?, hw]
  exact ⟨⟨h.1, hs⟩, _, rfl⟩
termination_by structural a

theorem PlainArguments.safe (as : List Argument) (h : PlainArguments as) :
    SafeArguments as ∧ ∀ a ∈ as, ∃ f, a.meaning? = some f := by
  match as with
  | [] =>
    rw [SafeArguments]
    exact ⟨trivial, fun a ha => absurd ha (by simp)⟩
  | a :: as =>
    rw [PlainArguments] at h
    obtain ⟨ha, hm⟩ := Argument.Plain.safe a h.1
    obtain ⟨hs, hms⟩ := PlainArguments.safe as h.2
    rw [SafeArguments]
    exact ⟨⟨ha, hs⟩, List.forall_mem_cons.2 ⟨hm, hms⟩⟩
termination_by structural as

end

/-- Arguments in parentheses mean something unless there are none. -/
theorem isSome_argumentMeanings? (args : Option (List Argument))
    (h : ∀ as ∈ args, PlainArguments as) :
    (argumentMeanings? args).isSome = !args.any List.isEmpty := by
  rcases args with _ | _ | ⟨a, as⟩
  · rfl
  · rfl
  · have hm := (PlainArguments.safe (a :: as) (h _ rfl)).2
    have ht : ∀ b ∈ a :: as, ∃ c, b.toArgument? = some c := fun b hb => by
      obtain ⟨f, hf⟩ := hm b hb
      exact ⟨⟨f.1, f.2⟩, by rw [Argument.toArgument?, hf]; rfl⟩
    obtain ⟨bs, hbs⟩ := exists_mapM ht
    rw [argumentMeanings?, hbs]
    · rfl
    · simp

mutual

theorem Node.Named.safe (n : Node) (h : n.Named) :
    n.Safe ∧ n.meaning?.isSome = !n.hasEmptyArguments := by
  obtain ⟨i, name, args, ps, children⟩ := n
  rw [Node.Named] at h
  obtain ⟨hi, rfl, ha, rfl, hn⟩ := h
  obtain ⟨hs, hm⟩ := NamedNodes.safe children hn
  have hargs := isSome_argumentMeanings? args ha
  constructor
  · rw [Node.Safe]
    exact ⟨Or.inl hi, fun as has => (PlainArguments.safe as (ha as has)).1, hs⟩
  · rw [Node.meaning?, if_pos hi, Node.hasEmptyArguments, Bool.not_or, ← hargs, ← hm]
    cases argumentMeanings? args <;> cases nodeMeanings? children <;> rfl
termination_by structural n

theorem NamedNodes.safe (ns : List Node) (h : NamedNodes ns) :
    SafeNodes ns ∧ (nodeMeanings? ns).isSome = !haveEmptyArguments ns := by
  match ns with
  | [] =>
    rw [SafeNodes, nodeMeanings?, haveEmptyArguments]
    exact ⟨trivial, rfl⟩
  | n :: ns =>
    rw [NamedNodes] at h
    obtain ⟨hs, hm⟩ := Node.Named.safe n h.1
    obtain ⟨hss, hms⟩ := NamedNodes.safe ns h.2
    rw [SafeNodes, nodeMeanings?, haveEmptyArguments, Bool.not_or, ← hm, ← hms]
    refine ⟨⟨hs, hss⟩, ?_⟩
    cases n.meaning? <;> cases nodeMeanings? ns <;> rfl
termination_by structural ns

end

mutual

theorem Node.Plain.named (n : Node) (h : n.Plain) : n.Named := by
  obtain ⟨i, name, args, ps, children⟩ := n
  rw [Node.Plain] at h
  obtain ⟨hi, hname, ha, hps, hn⟩ := h
  rw [Node.Named]
  exact ⟨hi.isName, hname, ha, hps, PlainNodes.named children hn⟩
termination_by structural n

theorem PlainNodes.named (ns : List Node) (h : PlainNodes ns) : NamedNodes ns := by
  match ns with
  | [] => rw [NamedNodes]; trivial
  | n :: ns =>
    rw [PlainNodes] at h
    rw [NamedNodes]
    exact ⟨Node.Plain.named n h.1, PlainNodes.named ns h.2⟩
termination_by structural ns

end

theorem Node.Plain.safe (n : Node) (h : n.Plain) :
    n.Safe ∧ n.meaning?.isSome = !n.hasEmptyArguments := Node.Named.safe n (Node.Plain.named n h)

end Graph

namespace Operation

open GraphQuery.Graph

/-- The text of an operation on a plain tree is a document exactly if no list of arguments in the
tree is empty, and the document then has the one field that the tree means. -/
theorem check_textOf_plain (o : Operation) (g : Datum) (n : Node) (hg : selected? g = some n)
    (hp : n.Plain) :
    ∃ text, o.textOf [g] = .ok text ∧
      ((∃ doc, Document.check (.string text) = .ok doc) ↔ n.hasEmptyArguments = false) ∧
      ∀ doc, Document.check (.string text) = .ok doc →
        ∃ field, n.meaning? = some field ∧
          doc = ⟨[.operation ⟨none, o.kind, none, [], [], [field]⟩]⟩ := by
  obtain ⟨hs, hm⟩ := Node.Plain.safe n hp
  refine ⟨_, (textOf_singleton o g _).2 ⟨n, hg, rfl⟩, ?_, ?_⟩
  · simp only [check_under o hs]
    constructor
    · rintro ⟨doc, field, hf, -⟩
      rw [hf] at hm
      simpa using hm.symm
    · intro he
      rw [he] at hm
      obtain ⟨field, hf⟩ := Option.isSome_iff_exists.1 hm
      exact ⟨_, field, hf, rfl⟩
  · intro doc hd
    exact (check_under o hs doc).1 hd

/-- A user with arguments of which four are words, and a field below it. -/
def activeUser : Node :=
  ⟨.aliased "user" "u", none, some [⟨"id", .string "a b"⟩, ⟨"active", .token "true"⟩,
    ⟨"banned", .token "false"⟩, ⟨"team", .token "null"⟩, ⟨"role", .token "ADMIN"⟩,
    ⟨"at", .object [⟨"day", .variable "day"⟩]⟩], none, [.plain (.token "name") []]⟩

/-- Three of the words are values of their own, and the fourth is one of an enumeration. -/
theorem check_textOf_user :
    ∃ text, query.textOf [activeUser.toDatum] = .ok text ∧
      text = "query\x7buser(id:\"a b\",active:true,banned:false,team:null,role:ADMIN," ++
        "at:\x7bday:$day\x7d)\x7bname\x7d\x7d" ∧
      Document.check (.string text) =
        .ok ⟨[.operation ⟨none, .query, none, [], [], [.field none "user"
          [⟨"id", .string "a b" false⟩, ⟨"active", .boolean true⟩, ⟨"banned", .boolean false⟩,
            ⟨"team", .null⟩, ⟨"role", .enumeration "ADMIN"⟩,
            ⟨"at", .object [("day", .variable "day")]⟩] []
          (some [.field none "name" [] [] none])]⟩]⟩ := by
  have hp : activeUser.Plain := by
    simp [activeUser, Node.Plain, PlainNodes, Identifier.Plain, Identifier.text, PlainArguments,
      Argument.Plain, Value.Plain, Node.plain]
    decide
  have hg := selected?_of_readGraph (readGraph_toDatum activeUser)
  obtain ⟨text, htext, hvalid, hdoc⟩ := check_textOf_plain .query _ _ hg hp
  obtain ⟨doc, hcheck⟩ := hvalid.2 rfl
  obtain ⟨field, hfield, rfl⟩ := hdoc doc hcheck
  cases hfield
  obtain ⟨n, hn, rfl⟩ := (textOf_singleton query _ text).1 htext
  obtain rfl : activeUser = n := Option.some.inj (hg.symm.trans hn)
  exact ⟨_, htext, by decide, hcheck⟩

end Operation
end GraphQuery
