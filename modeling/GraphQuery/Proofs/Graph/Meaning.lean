import GraphQuery.Document.Parser
import GraphQuery.Graph.Text
import GraphQuery.Proofs.Document.Word

/-! What the text of a graph is as part of a query document, if it is part of one: nodes are
fields and values are input values. A graph is safe if no text within it can be taken for more
than the one token or string it is meant to be. -/
namespace GraphQuery.Graph

open Document (isName isLineEnd)

/-- What a word stands for where a value is expected: three words stand for values of their own,
and any other is a value of an enumeration. -/
def wordMeaning (word : String) : Document.Value :=
  if word = "true" then .boolean true
  else if word = "false" then .boolean false
  else if word = "null" then .null
  else .enumeration word

theorem namedValue_eq (word : String) : Document.Parser.namedValue word = wordMeaning word := by
  unfold Document.Parser.namedValue
  split
  · rfl
  · rfl
  · rfl
  · next htrue hfalse hnull => rw [wordMeaning, if_neg htrue, if_neg hfalse, if_neg hnull]

def isIntText (cs : List Char) : Bool := cs.all fun c => c.isDigit || c == '-'

/-- A number that is not finite is written as a name, but for the one that has a sign. -/
def numberMeaning? (n : Number) : Option Document.Value :=
  match n with
  | .finite .. => some (if isIntText n.chars then .int n.text else .float n.text)
  | .infinite true => none
  | _ => some (.enumeration n.text)

def Identifier.meaning? : Identifier → Option Document.Value
  | .number n => numberMeaning? n
  | i => some (wordMeaning i.text)

mutual

/-- A graph as a value comes to its head, and only if it is nothing else. -/
def Value.meaning? : Value → Option Document.Value
  | .token s => some (wordMeaning s)
  | .variable s => some (.variable s)
  | .object fields => (fieldMeanings? fields).map .object
  | .string s => if s.toList.any isLineEnd then none else some (.string s false)
  | .number n => numberMeaning? n
  | .graph n => if n.isBare then n.identifier.meaning? else none

def Argument.meaning? : Argument → Option (String × Document.Value)
  | ⟨name, v⟩ => v.meaning?.map (name, ·)

def fieldMeanings? : List Argument → Option (List (String × Document.Value))
  | [] => some []
  | a :: rest => do
    let f ← a.meaning?
    let fs ← fieldMeanings? rest
    return f :: fs

end

@[simp] theorem fieldMeanings?_eq_mapM (args : List Argument) :
    fieldMeanings? args = args.mapM Argument.meaning? := by
  induction args with
  | nil => simp [fieldMeanings?]
  | cons a args ih => rw [fieldMeanings?, ih, List.mapM_cons]

def Argument.toArgument? (a : Argument) : Option Document.Argument :=
  a.meaning?.map fun f => ⟨f.1, f.2⟩

/-- A list of arguments that is written may not be empty. -/
def argumentMeanings? : Option (List Argument) → Option (List Document.Argument)
  | none => some []
  | some [] => none
  | some args => args.mapM Argument.toArgument?

/-- Selections in braces, which are left out if there are none. -/
def selectionSet? : List Document.Selection → Option (List Document.Selection)
  | [] => none
  | selections => some selections

mutual

/-- A node is a field under its own name. There is no field with a quoted name, with declarations
of variables or with a number for its name. -/
def Node.meaning? : Node → Option Document.Selection
  | ⟨i, none, args, none, children⟩ =>
    if isName i.text then do
      let args ← argumentMeanings? args
      let selections ← nodeMeanings? children
      return .field none i.text args [] (selectionSet? selections)
    else none
  | _ => none

def nodeMeanings? : List Node → Option (List Document.Selection)
  | [] => some []
  | n :: rest => do
    let s ← n.meaning?
    let ss ← nodeMeanings? rest
    return s :: ss

end

@[simp] theorem nodeMeanings?_eq_mapM (ns : List Node) :
    nodeMeanings? ns = ns.mapM Node.meaning? := by
  induction ns with
  | nil => simp [nodeMeanings?]
  | cons n ns ih => rw [nodeMeanings?, ih, List.mapM_cons]

mutual

/-- Values without variables. -/
def Value.Constant : Value → Prop
  | .variable _ => False
  | .object fields => ConstantArguments fields
  | .token _ | .string _ | .number _ | .graph _ => True

def Argument.Constant : Argument → Prop
  | ⟨_, v⟩ => v.Constant

def ConstantArguments : List Argument → Prop
  | [] => True
  | a :: rest => a.Constant ∧ ConstantArguments rest

end

/-- A head is written as a name, or is a number. -/
def Identifier.Safe (i : Identifier) : Prop := isName i.text = true ∨ ∃ n, i = .number n

mutual

/-- Words are names, and strings have neither quotes nor backslashes. -/
def Value.Safe : Value → Prop
  | .token s => isName s = true
  | .variable s => isName s = true
  | .object fields => SafeArguments fields
  | .string s => '"' ∉ s.toList ∧ '\\' ∉ s.toList
  | .number _ => True
  | .graph n => n.identifier.Safe

def Argument.Safe : Argument → Prop
  | ⟨name, v⟩ => isName name = true ∧ v.Safe

def SafeArguments : List Argument → Prop
  | [] => True
  | a :: rest => a.Safe ∧ SafeArguments rest

end

mutual

def Node.Safe : Node → Prop
  | ⟨i, _, args, _, children⟩ =>
    i.Safe ∧ (∀ as ∈ args, SafeArguments as) ∧ SafeNodes children

def SafeNodes : List Node → Prop
  | [] => True
  | n :: rest => n.Safe ∧ SafeNodes rest

end

end GraphQuery.Graph
