import GraphQuery.Proofs.Document.Word
import GraphQuery.Proofs.Graph.Chars

/-! Graphs whose texts are free of delimiters, and graphs that differ at most in what is not
written: the kind of a head, an alias, and which number it is that a text stands for. -/
namespace GraphQuery.Graph

open Document Text

/-- The characters of which types are written. -/
def isTypePart (c : Char) : Bool := isNamePart c || c == '[' || c == ']' || c == '!'

/-- A text as it stands for the type of a parameter. The mark at the end is not part of it. -/
structure IsTypeText (s : String) : Prop where
  nonempty : s.toList ≠ []
  parts : ∀ c ∈ s.toList, isTypePart c = true
  last : s.toList.getLast? ≠ some '!'

/-- A head is written as a name, or is a number. -/
def Identifier.Clean (i : Identifier) : Prop :=
  isName i.text = true ∨ ∃ n, i = .number n ∧ n.isFinite = true

def CleanName (name : Option String) : Prop := ∀ s ∈ name, '"' ∉ s.toList

mutual

/-- No text within a value could be taken for what delimits it. -/
def Value.Clean : Value → Prop
  | .token s => isName s = true
  | .variable s => isName s = true
  | .object fields => CleanArguments fields
  | .string s => '"' ∉ s.toList
  | .number n => n.isFinite = true
  | .graph n => n.isBare = false ∧ n.Clean

def Argument.Clean : Argument → Prop
  | ⟨name, v⟩ => isName name = true ∧ v.Clean

def CleanArguments : List Argument → Prop
  | [] => True
  | a :: rest => a.Clean ∧ CleanArguments rest

def CleanArgumentList : Option (List Argument) → Prop
  | none => True
  | some args => args ≠ [] ∧ CleanArguments args

def CleanDefault : Option Value → Prop
  | none => True
  | some v => v.Clean

def Parameter.Clean : Parameter → Prop
  | ⟨name, type, _, v⟩ => isName name = true ∧ IsTypeText type ∧ CleanDefault v

def CleanParameters : List Parameter → Prop
  | [] => True
  | p :: rest => p.Clean ∧ CleanParameters rest

def CleanParameterList : Option (List Parameter) → Prop
  | none => True
  | some ps => ps ≠ [] ∧ CleanParameters ps

def Node.Clean : Node → Prop
  | ⟨i, name, args, ps, children⟩ =>
    i.Clean ∧ CleanName name ∧ CleanArgumentList args ∧ CleanParameterList ps ∧
      CleanNodes children

def CleanNodes : List Node → Prop
  | [] => True
  | n :: rest => n.Clean ∧ CleanNodes rest

end

mutual

/-- The same but for how heads and numbers have come to their texts. -/
inductive Value.Alike : Value → Value → Prop
  | token (s : String) : Value.Alike (.token s) (.token s)
  | reference (s : String) : Value.Alike (.variable s) (.variable s)
  | object {as bs : List Argument} : AlikeArguments as bs → Value.Alike (.object as) (.object bs)
  | string (s : String) : Value.Alike (.string s) (.string s)
  | number {m n : Number} : m.text = n.text → Value.Alike (.number m) (.number n)
  | graph {m n : Node} : m.Alike n → Value.Alike (.graph m) (.graph n)

inductive Argument.Alike : Argument → Argument → Prop
  | mk (s : String) {v w : Value} : v.Alike w → Argument.Alike ⟨s, v⟩ ⟨s, w⟩

inductive AlikeArguments : List Argument → List Argument → Prop
  | nil : AlikeArguments [] []
  | cons {a b : Argument} {as bs : List Argument} :
    a.Alike b → AlikeArguments as bs → AlikeArguments (a :: as) (b :: bs)

inductive AlikeArgumentList : Option (List Argument) → Option (List Argument) → Prop
  | none : AlikeArgumentList none none
  | some {as bs : List Argument} : AlikeArguments as bs → AlikeArgumentList (some as) (some bs)

inductive AlikeDefault : Option Value → Option Value → Prop
  | none : AlikeDefault none none
  | some {v w : Value} : v.Alike w → AlikeDefault (some v) (some w)

inductive Parameter.Alike : Parameter → Parameter → Prop
  | mk (s type : String) (required : Bool) {v w : Option Value} :
    AlikeDefault v w → Parameter.Alike ⟨s, type, required, v⟩ ⟨s, type, required, w⟩

inductive AlikeParameters : List Parameter → List Parameter → Prop
  | nil : AlikeParameters [] []
  | cons {p q : Parameter} {ps qs : List Parameter} :
    p.Alike q → AlikeParameters ps qs → AlikeParameters (p :: ps) (q :: qs)

inductive AlikeParameterList : Option (List Parameter) → Option (List Parameter) → Prop
  | none : AlikeParameterList none none
  | some {ps qs : List Parameter} : AlikeParameters ps qs → AlikeParameterList (some ps) (some qs)

inductive Node.Alike : Node → Node → Prop
  | mk {i j : Identifier} (name : Option String) {as bs : Option (List Argument)}
      {ps qs : Option (List Parameter)} {ms ns : List Node} :
    i.text = j.text → AlikeArgumentList as bs → AlikeParameterList ps qs → AlikeNodes ms ns →
      Node.Alike ⟨i, name, as, ps, ms⟩ ⟨j, name, bs, qs, ns⟩

inductive AlikeNodes : List Node → List Node → Prop
  | nil : AlikeNodes [] []
  | cons {m n : Node} {ms ns : List Node} :
    m.Alike n → AlikeNodes ms ns → AlikeNodes (m :: ms) (n :: ns)

end

/-! What is alike is written alike. -/

mutual

theorem Value.Alike.chars_eq {v w : Value} : v.Alike w → v.chars = w.chars
  | .token _ | .reference _ | .string _ => rfl
  | .object h => by rw [chars_object, chars_object, h.bracketed_eq]
  | .number h => by rw [chars_number, chars_number, ← Number.toList_text, ← Number.toList_text, h]
  | .graph h => by rw [chars_graph, chars_graph, h.chars_eq]

theorem Argument.Alike.chars_eq {a b : Argument} : a.Alike b → a.chars = b.chars
  | .mk _ h => by rw [chars_argument, chars_argument, h.chars_eq]

theorem AlikeArguments.trail_eq {as bs : List Argument} : AlikeArguments as bs →
    trail ',' Argument.chars as = trail ',' Argument.chars bs
  | .nil => rfl
  | .cons h hs => by rw [trail_cons, trail_cons, h.chars_eq, hs.trail_eq]

theorem AlikeArguments.bracketed_eq {as bs : List Argument} {o c : Char} : AlikeArguments as bs →
    bracketed o c Argument.chars as = bracketed o c Argument.chars bs
  | .nil => rfl
  | .cons h hs => by rw [bracketed, bracketed, h.chars_eq, hs.trail_eq]

theorem AlikeArgumentList.chars_eq {as bs : Option (List Argument)} : AlikeArgumentList as bs →
    argumentsChars as = argumentsChars bs
  | .none => rfl
  | .some h => h.bracketed_eq

theorem AlikeDefault.chars_eq {v w : Option Value} : AlikeDefault v w →
    defaultChars v = defaultChars w
  | .none => rfl
  | .some h => by rw [defaultChars, defaultChars, h.chars_eq]

theorem Parameter.Alike.chars_eq {p q : Parameter} : p.Alike q → p.chars = q.chars
  | .mk _ _ _ h => by rw [chars_parameter, chars_parameter, h.chars_eq]

theorem AlikeParameters.trail_eq {ps qs : List Parameter} : AlikeParameters ps qs →
    trail ',' Parameter.chars ps = trail ',' Parameter.chars qs
  | .nil => rfl
  | .cons h hs => by rw [trail_cons, trail_cons, h.chars_eq, hs.trail_eq]

theorem AlikeParameterList.chars_eq {ps qs : Option (List Parameter)} : AlikeParameterList ps qs →
    parametersChars ps = parametersChars qs
  | .none => rfl
  | .some .nil => rfl
  | .some (.cons h hs) => by
    rw [parametersChars, parametersChars, bracketed, bracketed, h.chars_eq, hs.trail_eq]

theorem Node.Alike.chars_eq {m n : Node} : m.Alike n → m.chars = n.chars
  | .mk name hi ha hp hc => by
    rw [chars_node, chars_node, ha.chars_eq, hp.chars_eq, hc.childrenChars_eq, Identifier.chars,
      Identifier.chars, hi]

theorem AlikeNodes.trail_eq {ms ns : List Node} : AlikeNodes ms ns →
    trail ' ' Node.chars ms = trail ' ' Node.chars ns
  | .nil => rfl
  | .cons h hs => by rw [trail_cons, trail_cons, h.chars_eq, hs.trail_eq]

theorem AlikeNodes.childrenChars_eq {ms ns : List Node} : AlikeNodes ms ns →
    childrenChars ms = childrenChars ns
  | .nil => rfl
  | .cons h hs => by rw [childrenChars, childrenChars, h.chars_eq, hs.trail_eq]

end

end GraphQuery.Graph
