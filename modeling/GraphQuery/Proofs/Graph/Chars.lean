import GraphQuery.Graph.Text
import GraphQuery.Proofs.Document.Word

/-! The text of a graph as characters: one equation for each way in which a part is made up. Items
of a list come after the first, each behind its separator. -/
namespace GraphQuery.Graph

open Text

/-- The texts of items, each behind a separator. -/
def trail {α : Type} (separator : Char) (chars : α → List Char) (items : List α) : List Char :=
  items.flatMap fun a => separator :: chars a

section
variable {α : Type} (separator : Char) (chars : α → List Char)

@[simp] theorem trail_nil : trail separator chars [] = [] := rfl

@[simp] theorem trail_cons (a : α) (items : List α) :
    trail separator chars (a :: items) =
      separator :: (chars a ++ trail separator chars items) := rfl

theorem trail_cons_append (a : α) (items : List α) (rest : List Char) :
    trail separator chars (a :: items) ++ rest =
      separator :: (chars a ++ (trail separator chars items ++ rest)) := by simp

end

theorem toList_intercalate_cons {α : Type} (separator : Char) (text : α → String) (a : α)
    (items : List α) :
    ((String.singleton separator).intercalate ((a :: items).map text)).toList =
      (text a).toList ++ trail separator (fun a => (text a).toList) items := by
  induction items generalizing a with
  | nil => simp
  | cons b items ih =>
    have hb := ih b
    simp only [String.toList_intercalate, String.toList_singleton, List.map_cons] at hb ⊢
    rw [List.intercalate_cons_cons, hb]
    simp

def Value.chars (v : Value) : List Char := v.text.toList

def Argument.chars (a : Argument) : List Char := a.text.toList

def Parameter.chars (p : Parameter) : List Char := p.text.toList

def Node.chars (n : Node) : List Char := n.text.toList

def Identifier.chars (i : Identifier) : List Char := i.text.toList

/-- Items between two delimiters, separated by commas. -/
def bracketed {α : Type} (opening closing : Char) (chars : α → List Char) : List α → List Char
  | [] => [opening, closing]
  | a :: items => opening :: (chars a ++ (trail ',' chars items ++ [closing]))

theorem bracketed_cons_append {α : Type} (opening closing : Char) (chars : α → List Char) (a : α)
    (items : List α) (rest : List Char) :
    bracketed opening closing chars (a :: items) ++ rest =
      opening :: (chars a ++ (trail ',' chars items ++ closing :: rest)) := by
  simp [bracketed]

def nameChars : Option String → List Char
  | none => []
  | some name => ' ' :: '"' :: (name.toList ++ ['"'])

def argumentsChars : Option (List Argument) → List Char
  | none => []
  | some args => bracketed '(' ')' Argument.chars args

def parametersChars : Option (List Parameter) → List Char
  | none => []
  | some ps => bracketed '(' ')' Parameter.chars ps

def childrenChars : List Node → List Char
  | [] => []
  | n :: rest => '\x7b' :: (n.chars ++ (trail ' ' Node.chars rest ++ ['\x7d']))

def defaultChars : Option Value → List Char
  | none => []
  | some v => '=' :: v.chars

attribute [local simp] Value.text Argument.text Parameter.text Node.text

@[simp] theorem chars_token (s : String) : (Value.token s).chars = s.toList := by
  simp [Value.chars]

@[simp] theorem chars_variable (s : String) : (Value.variable s).chars = '$' :: s.toList := by
  simp [Value.chars]

@[simp] theorem chars_string (s : String) :
    (Value.string s).chars = '"' :: (s.toList ++ ['"']) := by
  simp [Value.chars]

@[simp] theorem chars_number (n : Number) : (Value.number n).chars = n.chars := by
  simp [Value.chars]

@[simp] theorem chars_graph (n : Node) : (Value.graph n).chars = n.chars := by
  simp [Value.chars, Node.chars]

theorem toList_bracketed {α : Type} (opening closing : Char) (text : α → String) (items : List α) :
    opening :: ((",".intercalate (items.map text)).toList ++ [closing]) =
      bracketed opening closing (fun a => (text a).toList) items := by
  cases items with
  | nil => simp [bracketed]
  | cons a items =>
    rw [show "," = String.singleton ',' from rfl, toList_intercalate_cons, bracketed]
    simp

@[simp] theorem chars_object (fields : List Argument) :
    (Value.object fields).chars = bracketed '\x7b' '\x7d' Argument.chars fields := by
  show _ = bracketed '\x7b' '\x7d' (fun a => a.text.toList) fields
  rw [← toList_bracketed]
  simp [Value.chars]

@[simp] theorem chars_argument (name : String) (v : Value) :
    (Argument.mk name v).chars = name.toList ++ ':' :: v.chars := by
  simp [Argument.chars, Value.chars]

@[simp] theorem chars_parameter (name type : String) (required : Bool) (v : Option Value) :
    (Parameter.mk name type required v).chars =
      '$' :: (name.toList ++ ':' :: (type.toList ++ ((if required then ['!'] else []) ++
        defaultChars v))) := by
  cases required <;> cases v <;>
    simp [Parameter.chars, defaultText, defaultChars, Value.chars]

theorem toList_nameText (name : Option String) : (nameText name).toList = nameChars name := by
  cases name <;> simp [nameText, nameChars]

theorem toList_parenthesised {α : Type} (text : α → String) (items : List α) :
    (parenthesised (items.map text)).toList =
      bracketed '(' ')' (fun a => (text a).toList) items := by
  have h := toList_bracketed '(' ')' text items
  simpa [parenthesised] using h

theorem toList_argumentsText (args : Option (List Argument)) :
    (argumentsText args).toList = argumentsChars args := by
  cases args with
  | none => simp [argumentsText, argumentsChars]
  | some args =>
    rw [argumentsText, argumentTexts_eq_map, toList_parenthesised]
    rfl

theorem toList_parametersText (ps : Option (List Parameter)) :
    (parametersText ps).toList = parametersChars ps := by
  cases ps with
  | none => simp [parametersText, parametersChars]
  | some ps =>
    rw [parametersText, parameterTexts_eq_map, toList_parenthesised]
    rfl

theorem toList_childrenText (children : List Node) :
    (childrenText (children.map Node.text)).toList = childrenChars children := by
  cases children with
  | nil => simp [childrenText, childrenChars]
  | cons n rest =>
    have h := toList_intercalate_cons ' ' Node.text n rest
    rw [List.map_cons] at h
    rw [List.map_cons, childrenText, String.toList_append, String.toList_append,
      show " " = String.singleton ' ' from rfl, h, childrenChars]
    · simp [Node.chars]
      rfl
    · simp

@[simp] theorem chars_node (i : Identifier) (name : Option String) (args : Option (List Argument))
    (ps : Option (List Parameter)) (children : List Node) :
    (Node.mk i name args ps children).chars =
      i.chars ++ (nameChars name ++ (argumentsChars args ++ (parametersChars ps ++
        childrenChars children))) := by
  simp only [Node.chars, Node.text, String.toList_append, nodeTexts_eq_map, toList_nameText,
    toList_argumentsText, toList_parametersText, toList_childrenText, Identifier.chars,
    List.append_assoc]

/-! Behind its head, a node has parts that are absent or begin with a delimiter. -/

section
variable {p : Char → Bool} {rest : List Char}

theorem argumentsChars_eq_nil_or_cons (args : Option (List Argument)) :
    argumentsChars args = [] ∨ ∃ cs, argumentsChars args = '(' :: cs := by
  rcases args with _ | _ | ⟨a, as⟩
  · exact Or.inl rfl
  · exact Or.inr ⟨_, rfl⟩
  · exact Or.inr ⟨_, rfl⟩

theorem parametersChars_eq_nil_or_cons (ps : Option (List Parameter)) :
    parametersChars ps = [] ∨ ∃ cs, parametersChars ps = '(' :: cs := by
  rcases ps with _ | _ | ⟨q, qs⟩
  · exact Or.inl rfl
  · exact Or.inr ⟨_, rfl⟩
  · exact Or.inr ⟨_, rfl⟩

theorem childrenChars_eq_nil_or_cons (ns : List Node) :
    childrenChars ns = [] ∨ ∃ cs, childrenChars ns = '\x7b' :: cs := by
  cases ns with
  | nil => exact Or.inl rfl
  | cons n ns => exact Or.inr ⟨_, rfl⟩

/-- A part that is absent or begins with a delimiter leaves what stops a run, or its delimiter
stops it. -/
theorem stops_append {part : List Char} {d : Char} (hd : p d = false)
    (hpart : part = [] ∨ ∃ cs, part = d :: cs) (hr : Stops p rest) : Stops p (part ++ rest) := by
  rcases hpart with rfl | ⟨cs, rfl⟩
  · exact hr
  · exact stops_cons.2 hd

/-- What a node is written with behind its head. -/
def Node.bodyChars (n : Node) : List Char :=
  nameChars n.name ++ (argumentsChars n.arguments ++ (parametersChars n.parameters ++
    childrenChars n.children))

theorem Node.chars_eq (n : Node) : n.chars = n.identifier.chars ++ n.bodyChars := by
  obtain ⟨i, name, args, ps, children⟩ := n
  exact chars_node i name args ps children

theorem bodyChars_append (i : Identifier) (name : Option String) (args : Option (List Argument))
    (ps : Option (List Parameter)) (children : List Node) (rest : List Char) :
    (Node.mk i name args ps children).bodyChars ++ rest =
      nameChars name ++ (argumentsChars args ++ (parametersChars ps ++
        (childrenChars children ++ rest))) := by
  simp [Node.bodyChars]

theorem childrenChars_cons_append (n : Node) (ns : List Node) (rest : List Char) :
    childrenChars (n :: ns) ++ rest =
      '\x7b' :: (n.chars ++ (trail ' ' Node.chars ns ++ '\x7d' :: rest)) := by
  simp [childrenChars]

theorem stops_bodyChars (n : Node) (hs : p ' ' = false) (ho : p '(' = false)
    (hb : p '\x7b' = false) (hr : Stops p rest) : Stops p (n.bodyChars ++ rest) := by
  have hc := stops_append hb (childrenChars_eq_nil_or_cons n.children) hr
  have hp := stops_append ho (parametersChars_eq_nil_or_cons n.parameters) hc
  have ha := stops_append ho (argumentsChars_eq_nil_or_cons n.arguments) hp
  simp only [Node.bodyChars, List.append_assoc]
  cases n.name with
  | none => exact ha
  | some s => exact stops_cons.2 hs

end

end GraphQuery.Graph
