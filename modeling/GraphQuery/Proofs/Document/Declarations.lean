import GraphQuery.Proofs.Document.Lexing
import GraphQuery.Proofs.Document.Steps

/-! Declarations of variables. A type is written without spaces, and is read up to the end of its
text; a declaration is read as name, type and default, each where the last one ends. -/
namespace GraphQuery.Document

open Document.Parser Text

/-- How types are written: names and lists of types, each with a mark of exclamation or without. -/
inductive WritesType : List Char → TypeRef → Prop
  | named {s : String} (h : isName s = true) : WritesType s.toList (.named s)
  | list {cs : List Char} {t : TypeRef} (h : WritesType cs t) :
    WritesType ('[' :: (cs ++ [']'])) (.list t)
  | nonNullNamed {s : String} (h : isName s = true) :
    WritesType (s.toList ++ ['!']) (.nonNull (.named s))
  | nonNullList {cs : List Char} {t : TypeRef} (h : WritesType cs t) :
    WritesType (('[' :: (cs ++ [']'])) ++ ['!']) (.nonNull (.list t))

/-- A type that does not end with a mark may have one added. -/
theorem WritesType.required {cs : List Char} {t : TypeRef} (h : WritesType cs t)
    (hb : cs.getLast? ≠ some '!') : WritesType (cs ++ ['!']) (.nonNull t) := by
  cases h with
  | named h => exact .nonNullNamed h
  | list h => exact .nonNullList h
  | nonNullNamed | nonNullList => exact absurd List.getLast?_concat hb

namespace Parser

variable {s s₁ s₂ : TokenStream}

theorem typeRef_name (x : String) (hb : accept .bang s = none) :
    answer (typeRef (.next (.name x) s)) = .ok (.named x, s) := by
  rw [typeRef]
  simp [name, withBang, hb, bind, Except.bind, pure, Except.pure]

theorem typeRef_name_bang (x : String) :
    answer (typeRef (.next (.name x) (.next (.punctuator .bang) s))) =
      .ok (.nonNull (.named x), s) := by
  rw [typeRef]
  simp [name, withBang, bind, Except.bind, pure, Except.pure]

theorem typeRef_list {t : TypeRef}
    (h : answer (typeRef s) = .ok (t, .next (.punctuator .bracketClose) s₁))
    (hb : accept .bang s₁ = none) :
    answer (typeRef (.next (.punctuator .bracketOpen) s)) = .ok (.list t, s₁) := by
  obtain ⟨hs, ht⟩ := answer_eq_ok.1 h
  rw [typeRef]
  simp [ht, expect, withBang, hb, bind, Except.bind, pure, Except.pure]

theorem typeRef_list_bang {t : TypeRef}
    (h : answer (typeRef s) =
      .ok (t, .next (.punctuator .bracketClose) (.next (.punctuator .bang) s₁))) :
    answer (typeRef (.next (.punctuator .bracketOpen) s)) = .ok (.nonNull (.list t), s₁) := by
  obtain ⟨hs, ht⟩ := answer_eq_ok.1 h
  rw [typeRef]
  simp [ht, expect, withBang, bind, Except.bind, pure, Except.pure]

theorem defaultValue_of_none (h : accept .equals s = none) :
    answer (defaultValue s) = .ok (none, s) := by
  rw [defaultValue, h]
  rfl

theorem defaultValue_next {v : Value} (h : answer (value true s) = .ok (v, s₁)) :
    answer (defaultValue (.next (.punctuator .equals) s)) = .ok (some v, s₁) := by
  obtain ⟨hs, hv⟩ := answer_eq_ok.1 h
  rw [defaultValue, accept_next]
  simp [hv, bind, Except.bind, pure, Except.pure]

theorem variableDefinition_next {x : String} {t : TypeRef} {v : Option Value}
    (ht : answer (typeRef s) = .ok (t, s₁)) (hv : answer (defaultValue s₁) = .ok (v, s₂))
    (hd : accept .atSign s₂ = none) :
    answer (variableDefinition (.next (.punctuator .dollar)
      (.next (.name x) (.next (.punctuator .colon) s)))) = .ok (⟨none, x, t, v, []⟩, s₂) := by
  obtain ⟨h₁, ht⟩ := answer_eq_ok.1 ht
  obtain ⟨h₂, hv⟩ := answer_eq_ok.1 hv
  have hds : answer (directives true s₂) = .ok ([], s₂) := directives_of_none hd
  obtain ⟨h₃, hds⟩ := answer_eq_ok.1 hds
  rw [variableDefinition]
  simp [description, expect, name, ht, hv, hds, bind, Except.bind, pure, Except.pure]

/-- An operation without a name and with declarations. -/
theorem operation_parenOpen (kind : OperationKind) {defs : List VariableDefinition}
    (h : answer (itemsUntil .parenClose s fun t _ => variableDefinition t) =
      .ok (defs, .next (.punctuator .braceOpen) s₁)) :
    answer (operation none kind (.next (.punctuator .parenOpen) s)) =
      (answer (itemsUntil .braceClose s₁ fun t _ => selection t)).map fun r =>
        (.operation ⟨none, kind, none, defs, [], r.1⟩, r.2) := by
  have hd : accept .atSign (.next (.punctuator .braceOpen) s₁) = none := accept_of_ne (by decide)
  obtain ⟨h₁, hdefs⟩ := answer_eq_ok.1 h
  have hds : answer (directives false (.next (.punctuator .braceOpen) s₁)) =
      .ok ([], .next (.punctuator .braceOpen) s₁) := directives_of_none hd
  obtain ⟨h₂, hds⟩ := answer_eq_ok.1 hds
  simp only [operation, operationName, optionalItems, accept_next, hdefs, hds, selectionSet,
    expect, bind, Except.bind, pure, Except.pure]
  cases itemsUntil .braceClose s₁ fun t _ => selection t <;> rfl

end Parser

/-- A type is read up to the end of its text. -/
theorem WritesType.typeRef_eq {cs : List Char} {t : TypeRef} (h : WritesType cs t)
    {rest : List Char} (hr : Stops isNamePart rest) (hb : accept .bang (lex rest) = none) :
    answer (typeRef (lex (cs ++ rest))) = .ok (t, lex rest) := by
  induction h generalizing rest with
  | named h =>
    rw [lex_name h hr]
    exact typeRef_name _ hb
  | nonNullNamed h =>
    rw [List.append_assoc, List.singleton_append, lex_name h (stops_cons.2 (by decide)), lex_bang]
    exact typeRef_name_bang _
  | @list cs t _ ih =>
    have ht := @ih (']' :: rest) (stops_cons.2 (by decide))
      (by rw [lex_bracketClose]; exact accept_of_ne (by decide))
    rw [lex_bracketClose] at ht
    rw [List.cons_append, List.append_assoc, List.singleton_append, lex_bracketOpen]
    exact typeRef_list ht hb
  | @nonNullList cs t _ ih =>
    have ht := @ih (']' :: '!' :: rest) (stops_cons.2 (by decide))
      (by rw [lex_bracketClose]; exact accept_of_ne (by decide))
    rw [lex_bracketClose, lex_bang] at ht
    rw [List.append_assoc, List.singleton_append, List.cons_append, List.append_assoc,
      List.singleton_append, lex_bracketOpen]
    exact typeRef_list_bang ht

/-- No text is that of two types. -/
theorem WritesType.unique {cs : List Char} {t u : TypeRef} (ht : WritesType cs t)
    (hu : WritesType cs u) : t = u := by
  have h₁ := ht.typeRef_eq stops_nil (by rw [lex_nil]; rfl)
  have h₂ := hu.typeRef_eq stops_nil (by rw [lex_nil]; rfl)
  rw [h₁] at h₂
  cases h₂
  rfl

end GraphQuery.Document
