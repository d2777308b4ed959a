import GraphQuery.Proofs.Document.Quoting
import GraphQuery.Proofs.Graph.SurfaceForm
import GraphQuery.Proofs.Operation.Reading

/-! Which strings are safe as arguments. A string is written between quotes as it is, so that it
comes back as itself only where no character of it ends the quotes or begins an escape. -/
namespace GraphQuery

open Document Document.Parser

namespace Graph

/-- The tree of a field with a string for its only argument. -/
def Node.asking (field label s : String) : Node :=
  ⟨.string field, none, some [⟨label, .string s⟩], none, []⟩

section
variable {field label s : String}

theorem chars_asking : (Node.asking field label s).chars =
    field.toList ++ '(' :: (label.toList ++ ':' :: '"' :: (s.toList ++ ['"', ')'])) := by
  rw [Node.asking, chars_node]
  simp [Identifier.chars, Identifier.text, nameChars, argumentsChars, parametersChars,
    childrenChars, bracketed]

theorem readGraph_asking :
    Surface.readGraph (.list [.mark (.tag .arguments), .list [.list [.string label, .string s]],
      .string field]) = .ok (Node.asking field label s).toDatum := by
  have hdivides : Surface.Divides
      [.mark (.tag .arguments), .list [.list [.string label, .string s]], .string field]
      (givenOf none (some [⟨label, .string s⟩]) none) [.string field] :=
    .tag .arguments _ (.positional rfl .nil)
  have hmetadata := @readMetadata_givenOf none (some [⟨label, .string s⟩]) none [.string field]
    (by simp [DistinctNames]) trivial
  rw [Surface.readGraph_of_head rfl (Surface.split_of_divides hdivides) rfl, hmetadata,
    Surface.readGraphs]
  rfl

theorem safe_asking (hf : isName field = true) (hl : isName label = true)
    (hs : Quotable s.toList) : (Node.asking field label s).Safe := by
  simp [Node.asking, Node.Safe, Identifier.Safe, Identifier.text, SafeArguments, Argument.Safe,
    Value.Safe, SafeNodes, hf, hl, hs.quote, hs.backslash]

theorem meaning?_asking (hf : isName field = true) (hs : Quotable s.toList) :
    (Node.asking field label s).meaning? =
      some (.field none field [⟨label, .string s false⟩] [] none) := by
  have hvalue : (Value.string s).meaning? = some (.string s false) := by
    rw [Value.meaning?, if_neg (by simp [hs.any_isLineEnd])]
  have hargument : (Argument.mk label (.string s)).toArgument? = some ⟨label, .string s false⟩ := by
    rw [Argument.toArgument?, Argument.meaning?, hvalue]
    rfl
  rw [Node.asking, Node.meaning?, if_pos (by simpa [Identifier.text] using hf),
    argumentMeanings?, mapM_cons_of_some hargument, nodeMeanings?]
  · rfl
  · simp

end

end Graph

namespace Operation

open GraphQuery.Graph

/-- The documents of one operation without a name that selects one field with a string for its only
argument, whatever else the field may have. -/
inductive Asks (o : Operation) (field label s : String) : Document → Prop
  | mk (block : Bool) (ds : List Directive) (below : Option (List Selection)) :
    Asks o field label s ⟨[o.definitionOf (.field none field [⟨label, .string s block⟩] ds below)]⟩

section
variable {o : Operation} {field label s : String}

theorem lex_asking (hf : isName field = true) (hl : isName label = true) (rest : List Char) :
    lex ((Node.asking field label s).chars ++ rest) =
      .next (.name field) (.next (.punctuator .parenOpen) (.next (.name label)
        (.next (.punctuator .colon) (lex ('"' :: (s.toList ++ '"' :: ')' :: rest)))))) := by
  rw [chars_asking]
  simp only [List.append_assoc, List.cons_append, List.nil_append]
  rw [lex_name hf (Text.stops_cons.2 (by decide)), lex_parenOpen,
    lex_name hl (Text.stops_cons.2 (by decide)), lex_colon]

/-- Where an argument is read as a string that it was written as, no character of it is special, or
too little of the text would be left. -/
theorem quotable_of_argument {rest : List Char} {block : Bool} {s₁ : TokenStream}
    (h : answer (argument false (.next (.name label) (.next (.punctuator .colon)
      (lex ('"' :: (s.toList ++ '"' :: rest)))))) = .ok (⟨label, .string s block⟩, s₁))
    (hr : rest.length ≤ s₁.length) : Quotable s.toList := by
  have hlength : (s.toList ++ '"' :: rest).length ≤ s.toList.length + s₁.length + 1 := by
    simp only [List.length_append, List.length_cons]
    omega
  rw [argument_eq, labelled_next] at h
  rcases lex_quote (s.toList ++ '"' :: rest) with ⟨f, hlex⟩ | ⟨x, s₂, hlex | hlex⟩
  · rw [hlex, value_fault] at h
    cases h
  · rw [hlex, value_string] at h
    cases h
    exact .of_lex hlex rfl hlength
  · rw [hlex, value_blockString] at h
    cases h
    exact .of_lex hlex rfl hlength

theorem quotable_of_selection (hf : isName field = true) (hl : isName label = true)
    {block : Bool} {ds : List Directive} {below : Option (List Selection)}
    (h : answer (selection (lex ((Node.asking field label s).chars ++ ['\x7d']))) =
      .ok (.field none field [⟨label, .string s block⟩] ds below,
        .next (.punctuator .braceClose) .done)) : Quotable s.toList := by
  rw [lex_asking hf hl] at h
  obtain ⟨s₂, harguments, hlength⟩ := arguments_of_selection (accept_of_ne (by decide)) h
  rw [arguments_next] at harguments
  refine quotable_of_argument (item_of_itemsUntil harguments) ?_
  simp only [TokenStream.length_next, TokenStream.length_done, List.length_cons,
    List.length_nil] at hlength ⊢
  omega

theorem selection_of_check {n : Node} {selected : Selection}
    (h : Document.check (.string (n.under o).text) = .ok ⟨[o.definitionOf selected]⟩) :
    answer (selection (lex (n.chars ++ ['\x7d']))) =
      .ok (selected, .next (.punctuator .braceClose) .done) := by
  rw [Document.check, mapError_eq_ok, Document.parse, ← Node.chars] at h
  obtain ⟨ds, hds, hdoc⟩ := map_eq_ok.1 h
  cases hdoc
  have hdefinition := definition_of_definitions hds
  rw [lex_under, definition_keyword, operation_braceOpen] at hdefinition
  obtain ⟨⟨selections, s₁⟩, hitems, he⟩ := map_eq_ok.1 hdefinition
  cases he
  exact item_of_itemsUntil hitems

theorem check_asking (hf : isName field = true) (hl : isName label = true)
    (hs : Quotable s.toList) :
    Document.check (.string ((Node.asking field label s).under o).text) =
      .ok ⟨[o.definitionOf (.field none field [⟨label, .string s false⟩] [] none)]⟩ :=
  (check_under o (safe_asking hf hl hs) _).2 ⟨_, meaning?_asking hf hs, rfl⟩

theorem asks_iff (hf : isName field = true) (hl : isName label = true) :
    (∃ doc, Document.check (.string ((Node.asking field label s).under o).text) = .ok doc ∧
      Asks o field label s doc) ↔ Quotable s.toList := by
  constructor
  · rintro ⟨doc, hcheck, ⟨block, ds, below⟩⟩
    exact quotable_of_selection hf hl (selection_of_check hcheck)
  · intro hs
    exact ⟨_, check_asking hf hl hs, .mk false [] none⟩

end

theorem text_asking (s : String) :
    ((Node.asking "f" "a" s).under query).text = "query\x7bf(a:\"" ++ s ++ "\")\x7d" := by
  apply String.toList_inj.1
  rw [← Node.chars, chars_under, chars_asking]
  simp [keyword]

/-- The query of a field with a string for its argument is a document with that string for its
argument exactly if the string has no quote, no backslash and no line end. It is then nothing but
this query. -/
theorem check_textOf_string (s : String) :
    ∃ text, query.textOf [.list [.mark (.tag .arguments), .list [.list [.string "a", .string s]],
        .string "f"]] = .ok text ∧
      text = "query\x7bf(a:\"" ++ s ++ "\")\x7d" ∧
      ((∃ doc, Document.check (.string text) = .ok doc ∧ Asks query "f" "a" s doc) ↔
        '"' ∉ s.toList ∧ '\\' ∉ s.toList ∧ '\n' ∉ s.toList ∧ '\r' ∉ s.toList) ∧
      (Quotable s.toList → Document.check (.string text) =
        .ok ⟨[.operation ⟨none, .query, none, [], [],
          [.field none "f" [⟨"a", .string s false⟩] [] none]⟩]⟩) := by
  refine ⟨_, (textOf_singleton query _ _).2
    ⟨_, selected?_of_readGraph readGraph_asking, rfl⟩, text_asking s, ?_, ?_⟩
  · rw [asks_iff (by decide) (by decide)]
    exact ⟨fun ⟨hq, hb, hn, hr⟩ => ⟨hq, hb, hn, hr⟩, fun ⟨hq, hb, hn, hr⟩ => ⟨hq, hb, hn, hr⟩⟩
  · exact check_asking (by decide) (by decide)

end Operation

end GraphQuery
