import GraphQuery.Proofs.Graph.Description
import GraphQuery.Proofs.Operation.Reading
import GraphQuery.Report

/-! Operations with a name. The name is written between quotes, where a document has none: whatever
it contains, the text ends at the first quote after the keyword. -/
namespace GraphQuery

open Document Document.Parser

namespace Document.Parser

theorem operation_quote (kind : OperationKind) (cs : List Char) :
    answer (operation none kind (lex ('"' :: cs))) =
      .error (refusal (.expected (.punctuator .braceOpen)) (lex ('"' :: cs))) := by
  have haccept := Graph.accept_lex_quote .atSign cs
  rcases lex_quote cs with ⟨f, hlex⟩ | ⟨x, s, hlex | hlex⟩
  all_goals
    rw [hlex] at haccept ⊢
    have hnone : answer (directives false _) = .ok ([], _) := directives_of_none haccept
    obtain ⟨h, hdirectives⟩ := answer_eq_ok.1 hnone
    simp only [operation, operationName, optionalItems, accept, hdirectives, selectionSet, expect,
      bind, Except.bind, answer_error]

end Document.Parser

namespace Operation

open GraphQuery.Graph

/-- The headers that give an operation a name, with parameters or without. -/
inductive Names (name : String) : Datum → Prop
  | bare : Names name (.list [.string name])
  | declaring (ps : List Datum) : Names name (.list [.string name, .list ps])

section
variable {o : Operation} {name text : String} {header g : Datum}

theorem Names.exists_of_readHeader (h : Names name header) {m : Datum}
    (hm : o.readHeader header = .ok m) : ∃ ps, m = Form.metadata (some name) none ps := by
  cases h with
  | bare =>
    cases hm
    exact ⟨none, rfl⟩
  | declaring ps =>
    rw [readHeader, bind_eq_ok] at hm
    obtain ⟨qs, -, hm⟩ := hm
    exact ⟨some qs, (Except.ok.inj hm).symm⟩

theorem Names.exists_of_textOf (h : Names name header) (ht : o.textOf [header, g] = .ok text) :
    ∃ ps ns, text = (Node.mk (.token o.keyword) (some name) none ps ns).text := by
  simp only [textOf, ofArguments, record, bind_eq_ok, mapError_eq_ok] at ht
  obtain ⟨d, ⟨m, hm, child, -, hd⟩, n, hn, ht⟩ := ht
  obtain ⟨ps, rfl⟩ := h.exists_of_readHeader hm
  cases hd
  cases ht
  have hmetadata : HasMetadata ((Form.node (Form.token (.string o.keyword))
      (Form.metadata (some name) none ps) [child]).get "metadata") (some name) none ps :=
    hasMetadata_metadata
  rw [Node.ofRecord, nodeOf?_of_hasMetadata hmetadata rfl] at hn
  split at hn
  · next n' hn' =>
    cases hn
    simp only [Option.bind_eq_bind, Option.bind_eq_some_iff] at hn'
    obtain ⟨i, hi, as, has, qs, -, ns, -, hn'⟩ := hn'
    cases hi
    cases has
    cases hn'
    exact ⟨qs, ns, rfl⟩
  · cases hn

theorem textOf_bare {n : Node} (h : selected? g = some n) :
    o.textOf [.list [.string name], g] =
      .ok (Node.mk (.token o.keyword) (some name) none none [n]).text := by
  obtain ⟨d, m, hd, hm, rfl⟩ := exists_of_selected? h
  have hmetadata : HasMetadata ((Form.node (Form.token (.string o.keyword))
      (Form.metadata (some name) none none) [d]).get "metadata") (some name) none none :=
    hasMetadata_metadata
  have hnode : nodeOf? (Form.node (Form.token (.string o.keyword))
      (Form.metadata (some name) none none) [d]) =
        some ⟨.token o.keyword, some name, none, none, [amongOthers d m]⟩ := by
    rw [nodeOf?_of_hasMetadata hmetadata rfl, nodesOf?_singleton, hm]
    rfl
  simp only [textOf, ofArguments, readHeader, record, hd, mapError_ok, bind, Except.bind, pure,
    Except.pure, Node.ofRecord, hnode]

theorem chars_named (o : Operation) (name : String) (ps : Option (List Parameter))
    (ns : List Node) :
    (Node.mk (.token o.keyword) (some name) none ps ns).chars =
      o.keyword.toList ++ ' ' :: '"' ::
        (name.toList ++ '"' :: (parametersChars ps ++ childrenChars ns)) := by
  rw [chars_node]
  simp [Identifier.chars, Identifier.text, nameChars, argumentsChars]

/-- No text is a document that has a quote after the keyword. -/
theorem check_of_quote {cs : List Char} (h : text.toList = o.keyword.toList ++ ' ' :: '"' :: cs) :
    Document.check (.string text) =
      .error (.fault (refusal (.expected (.punctuator .braceOpen)) (lex ('"' :: cs)))) := by
  have hlex : lex text.toList = .next (.name o.kind.keyword) (lex ('"' :: cs)) := by
    rw [h, lex_name o.isName_keyword (Text.stops_cons.2 (by decide)), lex_space, keyword_kind]
  rw [Document.check, Document.parse, hlex,
    definitions_of_error ((definition_keyword o.kind).trans (operation_quote o.kind cs))]
  rfl

end

/-- The text of an operation with a name is no document, whatever the name contains: it ends where
the name begins, for want of selections. This is all that is reported of it. -/
theorem check_textOf_named (o : Operation) (name text : String) (header g : Datum)
    (hh : Names name header) (h : o.textOf [header, g] = .ok text) :
    ∃ rest f, text.toList = o.keyword.toList ++ ' ' :: '"' :: (name.toList ++ '"' :: rest) ∧
      f = refusal (.expected (.punctuator .braceOpen))
        (lex ('"' :: (name.toList ++ '"' :: rest))) ∧
      Document.check (.string text) = .error (.fault f) ∧
      ∀ context, (Document.check (.string text)).mapError (Rejection.report? context) =
        .error (some ⟨.queryValidation, requiredMessage context f, .string "SYNTAX_ERROR",
          .list [.string f.message]⟩) := by
  obtain ⟨ps, ns, rfl⟩ := hh.exists_of_textOf h
  have hchars := chars_named o name ps ns
  have hcheck := check_of_quote hchars
  refine ⟨_, _, hchars, rfl, hcheck, fun context => ?_⟩
  rw [hcheck]
  rfl

theorem check_textOf_closingName :
    ∃ text, query.textOf [.list [.string "\" \x7ba\x7d #"], .string "b"] = .ok text ∧
      Document.check (.string text) =
        .error (.fault (.expected (.punctuator .braceOpen) (some (.string "")))) := by
  have htext : query.textOf [.list [.string "\" \x7ba\x7d #"], .string "b"] = .ok _ :=
    textOf_bare (selected?_of_readGraph (readGraph_string "b"))
  obtain ⟨rest, f, -, rfl, hcheck, -⟩ := check_textOf_named .query _ _ _ _ .bare htext
  have hlex : lex ('"' :: ("\" \x7ba\x7d #".toList ++ '"' :: rest)) =
      .next (.string "") (lex (" \x7ba\x7d #".toList ++ '"' :: rest)) := by
    have hname : "\" \x7ba\x7d #".toList = '"' :: " \x7ba\x7d #".toList := by decide
    rw [hname]
    exact lex_string (s := "") (by decide) (by decide) (by decide) (Text.stops_cons.2 (by decide))
  rw [hlex] at hcheck
  exact ⟨_, htext, hcheck⟩

end Operation
end GraphQuery
