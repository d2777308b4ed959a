import GraphQuery.Proofs.Document.Agreement
import GraphQuery.Proofs.Graph.Meaning

/-! The text of a safe graph is read as what the graph means, or not at all where it means nothing.
Values come first, then fields; each is read in front of any text that ends it. -/
namespace GraphQuery.Graph

open Document Document.Parser Text
open Number (Numeral)

variable {rest : List Char} {constant : Bool}

/-! Words. -/

theorem isIntText_append (xs ys : List Char) :
    isIntText (xs ++ ys) = (isIntText xs && isIntText ys) := by simp [isIntText]

theorem isIntText_of_digits {ds : List Char} (h : Number.Digits ds) : isIntText ds = true := by
  rw [isIntText, List.all_eq_true]
  intro c hc
  simp [h.2 c hc]

/-- A fraction has a point and an exponent has a letter. -/
theorem isIntText_numeral (u : Numeral) :
    isIntText u.chars = (u.fractionChars.isEmpty && u.exponentChars.isEmpty) := by
  have hm : isIntText u.minusChars = true := by
    rw [Numeral.minusChars]
    split <;> decide
  have hf : isIntText u.fractionChars = u.fractionChars.isEmpty := by
    rw [Numeral.fractionChars]
    split <;> simp [isIntText]
  have he : isIntText u.exponentChars = u.exponentChars.isEmpty := by
    rw [Numeral.exponentChars]
    split <;> simp [isIntText]
  simp only [Numeral.chars, isIntText_append, hm, isIntText_of_digits u.whole_digits, hf, he,
    Bool.true_and]

/-- The text of a number is one token, but for the name with a sign. -/
def numberStream (n : Number) (s : TokenStream) : TokenStream :=
  match n with
  | .finite .. => .next (if isIntText n.chars then .int n.text else .float n.text) s
  | .infinite true => .fault (.digitExpected (some 'I'))
  | n => .next (.name n.text) s

theorem lex_number (n : Number) (hr : Stops isWordPart rest) :
    lex (n.chars ++ rest) = numberStream n (lex rest) := by
  have hn : Stops isNamePart rest := hr.mono fun _ => isWordPart_of_isNamePart
  match n with
  | .nan => exact lex_name (s := "NaN") (by decide) hn
  | .infinite false => exact lex_name (s := "Infinity") (by decide) hn
  | .infinite true => exact lex_minus_of_isNameStart (c := 'I') (by decide) _
  | .finite s m e hc =>
    obtain ⟨u, hu⟩ := Number.exists_numeral (Number.isFinite_finite s m e hc)
    rw [numberStream, Number.text, ← hu, lex_numeral u hr, numeralToken, isIntText_numeral]

theorem beginsWord_numberStream (n : Number) (s : TokenStream) :
    BeginsWord (numberStream n s) := by
  match n with
  | .nan | .infinite true | .infinite false => trivial
  | .finite s m e hc =>
    rw [numberStream]
    split <;> trivial

theorem agrees_number (n : Number) (hr : Stops isWordPart rest) :
    Agrees (answer (value constant (lex (n.chars ++ rest)))) (numberMeaning? n) (lex rest) := by
  rw [lex_number n hr]
  match n with
  | .nan => exact value_name constant "NaN"
  | .infinite false => exact value_name constant "Infinity"
  | .infinite true => exact agrees_none ⟨_, value_fault constant _⟩
  | .finite s m e hc =>
    rw [numberStream, numberMeaning?]
    by_cases hi : isIntText (Number.finite s m e hc).chars = true
    · rw [if_pos hi, if_pos hi]
      exact value_int constant _
    · rw [if_neg hi, if_neg hi]
      exact value_float constant _

theorem agrees_word {s : String} (h : isName s = true) (hr : Stops isWordPart rest) :
    answer (value constant (lex (s.toList ++ rest))) = .ok (wordMeaning s, lex rest) := by
  rw [lex_name h (hr.mono fun _ => isWordPart_of_isNamePart), ← namedValue_eq]
  exact value_name constant s

theorem chars_number_identifier (n : Number) : (Identifier.number n).chars = n.chars := by
  rw [Identifier.chars, Identifier.text, Number.toList_text]

theorem agrees_identifier {i : Identifier} (h : i.Safe) (hr : Stops isWordPart rest) :
    Agrees (answer (value constant (lex (i.chars ++ rest)))) i.meaning? (lex rest) := by
  cases i with
  | number n =>
    rw [chars_number_identifier]
    exact agrees_number n hr
  | _ =>
    rcases h with h | ⟨n, hn⟩
    · exact agrees_word h hr
    · cases hn

/-! Values. -/

theorem accept_lex_quote (p : Punctuator) (cs : List Char) : accept p (lex ('"' :: cs)) = none := by
  rcases lex_quote cs with ⟨f, h⟩ | ⟨x, s, h | h⟩ <;> rw [h] <;> rfl

theorem stuck_lex_quote (cs : List Char) : Stuck (lex ('"' :: cs)) := by
  rcases lex_quote cs with ⟨f, h⟩ | ⟨x, s, h | h⟩ <;> rw [h] <;> trivial

theorem stuck_bodyChars {n : Node} (h : n.isBare = false) :
    Stuck (lex (n.bodyChars ++ rest)) := by
  have hopen : ∀ cs, Stuck (lex ('(' :: cs)) := fun cs => by
    rw [lex_parenOpen]
    exact Or.inl rfl
  obtain ⟨i, name, args, ps, children⟩ := n
  cases name with
  | some s =>
    show Stuck (lex (' ' :: '"' :: _))
    rw [lex_space]
    exact stuck_lex_quote _
  | none =>
    rcases args with _ | _ | ⟨a, as⟩
    · rcases ps with _ | _ | ⟨q, qs⟩
      · cases children with
        | nil => cases h
        | cons m ms =>
          show Stuck (lex ('\x7b' :: _))
          rw [lex_braceOpen]
          exact Or.inr rfl
      · exact hopen _
      · exact hopen _
    · exact hopen _
    · exact hopen _

theorem bodyChars_of_isBare {n : Node} (h : n.isBare = true) : n.bodyChars = [] := by
  obtain ⟨i, name, args, ps, children⟩ := n
  simp only [Node.isBare, Bool.and_eq_true, Option.isNone_iff_eq_none, List.isEmpty_iff] at h
  obtain ⟨⟨⟨rfl, rfl⟩, rfl⟩, rfl⟩ := h
  rfl

theorem lex_argument {name : String} (h : isName name = true) (v : Value) :
    lex ((Argument.mk name v).chars ++ rest) =
      .next (.name name) (.next (.punctuator .colon) (lex (v.chars ++ rest))) := by
  rw [chars_argument, List.append_assoc, List.cons_append, lex_name h (stops_cons.2 (by decide)),
    lex_colon]

theorem Argument.Safe.beginsWord {a : Argument} (h : a.Safe) :
    BeginsWord (lex (a.chars ++ rest)) := by
  obtain ⟨name, v⟩ := a
  rw [Argument.Safe] at h
  rw [lex_argument h.1]
  trivial

theorem labelled_of_stuck {s : TokenStream} (h : Stuck s) :
    ∃ f, answer (labelled s fun u _ => value constant u) = .error f := by
  obtain ⟨f, hf⟩ := name_of_stuck h
  exact ⟨f, labelled_of_error hf⟩

/-- A value is read as the input value that it means, in front of any text that ends it; as a
constant it is read in the same way if it has no variables. -/
def Value.IsRead (constant : Bool) (v : Value) : Prop :=
  ∀ rest, EndsValue rest →
    Agrees (answer (value constant (lex (v.chars ++ rest)))) v.meaning? (lex rest)

def Argument.IsRead (constant : Bool) (a : Argument) : Prop :=
  ∀ rest, EndsValue rest →
    Agrees (answer (labelled (lex (a.chars ++ rest)) fun t _ => Parser.value constant t))
      a.meaning? (lex rest)

mutual

theorem Value.agrees (v : Value) (hs : v.Safe) (hc : constant = true → v.Constant) :
    v.IsRead constant := by
  intro rest he
  rcases v with s | s | as | s | n | n
  · rw [Value.Safe] at hs
    rw [chars_token, Value.meaning?]
    exact agrees_word hs he.word
  · rw [Value.Safe] at hs
    rw [Value.Constant, imp_false, Bool.not_eq_true] at hc
    rw [chars_variable, Value.meaning?, List.cons_append, lex_dollar,
      lex_name hs (he.word.mono fun _ => isWordPart_of_isNamePart), hc]
    exact value_variable s
  · rw [Value.Safe] at hs
    rw [Value.Constant] at hc
    rw [chars_object, Value.meaning?, fieldMeanings?_eq_mapM]
    cases as with
    | nil =>
      rw [bracketed, List.cons_append, lex_braceOpen, List.cons_append, lex_braceClose]
      exact value_object_close constant
    | cons a as =>
      have ha := arguments_agree (a :: as) hs hc
      rw [bracketed_cons_append, lex_braceOpen,
        value_object (accept_of_beginsWord (ha a (by simp)).1.beginsWord _)]
      refine (Yields.map ?_ _).agrees
      exact yields_itemsUntil fieldDelimiters (fun s => labelled_of_stuck) a as
        (fun b hb cs hcs => (ha b hb).2 cs hcs.toEndsValue)
        (fun b hb cs _ => (ha b (List.mem_cons_of_mem _ hb)).1.beginsWord) rest
  · rw [Value.Safe] at hs
    rw [chars_string, Value.meaning?, List.cons_append, List.append_assoc, List.cons_append,
      List.nil_append]
    cases hl : s.toList.any isLineEnd with
    | true =>
      rw [lex_string_of_lineEnd hs.1 hs.2 hl he.quote]
      exact agrees_none ⟨_, value_fault constant _⟩
    | false =>
      rw [lex_string hs.1 hs.2 hl he.quote]
      exact value_string constant s
  · rw [chars_number, Value.meaning?]
    exact agrees_number n he.word
  · rw [Value.Safe] at hs
    rw [chars_graph, Value.meaning?, Node.chars_eq, List.append_assoc]
    have hw : Stops isWordPart (n.bodyChars ++ rest) :=
      stops_bodyChars n (by decide) (by decide) (by decide) he.word
    have hi : Agrees (answer (value constant (lex (n.identifier.chars ++ (n.bodyChars ++ rest)))))
        n.identifier.meaning? (lex (n.bodyChars ++ rest)) := agrees_identifier hs hw
    cases hb : n.isBare with
    | true =>
      rw [bodyChars_of_isBare hb, List.nil_append] at hi ⊢
      exact hi
    | false => exact hi.of_stuck (stuck_bodyChars hb)
termination_by structural v

theorem Argument.agrees (a : Argument) (hs : a.Safe) (hc : constant = true → a.Constant) :
    a.IsRead constant := by
  intro rest he
  obtain ⟨name, v⟩ := a
  rw [Argument.Safe] at hs
  rw [Argument.Constant] at hc
  rw [lex_argument hs.1, labelled_next, Argument.meaning?]
  exact (Value.agrees v hs.2 hc rest he).map (name, ·)
termination_by structural a

theorem arguments_agree (as : List Argument) (hs : SafeArguments as)
    (hc : constant = true → ConstantArguments as) :
    ∀ a ∈ as, a.Safe ∧ a.IsRead constant := by
  intro a ha
  match as with
  | [] => cases ha
  | b :: bs =>
    rw [SafeArguments] at hs
    rw [ConstantArguments] at hc
    rcases List.mem_cons.1 ha with hab | ha
    · rw [hab]
      exact ⟨hs.1, Argument.agrees b hs.1 fun h => (hc h).1⟩
    · exact arguments_agree bs hs.2 (fun h => (hc h).2) a ha
termination_by structural as

end

/-! Fields. -/

theorem Node.Safe.beginsWord {n : Node} (h : n.Safe) (hr : Stops isWordPart rest) :
    BeginsWord (lex (n.chars ++ rest)) := by
  have hb : Stops isWordPart (n.bodyChars ++ rest) :=
    stops_bodyChars n (by decide) (by decide) (by decide) hr
  have hi : n.identifier.Safe := by
    obtain ⟨i, name, args, ps, children⟩ := n
    rw [Node.Safe] at h
    exact h.1
  rw [Node.chars_eq, List.append_assoc]
  rcases hi with hi | ⟨m, hi⟩
  · rw [Identifier.chars, lex_name hi (hb.mono fun _ => isWordPart_of_isNamePart)]
    trivial
  · rw [hi, chars_number_identifier, lex_number m hb]
    exact beginsWord_numberStream m _

/-- A number as a head is no name, unless it is written as one. -/
theorem name_of_not_isName {i : Identifier} (h : i.Safe) (hn : isName i.text = false)
    (hr : Stops isWordPart rest) : ∃ f, name (lex (i.chars ++ rest)) = .error f := by
  rcases h with h | ⟨n, rfl⟩
  · rw [h] at hn
    cases hn
  · rw [chars_number_identifier, lex_number n hr]
    match n with
    | .nan | .infinite false => exact absurd hn (by decide)
    | .infinite true => exact ⟨_, rfl⟩
    | .finite s m e hc =>
      rw [numberStream]
      by_cases hi : isIntText (Number.finite s m e hc).chars = true
      · rw [if_pos hi]
        exact ⟨_, rfl⟩
      · rw [if_neg hi]
        exact ⟨_, rfl⟩

theorem agrees_argument {a : Argument}
    (h : Agrees (answer (labelled (lex (a.chars ++ rest)) fun t _ => value false t)) a.meaning?
      (lex rest)) :
    Agrees (answer (argument false (lex (a.chars ++ rest)))) a.toArgument? (lex rest) := by
  rw [argument_eq]
  exact h.map fun f => (⟨f.1, f.2⟩ : Document.Argument)

theorem argument_of_error {s : TokenStream} {f : Fault} (h : name s = .error f) :
    answer (argument false s) = .error f := by
  rw [argument_eq, labelled_of_error h]
  rfl

/-- What may be where arguments may be: they do not begin, if there are none. -/
theorem yields_arguments (args : Option (List Argument)) (hs : ∀ as ∈ args, SafeArguments as)
    (rest : List Char) (hr : args = none → accept .parenOpen (lex rest) = none) :
    Yields (answer (arguments false (lex (argumentsChars args ++ rest)))) (argumentMeanings? args)
      (lex rest) := by
  rcases args with _ | _ | ⟨a, as⟩
  · exact arguments_of_none (hr rfl)
  · rw [argumentsChars, bracketed, List.cons_append, lex_parenOpen, arguments_next,
      List.cons_append, lex_parenClose]
    exact ⟨_, itemsUntil_of_error (argument_of_error rfl)⟩
  · have ha : ∀ b ∈ a :: as, b.Safe ∧ b.IsRead false := arguments_agree _ (hs _ rfl) (by simp)
    have hstuck : ∀ s, Stuck s → ∃ f, answer (argument false s) = .error f := fun s h => by
      obtain ⟨f, hf⟩ := name_of_stuck h
      exact ⟨f, argument_of_error hf⟩
    rw [argumentsChars, bracketed_cons_append, lex_parenOpen, arguments_next]
    exact yields_itemsUntil argumentDelimiters hstuck a as
      (fun b hb cs hcs => agrees_argument ((ha b hb).2 cs hcs.toEndsValue))
      (fun b hb cs _ => (ha b (List.mem_cons_of_mem _ hb)).1.beginsWord) rest

/-- Declarations of variables are no arguments. -/
theorem arguments_of_parameters (ps : List Parameter) (rest : List Char) :
    ∃ f, answer (arguments false (lex (parametersChars (some ps) ++ rest))) = .error f := by
  cases ps with
  | nil =>
    rw [parametersChars, bracketed, List.cons_append, lex_parenOpen, arguments_next,
      List.cons_append, lex_parenClose]
    exact ⟨_, itemsUntil_of_error (argument_of_error rfl)⟩
  | cons q qs =>
    obtain ⟨s, type, required, v⟩ := q
    rw [parametersChars, bracketed_cons_append, lex_parenOpen, arguments_next, chars_parameter,
      List.cons_append, lex_dollar]
    exact ⟨_, itemsUntil_of_error (argument_of_error rfl)⟩

theorem selection_of_stuck {s : TokenStream} (h : Stuck s) :
    ∃ f, answer (selection s) = .error f := by
  obtain ⟨f, hf⟩ := name_of_stuck h
  exact ⟨f, selection_of_error hf (accept_of_stuck h (by decide) (by decide))⟩

theorem accept_childrenChars {p : Punctuator} (ns : List Node) (he : EndsPart rest)
    (hp : p ≠ .parenClose) (hc : p ≠ .braceClose) (ho : p ≠ .braceOpen) :
    accept p (lex (childrenChars ns ++ rest)) = none := by
  cases ns with
  | nil => exact accept_of_endsItem he.item hp hc
  | cons n ns =>
    rw [childrenChars, List.cons_append, lex_braceOpen]
    exact accept_of_ne (Ne.symm ho)

theorem accept_colon_bodyChars (n : Node) (he : EndsPart rest) :
    accept .colon (lex (n.bodyChars ++ rest)) = none := by
  cases hb : n.isBare with
  | true =>
    rw [bodyChars_of_isBare hb]
    exact accept_of_endsItem he.item (by decide) (by decide)
  | false => exact accept_of_stuck (stuck_bodyChars hb) (by decide) (by decide)

/-- A field with a quoted name ends before the name, where nothing goes on. -/
theorem agrees_named {x : String} (s : String) (cs : List Char)
    (hc : accept .colon (lex (nameChars (some s) ++ cs)) = none) {t : TokenStream} :
    Agrees (answer (selection (.next (.name x) (lex (nameChars (some s) ++ cs))))) none t := by
  have hl : lex (nameChars (some s) ++ cs) = lex ('"' :: (s.toList ++ ['"'] ++ cs)) := lex_space
  rw [hl] at hc ⊢
  rw [selection_bare hc (arguments_of_none (accept_lex_quote _ _)) (accept_lex_quote _ _)
    (accept_lex_quote _ _)]
  exact agrees_none_of_stuck (stuck_lex_quote _)

/-- A field with declarations ends before them, or takes them for its arguments and fails. -/
theorem agrees_declaring {x : String} (args : Option (List Argument))
    (hs : ∀ as ∈ args, SafeArguments as) (ps : List Parameter) (cs : List Char)
    (hc : accept .colon (lex (argumentsChars args ++ (parametersChars (some ps) ++ cs))) = none)
    {t : TokenStream} :
    Agrees (answer (selection (.next (.name x)
      (lex (argumentsChars args ++ (parametersChars (some ps) ++ cs)))))) none t := by
  cases args with
  | none =>
    obtain ⟨f, hf⟩ := arguments_of_parameters ps cs
    exact agrees_none ⟨f, selection_of_arguments_error hc hf⟩
  | some as =>
    have ha := yields_arguments (some as) hs (parametersChars (some ps) ++ cs) (by simp)
    cases hm : argumentMeanings? (some as) with
    | none =>
      rw [hm] at ha
      obtain ⟨f, hf⟩ := ha
      exact agrees_none ⟨f, selection_of_arguments_error hc hf⟩
    | some args =>
      rw [hm, yields_some] at ha
      obtain ⟨ds, hd⟩ : ∃ ds, parametersChars (some ps) ++ cs = '(' :: ds := by
        cases ps <;> exact ⟨_, rfl⟩
      have ho : lex (parametersChars (some ps) ++ cs) =
          .next (.punctuator .parenOpen) (lex ds) := by
        rw [hd, lex_parenOpen]
      rw [ho] at ha
      rw [selection_bare hc ha (accept_of_ne (by decide)) (accept_of_ne (by decide))]
      exact agrees_none_of_stuck (Or.inl rfl)

/-- A node is read as the field that it means, in front of any text that ends it. -/
def Node.IsRead (n : Node) : Prop :=
  ∀ rest, EndsPart rest → Agrees (answer (selection (lex (n.chars ++ rest)))) n.meaning? (lex rest)

/-- Fields up to the brace that closes them are read if each of them is. -/
theorem yields_fields (n : Node) (ns : List Node) (h : ∀ m ∈ n :: ns, m.Safe ∧ m.IsRead)
    (rest : List Char) :
    Yields (answer (itemsUntil .braceClose
        (lex (n.chars ++ (trail ' ' Node.chars ns ++ '\x7d' :: rest))) fun t _ => selection t))
      (nodeMeanings? (n :: ns)) (lex rest) := by
  rw [nodeMeanings?_eq_mapM]
  exact yields_itemsUntil selectionDelimiters (fun s => selection_of_stuck) n ns
    (fun m hm cs hcs => (h m hm).2 cs hcs)
    (fun m hm cs hcs => (h m (List.mem_cons_of_mem _ hm)).1.beginsWord hcs) rest

/-- A field without a quoted name and declarations is read if its children are. -/
theorem agrees_field {x : String} (args : Option (List Argument))
    (hs : ∀ as ∈ args, SafeArguments as) (children : List Node)
    (hn : ∀ n ∈ children, n.Safe ∧ n.IsRead) (he : EndsPart rest)
    (hc : accept .colon (lex (argumentsChars args ++ (childrenChars children ++ rest))) = none) :
    Agrees (answer (selection (.next (.name x)
        (lex (argumentsChars args ++ (childrenChars children ++ rest))))))
      ((argumentMeanings? args).bind fun as => (nodeMeanings? children).bind fun ss =>
        some (.field none x as [] (selectionSet? ss))) (lex rest) := by
  have harguments := yields_arguments args hs (childrenChars children ++ rest) fun _ =>
    accept_childrenChars children he (by decide) (by decide) (by decide)
  cases hm : argumentMeanings? args with
  | none =>
    rw [hm] at harguments
    obtain ⟨f, hf⟩ := harguments
    exact agrees_none ⟨f, selection_of_arguments_error hc hf⟩
  | some as =>
    rw [hm, yields_some] at harguments
    rw [Option.bind_some]
    cases children with
    | nil =>
      rw [nodeMeanings?_eq_mapM]
      exact selection_bare hc harguments (accept_of_endsItem he.item (by decide) (by decide))
        (accept_of_endsItem he.item (by decide) (by decide))
    | cons m ms =>
      rw [childrenChars_cons_append] at hc harguments ⊢
      rw [lex_braceOpen] at harguments
      rw [selection_below hc harguments]
      have hfield := (yields_fields m ms hn rest).map fun ss =>
        Selection.field none x as [] (some ss)
      rw [nodeMeanings?_eq_mapM] at hfield ⊢
      cases hss : (m :: ms).mapM Node.meaning? with
      | none =>
        rw [hss] at hfield
        exact hfield.agrees
      | some ss =>
        rw [hss] at hfield
        obtain ⟨s, ss, rfl⟩ := exists_of_mapM_cons hss
        exact hfield.agrees

theorem meaning?_of_not_isName {n : Node} (h : isName n.identifier.text = false) :
    n.meaning? = none := by
  unfold Node.meaning?
  split <;> simp_all

mutual

theorem Node.agrees (n : Node) (hs : n.Safe) : n.IsRead := by
  intro rest he
  have hb : Stops isWordPart (n.bodyChars ++ rest) :=
    stops_bodyChars n (by decide) (by decide) (by decide) he.word
  have hc := accept_colon_bodyChars n he
  have hw := hs.beginsWord he.word
  rw [Node.chars_eq, List.append_assoc] at hw ⊢
  obtain ⟨i, name, args, ps, children⟩ := n
  rw [Node.Safe] at hs
  obtain ⟨hi, ha, hn⟩ := hs
  by_cases hname : isName i.text = true
  · rw [Identifier.chars, lex_name hname (hb.mono fun _ => isWordPart_of_isNamePart)]
    rw [bodyChars_append] at hc ⊢
    cases name with
    | some s => exact agrees_named s _ hc
    | none =>
      cases ps with
      | some ps => exact agrees_declaring args ha ps _ hc
      | none =>
        rw [Node.meaning?, if_pos hname]
        exact agrees_field args ha children (nodes_agree children hn) he hc
  · have hname' : isName i.text = false := by simpa using hname
    obtain ⟨f, hf⟩ := name_of_not_isName hi hname' hb
    rw [meaning?_of_not_isName hname']
    exact agrees_none ⟨f, selection_of_error hf (accept_of_beginsWord hw _)⟩
termination_by structural n

theorem nodes_agree (ns : List Node) (hs : SafeNodes ns) : ∀ n ∈ ns, n.Safe ∧ n.IsRead := by
  intro n hn
  match ns with
  | [] => cases hn
  | m :: ms =>
    rw [SafeNodes] at hs
    rcases List.mem_cons.1 hn with hnm | hn
    · rw [hnm]
      exact ⟨hs.1, Node.agrees m hs.1⟩
    · exact nodes_agree ms hs.2 n hn
termination_by structural ns

end

end GraphQuery.Graph
