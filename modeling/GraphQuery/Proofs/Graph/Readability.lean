import GraphQuery.Proofs.Graph.Likeness

/-! Unique readability: two graphs whose texts are free of delimiters have one text only if they
are alike. A part is told from what follows it, so two runs over one text stay together. -/
namespace GraphQuery.Graph

open Document Text

variable {rest r₁ r₂ : List Char} {p : Char → Bool}

/-- What stands behind a value: a separator, the end of a list, or nothing. -/
def Closes (rest : List Char) : Prop := Stops (fun c => !(c == ',' || c == ')' || c == '\x7d')) rest

/-- What stands behind a node: what stands behind a value, or the next node. -/
def EndsNode (rest : List Char) : Prop :=
  Closes rest ∨ ∃ c cs, rest = ' ' :: c :: cs ∧ isWordPart c = true

@[simp] theorem closes_nil : Closes [] := stops_nil

@[simp] theorem closes_comma : Closes (',' :: rest) := stops_cons.2 rfl

@[simp] theorem closes_paren : Closes (')' :: rest) := stops_cons.2 rfl

@[simp] theorem closes_brace : Closes ('\x7d' :: rest) := stops_cons.2 rfl

theorem Closes.stops (h : Closes rest) (hc : p ',' = false) (hp : p ')' = false)
    (hb : p '\x7d' = false) : Stops p rest := by
  intro c hr
  have hd := h c hr
  simp only [Bool.not_eq_false', Bool.or_eq_true, beq_iff_eq] at hd
  rcases hd with (rfl | rfl) | rfl <;> assumption

theorem EndsNode.stops (h : EndsNode rest) (hs : p ' ' = false) (hc : p ',' = false)
    (hp : p ')' = false) (hb : p '\x7d' = false) : Stops p rest := by
  rcases h with h | ⟨c, cs, rfl, _⟩
  · exact h.stops hc hp hb
  · exact stops_cons.2 hs

/-! A part that is absent is told from one that is there by the first characters. -/

def NoName (rest : List Char) : Prop := ∀ cs, rest ≠ ' ' :: '"' :: cs

def NoArguments (rest : List Char) : Prop := ∀ c cs, rest = '(' :: c :: cs → c = '$'

theorem EndsNode.noName (h : EndsNode rest) : NoName rest := by
  rintro cs rfl
  rcases h with h | ⟨c, ds, hd, hc⟩
  · exact absurd (stops_cons.1 h) (by decide)
  · cases hd
    revert hc
    decide

theorem noName_append {part : List Char} {d : Char} (hd : d ≠ ' ')
    (hpart : part = [] ∨ ∃ cs, part = d :: cs) (hr : NoName rest) : NoName (part ++ rest) := by
  rcases hpart with rfl | ⟨cs, rfl⟩
  · exact hr
  · intro ds h
    exact hd (List.cons.inj h).1

theorem noArguments_of_stops (h : Stops (· == '(') rest) : NoArguments rest := by
  rintro c cs rfl
  exact absurd (stops_cons.1 h) (by decide)

theorem noArguments_parameters (ps : Option (List Parameter)) (hp : CleanParameterList ps)
    (hr : Stops (· == '(') rest) : NoArguments (parametersChars ps ++ rest) := by
  rcases ps with _ | _ | ⟨q, qs⟩
  · exact noArguments_of_stops hr
  · exact absurd rfl hp.1
  · obtain ⟨name, type, required, v⟩ := q
    intro c cs h
    simp only [parametersChars, bracketed, chars_parameter, List.cons_append, List.cons.injEq] at h
    exact h.2.1.symm

theorem noName_body (args : Option (List Argument)) (ps : Option (List Parameter))
    (ns : List Node) (hr : NoName rest) :
    NoName (argumentsChars args ++ (parametersChars ps ++ (childrenChars ns ++ rest))) := by
  refine noName_append (by decide) (argumentsChars_eq_nil_or_cons args) ?_
  refine noName_append (by decide) (parametersChars_eq_nil_or_cons ps) ?_
  exact noName_append (by decide) (childrenChars_eq_nil_or_cons ns) hr

/-! Which kind of value it is shows in its first character, but for words. -/

/-- The delimiter that a value begins with. -/
def Value.mark : Value → Option Char
  | .variable _ => some '$'
  | .object _ => some '\x7b'
  | .string _ => some '"'
  | _ => none

theorem not_isWordPart_of_mark {v : Value} {c : Char} (h : v.mark = some c) :
    isWordPart c = false := by
  rcases v with s | s | fields | s | n | n <;> cases h <;> decide

theorem Identifier.Clean.isWord {i : Identifier} (h : i.Clean) : IsWord i.chars := by
  rcases h with h | ⟨n, rfl, hn⟩
  · exact .name h
  · simpa [Identifier.chars, Identifier.text] using IsWord.ofNumber hn

theorem Node.Clean.exists_chars {n : Node} (h : n.Clean) :
    ∃ c cs, n.chars = c :: cs ∧ isWordPart c = true := by
  obtain ⟨i, name, args, ps, children⟩ := n
  rw [Node.Clean] at h
  obtain ⟨c, cs, hi, hc⟩ := h.1.isWord.exists_cons
  rw [chars_node, hi]
  exact ⟨c, _, rfl, hc⟩

theorem Value.Clean.exists_chars {v : Value} (h : v.Clean) :
    ∃ c cs, v.chars = c :: cs ∧ (v.mark = some c ∨ v.mark = none ∧ isWordPart c = true) := by
  rcases v with s | s | fields | s | n | n
  · rw [Value.Clean] at h
    obtain ⟨c, cs, hs, hc⟩ := (IsWord.name h).exists_cons
    exact ⟨c, cs, by rw [chars_token, hs], Or.inr ⟨rfl, hc⟩⟩
  · exact ⟨'$', _, chars_variable s, Or.inl rfl⟩
  · rw [chars_object]
    cases fields with
    | nil => exact ⟨_, _, rfl, Or.inl rfl⟩
    | cons a fields => exact ⟨_, _, rfl, Or.inl rfl⟩
  · exact ⟨'"', _, chars_string s, Or.inl rfl⟩
  · rw [Value.Clean] at h
    obtain ⟨c, cs, hs, hc⟩ := (IsWord.ofNumber h).exists_cons
    exact ⟨c, cs, by rw [chars_number, hs], Or.inr ⟨rfl, hc⟩⟩
  · rw [Value.Clean] at h
    obtain ⟨c, cs, hs, hc⟩ := h.2.exists_chars
    exact ⟨c, cs, by rw [chars_graph, hs], Or.inr ⟨rfl, hc⟩⟩

theorem mark_eq {v w : Value} (hv : v.Clean) (hw : w.Clean) (h : v.chars ++ r₁ = w.chars ++ r₂) :
    v.mark = w.mark := by
  obtain ⟨c, cs, hvc, hc⟩ := hv.exists_chars
  obtain ⟨d, ds, hwd, hd⟩ := hw.exists_chars
  rw [hvc, hwd] at h
  obtain rfl : c = d := (List.cons.inj h).1
  rcases hc with hc | ⟨hc, hcp⟩ <;> rcases hd with hd | ⟨hd, hdp⟩
  · rw [hc, hd]
  · rw [not_isWordPart_of_mark hc] at hdp
    cases hdp
  · rw [not_isWordPart_of_mark hd] at hcp
    cases hcp
  · rw [hc, hd]

/-- Two texts up to the closing quote. -/
theorem quoted_eq {s t : String} (hs : '"' ∉ s.toList) (ht : '"' ∉ t.toList)
    (h : s.toList ++ ['"'] ++ r₁ = t.toList ++ ['"'] ++ r₂) : s = t ∧ r₁ = r₂ := by
  have hp : ∀ u : String, '"' ∉ u.toList → ∀ c ∈ u.toList, (c != '"') = true := by
    intro u hu c hc
    rw [bne_iff_ne]
    rintro rfl
    exact hu hc
  rw [List.append_assoc, List.append_assoc] at h
  obtain ⟨hst, hr⟩ := run_eq (hp s hs) (hp t ht) (stops_cons.2 rfl) (stops_cons.2 rfl) h
  exact ⟨String.toList_inj.1 hst, (List.cons.inj hr).2⟩

/-- Two words with what follows them. -/
theorem word_eq {w₁ w₂ : List Char} (hw₁ : IsWord w₁) (hw₂ : IsWord w₂) (h₁ : Stops isWordPart r₁)
    (h₂ : Stops isWordPart r₂) (h : w₁ ++ r₁ = w₂ ++ r₂) : w₁ = w₂ ∧ r₁ = r₂ :=
  run_eq hw₁.isWordPart hw₂.isWordPart h₁ h₂ h

theorem Closes.stops_word (h : Closes rest) : Stops isWordPart rest :=
  h.stops (by decide) (by decide) (by decide)

theorem EndsNode.stops_word (h : EndsNode rest) : Stops isWordPart rest :=
  h.stops (by decide) (by decide) (by decide) (by decide)

/-- A node that is more than its head goes on in a way that no value ends. -/
theorem not_closes_bodyChars {n : Node} (h : n.isBare = false) :
    ¬ Closes (n.bodyChars ++ rest) := by
  obtain ⟨i, name, args, ps, children⟩ := n
  intro hc
  cases name with
  | some s => exact absurd (stops_cons.1 hc) (by decide)
  | none =>
    rcases args with _ | _ | ⟨a, as⟩
    · rcases ps with _ | _ | ⟨q, qs⟩
      · cases children with
        | nil => cases h
        | cons m ms => exact absurd (stops_cons.1 hc) (by decide)
      · exact absurd (stops_cons.1 hc) (by decide)
      · exact absurd (stops_cons.1 hc) (by decide)
    · exact absurd (stops_cons.1 hc) (by decide)
    · exact absurd (stops_cons.1 hc) (by decide)

/-- A word alone is not taken for a node that is more than its head. -/
theorem word_ne_node {w : List Char} {n : Node} (hw : IsWord w) (hn : n.Clean)
    (hb : n.isBare = false) (h₁ : Closes r₁) (h₂ : Closes r₂) :
    w ++ r₁ ≠ n.chars ++ r₂ := by
  intro h
  rw [Node.chars_eq, List.append_assoc] at h
  have hi : n.identifier.Clean := by
    obtain ⟨i, name, args, ps, children⟩ := n
    rw [Node.Clean] at hn
    exact hn.1
  have hs : Stops isWordPart (n.bodyChars ++ r₂) :=
    stops_bodyChars n (by decide) (by decide) (by decide) h₂.stops_word
  obtain ⟨-, rfl⟩ := word_eq hw hi.isWord h₁.stops_word hs h
  exact not_closes_bodyChars hb h₁

/-! The parts of nodes and of parameters in which there are no values. -/

theorem name_eq {a b : Option String} (ha : CleanName a) (hb : CleanName b) (h₁ : NoName r₁)
    (h₂ : NoName r₂) (h : nameChars a ++ r₁ = nameChars b ++ r₂) : a = b ∧ r₁ = r₂ := by
  cases a with
  | none =>
    cases b with
    | none => exact ⟨rfl, h⟩
    | some t => exact absurd h (h₁ _)
  | some s =>
    cases b with
    | none => exact absurd h.symm (h₂ _)
    | some t =>
      obtain ⟨hst, hr⟩ := quoted_eq (ha s rfl) (hb t rfl) (List.cons.inj (List.cons.inj h).2).2
      rw [hst]
      exact ⟨rfl, hr⟩

theorem type_eq {s t : String} {a b : Bool} (hs : IsTypeText s) (ht : IsTypeText t)
    (h : s.toList ++ (if a then ['!'] else []) = t.toList ++ (if b then ['!'] else [])) :
    s = t ∧ a = b := by
  have hlast : ∀ cs : List Char, (cs ++ ['!']).getLast? = some '!' := by simp
  cases a <;> cases b <;> simp only [if_true, Bool.false_eq_true, if_false, List.append_nil] at h
  · exact ⟨String.toList_inj.1 h, rfl⟩
  · exact absurd (h ▸ hlast t.toList) hs.last
  · exact absurd (h ▸ hlast s.toList) ht.last
  · exact ⟨String.toList_inj.1 (List.append_cancel_right h), rfl⟩

theorem isTypePart_of_mem {s : String} {a : Bool} (hs : IsTypeText s) :
    ∀ c ∈ s.toList ++ (if a then ['!'] else []), isTypePart c = true := by
  intro c hc
  rcases List.mem_append.1 hc with hc | hc
  · exact hs.parts c hc
  · cases a with
    | false => cases hc
    | true =>
      rw [List.mem_singleton.1 hc]
      decide

theorem stops_default (v : Option Value) (hr : Closes rest) :
    Stops isTypePart (defaultChars v ++ rest) := by
  cases v with
  | none => exact hr.stops (by decide) (by decide) (by decide)
  | some v => exact stops_cons.2 (by decide)

/-- A delimiter that ends a list. -/
def IsClosing (c : Char) : Prop := c = ')' ∨ c = '\x7d'

theorem IsClosing.not_isWordPart {c : Char} (h : IsClosing c) : isWordPart c = false := by
  rcases h with rfl | rfl <;> decide

theorem IsClosing.ne_comma {c : Char} (h : IsClosing c) : c ≠ ',' := by
  rcases h with rfl | rfl <;> decide

theorem closes_trail {α : Type} {c : Char} (chars : α → List Char) (items : List α)
    (hc : IsClosing c) : Closes (trail ',' chars items ++ c :: rest) := by
  cases items with
  | nil => rcases hc with rfl | rfl <;> simp
  | cons a items => simp

theorem endsNode_trail (ns : List Node) (hn : CleanNodes ns) :
    EndsNode (trail ' ' Node.chars ns ++ '\x7d' :: rest) := by
  cases ns with
  | nil => exact Or.inl closes_brace
  | cons n ns =>
    rw [CleanNodes] at hn
    obtain ⟨c, cs, h, hc⟩ := hn.1.exists_chars
    rw [trail_cons, h]
    exact Or.inr ⟨c, _, rfl, hc⟩

theorem Argument.Clean.exists_chars {a : Argument} (h : a.Clean) :
    ∃ c cs, a.chars = c :: cs ∧ isWordPart c = true := by
  obtain ⟨name, v⟩ := a
  rw [Argument.Clean] at h
  obtain ⟨c, cs, hs, hc⟩ := (IsWord.name h.1).exists_cons
  rw [chars_argument, hs]
  exact ⟨c, _, rfl, hc⟩

theorem ne_arguments {as : List Argument} (hne : as ≠ []) (ha : CleanArguments as)
    (hr : NoArguments r₁) : r₁ ≠ bracketed '(' ')' Argument.chars as ++ r₂ := by
  intro h
  cases as with
  | nil => exact hne rfl
  | cons a as =>
    rw [CleanArguments] at ha
    obtain ⟨c, cs, hs, hc⟩ := ha.1.exists_chars
    rw [bracketed, hs] at h
    rw [hr c _ h] at hc
    revert hc
    decide

theorem ne_parameters {ps : List Parameter} (hne : ps ≠ []) (hr : Stops (· == '(') r₁) :
    r₁ ≠ bracketed '(' ')' Parameter.chars ps ++ r₂ := by
  rintro rfl
  cases ps with
  | nil => exact hne rfl
  | cons p ps => exact absurd (stops_cons.1 hr) (by decide)

/-! Two runs over one text, by induction on the first graph. What follows a part is only known to
end the part, so each run also says that both texts go on the same. -/

mutual

theorem Value.alike_of_chars_eq (v w : Value) (hv : v.Clean) (hw : w.Clean) {r₁ r₂ : List Char}
    (h₁ : Closes r₁) (h₂ : Closes r₂) (h : v.chars ++ r₁ = w.chars ++ r₂) :
    v.Alike w ∧ r₁ = r₂ := by
  have hm := mark_eq hv hw h
  rcases v with s | s | as | s | m | m <;> rcases w with t | t | bs | t | n | n <;>
    first
    | (simp [Value.mark] at hm; done)
    | simp only [Value.Clean, chars_token, chars_variable, chars_object, chars_string,
        chars_number, chars_graph] at hv hw h
  -- Of the pairs with one mark, nine are pairs of words.
  · obtain ⟨hst, hr⟩ := word_eq (.name hv) (.name hw) h₁.stops_word h₂.stops_word h
    rw [String.toList_inj.1 hst]
    exact ⟨.token t, hr⟩
  · obtain ⟨u, hu⟩ := Number.exists_numeral hw
    have hst := (word_eq (.name hv) (.ofNumber hw) h₁.stops_word h₂.stops_word h).1
    exact absurd (hst.trans hu.symm) (name_ne_numeral hv u)
  · exact absurd h (word_ne_node (.name hv) hw.2 hw.1 h₁ h₂)
  · obtain ⟨hst, hr⟩ := word_eq (.name hv) (.name hw) h₁.stops_word h₂.stops_word
      (List.cons.inj h).2
    rw [String.toList_inj.1 hst]
    exact ⟨.reference t, hr⟩
  · obtain ⟨ha, hr⟩ := bracketed_alike_of_eq as bs hv hw (Or.inr rfl) h
    exact ⟨.object ha, hr⟩
  · obtain ⟨hst, hr⟩ := quoted_eq hv hw (List.cons.inj h).2
    rw [hst]
    exact ⟨.string t, hr⟩
  · obtain ⟨u, hu⟩ := Number.exists_numeral hv
    have hst := (word_eq (.ofNumber hv) (.name hw) h₁.stops_word h₂.stops_word h).1
    exact absurd (hst.symm.trans hu.symm) (name_ne_numeral hw u)
  · obtain ⟨hmn, hr⟩ := word_eq (.ofNumber hv) (.ofNumber hw) h₁.stops_word h₂.stops_word h
    rw [← Number.toList_text, ← Number.toList_text] at hmn
    exact ⟨.number (String.toList_inj.1 hmn), hr⟩
  · exact absurd h (word_ne_node (.ofNumber hv) hw.2 hw.1 h₁ h₂)
  · exact absurd h.symm (word_ne_node (.name hw) hv.2 hv.1 h₂ h₁)
  · exact absurd h.symm (word_ne_node (.ofNumber hw) hv.2 hv.1 h₂ h₁)
  · obtain ⟨hn, hr⟩ := Node.alike_of_chars_eq m n hv.2 hw.2 (Or.inl h₁) (Or.inl h₂) h
    exact ⟨.graph hn, hr⟩
termination_by structural v

theorem Argument.alike_of_chars_eq (a b : Argument) (ha : a.Clean) (hb : b.Clean)
    {r₁ r₂ : List Char} (h₁ : Closes r₁) (h₂ : Closes r₂) (h : a.chars ++ r₁ = b.chars ++ r₂) :
    a.Alike b ∧ r₁ = r₂ := by
  obtain ⟨s, v⟩ := a
  obtain ⟨t, w⟩ := b
  rw [Argument.Clean] at ha hb
  simp only [chars_argument, List.append_assoc, List.cons_append] at h
  obtain ⟨hst, hvw⟩ := word_eq (.name ha.1) (.name hb.1) (stops_cons.2 (by decide))
    (stops_cons.2 (by decide)) h
  obtain ⟨hv, hr⟩ := Value.alike_of_chars_eq v w ha.2 hb.2 h₁ h₂ (List.cons.inj hvw).2
  rw [String.toList_inj.1 hst]
  exact ⟨.mk t hv, hr⟩
termination_by structural a

theorem trail_alike_of_eq (as bs : List Argument) (ha : CleanArguments as)
    (hb : CleanArguments bs) {r₁ r₂ : List Char} {c : Char} (hc : IsClosing c)
    (h : trail ',' Argument.chars as ++ c :: r₁ = trail ',' Argument.chars bs ++ c :: r₂) :
    AlikeArguments as bs ∧ r₁ = r₂ := by
  match as, bs with
  | [], [] => exact ⟨.nil, (List.cons.inj h).2⟩
  | [], b :: bs => exact absurd (List.cons.inj h).1 hc.ne_comma
  | a :: as, [] => exact absurd (List.cons.inj h).1.symm hc.ne_comma
  | a :: as, b :: bs =>
    rw [CleanArguments] at ha hb
    rw [trail_cons_append, trail_cons_append] at h
    obtain ⟨hab, ht⟩ := Argument.alike_of_chars_eq a b ha.1 hb.1
      (closes_trail Argument.chars as hc) (closes_trail Argument.chars bs hc) (List.cons.inj h).2
    obtain ⟨hs, hr⟩ := trail_alike_of_eq as bs ha.2 hb.2 hc ht
    exact ⟨.cons hab hs, hr⟩
termination_by structural as

theorem bracketed_alike_of_eq (as bs : List Argument) (ha : CleanArguments as)
    (hb : CleanArguments bs) {r₁ r₂ : List Char} {o c : Char} (hc : IsClosing c)
    (h : bracketed o c Argument.chars as ++ r₁ = bracketed o c Argument.chars bs ++ r₂) :
    AlikeArguments as bs ∧ r₁ = r₂ := by
  match as, bs with
  | [], [] => exact ⟨.nil, (List.cons.inj (List.cons.inj h).2).2⟩
  | [], b :: bs =>
    rw [CleanArguments] at hb
    obtain ⟨d, ds, hd, hdp⟩ := hb.1.exists_chars
    simp only [bracketed, hd, List.cons_append, List.cons.injEq, true_and] at h
    rw [← h.1, hc.not_isWordPart] at hdp
    cases hdp
  | a :: as, [] =>
    rw [CleanArguments] at ha
    obtain ⟨d, ds, hd, hdp⟩ := ha.1.exists_chars
    simp only [bracketed, hd, List.cons_append, List.cons.injEq, true_and] at h
    rw [h.1, hc.not_isWordPart] at hdp
    cases hdp
  | a :: as, b :: bs =>
    rw [CleanArguments] at ha hb
    rw [bracketed_cons_append, bracketed_cons_append] at h
    obtain ⟨hab, ht⟩ := Argument.alike_of_chars_eq a b ha.1 hb.1
      (closes_trail Argument.chars as hc) (closes_trail Argument.chars bs hc) (List.cons.inj h).2
    obtain ⟨hs, hr⟩ := trail_alike_of_eq as bs ha.2 hb.2 hc ht
    exact ⟨.cons hab hs, hr⟩
termination_by structural as

theorem arguments_alike_of_eq (as bs : Option (List Argument)) (ha : CleanArgumentList as)
    (hb : CleanArgumentList bs) {r₁ r₂ : List Char} (h₁ : NoArguments r₁) (h₂ : NoArguments r₂)
    (h : argumentsChars as ++ r₁ = argumentsChars bs ++ r₂) :
    AlikeArgumentList as bs ∧ r₁ = r₂ := by
  match as, bs with
  | none, none => exact ⟨.none, h⟩
  | none, some bs =>
    rw [CleanArgumentList] at hb
    exact absurd h (ne_arguments hb.1 hb.2 h₁)
  | some as, none =>
    rw [CleanArgumentList] at ha
    exact absurd h.symm (ne_arguments ha.1 ha.2 h₂)
  | some as, some bs =>
    rw [CleanArgumentList] at ha hb
    obtain ⟨hs, hr⟩ := bracketed_alike_of_eq as bs ha.2 hb.2 (Or.inl rfl) h
    exact ⟨.some hs, hr⟩
termination_by structural as

theorem default_alike_of_eq (v w : Option Value) (hv : CleanDefault v) (hw : CleanDefault w)
    {r₁ r₂ : List Char} (h₁ : Closes r₁) (h₂ : Closes r₂)
    (h : defaultChars v ++ r₁ = defaultChars w ++ r₂) : AlikeDefault v w ∧ r₁ = r₂ := by
  match v, w with
  | none, none => exact ⟨.none, h⟩
  | none, some w =>
    rw [show r₁ = '=' :: (w.chars ++ r₂) from h] at h₁
    exact absurd (stops_cons.1 h₁) (by decide)
  | some v, none =>
    rw [show r₂ = '=' :: (v.chars ++ r₁) from h.symm] at h₂
    exact absurd (stops_cons.1 h₂) (by decide)
  | some v, some w =>
    rw [CleanDefault] at hv hw
    obtain ⟨hvw, hr⟩ := Value.alike_of_chars_eq v w hv hw h₁ h₂ (List.cons.inj h).2
    exact ⟨.some hvw, hr⟩
termination_by structural v

theorem Parameter.alike_of_chars_eq (q₁ q₂ : Parameter) (hq₁ : q₁.Clean) (hq₂ : q₂.Clean)
    {r₁ r₂ : List Char} (h₁ : Closes r₁) (h₂ : Closes r₂) (h : q₁.chars ++ r₁ = q₂.chars ++ r₂) :
    q₁.Alike q₂ ∧ r₁ = r₂ := by
  obtain ⟨s, type, required, v⟩ := q₁
  obtain ⟨t, type', required', w⟩ := q₂
  rw [Parameter.Clean] at hq₁ hq₂
  simp only [chars_parameter, List.append_assoc, List.cons_append, List.cons.injEq,
    true_and] at h
  obtain ⟨hst, ht⟩ := word_eq (.name hq₁.1) (.name hq₂.1) (stops_cons.2 (by decide))
    (stops_cons.2 (by decide)) h
  have ht' := (List.cons.inj ht).2
  rw [← List.append_assoc, ← List.append_assoc type'.toList] at ht'
  obtain ⟨htype, hd⟩ := run_eq (isTypePart_of_mem hq₁.2.1) (isTypePart_of_mem hq₂.2.1)
    (stops_default v h₁) (stops_default w h₂) ht'
  obtain ⟨rfl, rfl⟩ := type_eq hq₁.2.1 hq₂.2.1 htype
  obtain ⟨hv, hr⟩ := default_alike_of_eq v w hq₁.2.2 hq₂.2.2 h₁ h₂ hd
  rw [String.toList_inj.1 hst]
  exact ⟨.mk t type required hv, hr⟩
termination_by structural q₁

theorem trail_parameters_alike_of_eq (ps qs : List Parameter) (hp : CleanParameters ps)
    (hq : CleanParameters qs) {r₁ r₂ : List Char}
    (h : trail ',' Parameter.chars ps ++ ')' :: r₁ = trail ',' Parameter.chars qs ++ ')' :: r₂) :
    AlikeParameters ps qs ∧ r₁ = r₂ := by
  match ps, qs with
  | [], [] => exact ⟨.nil, (List.cons.inj h).2⟩
  | [], q :: qs => exact absurd (List.cons.inj h).1 (by decide)
  | p :: ps, [] => exact absurd (List.cons.inj h).1 (by decide)
  | p :: ps, q :: qs =>
    rw [CleanParameters] at hp hq
    rw [trail_cons_append, trail_cons_append] at h
    obtain ⟨hpq, ht⟩ := Parameter.alike_of_chars_eq p q hp.1 hq.1
      (closes_trail Parameter.chars ps (Or.inl rfl))
      (closes_trail Parameter.chars qs (Or.inl rfl)) (List.cons.inj h).2
    obtain ⟨hs, hr⟩ := trail_parameters_alike_of_eq ps qs hp.2 hq.2 ht
    exact ⟨.cons hpq hs, hr⟩
termination_by structural ps

theorem parameters_alike_of_eq (ps qs : Option (List Parameter)) (hp : CleanParameterList ps)
    (hq : CleanParameterList qs) {r₁ r₂ : List Char} (h₁ : Stops (· == '(') r₁)
    (h₂ : Stops (· == '(') r₂) (h : parametersChars ps ++ r₁ = parametersChars qs ++ r₂) :
    AlikeParameterList ps qs ∧ r₁ = r₂ := by
  match ps, qs with
  | none, none => exact ⟨.none, h⟩
  | none, some qs =>
    rw [CleanParameterList] at hq
    exact absurd h (ne_parameters hq.1 h₁)
  | some ps, none =>
    rw [CleanParameterList] at hp
    exact absurd h.symm (ne_parameters hp.1 h₂)
  | some [], some _ =>
    rw [CleanParameterList] at hp
    exact absurd rfl hp.1
  | some (_ :: _), some [] =>
    rw [CleanParameterList] at hq
    exact absurd rfl hq.1
  | some (p :: ps), some (q :: qs) =>
    rw [CleanParameterList, CleanParameters] at hp hq
    rw [parametersChars, parametersChars, bracketed_cons_append, bracketed_cons_append] at h
    obtain ⟨hpq, ht⟩ := Parameter.alike_of_chars_eq p q hp.2.1 hq.2.1
      (closes_trail Parameter.chars ps (Or.inl rfl))
      (closes_trail Parameter.chars qs (Or.inl rfl)) (List.cons.inj h).2
    obtain ⟨hs, hr⟩ := trail_parameters_alike_of_eq ps qs hp.2.2 hq.2.2 ht
    exact ⟨.some (.cons hpq hs), hr⟩
termination_by structural ps

theorem Node.alike_of_chars_eq (m n : Node) (hm : m.Clean) (hn : n.Clean) {r₁ r₂ : List Char}
    (h₁ : EndsNode r₁) (h₂ : EndsNode r₂) (h : m.chars ++ r₁ = n.chars ++ r₂) :
    m.Alike n ∧ r₁ = r₂ := by
  obtain ⟨i, name, as, ps, ms⟩ := m
  obtain ⟨j, name', bs, qs, ns⟩ := n
  rw [Node.Clean] at hm hn
  obtain ⟨hi, hname, has, hps, hms⟩ := hm
  obtain ⟨hj, hname', hbs, hqs, hns⟩ := hn
  rw [Node.chars_eq, Node.chars_eq, List.append_assoc, List.append_assoc] at h
  obtain ⟨hij, hbody⟩ := word_eq hi.isWord hj.isWord
    (stops_bodyChars _ (by decide) (by decide) (by decide) h₁.stops_word)
    (stops_bodyChars _ (by decide) (by decide) (by decide) h₂.stops_word) h
  simp only [Node.bodyChars, List.append_assoc] at hbody
  obtain ⟨rfl, harguments⟩ := name_eq hname hname' (noName_body as ps ms h₁.noName)
    (noName_body bs qs ns h₂.noName) hbody
  have hp₁ : Stops (· == '(') (childrenChars ms ++ r₁) :=
    stops_append rfl (childrenChars_eq_nil_or_cons ms)
      (h₁.stops (by decide) (by decide) (by decide) (by decide))
  have hp₂ : Stops (· == '(') (childrenChars ns ++ r₂) :=
    stops_append rfl (childrenChars_eq_nil_or_cons ns)
      (h₂.stops (by decide) (by decide) (by decide) (by decide))
  obtain ⟨ha, hparameters⟩ := arguments_alike_of_eq as bs has hbs
    (noArguments_parameters ps hps hp₁) (noArguments_parameters qs hqs hp₂) harguments
  obtain ⟨hp, hchildren⟩ := parameters_alike_of_eq ps qs hps hqs hp₁ hp₂ hparameters
  obtain ⟨hc, hr⟩ := children_alike_of_eq ms ns hms hns
    (h₁.stops (by decide) (by decide) (by decide) (by decide))
    (h₂.stops (by decide) (by decide) (by decide) (by decide)) hchildren
  exact ⟨.mk name (String.toList_inj.1 hij) ha hp hc, hr⟩
termination_by structural m

theorem trail_nodes_alike_of_eq (ms ns : List Node) (hm : CleanNodes ms) (hn : CleanNodes ns)
    {r₁ r₂ : List Char}
    (h : trail ' ' Node.chars ms ++ '\x7d' :: r₁ = trail ' ' Node.chars ns ++ '\x7d' :: r₂) :
    AlikeNodes ms ns ∧ r₁ = r₂ := by
  match ms, ns with
  | [], [] => exact ⟨.nil, (List.cons.inj h).2⟩
  | [], n :: ns => exact absurd (List.cons.inj h).1 (by decide)
  | m :: ms, [] => exact absurd (List.cons.inj h).1 (by decide)
  | m :: ms, n :: ns =>
    rw [CleanNodes] at hm hn
    rw [trail_cons_append, trail_cons_append] at h
    obtain ⟨hmn, ht⟩ := Node.alike_of_chars_eq m n hm.1 hn.1 (endsNode_trail ms hm.2)
      (endsNode_trail ns hn.2) (List.cons.inj h).2
    obtain ⟨hs, hr⟩ := trail_nodes_alike_of_eq ms ns hm.2 hn.2 ht
    exact ⟨.cons hmn hs, hr⟩
termination_by structural ms

theorem children_alike_of_eq (ms ns : List Node) (hm : CleanNodes ms) (hn : CleanNodes ns)
    {r₁ r₂ : List Char} (h₁ : Stops (· == '\x7b') r₁) (h₂ : Stops (· == '\x7b') r₂)
    (h : childrenChars ms ++ r₁ = childrenChars ns ++ r₂) : AlikeNodes ms ns ∧ r₁ = r₂ := by
  match ms, ns with
  | [], [] => exact ⟨.nil, h⟩
  | [], n :: ns =>
    rw [show r₁ = '\x7b' :: _ from h] at h₁
    exact absurd (stops_cons.1 h₁) (by decide)
  | m :: ms, [] =>
    rw [show r₂ = '\x7b' :: _ from h.symm] at h₂
    exact absurd (stops_cons.1 h₂) (by decide)
  | m :: ms, n :: ns =>
    rw [CleanNodes] at hm hn
    rw [childrenChars_cons_append, childrenChars_cons_append] at h
    obtain ⟨hmn, ht⟩ := Node.alike_of_chars_eq m n hm.1 hn.1 (endsNode_trail ms hm.2)
      (endsNode_trail ns hn.2) (List.cons.inj h).2
    obtain ⟨hs, hr⟩ := trail_nodes_alike_of_eq ms ns hm.2 hn.2 ht
    exact ⟨.cons hmn hs, hr⟩
termination_by structural ms

end

/-- Two graphs are written the same exactly if they are alike. -/
theorem text_eq_iff_alike (m n : Node) (hm : m.Clean) (hn : n.Clean) :
    m.text = n.text ↔ m.Alike n := by
  constructor
  · intro h
    have hc : m.chars ++ [] = n.chars ++ [] := by rw [Node.chars, Node.chars, h]
    exact (Node.alike_of_chars_eq m n hm hn (Or.inl closes_nil) (Or.inl closes_nil) hc).1
  · intro h
    exact String.toList_inj.1 h.chars_eq

/-- An alias is not written, and neither zero shows its sign. -/
theorem text_eq_of_unwritten :
    (Node.mk (.aliased "user" "u") (some "a(b") (some [⟨"first", .number .zero⟩]) none
        [.plain (.token "id") []]).text =
      (Node.mk (.token "user") (some "a(b") (some [⟨"first", .number .negativeZero⟩]) none
        [.plain (.string "id") []]).text := by
  refine (text_eq_iff_alike _ _ ?_ ?_).2 ?_
  · simp [Node.Clean, Identifier.Clean, CleanName, CleanArgumentList, CleanArguments,
      Argument.Clean, Value.Clean, CleanParameterList, CleanNodes, Node.plain, Identifier.text,
      Number.zero]
    decide
  · simp [Node.Clean, Identifier.Clean, CleanName, CleanArgumentList, CleanArguments,
      Argument.Clean, Value.Clean, CleanParameterList, CleanNodes, Node.plain, Identifier.text,
      Number.negativeZero]
    decide
  · have h : Number.zero.text = Number.negativeZero.text := by
      simp [Number.text, Number.chars, Number.zero, Number.negativeZero]
    refine .mk _ rfl (.some (.cons (.mk _ (.number h)) .nil)) .none (.cons ?_ .nil)
    exact .mk _ rfl .none .none .nil

end GraphQuery.Graph
