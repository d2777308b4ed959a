import GraphQuery.Document.Lexer
import GraphQuery.Proofs.Document.Word

/-! What the parts of a text are lexed to. Each lemma is about a part in front of any rest, with
what the rest must not begin with for the part to end where it does. -/
namespace GraphQuery.Document

open Number (Numeral Digits)
open Text

variable {rest : List Char}

@[simp] theorem lex_nil : lex [] = .done := by rw [lex]

theorem lex_ignored {c : Char} (h : isIgnored c = true) : lex (c :: rest) = lex rest := by
  rw [lex, if_pos h]

@[simp] theorem lex_comma : lex (',' :: rest) = lex rest := lex_ignored rfl

@[simp] theorem lex_space : lex (' ' :: rest) = lex rest := lex_ignored rfl

/-- A text whose first character begins a token is that token and what is left of it. -/
theorem lex_of_readToken {c : Char} {cs : List Char} {t : Token} (hi : isIgnored c = false)
    (hc : c ≠ '#') (h : readToken c cs = .ok (t, rest)) : lex (c :: cs) = .next t (lex rest) := by
  rw [lex, if_neg (by simp [hi]), if_neg hc]
  split
  · next hf =>
    rw [h] at hf
    cases hf
  · next ht =>
    rw [h] at ht
    cases ht
    rfl

theorem lex_of_error {c : Char} {cs : List Char} {f : LexicalFault} (hi : isIgnored c = false)
    (hc : c ≠ '#') (h : readToken c cs = .error f) : lex (c :: cs) = .fault f := by
  rw [lex, if_neg (by simp [hi]), if_neg hc]
  split
  · next hf =>
    rw [h] at hf
    cases hf
    rfl
  · next ht =>
    rw [h] at ht
    cases ht

@[simp] theorem lex_parenOpen : lex ('(' :: rest) = .next (.punctuator .parenOpen) (lex rest) :=
  lex_of_readToken rfl (by decide) rfl

@[simp] theorem lex_parenClose : lex (')' :: rest) = .next (.punctuator .parenClose) (lex rest) :=
  lex_of_readToken rfl (by decide) rfl

@[simp] theorem lex_braceOpen :
    lex ('\x7b' :: rest) = .next (.punctuator .braceOpen) (lex rest) :=
  lex_of_readToken rfl (by decide) rfl

@[simp] theorem lex_braceClose :
    lex ('\x7d' :: rest) = .next (.punctuator .braceClose) (lex rest) :=
  lex_of_readToken rfl (by decide) rfl

@[simp] theorem lex_colon : lex (':' :: rest) = .next (.punctuator .colon) (lex rest) :=
  lex_of_readToken rfl (by decide) rfl

@[simp] theorem lex_dollar : lex ('$' :: rest) = .next (.punctuator .dollar) (lex rest) :=
  lex_of_readToken rfl (by decide) rfl

@[simp] theorem lex_bang : lex ('!' :: rest) = .next (.punctuator .bang) (lex rest) :=
  lex_of_readToken rfl (by decide) rfl

@[simp] theorem lex_equals : lex ('=' :: rest) = .next (.punctuator .equals) (lex rest) :=
  lex_of_readToken rfl (by decide) rfl

@[simp] theorem lex_bracketOpen :
    lex ('[' :: rest) = .next (.punctuator .bracketOpen) (lex rest) :=
  lex_of_readToken rfl (by decide) rfl

@[simp] theorem lex_bracketClose :
    lex (']' :: rest) = .next (.punctuator .bracketClose) (lex rest) :=
  lex_of_readToken rfl (by decide) rfl

/-! Names. -/

/-- A character that begins a name or a number begins nothing else. -/
theorem punctuator?_of_isWordPart {c : Char} (h : isWordPart c = true) : punctuator? c = none := by
  unfold punctuator?
  split <;> first | rfl | (revert h; decide)

theorem ne_of_isWordPart {c d : Char} (h : isWordPart c = true) (hd : isWordPart d = false) :
    c ≠ d := by
  rintro rfl
  rw [h] at hd
  cases hd

theorem isIgnored_of_isWordPart {c : Char} (h : isWordPart c = true) : isIgnored c = false := by
  simp [isIgnored, ne_of_isWordPart h (d := ' ') (by decide),
    ne_of_isWordPart h (d := '\t') (by decide), ne_of_isWordPart h (d := ',') (by decide),
    ne_of_isWordPart h (d := '\n') (by decide), ne_of_isWordPart h (d := '\r') (by decide),
    ne_of_isWordPart h (d := '\uFEFF') (by decide)]

theorem not_isDigit_of_isNameStart {c : Char} (h : isNameStart c = true) : c.isDigit = false := by
  cases hd : c.isDigit with
  | false => rfl
  | true =>
    rw [isNameStart_of_isDigit hd] at h
    cases h

theorem readToken_of_isNameStart {c : Char} {cs : List Char} (h : isNameStart c = true) :
    readToken c cs = .ok (readName c cs) := by
  have hw := isWordPart_of_isNamePart (isNamePart_of_isNameStart h)
  have hm : c ≠ '-' := by
    rintro rfl
    revert h
    decide
  have hp : c ≠ '.' := by
    rintro rfl
    revert h
    decide
  rw [readToken, punctuator?_of_isWordPart hw]
  simp [hp, hm, ne_of_isWordPart hw (d := '"') (by decide), not_isDigit_of_isNameStart h, h]

theorem lex_name {s : String} (h : isName s = true) (hr : Stops isNamePart rest) :
    lex (s.toList ++ rest) = .next (.name s) (lex rest) := by
  obtain ⟨c, cs, hs, hc, hcs⟩ := exists_of_isName h
  have hw := isWordPart_of_isNamePart (isNamePart_of_isNameStart hc)
  have ht : readToken c (cs ++ rest) = .ok (.name s, rest) := by
    rw [readToken_of_isNameStart hc, readName, takeWhile_run hcs hr, dropWhile_run hcs hr, ← hs,
      String.ofList_toList]
  rw [hs, List.cons_append]
  exact lex_of_readToken (isIgnored_of_isWordPart hw)
    (ne_of_isWordPart hw (by decide)) ht

/-! Numbers. The parts of a numeral are read one after the other, each up to what begins the
next. -/

theorem readDigits_append {ds : List Char} (h : Digits ds) (hr : Stops Char.isDigit rest) :
    readDigits (ds ++ rest) = .ok (ds, rest) := by
  rw [readDigits, takeWhile_run h.2 hr, dropWhile_run h.2 hr]
  cases ds with
  | nil => exact absurd rfl h.1
  | cons d ds => rfl

theorem readWhole_append {ds : List Char} (h : Digits ds) (hz : ds.head? = some '0' → ds = ['0'])
    (hr : Stops Char.isDigit rest) : readWhole (ds ++ rest) = .ok (ds, rest) := by
  by_cases h₀ : ds.head? = some '0'
  · rw [hz h₀]
    cases rest with
    | nil => rfl
    | cons c cs =>
      have hc := stops_cons.1 hr
      simp [readWhole, hc]
  · cases ds with
    | nil => exact absurd rfl h.1
    | cons d ds =>
      have hd : d ≠ '0' := by simpa using h₀
      rw [← readDigits_append h hr, List.cons_append, readWhole]
      · intro e cs he
        exact absurd (List.cons.inj he).1 hd
      · intro he
        exact absurd (List.cons.inj he).1 hd

theorem readFraction_none (hr : Stops (· == '.') rest) : readFraction rest = .ok ([], rest) := by
  rw [readFraction]
  rintro cs rfl
  exact absurd (stops_cons.1 hr) (by decide)

theorem readFraction_some {ds : List Char} (h : Digits ds) (hr : Stops Char.isDigit rest) :
    readFraction ('.' :: (ds ++ rest)) = .ok ('.' :: ds, rest) := by
  rw [readFraction, readDigits_append h hr]
  rfl

theorem readExponent_none (hr : Stops isNameStart rest) : readExponent rest = .ok ([], rest) := by
  cases rest with
  | nil => rfl
  | cons c cs =>
    have hc := stops_cons.1 hr
    have he : c ≠ 'e' ∧ c ≠ 'E' := by
      constructor <;> rintro rfl <;> exact absurd hc (by decide)
    rw [readExponent, if_neg (by simp [he])]

theorem readExponent_some {sign : Char} {ds : List Char} (hs : sign = '+' ∨ sign = '-')
    (h : Digits ds) (hr : Stops Char.isDigit rest) :
    readExponent ('e' :: sign :: (ds ++ rest)) = .ok ('e' :: sign :: ds, rest) := by
  have hsplit : splitSign (sign :: (ds ++ rest)) = ([sign], ds ++ rest) := by
    rcases hs with rfl | rfl <;> rfl
  rw [readExponent, if_pos (Or.inl rfl), hsplit, readDigits_append h hr]
  rfl

theorem splitMinus_append (u : Numeral) (cs : List Char) :
    splitMinus (u.minusChars ++ (u.whole ++ cs)) = (u.minusChars, u.whole ++ cs) := by
  cases hn : u.negative with
  | true => simp [Numeral.minusChars, hn, splitMinus]
  | false =>
    have hd := u.whole_digits
    cases hw : u.whole with
    | nil => exact absurd hw hd.1
    | cons c cs =>
      have hc : c.isDigit = true := hd.2 c (by simp [hw])
      simp only [Numeral.minusChars, hn, Bool.false_eq_true, if_false, List.nil_append,
        List.cons_append]
      rw [splitMinus]
      intro ds he
      rw [(List.cons.inj he).1] at hc
      revert hc
      decide

theorem stops_exponentChars {p : Char → Bool} (u : Numeral) (he : p 'e' = false)
    (hr : Stops p rest) : Stops p (u.exponentChars ++ rest) := by
  rw [Numeral.exponentChars]
  split
  · exact hr
  · exact stops_cons.2 he

theorem stops_fractionChars {p : Char → Bool} (u : Numeral) (hp : p '.' = false)
    (hr : Stops p rest) : Stops p (u.fractionChars ++ rest) := by
  rw [Numeral.fractionChars]
  split
  · exact hr
  · exact stops_cons.2 hp

theorem readFraction_append (u : Numeral) (hp : Stops (· == '.') rest)
    (hd : Stops Char.isDigit rest) :
    readFraction (u.fractionChars ++ rest) = .ok (u.fractionChars, rest) := by
  rw [Numeral.fractionChars]
  split
  · exact readFraction_none hp
  · next ds hf => exact readFraction_some (u.fraction_digits ds hf) hd

theorem readExponent_append (u : Numeral) (hs : Stops isNameStart rest)
    (hd : Stops Char.isDigit rest) :
    readExponent (u.exponentChars ++ rest) = .ok (u.exponentChars, rest) := by
  rw [Numeral.exponentChars]
  split
  · exact readExponent_none hs
  · next sign ds he =>
    have hu := u.exponent_digits _ he
    exact readExponent_some hu.1 hu.2 hd

/-- A numeral without fraction and exponent is an integer. -/
def numeralToken (u : Numeral) : Token :=
  if u.fractionChars.isEmpty && u.exponentChars.isEmpty then .int (String.ofList u.chars)
  else .float (String.ofList u.chars)

theorem endsNumber_of_stops (hr : Stops isWordPart rest) : endsNumber rest = true := by
  cases rest with
  | nil => rfl
  | cons c cs =>
    have hc := stops_cons.1 hr
    simp only [isWordPart, isNamePart, Bool.or_eq_false_iff] at hc
    simp [endsNumber, hc]

theorem readNumber_append (u : Numeral) (hr : Stops isWordPart rest) :
    readNumber (u.chars ++ rest) = .ok (numeralToken u, rest) := by
  have hd : Stops Char.isDigit rest := hr.mono fun _ => isWordPart_of_isDigit
  have hp : Stops (· == '.') rest := hr.mono fun c hc => by rw [beq_iff_eq.1 hc]; decide
  have hs : Stops isNameStart rest :=
    hr.mono fun _ hc => isWordPart_of_isNamePart (isNamePart_of_isNameStart hc)
  have h₁ := splitMinus_append u (u.fractionChars ++ (u.exponentChars ++ rest))
  have h₂ := readWhole_append u.whole_digits u.whole_zero
    (stops_fractionChars u (by decide) (stops_exponentChars u (by decide) hd))
  have h₃ := readFraction_append u (stops_exponentChars u (by decide) hp)
    (stops_exponentChars u (by decide) hd)
  have h₄ := readExponent_append u hs hd
  rw [readNumber, Numeral.chars, List.append_assoc, List.append_assoc, List.append_assoc, h₁]
  simp only [h₂, h₃, h₄, bind, Except.bind, endsNumber_of_stops hr, if_true, pure, Except.pure]
  rfl

theorem lex_numeral (u : Numeral) (hr : Stops isWordPart rest) :
    lex (u.chars ++ rest) = .next (numeralToken u) (lex rest) := by
  obtain ⟨c, cs, hu, hc⟩ := exists_of_numeral u
  have hw : isWordPart c = true := isWordPart_of_mem_numeral u c (by simp [hu])
  have hp : c ≠ '.' := by
    rcases hc with hc | rfl
    · rintro rfl
      revert hc
      decide
    · decide
  have hn : c.isDigit || c == '-' := by simpa using hc
  have ht : readToken c (cs ++ rest) = .ok (numeralToken u, rest) := by
    rw [readToken, punctuator?_of_isWordPart hw]
    simp only [if_neg hp, if_neg (ne_of_isWordPart hw (d := '"') (by decide)), if_pos hn]
    rw [← List.cons_append, ← hu]
    exact readNumber_append u hr
  rw [hu, List.cons_append]
  exact lex_of_readToken (isIgnored_of_isWordPart hw) (ne_of_isWordPart hw (by decide)) ht

/-- A minus begins nothing but a number. -/
theorem lex_minus_of_isNameStart {c : Char} (h : isNameStart c = true)
    (cs : List Char) : lex ('-' :: c :: cs) = .fault (.digitExpected (some c)) := by
  have hd := not_isDigit_of_isNameStart h
  have h₀ : c ≠ '0' := by
    rintro rfl
    revert h
    decide
  have hr : readNumber ('-' :: c :: cs) = .error (.digitExpected (some c)) := by
    have hw : readWhole (c :: cs) = .error (.digitExpected (some c)) := by
      rw [readWhole]
      · simp [readDigits, hd]
      · intro d ds he
        exact absurd (List.cons.inj he).1 h₀
      · intro he
        exact absurd (List.cons.inj he).1 h₀
    rw [readNumber, splitMinus]
    simp only [hw, bind, Except.bind]
  exact lex_of_error rfl (by decide) hr

/-! Strings. -/

theorem readString_append {cs : List Char} (hq : '"' ∉ cs) (hb : '\\' ∉ cs)
    (hl : cs.any isLineEnd = false) : readString (cs ++ '"' :: rest) = .ok (cs, rest) := by
  induction cs with
  | nil => rw [List.nil_append, readString, if_pos rfl]
  | cons c cs ih =>
    simp only [List.mem_cons, not_or, List.any_cons, Bool.or_eq_false_iff] at hq hb hl
    rw [List.cons_append, readString, if_neg (Ne.symm hq.1), if_neg (by simp [hl.1]),
      if_neg (Ne.symm hb.1), ih hq.2 hb.2 hl.2]
    rfl

theorem readString_of_lineEnd {cs : List Char} (hq : '"' ∉ cs) (hb : '\\' ∉ cs)
    (hl : cs.any isLineEnd = true) :
    readString (cs ++ '"' :: rest) = .error .unterminatedString := by
  induction cs with
  | nil => cases hl
  | cons c cs ih =>
    simp only [List.mem_cons, not_or] at hq hb
    rw [List.cons_append, readString, if_neg (Ne.symm hq.1)]
    by_cases hc : isLineEnd c = true
    · rw [if_pos hc]
    · rw [List.any_cons, Bool.or_eq_true] at hl
      rw [if_neg hc, if_neg (Ne.symm hb.1), ih hq.2 hb.2 (hl.resolve_left hc)]
      rfl

/-- Two quotes begin a block string only if a third follows. -/
theorem readQuoted_append {cs : List Char} (hq : '"' ∉ cs) (hr : Stops (· == '"') rest) :
    readQuoted (cs ++ '"' :: rest) =
      (readString (cs ++ '"' :: rest)).map fun r => (.string (String.ofList r.1), r.2) := by
  rw [readQuoted]
  intro ds he
  cases cs with
  | nil =>
    obtain rfl : rest = '"' :: ds := (List.cons.inj he).2
    exact absurd (stops_cons.1 hr) (by decide)
  | cons c cs => exact hq (by simp [(List.cons.inj he).1])

theorem lex_string {s : String} (hq : '"' ∉ s.toList) (hb : '\\' ∉ s.toList)
    (hl : s.toList.any isLineEnd = false) (hr : Stops (· == '"') rest) :
    lex ('"' :: (s.toList ++ '"' :: rest)) = .next (.string s) (lex rest) := by
  have ht : readToken '"' (s.toList ++ '"' :: rest) = .ok (.string s, rest) := by
    show readQuoted _ = _
    rw [readQuoted_append hq hr, readString_append hq hb hl, Except.map, String.ofList_toList]
  exact lex_of_readToken rfl (by decide) ht

theorem lex_string_of_lineEnd {s : String} (hq : '"' ∉ s.toList) (hb : '\\' ∉ s.toList)
    (hl : s.toList.any isLineEnd = true) (hr : Stops (· == '"') rest) :
    lex ('"' :: (s.toList ++ '"' :: rest)) = .fault .unterminatedString := by
  have ht : readToken '"' (s.toList ++ '"' :: rest) = .error .unterminatedString := by
    show readQuoted _ = _
    rw [readQuoted_append hq hr, readString_of_lineEnd hq hb hl]
    rfl
  exact lex_of_error rfl (by decide) ht

/-- What begins with a quote is a string of either kind, or ends there. -/
theorem lex_quote (cs : List Char) :
    (∃ f, lex ('"' :: cs) = .fault f) ∨
      ∃ x s, lex ('"' :: cs) = .next (.string x) s ∨
        lex ('"' :: cs) = .next (.blockString x) s := by
  cases ht : readToken '"' cs with
  | error f => exact Or.inl ⟨f, lex_of_error rfl (by decide) ht⟩
  | ok r =>
    obtain ⟨t, left⟩ := r
    have hlex := lex_of_readToken rfl (by decide) ht
    have hread : readQuoted cs = .ok (t, left) := ht
    rw [readQuoted.eq_def] at hread
    split at hread
    · obtain ⟨r, -, he⟩ := map_eq_ok.1 hread
      cases he
      exact Or.inr ⟨_, _, Or.inr hlex⟩
    · obtain ⟨r, -, he⟩ := map_eq_ok.1 hread
      cases he
      exact Or.inr ⟨_, _, Or.inl hlex⟩

end GraphQuery.Document
