import GraphQuery.Proofs.Document.Lexing

/-! How much of a text a string takes up. An escape is longer than the character it names, the lines
of a block string only lose characters, and the quotes are none of the value; so a string that takes
up no more than its value and its quotes stands for itself. -/
namespace GraphQuery.Document

/-- A text that stands for itself between quotes. -/
structure Quotable (cs : List Char) : Prop where
  quote : '"' ∉ cs
  backslash : '\\' ∉ cs
  lineFeed : '\n' ∉ cs
  carriageReturn : '\r' ∉ cs

theorem quotable_nil : Quotable [] := ⟨by simp, by simp, by simp, by simp⟩

theorem quotable_cons {c : Char} {cs : List Char} (hq : c ≠ '"') (hb : c ≠ '\\')
    (hl : isLineEnd c = false) (h : Quotable cs) : Quotable (c :: cs) := by
  simp only [isLineEnd, Bool.or_eq_false_iff, beq_eq_false_iff_ne] at hl
  exact ⟨List.not_mem_cons_of_ne_of_not_mem hq.symm h.quote,
    List.not_mem_cons_of_ne_of_not_mem hb.symm h.backslash,
    List.not_mem_cons_of_ne_of_not_mem hl.1.symm h.lineFeed,
    List.not_mem_cons_of_ne_of_not_mem hl.2.symm h.carriageReturn⟩

theorem Quotable.any_isLineEnd {cs : List Char} (h : Quotable cs) : cs.any isLineEnd = false := by
  rw [List.any_eq_false]
  intro c hc hl
  simp only [isLineEnd, Bool.or_eq_true, beq_iff_eq] at hl
  rcases hl with rfl | rfl
  · exact h.lineFeed hc
  · exact h.carriageReturn hc

/-! Tokens. -/

/-- A token takes up a character at least. -/
theorem length_lex_le (cs : List Char) : (lex cs).length ≤ cs.length := by
  fun_induction lex cs with
  | case1 => exact Nat.le_refl 0
  | case2 c cs _ ih => exact Nat.le_succ_of_le ih
  | case3 cs _ ih =>
    have := length_dropWhile_le (!isLineEnd ·) cs
    rw [List.length_cons]
    omega
  | case4 => exact Nat.zero_le _
  | case5 c cs _ _ t rest ht ih =>
    have := readToken_length ht
    rw [TokenStream.length_next, List.length_cons]
    omega

theorem exists_of_lex {c : Char} {cs : List Char} {t : Token} {s : TokenStream}
    (hi : isIgnored c = false) (hc : c ≠ '#') (h : lex (c :: cs) = .next t s) :
    ∃ rest, readToken c cs = .ok (t, rest) ∧ s = lex rest := by
  cases ht : readToken c cs with
  | error f =>
    rw [lex_of_error hi hc ht] at h
    cases h
  | ok r =>
    rw [lex_of_readToken hi hc ht] at h
    cases h
    exact ⟨_, rfl, rfl⟩

/-! Strings on one line. -/

section
variable {cs value rest : List Char}

theorem length_readString_le (h : readString cs = .ok (value, rest)) :
    value.length + rest.length + 1 ≤ cs.length := by
  fun_induction readString cs generalizing value rest with
  | case1 => cases h
  | case2 =>
    cases h
    simp
  | case3 => cases h
  | case4 => cases h
  | case5 cs d left he _ _ ih =>
    obtain ⟨r, hr, he'⟩ := map_eq_ok.1 h
    cases he'
    have := readEscape_length he
    have := ih hr
    simp only [List.length_cons]
    omega
  | case6 c cs _ _ _ ih =>
    obtain ⟨r, hr, he⟩ := map_eq_ok.1 h
    cases he
    have := ih hr
    simp only [List.length_cons]
    omega

/-- Where no characters are lost there are no escapes. -/
theorem Quotable.of_readString (h : readString cs = .ok (value, rest))
    (hl : cs.length ≤ value.length + rest.length + 1) : Quotable value := by
  fun_induction readString cs generalizing value rest with
  | case1 => cases h
  | case2 =>
    cases h
    exact quotable_nil
  | case3 => cases h
  | case4 => cases h
  | case5 cs d left he _ _ ih =>
    obtain ⟨r, hr, he'⟩ := map_eq_ok.1 h
    cases he'
    have := readEscape_length he
    have := length_readString_le hr
    simp only [List.length_cons] at hl
    omega
  | case6 c cs hq hc hb ih =>
    obtain ⟨r, hr, he⟩ := map_eq_ok.1 h
    cases he
    refine quotable_cons hq hb (by simpa using hc) (ih hr ?_)
    simp only [List.length_cons] at hl
    omega

end

/-! Block strings. -/

/-- The characters of some lines and their ends. -/
def extent : List (List Char) → Nat
  | [] => 0
  | line :: lines => line.length + 1 + extent lines

theorem length_joinLines (lines : List (List Char)) :
    (joinLines lines).length = extent lines - 1 := by
  induction lines with
  | nil => rfl
  | cons line lines ih =>
    cases lines with
    | nil => simp [joinLines, extent]
    | cons next lines =>
      rw [joinLines, List.intercalate_cons_cons, extent]
      rw [joinLines, extent] at ih
      simp only [List.length_append, ih, extent, List.length_singleton]
      omega

theorem extent_splitLines (cs : List Char) : extent (splitLines cs) = cs.length + 1 := by
  fun_induction splitLines cs with
  | case1 => rfl
  | case2 cs ih => simp only [extent, ih, List.length_nil, List.length_cons]; omega
  | case3 c cs _ hs ih =>
    rw [hs] at ih
    cases ih
  | case4 c cs _ line lines hs ih =>
    rw [hs] at ih
    simp only [extent, List.length_cons] at ih ⊢
    omega

theorem extent_le_of_sublist {lines lines' : List (List Char)} (h : lines.Sublist lines') :
    extent lines ≤ extent lines' := by
  induction h with
  | slnil => exact Nat.le_refl _
  | cons line _ ih => rw [extent]; omega
  | cons_cons line _ ih => rw [extent, extent]; omega

theorem extent_map_drop_le (n : Nat) (lines : List (List Char)) :
    extent (lines.map (·.drop n)) ≤ extent lines := by
  induction lines with
  | nil => exact Nat.le_refl _
  | cons line lines ih =>
    simp only [List.map_cons, extent, List.length_drop]
    omega

theorem trimBlank_sublist (lines : List (List Char)) : (trimBlank lines).Sublist lines := by
  have h := (List.dropWhile_sublist isBlankLine (l := (lines.dropWhile isBlankLine).reverse)).reverse
  rw [List.reverse_reverse] at h
  exact h.trans (List.dropWhile_sublist _)

theorem extent_dedent_le (lines : List (List Char)) : extent (dedent lines) ≤ extent lines := by
  cases lines with
  | nil => exact Nat.le_refl _
  | cons first others =>
    have htrim := extent_le_of_sublist
      (trimBlank_sublist (first :: others.map (·.drop (commonIndent others))))
    have hdrop := extent_map_drop_le (commonIndent others) others
    rw [extent] at htrim
    rw [dedent, extent]
    omega

theorem length_blockValue_le (cs : List Char) : (blockValue cs).toList.length ≤ cs.length := by
  have := extent_dedent_le (splitLines cs)
  rw [extent_splitLines] at this
  rw [blockValue, String.toList_ofList, length_joinLines]
  omega

theorem length_readBlock_le {cs value rest : List Char} (h : readBlock cs = .ok (value, rest)) :
    value.length + rest.length + 3 ≤ cs.length := by
  fun_induction readBlock cs generalizing value rest with
  | case1 => cases h
  | case2 =>
    cases h
    simp
  | case3 cs ih | case4 cs ih | case5 c cs _ _ _ ih =>
    obtain ⟨r, hr, he⟩ := map_eq_ok.1 h
    cases he
    have := ih hr
    simp only [List.length_cons]
    omega

/-- A string in front of a stream that is no shorter than the text after its closing quote. -/
theorem Quotable.of_lex {cs : List Char} {t : Token} {s : TokenStream} {x : String}
    (h : lex ('"' :: cs) = .next t s) (hx : t.value? = some x)
    (hl : cs.length ≤ x.toList.length + s.length + 1) : Quotable x.toList := by
  obtain ⟨rest, ht, rfl⟩ := exists_of_lex rfl (by decide) h
  have hrest := length_lex_le rest
  have hread : readQuoted cs = .ok (t, rest) := ht
  unfold readQuoted at hread
  split at hread
  · next ds =>
    obtain ⟨r, hr, he⟩ := map_eq_ok.1 hread
    cases he
    cases hx
    have := length_readBlock_le hr
    have := length_blockValue_le r.1
    simp only [List.length_cons] at hl
    omega
  · obtain ⟨r, hr, he⟩ := map_eq_ok.1 hread
    cases he
    cases hx
    rw [String.toList_ofList] at hl ⊢
    exact .of_readString hr (by omega)

end GraphQuery.Document
