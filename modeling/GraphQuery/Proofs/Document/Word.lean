import GraphQuery.Document.Number
import GraphQuery.Proofs.Number.Numeral

/-! Words: the names and the numerals of query text. Each is a run of characters that occur
nowhere else outside of quotes, and the first character tells which of the two it is. A run is the
longest front part of a text whose characters are all of one class; followed by a character outside
of the class, or by nothing, it is told from what follows. -/
namespace GraphQuery.Text

variable {p : Char → Bool} {xs ys rest rest₁ rest₂ : List Char}

/-- The text does not begin with a character of the class. -/
def Stops (p : Char → Bool) (rest : List Char) : Prop := ∀ c ∈ rest.head?, p c = false

@[simp] theorem stops_nil : Stops p [] := by simp [Stops]

@[simp] theorem stops_cons {c : Char} : Stops p (c :: rest) ↔ p c = false := by simp [Stops]

theorem Stops.mono {q : Char → Bool} (h : Stops p rest) (hq : ∀ c, q c = true → p c = true) :
    Stops q rest := by
  intro c hc
  cases hqc : q c with
  | false => rfl
  | true => rw [← h c hc, hq c hqc]

theorem takeWhile_run (hx : ∀ c ∈ xs, p c = true) (hr : Stops p rest) :
    (xs ++ rest).takeWhile p = xs := by
  rw [List.takeWhile_append_of_pos hx]
  cases rest with
  | nil => simp
  | cons c cs => simp [stops_cons.1 hr]

theorem dropWhile_run (hx : ∀ c ∈ xs, p c = true) (hr : Stops p rest) :
    (xs ++ rest).dropWhile p = rest := by
  rw [List.dropWhile_append_of_pos hx]
  cases rest with
  | nil => rfl
  | cons c cs => simp [stops_cons.1 hr]

/-- Two texts that begin with a run each have the same run in front. -/
theorem run_eq (hx : ∀ c ∈ xs, p c = true) (hy : ∀ c ∈ ys, p c = true) (h₁ : Stops p rest₁)
    (h₂ : Stops p rest₂) (h : xs ++ rest₁ = ys ++ rest₂) : xs = ys ∧ rest₁ = rest₂ := by
  have hxy : xs = ys := by rw [← takeWhile_run hx h₁, h, takeWhile_run hy h₂]
  subst hxy
  exact ⟨rfl, List.append_cancel_left h⟩

end GraphQuery.Text

namespace GraphQuery.Document

open Text

/-- Whether a text is a name of the query language. -/
def isName (s : String) : Bool :=
  match s.toList with
  | [] => false
  | c :: cs => isNameStart c && cs.all isNamePart

/-- The characters of names and of numerals. -/
def isWordPart (c : Char) : Bool := isNamePart c || c == '.' || c == '+' || c == '-'

theorem isNameStart_of_isDigit {c : Char} (h : c.isDigit = true) : isNameStart c = false := by
  have hu : c ≠ '_' := by
    rintro rfl
    revert h
    decide
  have ha : c.isAlpha = false := by
    show (decide (65 ≤ c.val ∧ c.val ≤ 90) || (decide (97 ≤ c.val) && decide (c.val ≤ 122))) = false
    grind [Char.isDigit]
  simp [isNameStart, ha, hu]

theorem isNamePart_of_isNameStart {c : Char} (h : isNameStart c = true) : isNamePart c = true := by
  simp [isNamePart, h]

theorem isWordPart_of_isNamePart {c : Char} (h : isNamePart c = true) : isWordPart c = true := by
  simp [isWordPart, h]

theorem isWordPart_of_isDigit {c : Char} (h : c.isDigit = true) : isWordPart c = true := by
  simp [isWordPart, isNamePart, h]

theorem exists_of_isName {s : String} (h : isName s = true) :
    ∃ c cs, s.toList = c :: cs ∧ isNameStart c = true ∧ ∀ d ∈ cs, isNamePart d = true := by
  unfold isName at h
  split at h
  · cases h
  · next c cs hs =>
    rw [Bool.and_eq_true, List.all_eq_true] at h
    exact ⟨c, cs, hs, h.1, h.2⟩

theorem isNamePart_of_mem_name {s : String} (h : isName s = true) :
    ∀ c ∈ s.toList, isNamePart c = true := by
  obtain ⟨c, cs, hs, hc, hcs⟩ := exists_of_isName h
  intro d hd
  rw [hs] at hd
  rcases List.mem_cons.1 hd with rfl | hd
  · exact isNamePart_of_isNameStart hc
  · exact hcs d hd

/-- A word is a name or the text of a finite number. -/
inductive IsWord : List Char → Prop
  | name {s : String} (h : isName s = true) : IsWord s.toList
  | numeral (u : Number.Numeral) : IsWord u.chars

theorem IsWord.ofNumber {n : Number} (h : n.isFinite = true) : IsWord n.chars := by
  obtain ⟨u, hu⟩ := Number.exists_numeral h
  rw [← hu]
  exact .numeral u

theorem isWordPart_of_mem_numeral (u : Number.Numeral) : ∀ c ∈ u.chars, isWordPart c = true := by
  refine u.forall_mem_chars (fun _ => isWordPart_of_isDigit) ?_
  simp only [List.forall_mem_cons]
  exact ⟨rfl, rfl, rfl, rfl, List.forall_mem_nil _⟩

theorem exists_of_numeral (u : Number.Numeral) :
    ∃ c cs, u.chars = c :: cs ∧ (c.isDigit = true ∨ c = '-') := by
  obtain ⟨hw, hd⟩ := u.whole_digits
  cases hs : u.whole with
  | nil => exact absurd hs hw
  | cons c cs =>
    cases hn : u.negative with
    | false =>
      refine ⟨c, cs ++ u.fractionChars ++ u.exponentChars, ?_, Or.inl (hd c (by simp [hs]))⟩
      simp [Number.Numeral.chars, Number.Numeral.minusChars, hn, hs]
    | true =>
      refine ⟨'-', u.whole ++ u.fractionChars ++ u.exponentChars, ?_, Or.inr rfl⟩
      simp [Number.Numeral.chars, Number.Numeral.minusChars, hn]

theorem IsWord.isWordPart {w : List Char} (h : IsWord w) : ∀ c ∈ w, isWordPart c = true := by
  cases h with
  | name h => exact fun c hc => isWordPart_of_isNamePart (isNamePart_of_mem_name h c hc)
  | numeral u => exact isWordPart_of_mem_numeral u

theorem IsWord.exists_cons {w : List Char} (h : IsWord w) :
    ∃ c cs, w = c :: cs ∧ Document.isWordPart c = true := by
  have hw := h.isWordPart
  cases h with
  | name h =>
    obtain ⟨c, cs, hs, _⟩ := exists_of_isName h
    exact ⟨c, cs, hs, hw c (by simp [hs])⟩
  | numeral u =>
    obtain ⟨c, cs, hs, _⟩ := exists_of_numeral u
    exact ⟨c, cs, hs, hw c (by simp [hs])⟩

/-- No text is both a name and a numeral. -/
theorem name_ne_numeral {s : String} (h : isName s = true) (u : Number.Numeral) :
    s.toList ≠ u.chars := by
  obtain ⟨c, cs, hs, hc, _⟩ := exists_of_isName h
  obtain ⟨d, ds, hu, hd⟩ := exists_of_numeral u
  rw [hs, hu]
  intro he
  cases he
  rcases hd with hd | rfl
  · rw [isNameStart_of_isDigit hd] at hc
    cases hc
  · revert hc
    decide

end GraphQuery.Document
