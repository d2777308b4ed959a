import GraphQuery.Number.Text

/-! The shape of number text: digits without a leading zero after an optional minus, then a
fraction and an exponent where the layout asks for them. -/
namespace GraphQuery.Number

/-- One digit or more. -/
def Digits (ds : List Char) : Prop := ds ≠ [] ∧ ∀ c ∈ ds, c.isDigit = true

theorem Digits.append {ds es : List Char} (hd : Digits ds) (he : ∀ c ∈ es, c.isDigit = true) :
    Digits (ds ++ es) := by
  refine ⟨by simp [hd.1], fun c hc => ?_⟩
  rcases List.mem_append.1 hc with hc | hc
  · exact hd.2 c hc
  · exact he c hc

theorem digits_toDigits (n : Nat) : Digits (Nat.toDigits 10 n) :=
  ⟨Nat.toDigits_ne_nil, fun _ hc => Nat.isDigit_of_mem_toDigits (by decide) (by decide) hc⟩

theorem digitChar_ne_zero : ∀ d, 0 < d → d < 10 → Nat.digitChar d ≠ '0' := by
  intro d h₀ h₁
  have : d = 1 ∨ d = 2 ∨ d = 3 ∨ d = 4 ∨ d = 5 ∨ d = 6 ∨ d = 7 ∨ d = 8 ∨ d = 9 := by omega
  rcases this with rfl | rfl | rfl | rfl | rfl | rfl | rfl | rfl | rfl <;> decide

theorem head?_toDigits_ne_zero (n : Nat) (h : 0 < n) : (Nat.toDigits 10 n).head? ≠ some '0' := by
  induction n using Nat.strongRecOn with
  | _ n ih =>
    by_cases hn : n < 10
    · rw [Nat.toDigits_of_lt_base hn]
      simpa using digitChar_ne_zero n h hn
    · rw [Nat.toDigits_of_base_le (by decide) (by omega), List.head?_append]
      have hq := ih (n / 10) (by omega) (by omega)
      cases hd : (Nat.toDigits 10 (n / 10)).head? with
      | none => simp [Nat.toDigits_ne_nil] at hd
      | some c => rwa [hd] at hq

theorem head?_dropZeros {c : Char} (cs : List Char) (h : c ≠ '0') :
    (dropZeros (c :: cs)).head? = some c := by
  rw [dropZeros]
  split <;> simp [h]

theorem mem_of_mem_dropZeros {c : Char} {cs : List Char} (h : c ∈ dropZeros cs) : c ∈ cs := by
  induction cs with
  | nil => simp [dropZeros] at h
  | cons d ds ih =>
    rw [dropZeros] at h
    split at h
    · split at h <;> simp_all
    · rcases List.mem_cons.1 h with rfl | h
      · simp
      · exact List.mem_cons_of_mem _ (ih h)

/-- The digits that a text begins with are not zero. -/
structure Leading (ds : List Char) : Prop where
  digits : Digits ds
  head : ds.head? ≠ some '0'

theorem leading_dropZeros_toDigits {n : Nat} (h : 0 < n) :
    Leading (dropZeros (Nat.toDigits 10 n)) := by
  have hd := digits_toDigits n
  have hz := head?_toDigits_ne_zero n h
  cases hn : Nat.toDigits 10 n with
  | nil => exact absurd hn Nat.toDigits_ne_nil
  | cons c cs =>
    have hc : c ≠ '0' := by simpa [hn] using hz
    have hh := head?_dropZeros cs hc
    refine ⟨⟨?_, fun d hm => hd.2 d (hn ▸ mem_of_mem_dropZeros hm)⟩, by simpa [hh] using hc⟩
    intro he
    simp [he] at hh

/-- A number by the parts of its text. -/
structure Numeral where
  negative : Bool
  whole : List Char
  /-- The digits after the point, if there is one. -/
  fraction : Option (List Char)
  /-- The sign and the digits of the exponent, if there is one. -/
  exponent : Option (Char × List Char)
  whole_digits : Digits whole
  whole_zero : whole.head? = some '0' → whole = ['0']
  fraction_digits : ∀ ds ∈ fraction, Digits ds
  exponent_digits : ∀ e ∈ exponent, (e.1 = '+' ∨ e.1 = '-') ∧ Digits e.2

namespace Numeral

def minusChars (u : Numeral) : List Char := if u.negative then ['-'] else []

def fractionChars (u : Numeral) : List Char :=
  match u.fraction with
  | none => []
  | some ds => '.' :: ds

def exponentChars (u : Numeral) : List Char :=
  match u.exponent with
  | none => []
  | some (sign, ds) => 'e' :: sign :: ds

def chars (u : Numeral) : List Char :=
  u.minusChars ++ u.whole ++ u.fractionChars ++ u.exponentChars

/-- The numeral of the digit zero. -/
def zero : Numeral where
  negative := false
  whole := ['0']
  fraction := none
  exponent := none
  whole_digits := by simp [Digits]
  whole_zero := by simp
  fraction_digits := by simp
  exponent_digits := by simp

def negate (u : Numeral) : Numeral := { u with negative := true }

/-- What holds of the digits and of the four marks holds of every character of a numeral. -/
theorem forall_mem_chars {P : Char → Prop} (hd : ∀ c, c.isDigit = true → P c)
    (hm : ∀ c ∈ ['-', '.', 'e', '+'], P c) (u : Numeral) : ∀ c ∈ u.chars, P c := by
  have hds : ∀ ds, Digits ds → ∀ c ∈ ds, P c := fun ds h c hc => hd c (h.2 c hc)
  intro c hc
  simp only [chars, List.mem_append] at hc
  rcases hc with ((hc | hc) | hc) | hc
  · unfold minusChars at hc
    split at hc
    · exact hm c (by simp [List.mem_singleton.1 hc])
    · cases hc
  · exact hds _ u.whole_digits c hc
  · unfold fractionChars at hc
    split at hc
    · cases hc
    · next ds hf =>
      rcases List.mem_cons.1 hc with rfl | hc
      · exact hm _ (by simp)
      · exact hds _ (u.fraction_digits ds hf) c hc
  · unfold exponentChars at hc
    split at hc
    · cases hc
    · next sign ds he =>
      have hs := u.exponent_digits _ he
      rcases List.mem_cons.1 hc with rfl | hc
      · exact hm _ (by simp)
      · rcases List.mem_cons.1 hc with rfl | hc
        · exact hm c (by rcases hs.1 with h | h <;> simp [show c = _ from h])
        · exact hds _ hs.2 c hc

theorem chars_negate {u : Numeral} (h : u.negative = false) : u.negate.chars = '-' :: u.chars := by
  simp [chars, minusChars, h, negate, fractionChars, exponentChars]

end Numeral

theorem Leading.append {ds zeros : List Char} (h : Leading ds)
    (hz : ∀ c ∈ zeros, c.isDigit = true) : Leading (ds ++ zeros) := by
  refine ⟨h.digits.append hz, ?_⟩
  cases ds with
  | nil => exact absurd rfl h.digits.1
  | cons d ds => exact h.head

theorem Leading.take {ds : List Char} (h : Leading ds) {k : Nat} (hk : 0 < k) :
    Leading (ds.take k) := by
  obtain ⟨k, rfl⟩ : ∃ j, k = j + 1 := ⟨k - 1, by omega⟩
  cases ds with
  | nil => exact absurd rfl h.digits.1
  | cons d ds =>
    refine ⟨⟨by simp, fun c hc => h.digits.2 c (List.mem_of_mem_take hc)⟩, ?_⟩
    simpa using h.head

theorem isDigit_of_mem_replicate {k : Nat} {c : Char} (h : c ∈ List.replicate k '0') :
    c.isDigit = true := by
  rw [(List.mem_replicate.1 h).2]
  decide

/-- Leading digits in front of a fraction and an exponent. -/
def Leading.numeral {ds : List Char} (h : Leading ds) (fraction : Option (List Char))
    (exponent : Option (Char × List Char)) (hf : ∀ ds ∈ fraction, Digits ds)
    (he : ∀ e ∈ exponent, (e.1 = '+' ∨ e.1 = '-') ∧ Digits e.2) : Numeral where
  negative := false
  whole := ds
  fraction := fraction
  exponent := exponent
  whole_digits := h.digits
  whole_zero := fun hz => absurd hz h.head
  fraction_digits := hf
  exponent_digits := he

theorem exists_numeral_layout {ds : List Char} (h : Leading ds) (point : Int) :
    ∃ u : Numeral, u.negative = false ∧ u.chars = layout ds point := by
  simp only [layout]
  by_cases hback : (ds.length : Int) ≤ point ∧ point ≤ 21
  · rw [if_pos hback]
    have hl := h.append (fun c hc => isDigit_of_mem_replicate (k := (point - ds.length).toNat) hc)
    refine ⟨hl.numeral none none (by simp) (by simp), rfl, ?_⟩
    simp [Numeral.chars, Numeral.minusChars, Numeral.fractionChars, Numeral.exponentChars,
      Leading.numeral]
  rw [if_neg hback]
  by_cases hinner : 0 < point ∧ point ≤ 21
  · rw [if_pos hinner]
    have hd : Digits (ds.drop point.toNat) := by
      refine ⟨?_, fun c hc => h.digits.2 c (List.mem_of_mem_drop hc)⟩
      rw [Ne, List.drop_eq_nil_iff]
      omega
    have hl := h.take (k := point.toNat) (by omega)
    refine ⟨hl.numeral (some (ds.drop point.toNat)) none (by simpa using hd) (by simp), rfl, ?_⟩
    simp [Numeral.chars, Numeral.minusChars, Numeral.fractionChars, Numeral.exponentChars,
      Leading.numeral]
  rw [if_neg hinner]
  by_cases hfront : -6 < point ∧ point ≤ 0
  · rw [if_pos hfront]
    have hd : Digits (List.replicate (-point).toNat '0' ++ ds) := by
      refine ⟨by simp [h.digits.1], fun c hc => ?_⟩
      rcases List.mem_append.1 hc with hc | hc
      · exact isDigit_of_mem_replicate hc
      · exact h.digits.2 c hc
    refine ⟨{ Numeral.zero with fraction := some _, fraction_digits := by simpa using hd }, rfl, ?_⟩
    simp [Numeral.chars, Numeral.minusChars, Numeral.fractionChars, Numeral.exponentChars,
      Numeral.zero]
  rw [if_neg hfront]
  have hs : (if point - 1 < 0 then '-' else '+') = '+' ∨
      (if point - 1 < 0 then '-' else '+') = '-' := by
    split <;> simp
  have he : ∀ e ∈ some (if point - 1 < 0 then '-' else '+', Nat.toDigits 10 (point - 1).natAbs),
      (e.1 = '+' ∨ e.1 = '-') ∧ Digits e.2 := by
    rintro _ ⟨⟩
    exact ⟨hs, digits_toDigits _⟩
  match ds, h with
  | [], h => exact absurd rfl h.digits.1
  | [d], h => exact ⟨h.numeral none (some _) (by simp) he, rfl, rfl⟩
  | d :: e :: es, h =>
    have hf : Digits (e :: es) := ⟨by simp, fun c hc => h.digits.2 c (List.mem_cons_of_mem _ hc)⟩
    have hl := h.take (k := 1) (by decide)
    exact ⟨hl.numeral (some (e :: es)) (some _) (by simpa using hf) he, rfl, rfl⟩

theorem ofDecimal_zero (e : Int) : ofDecimal false 0 e = zero := by
  simp [ofDecimal, ofRatio, ofParts, zero, Canonical]

/-- A decimal that reads back as a number other than zero has a digit other than zero. -/
theorem digits_onGrid_pos {m : Nat} {e : Int} {h : Canonical m e} (hm : m ≠ 0) {a b : Nat}
    {g : Int} {d : Decimal} (hd : onGrid (.finite false m e h) a b g = some d) :
    0 < d.digits := by
  obtain ⟨n, hn, rfl⟩ := Option.map_eq_some_iff.1 hd
  have hr := List.find?_some hn
  rcases Nat.eq_zero_or_pos n with rfl | hp
  · rw [ofDecimal_zero, beq_iff_eq] at hr
    cases hr
    exact absurd rfl hm
  · exact hp

theorem digits_shortest_pos {m : Nat} {e : Int} {h : Canonical m e} (hm : m ≠ 0) :
    0 < (shortest (.finite false m e h) m e).digits := by
  unfold shortest
  cases hf : (((List.range 17).map fun k : Nat =>
      decimalOrder (ratioOf m e).1 (ratioOf m e).2 - (k + 1)).findSome?
        (onGrid (.finite false m e h) (ratioOf m e).1 (ratioOf m e).2)) with
  | none =>
    simp only [hf, Option.getD_none, exactDecimal]
    exact Nat.mul_pos (Nat.mul_pos (Nat.pos_of_ne_zero hm) (Nat.two_pow_pos _))
      (Nat.pow_pos (by decide))
  | some d =>
    obtain ⟨g, _, hg⟩ := List.exists_of_findSome?_eq_some hf
    simp only [hf, Option.getD_some]
    exact digits_onGrid_pos hm hg

theorem exists_numeral_magnitudeText {m : Nat} {e : Int} (h : Canonical m e) (hm : m ≠ 0) :
    ∃ u : Numeral, u.negative = false ∧ u.chars = magnitudeText m e h :=
  exists_numeral_layout (leading_dropZeros_toDigits (digits_shortest_pos hm)) _

/-- The text of a finite number is a numeral. -/
theorem exists_numeral {n : Number} (h : n.isFinite = true) :
    ∃ u : Numeral, u.chars = n.chars := by
  match n, h with
  | .finite s m e hc, _ =>
    by_cases hm : m = 0
    · exact ⟨.zero, by simp [chars, hm]; rfl⟩
    · obtain ⟨u, hu, ht⟩ := exists_numeral_magnitudeText hc hm
      cases s with
      | false => exact ⟨u, by simp [chars, hm, ht]⟩
      | true => exact ⟨u.negate, by simp [chars, hm, Numeral.chars_negate hu, ht]⟩

/-- What numbers that are not finite are written as. -/
def nonFiniteTexts : List String := ["NaN", "Infinity", "-Infinity"]

theorem text_mem_nonFiniteTexts {n : Number} :
    n.text ∈ nonFiniteTexts ↔ n.isFinite = false := by
  constructor
  · intro h
    cases hn : n.isFinite with
    | false => rfl
    | true =>
      -- A numeral has no letter but `e`.
      obtain ⟨u, hu⟩ := exists_numeral hn
      have hc : ∀ c ∈ n.text.toList, c ≠ 'n' ∧ c ≠ 'N' := by
        rw [toList_text, ← hu]
        refine u.forall_mem_chars (fun c hc => ?_) (by simp)
        constructor <;> rintro rfl <;> revert hc <;> decide
      simp only [nonFiniteTexts, List.mem_cons, List.not_mem_nil, or_false] at h
      rcases h with h | h | h <;> rw [h] at hc
      · exact absurd rfl (hc 'N' (by decide)).2
      · exact absurd rfl (hc 'n' (by decide)).1
      · exact absurd rfl (hc 'n' (by decide)).1
  · intro h
    cases n with
    | nan => decide
    | infinite s => cases s <;> decide
    | finite => cases h

end GraphQuery.Number
