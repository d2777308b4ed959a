import GraphQuery.Document.Token
import GraphQuery.Outcome

/-! Number tokens: an optional minus, digits without a leading zero, an optional fraction and an
optional exponent. A number may not run into a point or a name. -/
namespace GraphQuery.Document

def isNameStart (c : Char) : Bool := c.isAlpha || c == '_'

def isNamePart (c : Char) : Bool := isNameStart c || c.isDigit

/-- Digits, of which there has to be one. -/
def readDigits (cs : List Char) : Except LexicalFault (List Char × List Char) :=
  match cs.takeWhile Char.isDigit with
  | [] => .error (.digitExpected cs.head?)
  | d :: ds => .ok (d :: ds, cs.dropWhile Char.isDigit)

/-- The digits before the point. -/
def readWhole : List Char → Except LexicalFault (List Char × List Char)
  | '0' :: d :: cs => if d.isDigit then .error (.digitAfterZero d) else .ok (['0'], d :: cs)
  | ['0'] => .ok (['0'], [])
  | cs => readDigits cs

def readFraction : List Char → Except LexicalFault (List Char × List Char)
  | '.' :: cs => do
    let (ds, rest) ← readDigits cs
    return ('.' :: ds, rest)
  | cs => .ok ([], cs)

/-- The sign that an exponent may have. -/
def splitSign : List Char → List Char × List Char
  | '+' :: cs => (['+'], cs)
  | '-' :: cs => (['-'], cs)
  | cs => ([], cs)

def readExponent : List Char → Except LexicalFault (List Char × List Char)
  | [] => .ok ([], [])
  | c :: cs =>
    if c = 'e' ∨ c = 'E' then do
      let (ds, rest) ← readDigits (splitSign cs).2
      return (c :: (splitSign cs).1 ++ ds, rest)
    else .ok ([], c :: cs)

def splitMinus : List Char → List Char × List Char
  | '-' :: cs => (['-'], cs)
  | cs => ([], cs)

/-- Whether a number may end before `cs`. -/
def endsNumber : List Char → Bool
  | [] => true
  | c :: _ => !(c == '.' || isNameStart c)

def readNumber (cs : List Char) : Except LexicalFault (Token × List Char) := do
  let (whole, r₁) ← readWhole (splitMinus cs).2
  let (fraction, r₂) ← readFraction r₁
  let (exponent, rest) ← readExponent r₂
  let text := String.ofList ((splitMinus cs).1 ++ whole ++ fraction ++ exponent)
  if endsNumber rest then
    return (if fraction.isEmpty && exponent.isEmpty then .int text else .float text, rest)
  else .error (.digitExpected rest.head?)

theorem length_dropWhile_le {α : Type} (p : α → Bool) (xs : List α) :
    (xs.dropWhile p).length ≤ xs.length :=
  (List.dropWhile_suffix p).length_le

theorem readDigits_length {cs ds rest : List Char} (h : readDigits cs = .ok (ds, rest)) :
    rest.length < cs.length := by
  unfold readDigits at h
  split at h
  · cases h
  · next d ds' hd =>
    cases h
    have hs := List.takeWhile_append_dropWhile (p := Char.isDigit) (l := cs)
    have := congrArg List.length hs
    rw [hd] at this
    simp at this
    omega

theorem readWhole_length {cs ds rest : List Char} (h : readWhole cs = .ok (ds, rest)) :
    rest.length < cs.length := by
  unfold readWhole at h
  split at h
  · split at h <;> cases h; simp
  · cases h; simp
  · exact readDigits_length h

theorem readFraction_length {cs ds rest : List Char} (h : readFraction cs = .ok (ds, rest)) :
    rest.length ≤ cs.length := by
  unfold readFraction at h
  split at h
  · obtain ⟨⟨ds', r⟩, hd, he⟩ := bind_eq_ok.1 h
    cases he
    have := readDigits_length hd
    simp; omega
  · cases h; exact Nat.le_refl _

theorem splitSign_length (cs : List Char) : (splitSign cs).2.length ≤ cs.length := by
  unfold splitSign
  split <;> simp

theorem readExponent_length {cs ds rest : List Char} (h : readExponent cs = .ok (ds, rest)) :
    rest.length ≤ cs.length := by
  unfold readExponent at h
  split at h
  · cases h; exact Nat.le_refl _
  · next c cs =>
    split at h
    · obtain ⟨⟨ds', r⟩, hd, he⟩ := bind_eq_ok.1 h
      cases he
      have := readDigits_length hd
      have := splitSign_length cs
      simp; omega
    · cases h; exact Nat.le_refl _

theorem splitMinus_length (cs : List Char) : (splitMinus cs).2.length ≤ cs.length := by
  unfold splitMinus
  split <;> simp

theorem readNumber_length {cs rest : List Char} {t : Token} (h : readNumber cs = .ok (t, rest)) :
    rest.length < cs.length := by
  obtain ⟨⟨whole, r₁⟩, h₁, h⟩ := bind_eq_ok.1 h
  obtain ⟨⟨fraction, r₂⟩, h₂, h⟩ := bind_eq_ok.1 h
  obtain ⟨⟨exponent, r₃⟩, h₃, h⟩ := bind_eq_ok.1 h
  have := splitMinus_length cs
  have := readWhole_length h₁
  have := readFraction_length h₂
  have := readExponent_length h₃
  simp only at h
  split at h <;> cases h
  omega

end GraphQuery.Document
