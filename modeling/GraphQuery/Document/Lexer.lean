import GraphQuery.Document.Number
import GraphQuery.Document.Strings

/-! Query text as a stream of tokens. A fault ends the stream, so that it is met only by a reader
that comes so far. -/
namespace GraphQuery.Document

/-- What remains to be read of a text. -/
inductive TokenStream where
  | done
  | fault (f : LexicalFault)
  | next (t : Token) (rest : TokenStream)
  deriving DecidableEq, Repr

namespace TokenStream

def length : TokenStream → Nat
  | .done => 0
  | .fault _ => 0
  | .next _ rest => rest.length + 1

@[simp] theorem length_done : done.length = 0 := rfl
@[simp] theorem length_fault (f : LexicalFault) : (fault f).length = 0 := rfl
@[simp] theorem length_next (t : Token) (s : TokenStream) : (next t s).length = s.length + 1 := rfl

theorem length_lt_succ (s : TokenStream) : s.length < s.length + 1 := Nat.lt_add_one _

theorem length_lt_succ_of_lt {s t : TokenStream} (h : t.length < s.length) :
    t.length < s.length + 1 := Nat.lt_succ_of_lt h

theorem length_lt_trans {s₁ s₂ s₃ : TokenStream} (h : s₃.length < s₂.length)
    (h' : s₂.length < s₁.length) : s₃.length < s₁.length := Nat.lt_trans h h'

theorem length_lt_of_lt_succ {s₁ s₂ s₃ : TokenStream} (h : s₃.length < s₂.length + 1)
    (h' : s₂.length < s₁.length) : s₃.length < s₁.length := by omega

theorem length_lt_of_lt_of_lt_succ {s₁ s₂ s₃ : TokenStream} (h : s₃.length < s₂.length)
    (h' : s₂.length < s₁.length + 1) : s₃.length < s₁.length := by omega

theorem length_lt_next (t : Token) (s : TokenStream) : s.length < (next t s).length + 1 := by
  simp only [length_next]
  omega

end TokenStream

/-- White space, commas and the byte order mark stand between tokens and mean nothing. -/
def isIgnored (c : Char) : Bool :=
  c == ' ' || c == '\t' || c == ',' || c == '\n' || c == '\r' || c == '\uFEFF'

/-- The punctuators of one character. -/
def punctuator? : Char → Option Punctuator
  | '!' => some .bang
  | '$' => some .dollar
  | '&' => some .ampersand
  | '(' => some .parenOpen
  | ')' => some .parenClose
  | ':' => some .colon
  | '=' => some .equals
  | '@' => some .atSign
  | '[' => some .bracketOpen
  | ']' => some .bracketClose
  | '\x7b' => some .braceOpen
  | '|' => some .bar
  | '\x7d' => some .braceClose
  | _ => none

/-- Reads a token that begins with a quote, from what follows the quote. -/
def readQuoted : List Char → Except LexicalFault (Token × List Char)
  | '"' :: '"' :: cs => (readBlock cs).map fun r => (.blockString (blockValue r.1), r.2)
  | cs => (readString cs).map fun r => (.string (String.ofList r.1), r.2)

/-- Reads a spread, from what follows its first point. -/
def readSpread : List Char → Except LexicalFault (Token × List Char)
  | '.' :: '.' :: cs => .ok (.punctuator .spread, cs)
  | _ => .error (.unexpectedCharacter '.')

def readName (c : Char) (cs : List Char) : Token × List Char :=
  (.name (String.ofList (c :: cs.takeWhile isNamePart)), cs.dropWhile isNamePart)

/-- Reads the token that begins with `c`, and gives what follows it. -/
def readToken (c : Char) (cs : List Char) : Except LexicalFault (Token × List Char) :=
  match punctuator? c with
  | some p => .ok (.punctuator p, cs)
  | none =>
    if c = '.' then readSpread cs
    else if c = '"' then readQuoted cs
    else if c.isDigit || c == '-' then readNumber (c :: cs)
    else if isNameStart c then .ok (readName c cs)
    else .error (.unexpectedCharacter c)

theorem readQuoted_length {cs rest : List Char} {t : Token} (h : readQuoted cs = .ok (t, rest)) :
    rest.length < cs.length := by
  unfold readQuoted at h
  split at h
  · obtain ⟨⟨v, r⟩, hr, he⟩ := map_eq_ok.1 h
    have := readBlock_length hr
    cases he
    simp; omega
  · obtain ⟨⟨v, r⟩, hr, he⟩ := map_eq_ok.1 h
    cases he
    exact readString_length hr

theorem readToken_length {c : Char} {cs rest : List Char} {t : Token}
    (h : readToken c cs = .ok (t, rest)) : rest.length ≤ cs.length := by
  unfold readToken at h
  split at h
  · cases h; exact Nat.le_refl _
  · split at h
    · unfold readSpread at h
      split at h <;> cases h
      simp; omega
    · split at h
      · exact Nat.le_of_lt (readQuoted_length h)
      · split at h
        · have := readNumber_length h
          simp at this
          omega
        · split at h
          · cases h
            exact length_dropWhile_le _ _
          · cases h

/-- The stream of tokens that a text is. -/
def lex : List Char → TokenStream
  | [] => .done
  | c :: cs =>
    if isIgnored c then lex cs
    else if c = '#' then lex (cs.dropWhile (!isLineEnd ·))
    else match _h : readToken c cs with
      | .error f => .fault f
      | .ok (t, rest) => .next t (lex rest)
termination_by cs => cs.length
decreasing_by
  · simp
  · have := length_dropWhile_le (!isLineEnd ·) cs
    simp; omega
  · have := readToken_length _h
    simp; omega

end GraphQuery.Document
