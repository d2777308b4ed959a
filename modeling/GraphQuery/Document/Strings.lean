import GraphQuery.Document.Token
import GraphQuery.Outcome

/-! String tokens. A string on one line has escapes; a block string has one escape, runs over
lines, and loses their common indent and the blank lines around its content. -/
namespace GraphQuery.Document

def isLineEnd (c : Char) : Bool := c == '\n' || c == '\r'

def simpleEscape? : Char → Option Char
  | '"' => some '"'
  | '\\' => some '\\'
  | '/' => some '/'
  | 'b' => some '\x08'
  | 'f' => some '\x0c'
  | 'n' => some '\n'
  | 'r' => some '\r'
  | 't' => some '\t'
  | _ => none

def readHex : List Char → Option (Nat × List Char)
  | a :: b :: c :: d :: rest =>
    match Text.hexDigit? a, Text.hexDigit? b, Text.hexDigit? c, Text.hexDigit? d with
    | some a, some b, some c, some d => some (((a * 16 + b) * 16 + c) * 16 + d, rest)
    | _, _, _, _ => none
  | _ => none

/-- A leading and a trailing surrogate name one character together. -/
def joinSurrogates (high low : Nat) : Char :=
  Char.ofNat (0x10000 + (high - 0xD800) * 0x400 + (low - 0xDC00))

/-- The trailing surrogate that has to follow the leading one `high`, as an escape. -/
def readTrailing (high : Nat) : List Char → Option (Char × List Char)
  | '\\' :: 'u' :: cs =>
    match readHex cs with
    | some (low, rest) =>
      if 0xDC00 ≤ low ∧ low < 0xE000 then some (joinSurrogates high low, rest) else none
    | none => none
  | _ => none

/-- An escape of four digits, or of twice four for a pair of surrogates. -/
def readFixed (cs : List Char) : Option (Char × List Char) :=
  match readHex cs with
  | none => none
  | some (n, rest) =>
    if n < 0xD800 ∨ 0xE000 ≤ n then some (Char.ofNat n, rest)
    else if n < 0xDC00 then readTrailing n rest
    else none

/-- An escape in braces: digits, which name `point` so far, up to the closing brace. `size` counts
the units read, at most twelve; it is what a fault shows. -/
def readBraced (size point : Nat) : List Char → Except Nat (Char × List Char)
  | [] => .error (size + 1)
  | c :: cs =>
    if 12 ≤ size then .error size
    else if c = '\x7d' then
      if 4 ≤ size ∧ point.isValidChar then .ok (Char.ofNat point, cs) else .error (size + 1)
    else match Text.hexDigit? c with
      | none => .error (size + 1)
      | some d =>
        if point * 16 + d < 0x80000000 then readBraced (size + 1) (point * 16 + d) cs
        else .error (size + 1)

/-- A fault that shows the first `n` units from the backslash on. -/
def unicodeFault (n : Nat) (cs : List Char) : LexicalFault :=
  .unicodeEscape (String.ofList (Text.takeUnits n ('\\' :: cs)))

def readEscape (cs : List Char) : Except LexicalFault (Char × List Char) :=
  match cs with
  | 'u' :: '\x7b' :: rest =>
    match readBraced 3 0 rest with
    | .ok r => .ok r
    | .error n => .error (unicodeFault n cs)
  | 'u' :: rest =>
    match readFixed rest with
    | some r => .ok r
    | none => .error (unicodeFault 6 cs)
  | [] => .error (.characterEscape "\\")
  | c :: rest =>
    match simpleEscape? c with
    | some d => .ok (d, rest)
    | none => .error (.characterEscape (String.ofList (Text.takeUnits 2 ('\\' :: cs))))

theorem readHex_length {cs rest : List Char} {n : Nat} (h : readHex cs = some (n, rest)) :
    rest.length < cs.length := by
  unfold readHex at h
  split at h
  · split at h
    · cases h; simp; omega
    · cases h
  · cases h

theorem readTrailing_length {n : Nat} {c : Char} {cs rest : List Char}
    (h : readTrailing n cs = some (c, rest)) : rest.length < cs.length := by
  unfold readTrailing at h
  split at h
  · split at h
    · next hr =>
      have := readHex_length hr
      split at h
      · simp only [Option.some.injEq, Prod.mk.injEq] at h
        simp [← h.2]; omega
      · cases h
    · cases h
  · cases h

theorem readFixed_length {c : Char} {cs rest : List Char} (h : readFixed cs = some (c, rest)) :
    rest.length < cs.length := by
  unfold readFixed at h
  split at h
  · cases h
  · next n r hr =>
    have h₁ := readHex_length hr
    split at h
    · simp only [Option.some.injEq, Prod.mk.injEq] at h
      exact h.2 ▸ h₁
    · split at h
      · have := readTrailing_length h
        omega
      · cases h

theorem readBraced_length {size point : Nat} {c : Char} {cs rest : List Char}
    (h : readBraced size point cs = .ok (c, rest)) : rest.length < cs.length := by
  induction cs generalizing size point with
  | nil => simp [readBraced] at h
  | cons d cs ih =>
    simp only [readBraced] at h
    split at h
    · cases h
    · split at h
      · split at h
        · simp only [Except.ok.injEq, Prod.mk.injEq] at h
          simp [h.2]
        · cases h
      · split at h
        · cases h
        · split at h
          · have := ih h
            simp; omega
          · cases h

theorem readEscape_length {c : Char} {cs rest : List Char} (h : readEscape cs = .ok (c, rest)) :
    rest.length < cs.length := by
  unfold readEscape at h
  split at h
  · split at h <;> cases h
    have := readBraced_length ‹_›
    simp; omega
  · split at h <;> cases h
    have := readFixed_length ‹_›
    simp; omega
  · cases h
  · split at h <;> cases h
    simp

/-- Reads a string on one line after its opening quote: its value, and what follows the closing
quote. -/
def readString : List Char → Except LexicalFault (List Char × List Char)
  | [] => .error .unterminatedString
  | c :: cs =>
    if c = '"' then .ok ([], cs)
    else if isLineEnd c then .error .unterminatedString
    else if c = '\\' then
      match _h : readEscape cs with
      | .error f => .error f
      | .ok (d, rest) => (readString rest).map fun r => (d :: r.1, r.2)
    else (readString cs).map fun r => (c :: r.1, r.2)
termination_by cs => cs.length
decreasing_by
  · have := readEscape_length _h
    simp; omega
  · simp

theorem readString_length {cs value rest : List Char} (h : readString cs = .ok (value, rest)) :
    rest.length < cs.length := by
  fun_induction readString cs generalizing value rest with
  | case1 => cases h
  | case2 => cases h; simp
  | case3 => cases h
  | case4 => cases h
  | case5 cs d r he _ _ ih =>
    obtain ⟨⟨v, r'⟩, hr, he'⟩ := map_eq_ok.1 h
    cases he'
    have := readEscape_length he
    have := ih hr
    simp; omega
  | case6 c cs _ _ _ ih =>
    obtain ⟨⟨v, r⟩, hr, he⟩ := map_eq_ok.1 h
    cases he
    have := ih hr
    simp; omega

/-- Reads a block string after its opening quotes. Escaped closing quotes stand for themselves,
and every line ends in a line feed. -/
def readBlock : List Char → Except LexicalFault (List Char × List Char)
  | [] => .error .unterminatedString
  | '"' :: '"' :: '"' :: rest => .ok ([], rest)
  | '\\' :: '"' :: '"' :: '"' :: rest =>
    (readBlock rest).map fun r => ('"' :: '"' :: '"' :: r.1, r.2)
  | '\r' :: '\n' :: rest => (readBlock rest).map fun r => ('\n' :: r.1, r.2)
  | c :: rest => (readBlock rest).map fun r => ((if c = '\r' then '\n' else c) :: r.1, r.2)

theorem readBlock_length {cs value rest : List Char} (h : readBlock cs = .ok (value, rest)) :
    rest.length < cs.length := by
  fun_induction readBlock cs generalizing value rest with
  | case1 => cases h
  | case2 => cases h; simp; omega
  | case3 cs ih | case4 cs ih | case5 c cs _ _ _ ih =>
    obtain ⟨⟨v, r⟩, hr, he⟩ := map_eq_ok.1 h
    cases he
    have := ih hr
    simp; omega

/-- The lines of a text; a line feed ends a line and belongs to none. -/
def splitLines : List Char → List (List Char)
  | [] => [[]]
  | c :: cs =>
    if c = '\n' then [] :: splitLines cs
    else match splitLines cs with
      | [] => [[c]]
      | line :: lines => (c :: line) :: lines

def joinLines (lines : List (List Char)) : List Char := List.intercalate ['\n'] lines

def isIndent (c : Char) : Bool := c == ' ' || c == '\t'

def isBlankLine (line : List Char) : Bool := line.all isIndent

def indent (line : List Char) : Nat := (line.takeWhile isIndent).length

def commonIndent (lines : List (List Char)) : Nat :=
  (((lines.filter (!isBlankLine ·)).map indent).min?).getD 0

def trimBlank (lines : List (List Char)) : List (List Char) :=
  ((lines.dropWhile isBlankLine).reverse.dropWhile isBlankLine).reverse

/-- The first line stands where the quotes do and has no part in the indent of the others. -/
def dedent : List (List Char) → List (List Char)
  | [] => []
  | first :: others => trimBlank (first :: others.map (·.drop (commonIndent others)))

def blockValue (cs : List Char) : String := String.ofList (joinLines (dedent (splitLines cs)))

end GraphQuery.Document
