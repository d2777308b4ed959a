/-! Pieces of text: its 16-bit units, of which a character beyond the basic plane counts as two, the
parts that stand within it, hexadecimal digits, and the blanks around it. -/
namespace GraphQuery.Text

/-- The first `n` units of a text. A cut through a character leaves the replacement character. -/
def takeUnits : Nat → List Char → List Char
  | 0, _ => []
  | _, [] => []
  | 1, c :: _ => if c.toNat < 0x10000 then [c] else ['\uFFFD']
  | n + 2, c :: cs => c :: takeUnits (if c.toNat < 0x10000 then n + 1 else n) cs

@[simp] theorem takeUnits_zero (cs : List Char) : takeUnits 0 cs = [] := by
  cases cs <;> simp [takeUnits]

/-- The units of a text, each as a text; half a character is the replacement character. -/
def units (cs : List Char) : List String :=
  cs.flatMap fun c => if c.toNat < 0x10000 then [c.toString] else ["\uFFFD", "\uFFFD"]

def contains (part : List Char) : List Char → Bool
  | [] => part.isEmpty
  | c :: cs => part.isPrefixOf (c :: cs) || contains part cs

theorem contains_iff (part cs : List Char) : contains part cs = true ↔ part <:+: cs := by
  induction cs with
  | nil => simp [contains]
  | cons c cs ih => simp [contains, ih, List.infix_cons_iff]

def hexDigit? (c : Char) : Option Nat :=
  if c.isDigit then some (c.toNat - '0'.toNat)
  else if 'a' ≤ c ∧ c ≤ 'f' then some (c.toNat - 'a'.toNat + 10)
  else if 'A' ≤ c ∧ c ≤ 'F' then some (c.toNat - 'A'.toNat + 10)
  else none

/-- Upper-case hexadecimal digits, at least four. -/
def hexText (n : Nat) : List Char :=
  let ds := (Nat.toDigits 16 n).map Char.toUpper
  List.replicate (4 - ds.length) '0' ++ ds

/-- Whether a character is white space or a line end in the Unicode character database, or the
zero-width no-break space. -/
def isBlank (c : Char) : Bool :=
  let n := c.toNat
  (0x09 ≤ n && n ≤ 0x0D) || n == 0x20 || n == 0xA0 || n == 0x1680 ||
    (0x2000 ≤ n && n ≤ 0x200A) || n == 0x2028 || n == 0x2029 || n == 0x202F || n == 0x205F ||
    n == 0x3000 || n == 0xFEFF

def trim (cs : List Char) : List Char :=
  ((cs.dropWhile isBlank).reverse.dropWhile isBlank).reverse

end GraphQuery.Text
