import GraphQuery.Number.Decimal
import GraphQuery.Text.Basic

/-! Numbers written as text: decimals with an optional sign, point and exponent, the word for
infinity, and whole numbers in base 16, 8 or 2. Each text stands for the number nearest to what
it writes. -/
namespace GraphQuery.Number

def spanDigits (cs : List Char) : List Char × List Char := cs.span Char.isDigit

def ofDigits (base : Nat) (ds : List Nat) : Nat := ds.foldl (fun n d => base * n + d) 0

def digitsValue (cs : List Char) : Nat := ofDigits 10 (cs.map fun c => c.toNat - '0'.toNat)

/-- Reads a whole text as an exponent: nothing, or `e` with an optional sign and digits. -/
def readExponent : List Char → Option Int
  | [] => some 0
  | c :: cs =>
    if c ≠ 'e' ∧ c ≠ 'E' then none
    else
      let (negative, digits) := match cs with
        | '-' :: ds => (true, ds)
        | '+' :: ds => (false, ds)
        | ds => (false, ds)
      if digits.isEmpty || !digits.all Char.isDigit then none
      else some (if negative then -digitsValue digits else digitsValue digits)

/-- Reads an unsigned decimal: digits with a point before, among or after them, then an
exponent. -/
def readMagnitude (negative : Bool) (cs : List Char) : Option Number :=
  let (whole, rest) := spanDigits cs
  let (fraction, rest) := match rest with
    | '.' :: ds => spanDigits ds
    | ds => ([], ds)
  if whole.isEmpty && fraction.isEmpty then none
  else (readExponent rest).map fun e =>
    ofDecimal negative (digitsValue (whole ++ fraction)) (e - fraction.length)

def readSigned (negative : Bool) (cs : List Char) : Option Number :=
  if cs = "Infinity".toList then some (.infinite negative) else readMagnitude negative cs

def readBased (base : Nat) (cs : List Char) : Option Number :=
  if cs.isEmpty then none
  else
    (cs.mapM fun c => (Text.hexDigit? c).filter (· < base)).map fun ds =>
      ofNat (ofDigits base ds)

def announcedBase? : List Char → Option (Nat × List Char)
  | '0' :: c :: cs =>
    if c = 'x' ∨ c = 'X' then some (16, cs)
    else if c = 'o' ∨ c = 'O' then some (8, cs)
    else if c = 'b' ∨ c = 'B' then some (2, cs)
    else none
  | _ => none

/-- Reads a text without blanks around it; an empty one is zero. -/
def read? (cs : List Char) : Option Number :=
  match announcedBase? cs with
  | some (base, ds) => readBased base ds
  | none =>
    match cs with
    | [] => some zero
    | '-' :: ds => readSigned true ds
    | '+' :: ds => readSigned false ds
    | ds => readSigned false ds

/-- The number that a text writes, blanks around it aside; `nan` for any other text. -/
def ofText (text : String) : Number := (read? (Text.trim text.toList)).getD .nan

end GraphQuery.Number
