import GraphQuery.Number.Decimal

/-! The text of a number: the fewest decimal digits that read back as the same number, the
nearest of those, laid out plainly from `1e-6` up to `1e21` and with an exponent elsewhere. -/
namespace GraphQuery.Number

def ratioOf (m : Nat) (e : Int) : Nat × Nat := (m * power 2 e, power 2 (-e))

/-- The `p` with `10 ^ (p - 1) ≤ a / b < 10 ^ p`. -/
def decimalOrder (a b : Nat) : Int :=
  if b ≤ a then digitCount (a / b) else 1 - digitCount ((b - 1) / a)

structure Decimal where
  digits : Nat
  exponent : Int
  deriving DecidableEq, Repr

/-- The decimals next to `a / b` on the grid of step `10 ^ g` that read back as `n`, the nearer
of two, and the even one of two equally near. -/
def onGrid (n : Number) (a b : Nat) (g : Int) : Option Decimal :=
  let num := a * power 10 (-g)
  let den := b * power 10 g
  let low := num / den
  let reads (d : Nat) : Bool := ofDecimal false d g == n
  let candidates := [nearest num den, low, low + 1]
  (candidates.find? reads).map fun d => ⟨d, g⟩

def exactDecimal (m : Nat) (e : Int) : Decimal :=
  ⟨m * power 2 e * power 5 (-e), -(-e).toNat⟩

/-- The decimal of fewest digits, tried from one digit up to seventeen, that reads back as `n`,
whose magnitude is `m · 2 ^ e`. -/
def shortest (n : Number) (m : Nat) (e : Int) : Decimal :=
  let (a, b) := ratioOf m e
  let p := decimalOrder a b
  let grids := (List.range 17).map fun k : Nat => p - (k + 1)
  (grids.findSome? (onGrid n a b)).getD (exactDecimal m e)

def dropZeros : List Char → List Char
  | [] => []
  | c :: cs => match dropZeros cs with
    | [] => if c = '0' then [] else [c]
    | ds => c :: ds

/-- Digits with the decimal point `point` places after the first of them: plainly while at most
21 places stand before the point and at most five zeros follow it, else with an exponent. -/
def layout (digits : List Char) (point : Int) : List Char :=
  let count : Int := digits.length
  if count ≤ point ∧ point ≤ 21 then
    digits ++ List.replicate (point - count).toNat '0'
  else if 0 < point ∧ point ≤ 21 then
    digits.take point.toNat ++ '.' :: digits.drop point.toNat
  else if -6 < point ∧ point ≤ 0 then
    '0' :: '.' :: (List.replicate (-point).toNat '0' ++ digits)
  else
    let e := point - 1
    let sign := if e < 0 then '-' else '+'
    let mantissa := match digits with
      | [] => []
      | [d] => [d]
      | d :: ds => d :: '.' :: ds
    mantissa ++ 'e' :: sign :: Nat.toDigits 10 e.natAbs

def magnitudeText (m : Nat) (e : Int) (h : Canonical m e) : List Char :=
  let d := shortest (.finite false m e h) m e
  let written := Nat.toDigits 10 d.digits
  layout (dropZeros written) (written.length + d.exponent)

def chars : Number → List Char
  | .nan => "NaN".toList
  | .infinite s => (if s then "-Infinity" else "Infinity").toList
  | .finite s m e h =>
    if m = 0 then ['0']
    else if s then '-' :: magnitudeText m e h else magnitudeText m e h

def text (n : Number) : String := String.ofList n.chars

@[simp] theorem toList_text (n : Number) : n.text.toList = n.chars := by simp [text]

/-- The integer a number is, when its magnitude is below `2 ^ 53` and it is not the negative
zero. -/
def safeInt? : Number → Option Int
  | .finite s m e _ =>
    if s && m == 0 then none
    else if isWhole m e && floorOf m e < 0x20000000000000 then
      some (if s then -(floorOf m e : Int) else floorOf m e)
    else none
  | _ => none

end GraphQuery.Number
