import GraphQuery.Number.Basic

/-! Decimals and numbers: a ratio is rounded to the nearest number, a tie to the even mantissa,
by exact integer division. -/
namespace GraphQuery.Number

/-- The quotient nearest to `a / b`; a tie goes to the even neighbour. -/
def nearest (a b : Nat) : Nat :=
  let q := a / b
  let r := a % b
  if 2 * r < b then q else if b < 2 * r then q + 1 else q + q % 2

/-- The least exponent at which `a / b` needs no more than 53 bits, not below that of the
smallest number. -/
def exponentFor (a b : Nat) : Int :=
  let e : Int := a.log2 - b.log2 - 53
  let e := if a * power 2 (-e) / (b * power 2 e) < 0x20000000000000 then e else e + 1
  max e (-1074)

/-- The magnitude `m · 2 ^ e`, taken one exponent up if rounding has filled a 54th bit; a
magnitude beyond the largest number is infinite. -/
def ofParts (negative : Bool) (m : Nat) (e : Int) : Number :=
  if h : Canonical m e then .finite negative m e h
  else if h : Canonical (m / 2) (e + 1) then .finite negative (m / 2) (e + 1) h
  else .infinite negative

def ofRatio (negative : Bool) (a b : Nat) : Number :=
  if a = 0 then ofParts negative 0 (-1074)
  else
    let e := exponentFor a b
    ofParts negative (nearest (a * power 2 (-e)) (b * power 2 e)) e

def digitCount (n : Nat) : Nat := if n = 0 then 0 else (Nat.toDigits 10 n).length

/-- The number nearest to `m · 10 ^ e`. Decimals that lie beyond every number, or nearer to zero
than to any other, are recognised by their length. -/
def ofDecimal (negative : Bool) (m : Nat) (e : Int) : Number :=
  let order : Int := digitCount m + e
  if m = 0 ∨ order < -323 then ofRatio negative 0 1
  else if 310 < order then .infinite negative
  else ofRatio negative (m * power 10 e) (power 10 (-e))

def ofNat (n : Nat) : Number := ofDecimal false n 0

def ofInt (i : Int) : Number := ofDecimal (i < 0) i.natAbs 0

end GraphQuery.Number
