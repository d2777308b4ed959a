/-! Numbers as they are written in graphs: the binary64 values, held exactly as
`mantissa · 2 ^ exponent` in the one canonical form of each. Comparison with natural numbers
and the integral part are exact. -/
namespace GraphQuery

/-- The pairs that name a finite binary64 magnitude: 53 bits of mantissa, all of them used
unless the exponent is the least one. -/
def Canonical (mantissa : Nat) (exponent : Int) : Prop :=
  mantissa < 0x20000000000000 ∧ -1074 ≤ exponent ∧ exponent ≤ 971 ∧
    (0x10000000000000 ≤ mantissa ∨ exponent = -1074)

instance (mantissa : Nat) (exponent : Int) : Decidable (Canonical mantissa exponent) :=
  inferInstanceAs (Decidable (_ ∧ _))

inductive Number where
  | nan
  | infinite (negative : Bool)
  | finite (negative : Bool) (mantissa : Nat) (exponent : Int)
      (canonical : Canonical mantissa exponent)
  deriving DecidableEq, Repr

namespace Number

def zero : Number := .finite false 0 (-1074) (by decide)

def negativeZero : Number := .finite true 0 (-1074) (by decide)

instance : Inhabited Number := ⟨zero⟩

def isFinite : Number → Bool
  | .finite .. => true
  | _ => false

@[simp] theorem isFinite_finite (s : Bool) (m : Nat) (e : Int) (h : Canonical m e) :
    (finite s m e h).isFinite = true := rfl

def isFalsy : Number → Bool
  | .nan => true
  | .infinite _ => false
  | .finite _ m _ _ => m == 0

def isPositive : Number → Bool
  | .nan => false
  | .infinite s => !s
  | .finite s m _ _ => !s && m != 0

/-- The numerator of `base ^ e`; its denominator is that of the opposite exponent. -/
def power (base : Nat) (e : Int) : Nat := Nat.pow base e.toNat

/-- The largest natural number not above the magnitude `m · 2 ^ e`. -/
def floorOf (m : Nat) (e : Int) : Nat := m * power 2 e / power 2 (-e)

def isWhole (m : Nat) (e : Int) : Bool := m * power 2 e % power 2 (-e) == 0

/-- The natural number that a finite number is, if it is one; either zero is 0. -/
def toNat? : Number → Option Nat
  | .finite s m e _ => if isWhole m e && (!s || m == 0) then some (floorOf m e) else none
  | _ => none

/-- The largest natural number not above a number, 0 below zero, and none where every natural
number lies within the bound: for positive infinity and for a value that compares with nothing. -/
def floor? : Number → Option Nat
  | .nan => none
  | .infinite s => if s then some 0 else none
  | .finite s m e _ => some (if s then 0 else floorOf m e)

theorem floor?_of_toNat? {x : Number} {n : Nat} (h : x.toNat? = some n) : x.floor? = some n := by
  cases x with
  | finite s m e hc =>
    simp only [toNat?, Option.ite_none_right_eq_some, Bool.and_eq_true, Bool.or_eq_true,
      Bool.not_eq_true', beq_iff_eq, Option.some.injEq] at h
    obtain ⟨⟨-, hs⟩, rfl⟩ := h
    rcases hs with rfl | rfl
    · rfl
    · simp [floor?, floorOf]
  | _ => cases h

end Number
end GraphQuery
