/-!
# The parts of a double

A finite double is an integer times a power of two. Its significand and exponent are read off its
bits, so statements about doubles become statements about integers.
-/

namespace EventSchema

/-- A double taken apart. -/
inductive Binary64 where
  /-- A number that is no number. -/
  | notANumber
  /-- An infinity. -/
  | infinite (negative : Bool)
  /-- The number `significand * 2 ^ exponent` with a sign. -/
  | finite (negative : Bool) (significand : Nat) (exponent : Int)
  deriving DecidableEq, Inhabited

namespace Binary64

/-- How many values the fraction has: as many as the significands without the leading bit. -/
def fractionUnit : Nat := Nat.pow 2 52

/-- How many values the exponent has. -/
def exponentUnit : Nat := Nat.pow 2 11

/-- What the sign counts in the bits. -/
def signUnit : Nat := Nat.pow 2 63

/-- Take a double apart. -/
def ofFloat (x : Float) : Binary64 :=
  let bits := x.toBits.toNat
  let negative := signUnit ≤ bits
  let biased := bits / fractionUnit % exponentUnit
  let fraction := bits % fractionUnit
  if biased = 2047 then
    if fraction = 0 then .infinite negative else .notANumber
  else if biased = 0 then .finite negative fraction (-1074)
  else .finite negative (fractionUnit + fraction) (Int.ofNat biased - 1075)

/-- The integer that a double is, if it is one. -/
def toInt? : Binary64 → Option Int
  | .finite negative m e =>
    let size :=
      if 0 ≤ e then some (m * Nat.pow 2 e.toNat)
      else
        let unit := Nat.pow 2 (-e).toNat
        if m % unit = 0 then some (m / unit) else none
    size.map fun n => if negative then -Int.ofNat n else Int.ofNat n
  | _ => none

/-- Whether a double is zero, of either sign. -/
def isZero : Binary64 → Bool
  | .finite _ m _ => m == 0
  | _ => false

end Binary64

end EventSchema
