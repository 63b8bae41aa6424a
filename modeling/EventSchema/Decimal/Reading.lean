/-!
# Reading decimals

The double nearest to a decimal numeral. Numerals far outside the range of doubles are settled by
their magnitude, so that no huge power of ten is ever computed.
-/

namespace EventSchema.Decimal

/-- A double with the given sign. -/
def withSign (negative : Bool) (x : Float) : Float := if negative then -x else x

/-- The double nearest to `digits * 10 ^ exponent`, with a sign. -/
def readFloat (negative : Bool) (digits : Nat) (exponent : Int) : Float :=
  let magnitude := exponent + Int.ofNat (Nat.toDigits 10 digits).length
  let size :=
    if digits = 0 ∨ magnitude < -400 then 0.0
    else if 400 < magnitude then 1.0 / 0.0
    else Float.ofScientific digits (exponent < 0) exponent.natAbs
  withSign negative size

end EventSchema.Decimal
