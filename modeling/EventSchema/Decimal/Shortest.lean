import EventSchema.Decimal.Binary64

/-!
# Shortest decimal digits

The digits that a double is written with: as few as identify it among all doubles, and among these
the ones nearest to its value. A decimal identifies a double if it lies in the interval of the reals
that round to the double, whose ends belong to it if the significand is even. For one digit up to
seventeen the two neighbours of the value on the grid of that many digits are tested; seventeen
digits always suffice.
-/

namespace EventSchema.Decimal

/-- Digits and the position of the decimal point: `0.digits * 10 ^ point`. -/
structure Digits where
  /-- The digits, the first and the last of them not zero. -/
  digits : List Nat
  /-- How many digits stand before the decimal point. -/
  point : Int

/-- The decimal digits of a number, most significant first, no digits for zero. -/
def digitsOf (n : Nat) : List Nat :=
  ((Nat.toDigits 10 n).map fun c => c.toNat - 48).dropWhile (· == 0)

/-- The number of decimal digits of a number. -/
def digitCount (n : Nat) : Nat := (digitsOf n).length

/-- The value of a positive double and the ends of the interval of the reals that round to it, as
numerators over one common denominator. -/
structure Interval where
  /-- Numerator of the lower end. -/
  low : Nat
  /-- Numerator of the value. -/
  value : Nat
  /-- Numerator of the upper end. -/
  high : Nat
  /-- The common denominator. -/
  denominator : Nat
  /-- Whether the ends belong to the interval. -/
  closed : Bool

/-- The interval of a significand and an exponent. Below a power of two the doubles lie twice as
close, unless the exponent is the least one. -/
def Interval.of (m : Nat) (e : Int) : Interval :=
  let low := if m = Binary64.fractionUnit ∧ -1074 < e then 4 * m - 1 else 4 * m - 2
  let up := Nat.pow 2 (e - 2).toNat
  ⟨low * up, 4 * m * up, (4 * m + 2) * up, Nat.pow 2 (2 - e).toNat, m % 2 = 0⟩

/-- Whether a fraction lies in the interval. -/
def Interval.contains (i : Interval) (numerator denominator : Nat) : Bool :=
  let low := compare (i.low * denominator) (numerator * i.denominator)
  let high := compare (numerator * i.denominator) (i.high * denominator)
  if i.closed then low != .gt && high != .gt else low == .lt && high == .lt

/-- The multiple of `10 ^ k` that stands for the value on this grid, if one of the two neighbours of
the value lies in the interval: the nearer one, and of two equally near ones the even one. -/
def Interval.onGrid? (i : Interval) (k : Int) : Option Nat :=
  let up := Nat.pow 10 k.toNat
  let down := Nat.pow 10 (-k).toNat
  let below := i.value * down / (i.denominator * up)
  let inside (n : Nat) : Bool := i.contains (n * up) down
  let twice := 2 * i.value * down
  let middle := (2 * below + 1) * (i.denominator * up)
  match inside below, inside (below + 1) with
  | false, false => none
  | true, false => some below
  | false, true => some (below + 1)
  | true, true =>
    if twice < middle then some below
    else if middle < twice then some (below + 1)
    else if below % 2 = 0 then some below else some (below + 1)

/-- The power of ten that the first digit of a fraction stands for, or one less. -/
def leadingPower (numerator denominator : Nat) : Int :=
  Int.ofNat (digitCount numerator) - Int.ofNat (digitCount denominator) - 1

/-- The shortest digits of a positive double. -/
def shortest (m : Nat) (e : Int) : Digits :=
  let i := Interval.of m e
  let top := leadingPower i.value i.denominator + 1
  let found := (List.range 18).findSome? fun n =>
    let k := top - Int.ofNat n
    (i.onGrid? k).bind fun digits => if digits = 0 then none else some (digits, k)
  let (n, k) := found.getD (0, 0)
  let ds := digitsOf n
  ⟨(ds.reverse.dropWhile (· == 0)).reverse, Int.ofNat ds.length + k⟩

/-- How digits are written: positions up to `maxPoint` before and down to `minPoint` after the
decimal point are written out, others with an exponent. -/
structure Format where
  /-- The least position of the decimal point that is written out. -/
  minPoint : Int
  /-- The greatest position of the decimal point that is written out. -/
  maxPoint : Int
  /-- The text of a number that is no number. -/
  notANumber : String
  /-- The text of the positive infinity. -/
  infinity : String

/-- Digits as text. -/
def digitText (ds : List Nat) : String := String.ofList (ds.map fun d => Char.ofNat (48 + d))

/-- The text of an exponent: a sign and at least two digits. -/
def exponentText (n : Int) : String :=
  let size := toString n.natAbs
  (if n < 0 then "-" else "+") ++ (if size.length < 2 then "0" ++ size else size)

/-- The text of digits. -/
def Digits.text (f : Format) (d : Digits) : String :=
  if d.point < f.minPoint ∨ f.maxPoint < d.point then
    let rest := d.digits.drop 1
    digitText (d.digits.take 1) ++ (if rest = [] then "" else "." ++ digitText rest)
      ++ "e" ++ exponentText (d.point - 1)
  else if d.point ≤ 0 then
    "0." ++ digitText (List.replicate (-d.point).toNat 0 ++ d.digits)
  else
    let n := d.point.toNat
    let whole := d.digits.take n ++ List.replicate (n - d.digits.length) 0
    let rest := d.digits.drop n
    digitText whole ++ "." ++ (if rest = [] then "0" else digitText rest)

/-- The text of a double. -/
def floatText (f : Format) (x : Float) : String :=
  match Binary64.ofFloat x with
  | .notANumber => f.notANumber
  | .infinite negative => (if negative then "-" else "") ++ f.infinity
  | .finite negative m e =>
    (if negative then "-" else "") ++ (if m = 0 then "0.0" else (shortest m e).text f)

/-- Doubles in messages: an exponent from 1e16 on and below 0.0001. -/
def displayFormat : Format := ⟨-3, 16, "nan", "inf"⟩

/-- Doubles in documents: the same digits, other words for what is no finite number. -/
def documentFormat : Format := ⟨-3, 16, "NaN", "Infinity"⟩

end EventSchema.Decimal
