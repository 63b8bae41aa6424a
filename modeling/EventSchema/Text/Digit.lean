import EventSchema.Text.Blank

/-!
# Decimal digits and integer literals

The decimal digits of all scripts, and the integer literals that enumerations are keyed by: an
optional sign and digits of any script, single underscores allowed between digits, blanks allowed
around the whole. Literals of more than 4300 digits are refused.
-/

namespace EventSchema.Text

/-- The zero digit of every decimal script of Unicode 14; the digits one to nine follow each. -/
def zeroDigits : Array Nat := #[
  0x30, 0x660, 0x6F0, 0x7C0, 0x966, 0x9E6, 0xA66, 0xAE6, 0xB66, 0xBE6, 0xC66, 0xCE6, 0xD66,
  0xDE6, 0xE50, 0xED0, 0xF20, 0x1040, 0x1090, 0x17E0, 0x1810, 0x1946, 0x19D0, 0x1A80, 0x1A90,
  0x1B50, 0x1BB0, 0x1C40, 0x1C50, 0xA620, 0xA8D0, 0xA900, 0xA9D0, 0xA9F0, 0xAA50, 0xABF0, 0xFF10,
  0x104A0, 0x10D30, 0x11066, 0x110F0, 0x11136, 0x111D0, 0x112F0, 0x11450, 0x114D0, 0x11650,
  0x116C0, 0x11730, 0x118E0, 0x11950, 0x11C50, 0x11D50, 0x11DA0, 0x16A60, 0x16AC0, 0x16B50,
  0x1D7CE, 0x1D7D8, 0x1D7E2, 0x1D7EC, 0x1D7F6, 0x1E140, 0x1E2F0, 0x1E950, 0x1FBF0]

/-- The value of a decimal digit. -/
def digitValue? (c : Char) : Option Nat :=
  if c.toNat < 128 then
    if c.isDigit then some (c.toNat - 48) else none
  else (zeroDigits.find? fun z => z ≤ c.toNat && c.toNat < z + 10).map (c.toNat - ·)

/-- Whether a character is a decimal digit of some script. -/
def isDecimalDigit (c : Char) : Bool := (digitValue? c).isSome

/-- The longest literal that is read as an integer, in digits. -/
def maxIntegerDigits : Nat := 4300

/-- Continue an integer of value `n` with the digits of the rest, which may be set apart by single
underscores. -/
def continueDigits (n : Nat) : List Char → Option Nat
  | [] => some n
  | '_' :: c :: cs => (digitValue? c).bind fun d => continueDigits (10 * n + d) cs
  | c :: cs => (digitValue? c).bind fun d => continueDigits (10 * n + d) cs

/-- Read an unsigned literal. -/
def readNatural? : List Char → Option Nat
  | [] => none
  | c :: cs =>
    if (c :: cs).countP isDecimalDigit > maxIntegerDigits then none
    else (digitValue? c).bind fun d => continueDigits d cs

/-- Whether a character may stand before and after an integer literal. -/
def isLiteralBlank (c : Char) : Bool := isBlank c && !(0x1C ≤ c.toNat && c.toNat ≤ 0x1F)

/-- Read an integer literal. -/
def readInteger? (s : String) : Option Int :=
  match trimWith isLiteralBlank s.toList with
  | '-' :: cs => (readNatural? cs).map fun n => -Int.ofNat n
  | '+' :: cs => (readNatural? cs).map Int.ofNat
  | cs => (readNatural? cs).map Int.ofNat

end EventSchema.Text
