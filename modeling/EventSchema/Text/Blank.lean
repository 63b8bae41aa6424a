import EventSchema.Text.Ranges

/-!
# Blank characters

Which characters separate words, and what it means to trim a text and to collapse its blanks.
-/

namespace EventSchema.Text

/-- The blank characters of Unicode, together with the four information separators of ASCII. -/
def blankRanges : Array (Nat × Nat) := #[
  (0x09, 0x0D), (0x1C, 0x20), (0x85, 0x85), (0xA0, 0xA0), (0x1680, 0x1680), (0x2000, 0x200A),
  (0x2028, 0x2029), (0x202F, 0x202F), (0x205F, 0x205F), (0x3000, 0x3000)]

/-- Whether a character is blank. -/
def isBlank (c : Char) : Bool := inRanges blankRanges c.toNat

/-- Whether a character is one of the six blank characters that ASCII texts are laid out with. -/
def isAsciiBlank (c : Char) : Bool := c == ' ' || (0x09 ≤ c.toNat && c.toNat ≤ 0x0D)

/-- Drop the characters of a class at both ends. -/
def trimWith (p : Char → Bool) (cs : List Char) : List Char :=
  ((cs.dropWhile p).reverse.dropWhile p).reverse

/-- A text without the blanks at its ends. -/
def trim (s : String) : String := String.ofList (trimWith isBlank s.toList)

/-- Whether a text has nothing but blanks. -/
def isAllBlank (cs : List Char) : Bool := cs.all isBlank

/-- Write every run of blanks as one space. -/
def collapseBlanks : List Char → List Char
  | [] => []
  | c :: cs =>
    if isBlank c then
      match cs with
      | [] => [' ']
      | d :: ds => if isBlank d then collapseBlanks (d :: ds) else ' ' :: collapseBlanks (d :: ds)
    else c :: collapseBlanks cs

end EventSchema.Text
