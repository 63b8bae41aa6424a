import EventSchema.Text.CharacterNames
import EventSchema.Text.Ranges

/-!
# Character references

The references of HTML 5: decimal and hexadecimal numbers, and names. A name need not end in a
semicolon; the longest listed name at its start counts. Numbers that stand for no character give
the replacement character or nothing, and the numbers 128 to 159 are read in the Windows code page,
as the standard demands.
-/

namespace EventSchema.Text

/-- The characters that the numbers 128 to 159 stand for. -/
def westernControls : Array Nat := #[
  0x20AC, 0x81, 0x201A, 0x192, 0x201E, 0x2026, 0x2020, 0x2021, 0x2C6, 0x2030, 0x160, 0x2039, 0x152,
  0x8D, 0x17D, 0x8F, 0x90, 0x2018, 0x2019, 0x201C, 0x201D, 0x2022, 0x2013, 0x2014, 0x2DC, 0x2122,
  0x161, 0x203A, 0x153, 0x9D, 0x17E, 0x178]

/-- Whether a code point is one that a reference cannot stand for: a control character or one of
the code points that are set aside as no characters. -/
def isUnreferable (n : Nat) : Bool :=
  inRanges #[(0x1, 0x8), (0xB, 0xB), (0xE, 0x1F), (0x7F, 0x9F), (0xFDD0, 0xFDEF)] n
    || 0xFFFE ≤ n % 0x10000

/-- What a numeric reference stands for. -/
def numericReference (n : Nat) : List Char :=
  if n = 0 then ['\uFFFD']
  else if 0x80 ≤ n ∧ n ≤ 0x9F then [Char.ofNat (westernControls.getD (n - 0x80) 0)]
  else if n = 0x0D then ['\r']
  else if (0xD800 ≤ n ∧ n ≤ 0xDFFF) ∨ 0x10FFFF < n then ['\uFFFD']
  else if isUnreferable n then []
  else [Char.ofNat n]

/-- What a name stands for: its listed characters, or those of its longest listed beginning followed
by what is left of it, or the text as it was written. -/
def namedReference (name : List Char) : List Char :=
  let beginnings := (List.range name.length).reverse.filter (2 ≤ ·)
  match characterNames[String.ofList name]? with
  | some cs => cs
  | none =>
    match beginnings.findSome? fun k =>
        (characterNames[String.ofList (name.take k)]?).map (· ++ name.drop k) with
    | some cs => cs
    | none => '&' :: name

/-- Whether a character may belong to the name of a reference. -/
def isNameChar (c : Char) : Bool :=
  !(c == '\t' || c == '\n' || c == '\x0c' || c == ' ' || c == '<' ||
    c == '&' || c == '#' || c == ';')

/-- Whether a character is a hexadecimal digit. -/
def isHexDigit (c : Char) : Bool :=
  c.isDigit || ('a' ≤ c && c ≤ 'f') || ('A' ≤ c && c ≤ 'F')

/-- One if a semicolon comes first, else zero. -/
def semicolonLength : List Char → Nat
  | ';' :: _ => 1
  | _ => 0

/-- The longest name that is considered, in characters. -/
def maxNameLength : Nat := 32

/-- The reference that follows an ampersand, if there is one: what it stands for, and how many
characters after the ampersand it takes. -/
def readReference? (cs : List Char) : Option (List Char × Nat) :=
  match cs with
  | '#' :: ds =>
    let digits := ds.takeWhile Char.isDigit
    if digits ≠ [] then
      some (numericReference (digits.foldl (fun n c => 10 * n + (c.toNat - 48)) 0),
        1 + digits.length + semicolonLength (ds.drop digits.length))
    else
      match ds with
      | x :: hs =>
        let hex := hs.takeWhile isHexDigit
        if (x = 'x' ∨ x = 'X') ∧ hex ≠ [] then
          some (numericReference (hexValue hex),
            2 + hex.length + semicolonLength (hs.drop hex.length))
        else none
      | [] => none
  | _ =>
    let name := (cs.take maxNameLength).takeWhile isNameChar
    if name = [] then none
    else
      let length := name.length + semicolonLength (cs.drop name.length)
      some (namedReference (cs.take length), length)

/-- Replace every character reference by what it stands for. -/
def resolveReferences (cs : List Char) : List Char :=
  match cs with
  | [] => []
  | c :: rest =>
    if c = '&' then
      match readReference? rest with
      | some (text, length) => text ++ resolveReferences (rest.drop length)
      | none => '&' :: resolveReferences rest
    else c :: resolveReferences rest
  termination_by cs.length
  decreasing_by
  · simp only [List.length_cons, List.length_drop]
    omega
  · simp
  · simp

end EventSchema.Text
