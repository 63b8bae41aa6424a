import EventSchema.Json.Basic
import EventSchema.Decimal.Reading
import EventSchema.Text.CharacterReference
import EventSchema.Text.Digit

/-!
# Reading JSON documents

A reader for JSON texts. Beyond the standard it takes `NaN`, `Infinity` and `-Infinity` as numbers;
of a repeated member name the last value counts, in the place of the first. Integers have any size
up to `Text.maxIntegerDigits` digits. A text that is no document is refused with the reason and the
place of the first fault.

Values nest no deeper than the text is long, so the length of the text is enough fuel.
-/

namespace EventSchema.Json

/-- Why a text is no JSON document. -/
inductive Fault where
  /-- No value starts here. -/
  | valueExpected
  /-- No member name starts here. -/
  | nameExpected
  /-- No colon stands here. -/
  | colonExpected
  /-- Neither a comma nor the end of the array or object stands here. -/
  | commaExpected
  /-- The text that starts here has no end. -/
  | unterminated
  /-- A control character stands inside a text. -/
  | controlCharacter
  /-- A backslash starts no escape. -/
  | badEscape
  /-- A numeric escape lacks hexadecimal digits. -/
  | badNumericEscape
  /-- Something follows the document. -/
  | extraData
  /-- The text starts with a byte order mark. -/
  | byteOrderMark
  /-- An integer has more digits than are read. -/
  | integerTooLong (digits : Nat)
  deriving DecidableEq

/-- A fault with the place where it was found, in characters from the start. -/
structure SyntaxError where
  /-- The reason. -/
  fault : Fault
  /-- How many characters come before the place. -/
  position : Nat
  /-- The line of the place, from one. -/
  line : Nat
  /-- The column of the place in its line, from one. -/
  column : Nat

/-- The wording of a fault. -/
def Fault.text : Fault → String
  | .valueExpected => "Expecting value"
  | .nameExpected => "Expecting property name enclosed in double quotes"
  | .colonExpected => "Expecting ':' delimiter"
  | .commaExpected => "Expecting ',' delimiter"
  | .unterminated => "Unterminated string starting at"
  | .controlCharacter => "Invalid control character at"
  | .badEscape => "Invalid \\escape"
  | .badNumericEscape => "Invalid \\uXXXX escape"
  | .extraData => "Extra data"
  | .byteOrderMark => "Unexpected UTF-8 BOM (decode using utf-8-sig)"
  | .integerTooLong digits =>
    s!"Exceeds the limit ({Text.maxIntegerDigits} digits) for integer string conversion: value has "
      ++ s!"{digits} digits; use sys.set_int_max_str_digits() to increase the limit"

/-- The wording of a fault with its place. An integer that is too long is not placed. -/
def SyntaxError.message (e : SyntaxError) : String :=
  match e.fault with
  | .integerTooLong _ => e.fault.text
  | _ => s!"{e.fault.text}: line {e.line} column {e.column} (char {e.position})"

/-- A step of the reader: a result and what is left, or a fault and how many characters are left at
its place. -/
abbrev Step (α : Type) := Except (Fault × Nat) (α × List Char)

/-- Fail at the start of a rest. -/
def failAt {α : Type} (fault : Fault) (rest : List Char) : Step α := .error (fault, rest.length)

/-- Whether a character may stand between the parts of a document. -/
def isSpacing (c : Char) : Bool := c == ' ' || c == '\t' || c == '\n' || c == '\r'

/-- Skip spacing. -/
def skipSpacing (cs : List Char) : List Char := cs.dropWhile isSpacing

/-- The number of four hexadecimal digits. -/
def fourHex? (a b c d : Char) : Option Nat :=
  if [a, b, c, d].all Text.isHexDigit then some (Text.hexValue [a, b, c, d]) else none

/-- The character of a one-letter escape. -/
def escaped? : Char → Option Char
  | '"' => some '"'
  | '\\' => some '\\'
  | '/' => some '/'
  | 'b' => some '\x08'
  | 'f' => some '\x0c'
  | 'n' => some '\n'
  | 'r' => some '\r'
  | 't' => some '\t'
  | _ => none

/-- The character of a code unit; half of a pair that stands alone gives the replacement
character. -/
def unitChar (n : Nat) : Char := if 0xD800 ≤ n ∧ n ≤ 0xDFFF then '\uFFFD' else Char.ofNat n

/-- The character of a pair of code units, if they are one. -/
def pairChar? (high low : Nat) : Option Char :=
  if 0xD800 ≤ high ∧ high < 0xDC00 ∧ 0xDC00 ≤ low ∧ low < 0xE000 then
    some (Char.ofNat (0x10000 + (high - 0xD800) * 0x400 + (low - 0xDC00)))
  else none

/-- Read the rest of a text up to its closing quote. `opening` is the number of characters left at
the opening quote; the characters read so far come in reverse. A numeric escape needs a character
after it. -/
def readText (opening : Nat) (read : List Char) : List Char → Step String
  | [] => .error (.unterminated, opening)
  | '"' :: rest => .ok (String.ofList read.reverse, rest)
  | '\\' :: 'u' :: a :: b :: c :: d :: '\\' :: 'u' :: e :: f :: g :: h :: next :: rest =>
    match fourHex? a b c d with
    | none => .error (.badNumericEscape, rest.length + 12)
    | some high =>
      if 0xD800 ≤ high ∧ high < 0xDC00 then
        match fourHex? e f g h with
        | none => .error (.badNumericEscape, rest.length + 6)
        | some low =>
          match pairChar? high low with
          | some pair => readText opening (pair :: read) (next :: rest)
          | none =>
            readText opening (unitChar high :: read)
              ('\\' :: 'u' :: e :: f :: g :: h :: next :: rest)
      else
        readText opening (unitChar high :: read) ('\\' :: 'u' :: e :: f :: g :: h :: next :: rest)
  | '\\' :: 'u' :: a :: b :: c :: d :: next :: rest =>
    match fourHex? a b c d with
    | none => .error (.badNumericEscape, rest.length + 6)
    | some unit => readText opening (unitChar unit :: read) (next :: rest)
  | '\\' :: 'u' :: rest => .error (.badNumericEscape, rest.length + 1)
  | '\\' :: c :: rest =>
    match escaped? c with
    | some d => readText opening (d :: read) rest
    | none => .error (.badEscape, rest.length + 2)
  | ['\\'] => .error (.unterminated, opening)
  | c :: rest =>
    if c.toNat < 0x20 then .error (.controlCharacter, rest.length + 1)
    else readText opening (c :: read) rest

/-- A run of digits and what follows it. -/
def spanDigits (cs : List Char) : List Char × List Char :=
  (cs.takeWhile Char.isDigit, cs.dropWhile Char.isDigit)

/-- The value of a run of digits. -/
def digitsValue (ds : List Char) : Nat := ds.foldl (fun n c => 10 * n + (c.toNat - 48)) 0

/-- The whole part of a number: a zero, or digits that do not start with one. -/
def readWhole? : List Char → Option (List Char × List Char)
  | '0' :: rest => some (['0'], rest)
  | c :: rest => if c.isDigit then some (spanDigits (c :: rest)) else none
  | [] => none

/-- The digits of a fraction, none if there is no fraction. -/
def readFraction : List Char → List Char × List Char
  | '.' :: rest =>
    match spanDigits rest with
    | ([], _) => ([], '.' :: rest)
    | found => found
  | rest => ([], rest)

/-- The exponent of a number, if there is one. -/
def readExponent (cs : List Char) : Option Int × List Char :=
  match cs with
  | e :: rest =>
    if e = 'e' ∨ e = 'E' then
      let (negative, digits) :=
        match rest with
        | '+' :: r => (false, r)
        | '-' :: r => (true, r)
        | r => (false, r)
      match spanDigits digits with
      | ([], _) => (none, cs)
      | (ds, after) =>
        let n := Int.ofNat (digitsValue ds)
        (some (if negative then -n else n), after)
    else (none, cs)
  | [] => (none, cs)

/-- Read the digits of a number. `start` is the number of characters left where the number starts,
sign included. -/
def readDigits (start : Nat) (negative : Bool) (cs : List Char) : Step Json :=
  match readWhole? cs with
  | none => .error (.valueExpected, start)
  | some (whole, afterWhole) =>
    let (fraction, afterFraction) := readFraction afterWhole
    let (exponent, rest) := readExponent afterFraction
    if fraction = [] ∧ exponent = none then
      if Text.maxIntegerDigits < whole.length then .error (.integerTooLong whole.length, start)
      else
        let n := Int.ofNat (digitsValue whole)
        .ok (.int (if negative then -n else n), rest)
    else
      .ok (.float (Decimal.readFloat negative (digitsValue (whole ++ fraction))
        (exponent.getD 0 - Int.ofNat fraction.length)), rest)

/-- Words that are values. -/
def words : List (List Char × Json) :=
  [("null".toList, .null), ("true".toList, .bool true), ("false".toList, .bool false),
    ("NaN".toList, .float (0.0 / 0.0)), ("Infinity".toList, .float (1.0 / 0.0)),
    ("-Infinity".toList, .float (-1.0 / 0.0))]

/-- Read a word or a number. -/
def readScalar (cs : List Char) : Step Json :=
  match words.find? fun w => w.1.isPrefixOf cs with
  | some (word, v) => .ok (v, cs.drop word.length)
  | none =>
    match cs with
    | '-' :: rest => readDigits cs.length true rest
    | _ => readDigits cs.length false cs

/-- Read items up to the closing bracket, given the reader of one item. -/
def readItems (item : List Char → Step Json) :
    (fuel : Nat) → (read : List Json) → List Char → Step Json
  | 0, _, cs => failAt .valueExpected cs
  | fuel + 1, read, cs =>
    match item cs with
    | .error e => .error e
    | .ok (v, after) =>
      match skipSpacing after with
      | ']' :: rest => .ok (.arr (v :: read).reverse, rest)
      | ',' :: rest => readItems item fuel (v :: read) (skipSpacing rest)
      | rest => failAt .commaExpected rest

/-- Read members up to the closing brace, given the reader of one value. -/
def readMembers (value : List Char → Step Json) :
    (fuel : Nat) → (read : Entries Json) → List Char → Step Json
  | 0, _, cs => failAt .nameExpected cs
  | fuel + 1, read, '"' :: cs =>
    match readText (cs.length + 1) [] cs with
    | .error e => .error e
    | .ok (name, afterName) =>
      match skipSpacing afterName with
      | ':' :: afterColon =>
        match value (skipSpacing afterColon) with
        | .error e => .error e
        | .ok (v, after) =>
          match skipSpacing after with
          | '\x7d' :: rest => .ok (.obj (read.put name v), rest)
          | ',' :: rest => readMembers value fuel (read.put name v) (skipSpacing rest)
          | rest => failAt .commaExpected rest
      | rest => failAt .colonExpected rest
  | _ + 1, _, cs => failAt .nameExpected cs

/-- Read a value that starts here. -/
def readValue : (fuel : Nat) → List Char → Step Json
  | 0, cs => failAt .valueExpected cs
  | fuel + 1, cs =>
    match cs with
    | '"' :: rest =>
      match readText cs.length [] rest with
      | .error e => .error e
      | .ok (s, after) => .ok (.str s, after)
    | '[' :: rest =>
      match skipSpacing rest with
      | ']' :: after => .ok (.arr [], after)
      | items => readItems (readValue fuel) items.length.succ [] items
    | '\x7b' :: rest =>
      match skipSpacing rest with
      | '\x7d' :: after => .ok (.obj [], after)
      | members => readMembers (readValue fuel) members.length.succ [] members
    | _ => readScalar cs

/-- Place a fault in a text. -/
def SyntaxError.at (cs : List Char) (fault : Fault) (left : Nat) : SyntaxError :=
  let before := cs.take (cs.length - left)
  { fault := fault
    position := before.length
    line := before.count '\n' + 1
    column := (before.reverse.takeWhile (· ≠ '\n')).length + 1 }

/-- Read the characters of a document. -/
def readChars (cs : List Char) : Except SyntaxError Json :=
  let result : Step Json :=
    match cs with
    | '\uFEFF' :: _ => failAt .byteOrderMark cs
    | _ =>
      match readValue (cs.length + 1) (skipSpacing cs) with
      | .error e => .error e
      | .ok (v, after) =>
        match skipSpacing after with
        | [] => .ok (v, [])
        | rest => failAt .extraData rest
  match result with
  | .ok (v, _) => .ok v
  | .error (fault, left) => .error (SyntaxError.at cs fault left)

/-- Read a document. -/
def read (s : String) : Except SyntaxError Json := readChars s.toList

end EventSchema.Json
