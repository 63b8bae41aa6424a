import EventSchema.Text.CaseTables

/-!
# Case mappings

Upper case, lower case and case folding of texts, by the full mappings of Unicode: one character
can become several, and a capital sigma becomes the final form at the end of a word. On ASCII
letters the mappings are those of `Char.toUpper` and `Char.toLower`, and all other ASCII characters
stay as they are.
-/

namespace EventSchema.Text

/-- The image of a code point under a table of runs and expansions; a code point in neither stays
as it is. -/
def mapCase (runs : Array CaseRun) (expansions : List (Nat × List Nat)) (c : Char) : List Char :=
  match expansions.lookup c.toNat with
  | some codes => codes.map Char.ofNat
  | none =>
    match runs.find? fun r =>
        r.first ≤ c.toNat && c.toNat ≤ r.last && (c.toNat - r.first) % r.step == 0 with
    | some r => [Char.ofNat (Int.ofNat c.toNat + r.shift).toNat]
    | none => [c]

/-- The upper case form of a character. -/
def upperChar (c : Char) : List Char :=
  if c.toNat < 128 then [c.toUpper] else mapCase upperRuns upperExpansions c

/-- The lower case form of a character that does not depend on its neighbours. -/
def lowerChar (c : Char) : List Char :=
  if c.toNat < 128 then [c.toLower] else mapCase lowerRuns lowerExpansions c

/-- The form of a character in comparisons that ignore case. -/
def foldChar (c : Char) : List Char :=
  if c.toNat < 128 then [c.toLower] else mapCase foldRuns foldExpansions c

/-- Whether a character is a letter with case. -/
def isCased (c : Char) : Bool := inRanges casedRanges c.toNat

/-- Whether a character is passed over when the neighbours of a sigma are judged. -/
def isCaseIgnorable (c : Char) : Bool := inRanges caseIgnorableRanges c.toNat

/-- Whether the first character that is not passed over is a letter with case. -/
def startsCased (cs : List Char) : Bool :=
  match cs.dropWhile isCaseIgnorable with
  | [] => false
  | c :: _ => isCased c

/-- Lower case of a text with capital sigmas in it. The flag tells whether a letter with case comes
before; a capital sigma takes the final form if that is so and no such letter follows. -/
def lowerSigma : Bool → List Char → List Char
  | _, [] => []
  | afterLetter, c :: cs =>
    if c = 'Σ' then
      (if afterLetter && !startsCased cs then 'ς' else 'σ') :: lowerSigma true cs
    else
      lowerChar c ++ lowerSigma (if isCaseIgnorable c then afterLetter else isCased c) cs

/-- Upper case of a list of characters. -/
def upperList (cs : List Char) : List Char := cs.flatMap upperChar

/-- Lower case of a list of characters. -/
def lowerList (cs : List Char) : List Char :=
  if cs.contains 'Σ' then lowerSigma false cs else cs.flatMap lowerChar

/-- Upper case of a text. -/
def upper (s : String) : String := String.ofList (upperList s.toList)

/-- Lower case of a text. -/
def lower (s : String) : String := String.ofList (lowerList s.toList)

/-- The form of a text in comparisons that ignore case. -/
def foldCase (s : String) : String := String.ofList (s.toList.flatMap foldChar)

end EventSchema.Text
