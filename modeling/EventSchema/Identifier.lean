import EventSchema.Text.CaseMapping
import EventSchema.Text.Digit

/-!
# Identifiers of generated code

How the names of a schema become the names of generated packages, modules, classes, fields, enum
members and constants. Schema names are words joined by underscores; class names join the same words
with capitals, and module names take them apart again, which does not bring back every name.
-/

namespace EventSchema.Identifier

/-- The words of the generated language that no identifier may be. -/
def keywords : List String :=
  ["False", "None", "True", "and", "as", "assert", "async", "await", "break", "class", "continue",
    "def", "del", "elif", "else", "except", "finally", "for", "from", "global", "if",
    "import", "in", "is", "lambda", "nonlocal", "not", "or", "pass", "raise", "return", "try",
    "while", "with", "yield"]

/-- Field names that would hide a member of the base class of models, or a name that types are
written with. -/
def reservedFields : List String :=
  ["construct", "copy", "dict", "fields", "float", "from_orm", "json", "list", "parse_file",
    "parse_obj", "parse_raw", "schema", "schema_json", "update_forward_refs", "validate"]

/-! ### Class names -/

/-- The parts of a name between its underscores. -/
def segments : List Char → List (List Char)
  | [] => [[]]
  | c :: cs =>
    if c = '_' then [] :: segments cs
    else
      match segments cs with
      | s :: ss => (c :: s) :: ss
      | [] => [[c]]

/-- A word with its first letter in upper case and the others in lower case. -/
def capitalize : List Char → List Char
  | [] => []
  | c :: cs => Text.upperChar c ++ Text.lowerList cs

/-- A name without its leading underscores. -/
def dropUnderscores (cs : List Char) : List Char := cs.dropWhile (· == '_')

/-- The class name of a schema name: its words, capitalised and joined. -/
def typeName (name : String) : String :=
  String.ofList ((segments (dropUnderscores name.toList)).flatMap capitalize)

/-! ### Module names -/

/-- Whether a character is a capital letter of ASCII. -/
def isCapital (c : Char) : Bool := 'A' ≤ c && c ≤ 'Z'

/-- Whether a character is a small letter of ASCII. -/
def isSmall (c : Char) : Bool := 'a' ≤ c && c ≤ 'z'

/-- Set an underscore between a small letter or digit and a capital letter. -/
def splitBeforeCapitals : List Char → List Char
  | c :: d :: cs =>
    if (isSmall c || c.isDigit) && isCapital d then c :: '_' :: splitBeforeCapitals (d :: cs)
    else c :: splitBeforeCapitals (d :: cs)
  | cs => cs

/-- Set an underscore between two capital letters if a small letter follows. -/
def splitAcronyms : List Char → List Char
  | c :: d :: e :: cs =>
    if isCapital c && isCapital d && isSmall e then c :: '_' :: splitAcronyms (d :: e :: cs)
    else c :: splitAcronyms (d :: e :: cs)
  | cs => cs

/-- The file name of a class name: its words in lower case, joined by underscores. -/
def fileName (typeName : String) : String :=
  String.ofList (Text.lowerList (splitAcronyms (splitBeforeCapitals typeName.toList)))

/-- The module name of a class name: its file name, set apart from keywords. -/
def moduleName (typeName : String) : String :=
  let name := fileName typeName
  if keywords.contains name then name ++ "_" else name

/-! ### Fields, constants and enum members -/

/-- The field name of an attribute. It ends in an underscore if the attribute's own name cannot be
used; the field then goes by the attribute's name as an alias. -/
def fieldName (attributeName : String) : String :=
  let name := String.ofList (dropUnderscores attributeName.toList)
  if name ≠ attributeName ∨ keywords.contains name ∨ reservedFields.contains name then name ++ "_"
  else name

/-- The constant name of a name. -/
def constantName (name : String) : String := Text.upper name

/-- Whether a character is a letter or digit of ASCII. -/
def isAlnum (c : Char) : Bool := c.isAlphanum

/-- The runs of letters and digits of ASCII in a text. -/
def alnumWords : List Char → List (List Char)
  | [] => []
  | c :: cs =>
    if isAlnum c then
      match cs, alnumWords cs with
      | d :: _, w :: ws => if isAlnum d then (c :: w) :: ws else [c] :: w :: ws
      | _, ws => [c] :: ws
    else alnumWords cs

/-- The member name of an enum caption: its words in upper case, joined by underscores, with a
letter before a leading digit. A caption without words gives `UNKNOWN`. -/
def memberName (caption : String) : String :=
  match Text.upperList (['_'].intercalate (alnumWords caption.toList)) with
  | [] => "UNKNOWN"
  | c :: cs => String.ofList (if c.isDigit then 'V' :: '_' :: c :: cs else c :: cs)

/-! ### Packages -/

/-- The package name of a version: its first two numbers. A patch number does not count, nor does
what follows the digits of the second part. -/
def versionSlug (version : String) : String :=
  match version.toList.splitOn '.' with
  | major :: minor :: _ =>
    let digits := minor.takeWhile Text.isDecimalDigit
    String.ofList ('v' :: major ++ '_' :: (if digits = [] then minor else digits))
  | parts => String.ofList ('v' :: parts.headD [] ++ ['_', '0'])

end EventSchema.Identifier
