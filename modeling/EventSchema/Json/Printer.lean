import EventSchema.Json.Basic
import EventSchema.Decimal.Shortest
import EventSchema.Text.Quoted

/-!
# Texts of JSON values

A value has two texts. The *document* text is JSON. The *display* text is the one that messages and
generated comments show: a text stands for itself, a text inside an array or object is quoted, and
null and the truth values are capitalised words.
-/

namespace EventSchema.Json

/-- How documents are laid out. -/
structure Layout where
  /-- What stands between items and between members. -/
  itemSeparator : String
  /-- What stands between the name and the value of a member. -/
  nameSeparator : String
  /-- Whether members are put in ascending order of their names. -/
  sorted : Bool

/-- Values inside generated code: a space after each separator, members in their order. -/
def codeLayout : Layout := ⟨", ", ": ", false⟩

/-- Values on one line of output: no spaces, members in order of their names. -/
def compactLayout : Layout := ⟨",", ":", true⟩

/-- Put named texts in order if the layout asks for it. -/
def Layout.arrange (l : Layout) (ms : List (String × String)) : List (String × String) :=
  if l.sorted then ms.mergeSort fun a b => decide (a.1 ≤ b.1) else ms

mutual

/-- The document text of a value. -/
def document (l : Layout) : Json → String
  | .null => "null"
  | .bool true => "true"
  | .bool false => "false"
  | .int n => toString n
  | .float x => Decimal.floatText Decimal.documentFormat x
  | .str s => Text.literal s
  | .arr items => "[" ++ l.itemSeparator.intercalate (documentItems l items) ++ "]"
  | .obj members =>
    "\x7b" ++ l.itemSeparator.intercalate
      ((l.arrange (documentMembers l members)).map fun m =>
        Text.literal m.1 ++ l.nameSeparator ++ m.2) ++ "\x7d"

/-- The document texts of items. -/
def documentItems (l : Layout) : List Json → List String
  | [] => []
  | v :: vs => document l v :: documentItems l vs

/-- The names of members with the document texts of their values. -/
def documentMembers (l : Layout) : List (String × Json) → List (String × String)
  | [] => []
  | (n, v) :: ms => (n, document l v) :: documentMembers l ms

end

mutual

/-- The display text of a value inside another. -/
def shown : Json → String
  | .null => "None"
  | .bool true => "True"
  | .bool false => "False"
  | .int n => toString n
  | .float x => Decimal.floatText Decimal.displayFormat x
  | .str s => Text.shown s
  | .arr items => "[" ++ ", ".intercalate (shownItems items) ++ "]"
  | .obj members => "\x7b" ++ ", ".intercalate (shownMembers members) ++ "\x7d"

/-- The display texts of items. -/
def shownItems : List Json → List String
  | [] => []
  | v :: vs => shown v :: shownItems vs

/-- The display texts of members. -/
def shownMembers : List (String × Json) → List String
  | [] => []
  | (n, v) :: ms => (Text.shown n ++ ": " ++ shown v) :: shownMembers ms

end

/-- The display text of a value. -/
def display : Json → String
  | .str s => s
  | v => shown v

end EventSchema.Json
