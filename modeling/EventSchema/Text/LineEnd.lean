/-!
# Line ends

Files may end their lines in a carriage return, a line feed or both.
-/

namespace EventSchema.Text

/-- A text whose lines all end in line feeds. -/
def unifyLineEnds : List Char → List Char
  | [] => []
  | '\r' :: '\n' :: cs => '\n' :: unifyLineEnds cs
  | '\r' :: cs => '\n' :: unifyLineEnds cs
  | c :: cs => c :: unifyLineEnds cs

end EventSchema.Text
