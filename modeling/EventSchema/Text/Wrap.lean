import EventSchema.Text.Blank

/-!
# Line filling

A paragraph is laid out on lines of a given width. Its text is cut into chunks, runs of blanks and
runs of other characters; a line takes chunks while they fit. A chunk that fits on no line is cut at
the end of the line. A line neither ends in a blank chunk nor, after the first line, starts with
one.

Every step of the layout uses up characters or chunks, so `chunkCost` bounds the number of lines.
-/

namespace EventSchema.Text

/-- Replace tabs by spaces up to the next column that is a multiple of eight. -/
def expandTabs : (column : Nat) → List Char → List Char
  | _, [] => []
  | column, c :: cs =>
    if c = '\t' then
      List.replicate (8 - column % 8) ' ' ++ expandTabs (column + (8 - column % 8)) cs
    else c :: expandTabs (if c = '\n' ∨ c = '\r' then 0 else column + 1) cs

/-- A text with every layout character replaced by spaces. -/
def levelBlanks (cs : List Char) : List Char :=
  (expandTabs 0 cs).map fun c => if isAsciiBlank c then ' ' else c

/-- Cut a text into maximal runs of spaces and of other characters. -/
def chunks : List Char → List (List Char)
  | [] => []
  | c :: cs =>
    match chunks cs with
    | (d :: ds) :: rest =>
      if (c == ' ') == (d == ' ') then (c :: d :: ds) :: rest else [c] :: (d :: ds) :: rest
    | rest => [c] :: rest

/-- The chunks that fit into the given room one after another, and the rest. -/
def takeFitting (room : Nat) : List (List Char) → List (List Char) × List (List Char)
  | [] => ([], [])
  | c :: cs =>
    if c.length ≤ room then
      let (line, rest) := takeFitting (room - c.length) cs
      (c :: line, rest)
    else ([], c :: cs)

/-- The chunks of one line and the rest. If the next chunk fits on no line at all, the room that is
left is filled with its beginning. -/
def takeLine (room : Nat) (cs : List (List Char)) : List (List Char) × List (List Char) :=
  match takeFitting room cs with
  | (line, []) => (line, [])
  | (line, c :: rest) =>
    if room < c.length then
      let space := if room = 0 then 1 else room - line.flatten.length
      (line ++ [c.take space], c.drop space :: rest)
    else (line, c :: rest)

/-- Leave out the last chunk if it is blank. -/
def dropLastBlank (line : List (List Char)) : List (List Char) :=
  match line.getLast? with
  | some c => if isAllBlank c then line.dropLast else line
  | none => line

/-- Leave out the first chunk if it is blank. -/
def dropFirstBlank : List (List Char) → List (List Char)
  | [] => []
  | c :: cs => if isAllBlank c then cs else c :: cs

/-- A bound for the number of lines that chunks can fill: their characters and themselves,
counted. -/
def chunkCost (cs : List (List Char)) : Nat := cs.flatten.length + cs.length

/-- Lay out chunks on lines. The flag tells whether a line stands already. -/
def layOut (room : Nat) : (fuel : Nat) → (started : Bool) → List (List Char) → List (List Char)
  | 0, _, _ => []
  | _, _, [] => []
  | fuel + 1, started, c :: cs =>
    let (line, rest) := takeLine room (if started then dropFirstBlank (c :: cs) else c :: cs)
    match dropLastBlank line with
    | [] => layOut room fuel started rest
    | line => line.flatten :: layOut room fuel true rest

/-- The lines of a paragraph, each behind an indent that counts for the width. -/
def wrap (width : Nat) (indent : List Char) (paragraph : List Char) : List (List Char) :=
  let cs := chunks (levelBlanks paragraph)
  (layOut (width - indent.length) (chunkCost cs) false cs).map (indent ++ ·)

end EventSchema.Text
