import EventSchema.Text.Quoted
import EventSchema.Text.Wrap

/-!
# Pieces of generated source text

Documentation blocks: a text between triple quotes, its paragraphs filled to a common width. What
would end the block or start an escape is escaped before the text is laid out.
-/

namespace EventSchema.Package

/-- The width of documentation lines. -/
def docWidth : Nat := 84

/-- The first line of every generated file. -/
def banner : String := "# Generated by ocsf-model-compiler. Do not edit."

/-- The quotes around a documentation block. -/
def tripleQuote : List Char := ['"', '"', '"']

/-- Write every backslash twice. -/
def escapeBackslashes (cs : List Char) : List Char :=
  cs.flatMap fun c => if c = '\\' then ['\\', '\\'] else [c]

/-- Escape every run of three quotes. -/
def escapeTripleQuotes : List Char → List Char
  | '"' :: '"' :: '"' :: cs => '\\' :: '"' :: '\\' :: '"' :: '\\' :: '"' :: escapeTripleQuotes cs
  | c :: cs => c :: escapeTripleQuotes cs
  | [] => []

/-- The parts of a text between empty lines. -/
def paragraphs : List Char → List (List Char)
  | '\n' :: '\n' :: cs => [] :: paragraphs cs
  | c :: cs =>
    match paragraphs cs with
    | p :: ps => (c :: p) :: ps
    | [] => [[c]]
  | [] => [[]]

/-- The lines of paragraphs, an empty line between one and the next. -/
def paragraphLines (indent : List Char) : List (List Char) → List (List Char)
  | [] => []
  | [p] => Text.wrap docWidth indent p
  | p :: ps => Text.wrap docWidth indent p ++ [] :: paragraphLines indent ps

/-- The lines of a documentation block. Blank paragraphs are left out. -/
def docBlock (text : String) (indent : String) : List String :=
  let escaped := escapeTripleQuotes (escapeBackslashes text.toList)
  let shown := (paragraphs escaped).filter fun p => !Text.isAllBlank p
  let quotes := indent.toList ++ tripleQuote
  (quotes :: paragraphLines indent.toList shown ++ [quotes]).map String.ofList

/-- The indent inside classes. -/
def classIndent : String := "    "

/-- Lines as a text. The last line is not ended. -/
def joinLines (lines : List String) : String := "\n".intercalate lines

end EventSchema.Package
