import EventSchema.Text.Blank
import EventSchema.Text.CharacterReference

/-!
# Marked-up text

Descriptions come with HTML tags, character references and layout. Their plain form has none of
these: tags are taken out, then references are resolved, then runs of blanks become single spaces
and the ends are trimmed. The order matters: a tag written by references stays.
-/

namespace EventSchema.Text

/-- Take out everything from a `<` to the next `>`. A `<` without a `>` after it stays. -/
def dropTags (cs : List Char) : List Char :=
  match cs with
  | [] => []
  | c :: rest =>
    if c = '<' ∧ rest.contains '>' then dropTags ((rest.dropWhile (· ≠ '>')).drop 1)
    else c :: dropTags rest
  termination_by cs.length
  decreasing_by
  · have := (List.dropWhile_sublist (l := rest) fun x => decide (x ≠ '>')).length_le
    simp only [List.length_cons, List.length_drop]
    omega
  · simp

/-- The plain form of a marked-up text. -/
def plain (s : String) : String :=
  String.ofList (trimWith isBlank (collapseBlanks (resolveReferences (dropTags s.toList))))

end EventSchema.Text
