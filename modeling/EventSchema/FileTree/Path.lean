/-!
# Paths

Paths as a root and a list of parts. Empty parts and single dots are dropped when a path is read;
double dots stay, since what they lead to depends on the tree.
-/

namespace EventSchema

/-- A path of the file system. -/
structure Path where
  /-- What an absolute path starts with, empty for a relative path. -/
  root : String
  /-- The parts, outermost first. -/
  parts : List String
  deriving DecidableEq, Inhabited

namespace Path

/-- What an absolute path starts with: exactly two slashes are kept, any other number counts as
one. -/
def rootOf (s : String) : String :=
  match (s.toList.takeWhile (· == '/')).length with
  | 0 => ""
  | 2 => "//"
  | _ => "/"

/-- Read a path. -/
def ofString (s : String) : Path :=
  ⟨rootOf s, ((s.toList.splitOn '/').map String.ofList).filter fun part => part ≠ "" ∧ part ≠ "."⟩

/-- The text of a path; the path without parts is a dot. -/
def text (p : Path) : String :=
  if p.root = "" ∧ p.parts = [] then "." else p.root ++ "/".intercalate p.parts

/-- A path seen from another one. An absolute path stays as it is. -/
def join (p q : Path) : Path := if q.root = "" then ⟨p.root, p.parts ++ q.parts⟩ else q

/-- A path seen from another one, given as text. -/
def joinText (p : Path) (s : String) : Path := p.join (ofString s)

/-- One more part. -/
def child (p : Path) (name : String) : Path := ⟨p.root, p.parts ++ [name]⟩

/-- The text of a path with a text set behind it as it stands. -/
def beneath (p : Path) (s : String) : String :=
  if p.text.endsWith "/" then p.text ++ s else p.text ++ "/" ++ s

/-- The path without its last part. -/
def parent (p : Path) : Path := ⟨p.root, p.parts.dropLast⟩

/-- The last part. -/
def name (p : Path) : String := p.parts.getLastD ""

/-- Whether parts come before others, or are the same: the first parts that differ decide. -/
def partsLe : List String → List String → Bool
  | [], _ => true
  | _ :: _, [] => false
  | m :: ms, n :: ns => decide (m < n) || (m == n && partsLe ms ns)

/-- Whether a path comes before another when they are compared part by part. -/
def le (p q : Path) : Bool := partsLe (p.root :: p.parts) (q.root :: q.parts)

/-- Whether a zero character stands in the path, which no file system takes. -/
def hasZero (p : Path) : Bool := p.parts.any fun part => part.toList.contains '\x00'

end Path

end EventSchema
