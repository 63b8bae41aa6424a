/-!
# The journal

What a run reports while it goes on: lines of four levels, oldest first. A computation that may fail
keeps what it reported before the failure.
-/

namespace EventSchema

/-- How important a line of the journal is. -/
inductive Level where
  /-- Details of the work. -/
  | debug
  /-- The course of the work. -/
  | info
  /-- Something odd that does not stop the work. -/
  | warning
  /-- A failure. -/
  | error
  /-- Above all levels that are used, so a threshold at it hides every line. -/
  | critical
  deriving DecidableEq, Inhabited

namespace Level

/-- The rank of a level. -/
def rank : Level → Nat
  | .debug => 0
  | .info => 1
  | .warning => 2
  | .error => 3
  | .critical => 4

/-- The name of a level. -/
def name : Level → String
  | .debug => "DEBUG"
  | .info => "INFO"
  | .warning => "WARNING"
  | .error => "ERROR"
  | .critical => "CRITICAL"

/-- All levels, least first. -/
def all : List Level := [.debug, .info, .warning, .error, .critical]

end Level

/-- A line of the journal. -/
structure Line where
  /-- How important it is. -/
  level : Level
  /-- What it says. -/
  text : String
  deriving DecidableEq

/-- A line as it is printed. -/
def Line.render (l : Line) : String := l.level.name ++ ": " ++ l.text

/-- Lines, oldest first. -/
abbrev Journal := List Line

/-- The printed lines from a level on. -/
def Journal.render (j : Journal) (threshold : Level) : List String :=
  (j.filter fun l => threshold.rank ≤ l.level.rank).map Line.render

/-- The number of warnings. -/
def Journal.warnings (j : Journal) : Nat := j.countP fun l => l.level == .warning

/-- A computation that reports lines and may fail. -/
abbrev Reporting (ε α : Type) := ExceptT ε (StateM Journal) α

namespace Reporting

/-- Report a line. -/
def report {ε : Type} (level : Level) (text : String) : Reporting ε Unit :=
  modifyGet fun journal => ((), journal ++ [⟨level, text⟩])

/-- A computation that reports nothing. -/
def ofExcept {ε α : Type} (r : Except ε α) : Reporting ε α := ExceptT.mk (pure r)

/-- The outcome and what was reported. -/
def outcome {ε α : Type} (x : Reporting ε α) : Except ε α × Journal := x.run.run []

/-- Change the kind of failure. -/
def mapError {ε δ α : Type} (f : ε → δ) (x : Reporting ε α) : Reporting δ α :=
  ExceptT.mk (Except.mapError f <$> x.run)

end Reporting

end EventSchema
