import EventSchema.CommandLine.Options
import EventSchema.Release.Generation

/-!
# Requests

What a command line asks for: schema trees to be downloaded, or packages to be generated. Both take
some options in common; generation takes more.
-/

namespace EventSchema.CommandLine

/-- The name of the program. -/
def programName : String := "ocsf-model-compiler"

/-- The version of the program. -/
def programVersion : String := "0.1.0"

/-! ### Options -/

/-- What an option sets. -/
inductive Setting where
  /-- Nothing: usage is shown instead of anything else. -/
  | help
  /-- Nothing: the version of the program is shown instead of anything else. -/
  | programVersion
  /-- The directory of the schema trees. -/
  | schemas
  /-- One more version. -/
  | version
  /-- The level from which on lines of the journal are shown. -/
  | level
  /-- The directory of the packages. -/
  | output
  /-- The version that gets the alias. -/
  | latest
  /-- That nothing is downloaded. -/
  | noDownload
  /-- How many versions may be compiled side by side. -/
  | jobs
  deriving DecidableEq

/-- The option that shows usage. -/
def helpOption : OptionSpec Setting := ⟨["-h", "--help"], .help, false⟩

/-- The options in front of the command. -/
def programOptions : List (OptionSpec Setting) :=
  [helpOption, ⟨["-v", "--version"], .programVersion, false⟩]

/-- The options of both commands. -/
def commonOptions : List (OptionSpec Setting) :=
  [helpOption, ⟨["--schemas-dir"], .schemas, true⟩, ⟨["-V", "--version"], .version, true⟩,
    ⟨["--log-level"], .level, true⟩]

/-- The commands. -/
inductive Operation where
  /-- Download schema trees. -/
  | download
  /-- Generate packages. -/
  | generate
  deriving DecidableEq

namespace Operation

/-- The name of a command. -/
def name : Operation → String
  | .download => "download"
  | .generate => "generate"

/-- All commands. -/
def all : List Operation := [.download, .generate]

/-- The options of a command. -/
def options : Operation → List (OptionSpec Setting)
  | .download => commonOptions
  | .generate => commonOptions ++
    [⟨["-o", "--output-dir"], .output, true⟩, ⟨["--latest"], .latest, true⟩,
      ⟨["--no-download"], .noDownload, false⟩, ⟨["-j", "--jobs"], .jobs, true⟩]

end Operation

/-! ### Settings -/

/-- What options have set. -/
structure Settings where
  /-- The versions that were asked for. -/
  versions : List String
  /-- The directory of the schema trees. -/
  schemas : Path
  /-- The directory of the packages. -/
  output : Path
  /-- The version that gets the alias. -/
  latest : String
  /-- How many versions may be compiled side by side. -/
  jobs : Int
  /-- Whether missing schema trees are downloaded. -/
  download : Bool
  /-- The level from which on lines of the journal are shown. -/
  level : Level

/-- What holds unless options say otherwise. -/
def Settings.standard : Settings :=
  ⟨[], defaultSchemas, defaultOutput, latestVersion, 1, true, .info⟩

/-- Why no request comes of a command line. -/
inductive Ending where
  /-- Usage is shown. -/
  | help
  /-- The version of the program is shown. -/
  | version
  /-- The command line is refused, in the name of the program or of one of its commands. -/
  | refused (program : String) (e : UsageError)

/-- Let an option take effect. -/
def Settings.apply (program : String) (s : Settings) (use : OptionSpec Setting × Option String) :
    Except Ending Settings :=
  let value := use.2.getD ""
  match use.1.setting with
  | .help => .error .help
  | .programVersion => .error .version
  | .schemas => .ok { s with schemas := .ofString value }
  | .version => .ok { s with versions := s.versions ++ [value] }
  | .level =>
    match Level.all.find? fun level => level.name = value with
    | some level => .ok { s with level := level }
    | none =>
      .error (.refused program (.notAmong use.1.title value (Level.all.map Level.name)))
  | .output => .ok { s with output := .ofString value }
  | .latest => .ok { s with latest := value }
  | .noDownload => .ok { s with download := false }
  | .jobs =>
    match Text.readInteger? value with
    | some jobs => .ok { s with jobs := jobs }
    | none => .error (.refused program (.notInteger use.1.title value))

/-! ### Reading -/

/-- The plain argument at the front of tokens. -/
def nextPlain? : List (String × Token Setting) → Option String
  | (s, .plain) :: _ => some s
  | _ => none

/-- Read the arguments of a command: its settings, and what is not recognized. -/
def readSettings (program : String) (options : List (OptionSpec Setting)) (s : Settings)
    (extras : List String) : List (String × Token Setting) → Except Ending (Settings × List String)
  | [] => .ok (s, extras)
  | (_, .option spec attached) :: rest => do
    let u ← (Uses.ofOption options (nextPlain? rest) spec attached).mapError (.refused program)
    let s ← u.uses.foldlM (Settings.apply program) s
    readSettings program options s (extras ++ u.extras) (if u.takesNext then rest.tail else rest)
  | (text, _) :: rest => readSettings program options s (extras ++ [text]) rest
termination_by tokens => tokens.length
decreasing_by
  · rw [List.length_cons]
    split
    · exact Nat.lt_succ_of_le (List.tail_sublist rest).length_le
    · exact Nat.lt_succ_self rest.length
  · exact Nat.lt_succ_self rest.length

/-- Read the arguments of a command. -/
def readCommand (operation : Operation) (args : List String) :
    Except Ending (Settings × List String) := do
  let program := programName ++ " " ++ operation.name
  let tokens ← (Token.ofArguments operation.options args).mapError (.refused program)
  readSettings program operation.options .standard [] tokens

/-- What a command line asks for. -/
structure Request where
  /-- The command. -/
  operation : Operation
  /-- Its settings. -/
  settings : Settings

/-- Read the tokens of a whole command line: options of the program, then a command with all the
rest. What was not recognized is put in front of what the command does not recognize. -/
def readTokens (extras : List String) :
    List (String × Token Setting) → Except Ending (Request × List String)
  | [] => .error (.refused programName (.missing "command"))
  | [(_, .separator)] => .error (.refused programName (.missing "command"))
  | (_, .option spec attached) :: rest => do
    let u ← (Uses.ofOption programOptions (nextPlain? rest) spec attached).mapError
      (.refused programName)
    let _ ← u.uses.foldlM (Settings.apply programName) .standard
    readTokens (extras ++ u.extras) rest
  | (text, .unknown) :: rest => readTokens (extras ++ [text]) rest
  | (text, _) :: rest =>
    match Operation.all.find? fun operation => operation.name = text with
    | some operation => do
      let (settings, others) ← readCommand operation (rest.map Prod.fst)
      .ok (⟨operation, settings⟩, extras ++ others)
    | none =>
      .error (.refused programName (.notAmong "command" text (Operation.all.map Operation.name)))

/-- Read a command line. -/
def readRequest (args : List String) : Except Ending Request := do
  let tokens ← (Token.ofArguments programOptions args).mapError (.refused programName)
  let (request, extras) ← readTokens [] tokens
  if !extras.isEmpty then .error (.refused programName (.unrecognized extras))
  else if request.operation = .generate ∧ request.settings.jobs < 1 then
    .error (.refused programName .jobsTooFew)
  else .ok request

end EventSchema.CommandLine
