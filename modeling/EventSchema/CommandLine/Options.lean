import EventSchema.Text.Digit
import EventSchema.Text.Quoted

/-!
# Options on a command line

Arguments are told apart first (`Token.ofArgument`): options, arguments that look like options but
are not known, and plain arguments. A long option may be shortened as long as one option fits, its
value may be set behind an equals sign, and the value of a short option may follow it directly.
Short options without value can be run together.

`Use.ofToken` then works out which options a token stands for, and whether the argument behind it is
the value of one.
-/

namespace EventSchema.CommandLine

/-- An option. -/
structure OptionSpec (κ : Type) where
  /-- The names, dashes included. -/
  names : List String
  /-- What the option sets. -/
  setting : κ
  /-- Whether the option has a value. -/
  takesValue : Bool

namespace OptionSpec

variable {κ : Type}

/-- How messages call an option. -/
def title (o : OptionSpec κ) : String := "/".intercalate o.names

/-- The options by their names. -/
def byName (options : List (OptionSpec κ)) : List (String × OptionSpec κ) :=
  options.flatMap fun o => o.names.map fun name => (name, o)

/-- The option of a name. -/
def find? (options : List (OptionSpec κ)) (name : String) : Option (OptionSpec κ) :=
  (byName options).lookup name

end OptionSpec

/-- Why a command line is refused. -/
inductive UsageError where
  /-- Several options fit a shortened one. -/
  | ambiguous (text : String) (candidates : List String)
  /-- An option lacks its value. -/
  | valueExpected (option : String)
  /-- An option without value has one. -/
  | valueIgnored (option text : String)
  /-- A value should be an integer. -/
  | notInteger (option text : String)
  /-- A value is none of those that it may be. -/
  | notAmong (option text : String) (choices : List String)
  /-- An argument is missing. -/
  | missing (name : String)
  /-- Arguments are left that nothing takes. -/
  | unrecognized (texts : List String)
  /-- No version could be compiled at a time. -/
  | jobsTooFew
  deriving DecidableEq

namespace UsageError

/-- The message of a refusal. -/
def message : UsageError → String
  | .ambiguous text candidates =>
    "ambiguous option: " ++ text ++ " could match " ++ ", ".intercalate candidates
  | .valueExpected option => s!"argument {option}: expected one argument"
  | .valueIgnored option text =>
    s!"argument {option}: ignored explicit argument {Text.shown text}"
  | .notInteger option text => s!"argument {option}: invalid int value: {Text.shown text}"
  | .notAmong option text choices =>
    s!"argument {option}: invalid choice: {Text.shown text} (choose from "
      ++ ", ".intercalate (choices.map Text.shown) ++ ")"
  | .missing name => s!"the following arguments are required: {name}"
  | .unrecognized texts => "unrecognized arguments: " ++ " ".intercalate texts
  | .jobsTooFew => "-j, --jobs must be at least 1"

end UsageError

/-! ### Tokens -/

/-- What is attached to an option inside one argument. -/
inductive Attachment where
  /-- Nothing. -/
  | none
  /-- A text behind an equals sign. -/
  | assigned (text : String)
  /-- A text that follows a short option directly. -/
  | glued (text : List Char)
  deriving DecidableEq

/-- What an argument is. -/
inductive Token (κ : Type) where
  /-- A plain argument. -/
  | plain
  /-- The two dashes after which all arguments are plain. -/
  | separator
  /-- Something like an option that is not known. -/
  | unknown
  /-- An option. -/
  | option (spec : OptionSpec κ) (attached : Attachment)

/-- A text around its first equals sign. -/
def splitAssigned (cs : List Char) : List Char × Option (List Char) :=
  match cs.dropWhile (· ≠ '=') with
  | [] => (cs, none)
  | _ :: rest => (cs.takeWhile (· ≠ '='), some rest)

/-- Whether a text is a negative number, so that it is no option. A line end may follow. -/
def isNegativeNumber : List Char → Bool
  | '-' :: cs =>
    let cs := if cs.getLast? = some '\n' then cs.dropLast else cs
    match cs.dropWhile Text.isDecimalDigit with
    | [] => !cs.isEmpty
    | '.' :: digits => !digits.isEmpty && digits.all Text.isDecimalDigit
    | _ => false
  | _ => false

/-- What is attached behind an equals sign, if there is one. -/
def Attachment.ofAssigned : Option (List Char) → Attachment
  | .some text => .assigned (String.ofList text)
  | .none => .none

/-- The options that an argument may be short for, each with its name and with what is attached. -/
def candidates {κ : Type} (options : List (OptionSpec κ)) (cs : List Char) :
    List (String × OptionSpec κ × Attachment) :=
  match cs with
  | '-' :: '-' :: _ =>
    let (start, value) := splitAssigned cs
    (OptionSpec.byName options).filterMap fun o =>
      if start.isPrefixOf o.1.toList then some (o.1, o.2, .ofAssigned value) else none
  | '-' :: c :: rest =>
    (OptionSpec.byName options).filterMap fun o =>
      if o.1 = String.ofList ['-', c] then some (o.1, o.2, .glued rest)
      else if cs.isPrefixOf o.1.toList then some (o.1, o.2, .none)
      else none
  | _ => []

namespace Token

variable {κ : Type}

/-- What an argument that starts with a dash and more is, if it is no option as it stands. -/
def ofShortened (options : List (OptionSpec κ)) (s : String) : Except UsageError (Token κ) :=
  match candidates options s.toList with
  | [] =>
    if isNegativeNumber s.toList || s.toList.contains ' ' then .ok .plain else .ok .unknown
  | [(_, spec, attached)] => .ok (.option spec attached)
  | several => .error (.ambiguous s (several.map Prod.fst))

/-- What an argument is. -/
def ofArgument (options : List (OptionSpec κ)) (s : String) : Except UsageError (Token κ) :=
  if !s.startsWith "-" || s = "-" then .ok .plain
  else
    match OptionSpec.find? options s, splitAssigned s.toList with
    | some spec, _ => .ok (.option spec .none)
    | none, (start, some value) =>
      let name := String.ofList start
      match OptionSpec.find? options name with
      | some spec => .ok (.option spec (.assigned (String.ofList value)))
      | none => ofShortened options s
    | none, (_, none) => ofShortened options s

/-- What arguments are, each with its text. After two dashes all are plain. -/
def ofArguments (options : List (OptionSpec κ)) :
    List String → Except UsageError (List (String × Token κ))
  | [] => .ok []
  | s :: rest =>
    if s = "--" then .ok ((s, .separator) :: rest.map fun t => (t, .plain))
    else do
      let token ← ofArgument options s
      let others ← ofArguments options rest
      .ok ((s, token) :: others)

end Token

/-! ### Uses of options -/

/-- The options that one argument stands for. -/
structure Uses (κ : Type) where
  /-- The options, with their values. -/
  uses : List (OptionSpec κ × Option String)
  /-- What is left of the argument and not recognized. -/
  extras : List String
  /-- Whether the next argument is the value of the last option. -/
  takesNext : Bool

/-- One more option in front of others. -/
def Uses.after {κ : Type} (spec : OptionSpec κ) (u : Uses κ) : Uses κ :=
  { u with uses := (spec, none) :: u.uses }

/-- An option whose value, if it needs one, is the next argument. -/
def useAlone {κ : Type} (next : Option String) (spec : OptionSpec κ) :
    Except UsageError (Uses κ) :=
  if spec.takesValue then
    match next with
    | some value => .ok ⟨[(spec, some value)], [], true⟩
    | none => .error (.valueExpected spec.title)
  else .ok ⟨[(spec, none)], [], false⟩

/-- An option with a text behind an equals sign. -/
def useAssigned {κ : Type} (text : String) (spec : OptionSpec κ) : Except UsageError (Uses κ) :=
  if spec.takesValue then .ok ⟨[(spec, some text)], [], false⟩
  else .error (.valueIgnored spec.title text)

/-- A short option with a text that follows it directly: its value, or more short options. -/
def useGlued {κ : Type} (options : List (OptionSpec κ)) (next : Option String) :
    OptionSpec κ → List Char → Except UsageError (Uses κ)
  | spec, [] => useAlone next spec
  | spec, c :: rest =>
    if spec.takesValue then .ok ⟨[(spec, some (String.ofList (c :: rest)))], [], false⟩
    else if c = '-' then .error (.valueIgnored spec.title (String.ofList (c :: rest)))
    else
      match OptionSpec.find? options (String.ofList ['-', c]) with
      | none => .ok ⟨[(spec, none)], [String.ofList ('-' :: c :: rest)], false⟩
      | some other =>
        match rest with
        | '=' :: text => (useAssigned (String.ofList text) other).map (Uses.after spec)
        | rest => (useGlued options next other rest).map (Uses.after spec)

/-- The options that an option token stands for. `next` is the plain argument behind it, if there is
one. -/
def Uses.ofOption {κ : Type} (options : List (OptionSpec κ)) (next : Option String)
    (spec : OptionSpec κ) : Attachment → Except UsageError (Uses κ)
  | .none => useAlone next spec
  | .assigned text => useAssigned text spec
  | .glued text => useGlued options next spec text

end EventSchema.CommandLine
