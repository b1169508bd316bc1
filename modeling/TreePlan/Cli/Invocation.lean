import TreePlan.Pair

/-!
# Invocations

What the arguments of the program ask for. Flags may stand in front of the name of a
command only where they are for every command; the options of a command stand behind it, in
any order, the value of an option behind it or attached to it.

The value of an option that stands by itself is looked at no earlier than at the next known
option or at the end. So an argument that is unknown is reported before a value that is
wrong, even where it stands behind it.
-/

namespace TreePlan.Cli

inductive Verb where
  | plan
  | status
  deriving DecidableEq, Repr

structure Invocation where
  verb : Verb
  verbose : Bool
  config : Option Path
  pairs : List Pair
  commitMessage : Option String
  json : Bool
  deriving Repr

inductive Wish where
  | run (invocation : Invocation)
  | version
  | help (about : Option Verb)
  deriving Repr

/-- Why arguments ask for nothing. -/
inductive UsageError where
  | unexpectedArgument (text : String)
  | unexpectedValue (value flag : String)
  | missingValue (option : String)
  | repeated (option : String)
  | invalidValue (value option reason : String)
  | notText
  | unknownCommand (text : String)
  | missingCommand
  | nothingAsked
  deriving DecidableEq, Repr

/-- The name of the program. -/
def programName : String := "snapsync"

def programVersion : String := "0.1.0"

def description : String :=
  "Print the commands that bring a snapshot tree in line with a build tree"

def UsageError.message : UsageError → String
  | .unexpectedArgument text => s!"error: unexpected argument '{text}' found"
  | .unexpectedValue value flag =>
    s!"error: unexpected value '{value}' for '{flag}' found; no more were expected"
  | .missingValue option => s!"error: a value is required for '{option}' but none was supplied"
  | .repeated option => s!"error: the argument '{option}' cannot be used multiple times"
  | .invalidValue value option reason =>
    s!"error: invalid value '{value}' for '{option}': {reason}"
  | .notText => "error: invalid UTF-8 was detected in one or more arguments"
  | .unknownCommand text => s!"error: unrecognized subcommand '{text}'"
  | .missingCommand =>
    s!"error: '{programName}' requires a subcommand but one was not provided"
  | .nothingAsked => description

/-! ### Options -/

/-- The options that take a value. -/
inductive Setting where
  | config
  | pair
  | commitMessage
  deriving DecidableEq, Repr

def Setting.shown : Setting → String
  | .config => "--config <CONFIG>"
  | .pair => "--pair <SRC=DST>"
  | .commitMessage => "--commit-message <COMMIT_MESSAGE>"

structure Given where
  verbose : Bool := false
  json : Bool := false
  config : Option Path := none
  pairs : List Pair := []
  commitMessage : Option String := none
  /-- The last option and its value, if the value stands by itself and was not looked at. -/
  pending : Option (Setting × Option Bytes) := none

/-- The two sides around the first `=` of a text, if there are two. -/
def splitPair (text : List Char) : Option Pair :=
  let source := text.takeWhile (· ≠ '=')
  match text.dropWhile (· ≠ '=') with
  | _ :: destination =>
    if source = [] || destination = [] then none
    else some ⟨⟨Bytes.ofChars source⟩, ⟨Bytes.ofChars destination⟩⟩
  | [] => none

namespace Given

def take (given : Given) (setting : Setting) (value : Bytes) : Except UsageError Given :=
  match setting with
  | .config =>
    if given.config.isSome then .error (.repeated setting.shown)
    else if value = [] then .error (.missingValue setting.shown)
    else .ok { given with config := some ⟨value⟩ }
  | .pair =>
    match Utf8.decode? value with
    | none => .error .notText
    | some text =>
      match splitPair text with
      | some pair => .ok { given with pairs := given.pairs ++ [pair] }
      | none =>
        let shown := String.ofList text
        .error (.invalidValue shown setting.shown s!"expected SRC=DST, got '{shown}'")
  | .commitMessage =>
    if given.commitMessage.isSome then .error (.repeated setting.shown)
    else
      match Utf8.decode? value with
      | none => .error .notText
      | some text => .ok { given with commitMessage := some (String.ofList text) }

/-- Looks at the value of the last option, which has to be there. -/
def settle (given : Given) : Except UsageError Given :=
  let settled := { given with pending := none }
  match given.pending with
  | none => .ok settled
  | some (setting, none) => .error (.missingValue setting.shown)
  | some (setting, some value) => settled.take setting value

/-- Takes an option whose value, if it is attached, is `value`. -/
def option (given : Given) (setting : Setting) (value : Option Bytes) :
    Except UsageError Given := do
  let settled ← given.settle
  match value with
  | some value => settled.take setting value
  | none => return { settled with pending := some (setting, none) }

def beVerbose (given : Given) : Except UsageError Given := do
  let settled ← given.settle
  if settled.verbose then .error (.repeated "--verbose") else return { settled with verbose := true }

def asJson (given : Given) : Except UsageError Given := do
  let settled ← given.settle
  if settled.json then .error (.repeated "--json") else return { settled with json := true }

end Given

/-! ### Arguments -/

def shownArgument (argument : Bytes) : String := String.ofList (Utf8.lossy argument)

/-- The name and the attached value of a long option, given without the two dashes. -/
def splitLong (body : Bytes) : Bytes × Option Bytes :=
  match body.dropWhile (· ≠ 0x3D) with
  | _ :: value => (body.takeWhile (· ≠ 0x3D), some value)
  | [] => (body, none)

/-- What is to be done after an argument: go on, or show help. -/
inductive Next (α : Type) where
  | go (given : α)
  | help

/-- A flag, which takes no value. -/
def flag {α : Type} (name : String) (value : Option Bytes) (taken : Except UsageError α) :
    Except UsageError α :=
  match value with
  | some value => .error (.unexpectedValue (shownArgument value) ("--" ++ name))
  | none => taken

/-- Takes a long option of a command, given without the two dashes. -/
def takeLong (given : Given) (body : Bytes) : Except UsageError (Next Given) := do
  let (name, value) := splitLong body
  if name = Bytes.ofString "verbose" then return .go (← flag "verbose" value given.beVerbose)
  else if name = Bytes.ofString "json" then return .go (← flag "json" value given.asJson)
  else if name = Bytes.ofString "help" then
    -- The option in front has to have its value before any help is shown.
    let _ ← flag "help" value given.settle
    return .help
  else if name = Bytes.ofString "config" then return .go (← given.option .config value)
  else if name = Bytes.ofString "pair" then return .go (← given.option .pair value)
  else if name = Bytes.ofString "commit-message" then
    return .go (← given.option .commitMessage value)
  else .error (.unexpectedArgument ("--" ++ shownArgument name))

/-- The first letter of a cluster of short flags, and the letters behind it. -/
def firstLetter (first : UInt8) (rest : Bytes) : String × Bytes :=
  match Utf8.next first rest with
  | (some c, rest) => (String.ofList [c], rest)
  | (none, _) => (shownArgument (first :: rest), [])

/-- Takes a cluster of short options of a command, given without the dash. -/
def takeShort (given : Given) : Bytes → Except UsageError (Next Given)
  | [] => .ok (.go given)
  | first :: rest => do
    if first = 0x76 then takeShort (← given.beVerbose) rest
    else if first = 0x68 then
      let _ ← given.settle
      return .help
    else if first = 0x63 then
      let value := match rest with
        | [] => none
        -- a `=` in front of the value is no part of it
        | a :: behind => some (if a = 0x3D then behind else rest)
      return .go (← given.option .config value)
    else .error (.unexpectedArgument ("-" ++ (firstLetter first rest).1))

def takeArguments (given : Given) : List Bytes → Except UsageError (Next Given)
  | [] => do return .go (← given.settle)
  | argument :: rest =>
    let next (outcome : Except UsageError (Next Given)) : Except UsageError (Next Given) := do
      match ← outcome with
      | .go given => takeArguments given rest
      | .help => return .help
    match argument with
    | [0x2D, 0x2D] =>
      -- Nothing may follow, for no command takes an argument that belongs to no option.
      match rest with
      | [] => do return .go (← given.settle)
      | first :: _ => .error (.unexpectedArgument (shownArgument first))
    | 0x2D :: 0x2D :: body => next (takeLong given body)
    | 0x2D :: first :: behind => next (takeShort given (first :: behind))
    | value =>
      match given.pending with
      -- The value is looked at when the next option comes, or the end.
      | some (setting, none) => takeArguments { given with pending := some (setting, some value) } rest
      | _ => .error (.unexpectedArgument (shownArgument value))

def wishFor (verb : Verb) (verbose : Bool) (arguments : List Bytes) : Except UsageError Wish := do
  match ← takeArguments {} arguments with
  | .help => return .help (some verb)
  | .go given =>
    return .run
      { verb
        verbose := verbose || given.verbose
        config := given.config
        pairs := given.pairs
        commitMessage := given.commitMessage
        json := given.json }

def verb? (name : Bytes) : Option Verb :=
  if name = Bytes.ofString "plan" then some .plan
  else if name = Bytes.ofString "status" then some .status
  else none

def helpName : Bytes := Bytes.ofString "help"

/-- What the command that shows help is asked to tell about. -/
def helpFor : List Bytes → Except UsageError Wish
  | [] => .ok (.help none)
  | name :: rest =>
    match verb? name, rest with
    | some verb, [] => .ok (.help (some verb))
    | some _, other :: _ => .error (.unknownCommand (shownArgument other))
    | none, _ =>
      if name = helpName then
        match rest with
        | [] => .ok (.help none)
        | other :: _ => .error (.unknownCommand (shownArgument other))
      else .error (.unknownCommand (shownArgument name))

/-- Takes a cluster of short flags in front of a command, given without the dash. Yields
whether there are more log records, or what else is asked for. -/
def takeGlobalShort (verbose : Bool) : Bytes → Except UsageError (Bool ⊕ Wish)
  | [] => .ok (.inl verbose)
  | first :: rest =>
    if first = 0x76 then
      if verbose then .error (.repeated "--verbose") else takeGlobalShort true rest
    else if first = 0x68 then .ok (.inr (.help none))
    else if first = 0x56 then .ok (.inr .version)
    else .error (.unexpectedArgument ("-" ++ (firstLetter first rest).1))

/-- Takes a long flag in front of a command, given without the two dashes. -/
def takeGlobalLong (verbose : Bool) (body : Bytes) : Except UsageError (Bool ⊕ Wish) :=
  let (name, value) := splitLong body
  if name = Bytes.ofString "verbose" then
    flag "verbose" value (if verbose then .error (.repeated "--verbose") else .ok (.inl true))
  else if name = Bytes.ofString "help" then flag "help" value (.ok (.inr (.help none)))
  else if name = Bytes.ofString "version" then flag "version" value (.ok (.inr .version))
  else .error (.unexpectedArgument ("--" ++ shownArgument name))

/-- What is asked for where the arguments end without a command. -/
def withoutCommand (verbose : Bool) : Except UsageError Wish :=
  .error (if verbose then .missingCommand else .nothingAsked)

/-- What the arguments ask for, after flags that were taken before. -/
def wishOf (verbose : Bool) : List Bytes → Except UsageError Wish
  | [] => withoutCommand verbose
  | argument :: rest =>
    let next (outcome : Except UsageError (Bool ⊕ Wish)) : Except UsageError Wish := do
      match ← outcome with
      | .inl verbose => wishOf verbose rest
      | .inr wish => return wish
    match verb? argument with
    | some verb => wishFor verb verbose rest
    | none =>
      if argument = helpName then helpFor rest
      else
        match argument with
        | [0x2D, 0x2D] =>
          match rest with
          | [] => withoutCommand verbose
          | first :: _ =>
            if (verb? first).isSome || first = helpName then
              .error (.unexpectedArgument (shownArgument first))
            else .error (.unknownCommand (shownArgument first))
        | 0x2D :: 0x2D :: body => next (takeGlobalLong verbose body)
        | 0x2D :: first :: behind => next (takeGlobalShort verbose (first :: behind))
        | other => .error (.unknownCommand (shownArgument other))

def Wish.ofArguments (arguments : List Bytes) : Except UsageError Wish := wishOf false arguments

end TreePlan.Cli
