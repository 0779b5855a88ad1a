import ArchiveVfs.CommandLine.Usage
import ArchiveVfs.Text.Cut

/-!
# Reading the command line

Arguments are read at two levels, before the verb and after it. A value is accepted
only when something follows it or the level ends, so the first complaint is about
the first argument that cannot stand where it does. What is given after the verb
counts more than what is given before it, and both count more than the environment.
-/

namespace ArchiveVfs.CommandLine

open Text

/-- What the options of one level say. -/
structure Given where
  verbosity : Option Verbosity := none
  settingsFile : Option String := none
  root : Option String := none
  platform : Option String := none
  assigns : List (String × String) := []
  mounts : List String := []
  pattern : Option String := none
  standardArchives : Bool := false
  diskOnly : Bool := false
  whole : Bool := false
  deriving DecidableEq, Repr

/-- Why reading ends before there is a request. -/
inductive Stop where
  /-- The arguments make no request. -/
  | fault (fault : UsageFault)
  /-- The overview is asked for. -/
  | help
  /-- The version is asked for. -/
  | version
  deriving DecidableEq, Repr

/-- Complains about the arguments. -/
def complain {α : Type} (fault : UsageFault) : Except Stop α :=
  .error (.fault fault)

/-- An option that may be given once, with what is there already. -/
def unlessTaken (taken : Bool) (shown : String) : Except Stop Unit :=
  if taken then complain (.repeated shown) else .ok ()

/-- The verbosity in a value. -/
def readVerbosity (value : String) : Except Stop Verbosity :=
  match Verbosity.ofLabel? value with
  | some verbosity => .ok verbosity
  | none =>
    if value.isEmpty then complain (.missingValue .verbosity)
    else complain (.impossibleValue .verbosity value)

/-- The path in a value. -/
def readPath (parameter : Parameter) (value : String) : Except Stop String :=
  if value.isEmpty then complain (.missingValue parameter) else .ok value

/-- The name and the location in a value. -/
def readAssign (value : String) : Except Stop (String × String) :=
  match cutFirst '=' value.toList with
  | none => complain (.badAssign value (.noLocation value))
  | some (name, location) =>
    let name := String.ofList name
    if name.utf8ByteSize < 2 then complain (.badAssign value (.shortName name))
    else .ok (name, String.ofList location)

/-- Accepts the value of a parameter. -/
def Given.accept (given : Given) (parameter : Parameter) (value : String) :
    Except Stop Given := do
  match parameter with
  | .verbosity =>
    unlessTaken given.verbosity.isSome parameter.shown
    return { given with verbosity := some (← readVerbosity value) }
  | .settingsFile =>
    unlessTaken given.settingsFile.isSome parameter.shown
    return { given with settingsFile := some (← readPath parameter value) }
  | .root =>
    unlessTaken given.root.isSome parameter.shown
    return { given with root := some (← readPath parameter value) }
  | .platform =>
    unlessTaken given.platform.isSome parameter.shown
    return { given with platform := some value }
  | .assign => return { given with assigns := given.assigns ++ [← readAssign value] }
  | .mount => return { given with mounts := given.mounts ++ [value] }
  | .pattern =>
    unlessTaken given.pattern.isSome parameter.shown
    return { given with pattern := some value }

/-- Turns a switch on. -/
def Given.turnOn (given : Given) (switch : Switch) : Except Stop Given := do
  match switch with
  | .standardArchives =>
    unlessTaken given.standardArchives switch.shown
    return { given with standardArchives := true }
  | .diskOnly =>
    unlessTaken given.diskOnly switch.shown
    return { given with diskOnly := true }
  | .whole =>
    unlessTaken given.whole switch.shown
    return { given with whole := true }
  | .help => throw .help
  | .version => throw .version

/-- A level in the middle of being read. -/
structure Reading where
  /-- What the accepted options say. -/
  given : Given := {}
  /-- The last parameter and, once it is there, its value, before they are accepted. -/
  pending : Option (Parameter × Option String) := none
  /-- The arguments that are no options. -/
  operands : List String := []
  /-- Whether two dashes have put an end to options. -/
  operandsOnly : Bool := false
  deriving DecidableEq, Repr

namespace Reading

/-- Accepts what is pending. -/
def settle (reading : Reading) : Except Stop Reading :=
  match reading.pending with
  | none => .ok reading
  | some (parameter, none) => complain (.missingValue parameter)
  | some (parameter, some value) =>
    (reading.given.accept parameter value).map fun given =>
      { reading with given, pending := none }

/-- The parameter that waits for its value. -/
def awaited? (reading : Reading) : Option Parameter :=
  match reading.pending with
  | some (parameter, none) => some parameter
  | _ => none

/-- Takes a parameter. A value attached to it is accepted at once. -/
def takeParameter (reading : Reading) (parameter : Parameter) (attached : Option String) :
    Except Stop Reading := do
  let reading ← reading.settle
  match attached with
  | none => return { reading with pending := some (parameter, none) }
  | some value => return { reading with given := ← reading.given.accept parameter value }

/-- Takes a switch. -/
def takeSwitch (reading : Reading) (switch : Switch) : Except Stop Reading := do
  let reading ← reading.settle
  return { reading with given := ← reading.given.turnOn switch }

/-- Takes what follows two dashes: a name and perhaps, after an equals sign, a value. -/
def takeName (reading : Reading) (level : Level) (text : List Char) : Except Stop Reading :=
  let (name, attached) :=
    match cutFirst '=' text with
    | some (name, value) => (String.ofList name, some (String.ofList value))
    | none => (String.ofList text, none)
  match Flag.ofName? level name, attached with
  | none, _ => complain (.unexpected ("--" ++ name))
  | some (.parameter parameter), _ => reading.takeParameter parameter attached
  | some (.switch switch), none => reading.takeSwitch switch
  | some (.switch switch), some value => complain (.unwantedValue switch value)

/-- The value behind the letter of a parameter; it may begin with an equals sign. -/
def attachedValue? : List Char → Option String
  | [] => none
  | '=' :: value => some (String.ofList value)
  | value => some (String.ofList value)

/-- Takes what follows one dash: letters of switches and perhaps, last, that of a
parameter with its value. -/
def takeLetters (level : Level) : List Char → Reading → Except Stop Reading
  | [], reading => .ok reading
  | letter :: rest, reading =>
    match Flag.ofLetter? level letter with
    | none => complain (.unexpected ("-" ++ String.singleton letter))
    | some (.parameter parameter) => reading.takeParameter parameter (attachedValue? rest)
    | some (.switch switch) => (reading.takeSwitch switch).bind (takeLetters level rest)

/-- The number of operands that belong to a level. -/
def operandCount : Level → Nat
  | none => 0
  | some .assigns => 0
  | some .copy => 2
  | some _ => 1

/-- The word that asks for the overview in place of a verb. -/
def helpWord : String := "help"

/-- Whether a word stands where a verb stands. -/
def isVerbWord (word : String) : Bool :=
  (Verb.ofLabel? word).isSome || word = helpWord

/-- The complaint about an operand too many. -/
def surplus (reading : Reading) (level : Level) (argument : String) : UsageFault :=
  if level.isSome || reading.operandsOnly && isVerbWord argument then .unexpected argument
  else .unknownVerb argument

/-- Takes an argument that is no option. -/
def takeOperand (reading : Reading) (level : Level) (argument : String) : Except Stop Reading :=
  if reading.operands.length < operandCount level then
    reading.settle.map fun reading =>
      { reading with operands := reading.operands ++ [argument] }
  else complain (reading.surplus level argument)

/-- Takes an argument that begins with no dash, or is one: the awaited value, or else
an operand. -/
def takeWord (reading : Reading) (level : Level) (argument : String) : Except Stop Reading :=
  match reading.awaited? with
  | some parameter => .ok { reading with pending := some (parameter, some argument) }
  | none => reading.takeOperand level argument

/-- Takes an argument. -/
def take (reading : Reading) (level : Level) (argument : String) : Except Stop Reading :=
  if reading.operandsOnly then reading.takeOperand level argument
  else
    match argument.toList with
    | ['-'] => reading.takeWord level argument
    | ['-', '-'] => .ok { reading with operandsOnly := true }
    | '-' :: '-' :: text => reading.takeName level text
    | '-' :: letters => takeLetters level letters reading
    | _ => reading.takeWord level argument

/-- Whether the next argument may be a verb. -/
def expectsVerb (reading : Reading) : Bool :=
  reading.awaited?.isNone && !reading.operandsOnly

/-- Ends a level. The environment is looked at where the level names no root. -/
def finish (reading : Reading) (rootVariable : Option String) : Except Stop Reading := do
  let reading ← reading.settle
  if reading.given.root.isNone && rootVariable = some "" then complain (.missingValue .root)
  return reading

end Reading

/-- Reads the arguments after a verb. -/
def readInner (verb : Verb) (reading : Reading) (arguments : List String) :
    Except Stop Reading :=
  arguments.foldlM (fun reading argument => reading.take (some verb) argument) reading

/-- The help that is asked for, or the word that nothing is known about. -/
def readHelp : List String → Except Stop Request
  | [] => throw .help
  | [word] => if Reading.isVerbWord word then throw .help else complain (.unknownVerb word)
  | first :: second :: _ =>
    complain (.unknownVerb (if Reading.isVerbWord first then second else first))

/-- The command of a verb with its operands and options, when none is missing. -/
def Verb.command? (verb : Verb) (operands : List String) (given : Given) : Option Command :=
  match verb, operands with
  | .probe, [path] => some (.probe path)
  | .list, [] => some (.list "root:" (given.pattern.getD "*") given.whole)
  | .list, [path] => some (.list path (given.pattern.getD "*") given.whole)
  | .print, [path] => some (.print path)
  | .copy, [source, target] => some (.copy source target)
  | .checksum, [path] => some (.checksum path)
  | .createDirectory, [path] => some (.createDirectory path)
  | .assigns, [] => some .assigns
  | _, _ => none

/-- The values of the inner level, or those of the outer one if there are none. -/
def innerOr {α : Type} (inner outer : List α) : List α :=
  if inner.isEmpty then outer else inner

/-- The request that both levels and the environment make together. -/
def Request.ofLevels (outer inner : Given) (rootVariable : Option String) (command : Command) :
    Request where
  verbosity := (inner.verbosity <|> outer.verbosity).getD .warn
  settingsFile := inner.settingsFile <|> outer.settingsFile
  root := inner.root <|> outer.root <|> rootVariable
  platform := inner.platform <|> outer.platform
  assigns := innerOr inner.assigns outer.assigns
  mounts := innerOr inner.mounts outer.mounts
  standardArchives := inner.standardArchives || outer.standardArchives
  diskOnly := inner.diskOnly || outer.diskOnly
  command

/-- Ends the outer level without a verb. -/
def readNoVerb (outer : Reading) (rootVariable : Option String) : Except Stop Request := do
  let outer ← outer.finish rootVariable
  if outer.given = {} && rootVariable.isNone then complain .nothing
  complain .noVerb

/-- Reads what follows the verb. -/
def readVerb (outer : Reading) (verb : Verb) (rootVariable : Option String)
    (arguments : List String) : Except Stop Request := do
  let inner ← (← readInner verb {} arguments).finish rootVariable
  match verb.command? inner.operands inner.given with
  | none => complain .missingOperand
  | some command =>
    let outer ← outer.finish rootVariable
    return .ofLevels outer.given inner.given rootVariable command

/-- Reads arguments from the outer level on. -/
def readOuter (rootVariable : Option String) : Reading → List String → Except Stop Request
  | outer, [] => readNoVerb outer rootVariable
  | outer, argument :: rest =>
    if outer.expectsVerb && argument = Reading.helpWord then readHelp rest
    else
      match if outer.expectsVerb then Verb.ofLabel? argument else none with
      | some verb => readVerb outer verb rootVariable rest
      | none => (outer.take none argument).bind fun outer => readOuter rootVariable outer rest

/-- The request that arguments make. `rootVariable` is the root directory that the
environment names. -/
def Request.ofArguments (arguments : List String) (rootVariable : Option String := none) :
    Except Stop Request :=
  readOuter rootVariable {} arguments

end ArchiveVfs.CommandLine
