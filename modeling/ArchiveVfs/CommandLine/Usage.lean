import ArchiveVfs.CommandLine.Request

/-!
# Usage of the command line

The options, where each may stand, and the complaints about arguments that make no
request.
-/

namespace ArchiveVfs.CommandLine

/-- Where an option stands: before the verb, or after it. -/
abbrev Level := Option Verb

/-- An option that comes with a value. -/
inductive Parameter where
  | verbosity
  | settingsFile
  | root
  | platform
  | assign
  | mount
  | pattern
  deriving DecidableEq, Repr

namespace Parameter

/-- All parameters. -/
def all : List Parameter :=
  [.verbosity, .settingsFile, .root, .platform, .assign, .mount, .pattern]

/-- The name after two dashes. -/
def name : Parameter → String
  | verbosity => "log-level"
  | settingsFile => "config"
  | root => "root"
  | platform => "platform"
  | assign => "assign"
  | mount => "mount"
  | pattern => "pattern"

/-- The letter after one dash. -/
def letter? : Parameter → Option Char
  | verbosity => some 'l'
  | settingsFile => some 'c'
  | root => some 'r'
  | platform => none
  | assign => some 'a'
  | mount => some 'm'
  | pattern => some 'p'

/-- What stands for the value in messages. -/
def valueName : Parameter → String
  | verbosity => "LOG_LEVEL"
  | settingsFile => "CONFIG"
  | root => "ROOT"
  | platform => "PLATFORM"
  | assign => "ASSIGNS"
  | mount => "MOUNTS"
  | pattern => "PATTERN"

/-- A parameter as messages show it. -/
def shown (parameter : Parameter) : String :=
  "--" ++ parameter.name ++ " <" ++ parameter.valueName ++ ">"

/-- Patterns belong to listings; all else may stand before or after any verb. -/
def standsAt : Parameter → Level → Bool
  | pattern, level => level = some .list
  | _, _ => true

end Parameter

/-- An option without a value. -/
inductive Switch where
  | standardArchives
  | diskOnly
  | whole
  | help
  | version
  deriving DecidableEq, Repr

namespace Switch

/-- All switches. -/
def all : List Switch := [.standardArchives, .diskOnly, .whole, .help, .version]

/-- The name after two dashes. -/
def name : Switch → String
  | standardArchives => "standard-archives"
  | diskOnly => "no-archive-fs"
  | whole => "full"
  | help => "help"
  | version => "version"

/-- The letter after one dash. -/
def letter? : Switch → Option Char
  | standardArchives => none
  | diskOnly => none
  | whole => some 'f'
  | help => some 'h'
  | version => some 'V'

/-- A switch as messages show it. -/
def shown (switch : Switch) : String :=
  "--" ++ switch.name

/-- Whole URIs belong to listings, and the version is asked for before any
verb. -/
def standsAt : Switch → Level → Bool
  | whole, level => level = some .list
  | version, level => level = none
  | _, _ => true

end Switch

/-- An option of either kind. -/
inductive Flag where
  | parameter (parameter : Parameter)
  | switch (switch : Switch)
  deriving DecidableEq, Repr

namespace Flag

/-- The options that may stand at a level. -/
def allAt (level : Level) : List Flag :=
  (Parameter.all.filter (·.standsAt level)).map parameter
    ++ (Switch.all.filter (·.standsAt level)).map switch

/-- The name after two dashes. -/
def name : Flag → String
  | parameter p => p.name
  | switch s => s.name

/-- The letter after one dash. -/
def letter? : Flag → Option Char
  | parameter p => p.letter?
  | switch s => s.letter?

/-- The option of a name. -/
def ofName? (level : Level) (name : String) : Option Flag :=
  (allAt level).find? fun flag => flag.name = name

/-- The option of a letter. -/
def ofLetter? (level : Level) (letter : Char) : Option Flag :=
  (allAt level).find? fun flag => flag.letter? = some letter

end Flag

/-- Why a value is no assign. -/
inductive AssignFault where
  /-- There is no equals sign. -/
  | noLocation (value : String)
  /-- The name has fewer than two bytes. -/
  | shortName (name : String)
  deriving DecidableEq, Repr

/-- The wording of what is wrong with an assign. -/
def AssignFault.message : AssignFault → String
  | .noLocation value => "expected name=path, got '" ++ value ++ "'"
  | .shortName name => "assign name '" ++ name ++ "' must be at least two characters"

/-- Why arguments make no request. -/
inductive UsageFault where
  /-- There is nothing at all. -/
  | nothing
  /-- There are options but no verb. -/
  | noVerb
  /-- The word is no verb. -/
  | unknownVerb (word : String)
  /-- The argument belongs nowhere. -/
  | unexpected (argument : String)
  /-- The verb lacks a path. -/
  | missingOperand
  /-- The parameter lacks its value. -/
  | missingValue (parameter : Parameter)
  /-- The value is none of the possible ones. -/
  | impossibleValue (parameter : Parameter) (value : String)
  /-- The value is no assign. -/
  | badAssign (value : String) (fault : AssignFault)
  /-- The option stands twice at one level. -/
  | repeated (shown : String)
  /-- The switch was given a value. -/
  | unwantedValue (switch : Switch) (value : String)
  deriving DecidableEq, Repr

/-- The name of the program. -/
def programName : String := "nio"

/-- The version of the program. -/
def programVersion : String := "0.1.0"

/-- What the program is for. -/
def programSummary : String :=
  "Inspect files, assigns and zip archives through the nebula-io server"

/-- The wording of a complaint. -/
def UsageFault.message : UsageFault → String
  | .nothing => programSummary
  | .noVerb => "error: '" ++ programName ++ "' requires a subcommand but one was not provided"
  | .unknownVerb word => "error: unrecognized subcommand '" ++ word ++ "'"
  | .unexpected argument => "error: unexpected argument '" ++ argument ++ "' found"
  | .missingOperand => "error: the following required arguments were not provided:"
  | .missingValue parameter =>
    "error: a value is required for '" ++ parameter.shown ++ "' but none was supplied"
  | .impossibleValue parameter value =>
    "error: invalid value '" ++ value ++ "' for '" ++ parameter.shown ++ "'"
  | .badAssign value fault =>
    "error: invalid value '" ++ value ++ "' for '" ++ Parameter.assign.shown ++ "': "
      ++ fault.message
  | .repeated shown => "error: the argument '" ++ shown ++ "' cannot be used multiple times"
  | .unwantedValue switch value =>
    "error: unexpected value '" ++ value ++ "' for '" ++ switch.shown
      ++ "' found; no more were expected"

/-- The overview of verbs and options. -/
def helpText : String :=
  let verb (verb : Verb) := "  " ++ verb.label ++ "  " ++ verb.summary ++ "\n"
  let letter (flag : Flag) :=
    match flag.letter? with
    | some letter => "-" ++ String.singleton letter ++ ", "
    | none => "    "
  let shown : Flag → String
    | .parameter parameter => parameter.shown
    | .switch switch => switch.shown
  let option (flag : Flag) := "  " ++ letter flag ++ shown flag ++ "\n"
  programSummary ++ "\n\nUsage: " ++ programName ++ " [OPTIONS] <COMMAND>\n\nCommands:\n"
    ++ String.join (Verb.all.map verb) ++ "\nOptions:\n"
    ++ String.join ((Flag.allAt none).map option)

/-- What is printed when the version is asked for. -/
def versionText : String :=
  programName ++ " " ++ programVersion ++ "\n"

end ArchiveVfs.CommandLine
