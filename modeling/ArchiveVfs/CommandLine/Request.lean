/-!
# Requests of the command line

A request says what is to be done, with which settings and which archives mounted.
-/

namespace ArchiveVfs.CommandLine

/-- How much is to be logged. -/
inductive Verbosity where
  | trace
  | debug
  | info
  | warn
  | error
  deriving DecidableEq, Repr

/-- The word for a verbosity. -/
def Verbosity.label : Verbosity → String
  | .trace => "trace"
  | .debug => "debug"
  | .info => "info"
  | .warn => "warn"
  | .error => "error"

/-- All verbosities, the most talkative first. -/
def Verbosity.all : List Verbosity := [.trace, .debug, .info, .warn, .error]

/-- The verbosity that a word stands for. -/
def Verbosity.ofLabel? (label : String) : Option Verbosity :=
  all.find? fun verbosity => verbosity.label = label

/-- What a command does, without what it is done to. -/
inductive Verb where
  | probe
  | list
  | print
  | copy
  | checksum
  | createDirectory
  | assigns
  deriving DecidableEq, Repr

/-- The word for a verb. -/
def Verb.label : Verb → String
  | .probe => "exists"
  | .list => "ls"
  | .print => "cat"
  | .copy => "cp"
  | .checksum => "crc"
  | .createDirectory => "mkdir"
  | .assigns => "assigns"

/-- What a verb is for. -/
def Verb.summary : Verb → String
  | .probe => "Report whether a path is a file, a directory or missing"
  | .list => "List a directory"
  | .print => "Write a file's contents to stdout"
  | .copy => "Copy a file, possibly out of an archive"
  | .checksum => "Print the CRC-32 of a file"
  | .createDirectory => "Create a directory and its missing parents"
  | .assigns => "List all assigns"

/-- All verbs. -/
def Verb.all : List Verb := [.probe, .list, .print, .copy, .checksum, .createDirectory, .assigns]

/-- The verb that a word stands for. -/
def Verb.ofLabel? (label : String) : Option Verb :=
  all.find? fun verb => verb.label = label

/-- A verb with what it is done to. -/
inductive Command where
  /-- Says what is at a path. -/
  | probe (path : String)
  /-- Lists what a directory holds and a pattern matches, as names or as URIs. -/
  | list (path pattern : String) (whole : Bool)
  /-- Prints a file. -/
  | print (path : String)
  /-- Copies a file. -/
  | copy (source target : String)
  /-- Prints the checksum of a file. -/
  | checksum (path : String)
  /-- Creates a directory. -/
  | createDirectory (path : String)
  /-- Prints the assigns. -/
  | assigns
  deriving DecidableEq, Repr

/-- A command with all that it is to be run with. -/
structure Request where
  /-- How much is to be logged. -/
  verbosity : Verbosity := .warn
  /-- The file with the settings; without one they have their defaults. -/
  settingsFile : Option String := none
  /-- The root directory, in place of that of the settings. -/
  root : Option String := none
  /-- The platform, in place of that of the settings. -/
  platform : Option String := none
  /-- Further assigns; the later ones replace the earlier ones. -/
  assigns : List (String × String) := []
  /-- Archives to be mounted, in this order. -/
  mounts : List String := []
  /-- Whether the standard archive is to be mounted first. -/
  standardArchives : Bool := false
  /-- Whether mounted archives are left aside. -/
  diskOnly : Bool := false
  /-- The command. -/
  command : Command
  deriving DecidableEq, Repr

end ArchiveVfs.CommandLine
