import ArchiveVfs.CommandLine.Failure
import ArchiveVfs.CommandLine.Parser
import ArchiveVfs.Server.Archives
import ArchiveVfs.Server.Change
import ArchiveVfs.SettingsFile

/-!
# Running the command line

A request builds a server of its own, mounts the archives it asks for and carries
out its command. What was printed before a failure stays printed.
-/

namespace ArchiveVfs.CommandLine

/-- How a run ends. -/
inductive Ending where
  /-- All is done. -/
  | done
  /-- The request failed. -/
  | failed (failure : Failure)
  /-- The arguments make no request. -/
  | refused (fault : UsageFault)
  deriving DecidableEq, Repr

/-- The exit code. -/
def Ending.code : Ending → UInt32
  | .done => 0
  | .failed _ => 1
  | .refused _ => 2

/-- What is written beside the output. -/
def Ending.complaint : Ending → String
  | .done => ""
  | .failed failure => failure.report
  | .refused .nothing => helpText
  | .refused fault => fault.message ++ "\n\nFor more information, try '--help'.\n"

/-- What a run prints, how it ends and the disk it leaves. -/
structure Outcome where
  /-- What is printed. -/
  output : Bytes := []
  /-- How the run ends. -/
  ending : Ending := .done
  /-- The disk. -/
  disk : Disk

/-- An error in the middle of an activity. -/
def during {α : Type} (activity : Activity) : Except Error α → Except Failure α :=
  Except.mapError (.because (some activity))

/-- An error on its own. -/
def plain {α : Type} : Except Error α → Except Failure α :=
  Except.mapError (.because none)

/-- The settings from the file, or the defaults. -/
def Request.baseSettings (request : Request) (disk : Disk) : Except Failure Settings :=
  match request.settingsFile with
  | some path => during (.loading path) (Settings.ofFile disk path)
  | none => .ok {}

/-- The settings of a request. -/
def Request.settings (request : Request) (disk : Disk) : Except Failure Settings := do
  let settings ← request.baseSettings disk
  return { settings with
    root := request.root <|> settings.root
    platform := request.platform.getD settings.platform
    assigns := request.assigns.foldl
      (fun assigns assign => assigns.insert assign.1 assign.2) settings.assigns
    archivesEnabled := settings.archivesEnabled && !request.diskOnly }

/-- Mounts archives one after the other. -/
def mountAll (server : Server) (disk : Disk) (paths : List String) : Except Failure Server :=
  paths.foldlM (fun server path => during (.mounting path) (server.mountArchive disk path)) server

/-- The server of a request, with its archives mounted. -/
def Request.server (request : Request) (environment : Environment) (disk : Disk) :
    Except Failure Server := do
  let server ← during .building (Server.build (← request.settings disk) environment)
  let server ← if request.standardArchives then plain (server.mountStandard disk) else pure server
  mountAll server disk request.mounts

/-- The bytes of a line. -/
def lineOf (text : String) : Bytes :=
  Text.Utf8.bytesOf (text ++ "\n")

/-- The outcome of a question: the lines of the answer, or the failure. -/
def answer (disk : Disk) : Except Failure (List String) → Outcome
  | .ok lines => { output := lines.flatMap lineOf, disk }
  | .error failure => { ending := .failed failure, disk }

/-- The outcome of a change that prints nothing. -/
def change (activity : Activity) (result : Except Error Unit × Disk) : Outcome :=
  answer result.2 (during activity (result.1.map fun _ => []))

/-- Says what is at a path. -/
def describe (server : Server) (disk : Disk) (path : String) : Except Failure (List String) := do
  let uri ← plain (server.resolve path)
  if server.fileExists disk path then return ["file " ++ uri.render]
  if server.directoryExists disk path then return ["directory " ++ uri.render]
  throw (.nothingAt path uri)

/-- Lists a directory: the directories in it, each with a slash, and then the files. -/
def listDirectory (server : Server) (disk : Disk) (path pattern : String) (whole : Bool) :
    Outcome :=
  if server.directoryExists disk path then
    match server.list disk path pattern whole .directories with
    | .error error => answer disk (plain (.error error))
    | .ok directories =>
      let files := answer disk (plain (server.list disk path pattern whole .files))
      { files with output := (directories.map (· ++ "/")).flatMap lineOf ++ files.output }
  else answer disk (.error (.noDirectoryAt path))

/-- Prints a file. -/
def printFile (server : Server) (disk : Disk) (path : String) : Outcome :=
  match during (.reading path) (server.contents disk path) with
  | .ok data => { output := data, disk }
  | .error failure => answer disk (.error failure)

/-- Carries out a command. -/
def Command.run (command : Command) (server : Server) (disk : Disk) : Outcome :=
  match command with
  | .probe path => answer disk (describe server disk path)
  | .list path pattern whole => listDirectory server disk path pattern whole
  | .print path => printFile server disk path
  | .copy source target => change (.copying source target) (server.copyFile disk source target)
  | .checksum path =>
    answer disk <| during (.checksumming path) <|
      (server.checksum disk path).map fun checksum => [hexWord checksum ++ "  " ++ path]
  | .createDirectory path => change (.creating path) (server.createDirectory disk path)
  | .assigns =>
    answer disk (.ok (server.assigns.entries.map fun assign => assign.1 ++ ": " ++ assign.2))

/-- Carries out a request. -/
def Request.run (request : Request) (environment : Environment) (disk : Disk) : Outcome :=
  match request.server environment disk with
  | .ok server => request.command.run server disk
  | .error failure => answer disk (.error failure)

/-- Carries out what arguments ask for. `rootVariable` is the root directory that the
environment names. -/
def run (environment : Environment) (rootVariable : Option String) (disk : Disk)
    (arguments : List String) : Outcome :=
  match Request.ofArguments arguments rootVariable with
  | .ok request => request.run environment disk
  | .error .help => { output := Text.Utf8.bytesOf helpText, disk }
  | .error .version => { output := Text.Utf8.bytesOf versionText, disk }
  | .error (.fault fault) => { ending := .refused fault, disk }

end ArchiveVfs.CommandLine
