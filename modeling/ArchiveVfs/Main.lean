import ArchiveVfs.CommandLine.Footprint
import ArchiveVfs.Disk.Build

/-!
# The program

Takes what a request looks at from the real disk, runs the request and brings the
changes back.
-/

namespace ArchiveVfs.CommandLine

/-- Whether the real disk has a directory at a path. -/
def isRealDirectory (path : String) : IO Bool := do
  try (← IO.FS.realPath path).isDir
  catch _ => return false

/-- Takes a file, or a directory with the names in it, from the real disk. -/
def takeNode (disk : Disk) (path : String) : IO Disk := do
  try
    let place ← IO.FS.realPath path
    unless ← place.isDir do
      return disk.withFile path (← IO.FS.readBinFile place).toList
    let mut disk := disk.withDirectory path
    for entry in ← place.readDir do
      let inner := path ++ "/" ++ entry.fileName
      disk := if ← entry.path.isDir then disk.withDirectory inner else disk.withFile inner []
    return disk
  catch _ => return disk

/-- Takes a path from the real disk, and the directories around it. -/
def takePath (disk : Disk) (path : String) : IO Disk := do
  let mut disk := disk
  for directory in (ancestry path).dropLast do
    if ← isRealDirectory directory then
      disk := disk.withDirectory directory
  takeNode disk path

/-- Brings what changed at a path back to the real disk. -/
def bringPath (before after : Disk) (path : String) : IO Unit := do
  for place in ancestry path do
    if directoryAppears before after place then
      IO.FS.createDir place
    if fileDiffers before after place then
      match after.readWhole place with
      | .ok data => IO.FS.writeBinFile place ⟨data.toArray⟩
      | .error _ => pure ()

/-- The surroundings of this run. -/
def surroundings : IO Environment := do
  return {
    currentDirectory := (← IO.currentDir).toString
    temporaryDirectory := (← IO.getEnv "TMPDIR").getD "/tmp"
    userDirectory := ← IO.getEnv "HOME"
    programDirectory := (← IO.appPath).parent.map fun directory => directory.toString }

/-- Runs the request that arguments make, and says what was looked at. -/
def runHere (environment : Environment) (rootVariable : Option String) (disk : Disk)
    (arguments : List String) : IO (List String × Disk × Outcome) := do
  let mut disk := disk
  let mut paths : List String := []
  if let .ok request := Request.ofArguments arguments rootVariable then
    if let some path := request.settingsFile then
      disk ← takePath disk path
    paths := request.nativePaths environment disk
    for path in paths do
      disk ← takePath disk path
  return (paths, disk, run environment rootVariable disk arguments)

end ArchiveVfs.CommandLine

section

open ArchiveVfs CommandLine

/-- Runs the command line. -/
def main (arguments : List String) : IO UInt32 := do
  let environment ← surroundings
  let here := environment.currentDirectory
  let disk := (Disk.usual.withDirectory here).within here
  let (paths, before, outcome) ← runHere environment (← IO.getEnv "NIO_ROOT") disk arguments
  for path in paths do
    bringPath before outcome.disk path
  let output ← IO.getStdout
  output.write ⟨outcome.output.toArray⟩
  output.flush
  IO.eprint outcome.ending.complaint
  return outcome.ending.code

end
