import ArchiveVfs.Disk.Tree
import ArchiveVfs.Settings

/-!
# Settings on the disk

Settings are read from a file that holds JSON in UTF-8.
-/

namespace ArchiveVfs

/-- The text of a file. -/
def Disk.readText (disk : Disk) (path : String) : Except SystemFault String := do
  match Text.Utf8.decode (← disk.readWhole path) with
  | .ok cs => return String.ofList cs
  | .error _ => throw .notUtf8

/-- Reads and checks the settings in a file. -/
def Settings.ofFile (disk : Disk) (path : String) : Except Error Settings := do
  Settings.ofText (← Disk.blame .readSettings path (disk.readText path))

end ArchiveVfs
