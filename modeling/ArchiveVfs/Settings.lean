import ArchiveVfs.Assign
import ArchiveVfs.Json.Reader
import ArchiveVfs.Json.Printer

/-!
# Settings

The configuration of a server: what is switched on, the root directory, further
assigns and the sizes of buffers. Settings are read from JSON, as an object or as
an array of the fields in order; fields left out have their defaults, unknown
ones are passed over. `toText` writes what `ofText` reads.
-/

namespace ArchiveVfs

/-- The configuration of a server. -/
structure Settings where
  /-- Whether mounted archives come before the disk. -/
  archivesEnabled : Bool := true
  /-- Whether archives are mapped rather than loaded. -/
  mapsArchives : Bool := true
  /-- The platform in the name of the standard archive. -/
  platform : String := "linux"
  /-- The root directory; the current directory when absent. -/
  root : Option String := none
  /-- Further assigns. -/
  assigns : Assigns := .empty
  /-- The number of bytes that copies move at once. -/
  copyBufferSize : UInt64 := 1048576
  /-- The number of bytes that checksums take at once. -/
  checksumBufferSize : UInt64 := 65536
  deriving DecidableEq, Inhabited

namespace Settings

/-- Names of assigns have two bytes or more and no colon. -/
def isAssignName (name : String) : Bool :=
  2 ≤ name.utf8ByteSize && !name.toList.contains ':'

/-- The first fault that makes settings unusable. -/
def fault? (settings : Settings) : Option SettingsFault :=
  if settings.copyBufferSize = 0 then some .noCopyBuffer
  else if settings.checksumBufferSize = 0 then some .noChecksumBuffer
  else if settings.platform.toList.isEmpty then some .noPlatform
  else (settings.assigns.keys.find? fun name => !isAssignName name).map .badAssignName

/-- Checks that settings can be used. -/
def validate (settings : Settings) : Except Error Unit :=
  match settings.fault? with
  | some fault => .error (.settings fault)
  | none => .ok ()

/-- The root directory. -/
def rootDirectory (settings : Settings) (environment : Environment) : String :=
  settings.root.getD environment.currentDirectory

/-- A field of the written form. -/
inductive Field where
  | archivesEnabled
  | mapsArchives
  | platform
  | root
  | assigns
  | copyBufferSize
  | checksumBufferSize
  deriving DecidableEq, Repr

/-- The key of a field. -/
def Field.key : Field → String
  | .archivesEnabled => "archive_file_system_enabled"
  | .mapsArchives => "enable_mmap"
  | .platform => "platform_name"
  | .root => "root"
  | .assigns => "assigns"
  | .copyBufferSize => "copy_buffer_size"
  | .checksumBufferSize => "crc_buffer_size"

/-- The fields in the order in which they are written. -/
def Field.all : List Field :=
  [.archivesEnabled, .mapsArchives, .platform, .root, .assigns, .copyBufferSize,
    .checksumBufferSize]

/-! ## Reading -/

open Json (Found Complaint Fault)

/-- Takes a truth value. -/
def acceptBool : Found → Except Complaint Bool
  | .bool value => .ok value
  | found => .error (.wrongKind found "a boolean")

/-- Takes a string. -/
def acceptText : Found → Except Complaint String
  | .text value => .ok value
  | found => .error (.wrongKind found "a string")

/-- Takes a path or null. -/
def acceptPath : Found → Except Complaint (Option String)
  | .null => .ok none
  | .text value => .ok (some value)
  | found => .error (.wrongKind found "path string")

/-- Takes a whole number of 64 bits. -/
def acceptSize : Found → Except Complaint UInt64
  | .number (.natural value) => .ok (UInt64.ofNat value)
  | .number (.negative size) => .error (.wrongValue (.number (.negative size)) "usize")
  | found => .error (.wrongKind found "usize")

/-- Refuses what is no object. -/
def acceptNoMap (found : Found) : Except Complaint Assigns :=
  .error (.wrongKind found "a map")

/-- Reads an assign behind its name; of equal names the last one counts. -/
def readAssign (assigns : Assigns) (name : String) (cs : List Char) :
    Except Fault (Assigns × List Char) := do
  let (location, rest) ← Json.readScalar acceptText (← Json.readColon cs)
  return (assigns.insert name location, rest)

/-- Reads strings under strings. -/
def readAssigns (cs : List Char) : Except Fault (Assigns × List Char) :=
  match Json.skipBlanks cs with
  | '\x7b' :: rest => Json.readMembers readAssign (rest.length + 1) true .empty rest
  | _ => Json.readScalar acceptNoMap cs

/-- Reads a field into settings. -/
def readField (settings : Settings) (field : Field) (cs : List Char) :
    Except Fault (Settings × List Char) :=
  match field with
  | .archivesEnabled =>
    (Json.readScalar acceptBool cs).map fun (value, rest) =>
      ({ settings with archivesEnabled := value }, rest)
  | .mapsArchives =>
    (Json.readScalar acceptBool cs).map fun (value, rest) =>
      ({ settings with mapsArchives := value }, rest)
  | .platform =>
    (Json.readScalar acceptText cs).map fun (value, rest) =>
      ({ settings with platform := value }, rest)
  | .root =>
    (Json.readScalar acceptPath cs).map fun (value, rest) =>
      ({ settings with root := value }, rest)
  | .assigns =>
    (readAssigns cs).map fun (value, rest) => ({ settings with assigns := value }, rest)
  | .copyBufferSize =>
    (Json.readScalar acceptSize cs).map fun (value, rest) =>
      ({ settings with copyBufferSize := value }, rest)
  | .checksumBufferSize =>
    (Json.readScalar acceptSize cs).map fun (value, rest) =>
      ({ settings with checksumBufferSize := value }, rest)

/-- What follows blanks and, if it comes next, the end of an object. -/
def behindObject (cs : List Char) : List Char :=
  match Json.skipBlanks cs with
  | '\x7d' :: rest => rest
  | rest => rest

/-- Reads a member behind its key, with the fields given so far. Unknown members are
passed over. -/
def readMember (state : Settings × List Field) (key : String) (cs : List Char) :
    Except Fault ((Settings × List Field) × List Char) :=
  match Field.all.find? fun field => field.key = key with
  | none => ((Json.readColon cs).bind Json.skipValue).map fun rest => (state, rest)
  | some field =>
    if state.2.contains field then .error (.before (.repeated key) (behindObject cs))
    else
      ((Json.readColon cs).bind (readField state.1 field)).map fun (settings, rest) =>
        ((settings, field :: state.2), rest)

/-- Reads fields from the items of an array, as many as there are. -/
def readItems : (fields : List Field) → (isFirst : Bool) → Settings → List Char →
    Except Fault (Settings × List Char)
  | [], _, settings, cs => (Json.closeArray cs).map fun rest => (settings, rest)
  | field :: fields, isFirst, settings, cs =>
    match Json.nextItem isFirst cs with
    | .error fault => .error fault
    | .ok none => (Json.closeArray cs).map fun rest => (settings, rest)
    | .ok (some rest) =>
      match readField settings field rest with
      | .error fault => .error fault
      | .ok (settings, rest) => readItems fields false settings rest

/-- Refuses what is neither an object nor an array. -/
def acceptNoSettings (found : Found) : Except Complaint Settings :=
  .error (.wrongKind found "struct IoConfig")

/-- Reads settings from an object or from an array of the fields in order. -/
def readSettings (cs : List Char) : Except Fault (Settings × List Char) :=
  match Json.skipBlanks cs with
  | '\x7b' :: rest =>
    (Json.readMembers readMember (rest.length + 1) true ({}, []) rest).map fun (state, rest) =>
      (state.1, rest)
  | '[' :: rest => readItems Field.all true {} rest
  | _ => Json.readScalar acceptNoSettings cs

/-- Reads settings that a whole text gives. -/
def readWhole (cs : List Char) : Except Fault Settings := do
  let (settings, rest) ← readSettings cs
  Json.demandEnd rest
  return settings

/-- Reads and checks settings. -/
def ofText (text : String) : Except Error Settings :=
  match readWhole text.toList with
  | .error fault =>
    let (line, column) := fault.place text
    .error (.settings (.unreadable fault.complaint line column))
  | .ok settings => settings.validate.map fun _ => settings

/-! ## Writing -/

/-- The size of a buffer as it is written. -/
def sizeJson (size : UInt64) : Json :=
  .number (Nat.toDigits 10 size.toNat)

/-- Settings as JSON, all fields in order. -/
def toJson (settings : Settings) : Json :=
  let root : Json :=
    match settings.root with
    | some root => .text root
    | none => .null
  let assigns : Json :=
    .object (settings.assigns.entries.map fun entry => (entry.1, .text entry.2))
  .object [
    (Field.archivesEnabled.key, .bool settings.archivesEnabled),
    (Field.mapsArchives.key, .bool settings.mapsArchives),
    (Field.platform.key, .text settings.platform),
    (Field.root.key, root),
    (Field.assigns.key, assigns),
    (Field.copyBufferSize.key, sizeJson settings.copyBufferSize),
    (Field.checksumBufferSize.key, sizeJson settings.checksumBufferSize)]

/-- The written form of settings. -/
def toText (settings : Settings) : String :=
  settings.toJson.render

end Settings

end ArchiveVfs
