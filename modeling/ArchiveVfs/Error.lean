import ArchiveVfs.Bytes
import ArchiveVfs.Text.Utf8
import ArchiveVfs.Uri.Parser
import ArchiveVfs.Uri.Printer
import ArchiveVfs.Stream.Access
import ArchiveVfs.Disk.Fault
import ArchiveVfs.Json.Fault
import ArchiveVfs.Zip.Fault

/-!
# Errors

Every failure is a cause. `Error.message` is its wording, and `Error.causes` the
wordings of what lies beneath it, the nearest first.
-/

namespace ArchiveVfs

/-- An activity named in messages. -/
inductive Action where
  | openStream
  | readBytes
  | writeBytes
  | writeWhileMapped
  | mapView
  | listDirectory
  | createDirectory
  | deleteFile
  | deleteDirectory
  | readWriteTime
  | setWriteTime
  | readPermissions
  | setReadOnly
  | readSettings
  deriving DecidableEq, Repr

/-- The wording of an activity. -/
def Action.label : Action → String
  | .openStream => "open"
  | .readBytes => "read"
  | .writeBytes => "write"
  | .writeWhileMapped => "write while mapped"
  | .mapView => "map"
  | .listDirectory => "list directory"
  | .createDirectory => "create directory"
  | .deleteFile => "delete file"
  | .deleteDirectory => "delete directory"
  | .readWriteTime => "read write time"
  | .setWriteTime => "set write time"
  | .readPermissions => "read permissions"
  | .setReadOnly => "set read-only"
  | .readSettings => "read config"

/-- Why bytes could not be moved. -/
inductive TransferFault where
  /-- The operating system refused. -/
  | system (fault : SystemFault)
  /-- Compressed data break the rules of their format. -/
  | corruptDeflate
  /-- Compressed data end early. -/
  | incompleteDeflate
  /-- Decrypted data do not have the recorded checksum. -/
  | invalidChecksum
  /-- The data of an entry end before its recorded size. -/
  | truncatedEntry (reached size : Nat)
  /-- The data of an entry do not have the recorded checksum. -/
  | wrongChecksum (expected actual : UInt32)
  deriving DecidableEq, Repr

/-- The wording of a failed transfer. -/
def TransferFault.message : TransferFault → String
  | .system fault => fault.message
  | .corruptDeflate => "corrupt deflate stream"
  | .incompleteDeflate => "incomplete deflate stream"
  | .invalidChecksum => "Invalid checksum"
  | .truncatedEntry reached size => s!"archive entry truncated at {reached} of {size} bytes"
  | .wrongChecksum expected actual =>
    "archive entry checksum mismatch: expected " ++ hexWord expected ++ ", got "
      ++ hexWord actual

/-- Why a text does not locate what was asked for. -/
inductive UriFault where
  /-- The text is no URI. -/
  | unreadable (fault : Uri.ParseFault) (text : String)
  /-- The path expands to nothing. -/
  | emptyPath (path : String)
  /-- An archive URI names no entry. -/
  | noEntry (uri : Uri)
  /-- Archives are read from files. -/
  | notArchiveFile (uri : Uri)
  /-- The URI lies outside the local disk. -/
  | notLocal (uri : Uri)
  deriving DecidableEq, Repr

/-- The wording of a fault in a URI. -/
def UriFault.message : UriFault → String
  | .unreadable .noScheme text => "missing scheme separator in '" ++ text ++ "'"
  | .unreadable .badScheme text => "invalid scheme in '" ++ text ++ "'"
  | .unreadable .badPort text => "invalid port in '" ++ text ++ "'"
  | .emptyPath path => path
  | .noEntry uri => uri.render ++ " has no 'file' query parameter"
  | .notArchiveFile uri => "archive location must be a file: URI, got " ++ uri.render
  | .notLocal uri => uri.render ++ " does not address the local filesystem"

/-- Why data are not what they should be. -/
inductive DataFault where
  /-- A string read is not UTF-8. -/
  | notText (fault : Text.Utf8.Fault)
  /-- A blob does not fit its length field. -/
  | blobTooLong (size : Nat)
  /-- An encrypted entry was opened without a password. -/
  | passwordNeeded (path : String)
  /-- The recorded place of an entry passes the end of the archive. -/
  | entryOutside (path : String)
  /-- An entry is packed by an unknown method. -/
  | unsupportedMethod (path : String) (method : Nat)
  /-- An entry ended before the target of a seek along it. -/
  | endedBefore (uri : Uri) (reached target : Nat)
  deriving DecidableEq, Repr

/-- The wording of a fault in data. -/
def DataFault.message : DataFault → String
  | .notText fault => "string is not UTF-8: " ++ fault.message
  | .blobTooLong size => s!"blob of {size} bytes exceeds u32 length"
  | .passwordNeeded path => "archive entry '" ++ path ++ "' requires a password"
  | .entryOutside path => "entry '" ++ path ++ "' exceeds archive bounds"
  | .unsupportedMethod path method =>
    "entry '" ++ path ++ s!"' uses unsupported compression method Unsupported({method})"
  | .endedBefore uri reached target =>
    "archive entry " ++ uri.render ++ s!" ended at {reached} while seeking to {target}"

/-- Why a configuration is refused. -/
inductive SettingsFault where
  /-- The text is no configuration, by what is found at a line and column. -/
  | unreadable (complaint : Json.Complaint) (line column : Nat)
  /-- Copies need a buffer. -/
  | noCopyBuffer
  /-- Checksums need a buffer. -/
  | noChecksumBuffer
  /-- The platform has no name. -/
  | noPlatform
  /-- An assign has a name that cannot be used. -/
  | badAssignName (name : String)
  deriving DecidableEq, Repr

/-- The wording of a fault in a configuration. -/
def SettingsFault.message : SettingsFault → String
  | .unreadable complaint line column =>
    complaint.label ++ s!" at line {line} column {column}"
  | .noCopyBuffer => "copy_buffer_size must be non-zero"
  | .noChecksumBuffer => "crc_buffer_size must be non-zero"
  | .noPlatform => "platform_name must not be empty"
  | .badAssignName name => "invalid assign name '" ++ name ++ "'"

/-- Why an archive could not be opened. -/
inductive ArchiveFault where
  /-- The operating system refused. -/
  | system (fault : SystemFault)
  /-- The file is no zip container. -/
  | malformed
  deriving DecidableEq, Repr

/-- The wording of the reason; that of a malformed container is left open. -/
def ArchiveFault.message : ArchiveFault → String
  | .system fault => fault.message
  | .malformed => "Zip error"

/-- A failure of the archive file system or of its streams. -/
inductive Error where
  /-- Bytes could not be moved. -/
  | transfer (fault : TransferFault)
  /-- The disk refused an activity on a path. -/
  | disk (action : Action) (path : String) (fault : SystemFault)
  /-- A location makes no sense. -/
  | invalidUri (fault : UriFault)
  /-- No kind of stream belongs to the scheme. -/
  | unknownScheme (scheme : String)
  /-- The scheme has a kind of stream already. -/
  | schemeTaken (scheme : String)
  /-- No assign has the name. -/
  | unknownAssign (name : String)
  /-- Expansion did not end within its limit. -/
  | cyclicAssign (path : String) (depth : Nat)
  /-- An archive could not be opened. -/
  | badArchive (uri : Uri) (fault : ArchiveFault)
  /-- The archive is mounted already. -/
  | alreadyMounted (uri : Uri)
  /-- The archive is not mounted. -/
  | notMounted (uri : Uri)
  /-- The standard archives are mounted already. -/
  | standardArchivesMounted
  /-- The standard archives are not mounted. -/
  | standardArchivesNotMounted
  /-- There is no such file or entry. -/
  | notFound (uri : Uri)
  /-- The stream is closed. -/
  | notOpen (uri : Uri)
  /-- The stream is open already. -/
  | alreadyOpen (uri : Uri)
  /-- The access mode does not permit the activity. -/
  | unsupportedAccess (uri : Uri) (mode : AccessMode) (action : Action)
  /-- The stream moves forward only. -/
  | backwardSeek (uri : Uri) (position target : Nat)
  /-- The target of a seek lies outside the stream. -/
  | seekOutOfRange (target : Int) (size : Nat)
  /-- Fewer bytes are left than were asked for. -/
  | outOfBounds (requested available : Nat)
  /-- The stream has no mapped view. -/
  | notMappable (uri : Uri)
  /-- The string does not fit its length field. -/
  | stringTooLong (size : Nat)
  /-- Data are not what they should be. -/
  | invalidData (fault : DataFault)
  /-- The configuration is refused. -/
  | settings (fault : SettingsFault)
  /-- The container could not be used. -/
  | container (fault : Zip.Fault)
  deriving DecidableEq, Repr

namespace Error

/-- The wording of an error. -/
def message : Error → String
  | transfer fault => "I/O error: " ++ fault.message
  | disk action path fault => action.label ++ " failed for " ++ path ++ ": " ++ fault.message
  | invalidUri fault => "Invalid URI: " ++ fault.message
  | unknownScheme scheme => "No stream class registered for URI scheme '" ++ scheme ++ "'"
  | schemeTaken scheme => "URI scheme '" ++ scheme ++ "' is already registered"
  | unknownAssign name => "Assign not found: " ++ name
  | cyclicAssign path depth =>
    "Cyclic assign while resolving '" ++ path ++ s!"' (gave up after {depth} substitutions)"
  | badArchive uri fault => "Failed to open archive " ++ uri.render ++ ": " ++ fault.message
  | alreadyMounted uri => "Archive already mounted: " ++ uri.render
  | notMounted uri => "Archive not mounted: " ++ uri.render
  | standardArchivesMounted => "Standard archives are already mounted"
  | standardArchivesNotMounted => "Standard archives are not mounted"
  | notFound uri => "Not found: " ++ uri.render
  | notOpen uri => "Stream is not open: " ++ uri.render
  | alreadyOpen uri => "Stream is already open: " ++ uri.render
  | unsupportedAccess uri mode action =>
    "Access mode " ++ mode.label ++ " does not permit " ++ action.label ++ " on " ++ uri.render
  | backwardSeek uri position target =>
    "Stream " ++ uri.render
      ++ s!" only seeks forward (position {position}, requested {target})"
  | seekOutOfRange target size => s!"Seek out of range: target {target}, size {size}"
  | outOfBounds requested available =>
    s!"Read out of bounds: requested {requested} bytes, {available} available"
  | notMappable uri => "Stream cannot be mapped: " ++ uri.render
  | stringTooLong size => s!"String too long for binary encoding: {size} bytes"
  | invalidData fault => "Invalid data: " ++ fault.message
  | settings fault => "Configuration error: " ++ fault.message
  | container fault => "Zip error: " ++ fault.message

/-- The wordings of the causes beneath an error, the nearest first. -/
def causes : Error → List String
  | transfer fault => [fault.message]
  | disk _ _ fault => [fault.message]
  | container fault => fault.message :: fault.causes
  | _ => []

end Error

end ArchiveVfs
