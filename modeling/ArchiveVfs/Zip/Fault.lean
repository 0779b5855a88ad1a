/-!
# Faults of containers

What keeps a zip container or one of its entries from being used. A read behind
the end of the data has a cause of its own beneath it.
-/

namespace ArchiveVfs.Zip

/-- Why the directory of a container, or the data of an entry, cannot be found. -/
inductive LayoutFault where
  /-- There is no end record. -/
  | noEnd
  /-- The comment of the end record passes the end of the data. -/
  | commentCut
  /-- The directory should be at the end record or behind it. -/
  | directoryBehindEnd
  /-- No record of a directory stands before the end record. -/
  | noDirectory
  /-- The large end record should be at its locator or behind it. -/
  | locatorAhead
  /-- The container is spread over volumes. -/
  | severalVolumes
  /-- The large end record is shorter than it has to be. -/
  | largeEndShort
  /-- The large end record passes its locator. -/
  | largeEndLong
  /-- The large end record is on another volume than its locator says. -/
  | largeEndElsewhere
  /-- The large end record does not reach up to its locator. -/
  | largeEndApart
  /-- The large end record tells of more records than there is room for. -/
  | tooManyRecords
  /-- There is no large end record where its locator says. -/
  | noLargeEnd
  /-- There is no local header where a record says. -/
  | noLocalHeader
  deriving DecidableEq, Repr

/-- The wording of a fault of the layout. -/
def LayoutFault.message : LayoutFault → String
  | .noEnd => "Could not find EOCD"
  | .commentCut => "EOCD comment exceeds file boundary"
  | .directoryBehindEnd => "Invalid CDFH offset in EOCD"
  | .noDirectory => "No CDFH found"
  | .locatorAhead => "Invalid EOCD64 Locator CD offset"
  | .severalVolumes => "Multi-disk ZIP files are not supported"
  | .largeEndShort => "Low EOCD64 record size"
  | .largeEndLong => "EOCD64 extends beyond EOCD64 locator"
  | .largeEndElsewhere => "Invalid EOCD64: inconsistency with Locator data"
  | .largeEndApart => "Invalid EOCD64: inconsistent length"
  | .tooManyRecords => "Invalid EOCD64: inconsistent number of files"
  | .noLargeEnd => "Could not find EOCD64"
  | .noLocalHeader => "Invalid local file header"

/-- Why a container could not be used. -/
inductive Fault where
  /-- The bytes are no zip container. -/
  | malformed (fault : LayoutFault)
  /-- The data end within a header. -/
  | cut
  /-- The password does not open the entry. -/
  | wrongPassword
  /-- No record has this very name. -/
  | entryMissing
  /-- The entry is packed by an unknown method. -/
  | unsupportedMethod
  /-- The entry is encrypted in the strong way. -/
  | strongEncryption
  deriving DecidableEq, Repr

/-- The wording of a fault. -/
def Fault.message : Fault → String
  | .malformed fault => "invalid Zip archive: " ++ fault.message
  | .cut => "i/o error"
  | .wrongPassword => "provided password is incorrect"
  | .entryMissing => "specified file not found in archive"
  | .unsupportedMethod => "unsupported Zip archive: Compression method not supported"
  | .strongEncryption =>
    "unsupported Zip archive: AES encrypted files cannot be decrypted without the "
      ++ "aes-crypto feature."

/-- The wordings of the causes beneath a fault. -/
def Fault.causes : Fault → List String
  | .cut => ["failed to fill whole buffer"]
  | _ => []

end ArchiveVfs.Zip
