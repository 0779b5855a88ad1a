/-!
# Faults of the operating system

What keeps an operation on the disk from being done, with the system's number
and wording for each cause.
-/

namespace ArchiveVfs

/-- Why the operating system refused an operation. -/
inductive SystemFault where
  /-- Nothing has this name. -/
  | notFound
  /-- What would change is marked read-only. -/
  | denied
  /-- The root cannot be removed. -/
  | busy
  /-- Something has this name already. -/
  | exists
  /-- What was opened cannot be mapped. -/
  | noDevice
  /-- A directory was needed. -/
  | notDirectory
  /-- A directory cannot be used so. -/
  | isDirectory
  /-- The name cannot be used so. -/
  | invalid
  /-- There is no room for more bytes. -/
  | noSpace
  /-- A name or a whole path is too long. -/
  | nameTooLong
  /-- A directory with entries cannot be removed. -/
  | notEmpty
  /-- The path leads through too many links. -/
  | tooManyLinks
  /-- The path holds a NUL. -/
  | nulInPath
  /-- The contents are not UTF-8. -/
  | notUtf8
  deriving DecidableEq, Repr

/-- The wording of a fault. -/
def SystemFault.message : SystemFault → String
  | .notFound => "No such file or directory (os error 2)"
  | .denied => "Permission denied (os error 13)"
  | .busy => "Device or resource busy (os error 16)"
  | .exists => "File exists (os error 17)"
  | .noDevice => "No such device (os error 19)"
  | .notDirectory => "Not a directory (os error 20)"
  | .isDirectory => "Is a directory (os error 21)"
  | .invalid => "Invalid argument (os error 22)"
  | .noSpace => "No space left on device (os error 28)"
  | .nameTooLong => "File name too long (os error 36)"
  | .notEmpty => "Directory not empty (os error 39)"
  | .tooManyLinks => "Too many levels of symbolic links (os error 40)"
  | .nulInPath => "file name contained an unexpected NUL byte"
  | .notUtf8 => "stream did not contain valid UTF-8"

end ArchiveVfs
