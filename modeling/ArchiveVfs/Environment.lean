/-!
# The surroundings of a run

Places that a run is given from outside: where relative paths begin, where
temporary files go, and the directories of the user and of the program.
-/

namespace ArchiveVfs

/-- The places that a run is given, as native paths. -/
structure Environment where
  /-- The directory that relative paths are taken in. -/
  currentDirectory : String
  /-- The directory for temporary files. -/
  temporaryDirectory : String
  /-- The directory of the user's documents, if there is one. -/
  userDirectory : Option String
  /-- The directory of the running program, if it is known. -/
  programDirectory : Option String
  deriving DecidableEq, Repr, Inhabited

/-- The places on a machine that tells nothing of a user or of the program. -/
def Environment.bare : Environment where
  currentDirectory := "/"
  temporaryDirectory := "/tmp"
  userDirectory := none
  programDirectory := none

end ArchiveVfs
