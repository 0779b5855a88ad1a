import ArchiveVfs.Proofs.Server.Copying

/-!
# Copies without a source file

A copy that fails because there is no source file leaves the disk as it was, but for the mark of
a read-only target: it is cleared before the source is looked at, and stays cleared
(`copy_missing_source`). A directory is no file either, but can be opened to be read, so the target
is emptied before the first read finds that there is nothing to read
(`copy_missing_source_unlocks`).
-/

namespace ArchiveVfs.Server

open FileStream (reading)

variable {server : Server} {disk later : Disk} {path : String} {source : Uri}

/-- Where there is no file, opening a source to read it fails, or opens a directory or a device. -/
theorem Sound.openStream_missing (h : server.Sound)
    (hfileKind : server.schemes.kindOf Uri.fileScheme = .ok .file)
    (hentryKind : server.schemes.kindOf Uri.archiveScheme = .ok .entry)
    (hresolve : server.resolve path = .ok source)
    (hscheme : source.isFile = true ∨ source.isEntry = true)
    (hmissing : server.fileAt disk source = false) :
    (∃ error, server.openStream disk source .read true = .error error) ∨
    ∃ node, source.isFile = true ∧ disk.locate source.nativePath = .ok node ∧
      disk.isFile node = false ∧
      server.openStream disk source .read true
        = .ok (.file (reading disk source node 0), disk) := by
  rcases hscheme with hfile | hentry
  · have hnone : server.fileArchive? source = none := by
      cases hfound : server.fileArchive? source with
      | none => rfl
      | some found =>
        rw [fileAt, hfound] at hmissing
        cases hmissing
    have hopen : server.openStream disk source .read true = _ :=
      openStream_of_file (streamFor_unhidden hfileKind hfile hnone)
    have hexists : disk.fileExists source.nativePath = false := by
      rw [fileAt, hnone, if_pos hfile] at hmissing
      exact hmissing
    rw [Disk.openToRead] at hopen
    rw [Disk.fileExists] at hexists
    cases hlocate : disk.locate source.nativePath with
    | error fault =>
      rw [hlocate] at hopen
      exact .inl ⟨_, hopen⟩
    | ok node =>
      rw [hlocate] at hopen hexists
      exact .inr ⟨node, hfile, rfl, hexists, hopen⟩
  · have hprobe := (h.probe_isEntry hentryKind disk hresolve hentry).1
    rw [fileExists_eq hresolve, openPath_eq hresolve] at hprobe
    exact .inl (hprobe hmissing)

/-- Whether the source is a directory of the disk. -/
def isDirectoryAt (disk : Disk) (source : Uri) : Bool :=
  source.isFile && disk.directoryExists source.nativePath

/-- What has no size is at its end before anything moves, so moving that fails is from a
directory. -/
theorem isDirectory_of_copyRounds {node : NodeId} {writer : Stream} {opened : Disk} {chunk : Nat}
    {error : Error} (hnode : disk.isFile node = false)
    (hrounds : copyRounds chunk (disk.size node + 1)
      { source := .file (reading disk source node 0), target := writer, disk := opened }
        = (.error error, later)) : disk.isDirectory node = true := by
  cases hdir : disk.isDirectory node with
  | true => rfl
  | false =>
    have hend : (Stream.file (reading disk source node 0)).atEnd = true :=
      decide_eq_true (Nat.le_of_eq (Disk.size_of_device hnode hdir))
    rw [copyRounds_atEnd _ _ hend] at hrounds
    cases hrounds

/-- What a failed copy leaves where there is neither a source file nor a directory: the disk with
its target unlocked. -/
theorem Sound.copyTo_missing (h : server.Sound)
    (hfileKind : server.schemes.kindOf Uri.fileScheme = .ok .file)
    (hentryKind : server.schemes.kindOf Uri.archiveScheme = .ok .entry) {target : Uri}
    {error : Error} (hresolve : server.resolve path = .ok source)
    (hscheme : source.isFile = true ∨ source.isEntry = true)
    (hmissing : server.fileAt disk source = false) (hnodir : isDirectoryAt disk source = false)
    (hcopy : server.copyTo disk source target = (.error error, later)) :
    Unlocks disk target later := by
  have hcourse := server.copyTo_course disk source target
  rw [hcopy] at hcourse
  generalize houtcome : ((.error error, later) : Except Error Unit × Disk) = outcome at hcourse
  cases hcourse with
  | noSource hunlocked =>
    obtain rfl := congrArg Prod.snd houtcome
    exact hunlocked
  | noTarget hunlocked =>
    obtain rfl := congrArg Prod.snd houtcome
    exact hunlocked
  | @moves unlocked opened reader writer hunlocked hsource htarget =>
    have hthere := hunlocked.alike
    rw [← fileAt_alike hthere] at hmissing
    rcases h.openStream_missing hfileKind hentryKind hresolve hscheme hmissing with
      ⟨_, hfails⟩ | ⟨node, hfile, hlocate, hnode, hopen⟩
    · rw [hfails] at hsource
      cases hsource
    · rw [hopen] at hsource
      obtain ⟨rfl, _⟩ := Prod.mk.inj (Except.ok.inj hsource)
      have hdir := isDirectory_of_copyRounds hnode houtcome.symm
      rw [isDirectoryAt, hfile, ← hthere.directoryExists, Disk.directoryExists, hlocate] at hnodir
      exact absurd (hnodir.symm.trans hdir) Bool.false_ne_true

/-- At every point of a history, a copy that fails where there is neither a source file nor a
directory leaves the disk as it was; but of a target that is a file and marked read-only, the mark
is cleared. -/
theorem copy_missing_source {settings : Settings} {environment : Environment}
    {equipment : Equipment} {first : Server}
    (hbuild : build settings environment equipment = .ok first) (events : List Event)
    (hfileKind : (first.afterAll events).schemes.kindOf Uri.fileScheme = .ok .file)
    (hentryKind : (first.afterAll events).schemes.kindOf Uri.archiveScheme = .ok .entry)
    {disk later : Disk} {sourcePath targetPath : String} {source : Uri} {error : Error}
    (hsource : (first.afterAll events).resolve sourcePath = .ok source)
    (hscheme : source.isFile = true ∨ source.isEntry = true)
    (hmissing : (first.afterAll events).fileExists disk sourcePath = false)
    (hnodir : isDirectoryAt disk source = false)
    (hcopy : (first.afterAll events).copyFile disk sourcePath targetPath = (.error error, later)) :
    ((∀ target, (first.afterAll events).resolve targetPath = .ok target →
        isLocked disk target = false) → later = disk) ∧
    ∀ target node, (first.afterAll events).resolve targetPath = .ok target →
      isLocked disk target = true → disk.locate target.nativePath = .ok node →
      later = disk.unmark node := by
  have hsound : (first.afterAll events).Sound := (sound_of_build hbuild).afterAll events
  generalize first.afterAll events = server at *
  rw [fileExists_eq hsource] at hmissing
  cases htarget : server.resolve targetPath with
  | error fault =>
    rw [copyFile, hsource, htarget] at hcopy
    obtain rfl : disk = later := congrArg Prod.snd hcopy
    refine ⟨fun _ => rfl, fun target node hresolve => ?_⟩
    cases hresolve
  | ok target =>
    rw [copyFile_eq hsource htarget] at hcopy
    have hunlocked : Unlocks disk target later :=
      hsound.copyTo_missing hfileKind hentryKind hsource hscheme hmissing hnodir hcopy
    constructor
    · intro hfree
      cases hunlocked with
      | free => rfl
      | locked hlocked =>
        rw [hfree target rfl] at hlocked
        cases hlocked
    · rintro _ node htarget' hlocked hlocate
      obtain rfl := Except.ok.inj htarget'
      cases hunlocked with
      | free hfree =>
        rw [hlocked] at hfree
        cases hfree
      | locked _ hsame =>
        obtain rfl := Except.ok.inj (hsame.symm.trans hlocate)
        rfl

/-! ## Copies onto one file -/

/-- A disk with one file, `/t.zip`. -/
def oneFileDisk (data : Bytes) (readOnly : Bool) : Disk where
  nodes := #[{ content := .directory (Table.empty.insert "t.zip" 1) Disk.root },
    { content := .file data, readOnly }]

theorem locate_oneFileDisk (data : Bytes) (readOnly : Bool) :
    (oneFileDisk data readOnly).locate "/t.zip" = .ok 1 ∧
    (oneFileDisk data readOnly).locate "/k" = .error .notFound ∧
    (oneFileDisk data readOnly).findToCreate "/k" = .ok (.vacancy Disk.root "k") := by
  have hthere : Disk.Route.ofPath "/t.zip"
      = .ok { fromRoot := true, names := ["t.zip"], slashed := false } := by decide
  have hname : (Table.empty.insert "t.zip" 1).get? "t.zip" = some 1 := by decide
  have hmissing : Disk.Route.ofPath "/k"
      = .ok { fromRoot := true, names := ["k"], slashed := false } := by decide
  have hnone : (Table.empty.insert "t.zip" 1).get? "k" = none := by decide
  exact ⟨Disk.locate_name hthere rfl (by decide) hname rfl (by nofun),
    Disk.locate_vacant hmissing rfl (by decide) hnone,
    Disk.findToCreate_vacant hmissing rfl (by decide) hnone⟩

theorem locate_root (disk : Disk) (hroot : disk.isDirectory Disk.root = true) :
    disk.locate "/" = .ok Disk.root := by
  have hroute : Disk.Route.ofPath "/" = .ok { fromRoot := true, names := [], slashed := true } := by
    decide
  obtain ⟨entries, parent, hcontent⟩ := Disk.isDirectory_iff.1 hroot
  have hwalk : disk.walk .follow Disk.maxLinks Disk.root ["."] = .ok (.node Disk.root) := by
    rw [Disk.walk, hcontent]
    simp only [if_true]
    rw [Disk.walk]
  rw [Disk.locate, Disk.find, hroute]
  exact congrArg (fun found => found >>= _) hwalk

section Small

variable {disk : Disk}

theorem resolve_smallServer (path : String) (habsolute : path ∈ ["/", "/k", "/t.zip"]) :
    smallServer.resolve path = .ok (rootFile path) ∧ (rootFile path).nativePath = path := by
  simp only [List.mem_cons, List.not_mem_nil, or_false] at habsolute
  rcases habsolute with rfl | rfl | rfl <;> exact ⟨by decide, by decide⟩

/-- What the small server finds when it opens a path of the disk. -/
theorem openStream_smallServer (path : String) :
    smallServer.openStream disk (rootFile path) .read true
      = (disk.openToRead (rootFile path)).map fun node =>
        (.file (reading disk (rootFile path) node 0), disk) :=
  openStream_of_file (streamFor_unhidden (by decide) rfl rfl)

/-- A copy of what is not there. -/
theorem copyFile_missing {unlocked : Disk}
    (hunlock : unlockTarget disk (rootFile "/t.zip") = .ok unlocked)
    (hmissing : unlocked.locate "/k" = .error .notFound) :
    smallServer.copyFile disk "/k" "/t.zip" = (.error (.notFound (rootFile "/k")), unlocked) := by
  have hsource := resolve_smallServer "/k" (by decide)
  have htarget := resolve_smallServer "/t.zip" (by decide)
  rw [copyFile_eq hsource.1 htarget.1, copyTo, hunlock]
  simp only [openStream_smallServer "/k", Disk.openToRead, hsource.2, hmissing]
  rfl

/-- A copy of the root directory. -/
theorem copyFile_root {unlocked opened : Disk} {node : NodeId}
    (hunlock : unlockTarget disk (rootFile "/t.zip") = .ok unlocked)
    (hroot : unlocked.isDirectory Disk.root = true)
    (hopen : unlocked.openNode .write "/t.zip" = .ok (node, opened))
    (hstill : opened.isDirectory Disk.root = true) :
    smallServer.copyFile disk "/" "/t.zip"
      = (.error (.transfer (.system .isDirectory)), opened) := by
  have hsource := resolve_smallServer "/" (by decide)
  have htarget := resolve_smallServer "/t.zip" (by decide)
  have hwriter : smallServer.openStream unlocked (rootFile "/t.zip") .write false
      = .ok (.file (.writing (rootFile "/t.zip") node 0), opened) :=
    openStream_write (by decide) (by rw [htarget.2, hopen])
  rw [copyFile_eq hsource.1 htarget.1, copyTo, hunlock]
  simp only [openStream_smallServer "/", Disk.openToRead, hsource.2, locate_root _ hroot]
  simp only [Outcome.mapError_ok, Except.map, hwriter]
  exact copyRounds_directory (by decide) hroot hstill

end Small

/-- The copy of a file that is not there fails, and leaves a target that may be written as it
was. -/
theorem copy_missing_source_small :
    smallServer.fileExists (oneFileDisk [107] false) "/k" = false ∧
    ∃ later, smallServer.copyFile (oneFileDisk [107] false) "/k" "/t.zip"
        = (.error (.notFound (rootFile "/k")), later) ∧
      later = oneFileDisk [107] false := by
  have hsource := resolve_smallServer "/k" (by decide)
  have htarget := resolve_smallServer "/t.zip" (by decide)
  obtain ⟨hlocate, hvacant, _⟩ := locate_oneFileDisk [107] false
  have hbuild : build {} smallServer.environment { standardAssigns := false } = .ok smallServer :=
    rfl
  have hfree : isLocked (oneFileDisk [107] false) (rootFile "/t.zip") = false := by
    rw [isLocked, htarget.2, Disk.fileExists, Disk.isReadOnly, hlocate]
    rfl
  have hmissing : smallServer.fileExists (oneFileDisk [107] false) "/k" = false := by
    rw [fileExists_eq hsource.1]
    show (oneFileDisk [107] false).fileExists (rootFile "/k").nativePath = false
    rw [hsource.2, Disk.fileExists, hvacant]
  have hnodir : isDirectoryAt (oneFileDisk [107] false) (rootFile "/k") = false := by
    rw [isDirectoryAt, hsource.2, Disk.directoryExists, hvacant]
    rfl
  have hunlock : unlockTarget (oneFileDisk [107] false) (rootFile "/t.zip")
      = .ok (oneFileDisk [107] false) := if_neg (Bool.eq_false_iff.1 hfree)
  have hcopy := copyFile_missing hunlock hvacant
  have hleft := copy_missing_source hbuild [] (by decide +kernel) (by decide +kernel) hsource.1
    (.inl rfl) hmissing hnodir hcopy
  refine ⟨hmissing, _, hcopy, hleft.1 fun target hresolve => ?_⟩
  obtain rfl := Except.ok.inj (htarget.1.symm.trans hresolve)
  exact hfree

/-- A copy that fails may still change its target: from a file that is not there, it takes the
mark of a read-only target; from a directory, it takes the bytes too. -/
theorem copy_missing_source_unlocks :
    smallServer.fileExists (oneFileDisk [107] true) "/k" = false ∧
    smallServer.fileExists (oneFileDisk [107] true) "/" = false ∧
    (oneFileDisk [107] true).isMarked 1 = true ∧
    (oneFileDisk [107] true).content? 1 = some (.file [107]) ∧
    (∃ error later,
      smallServer.copyFile (oneFileDisk [107] true) "/k" "/t.zip" = (.error error, later) ∧
      later.isMarked 1 = false) ∧
    ∃ error later,
      smallServer.copyFile (oneFileDisk [107] true) "/" "/t.zip" = (.error error, later) ∧
      later.content? 1 = some (.file []) := by
  have hmissing := resolve_smallServer "/k" (by decide)
  have hdir := resolve_smallServer "/" (by decide)
  have htarget := resolve_smallServer "/t.zip" (by decide)
  obtain ⟨hlocate, hvacant, _⟩ := locate_oneFileDisk [107] true
  have hunlock : unlockTarget (oneFileDisk [107] true) (rootFile "/t.zip")
      = .ok ((oneFileDisk [107] true).unmark 1) := by
    rw [unlockTarget, htarget.2, Disk.fileExists, Disk.isReadOnly, hlocate]
    exact Disk.setReadOnly_of_locate hlocate
  have halike := Disk.alike_unmark (oneFileDisk [107] true) 1
  have hfile : ((oneFileDisk [107] true).unmark 1).HasFile "/t.zip" 1 [107] :=
    ⟨by rw [halike.locate, hlocate], rfl, rfl⟩
  refine ⟨?_, ?_, rfl, rfl, ⟨_, _, copyFile_missing hunlock (by rw [halike.locate, hvacant]), rfl⟩,
    ⟨_, _, copyFile_root hunlock rfl hfile.openNode_write rfl, rfl⟩⟩
  · rw [fileExists_eq hmissing.1]
    show (oneFileDisk [107] true).fileExists (rootFile "/k").nativePath = false
    rw [hmissing.2, Disk.fileExists, hvacant]
  · rw [fileExists_eq hdir.1]
    show (oneFileDisk [107] true).fileExists (rootFile "/").nativePath = false
    rw [hdir.2, Disk.fileExists, locate_root _ rfl]
    rfl

end ArchiveVfs.Server
