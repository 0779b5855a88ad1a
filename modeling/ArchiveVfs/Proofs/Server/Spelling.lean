import ArchiveVfs.Proofs.Archive.InnerPath
import ArchiveVfs.Proofs.Server.Sealed

/-!
# Spellings of a path and what archives hide

A place has many spellings, and each archive leads from all that it takes for its own to the
same path inside it. Two spellings are therefore answered alike where the same archives take
both for their own (`spelling_agreement`). An archive takes a spelling for its own by the text in
front alone: a doubled slash within the mount point is enough to get past it, and then the
disk is asked, and changed, at a place that the archive hides (`spelling_doubled_slash`).
-/

namespace ArchiveVfs

open LocalPath

/-! ## Look-ups -/

namespace Mounts

variable {mounts : Mounts} {uri other : Uri}

/-- Look-ups of paths that lead to the same places inside all archives find the same. -/
theorem findWith_congr (has : Archive → String → Bool) (hfile : uri.isFile = true)
    (hfile' : other.isFile = true)
    (hinner : ∀ archive ∈ mounts.archives,
      archive.innerPath uri.localPath = archive.innerPath other.localPath) :
    mounts.findWith has uri = mounts.findWith has other := by
  rw [findWith, findWith, if_pos hfile, if_pos hfile']
  generalize mounts.archives = archives at hinner
  induction archives with
  | nil => rfl
  | cons archive archives ih =>
    rw [List.findSome?_cons, List.findSome?_cons, hinner archive List.mem_cons_self,
      ih fun later hlater => hinner later (List.mem_cons_of_mem _ hlater)]

/-- What is found by one path is found by another one that leads inside all archives that the
first leads inside, and to the same places; perhaps in an archive in front of it. -/
theorem findWith_mono (has : Archive → String → Bool) (hfile' : other.isFile = true)
    (hinner : ∀ archive ∈ mounts.archives, ∀ inner,
      archive.innerPath uri.localPath = some inner →
        archive.innerPath other.localPath = some inner)
    (hfound : (mounts.findWith has uri).isSome = true) :
    (mounts.findWith has other).isSome = true := by
  obtain ⟨_, archive, hin, inner, hpath, hhas⟩ := findWith_isSome.1 hfound
  exact findWith_isSome.2 ⟨hfile', archive, hin, inner, hinner archive hin inner hpath, hhas⟩

end Mounts

namespace Server

variable {server : Server} {path : String} {uri : Uri}

/-! ## Answers -/

/-- How far mounted archives stand before the disk at a path: whether they hide its file, and
whether they keep it from being changed. -/
structure Shadowed (server : Server) (path : String) (uri : Uri) (hidden locked : Bool) :
    Prop where
  fileExists : ∀ disk,
    server.fileExists disk path = (hidden || disk.fileExists uri.nativePath)
  isReadOnly : ∀ disk,
    server.isReadOnly disk path = (locked || disk.isReadOnly uri.nativePath)
  writablePath : ∀ action, server.writablePath path action
    = if locked then .error (sealedRefusal uri action) else .ok uri.nativePath

/-- The look-ups of a path say how it is shadowed. -/
theorem shadowed (hresolve : server.resolve path = .ok uri) (hfile : uri.isFile = true) :
    server.Shadowed path uri (server.fileArchive? uri).isSome (server.archivesHold uri) := by
  have hscheme : uri.scheme = Uri.fileScheme := of_decide_eq_true hfile
  have hsealed : server.isSealed uri = server.archivesHold uri := by
    have hentry : uri.isEntry = false := by
      rw [Uri.isEntry, hscheme]
      decide
    rw [isSealed, hentry, Bool.false_or]
  refine ⟨?_, ?_, ?_⟩
  · intro disk
    simp only [fileExists, hresolve, fileAt, hfile, if_true]
    cases (server.fileArchive? uri).isSome <;> rfl
  · intro disk
    simp only [isReadOnly, hresolve, hsealed, hfile, Bool.true_and]
  · intro action
    cases hholds : server.archivesHold uri with
    | true => rw [writablePath_sealed hresolve (hsealed.trans hholds), if_pos rfl]
    | false =>
      rw [writablePath_unsealed hresolve (hsealed.trans hholds), nativePath, if_pos hfile]
      rfl

/-- The archives of a run have no slash at the end of their mount points. -/
theorem isTrimmed_of_run {settings : Settings} {environment : Environment}
    {equipment : Equipment} {first : Server}
    (hbuild : build settings environment equipment = .ok first) (moments : List Moment)
    {archive : Archive} (hin : archive ∈ (first.run moments).mounts.archives) :
    archive.IsTrimmed := by
  obtain ⟨_, _, _, hload⟩ := load_of_mem hbuild moments hin
  exact Archive.isTrimmed_of_load hload

/-- Two paths that lead along the same names, after any run. No archive takes them for two
different places inside it, and it takes them for one place exactly if the text of both, or of
neither, goes on behind its mount point. Where this holds of all mounted archives, both paths
find the same archives with the same places inside them, and are shadowed alike. Where all
mount points are in their plain spelling, a path in its plain spelling finds a file or a directory
if any other spelling does. -/
theorem spelling_agreement {settings : Settings} {environment : Environment}
    {equipment : Equipment} {first : Server}
    (hbuild : build settings environment equipment = .ok first) (moments : List Moment)
    {path other : String} {uri place : Uri}
    (hresolve : (first.run moments).resolve path = .ok uri)
    (hresolve' : (first.run moments).resolve other = .ok place)
    (hfile : uri.isFile = true) (hfile' : place.isFile = true)
    (hnames : names uri.localPath.toList = names place.localPath.toList) :
    (∀ archive ∈ (first.run moments).mounts.archives,
      (∀ inner inner', archive.innerPath uri.localPath = some inner →
        archive.innerPath place.localPath = some inner' → inner = inner') ∧
      (archive.innerPath uri.localPath = archive.innerPath place.localPath ↔
        (archive.Below uri.localPath ↔ archive.Below place.localPath))) ∧
    ((∀ archive ∈ (first.run moments).mounts.archives,
        archive.Below uri.localPath ↔ archive.Below place.localPath) →
      (first.run moments).mounts.findWithFile uri
        = (first.run moments).mounts.findWithFile place ∧
      (first.run moments).mounts.findWithDirectory uri
        = (first.run moments).mounts.findWithDirectory place ∧
      ∃ hidden locked, (first.run moments).Shadowed path uri hidden locked ∧
        (first.run moments).Shadowed other place hidden locked) ∧
    ((∀ archive ∈ (first.run moments).mounts.archives, IsPlain archive.mountPoint.toList) →
      IsPlain uri.localPath.toList →
      (((first.run moments).mounts.findWithFile place).isSome = true →
        ((first.run moments).mounts.findWithFile uri).isSome = true) ∧
      (((first.run moments).mounts.findWithDirectory place).isSome = true →
        ((first.run moments).mounts.findWithDirectory uri).isSome = true)) := by
  have htrimmed : ∀ archive ∈ (first.run moments).mounts.archives, archive.IsTrimmed :=
    fun _ hin => isTrimmed_of_run hbuild moments hin
  have hiff := fun archive hin => Archive.innerPath_eq_iff (htrimmed archive hin) hnames
  refine ⟨?_, ?_, ?_⟩
  · intro archive hin
    exact ⟨fun inner inner' h h' => Archive.innerPath_unique hnames h h', hiff archive hin⟩
  · intro hbelow
    have hinner := fun archive hin => (hiff archive hin).2 (hbelow archive hin)
    have hsameFile : (first.run moments).mounts.findWithFile uri
        = (first.run moments).mounts.findWithFile place :=
      Mounts.findWith_congr _ hfile hfile' hinner
    have hsameDir : (first.run moments).mounts.findWithDirectory uri
        = (first.run moments).mounts.findWithDirectory place :=
      Mounts.findWith_congr _ hfile hfile' hinner
    refine ⟨hsameFile, hsameDir, _, _, shadowed hresolve hfile, ?_⟩
    have hother := shadowed hresolve' hfile'
    rw [archivesHold, fileArchive?, directoryArchive?, ← hsameFile, ← hsameDir] at hother
    exact hother
  · intro hpoints hplain
    have hinner : ∀ archive ∈ (first.run moments).mounts.archives, ∀ inner,
        archive.innerPath place.localPath = some inner →
          archive.innerPath uri.localPath = some inner := fun archive hin inner h =>
      Archive.innerPath_of_plain (htrimmed archive hin) (hpoints archive hin) hplain hnames h
    exact ⟨Mounts.findWith_mono _ hfile hinner, Mounts.findWith_mono _ hfile hinner⟩

/-! ## A mount point below the root -/

/-- Mounts the small container below `/m`. -/
def mountingBelow : Moment where
  disk := smallDisk smallContainer
  call := .mountArchiveAt "/t.zip" "/m"

/-- The small container, below `/m`. -/
def lowerArchive : Archive :=
  { smallArchive with mountPoint := "/m" }

theorem run_mountingBelow : smallServer.run [mountingBelow]
    = { smallServer with mounts := { archives := [lowerArchive] } } := by
  have huri : smallServer.resolveArchive "/t.zip" = .ok (rootFile "/t.zip") := by decide
  have hpoint : smallServer.resolve "/m" = .ok (rootFile "/m") := by decide
  have hload : Archive.load mountingBelow.disk true (rootFile "/t.zip") (rootFile "/m")
      = .ok lowerArchive := by
    have htext : String.ofList (Text.dropTrailing '/' (rootFile "/m").localPath.toList) = "/m" := by
      decide
    rw [lowerArchive, ← htext]
    exact load_smallContainer (by decide) (rootFile "/m")
  apply run_of_attempt
  show (smallServer.resolveArchive "/t.zip" >>= fun uri =>
    smallServer.resolve "/m" >>= fun point => smallServer.mountUri mountingBelow.disk uri point) = _
  rw [huri, Outcome.ok_bind, hpoint, Outcome.ok_bind]
  exact mountUri_smallServer hload

theorem resolve_mountingBelow :
    (smallServer.run [mountingBelow]).resolve "/m/k" = .ok (rootFile "/m/k") ∧
    (smallServer.run [mountingBelow]).resolve "file:///m//./k/" = .ok (rootFile "/m//./k/") ∧
    (smallServer.run [mountingBelow]).resolve "file:////m/k" = .ok (rootFile "//m/k") := by
  rw [run_mountingBelow]
  exact ⟨by decide, by decide +kernel, by decide +kernel⟩

theorem findWithFile_mountingBelow :
    (smallServer.run [mountingBelow]).mounts.findWithFile (rootFile "/m/k")
      = some (lowerArchive, "k") := by
  rw [run_mountingBelow]
  exact Mounts.findWith_first rfl rfl (by decide) (by decide)

/-- What stands behind the mount point may be spelled in any way, and the plain spelling finds
what another one does. -/
theorem spelling_agreement_below :
    (smallServer.run [mountingBelow]).mounts.findWithFile (rootFile "/m//./k/")
      = some (lowerArchive, "k") ∧
    ((smallServer.run [mountingBelow]).mounts.findWithFile (rootFile "/m/k")).isSome = true ∧
    ∃ hidden locked,
      (smallServer.run [mountingBelow]).Shadowed "/m/k" (rootFile "/m/k") hidden locked ∧
      (smallServer.run [mountingBelow]).Shadowed "file:///m//./k/" (rootFile "/m//./k/")
        hidden locked := by
  have hbuild : build {} smallServer.environment { standardAssigns := false } = .ok smallServer :=
    rfl
  have honly : ∀ archive ∈ (smallServer.run [mountingBelow]).mounts.archives,
      archive = lowerArchive := by
    intro archive hin
    rw [run_mountingBelow] at hin
    exact List.mem_singleton.1 hin
  have hbelow : ∀ archive ∈ (smallServer.run [mountingBelow]).mounts.archives,
      archive.Below "/m/k" ↔ archive.Below "/m//./k/" := by
    intro archive hin
    rw [honly archive hin]
    exact ⟨fun _ => ⟨"//./k/".toList, by decide, .inr (by decide)⟩,
      fun _ => ⟨"/k".toList, by decide, .inr (by decide)⟩⟩
  have hpoints : ∀ archive ∈ (smallServer.run [mountingBelow]).mounts.archives,
      IsPlain archive.mountPoint.toList := by
    intro archive hin
    rw [honly archive hin]
    decide
  obtain ⟨_, hagree, hplain⟩ := spelling_agreement hbuild [mountingBelow] resolve_mountingBelow.1
    resolve_mountingBelow.2.1 rfl rfl (by decide)
  obtain ⟨hfile, _, hshadowed⟩ := hagree hbelow
  have hfound := hfile.symm.trans findWithFile_mountingBelow
  refine ⟨hfound, (hplain hpoints (by decide)).1 ?_, hshadowed⟩
  rw [hfound]
  rfl

/-- A doubled slash within the mount point leads to the same place of any disk, but past the
archive: what it hides and seals is deleted from the disk. -/
theorem spelling_doubled_slash :
    build {} smallServer.environment { standardAssigns := false } = .ok smallServer ∧
    (smallServer.run [mountingBelow]).resolve "/m/k" = .ok (rootFile "/m/k") ∧
    (smallServer.run [mountingBelow]).resolve "file:////m/k" = .ok (rootFile "//m/k") ∧
    names (rootFile "/m/k").localPath.toList = names (rootFile "//m/k").localPath.toList ∧
    Disk.Route.ofPath "/m/k" = Disk.Route.ofPath "//m/k" ∧
    (smallServer.run [mountingBelow]).mounts.findWithFile (rootFile "/m/k")
      = some (lowerArchive, "k") ∧
    (smallServer.run [mountingBelow]).mounts.findWithFile (rootFile "//m/k") = none ∧
    ∀ disk,
      (smallServer.run [mountingBelow]).isReadOnly disk "/m/k" = true ∧
      (smallServer.run [mountingBelow]).isReadOnly disk "file:////m/k" = disk.isReadOnly "//m/k" ∧
      (smallServer.run [mountingBelow]).deleteFile disk "/m/k"
        = .error (sealedRefusal (rootFile "/m/k") .deleteFile) ∧
      (smallServer.run [mountingBelow]).deleteFile disk "file:////m/k"
        = disk.deleteFile "//m/k" := by
  have henabled : (smallServer.run [mountingBelow]).archivesEnabled = true := by
    rw [run_mountingBelow]
    rfl
  have hmissed : lowerArchive.innerPath "//m/k" = none := by decide
  have hnone (has : Archive → String → Bool) :
      (smallServer.run [mountingBelow]).mounts.findWith has (rootFile "//m/k") = none := by
    rw [run_mountingBelow]
    simp [Mounts.findWith, rootFile, hmissed]
  have hheld : (smallServer.run [mountingBelow]).archivesHold (rootFile "/m/k") = true := by
    rw [archivesHold, fileArchive?, if_pos henabled, findWithFile_mountingBelow]
    rfl
  have hfree : (smallServer.run [mountingBelow]).archivesHold (rootFile "//m/k") = false := by
    rw [archivesHold, fileArchive?, directoryArchive?, if_pos henabled, if_pos henabled,
      Mounts.findWithFile, Mounts.findWithDirectory, hnone, hnone]
    rfl
  have hsealed := shadowed resolve_mountingBelow.1 rfl
  have hopen := shadowed resolve_mountingBelow.2.2 rfl
  rw [hheld] at hsealed
  rw [hfree] at hopen
  have hnative : (rootFile "//m/k").nativePath = "//m/k" := by decide
  refine ⟨rfl, resolve_mountingBelow.1, resolve_mountingBelow.2.2, by decide, by decide,
    findWithFile_mountingBelow, hnone _, ?_⟩
  intro disk
  refine ⟨hsealed.isReadOnly disk, ?_, ?_, ?_⟩
  · rw [hopen.isReadOnly, hnative]
    rfl
  · rw [deleteFile, hsealed.writablePath]
    rfl
  · rw [deleteFile, hopen.writablePath, hnative]
    rfl

end Server

end ArchiveVfs
