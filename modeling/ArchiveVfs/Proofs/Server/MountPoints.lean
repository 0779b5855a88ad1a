import ArchiveVfs.Proofs.Archive.Listed
import ArchiveVfs.Proofs.Archive.NormalPath
import ArchiveVfs.Proofs.Server.Spelling

/-!
# Archives at the directories that hold them

An archive that has just been mounted is the first in the list, so no other one hides what it has.
Mounted at the directory that holds it, it shows all its files and directories behind the path of
that directory and a slash (`mountArchive_showsBelow`), also where the directory is the root and
the slash is doubled. The other three parts of `mountPoint_normalPath` are about archives alone and
have their theorems there: normal forms are normal and stay as they are (`isNormal_normal`,
`normal_normal`), they are made part by part (`normal_slash`), and local paths lead inside an
archive along them (`Archive.IsTrimmed.leadsInside`).
-/

namespace ArchiveVfs

open EntryPath LocalPath

namespace Mounts

variable {mounts : Mounts} {archive : Archive}

/-- All that the archive has is found below a directory. -/
structure ShowsBelow (mounts : Mounts) (archive : Archive) (directory : String) : Prop where
  files : ∀ (uri : Uri) (path : String), uri.isFile = true →
    uri.localPath = directory ++ "/" ++ path → (archive.file? path).isSome = true →
    mounts.findWithFile uri = some (archive, path)
  directories : ∀ (uri : Uri) (path : String), uri.isFile = true →
    uri.localPath = directory ++ "/" ++ path → archive.hasDirectory path = true →
    mounts.findWithDirectory uri = some (archive, path)

/-- An archive in front shows all that it has below the directory that it was loaded for. -/
theorem showsBelow_of_load {later : List Archive} {disk : Disk} {maps : Bool}
    {uri mountPoint : Uri} (hlist : mounts.archives = archive :: later)
    (hload : Archive.load disk maps uri mountPoint = .ok archive) :
    mounts.ShowsBelow archive mountPoint.localPath := by
  obtain ⟨_, items, _, _, _, hindex, _, hpoint⟩ := Archive.load_eq_ok hload
  have hinner {place : Uri} {path : String} (hnormal : normal path = path)
      (hplace : place.localPath = mountPoint.localPath ++ "/" ++ path) :
      archive.innerPath place.localPath = some path := by
    rw [hplace, Archive.innerPath_behind_point (by rw [hpoint, String.toList_ofList]), hnormal]
  refine ⟨?_, ?_⟩
  · intro place path hfile hplace hthere
    have hnormal : normal path = path := by
      rw [Archive.file?, hindex] at hthere
      exact Index.normal_of_file hthere
    exact findWith_first hlist hfile (hinner hnormal hplace) hthere
  · intro place path hfile hplace hthere
    have hnormal : normal path = path := by
      rw [Archive.hasDirectory, hindex] at hthere
      exact Index.normal_of_directory hthere
    exact findWith_first hlist hfile (hinner hnormal hplace) hthere

end Mounts

namespace Server

variable {server next : Server} {disk : Disk} {path : String} {uri directory : Uri}

/-- An archive that is mounted at the directory that holds it comes to stand in front, and shows
all that it has below this directory. -/
theorem mountArchive_showsBelow (huri : server.resolveArchive path = .ok uri)
    (hparent : uri.parent = some directory) (h : server.mountArchive disk path = .ok next) :
    ∃ archive, archive.uri = uri ∧
      next.mounts.archives = archive :: server.mounts.archives ∧
      next.mounts.ShowsBelow archive directory.localPath := by
  rw [mountArchive, huri, Outcome.ok_bind, hparent, Option.getD_some] at h
  obtain ⟨mounts, hmount, rfl⟩ := Outcome.map_eq_ok.1 h
  obtain ⟨archive, _, hload, hsame, rfl⟩ := Mounts.of_mount (Mounts.idle_of_mount hmount) hmount
  exact ⟨archive, hsame, rfl, Mounts.showsBelow_of_load rfl hload⟩

/-- What the lookup of mounted files rests on: `isNormal_normal` with `normal_normal`,
`normal_slash`, `Archive.IsTrimmed.leadsInside` and `mountArchive_showsBelow`. Normal forms are
normal paths, stay as they are and are made part by part; local paths lead inside an archive along
normal paths, behind the text of its mount point and nowhere else; and after an archive has been
mounted at the directory that holds it, all that it has is found below the path of this
directory. -/
theorem mountPoint_normalPath :
    (∀ name, IsNormal (normal name) ∧ normal (normal name) = normal name) ∧
    (∀ front back, normal (front ++ "/" ++ back) = joined (normal front) (normal back)) ∧
    (∀ archive : Archive, archive.IsTrimmed → archive.LeadsInside) ∧
    ∀ (server next : Server) (disk : Disk) (path : String) (uri directory : Uri),
      server.resolveArchive path = .ok uri → uri.parent = some directory →
      server.mountArchive disk path = .ok next →
      ∃ archive, archive.uri = uri ∧
        next.mounts.archives = archive :: server.mounts.archives ∧
        next.mounts.ShowsBelow archive directory.localPath := by
  refine ⟨?_, normal_slash, fun _ => Archive.IsTrimmed.leadsInside, ?_⟩
  · intro name
    exact ⟨isNormal_normal name, normal_normal name⟩
  · intro server next disk path uri directory huri hparent h
    exact mountArchive_showsBelow huri hparent h

/-- The small container, mounted from the root directory, shows its file behind the slash of the
root and one more. Below another mount point its file is found by any spelling. -/
theorem mountPoint_normalPath_small :
    smallServer.resolveArchive "/t.zip" = .ok (rootFile "/t.zip") ∧
    (rootFile "/t.zip").parent = some (rootFile "/") ∧
    (∃ next, smallServer.mountArchive (smallDisk smallContainer) "/t.zip" = .ok next ∧
      next.mounts.findWithFile (rootFile "//k") = some (smallArchive, "k")) ∧
    lowerArchive.IsTrimmed ∧
    lowerArchive.innerPath "/m/.//k/./" = some "k" ∧
    lowerArchive.innerPath "/mk" = none := by
  obtain ⟨hnormal, _, hinside, hmounted⟩ := mountPoint_normalPath
  have huri : smallServer.resolveArchive "/t.zip" = .ok (rootFile "/t.zip") := by decide
  have hparent : (rootFile "/t.zip").parent = some (rootFile "/") := by decide
  have htrimmed : lowerArchive.IsTrimmed := by
    rw [Archive.IsTrimmed]
    decide
  obtain ⟨archive, _, hlist, hshows⟩ := hmounted _ _ _ _ _ _ huri hparent mountArchive_small
  obtain rfl : smallArchive = archive := (List.cons.inj hlist).1
  refine ⟨huri, hparent, ⟨_, mountArchive_small, ?_⟩, htrimmed, ?_, ?_⟩
  · exact hshows.files (rootFile "//k") "k" rfl (by decide) (by decide)
  · exact (hinside _ htrimmed).spelled "k" ".//k/./" (hnormal "k").1 (by decide)
  · exact (hinside _ htrimmed).beside 'k' [] (by decide)

end Server

end ArchiveVfs
