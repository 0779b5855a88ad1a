import ArchiveVfs.Proofs.Archive.Listed
import ArchiveVfs.Proofs.Assign.Steps
import ArchiveVfs.Proofs.Disk.Routes
import ArchiveVfs.Proofs.Server.Precedence

/-!
# Whole listings

A listing gives the names in a directory or, as whole URIs, the names behind the URI of the
directory. Each of these is resolved to itself and leads to what was listed, whether that lies in
an archive or on the disk, and whichever archive has it (`listing_round_trip`). On the disk it has
to be short enough for the system: behind a path that is as long as can be there is a name that is
listed and not found (`listing_path_too_long`).
-/

namespace ArchiveVfs.Server

open EntryPath (IsPart)

variable {server : Server} {disk : Disk} {uri : Uri} {name : String} {listing : Listing}

/-- Whether a path leads to something of the kind that a listing shows. -/
def shows (server : Server) (disk : Disk) (listing : Listing) (path : String) : Bool :=
  match listing with
  | .files => server.fileExists disk path
  | .directories => server.directoryExists disk path

/-- The written URI of a local file stands for it, if its scheme is not taken for an
assign. -/
theorem resolve_render (hfree : server.assigns.get? Uri.fileScheme = none) (h : uri.IsLocal) :
    server.resolve uri.render = .ok uri := by
  -- the scheme stands where the name of an assign would
  have hsplit : Assigns.splitToken uri.render.toList = some (uri.scheme.toList, _) :=
    Assigns.splitToken_eq_some.2 ⟨h.readable.toList_render, by rw [h.scheme_eq]; decide⟩
  have hfinal : server.assigns.Final uri.render.toList := by
    rw [← Assigns.step?_eq_none, Assigns.step?, hsplit]
    dsimp only
    rw [String.ofList_toList, h.scheme_eq, hfree]
    rfl
  have hassigns := Assigns.resolve_of_some (Assigns.resolveWithin_final hfinal)
  rw [String.ofList_toList] at hassigns
  rw [resolve, hassigns, Outcome.ok_bind, h.parse_render]
  rfl

theorem shows_of_resolve {file : String} (hresolve : server.resolve file = .ok uri) :
    server.shows disk listing file = match listing with
      | .files => server.fileAt disk uri
      | .directories => (server.directoryArchive? uri).isSome
          || uri.isFile && disk.directoryExists uri.nativePath := by
  cases listing <;> simp [shows, fileExists, directoryExists, hresolve]

/-! ## Listings of archives -/

/-- All mounted archives are what was loaded when they were mounted. -/
theorem loaded_of_build {settings : Settings} {environment : Environment} {equipment : Equipment}
    {first : Server} (hbuild : build settings environment equipment = .ok first)
    (moments : List Moment) {archive : Archive}
    (hin : archive ∈ (first.run moments).mounts.archives) :
    archive.IsTrimmed ∧ ∃ items, archive.index = .ofItems items := by
  obtain ⟨_, _, _, hload⟩ := load_of_mem hbuild moments hin
  obtain ⟨_, items, _, _, _, hindex, _⟩ := Archive.load_eq_ok hload
  exact ⟨Archive.isTrimmed_of_load hload, items, hindex⟩

/-- What the listing of an archive shows is there, in this archive or in one before it. -/
theorem shows_of_archive {archive : Archive} {inner pattern file : String} {names : List String}
    (hloaded : ∀ archive ∈ server.mounts.archives,
      archive.IsTrimmed ∧ ∃ items, archive.index = .ofItems items)
    (hroot : uri.localPath.toList.head? = some '/')
    (hfound : server.directoryArchive? uri = some (archive, inner))
    (hnames : server.namesAt disk uri pattern listing = .ok names) (hname : name ∈ names)
    (hresolve : server.resolve file = .ok (uri.append name)) :
    IsPart name ∧ server.shows disk listing file = true := by
  rw [namesAt, hfound] at hnames
  rw [directoryArchive?] at hfound
  split at hfound
  · rename_i henabled
    obtain ⟨hfile, hin, hinner, _⟩ := Mounts.of_findWith hfound
    obtain ⟨htrimmed, items, hindex⟩ := hloaded archive hin
    rw [shows_of_resolve hresolve]
    cases listing with
    | files =>
      obtain rfl := Except.ok.inj hnames
      obtain ⟨hpart, hinside, hthere⟩ :=
        Archive.innerPath_of_listFiles htrimmed hindex hroot hinner hname
      -- the archive has the file, though one in front of it may be found first
      have hsome : (server.fileArchive? (uri.append name)).isSome = true := by
        rw [fileArchive?, if_pos henabled]
        exact Mounts.findWith_isSome.2 ⟨hfile, archive, hin, _, hinside, hthere⟩
      exact ⟨hpart, by simp [fileAt, hsome]⟩
    | directories =>
      obtain rfl := Except.ok.inj hnames
      obtain ⟨hpart, hinside, hthere⟩ :=
        Archive.innerPath_of_listDirectories htrimmed hindex hroot hinner hname
      have hsome : (server.directoryArchive? (uri.append name)).isSome = true := by
        rw [directoryArchive?, if_pos henabled]
        exact Mounts.findWith_isSome.2 ⟨hfile, archive, hin, _, hinside, hthere⟩
      exact ⟨hpart, by simp [hsome]⟩
  · cases hfound

/-! ## Listings of the disk -/

/-- What the listing of a directory on the disk shows is there, if its path is not too long. -/
theorem shows_of_disk {pattern file : String} {names : List String} (hnamed : disk.Named)
    (hfile : uri.isFile = true) (hroot : uri.localPath.toList.head? = some '/')
    (hnone : server.directoryArchive? uri = none)
    (hnames : server.namesAt disk uri pattern listing = .ok names) (hname : name ∈ names)
    (hresolve : server.resolve file = .ok (uri.append name)) :
    IsPart name ∧ ((uri.append name).nativePath.utf8ByteSize ≤ Disk.maxPathSize →
      server.shows disk listing file = true) := by
  have hinside : (uri.append name).isFile = true := hfile
  rw [namesAt, hnone, nativePath, if_pos hfile, Outcome.ok_bind] at hnames
  rw [shows_of_resolve hresolve]
  cases listing with
  | files =>
    obtain ⟨hpart, hthere⟩ := Disk.fileExists_of_listFiles hnamed hroot hnames hname
    refine ⟨hpart, fun hsize => ?_⟩
    dsimp only
    rw [fileAt, if_pos hinside]
    split
    · rfl
    · exact hthere hsize
  | directories =>
    obtain ⟨hpart, hthere⟩ := Disk.directoryExists_of_listDirectories hnamed hroot hnames hname
    refine ⟨hpart, fun hsize => Bool.or_eq_true_iff.2 (.inr ?_)⟩
    exact Bool.and_eq_true_iff.2 ⟨hinside, hthere hsize⟩

/-! ## Whole listings -/

/-- After any run of a server that has no assign of the name of the scheme, the whole listing of a
local directory has a URI for each name that is listed, in the same order. It is resolved to
the URI of the directory with the name behind it, the name is its file name, and it leads to
what was listed: always in an archive, and on the disk if its path is not too long. -/
theorem listing_round_trip {settings : Settings} {environment : Environment}
    {equipment : Equipment} {first : Server}
    (hbuild : build settings environment equipment = .ok first) (moments : List Moment)
    (hfree : (first.run moments).assigns.get? Uri.fileScheme = none) (hnamed : disk.Named)
    {path pattern : String} {names : List String}
    (hresolve : (first.run moments).resolve path = .ok uri) (hlocal : uri.IsLocal)
    (hlist : (first.run moments).list disk path pattern false listing = .ok names) :
    ∃ whole, (first.run moments).list disk path pattern true listing = .ok whole ∧
      List.Forall₂ (fun name file =>
        (first.run moments).resolve file = .ok (uri.append name) ∧
        (uri.append name).fileName = name ∧
        ((first.run moments).directoryArchive? uri ≠ none ∨
            (uri.append name).nativePath.utf8ByteSize ≤ Disk.maxPathSize →
          (first.run moments).shows disk listing file = true)) names whole := by
  obtain ⟨names, hnames, heq⟩ : ∃ found, (first.run moments).namesAt disk uri pattern listing
      = .ok found ∧ found = names := by
    rw [list, hresolve, Outcome.ok_bind] at hlist
    obtain ⟨found, hfound, hlist⟩ := Outcome.bind_eq_ok.1 hlist
    exact ⟨found, hfound, Except.ok.inj hlist⟩
  subst heq
  refine ⟨names.map fun name => (uri.append name).render, ?_, ?_⟩
  · rw [list, hresolve, Outcome.ok_bind, hnames]
    rfl
  · rw [List.forall₂_map_right_iff, List.forall₂_same]
    intro name hname
    have hback := resolve_render hfree (hlocal.append name)
    refine ⟨hback, ?_⟩
    cases hfound : (first.run moments).directoryArchive? uri with
    | none =>
      obtain ⟨hpart, hthere⟩ :=
        shows_of_disk hnamed hlocal.scheme hlocal.root hfound hnames hname hback
      refine ⟨Uri.fileName_append hlocal.root hpart, fun hshort => hthere ?_⟩
      exact hshort.resolve_left (fun hnone => hnone rfl)
    | some found =>
      obtain ⟨hpart, hthere⟩ := shows_of_archive (fun _ => loaded_of_build hbuild moments)
        hlocal.root hfound hnames hname hback
      exact ⟨Uri.fileName_append hlocal.root hpart, fun _ => hthere⟩

/-! ## In a root directory -/

/-- The root directory, spelled with a number of slashes. -/
def rootSpelled (count : Nat) : Uri :=
  rootFile (String.ofList (List.replicate count '/'))

theorem utf8ByteSize_slashes (count : Nat) :
    (String.ofList (List.replicate count '/')).utf8ByteSize = count := by
  induction count with
  | zero => rfl
  | succ count ih =>
    have hone : "/".utf8ByteSize = 1 := rfl
    rw [List.replicate_succ', String.ofList_append, String.utf8ByteSize_append, ih]
    rfl

theorem isLocal_rootSpelled {count : Nat} (hsome : 0 < count) : (rootSpelled count).IsLocal := by
  refine ⟨rfl, rfl, rfl, rfl, rfl, ?_⟩
  obtain ⟨count, rfl⟩ := Nat.exists_eq_succ_of_ne_zero (Nat.ne_of_gt hsome)
  rw [rootSpelled, rootFile, String.toList_ofList]
  rfl

/-- All of them lead to the root directory, as far as the system accepts them. -/
theorem locate_slashes {count : Nat} (hsome : 0 < count) (hcount : count ≤ Disk.maxPathSize)
    (hroot : disk.isDirectory Disk.root = true) :
    disk.locate (String.ofList (List.replicate count '/')) = .ok Disk.root := by
  have hsegments (count : Nat) : NativePath.segments (List.replicate count '/') = [] := by
    induction count with
    | zero => rfl
    | succ count ih => rw [List.replicate_succ, NativePath.segments_slash, ih]
  have haccepted : Disk.Route.ofPath (String.ofList (List.replicate count '/'))
      = .ok (.ofText (String.ofList (List.replicate count '/'))) := by
    refine Disk.ofPath_ofText ?_ ?_ (by rwa [utf8ByteSize_slashes]) <;> rw [String.toList_ofList]
    · simpa using Nat.ne_of_gt hsome
    · exact fun hnul => by cases List.eq_of_mem_replicate hnul
  obtain ⟨count, rfl⟩ := Nat.exists_eq_succ_of_ne_zero (Nat.ne_of_gt hsome)
  rw [List.replicate_succ] at haccepted ⊢
  refine (Disk.locate_slash haccepted).2 ⟨?_, .inr hroot⟩
  rw [hsegments, List.map_nil, Disk.walk]

theorem list_smallServer (data : Bytes) {count : Nat} (hsome : 0 < count)
    (hcount : count ≤ Disk.maxPathSize) :
    smallServer.resolve (rootSpelled count).render = .ok (rootSpelled count) ∧
    smallServer.list (smallDisk data) (rootSpelled count).render "*" false .files
      = .ok ["t.zip"] := by
  have hresolve : smallServer.resolve (rootSpelled count).render = .ok (rootSpelled count) :=
    resolve_render rfl (isLocal_rootSpelled hsome)
  have hroot : (smallDisk data).locate (rootSpelled count).nativePath = .ok Disk.root :=
    locate_slashes hsome hcount rfl
  have hnames : (smallDisk data).listFiles (rootSpelled count).nativePath "*" = .ok ["t.zip"] := by
    have haccepts : Wildcard.accepts "*" "t.zip" = true := by cbv
    have hentries : (smallDisk data).entries? Disk.root = some (Table.empty.insert "t.zip" 1) := rfl
    have hentry : (Table.empty.insert "t.zip" (1 : NodeId)).entries = [("t.zip", 1)] := rfl
    have hfile : (smallDisk data).isFile 1 = true := rfl
    simp [Disk.listFiles, Disk.listKind, Disk.blame, hroot, Outcome.ok_bind, hentries, hentry,
      haccepts, hfile, pure, Except.pure, Outcome.mapError_ok]
  refine ⟨hresolve, ?_⟩
  rw [list, hresolve, Outcome.ok_bind]
  show (smallDisk data).listFiles _ _ >>= _ = _
  rw [hnames]
  rfl

theorem fileAt_smallServer (disk : Disk) (hfile : uri.isFile = true) :
    smallServer.fileAt disk uri = disk.fileExists uri.nativePath := by
  have hnone : smallServer.fileArchive? uri = none :=
    Mounts.findWithFile_eq_none hfile (List.forall_mem_nil _)
  rw [fileAt, hnone, if_pos hfile]
  rfl

theorem named_smallDisk (data : Bytes) : (smallDisk data).Named := by
  intro id entries parent hcontent name hname
  match id with
  | 0 =>
    obtain ⟨rfl, rfl⟩ : Table.empty.insert "t.zip" 1 = entries ∧ Disk.root = parent := by
      simpa [Disk.content?, smallDisk] using hcontent
    rcases (Table.contains_insert ..).1 hname with rfl | hnone
    · exact ⟨by decide, ⟨by decide, by decide⟩, by decide⟩
    · cases hnone
  | 1 => simp [Disk.content?, smallDisk] at hcontent
  | id + 2 => simp [Disk.content?, smallDisk] at hcontent

/-- With the container mounted, the root directory is that of the container. -/
theorem list_mounting :
    (smallServer.run [mounting]).resolve (rootSpelled 1).render = .ok (rootSpelled 1) ∧
    (smallServer.run [mounting]).directoryArchive? (rootSpelled 1) = some (smallArchive, "") ∧
    (smallServer.run [mounting]).list (smallDisk smallContainer) (rootSpelled 1).render "?" false
      .files = .ok ["k"] := by
  have hresolve : (smallServer.run [mounting]).resolve (rootSpelled 1).render
      = .ok (rootSpelled 1) := by
    rw [run_mounting]
    exact resolve_render rfl (isLocal_rootSpelled Nat.one_pos)
  have hfound : (smallServer.run [mounting]).directoryArchive? (rootSpelled 1)
      = some (smallArchive, "") := by
    have henabled : smallServer.archivesEnabled = true := rfl
    have hinner : smallArchive.innerPath (rootSpelled 1).localPath = some "" := by decide
    have hdir : smallArchive.hasDirectory "" = true := by decide +kernel
    rw [directoryArchive?, run_mounting, if_pos henabled]
    exact Mounts.findWith_first rfl rfl hinner hdir
  have hnames : smallArchive.index.listFiles "" "?" = ["k"] := by decide +kernel
  refine ⟨hresolve, hfound, ?_⟩
  rw [list, hresolve, Outcome.ok_bind, namesAt, hfound]
  dsimp only
  rw [hnames]
  rfl

/-- The container is found as the disk lists it, and its file as the container does. -/
theorem listing_round_trip_small :
    (∃ file,
      smallServer.list (smallDisk []) (rootSpelled 1).render "*" true .files = .ok [file] ∧
      smallServer.resolve file = .ok ((rootSpelled 1).append "t.zip") ∧
      smallServer.fileExists (smallDisk []) file = true) ∧
    ∃ file,
      (smallServer.run [mounting]).list (smallDisk smallContainer) (rootSpelled 1).render "?" true
        .files = .ok [file] ∧
      (smallServer.run [mounting]).resolve file = .ok ((rootSpelled 1).append "k") ∧
      (smallServer.run [mounting]).fileExists (smallDisk smallContainer) file = true := by
  have hbuild : build {} smallServer.environment { standardAssigns := false } = .ok smallServer :=
    rfl
  have hlocal := isLocal_rootSpelled Nat.one_pos
  constructor
  · obtain ⟨hresolve, hlist⟩ := list_smallServer [] Nat.one_pos (by decide)
    obtain ⟨whole, hwhole, hall⟩ := listing_round_trip hbuild [] rfl (named_smallDisk [])
      hresolve hlocal hlist
    cases hall with
    | cons hfile hrest =>
      cases hrest
      exact ⟨_, hwhole, hfile.1, hfile.2.2 (.inr (by decide))⟩
  · obtain ⟨hresolve, hfound, hlist⟩ := list_mounting
    have hfree : (smallServer.run [mounting]).assigns.get? Uri.fileScheme = none := by
      rw [run_mounting]
      rfl
    obtain ⟨whole, hwhole, hall⟩ := listing_round_trip hbuild [mounting] hfree
      (named_smallDisk smallContainer) hresolve hlocal hlist
    cases hall with
    | cons hfile hrest =>
      cases hrest
      exact ⟨_, hwhole, hfile.1, hfile.2.2 (.inl (by simp [hfound]))⟩

/-- Behind the longest path that the system accepts a name is listed, and not found. -/
theorem listing_path_too_long :
    build {} smallServer.environment { standardAssigns := false } = .ok smallServer ∧
    smallServer.assigns.get? Uri.fileScheme = none ∧ (smallDisk []).Named ∧
    (rootSpelled Disk.maxPathSize).IsLocal ∧
    smallServer.resolve (rootSpelled Disk.maxPathSize).render
      = .ok (rootSpelled Disk.maxPathSize) ∧
    smallServer.list (smallDisk []) (rootSpelled Disk.maxPathSize).render "*" false .files
      = .ok ["t.zip"] ∧
    smallServer.list (smallDisk []) (rootSpelled Disk.maxPathSize).render "*" true .files
      = .ok [((rootSpelled Disk.maxPathSize).append "t.zip").render] ∧
    smallServer.fileExists (smallDisk []) ((rootSpelled Disk.maxPathSize).append "t.zip").render
      = false := by
  have hsome : 0 < Disk.maxPathSize := by decide
  have hlocal := isLocal_rootSpelled hsome
  obtain ⟨hresolve, hlist⟩ := list_smallServer [] hsome le_rfl
  refine ⟨rfl, rfl, named_smallDisk [], hlocal, hresolve, hlist, ?_, ?_⟩
  · rw [list, hresolve, Outcome.ok_bind] at hlist ⊢
    obtain ⟨names, hnames, hsame⟩ := Outcome.bind_eq_ok.1 hlist
    obtain rfl : names = ["t.zip"] := Except.ok.inj hsame
    rw [hnames]
    rfl
  · have hback : smallServer.resolve ((rootSpelled Disk.maxPathSize).append "t.zip").render
        = .ok ((rootSpelled Disk.maxPathSize).append "t.zip") :=
      resolve_render rfl (hlocal.append "t.zip")
    have hlong : Disk.maxPathSize
        < ((rootSpelled Disk.maxPathSize).append "t.zip").nativePath.utf8ByteSize := by
      show _ < (String.ofList (Uri.appendChars (String.ofList
        (List.replicate Disk.maxPathSize '/')).toList "t.zip".toList)).utf8ByteSize
      rw [String.toList_ofList, Uri.appendChars, List.append_assoc, String.ofList_append,
        String.utf8ByteSize_append, utf8ByteSize_slashes, String.ofList_append,
        String.utf8ByteSize_append]
      exact Nat.lt_add_of_pos_right (Nat.add_pos_right _ (by decide))
    rw [fileExists, hback]
    dsimp only
    rw [fileAt_smallServer _ (hlocal.append "t.zip").scheme]
    exact Disk.fileExists_of_long hlong

end ArchiveVfs.Server
