import ArchiveVfs.Proofs.Archive.Scenes
import ArchiveVfs.Proofs.Server.Precedence
import ArchiveVfs.Proofs.Stream.Cursor

/-!
# An entry stream is a cursor that moves forward

Over an entry with sound contents a stream is seen as a cursor in these contents, whatever
is asked of it and however its reads and seeks are split. That is so as long as the
container keeps its bytes (`Kept`); mounted or not, the stream may then be closed and
opened again. The bytes of a mapped container are those of its file as it is now, so it is
not enough that the container is still mounted.
-/

namespace ArchiveVfs.Stream

/-! ## Runs in which the surroundings change -/

/-- What is seen of a run of requests, each made in its own scene. -/
def sightsAlong (stream : Stream) : List (Scene × Request) → List Sight
  | [] => []
  | (scene, request) :: rest =>
    stream.sight scene.mounts scene.disk request ::
      (stream.after scene.mounts scene.disk request).1.sightsAlong rest

/-- In all scenes the container has its bytes, and an archive that is found or opened in one
of them has them in the later ones too. -/
structure Kept (file : Uri) (container : Bytes) (items : List Zip.Item) (scenes : List Scene) :
    Prop where
  has : ∀ scene ∈ scenes, scene.Has file container items
  stays : scenes.Pairwise fun scene later =>
    ∀ archive, scene.archive file = .ok archive → archive.data.bytes later.disk = container

/-- In the scene the entry opens, and the reader is good on these disks. -/
def Opens (on : Disk → Prop) (uri : Uri) (contents : Bytes) (scene : Scene) : Prop :=
  ∃ path archive reader, EntryStream.entryPath? uri = some path ∧
    scene.archive uri.archiveFile = .ok archive ∧
    archive.openEntry scene.disk path (uri.queryValue Uri.passwordKey) = .ok reader ∧
    reader.At on contents 0

/-- The entry is opened, at the start of its contents. -/
theorem Opens.tryOpen {on : Disk → Prop} {uri : Uri} {contents : Bytes} {scene : Scene}
    (h : Opens on uri contents scene) (size : Nat) :
    ∃ reader, EntryStream.tryOpen { uri, size } scene.mounts scene.disk
        = .ok { uri, reader := some reader, size := contents.length } ∧
      reader.At on contents 0 := by
  obtain ⟨path, archive, reader, hpath, harchive, hopen, hreader⟩ := h
  refine ⟨reader, ?_, hreader⟩
  rw [Scene.archive] at harchive
  simp only [EntryStream.tryOpen, hpath, harchive, Outcome.ok_bind, hopen, hreader.size]
  rfl

/-- An entry stream and the cursor that it is seen as. -/
inductive Matches (on : Disk → Prop) : EntryStream → Cursor → Prop where
  | closed (uri : Uri) (contents : Bytes) (mode : AccessMode) (size : Nat) :
      Matches on { uri, mode, size } { uri, contents, mode }
  | opened (uri : Uri) (contents : Bytes) (mode : AccessMode) {position : Nat}
      {reader : EntryReader} (hreader : reader.At on contents position) :
      Matches on { uri, mode, reader := some reader, size := contents.length }
        { uri, contents, mode, place := some position }

namespace Matches

variable {on : Disk → Prop} {stream : EntryStream} {cursor : Cursor} {scene : Scene}

theorem fewer {fewer : Disk → Prop} (h : Matches on stream cursor)
    (hfewer : ∀ disk, fewer disk → on disk) : Matches fewer stream cursor := by
  cases h with
  | closed uri contents mode size => exact .closed uri contents mode size
  | opened uri contents mode hreader => exact .opened uri contents mode (hreader.fewer hfewer)

/-- The stream and the cursor answer a request alike and go on matching. -/
def Agree (on : Disk → Prop) (scene : Scene) (stream : EntryStream) (cursor : Cursor)
    (request : Request) : Prop :=
  (entry stream).answer scene.mounts scene.disk request = cursor.answer request ∧
  ∃ next, ((entry stream).after scene.mounts scene.disk request).1 = entry next ∧
    Matches on next (cursor.after request)

variable (h : Matches on stream cursor)
include h

theorem setMode (mode : AccessMode) : Agree on scene stream cursor (.call (.setMode mode)) := by
  refine ⟨by cases h <;> rfl, stream.setMode mode, rfl, ?_⟩
  cases h with
  | closed uri contents _ size => exact .closed uri contents mode size
  | opened uri contents _ hreader => exact .opened uri contents mode hreader

theorem tryOpen (hopens : Opens on cursor.uri cursor.contents scene) :
    Agree on scene stream cursor (.call .tryOpen) := by
  cases h with
  | closed uri contents mode size =>
    by_cases hmode : mode = .read
    · subst hmode
      obtain ⟨reader, hstream, hreader⟩ := hopens.tryOpen size
      refine ⟨?_, _, ?_, .opened uri contents .read hreader⟩
      · simp only [Stream.answer, Stream.tryOpen, hstream]
        rfl
      · simp only [Stream.after, perform, Stream.tryOpen, hstream]
        rfl
    · have hstream : EntryStream.tryOpen { uri, mode, size } scene.mounts scene.disk
          = .error (.unsupportedAccess uri mode .openStream) := by
        simp only [EntryStream.tryOpen, if_pos hmode]
        rfl
      refine ⟨?_, { uri, mode, size }, ?_, ?_⟩
      · simp only [Stream.answer, Stream.tryOpen, hstream, Cursor.answer, if_neg hmode]
        rfl
      · simp only [Stream.after, perform, Stream.tryOpen, hstream]
        rfl
      · simp only [Cursor.after, hmode, and_false, if_false]
        exact .closed uri contents mode size
  | opened uri contents mode hreader =>
    exact ⟨rfl, _, rfl, .opened uri contents mode hreader⟩

theorem close : Agree on scene stream cursor (.call .close) := by
  refine ⟨by cases h <;> rfl, stream.close, rfl, ?_⟩
  cases h with
  | closed uri contents mode size => exact .closed uri contents mode size
  | opened uri contents mode => exact .closed uri contents mode contents.length

theorem read (hdisk : on scene.disk) (count : Nat) :
    Agree on scene stream cursor (.call (.read count)) := by
  cases h with
  | closed uri contents mode size => exact ⟨rfl, _, rfl, .closed uri contents mode size⟩
  | @opened uri contents mode position reader hreader =>
    obtain ⟨next, hfill, hnext⟩ := hreader.fill hdisk count
    have hwithin := hreader.within
    have hmoved : position + ((contents.drop position).take count).length
        = min (position + count) contents.length := by
      simp only [List.length_take, List.length_drop]
      omega
    rw [hmoved] at hnext
    refine ⟨?_, _, ?_, .opened uri contents mode hnext⟩
    · simp only [Stream.answer, Stream.read, EntryStream.read, hfill]
      rfl
    · simp only [Stream.after, perform, Stream.read, EntryStream.read, hfill]
      rfl

/-- What leaves both as they were. -/
theorem stay {request : Request}
    (hanswer : (entry stream).answer scene.mounts scene.disk request = cursor.answer request)
    (hstream : ((entry stream).after scene.mounts scene.disk request).1 = entry stream)
    (hcursor : cursor.after request = cursor) : Agree on scene stream cursor request := by
  refine ⟨hanswer, stream, hstream, ?_⟩
  rw [hcursor]
  exact h

theorem write (new : Bytes) : Agree on scene stream cursor (.call (.write new)) :=
  h.stay (by cases h <;> rfl) (by cases h <;> rfl) rfl

/-- A seek that fails leaves both as they were. -/
theorem seek_failed {offset : Int} {origin : Origin} {position : Nat} {error : Error}
    (hplace : cursor.place = some position)
    (hstream : stream.seek scene.disk offset origin = (.error error, stream))
    (htarget : cursor.target position offset origin = .error error) :
    Agree on scene stream cursor (.call (.seek offset origin)) := by
  refine h.stay ?_ ?_ ?_
  · simp only [Stream.answer, Stream.seek, hstream, Cursor.answer, hplace, htarget]
    rfl
  · simp only [Stream.after, perform, Stream.seek, hstream]
  · simp only [Cursor.after, hplace, Option.map_some, htarget]
    rw [← hplace]

theorem seek (hdisk : on scene.disk) (offset : Int) (origin : Origin) :
    Agree on scene stream cursor (.call (.seek offset origin)) := by
  cases h with
  | closed uri contents mode size => exact ⟨rfl, _, rfl, .closed uri contents mode size⟩
  | @opened uri contents mode position reader hreader =>
    have hsame := Matches.opened uri contents mode hreader
    have hplace := hreader.delivered
    have htarget := Cursor.target_eq { uri, contents, mode, place := some position } position
      offset origin
    cases hseek : seekTarget position contents.length offset origin with
    | error error =>
      simp only [hseek] at htarget
      refine hsame.seek_failed rfl ?_ htarget
      simp only [EntryStream.seek, hplace, hseek]
    | ok target =>
      by_cases hback : target < position
      · simp only [hseek, if_pos hback] at htarget
        refine hsame.seek_failed rfl ?_ htarget
        simp only [EntryStream.seek, hplace, hseek, if_pos hback]
      · simp only [hseek, if_neg hback] at htarget
        have hwithin := seekTarget_le hseek
        obtain ⟨next, hskip, hnext⟩ := hreader.skip hdisk
          (show position + (target - position) ≤ contents.length by omega)
        have hmoved : position + (target - position) = target := by omega
        rw [hmoved] at hnext
        have hstream :
            EntryStream.seek { uri, mode, reader := some reader, size := contents.length }
                scene.disk offset origin
              = (.ok (), { uri, mode, reader := some next, size := contents.length }) := by
          simp only [EntryStream.seek, hplace, hseek, if_neg hback, hskip]
          exact EntryStream.landing_eq_outcome _ fun _ => hnext.delivered
        refine ⟨?_, { uri, mode, reader := some next, size := contents.length }, ?_, ?_⟩
        · simp only [Stream.answer, Stream.seek, hstream, Cursor.answer, htarget]
          rfl
        · simp only [Stream.after, perform, Stream.seek, hstream]
        · simp only [Cursor.after, Option.map_some, htarget]
          exact .opened uri contents mode hnext

theorem map : Agree on scene stream cursor (.call .map) :=
  h.stay (by cases h <;> rfl) (by cases h <;> rfl) rfl

theorem unmap : Agree on scene stream cursor (.call .unmap) :=
  h.stay (by cases h <;> rfl) (by cases h <;> rfl) rfl

theorem flush : Agree on scene stream cursor .flush :=
  h.stay (by cases h <;> rfl) rfl rfl

theorem view : Agree on scene stream cursor .view :=
  h.stay (by cases h <;> rfl) rfl rfl

/-- Every request is answered alike, and stream and cursor go on matching. -/
theorem agree (hdisk : on scene.disk) (hopens : Opens on cursor.uri cursor.contents scene)
    (request : Request) : Agree on scene stream cursor request := by
  cases request with
  | flush => exact h.flush
  | view => exact h.view
  | call call =>
    cases call with
    | setMode mode => exact h.setMode mode
    | tryOpen => exact h.tryOpen hopens
    | close => exact h.close
    | read count => exact h.read hdisk count
    | write new => exact h.write new
    | seek offset origin => exact h.seek hdisk offset origin
    | map => exact h.map
    | unmap => exact h.unmap

/-- An open stream stands where the cursor does, and is at its end there and only there. -/
theorem standing? : (entry stream).standing? = cursor.place.map fun position =>
    { position, size := cursor.contents.length, atEnd := position = cursor.contents.length } := by
  cases h with
  | closed uri contents mode size => rfl
  | @opened uri contents mode position reader hreader =>
    have hwithin := hreader.within
    have hend : contents.length ≤ position ↔ position = contents.length := by omega
    simp only [Stream.standing?, Stream.isOpen, EntryStream.isOpen, Stream.position,
      EntryStream.position, Stream.size, Stream.atEnd, Option.isSome_some, if_true,
      Option.map_some, Option.getD_some, hreader.delivered, hend]

theorem mode : (entry stream).mode = cursor.mode := by
  cases h <;> rfl

theorem sight (hdisk : on scene.disk) (hopens : Opens on cursor.uri cursor.contents scene)
    (request : Request) :
    (entry stream).sight scene.mounts scene.disk request = cursor.sight request := by
  obtain ⟨hanswer, next, hafter, hnext⟩ := h.agree hdisk hopens request
  have hmode := hnext.mode
  have hstanding := hnext.standing?
  rw [(cursor.after_contents request).2] at hstanding
  simp only [Stream.sight, Cursor.sight, hanswer, hafter, hmode, hstanding]
  rfl

end Matches

/-- The disks of scenes. -/
def disksOf (scenes : List Scene) (disk : Disk) : Prop :=
  disk ∈ scenes.map (·.disk)

theorem Kept.tail {file : Uri} {container : Bytes} {items : List Zip.Item} {scene : Scene}
    {rest : List Scene} (h : Kept file container items (scene :: rest)) :
    Kept file container items rest :=
  ⟨fun later hlater => h.has later (List.mem_cons_of_mem _ hlater),
    (List.pairwise_cons.1 h.stays).2⟩

/-- On a disk that stays as it is, a container keeps its bytes. -/
theorem Kept.ofDisk {file : Uri} {container : Bytes} {items : List Zip.Item}
    {scenes : List Scene} (hlisted : Zip.items container = .ok items) (disk : Disk)
    (hhas : ∀ scene ∈ scenes, scene.Has file container items ∧ scene.disk = disk) :
    Kept file container items scenes where
  has scene hscene := (hhas scene hscene).1
  stays := by
    apply List.pairwise_of_forall_mem_list
    intro scene hscene later hlater archive harchive
    obtain ⟨hthere, rfl⟩ := hhas scene hscene
    obtain ⟨found, hfound, _, hbytes⟩ := hthere.archive hlisted
    rw [harchive] at hfound
    obtain rfl := Except.ok.inj hfound
    rw [(hhas later hlater).2, hbytes]

/-- As the container keeps its bytes, the entry opens, and its reader stays good. -/
theorem Kept.opens {uri : Uri} {container contents : Bytes} {items : List Zip.Item}
    {path : String} {scene : Scene} {rest : List Scene}
    (h : Kept uri.archiveFile container items (scene :: rest))
    (hpath : EntryStream.entryPath? uri = some path)
    (hpacks : Packs container path (uri.queryValue Uri.passwordKey) items contents) :
    Opens (disksOf (scene :: rest)) uri contents scene := by
  obtain ⟨archive, harchive, hindex, hbytes⟩ :=
    (h.has scene List.mem_cons_self).archive hpacks.listed
  have hall : ∀ disk, disksOf (scene :: rest) disk → archive.data.bytes disk = container := by
    intro disk hdisk
    obtain ⟨later, hlater, rfl⟩ := List.mem_map.1 hdisk
    rcases List.mem_cons.1 hlater with rfl | hlater
    · exact hbytes
    · exact (List.pairwise_cons.1 h.stays).1 later hlater archive harchive
  obtain ⟨reader, hopen, hreader⟩ := Archive.openEntry_at hpacks hindex hall
    (show disksOf (scene :: rest) scene.disk from List.mem_cons_self)
  exact ⟨path, archive, reader, hpath, harchive, hopen, hreader⟩

/-- A run of requests is seen on the stream as it is on the cursor. -/
theorem Matches.run {path : String} {container : Bytes} {items : List Zip.Item}
    {stream : EntryStream} {cursor : Cursor} {steps : List (Scene × Request)}
    (h : Matches (disksOf (steps.map (·.1))) stream cursor)
    (hpath : EntryStream.entryPath? cursor.uri = some path)
    (hpacks : Packs container path (cursor.uri.queryValue Uri.passwordKey) items cursor.contents)
    (hkept : Kept cursor.uri.archiveFile container items (steps.map (·.1))) :
    (entry stream).sightsAlong steps = cursor.sights (steps.map (·.2)) := by
  induction steps generalizing stream cursor with
  | nil => rfl
  | cons step rest ih =>
    obtain ⟨scene, request⟩ := step
    have hdisk : disksOf (scene :: rest.map (·.1)) scene.disk := List.mem_cons_self
    have hopens := hkept.opens hpath hpacks
    obtain ⟨_, next, hafter, hnext⟩ := h.agree hdisk hopens request
    obtain ⟨huri, hcontents⟩ := cursor.after_contents request
    have hrest : Matches (disksOf (rest.map (·.1))) next (cursor.after request) :=
      hnext.fewer fun disk hlater => List.mem_cons_of_mem _ hlater
    rw [List.map_cons, sightsAlong, Cursor.sights, h.sight hdisk hopens request, hafter]
    congr 1
    apply ih hrest
    · rw [huri]
      exact hpath
    · rw [huri, hcontents]
      exact hpacks
    · rw [huri]
      exact hkept.tail

/-- A stream over an entry with sound contents is seen as a cursor that moves forward over
them, through all requests, while the container keeps its bytes; mounted or not, it may be
closed and opened again. As long as it is read forward, an open one is seen as an open
stream over a buffer with the contents. -/
theorem entry_eq_cursor (uri : Uri) {path : String} {container contents : Bytes}
    {items : List Zip.Item} (hpath : EntryStream.entryPath? uri = some path)
    (hpacks : Packs container path (uri.queryValue Uri.passwordKey) items contents)
    (steps : List (Scene × Request))
    (hkept : Kept uri.archiveFile container items (steps.map (·.1))) :
    (entry { uri }).sightsAlong steps
      = Cursor.sights { uri, contents } (steps.map (·.2)) ∧
    ∀ requests, steps.map (·.2) = .call .tryOpen :: requests →
      Forward contents.length 0 requests → ∀ mounts disk,
      (entry { uri }).sightsAlong steps
        = (memory { uri, data := contents }).sights mounts disk (.call .tryOpen :: requests) := by
  have hcursor : (entry { uri }).sightsAlong steps
      = Cursor.sights { uri, contents } (steps.map (·.2)) :=
    (Matches.closed uri contents .read 0).run hpath hpacks hkept
  refine ⟨hcursor, ?_⟩
  intro requests hrequests hforward mounts disk
  have hrest := Cursor.sights_eq_memory uri contents (Nat.zero_le _) hforward mounts disk
  have hstanding := standing_openMemory uri contents (Nat.zero_le contents.length)
  have hafter : (memory { uri, data := contents }).after mounts disk (.call .tryOpen)
      = (openMemory uri contents 0, disk) := rfl
  have hplaced : Cursor.after { uri, contents } (.call .tryOpen)
      = { uri, contents, place := some 0 } := rfl
  rw [hcursor, hrequests, Cursor.sights, Stream.sights, hafter, hplaced, hrest]
  congr 1
  simp only [Cursor.sight, Stream.sight, hafter, hplaced, hstanding]
  rfl

/-! ## An entry with one byte -/

open Server (rootFile smallArchive smallContainer smallDisk)

/-- The items of the small container. -/
def smallItems : List Zip.Item :=
  (Zip.items smallContainer).toOption.getD []

/-- The URI of its entry. -/
def smallEntry : Uri := smallArchive.entryUri "k"

/-- The container is mounted; the disk has these bytes where its file is. -/
def mountedScene (bytes : Bytes) : Scene where
  mounts := { archives := [smallArchive] }
  disk := smallDisk bytes

/-- Nothing is mounted, and the file of the container is what it was. -/
def bareScene : Scene where
  mounts := {}
  disk := smallDisk smallContainer

theorem packs_small : Packs smallContainer "k" none smallItems [107] where
  listed := by decide
  entry := by
    refine ⟨{ path := "k", dataStart := 31, packedSize := 1, size := 1, method := .stored,
              checksum := 0x0862575D, encrypted := false }, by decide, ?_⟩
    exact ⟨by decide, rfl, rfl, by decide⟩

theorem find?_mountedScene (bytes : Bytes) :
    (mountedScene bytes).mounts.find? (rootFile "/t.zip") = some smallArchive := by
  have hsame : decide (smallArchive.uri = rootFile "/t.zip") = true := by decide
  simp only [mountedScene, Mounts.find?, List.find?_cons, hsame]

theorem has_mountedScene :
    (mountedScene smallContainer).Has (rootFile "/t.zip") smallContainer smallItems :=
  .mounted (find?_mountedScene smallContainer) (by decide +kernel) (by decide +kernel)

theorem has_bareScene : bareScene.Has (rootFile "/t.zip") smallContainer smallItems := by
  have hpath : (rootFile "/t.zip").nativePath = "/t.zip" := by decide
  have hlocate : bareScene.disk.locate (rootFile "/t.zip").nativePath = .ok 1 := by
    rw [hpath]
    exact Server.locate_smallDisk smallContainer
  exact .unmounted rfl hlocate rfl

/-- The entry is read while the container is mounted, and once more when it no longer is. -/
def readTwice : List (Scene × Request) :=
  [(mountedScene smallContainer, .call .tryOpen), (mountedScene smallContainer, .call (.read 5)),
    (mountedScene smallContainer, .call (.seek 0 .start)),
    (mountedScene smallContainer, .call .close),
    (bareScene, .call .tryOpen), (bareScene, .call (.read 1))]

theorem kept_readTwice :
    Kept (rootFile "/t.zip") smallContainer smallItems (readTwice.map (·.1)) := by
  refine .ofDisk packs_small.listed (smallDisk smallContainer) ?_
  intro scene hscene
  simp only [readTwice, List.map_cons, List.map_nil, List.mem_cons, List.not_mem_nil,
    or_false] at hscene
  rcases hscene with rfl | rfl | rfl | rfl | rfl | rfl
  · exact ⟨has_mountedScene, rfl⟩
  · exact ⟨has_mountedScene, rfl⟩
  · exact ⟨has_mountedScene, rfl⟩
  · exact ⟨has_mountedScene, rfl⟩
  · exact ⟨has_bareScene, rfl⟩
  · exact ⟨has_bareScene, rfl⟩

/-- The byte is read, the seek back is refused, and the byte is read once more. -/
theorem entry_eq_cursor_small :
    EntryStream.entryPath? smallEntry = some "k" ∧
    Packs smallContainer "k" (smallEntry.queryValue Uri.passwordKey) smallItems [107] ∧
    Kept smallEntry.archiveFile smallContainer smallItems (readTwice.map (·.1)) ∧
    ((entry { uri := smallEntry }).sightsAlong readTwice).map (·.answer)
      = [.ok .done, .ok (.bytes [107]), .error (.backwardSeek smallEntry 1 0), .ok .done,
        .ok .done, .ok (.bytes [107])] := by
  have hpath : EntryStream.entryPath? smallEntry = some "k" := by decide +kernel
  have hpassword : smallEntry.queryValue Uri.passwordKey = none := by decide +kernel
  have hfile : smallEntry.archiveFile = rootFile "/t.zip" := by decide +kernel
  have hpacks : Packs smallContainer "k" (smallEntry.queryValue Uri.passwordKey) smallItems
      [107] := by
    rw [hpassword]
    exact packs_small
  have hkept : Kept smallEntry.archiveFile smallContainer smallItems (readTwice.map (·.1)) := by
    rw [hfile]
    exact kept_readTwice
  refine ⟨hpath, hpacks, hkept, ?_⟩
  rw [(entry_eq_cursor smallEntry hpath hpacks readTwice hkept).1]
  decide +kernel

/-- The container stays mounted while a byte of its file is overwritten between the readings. -/
def readChanged : List (Scene × Request) :=
  [(mountedScene smallContainer, .call .tryOpen), (mountedScene smallContainer, .call (.read 1)),
    (mountedScene smallContainer, .call .close),
    (mountedScene (smallContainer.set 31 0), .call .tryOpen),
    (mountedScene (smallContainer.set 31 0), .call (.read 1))]

/-- That the archive is still mounted does not give an entry the same bytes once more: it is
mapped, and shows the bytes that its file has now. -/
theorem reopened_entry_overwritten :
    Packs smallContainer "k" (smallEntry.queryValue Uri.passwordKey) smallItems [107] ∧
    (∀ step ∈ readChanged,
      step.1.mounts.find? smallEntry.archiveFile = some smallArchive) ∧
    ((entry { uri := smallEntry }).sightsAlong readChanged).map (·.answer)
      = [.ok .done, .ok (.bytes [107]), .ok .done, .ok .done,
        .error (.transfer (.wrongChecksum 0x0862575D 0xD202EF8D))] ∧
    (entry { uri := smallEntry }).sightsAlong readChanged
      ≠ Cursor.sights { uri := smallEntry, contents := [107] } (readChanged.map (·.2)) := by
  have hpassword : smallEntry.queryValue Uri.passwordKey = none := by decide +kernel
  have hfile : smallEntry.archiveFile = rootFile "/t.zip" := by decide +kernel
  have hstream : ((entry { uri := smallEntry }).sightsAlong readChanged).map (·.answer)
      = [.ok .done, .ok (.bytes [107]), .ok .done, .ok .done,
        .error (.transfer (.wrongChecksum 0x0862575D 0xD202EF8D))] := by decide +kernel
  have hcursor : (Cursor.sights { uri := smallEntry, contents := [107] }
      (readChanged.map (·.2))).map (·.answer)
        = [.ok .done, .ok (.bytes [107]), .ok .done, .ok .done, .ok (.bytes [107])] := by
    decide +kernel
  rw [hpassword, hfile]
  refine ⟨packs_small, ?_, hstream, ?_⟩
  · intro step hstep
    simp only [readChanged, List.mem_cons, List.not_mem_nil, or_false] at hstep
    rcases hstep with rfl | rfl | rfl | rfl | rfl <;> exact find?_mountedScene _
  · intro hsame
    rw [hsame, hcursor] at hstream
    simp at hstream

end ArchiveVfs.Stream
