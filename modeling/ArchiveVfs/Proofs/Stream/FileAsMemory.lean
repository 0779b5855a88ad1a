import ArchiveVfs.Proofs.Disk.Paths
import ArchiveVfs.Proofs.Disk.Walking
import ArchiveVfs.Proofs.Stream.Requests
import ArchiveVfs.Proofs.Stream.Serving

/-!
# A file stream is a memory stream

Over a file that nobody else changes, a file stream and a memory stream over the same
bytes cannot be told apart. `Alike` relates the two: they stand at the same place, and
the file holds the buffer. Every request is answered alike and leaves them alike
(`Alike.agree`), so whole runs are seen alike. The one difference is that a file is mapped
in mode read only. As of all streams, the mode is set while they are closed.
-/

namespace ArchiveVfs.Stream

/-- A stream over the file that `uri` names, and one over a buffer with the bytes of the
file, in the same state. The size that a closed file stream keeps does not matter. -/
inductive Alike (disk : Disk) (uri : Uri) (node : NodeId) : Stream → Stream → Prop where
  | closed (mode : AccessMode) (data : Bytes) (size : Nat)
      (hfile : disk.HasFile uri.nativePath node data) :
      Alike disk uri node (.file { uri, mode, size }) (.memory { uri, mode, data })
  | opened (mode : AccessMode) (data : Bytes) (position : Nat) (isMapped : Bool)
      (hfile : disk.HasFile uri.nativePath node data) (hwithin : position ≤ data.length)
      (hview : isMapped = true → mode = .read) :
      Alike disk uri node
        (.file { uri, mode, node := some node, size := data.length, position,
                 viewSize := if isMapped then some data.length else none })
        (.memory { uri, mode, data, position, isOpen := true, isMapped })

namespace Alike

variable {disk : Disk} {uri : Uri} {node : NodeId} {first second : Stream}

theorem mode (h : Alike disk uri node first second) : first.mode = second.mode := by
  cases h <;> rfl

theorem isOpen (h : Alike disk uri node first second) : first.isOpen = second.isOpen := by
  cases h <;> rfl

theorem isMapped (h : Alike disk uri node first second) : first.isMapped = second.isMapped := by
  cases h with
  | closed => rfl
  | opened mode data position isMapped =>
    cases isMapped <;> rfl

theorem standing? (h : Alike disk uri node first second) :
    first.standing? = second.standing? := by
  cases h <;> rfl

theorem readWhole (h : Alike disk uri node first second) (other : Disk) :
    disk.readWhole uri.nativePath = .ok (second.contents other) := by
  cases h with
  | closed _ _ _ hfile => exact hfile.readWhole
  | opened _ _ _ _ hfile => exact hfile.readWhole

/-- The two streams answer a request alike and stay alike. -/
def Agree (mounts : Mounts) (disk other : Disk) (uri : Uri) (node : NodeId)
    (first second : Stream) (request : Request) : Prop :=
  first.answer mounts disk request = second.answer mounts other request ∧
  Alike (first.after mounts disk request).2 uri node (first.after mounts disk request).1
    (second.after mounts other request).1

variable (h : Alike disk uri node first second) (mounts : Mounts) (other : Disk)
include h

theorem setMode (mode : AccessMode) (hclosed : second.isOpen = false) :
    Agree mounts disk other uri node first second (.call (.setMode mode)) := by
  refine ⟨rfl, ?_⟩
  cases h with
  | closed _ data size hfile => exact .closed mode data size hfile
  | opened => cases hclosed

theorem tryOpen : Agree mounts disk other uri node first second (.call .tryOpen) := by
  cases h with
  | closed mode data size hfile =>
    obtain ⟨later, hopen, hlater⟩ := hfile.openNode mode
    have hsize := Disk.size_of_file hlater.content
    have hfirst : (file { uri, mode, size }).tryOpen mounts disk
        = .ok (file { uri, mode, node := some node, size := later.size node,
                      position := if mode = .append then later.size node else 0 }, later) := by
      simp only [Stream.tryOpen, FileStream.tryOpen, hopen]
      rfl
    refine ⟨by rw [answer, hfirst]; rfl, ?_⟩
    show Alike ((file _).changed disk _).2 uri node ((file _).changed disk _).1 _
    rw [hfirst, hsize]
    cases mode with
    | read => exact .opened .read data 0 false hlater (Nat.zero_le _) (fun _ => rfl)
    | write => exact .opened .write [] 0 false hlater (Nat.zero_le _) (by simp)
    | append => exact .opened .append data data.length false hlater (Nat.le_refl _) (by simp)
    | readWrite => exact .opened .readWrite data 0 false hlater (Nat.zero_le _) (by simp)
  | opened mode data position isMapped hfile hwithin hview =>
    exact ⟨rfl, .opened mode data position isMapped hfile hwithin hview⟩

theorem close : Agree mounts disk other uri node first second (.call .close) := by
  refine ⟨rfl, ?_⟩
  cases h with
  | closed mode data size hfile => exact .closed mode data size hfile
  | opened mode data position isMapped hfile => exact .closed mode data data.length hfile

theorem read (count : Nat) :
    Agree mounts disk other uri node first second (.call (.read count)) := by
  cases h with
  | closed mode data size hfile => exact ⟨rfl, .closed mode data size hfile⟩
  | opened mode data position isMapped hfile hwithin hview =>
    by_cases hread : mode.canRead = true
    · have hmoved : position + ((data.drop position).take count).length ≤ data.length := by
        simp only [List.length_take, List.length_drop]
        omega
      have hnext := Alike.opened mode data _ isMapped hfile hmoved hview
      by_cases hzero : count = 0
      · subst hzero
        simp only [Agree, answer, after, perform, Stream.read, FileStream.read,
          MemoryStream.read, hread]
        exact ⟨rfl, hnext⟩
      · simp only [Agree, answer, after, perform, Stream.read, FileStream.read,
          MemoryStream.read, hread, if_neg hzero, Disk.readAt_of_file hfile.content]
        exact ⟨rfl, hnext⟩
    · have hread : mode.canRead = false := by simpa using hread
      simp only [Agree, answer, after, perform, Stream.read, FileStream.read,
        MemoryStream.read, hread]
      exact ⟨rfl, .opened mode data position isMapped hfile hwithin hview⟩

theorem write (new : Bytes) :
    Agree mounts disk other uri node first second (.call (.write new)) := by
  cases h with
  | closed mode data size hfile => exact ⟨rfl, .closed mode data size hfile⟩
  | opened mode data position isMapped hfile hwithin hview =>
    by_cases hwrite : mode.canWrite = true
    · -- a view is there in mode read only, which does not permit writing
      have hplain : isMapped = false := by
        cases isMapped with
        | false => rfl
        | true =>
          rw [hview rfl] at hwrite
          cases hwrite
      subst hplain
      let start := if mode = .append then data.length else position
      have hstart : start ≤ data.length := by
        show (if mode = .append then data.length else position) ≤ data.length
        split
        · exact Nat.le_refl _
        · exact hwithin
      obtain ⟨later, hlater, hkept⟩ := hfile.writeAt hstart new
      have hsize := Bytes.length_overwrite hstart new
      have hnext := Alike.opened mode (data.overwrite start new) (start + new.length) false hkept
        (by omega) (by simp)
      rw [hsize] at hnext
      have hfirst : (file { uri, mode, node := some node, size := data.length, position }).write
          disk new = .ok (file { uri, mode, node := some node, position := start + new.length,
                                 size := max data.length (start + new.length) }, later) := by
        simp only [Stream.write, FileStream.write, hwrite, Disk.size_of_file hfile.content]
        rw [show disk.writeAt node (if mode = .append then data.length else position) new
          = .ok later from hlater]
        rfl
      have hsecond : (memory { uri, mode, data, position, isOpen := true }).write other new
          = .ok (memory { uri, mode, data := data.overwrite start new,
                          position := start + new.length, isOpen := true }, other) := by
        simp only [Stream.write, MemoryStream.write, hwrite]
        rfl
      show Agree mounts disk other uri node
        (file { uri, mode, node := some node, size := data.length, position }) _ _
      simp only [Agree, answer, after, perform, hfirst, hsecond]
      exact ⟨rfl, hnext⟩
    · have hwrite : mode.canWrite = false := by simpa using hwrite
      simp only [Agree, answer, after, perform, Stream.write, FileStream.write,
        MemoryStream.write, hwrite]
      exact ⟨rfl, .opened mode data position isMapped hfile hwithin hview⟩

theorem seek (offset : Int) (origin : Origin) :
    Agree mounts disk other uri node first second (.call (.seek offset origin)) := by
  cases h with
  | closed mode data size hfile => exact ⟨rfl, .closed mode data size hfile⟩
  | opened mode data position isMapped hfile hwithin hview =>
    cases htarget : seekTarget position data.length offset origin with
    | error error =>
      simp only [Agree, answer, after, perform, Stream.seek, FileStream.seek, MemoryStream.seek,
        MemoryStream.size, htarget]
      exact ⟨rfl, .opened mode data position isMapped hfile hwithin hview⟩
    | ok target =>
      simp only [Agree, answer, after, perform, Stream.seek, FileStream.seek, MemoryStream.seek,
        MemoryStream.size, htarget]
      exact ⟨rfl, .opened mode data target isMapped hfile (seekTarget_le htarget) hview⟩

theorem map (hmap : second.isOpen = true → second.mode = .read) :
    Agree mounts disk other uri node first second (.call .map) := by
  cases h with
  | closed mode data size hfile => exact ⟨rfl, .closed mode data size hfile⟩
  | opened mode data position isMapped hfile hwithin hview =>
    obtain rfl : mode = .read := hmap rfl
    have hnext := Alike.opened .read data position true hfile hwithin (fun _ => rfl)
    cases isMapped with
    | true => exact ⟨rfl, hnext⟩
    | false =>
      have hfirst : (file { uri, node := some node, size := data.length, position }).map disk
          = .ok (file { uri, node := some node, size := data.length, position,
                        viewSize := some data.length }) :=
        (Serves.file uri node position hfile.content hwithin).map
      show Agree mounts disk other uri node
        (file { uri, node := some node, size := data.length, position }) _ _
      simp only [Agree, answer, after, perform, hfirst]
      exact ⟨rfl, hnext⟩

theorem unmap : Agree mounts disk other uri node first second (.call .unmap) := by
  refine ⟨rfl, ?_⟩
  cases h with
  | closed mode data size hfile => exact .closed mode data size hfile
  | opened mode data position isMapped hfile hwithin hview =>
    exact .opened mode data position false hfile hwithin (by simp)

theorem flush : Agree mounts disk other uri node first second .flush :=
  ⟨rfl, h⟩

/-- A view shows the present bytes of the file, which are those of the buffer. -/
theorem view : Agree mounts disk other uri node first second .view := by
  refine ⟨?_, h⟩
  cases h with
  | closed mode data size hfile => rfl
  | opened mode data position isMapped hfile hwithin hview =>
    cases isMapped with
    | false => rfl
    | true =>
      simp [answer, Stream.view?, FileStream.view?, MemoryStream.view?,
        Disk.view_of_file hfile.content]

/-- Every permitted request is answered alike and leaves the streams alike. -/
theorem agree (request : Request) (hpermitted : request.Permitted second)
    (hmap : request = .call .map → second.isOpen = true → second.mode = .read) :
    Agree mounts disk other uri node first second request := by
  cases request with
  | flush => exact h.flush mounts other
  | view => exact h.view mounts other
  | call call =>
    cases call with
    | setMode mode => exact h.setMode mounts other mode hpermitted
    | tryOpen => exact h.tryOpen mounts other
    | close => exact h.close mounts other
    | read count => exact h.read mounts other count
    | write new => exact h.write mounts other new
    | seek offset origin => exact h.seek mounts other offset origin
    | map => exact h.map mounts other (hmap rfl)
    | unmap => exact h.unmap mounts other

theorem sight (request : Request) (hpermitted : request.Permitted second)
    (hmap : request = .call .map → second.isOpen = true → second.mode = .read) :
    first.sight mounts disk request = second.sight mounts other request := by
  obtain ⟨hanswer, hnext⟩ := h.agree mounts other request hpermitted hmap
  simp only [Stream.sight, hanswer, hnext.mode, hnext.isMapped, hnext.standing?]

end Alike

/-- Runs of requests are seen alike on streams that are alike, and leave them alike. -/
theorem Alike.run {disk : Disk} {uri : Uri} {node : NodeId} {first second : Stream}
    (h : Alike disk uri node first second) (mounts : Mounts) (other : Disk)
    (requests : List Request) (hpermitted : second.Permitted mounts other requests)
    (hmaps : second.MapsInRead mounts other requests) :
    first.sights mounts disk requests = second.sights mounts other requests ∧
    Alike (first.run mounts disk requests).2 uri node (first.run mounts disk requests).1
      (second.run mounts other requests).1 := by
  induction requests generalizing disk other first second with
  | nil => exact ⟨rfl, h⟩
  | cons request rest ih =>
    obtain ⟨hallowed, hpermitted⟩ := hpermitted
    obtain ⟨hmap, hmaps⟩ := hmaps
    have hnext := (h.agree mounts other request hallowed hmap).2
    obtain ⟨hsights, hrun⟩ := ih hnext (second.after mounts other request).2 hpermitted hmaps
    refine ⟨?_, hrun⟩
    rw [sights, sights, h.sight mounts other request hallowed hmap, hsights]

end ArchiveVfs.Stream
