import ArchiveVfs.Proofs.Uri.Appending

/-!
# Parents of URIs

A name put behind a URI is taken off again by its parent (`parent_append`): what is left
is the path as it was, without one slash at its end, and a path that was empty has no parent
again. Every parent has a path that is a shorter beginning of the path below it
(`parent_shorter`), so that climbing ends (`exists_climbs`), whatever the path.
-/

namespace ArchiveVfs.Uri

open Text
open EntryPath (IsPart)

variable {uri directory : Uri} {path : List Char} {name : String}

/-! ## How URIs are made -/

/-- All ways to come by a URI: it is empty, read or put together, or one of these with
parts replaced. -/
inductive Made : Uri → Prop
  | empty : Made {}
  | read {text : String} {uri : Uri} (hread : parse text = .ok uri) : Made uri
  | ofParts (scheme host localPath : String) : Made (ofParts scheme host localPath)
  | withQuery {uri : Uri} (hmade : Made uri) (key value : String) : Made (uri.withQuery key value)
  | withPort {uri : Uri} (hmade : Made uri) (port : Option UInt16) : Made (uri.withPort port)
  | withLocalPath {uri : Uri} (hmade : Made uri) (localPath : String) :
      Made (uri.withLocalPath localPath)

theorem toLower_toLower (c : Char) : c.toLower.toLower = c.toLower := by
  by_cases hascii : c.toNat < 128
  · exact Utf8.of_toNat_lt (P := fun c => c.toLower.toLower = c.toLower) (by decide) hascii
  · have hsame : c.toLower = c := by
      refine dif_neg ?_
      rintro ⟨_, hletter⟩
      exact hascii (Nat.lt_of_le_of_lt hletter (by decide))
    rw [hsame, hsame]

theorem lowerCase_lowerCase (s : String) : lowerCase (lowerCase s) = lowerCase s := by
  rw [lowerCase, lowerCase, String.toList_ofList, List.map_map]
  exact congrArg String.ofList (List.map_congr_left fun c _ => toLower_toLower c)

/-- The scheme of a URI is in lower case. -/
theorem Made.lowerCase_scheme (h : uri.Made) : lowerCase uri.scheme = uri.scheme := by
  induction h with
  | empty => rfl
  | read hread => exact lowerCase_of_lower (Readable.of_parse hread).schemeChars
  | ofParts scheme => exact lowerCase_lowerCase scheme
  | withQuery _ _ _ ih => exact ih
  | withPort _ _ ih => exact ih
  | withLocalPath _ _ ih => exact ih

/-! ## Names put behind paths -/

/-- The path of a directory without one slash at its end, where there is more to it. -/
def directoryPath (path : List Char) : List Char :=
  if dropSlash path = [] then ['/'] else dropSlash path

theorem cutLast_name (hname : IsPart name) :
    cutLast '/' (dropTrailing '/' (appendChars [] name.toList)) = none := by
  rw [dropTrailing_eq_self (getLast?_appendChars hname), appendChars_nil hname]
  exact cutLast_eq_none.2 hname.2

/-- The name is the last segment. -/
theorem fileNameChars_appendChars (hname : IsPart name) :
    fileNameChars (appendChars path name.toList) = name.toList := by
  by_cases hsome : path = []
  · subst hsome
    rw [fileNameChars, cutLast_name hname, dropTrailing_eq_self (getLast?_appendChars hname),
      appendChars_nil hname]
  · rw [fileNameChars, cutLast_appendChars hsome hname]

/-- The path with the name is longer than that of the directory. -/
theorem directoryPath_ne_appendChars (hsome : path ≠ []) (hname : IsPart name) :
    directoryPath path ≠ appendChars path name.toList := by
  have hlength := List.length_pos_iff.2 hname.toList_ne_nil
  intro heq
  have hsame := congrArg List.length heq
  rw [appendChars_name hsome hname, List.length_append, List.length_cons, directoryPath] at hsame
  -- behind what is left of the directory there are the slash and at least one character more
  split at hsame
  · rw [List.length_singleton] at hsame
    omega
  · omega

/-- The parent takes the name off. -/
theorem parentChars_appendChars (hsome : path ≠ []) (hname : IsPart name) :
    parentChars (appendChars path name.toList) = some (directoryPath path) := by
  have hdir : (if (dropSlash path).isEmpty then ['/'] else dropSlash path)
      = directoryPath path := by
    simp only [directoryPath, List.isEmpty_iff]
  simp only [parentChars, cutLast_appendChars hsome hname, hdir,
    if_neg (directoryPath_ne_appendChars hsome hname)]

theorem parentChars_name (hname : IsPart name) :
    parentChars (appendChars [] name.toList) = none := by
  rw [parentChars, cutLast_name hname]

/-- What identifies the directory of what is put behind a URI: scheme, host and port stay, the
query and the fragment go. -/
def holder (uri : Uri) : Uri where
  scheme := uri.scheme
  host := uri.host
  port := uri.port
  localPath := String.ofList (directoryPath uri.localPath.toList)

theorem parent_append (hlower : lowerCase uri.scheme = uri.scheme) (hsome : uri.localPath ≠ "")
    (hname : IsPart name) : (uri.append name).parent = some uri.holder := by
  have hchars : uri.localPath.toList ≠ [] := fun hnil => hsome (String.toList_eq_nil_iff.1 hnil)
  have hscheme : lowerCase (uri.append name).scheme = uri.scheme := hlower
  rw [parent, toList_append, parentChars_appendChars hchars hname, Option.map_some, ofParts,
    hscheme]
  rfl

/-- How a URI with a name put behind it is made up. -/
structure NamedIn (uri : Uri) (name : String) (whole : Uri) : Prop where
  fileName : whole.fileName = name
  scheme : whole.scheme = uri.scheme
  host : whole.host = uri.host
  port : whole.port = uri.port
  query : whole.query = uri.query
  fragment : whole.fragment = uri.fragment
  /-- A name alone is in no directory. -/
  alone : uri.localPath = "" → whole.parent = none
  /-- Any other one is in the directory that it was put into. -/
  parent : uri.localPath ≠ "" → whole.parent = some uri.holder

theorem Made.namedIn (hmade : uri.Made) (hname : IsPart name) :
    NamedIn uri name (uri.append name) := by
  refine ⟨?_, rfl, rfl, rfl, rfl, rfl, ?_, ?_⟩
  · rw [fileName, toList_append, fileNameChars_appendChars hname, String.ofList_toList]
  · intro hempty
    rw [Uri.parent, toList_append, hempty]
    exact congrArg _ (parentChars_name hname)
  · intro hsome
    exact parent_append hmade.lowerCase_scheme hsome hname

/-! ## Climbing -/

/-- What lies before the last segment is a beginning of the path, and less than all of it. -/
theorem parentChars_isPrefix {before : List Char} (h : parentChars path = some before) :
    before <+: path ∧ before ≠ path := by
  rw [parentChars] at h
  split at h
  next => cases h
  next front last hcut =>
    dsimp only at h
    obtain ⟨count, hpath⟩ := exists_dropTrailing '/' path
    rw [(cutLast_eq_some hcut).1, List.append_assoc] at hpath
    have hbegins : (if front.isEmpty then ['/'] else front) <+: path := by
      -- without anything before the last slash, the parent is this slash
      split
      next hempty =>
        rw [List.isEmpty_iff.1 hempty, List.nil_append, List.cons_append] at hpath
        exact ⟨_, hpath.symm⟩
      next => exact ⟨_, hpath.symm⟩
    by_cases hsame : (if front.isEmpty then ['/'] else front) = path
    · rw [if_pos hsame] at h
      cases h
    · rw [if_neg hsame] at h
      rw [← Option.some.inj h]
      exact ⟨hbegins, hsame⟩

/-- The path of a parent is a shorter beginning of the path. -/
theorem parent_shorter (h : uri.parent = some directory) :
    directory.localPath.toList <+: uri.localPath.toList ∧
      directory.localPath.toList.length < uri.localPath.toList.length := by
  rw [parent] at h
  obtain ⟨before, hbefore, rfl⟩ := Option.map_eq_some_iff.1 h
  obtain ⟨hbegins, hne⟩ := parentChars_isPrefix hbefore
  have hpath : (((ofParts uri.scheme uri.host (String.ofList before)).withPort
      uri.port).localPath).toList = before := String.toList_ofList
  rw [hpath]
  exact ⟨hbegins, Nat.lt_of_le_of_ne hbegins.length_le fun hlength =>
    hne (hbegins.eq_of_length hlength)⟩

/-- Taking parents leads from a URI through these directories, and no further. -/
inductive Climbs : Uri → List Uri → Prop
  | top {uri : Uri} (hnone : uri.parent = none) : Climbs uri []
  | step {uri directory : Uri} {above : List Uri} (hparent : uri.parent = some directory)
      (hclimbs : Climbs directory above) : Climbs uri (directory :: above)

/-- Climbing ends: each step takes something off the path. -/
theorem exists_climbs (uri : Uri) :
    ∃ above, uri.Climbs above ∧ above.length ≤ uri.localPath.toList.length := by
  cases hparent : uri.parent with
  | none => exact ⟨[], .top hparent, Nat.zero_le _⟩
  | some directory =>
    have hshorter := (parent_shorter hparent).2
    obtain ⟨above, hclimbs, hlength⟩ := exists_climbs directory
    exact ⟨directory :: above, .step hparent hclimbs, Nat.lt_of_le_of_lt hlength hshorter⟩
termination_by uri.localPath.toList.length

/-- A name put behind a URI is its file name, and the parent takes it off again. Climbing
from any URI ends, and each step makes the path shorter. -/
theorem append_parent_climb :
    (∀ (uri : Uri) (name : String), uri.Made → IsPart name → NamedIn uri name (uri.append name)) ∧
    ∀ uri : Uri,
      (∃ above, uri.Climbs above ∧ above.length ≤ uri.localPath.toList.length) ∧
      ∀ directory, uri.parent = some directory →
        directory.localPath.toList <+: uri.localPath.toList ∧
          directory.localPath.toList.length < uri.localPath.toList.length := by
  refine ⟨fun uri name hmade hname => hmade.namedIn hname, fun uri => ⟨exists_climbs uri, ?_⟩⟩
  intro directory hparent
  exact parent_shorter hparent

/-- A URI that has all parts, of a directory with two slashes at its end. -/
def fullUri : Uri where
  scheme := "mem"
  host := "h"
  port := some 80
  localPath := "/a//"
  query := [("q", "1")]
  fragment := some "f"

/-- One of the two slashes is left, and neither the query nor the fragment. -/
theorem append_parent_climb_full :
    fullUri.Made ∧ IsPart "b c" ∧ (fullUri.append "b c").localPath = "/a//b c" ∧
    (fullUri.append "b c").fileName = "b c" ∧
    (fullUri.append "b c").query = [("q", "1")] ∧ (fullUri.append "b c").fragment = some "f" ∧
    (fullUri.append "b c").parent
      = some { scheme := "mem", host := "h", port := some 80, localPath := "/a/" } ∧
    ∃ above, (fullUri.append "b c").Climbs above := by
  have hread : parse "MEM://h:80/a//?q=1#f" = .ok fullUri := by decide +kernel
  have hname : IsPart "b c" := by
    rw [IsPart]
    decide
  have hholder : fullUri.holder
      = { scheme := "mem", host := "h", port := some 80, localPath := "/a/" } := by decide
  obtain ⟨happend, hclimb⟩ := append_parent_climb
  have hnamed := happend fullUri "b c" (.read hread) hname
  refine ⟨.read hread, hname, by decide, hnamed.fileName, hnamed.query, hnamed.fragment, ?_, ?_⟩
  · rw [hnamed.parent (by decide), hholder]
  · obtain ⟨⟨above, hclimbs, _⟩, _⟩ := hclimb (fullUri.append "b c")
    exact ⟨above, hclimbs⟩

end ArchiveVfs.Uri
