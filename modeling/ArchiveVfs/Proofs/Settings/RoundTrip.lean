import ArchiveVfs.Proofs.Json.Layout
import ArchiveVfs.Settings

/-!
# Settings written and read back

Reading starts from the defaults and takes the written members one after the other: each
copies its field (`readMember_laidOut`), and the members together copy all fields
(`passes_readMember`). The assigns are put in one by one, in the order of their names, and
so make up the table again. `ofText_toText` joins the parts, for the written form and for
every other layout of it.
-/

namespace ArchiveVfs.Settings

open Json (Ends LaidOut Passes)

variable {later : List (List Char)} {cs : List Char}

/-! ## Assigns -/

/-- Assigns are read by putting each in. -/
theorem passes_readAssign (assigns : Assigns) (entries : List (String × String)) :
    Passes readAssign assigns (entries.map fun entry => (entry.1, .text entry.2))
      (entries.foldl (fun assigns entry => assigns.insert entry.1 entry.2) assigns) := by
  induction entries generalizing assigns with
  | nil => exact .nil assigns
  | cons entry entries ih =>
    refine .cons ?_ (ih (assigns.insert entry.1 entry.2))
    intro later cs hends h
    obtain ⟨value, hcolon, hvalue⟩ := Json.readColon_laidOut h
    obtain ⟨rest, hread, hrest⟩ :=
      Json.readScalar_laidOut acceptText (.text entry.2) rfl hends hvalue
    refine ⟨rest, ?_, hrest⟩
    rw [readAssign, hcolon]
    show (Json.readScalar acceptText value >>= _) = _
    rw [hread]
    rfl

/-- The assigns as they are written. -/
def assignsJson (assigns : Assigns) : Json :=
  .object (assigns.entries.map fun entry => (entry.1, .text entry.2))

theorem readAssigns_laidOut (assigns : Assigns)
    (h : LaidOut ((assignsJson assigns).tokens ++ later) cs) :
    ∃ rest, readAssigns cs = .ok (assigns, rest) ∧ LaidOut later rest := by
  obtain ⟨members, hopen, hmembers⟩ := LaidOut.next h (by decide)
  have hpasses := passes_readAssign .empty assigns.entries
  rw [show List.foldl _ _ _ = assigns from Table.ofList_entries assigns] at hpasses
  obtain ⟨rest, hread, hrest⟩ := Json.readMembers_laidOut hpasses hmembers
  refine ⟨rest, ?_, hrest⟩
  rw [readAssigns, hopen]
  exact hread

/-! ## Fields -/

/-- A field as it is written. -/
def fieldJson (settings : Settings) : Field → Json
  | .archivesEnabled => .bool settings.archivesEnabled
  | .mapsArchives => .bool settings.mapsArchives
  | .platform => .text settings.platform
  | .root =>
    match settings.root with
    | some root => .text root
    | none => .null
  | .assigns => assignsJson settings.assigns
  | .copyBufferSize => sizeJson settings.copyBufferSize
  | .checksumBufferSize => sizeJson settings.checksumBufferSize

/-- The settings with one field as it is in others. -/
def copyField (source settings : Settings) : Field → Settings
  | .archivesEnabled => { settings with archivesEnabled := source.archivesEnabled }
  | .mapsArchives => { settings with mapsArchives := source.mapsArchives }
  | .platform => { settings with platform := source.platform }
  | .root => { settings with root := source.root }
  | .assigns => { settings with assigns := source.assigns }
  | .copyBufferSize => { settings with copyBufferSize := source.copyBufferSize }
  | .checksumBufferSize => { settings with checksumBufferSize := source.checksumBufferSize }

theorem toJson_eq (settings : Settings) :
    settings.toJson = .object (Field.all.map fun field => (field.key, settings.fieldJson field)) :=
  rfl

/-- Settings whose fields have all been copied are equal. -/
theorem foldl_copyField (source settings : Settings) :
    Field.all.foldl (copyField source) settings = source := rfl

theorem find?_key (field : Field) :
    (Field.all.find? fun other => other.key = field.key) = some field := by
  cases field <;> decide

/-- A size is found as a number and fits. -/
theorem foundAs_size (size : UInt64) :
    Json.FoundAs (sizeJson size) (.number (.natural size.toNat)) :=
  .natural size.toNat size.toNat_lt

theorem acceptSize_toNat (size : UInt64) :
    acceptSize (.number (.natural size.toNat)) = .ok size := by
  rw [acceptSize, UInt64.ofNat_toNat]

/-- Reading what is written of a field copies the field. -/
theorem readField_laidOut (source settings : Settings) (field : Field) (hends : Ends later)
    (h : LaidOut ((source.fieldJson field).tokens ++ later) cs) :
    ∃ rest, readField settings field cs = .ok (source.copyField settings field, rest) ∧
      LaidOut later rest := by
  cases field with
  | archivesEnabled =>
    obtain ⟨rest, hread, hrest⟩ :=
      Json.readScalar_laidOut acceptBool (.bool source.archivesEnabled) rfl hends h
    exact ⟨rest, by rw [readField, hread]; rfl, hrest⟩
  | mapsArchives =>
    obtain ⟨rest, hread, hrest⟩ :=
      Json.readScalar_laidOut acceptBool (.bool source.mapsArchives) rfl hends h
    exact ⟨rest, by rw [readField, hread]; rfl, hrest⟩
  | platform =>
    obtain ⟨rest, hread, hrest⟩ :=
      Json.readScalar_laidOut acceptText (.text source.platform) rfl hends h
    exact ⟨rest, by rw [readField, hread]; rfl, hrest⟩
  | root =>
    -- null stands for the present directory
    obtain ⟨found, hfound, haccept⟩ : ∃ found, Json.FoundAs (source.fieldJson .root) found ∧
        acceptPath found = .ok source.root := by
      cases hroot : source.root with
      | none =>
        refine ⟨.null, ?_, rfl⟩
        rw [fieldJson, hroot]
        exact .null
      | some root =>
        refine ⟨.text root, ?_, rfl⟩
        rw [fieldJson, hroot]
        exact .text root
    obtain ⟨rest, hread, hrest⟩ := Json.readScalar_laidOut acceptPath hfound haccept hends h
    exact ⟨rest, by rw [readField, hread]; rfl, hrest⟩
  | assigns =>
    obtain ⟨rest, hread, hrest⟩ := readAssigns_laidOut source.assigns h
    exact ⟨rest, by rw [readField, hread]; rfl, hrest⟩
  | copyBufferSize =>
    obtain ⟨rest, hread, hrest⟩ := Json.readScalar_laidOut acceptSize
      (foundAs_size source.copyBufferSize) (acceptSize_toNat _) hends h
    exact ⟨rest, by rw [readField, hread]; rfl, hrest⟩
  | checksumBufferSize =>
    obtain ⟨rest, hread, hrest⟩ := Json.readScalar_laidOut acceptSize
      (foundAs_size source.checksumBufferSize) (acceptSize_toNat _) hends h
    exact ⟨rest, by rw [readField, hread]; rfl, hrest⟩

/-- A member whose field was not given yet copies the field. -/
theorem readMember_laidOut (source settings : Settings) {given : List Field} {field : Field}
    (hnew : field ∉ given) (hends : Ends later)
    (h : LaidOut ([':'] :: ((source.fieldJson field).tokens ++ later)) cs) :
    ∃ rest, readMember (settings, given) field.key cs
        = .ok ((source.copyField settings field, field :: given), rest) ∧
      LaidOut later rest := by
  obtain ⟨value, hcolon, hvalue⟩ := Json.readColon_laidOut h
  obtain ⟨rest, hread, hrest⟩ := readField_laidOut source settings field hends hvalue
  refine ⟨rest, ?_, hrest⟩
  have hfresh : given.contains field = false := by simpa using hnew
  simp only [readMember, find?_key, hfresh, hcolon, Except.bind, hread]
  rfl

/-- The members of fields copy the fields, if none is given twice. -/
theorem passes_readMember (source settings : Settings) (given fields : List Field)
    (hnodup : fields.Nodup) (hnew : ∀ field ∈ fields, field ∉ given) :
    Passes readMember (settings, given)
      (fields.map fun field => (field.key, source.fieldJson field))
      (fields.foldl (copyField source) settings, fields.reverse ++ given) := by
  induction fields generalizing settings given with
  | nil => exact .nil _
  | cons field fields ih =>
    obtain ⟨hother, hnodup⟩ := List.nodup_cons.1 hnodup
    obtain ⟨hfirst, hrest⟩ := List.forall_mem_cons.1 hnew
    have hlater : ∀ other ∈ fields, other ∉ field :: given := by
      intro other hin hgiven
      rcases List.mem_cons.1 hgiven with rfl | hgiven
      · exact hother hin
      · exact hrest other hin hgiven
    refine .cons (readMember_laidOut source settings hfirst) ?_
    rw [List.reverse_cons, List.append_assoc]
    exact ih (source.copyField settings field) (field :: given) hnodup hlater

/-! ## Whole texts -/

/-- Every layout of the written settings is read as the settings. -/
theorem readWhole_laidOut (settings : Settings) (h : LaidOut settings.toJson.tokens cs) :
    readWhole cs = .ok settings := by
  rw [toJson_eq, ← List.append_nil (Json.tokens _)] at h
  obtain ⟨members, hopen, hmembers⟩ := LaidOut.next h (by decide)
  have hpasses := passes_readMember settings {} [] Field.all (by decide)
    fun _ _ => List.not_mem_nil
  rw [foldl_copyField] at hpasses
  obtain ⟨rest, hread, hrest⟩ := Json.readMembers_laidOut hpasses hmembers
  have hend : Json.demandEnd rest = .ok () := by
    rw [Json.demandEnd, ← List.append_nil rest, Json.skipBlanks_append hrest]
    rfl
  have hsettings : readSettings cs = .ok (settings, rest) := by
    rw [readSettings, hopen]
    show (Json.readMembers readMember (members.length + 1) true ({}, []) members).map _ = _
    rw [hread]
    rfl
  rw [readWhole, hsettings]
  show (Json.demandEnd rest >>= _) = _
  rw [hend]
  rfl

/-- Settings that can be used are read back from their written form, and from every text
that differs from it only in blanks between the tokens. -/
theorem ofText_toText (settings : Settings) (hvalid : settings.validate = .ok ()) :
    ofText settings.toText = .ok settings ∧
    ∀ text : String, LaidOut settings.toJson.tokens text.toList → ofText text = .ok settings := by
  have hall (text : String) (h : LaidOut settings.toJson.tokens text.toList) :
      ofText text = .ok settings := by
    rw [ofText, readWhole_laidOut settings h]
    show settings.validate.map _ = _
    rw [hvalid]
    rfl
  refine ⟨hall settings.toText ?_, hall⟩
  rw [toText, Json.render, String.toList_ofList, ← Json.flatten_tokens]
  exact Json.laidOut_flatten _

/-- Settings with a quote, a backslash and control characters in their texts. -/
def oddSettings : Settings where
  mapsArchives := false
  platform := "a\"b\\\x01\n"
  root := some "/tmp/\x1f é"
  assigns := (Table.empty.insert "data" "root:data/").insert "a/\t" ""
  copyBufferSize := 18446744073709551615
  checksumBufferSize := 1

/-- The odd settings with each token on a line of its own. -/
def oddText : String :=
  String.ofList (oddSettings.toJson.tokens.flatMap fun token => ['\n', ' ', '\t'] ++ token)

theorem ofText_toText_odd :
    ofText oddSettings.toText = .ok oddSettings ∧ ofText oddText = .ok oddSettings := by
  have hvalid : oddSettings.validate = .ok () := by
    have hnone : oddSettings.fault? = none := by decide +kernel
    rw [validate, hnone]
  have hblanks : ∀ c ∈ ['\n', ' ', '\t'], Json.isBlank c = true := List.all_eq_true.1 rfl
  have hlaid : LaidOut oddSettings.toJson.tokens oddText.toList := by
    rw [oddText, String.toList_ofList]
    exact Json.laidOut_flatMap hblanks _
  exact ⟨(ofText_toText oddSettings hvalid).1, (ofText_toText oddSettings hvalid).2 oddText hlaid⟩

end ArchiveVfs.Settings
