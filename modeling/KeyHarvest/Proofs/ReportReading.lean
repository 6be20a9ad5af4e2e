import KeyHarvest.Proofs.WrittenBlocks
import KeyHarvest.Report.Reader

/-!
# A JSON report loses nothing

Each record of a report is read back by the reader of records (`Record.isRead`), each file with its
records by the reader of files (`Report.isRead_file`), and so the whole report gives the files with
keys again, in their order and with all their records (`Report.readFiles_json`). As a JSON text the
report is one list of objects.
-/
namespace KeyHarvest

open Json

/-! ### Records -/

namespace Record

theorem readMember_key (key rest : Text) :
    readMember keyField ⟨none, none⟩ (": ".toList ++ escape key ++ rest) =
      .ok (⟨some key, none⟩, rest) := by
  rw [readMember, if_pos rfl]
  dsimp only
  rw [readField_colon (isRead_text key)]
  rfl

theorem readMember_defaultValue (key value rest : Text) :
    readMember defaultValueField ⟨some key, none⟩ (": ".toList ++ escape value ++ rest) =
      .ok (⟨some key, some (some value)⟩, rest) := by
  have other : defaultValueField ≠ keyField := by decide
  rw [readMember, if_neg other, if_pos rfl]
  dsimp only
  rw [readField_colon (isRead_text? value)]
  rfl

/-- A default value that is left out is not read, and one that is empty is read as empty. -/
theorem leads_readMember (level : Nat) (record : Record) :
    Leads readMember ⟨none, none⟩ (record.members.map (memberParts level))
      ⟨some record.key, record.defaultValue.map some⟩ := by
  obtain ⟨key, defaultValue⟩ := record
  refine .step (fun rest => readMember_key key rest) ?_
  cases defaultValue with
  | none => exact .done _
  | some value => exact .step (fun rest => readMember_defaultValue key value rest) (.done _)

theorem isRead (level : Nat) (record : Record) :
    IsRead Record.read (record.toValue.pretty level) record := by
  rw [toValue, Value.pretty, prettyMembers_eq_map]
  refine isRead_members (fun input inner rest stands read => ?_)
    (leads_readMember (level + 1) record) level
  rw [Record.read, stands]
  change ((Json.readMembers readMember ⟨none, none⟩ inner).bind _) = _
  rw [read]
  obtain ⟨key, defaultValue⟩ := record
  cases defaultValue <;> rfl

theorem isRead_toValue (depth level : Nat) (record : Record) :
    IsRead (readValue (depth + 2)) (record.toValue.pretty level) record.toValue := by
  refine isRead_object fun member listed => ?_
  obtain ⟨key, defaultValue⟩ := record
  cases defaultValue <;> simp only [members, Option.map_none, Option.map_some, Option.toList_none,
    Option.toList_some, List.mem_cons, List.not_mem_nil, or_false] at listed
  · subst listed
    exact isRead_string depth key
  · rcases listed with rfl | rfl
    · exact isRead_string depth key
    · exact isRead_string depth _

end Record

/-! ### Reports -/

namespace Report

theorem prettyItems_map {α : Type} (level : Nat) (toValue : α → Value) (items : List α) :
    prettyItems level (items.map toValue) = items.map fun x => (toValue x).pretty level := by
  rw [prettyItems_eq_map, List.map_map]
  rfl

theorem isRead_records (level : Nat) (records : List Record) :
    IsRead (readList Record.read) ((Value.array (records.map Record.toValue)).pretty level)
      records := by
  rw [Value.pretty, prettyItems_map]
  have areRead := isRead_list (fun record (_ : record ∈ records) =>
    record.isRead (level + 1)) level
  rwa [List.map_id'] at areRead

theorem readFileMember_file (path rest : Text) :
    readFileMember fileField ⟨none, none⟩ (": ".toList ++ escape path ++ rest) =
      .ok (⟨some path, none⟩, rest) := by
  rw [readFileMember, if_pos rfl]
  dsimp only
  rw [readField_colon (isRead_text path)]
  rfl

theorem readFileMember_keys (path : Text) (level : Nat) (records : List Record) (rest : Text) :
    readFileMember keysField ⟨some path, none⟩
        (": ".toList ++ (Value.array (records.map Record.toValue)).pretty level ++ rest) =
      .ok (⟨some path, some records⟩, rest) := by
  have other : keysField ≠ fileField := by decide
  rw [readFileMember, if_neg other, if_pos rfl]
  dsimp only
  rw [readField_colon (isRead_records level records)]
  rfl

theorem isRead_file (level : Nat) (file : FileExtraction) :
    IsRead readFile ((fileValue file).pretty level) (file.path, file.records) := by
  rw [fileValue, Value.pretty, prettyMembers_eq_map]
  have leads : Leads readFileMember ⟨none, none⟩
      ((fileMembers file).map (memberParts (level + 1))) ⟨some file.path, some file.records⟩ :=
    .step (fun rest => readFileMember_file file.path rest)
      (.step (fun rest => readFileMember_keys file.path (level + 1) file.records rest) (.done _))
  refine isRead_members (fun input inner rest stands read => ?_) leads level
  rw [readFile, stands]
  change ((Json.readMembers readFileMember ⟨none, none⟩ inner).bind _) = _
  rw [read]
  rfl

theorem isRead_fileValue (depth level : Nat) (file : FileExtraction) :
    IsRead (readValue (depth + 4)) ((fileValue file).pretty level) (fileValue file) := by
  refine isRead_object fun member listed => ?_
  have both : member = (fileField, .string file.path) ∨
      member = (keysField, .array (file.records.map Record.toValue)) := by
    simpa [fileMembers] using listed
  rcases both with rfl | rfl
  · exact isRead_string _ file.path
  · refine isRead_array fun item listed => ?_
    obtain ⟨record, -, rfl⟩ := List.mem_map.mp listed
    exact record.isRead_toValue depth _

/-- A reader that takes a text reads it whole, also with a line feed at its end. -/
theorem readWhole_line {α : Type} {reader : Reader α} {text : Text} {value : α}
    (isRead : IsRead reader text value) : readWhole reader (line text) = .ok value := by
  have none : IsGaps [] := by simp [IsGaps]
  have taken := isRead.read (line text) ['\n'] (isRead.skipGaps_append none ['\n'])
  exact readWhole_eq_ok_iff.mpr ⟨['\n'], taken, rfl⟩

theorem isRead_files (level : Nat) (files : List FileExtraction) :
    IsRead readFiles ((Value.array (files.map fileValue)).pretty level)
      (files.map fun file => (file.path, file.records)) := by
  rw [Value.pretty, prettyItems_map]
  exact isRead_list (fun file _ => isRead_file (level + 1) file) level

/-- A JSON report is one list of objects, and gives back the path and the records of every file that
has records, in order. -/
theorem readFiles_json (batch : Batch) :
    parse (json batch) =
        .ok (.array ((batch.files.filter fun file => !file.records.isEmpty).map fileValue)) ∧
      readWhole readFiles (json batch) =
        .ok ((batch.files.filter fun file => !file.records.isEmpty).map fun file =>
          (file.path, file.records)) := by
  refine ⟨readWhole_line (isRead_array fun item listed => ?_), readWhole_line (isRead_files 0 _)⟩
  obtain ⟨file, -, rfl⟩ := List.mem_map.mp listed
  exact isRead_fileValue 123 1 file

end Report
end KeyHarvest
