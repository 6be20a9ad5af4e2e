import KeyHarvest.Config.Lookup
import KeyHarvest.Proofs.WrittenBlocks
import KeyHarvest.Proofs.WrittenBytes

/-!
# A written configuration is read back

The members of a written configuration lead its reader to all six settings: the four fields are
known to it, and the markers are kept among the other members (`Config.leads_readMember`) and taken
from there at the end. So the text of a configuration holds that configuration
(`Config.parse_text`), in one object with all six settings side by side (`Config.isRead_toValue`),
and so does a file with the bytes of that text (`Config.writtenAs_text`).
-/
namespace KeyHarvest

open Json

theorem isRead_strings (level : Nat) (texts : List Text) :
    IsRead readTexts ((Value.strings texts).pretty level) texts := by
  rw [Value.strings, Value.pretty, prettyItems_eq_map, List.map_map]
  have areRead := isRead_list (fun text (_ : text ∈ texts) => isRead_text text) level
  rw [List.map_id'] at areRead
  exact areRead

/-- The same list is read as a value of any type. -/
theorem isRead_stringsValue (depth level : Nat) (texts : List Text) :
    IsRead (readValue (depth + 2)) ((Value.strings texts).pretty level) (.strings texts) := by
  refine isRead_array fun item stands => ?_
  obtain ⟨text, -, rfl⟩ := List.mem_map.mp stands
  exact isRead_string depth text

theorem readWhole_of_isRead {α : Type} {reader : Reader α} {text : Text} {value : α}
    (isRead : IsRead reader text value) : readWhole reader text = .ok value := by
  have none : IsGaps [] := by simp [IsGaps]
  have stands : skipGaps text = text ++ [] := by simpa using isRead.skipGaps_append none []
  exact readWhole_eq_ok_iff.mpr ⟨[], isRead.read text [] stands, rfl⟩

namespace Config

/-- A member that is not known here is kept as it is. -/
theorem readMember_string (fields : Fields) {name : Text}
    (other : name ∉ [includesField, ignoresField, extensionsField, sourceRootField])
    (value rest : Text) :
    readMember name fields (": ".toList ++ escape value ++ rest) =
      .ok ({ fields with others := (name, .string value) :: fields.others }, rest) := by
  simp only [List.mem_cons, List.not_mem_nil, or_false, not_or] at other
  obtain ⟨noIncludes, noIgnores, noExtensions, noSourceRoot⟩ := other
  have isRead : IsRead (readValue (depthLimit - 1)) (escape value) (.string value) :=
    isRead_string (depthLimit - 2) value
  obtain ⟨inner, colon, read⟩ := read_behindColon isRead rest
  have kept := keepMember_eq_ok_iff.mpr
    ⟨inner, .string value, colon, read, (rfl : (name, _) :: fields.others = _)⟩
  rw [readMember, if_neg noIncludes, if_neg noIgnores, if_neg noExtensions, if_neg noSourceRoot,
    kept]
  rfl

theorem readMember_includes {fields : Fields} (first : fields.includes = none) (level : Nat)
    (includes : List Text) (rest : Text) :
    readMember includesField fields
        (": ".toList ++ (Value.strings includes).pretty level ++ rest) =
      .ok ({ fields with includes := some includes }, rest) := by
  rw [readMember, if_pos rfl, first, readField_colon (isRead_strings level includes)]
  rfl

theorem readMember_ignores {fields : Fields} (first : fields.ignores = none) (level : Nat)
    (ignores : List Text) (rest : Text) :
    readMember ignoresField fields (": ".toList ++ (Value.strings ignores).pretty level ++ rest) =
      .ok ({ fields with ignores := some ignores }, rest) := by
  rw [readMember, if_neg (by decide), if_pos rfl, first,
    readField_colon (isRead_strings level ignores)]
  rfl

theorem readMember_extensions {fields : Fields} (first : fields.extensions = none) (level : Nat)
    (extensions : List Text) (rest : Text) :
    readMember extensionsField fields
        (": ".toList ++ (Value.strings extensions).pretty level ++ rest) =
      .ok ({ fields with extensions := some extensions }, rest) := by
  rw [readMember, if_neg (by decide), if_neg (by decide), if_pos rfl, first,
    readField_colon (isRead_strings level extensions)]
  rfl

theorem readMember_sourceRoot {fields : Fields} (first : fields.sourceRoot = none)
    (sourceRoot rest : Text) :
    readMember sourceRootField fields (": ".toList ++ escape sourceRoot ++ rest) =
      .ok ({ fields with sourceRoot := some sourceRoot }, rest) := by
  rw [readMember, if_neg (by decide), if_neg (by decide), if_neg (by decide), if_pos rfl, first,
    readField_colon (isRead_text sourceRoot)]
  rfl

/-- All fields are read, and the markers are kept, last first. -/
def writtenFields (config : Config) : Fields :=
  ⟨some config.includes, some config.ignores, some config.extensions, some config.sourceRoot,
    config.markers.toMembers.reverse⟩

theorem leads_readMember (level : Nat) (config : Config) :
    ∃ members, config.toValue = .object members ∧
      Leads readMember ⟨none, none, none, none, []⟩ (members.map (memberParts level))
        config.writtenFields := by
  refine ⟨_, rfl, ?_⟩
  have other : Markers.attrField ∉
      [includesField, ignoresField, extensionsField, sourceRootField] := by decide
  have other' : Markers.optionAttrField ∉
      [includesField, ignoresField, extensionsField, sourceRootField] := by decide
  -- The members in the order in which they are written.
  refine .step (fun rest => readMember_string _ other config.markers.attr rest) ?_
  refine .step (fun rest => readMember_string _ other' config.markers.optionAttr rest) ?_
  refine .step (fun rest => readMember_includes rfl level config.includes rest) ?_
  refine .step (fun rest => readMember_ignores rfl level config.ignores rest) ?_
  refine .step (fun rest => readMember_extensions rfl level config.extensions rest) ?_
  exact .step (fun rest => readMember_sourceRoot rfl config.sourceRoot rest) (.done _)

theorem isRead (level : Nat) (config : Config) :
    IsRead Config.read (config.toValue.pretty level) config := by
  obtain ⟨members, written, leads⟩ := leads_readMember (level + 1) config
  rw [written, Value.pretty, prettyMembers_eq_map]
  refine isRead_members (fun input inner rest stands read => ?_) leads level
  rw [Config.read, stands]
  change ((readMembers readMember ⟨none, none, none, none, []⟩ inner).bind _) = _
  rw [read]
  rfl

/-- The text of a configuration holds the configuration. -/
theorem parse_text (config : Config) : parse config.text = .ok config :=
  readWhole_of_isRead (config.isRead 0)

/-! ### The members of a written configuration -/

/-- Each member is a string or a list of strings, so the object is nested two levels deep. -/
theorem isRead_toValue (config : Config) :
    IsRead (readValue depthLimit) config.text config.toValue := by
  refine @isRead_object 126 0 _ fun member stands => ?_
  have string (text : Text) : IsRead (readValue 127) (escape text) (.string text) :=
    isRead_string 126 text
  have strings (texts : List Text) :
      IsRead (readValue 127) ((Value.strings texts).pretty 1) (.strings texts) :=
    isRead_stringsValue 125 1 texts
  simp only [Markers.toMembers, List.cons_append, List.nil_append, List.mem_cons,
    List.not_mem_nil, or_false] at stands
  rcases stands with rfl | rfl | rfl | rfl | rfl | rfl
  · exact string config.markers.attr
  · exact string config.markers.optionAttr
  · exact strings config.includes
  · exact strings config.ignores
  · exact strings config.extensions
  · exact string config.sourceRoot

/-- A written configuration is read back as it was, with the same verdict on its validity. Its text
is one object, in which the markers stand beside the other fields. -/
theorem roundTrip_text (config : Config) :
    parse config.text = .ok config ∧
      (parse config.text).map fault? = .ok config.fault? ∧
      Json.parse config.text = .ok (.object
        [("attr".toList, .string config.markers.attr),
          ("optionAttr".toList, .string config.markers.optionAttr),
          ("includes".toList, .array (config.includes.map .string)),
          ("ignores".toList, .array (config.ignores.map .string)),
          ("extensions".toList, .array (config.extensions.map .string)),
          ("sourceRoot".toList, .string config.sourceRoot)]) := by
  have parsed := config.parse_text
  refine ⟨parsed, ?_, readWhole_of_isRead config.isRead_toValue⟩
  rw [parsed]
  rfl

/-! ### Configuration files -/

/-- The content is that of a file with this configuration. -/
def WrittenAs (config : Config) (content : List UInt8) : Prop :=
  ∃ text, decode? content = some text ∧ parse text = .ok config

theorem writtenAs_text (config : Config) : config.WrittenAs (encode config.text) :=
  ⟨config.text, decode?_encode config.text, config.parse_text⟩

variable {workspace : Workspace} {path : Text} {config : Config}

/-- A configuration that is read from a file is loaded unless it has a fault. -/
theorem loadFile_of_writtenAs {content : List UInt8} (stands : workspace.read path = .ok content)
    (written : config.WrittenAs content) :
    loadFile workspace path =
      match config.fault? with
      | some fault => .error (.invalid fault)
      | none => .ok config := by
  obtain ⟨text, decoded, parsed⟩ := written
  have read : workspace.readText path = .ok text := by
    simp only [Workspace.readText, stands, decoded]
  cases fault : config.fault? with
  | some problem => simp only [loadFile, read, parsed, fault]
  | none => simp only [loadFile, read, parsed, fault]

theorem loadFile_of_valid {content : List UInt8} (stands : workspace.read path = .ok content)
    (written : config.WrittenAs content) (valid : config.fault? = none) :
    loadFile workspace path = .ok config := by
  rw [loadFile_of_writtenAs stands written, valid]

/-- The defaults are valid. -/
theorem fault?_default : default.fault? = none := by decide +kernel

theorem exists_read_of_loadFile (loaded : loadFile workspace path = .ok config) :
    ∃ content, workspace.read path = .ok content := by
  rw [loadFile, Workspace.readText] at loaded
  cases stands : workspace.read path with
  | error problem =>
    rw [stands] at loaded
    cases loaded
  | ok content => exact ⟨content, rfl⟩

end Config
end KeyHarvest
