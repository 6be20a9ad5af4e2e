import KeyHarvest.Config.Given
import KeyHarvest.Proofs.ReadMembers
import Mathlib.Data.List.Basic
import Mathlib.Data.Option.Basic

/-!
# Configurations that give some of the settings

While the members of an object are read, what was read of a setting and what still follows of it
make up what is given (`Config.Awaits`, preserved by `Config.readMember_takesEach`); the markers
are among the members that were kept, and are taken from these in the same way
(`Config.takeMarkers_of_awaits`). At the end all that is given was read, and the other settings have
their defaults, wherever the members stand and whatever stands between them
(`Config.parse_of_isGivenBy`).
-/
namespace KeyHarvest.Config

open Json

variable {α : Type}

/-! ### One setting -/

/-- A setting of which `before` was read is the `given` one if the `values` that follow are read,
too. -/
def SettingAwaits (meant : α → Value) (before given : Option α) (values : List Value) : Prop :=
  (before.map meant).toList ++ values = (given.map meant).toList

namespace SettingAwaits

variable {meant : α → Value} {before given : Option α} {value : Value} {values : List Value}

/-- A value that follows is the first and the only one. -/
theorem take (awaits : SettingAwaits meant before given (value :: values)) :
    before = none ∧ ∃ read, value = meant read ∧ SettingAwaits meant (some read) given values := by
  unfold SettingAwaits at awaits
  cases given with
  | none => simp at awaits
  | some read =>
    cases before with
    | some first => simp at awaits
    | none =>
      obtain ⟨rfl, rfl⟩ : value = meant read ∧ values = [] := by simpa using awaits
      exact ⟨rfl, read, rfl, by simp [SettingAwaits]⟩

theorem done (injective : Function.Injective meant)
    (awaits : SettingAwaits meant before given []) : before = given := by
  have same : before.map meant = given.map meant := by
    rw [SettingAwaits, List.append_nil] at awaits
    simpa using congrArg List.head? awaits
  exact Option.map_injective injective same

end SettingAwaits

theorem string_injective : Function.Injective Value.string := fun _ _ => Value.string.inj

theorem strings_injective : Function.Injective Value.strings := fun _ _ same =>
  List.map_injective_iff.mpr string_injective (Value.array.inj same)

/-! ### The values of a name -/

section ValuesOf

variable {name other : Text} {value : Value} {members members' : List (Text × Value)}

theorem valuesOf_cons_self : valuesOf name ((name, value) :: members) =
    value :: valuesOf name members := by
  simp [valuesOf]

theorem valuesOf_cons_of_ne (differs : other ≠ name) :
    valuesOf name ((other, value) :: members) = valuesOf name members := by
  simp [valuesOf, differs]

/-- Other members may be left out. -/
theorem valuesOf_filter {keep : Text × Value → Bool} (kept : ∀ value, keep (name, value) = true) :
    valuesOf name (members.filter keep) = valuesOf name members := by
  rw [valuesOf, List.filter_filter]
  refine congrArg _ (List.filter_congr fun member _ => ?_)
  obtain ⟨name', value⟩ := member
  by_cases same : name' = name
  · simp [same, kept]
  · simp [same]

/-- The order of the members, and the members that are no settings, make no difference. -/
theorem valuesOf_perm (known : name ∈ settingNames)
    (same : (settings members').Perm (settings members)) :
    (valuesOf name members').Perm (valuesOf name members) := by
  have isSetting (members : List (Text × Value)) :
      valuesOf name (settings members) = valuesOf name members :=
    valuesOf_filter fun _ => decide_eq_true known
  rw [← isSetting members', ← isSetting members]
  exact (same.filter _).map _

theorem eq_toList_of_perm {list : List α} {item : Option α} (same : list.Perm item.toList) :
    list = item.toList := by
  cases item with
  | none => exact same.eq_nil
  | some item => exact List.perm_singleton.mp same

theorem Given.IsGivenBy.perm {given : Given} (isGiven : given.IsGivenBy members)
    (same : (settings members').Perm (settings members)) : given.IsGivenBy members' where
  attr := eq_toList_of_perm (isGiven.attr ▸ valuesOf_perm (by decide) same)
  optionAttr := eq_toList_of_perm (isGiven.optionAttr ▸ valuesOf_perm (by decide) same)
  includes := eq_toList_of_perm (isGiven.includes ▸ valuesOf_perm (by decide) same)
  ignores := eq_toList_of_perm (isGiven.ignores ▸ valuesOf_perm (by decide) same)
  extensions := eq_toList_of_perm (isGiven.extensions ▸ valuesOf_perm (by decide) same)
  sourceRoot := eq_toList_of_perm (isGiven.sourceRoot ▸ valuesOf_perm (by decide) same)

end ValuesOf

/-! ### Reading the members -/

/-- What is not known to the reader of the other four settings. -/
def unread (members : List (Text × Value)) : List (Text × Value) :=
  members.filter fun member =>
    !([includesField, ignoresField, extensionsField, sourceRootField].contains member.1)

/-- With the `members` that follow, the fields will hold the given settings, and all members that
stand between these. -/
structure Awaits (given : Given) (all : List (Text × Value)) (fields : Fields)
    (members : List (Text × Value)) : Prop where
  includes : SettingAwaits .strings fields.includes given.includes (valuesOf includesField members)
  ignores : SettingAwaits .strings fields.ignores given.ignores (valuesOf ignoresField members)
  extensions : SettingAwaits .strings fields.extensions given.extensions
    (valuesOf extensionsField members)
  sourceRoot : SettingAwaits .string fields.sourceRoot given.sourceRoot
    (valuesOf sourceRootField members)
  others : fields.others.reverse ++ unread members = unread all

/-- The value of a setting that is awaited is read, and is the last of its name. -/
theorem readField_awaits {reader : Reader α} {meant : α → Value} {depth : Nat}
    (retakes : Retakes (readValue depth) meant reader) {name text inner rest : Text} {read : Value}
    {before given : Option α} {values : List Value}
    (awaits : SettingAwaits meant before given (read :: values))
    (colon : readColon text = .ok inner) (taken : readValue depth inner = .ok (read, rest)) :
    ∃ value, readField name before reader text = .ok (some value, rest) ∧
      SettingAwaits meant (some value) given values := by
  obtain ⟨rfl, value, rfl, goesOn⟩ := awaits.take
  exact ⟨value, readField_first colon (retakes inner value rest taken), goesOn⟩

/-- A member is read as the field of its name or kept; either way the others are awaited. -/
theorem readMember_takesEach (given : Given) (all : List (Text × Value)) :
    TakesEach (readValue (depthLimit - 1)) readMember (Awaits given all) := by
  intro fields name read members text inner rest awaits colon taken
  obtain ⟨includes, ignores, extensions, sourceRoot, others⟩ := awaits
  -- The names in the order in which the reader asks for them.
  by_cases isIncludes : name = includesField
  · subst isIncludes
    rw [valuesOf_cons_self] at includes
    obtain ⟨texts, field, goesOn⟩ := readField_awaits (retakes_texts _) includes colon taken
    refine ⟨{ fields with includes := some texts }, ?_, goesOn, ignores, extensions, sourceRoot,
      others⟩
    rw [readMember, if_pos rfl, field]
    rfl
  rw [valuesOf_cons_of_ne isIncludes] at includes
  by_cases isIgnores : name = ignoresField
  · subst isIgnores
    rw [valuesOf_cons_self] at ignores
    obtain ⟨texts, field, goesOn⟩ := readField_awaits (retakes_texts _) ignores colon taken
    refine ⟨{ fields with ignores := some texts }, ?_, includes, goesOn, extensions, sourceRoot,
      others⟩
    rw [readMember, if_neg isIncludes, if_pos rfl, field]
    rfl
  rw [valuesOf_cons_of_ne isIgnores] at ignores
  by_cases isExtensions : name = extensionsField
  · subst isExtensions
    rw [valuesOf_cons_self] at extensions
    obtain ⟨texts, field, goesOn⟩ := readField_awaits (retakes_texts _) extensions colon taken
    refine ⟨{ fields with extensions := some texts }, ?_, includes, ignores, goesOn, sourceRoot,
      others⟩
    rw [readMember, if_neg isIncludes, if_neg isIgnores, if_pos rfl, field]
    rfl
  rw [valuesOf_cons_of_ne isExtensions] at extensions
  by_cases isSourceRoot : name = sourceRootField
  · subst isSourceRoot
    rw [valuesOf_cons_self] at sourceRoot
    obtain ⟨content, field, goesOn⟩ := readField_awaits (retakes_text _) sourceRoot colon taken
    refine ⟨{ fields with sourceRoot := some content }, ?_, includes, ignores, extensions, goesOn,
      others⟩
    rw [readMember, if_neg isIncludes, if_neg isIgnores, if_neg isExtensions, if_pos rfl, field]
    rfl
  rw [valuesOf_cons_of_ne isSourceRoot] at sourceRoot
  -- A marker, or a member that nobody knows.
  have isUnread : unread ((name, read) :: members) = (name, read) :: unread members := by
    simp [unread, isIncludes, isIgnores, isExtensions, isSourceRoot]
  have kept : keepMember (readValue (depthLimit - 1)) name fields.others text =
      .ok ((name, read) :: fields.others, rest) :=
    keepMember_eq_ok_iff.mpr ⟨inner, read, colon, taken, rfl⟩
  refine ⟨{ fields with others := (name, read) :: fields.others }, ?_, includes, ignores,
    extensions, sourceRoot, by simpa [isUnread] using others⟩
  rw [readMember, if_neg isIncludes, if_neg isIgnores, if_neg isExtensions, if_neg isSourceRoot,
    kept]
  rfl

/-! ### Taking the markers -/

theorem takeField_string (name content : Text) :
    takeField name none (.string content) = .ok (some content) := rfl

/-- By induction on the members that were kept: those that are no markers are passed over. -/
theorem takeMarkers_of_awaits {given : Given} {fields : Markers.Fields}
    {members : List (Text × Value)}
    (attr : SettingAwaits .string fields.attr given.attr (valuesOf Markers.attrField members))
    (optionAttr : SettingAwaits .string fields.optionAttr given.optionAttr
      (valuesOf Markers.optionAttrField members)) :
    takeMarkers fields members = .ok ⟨given.attr, given.optionAttr⟩ := by
  induction members generalizing fields with
  | nil => rw [takeMarkers, ← attr.done string_injective, ← optionAttr.done string_injective]
  | cons member members ih =>
    obtain ⟨name, value⟩ := member
    rw [takeMarkers]
    by_cases isAttr : name = Markers.attrField
    · subst isAttr
      rw [valuesOf_cons_self] at attr
      obtain ⟨first, content, rfl, goesOn⟩ := attr.take
      rw [if_pos rfl, first, takeField_string]
      exact ih goesOn optionAttr
    rw [if_neg isAttr]
    rw [valuesOf_cons_of_ne isAttr] at attr
    by_cases isOptionAttr : name = Markers.optionAttrField
    · subst isOptionAttr
      rw [valuesOf_cons_self] at optionAttr
      obtain ⟨first, content, rfl, goesOn⟩ := optionAttr.take
      rw [if_pos rfl, first, takeField_string]
      exact ih attr goesOn
    rw [if_neg isOptionAttr]
    rw [valuesOf_cons_of_ne isOptionAttr] at optionAttr
    exact ih attr optionAttr

/-! ### Reading a configuration -/

section Reading

variable {given : Given} {members : List (Text × Value)}

/-- Before the first member nothing was read. -/
theorem awaits_start (isGiven : given.IsGivenBy members) :
    Awaits given members ⟨none, none, none, none, []⟩ members :=
  ⟨isGiven.includes, isGiven.ignores, isGiven.extensions, isGiven.sourceRoot, rfl⟩

/-- The markers are among the members that were kept. -/
theorem complete_of_awaits {fields : Fields} (isGiven : given.IsGivenBy members)
    (awaits : Awaits given members fields []) : complete fields = .ok given.complete := by
  have kept : fields.others.reverse = unread members := by
    simpa [unread] using awaits.others
  have taken : takeMarkers ⟨none, none⟩ (unread members) = .ok ⟨given.attr, given.optionAttr⟩ := by
    apply takeMarkers_of_awaits
    · rw [unread, valuesOf_filter fun _ => rfl]
      exact isGiven.attr
    · rw [unread, valuesOf_filter fun _ => rfl]
      exact isGiven.optionAttr
  rw [complete, kept, taken, awaits.includes.done strings_injective,
    awaits.ignores.done strings_injective, awaits.extensions.done strings_injective,
    awaits.sourceRoot.done string_injective]
  rfl

theorem read_of_isGivenBy {text rest : Text} (isGiven : given.IsGivenBy members)
    (object : readValue depthLimit text = .ok (.object members, rest)) :
    read text = .ok (given.complete, rest) := by
  obtain ⟨inner, starts, kept⟩ := readValue_inversion object
  obtain ⟨fields, taken, awaits⟩ :=
    readMembers_of_keepMember (readMember_takesEach given members) kept (awaits_start isGiven)
  rw [read, starts]
  change (readMembers readMember ⟨none, none, none, none, []⟩ inner >>= _) = _
  rw [taken, Except.ok_bind]
  simp only [complete_of_awaits isGiven awaits]
  rfl

theorem parse_eq_complete {text : Text} (object : Json.parse text = .ok (.object members))
    (isGiven : given.IsGivenBy members) : parse text = .ok given.complete := by
  obtain ⟨rest, taken, ended⟩ := readWhole_eq_ok_iff.mp object
  exact readWhole_eq_ok_iff.mpr ⟨rest, read_of_isGivenBy isGiven taken, ended⟩

/-- An object gives any of the settings, and the others have their defaults. The same holds of every
object with the same settings in any order, among any other members. -/
theorem parse_of_isGivenBy {text : Text} (object : Json.parse text = .ok (.object members))
    (isGiven : given.IsGivenBy members) :
    parse text = .ok given.complete ∧
      ∀ text' members', Json.parse text' = .ok (.object members') →
        (settings members').Perm (settings members) → parse text' = parse text := by
  have parsed := parse_eq_complete object isGiven
  refine ⟨parsed, fun text' members' object' same => ?_⟩
  rw [parsed]
  exact parse_eq_complete object' (isGiven.perm same)

end Reading

/-- Two settings among members that nobody knows. -/
def scattered : Text :=
  "\x7b\"theme\": \x7b\"dark\": [true, null]\x7d, \"includes\": [\"src\"],
    \"attr\": \"data-t\", \"theme\": -1\x7d".toList

/-- The same settings in the other order and on their own. -/
def gathered : Text := "\x7b\"attr\":\"data-t\",\"includes\":[\"src\"]\x7d".toList

theorem parse_of_isGivenBy_scattered :
    parse scattered = .ok
        ⟨⟨"data-t".toList, "data-i18n-options".toList⟩, ["src".toList], defaultIgnores,
          defaultExtensions, "./".toList⟩ ∧
      parse gathered = parse scattered := by
  have object : Json.parse scattered = .ok (.object
      [("theme".toList, .object [("dark".toList, .array [.bool true, .null])]),
        ("includes".toList, .strings ["src".toList]), ("attr".toList, .string "data-t".toList),
        ("theme".toList, .number (.negative 1))]) := by cbv
  have object' : Json.parse gathered = .ok (.object
      [("attr".toList, .string "data-t".toList), ("includes".toList, .strings ["src".toList])]) := by
    cbv
  let given : Given := ⟨some "data-t".toList, none, some ["src".toList], none, none, none⟩
  have read := @parse_of_isGivenBy given _ _ object ⟨rfl, rfl, rfl, rfl, rfl, rfl⟩
  refine ⟨read.1, read.2 gathered _ object' ?_⟩
  cbv
  exact .swap _ _ []

end KeyHarvest.Config
