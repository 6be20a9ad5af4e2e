import KeyHarvest.Proofs.Contents
import KeyHarvest.Proofs.Streams
import KeyHarvest.Proofs.WrittenConfig

/-!
# Settings that are asked for and settings in the file

A setting that is asked for takes the place of the one in the configuration file, so an extraction
can as well be asked for without it and with the setting in the file. Both get the same
configuration, or the same reason why it is not valid (`resolveConfig_overwrite`), and as discovery
does not look into files, both find the same (`sameWork_overwrite`). Flags in front of a command
line give settings and nothing else (`readArguments_settingFlags`).
-/
namespace KeyHarvest

/-! ### Flags in front -/

def Setting.name : Setting → Text
  | .attr => "attr".toList
  | .optionAttr => "option-attr".toList
  | .format => "format".toList
  | .sourceRoot => "source-root".toList

/-- The argument that gives a setting its value. -/
def Setting.flag (setting : Setting) (value : Text) : Text :=
  '-' :: '-' :: (setting.name ++ '=' :: value)

theorem Setting.ofName?_name (setting : Setting) : Setting.ofName? setting.name = some setting := by
  cases setting <;> rfl

theorem Setting.shapeOf_flag (setting : Setting) (value : Text) :
    shapeOf (setting.flag value) = .long setting.name (some value) := by
  cases setting <;> rfl

/-- A value of the setting as a draft holds it. No text is held as a format. -/
def Setting.held (value : Option Text) : Setting → Held
  | .attr => .attr value
  | .optionAttr => .optionAttr value
  | .format => .format none
  | .sourceRoot => .sourceRoot value

theorem Setting.setting?_held (setting : Setting) (value : Option Text) :
    (setting.held value).setting? = some setting := by
  cases setting <;> rfl

/-- A request with the setting left to the configuration. -/
def ExtractRequest.unset (request : ExtractRequest) : Setting → ExtractRequest
  | .attr => { request with attr := none }
  | .optionAttr => { request with optionAttr := none }
  | .sourceRoot => { request with sourceRoot := none }
  | .format => request

/-- A setting that is given is refused a second time; apart from that, it changes nothing else. -/
theorem stayAlike_held {setting : Setting} (chosen : setting ≠ .format) (value : Text) :
    StayAlike (· = .repeated setting.display) (·.holding (setting.held (some value)))
      (·.holding (setting.held none)) := by
  refine stayAlike_holding (setting.setting?_held _) (setting.setting?_held _) fun draft again => ?_
  refine .inl ⟨_, rfl, ?_⟩
  cases setting with
  | format => exact absurd rfl chosen
  | attr | optionAttr | sourceRoot => rfl

theorem set_empty {setting : Setting} (chosen : setting ≠ .format) (value : Text) :
    Draft.empty.set setting value = .ok (Draft.empty.holding (setting.held (some value))) ∨
      ∃ problem, Draft.empty.set setting value = .error problem := by
  cases setting with
  | attr | optionAttr => exact .inl rfl
  | format => exact absurd rfl chosen
  | sourceRoot =>
    cases value with
    | nil => exact .inr ⟨_, rfl⟩
    | cons c value => exact .inl rfl

theorem request_holding_none (draft : Draft) (value : Option Text) (setting : Setting) :
    (draft.holding (setting.held none)).request =
      (draft.holding (setting.held value)).request.unset setting := by
  cases setting <;> rfl

/-- Without its flag in front, a setting is left to the configuration. -/
theorem readArguments_flag {setting : Setting} (chosen : setting ≠ .format) {value : Text}
    {rest : List Text} {request : ExtractRequest}
    (asked : readArguments ("extract".toList :: setting.flag value :: rest) =
      .ok (.extract request)) :
    readArguments ("extract".toList :: rest) = .ok (.extract (request.unset setting)) := by
  have first : readArguments ("extract".toList :: setting.flag value :: rest) =
      (do readExtract false (← Draft.empty.set setting value) .nothing rest) := by
    change readExtract false .empty .nothing (setting.flag value :: rest) = _
    rw [readExtract, if_neg Bool.false_ne_true, Setting.shapeOf_flag]
    dsimp only
    rw [Setting.ofName?_name]
    rfl
  -- Both readings go on with the rest, with the value of the setting held or not held.
  rw [first] at asked
  rcases set_empty chosen value with given | ⟨problem, refused⟩
  · rw [given] at asked
    rcases (stayAlike_held chosen value).readExtract false .empty .nothing rest with
      ⟨problem, -, refused⟩ | ⟨outcome, same, same'⟩
    · cases refused.symm.trans asked
    · have unset : Draft.empty.holding (setting.held none) = Draft.empty := by cases setting <;> rfl
      rw [unset] at same'
      change readExtract false .empty .nothing rest = _
      rw [same']
      cases outcome with
      | error problem => cases same.symm.trans asked
      | ok outcome =>
        rcases outcome with draft | topic
        · cases same.symm.trans asked
          rw [← request_holding_none]
          rfl
        · cases same.symm.trans asked
  · rw [refused] at asked
    cases asked

/-- The flags that ask for the settings of a request. -/
def ExtractRequest.settingFlags (request : ExtractRequest) : List Text :=
  (request.attr.map (Setting.flag .attr)).toList ++
    (request.optionAttr.map (Setting.flag .optionAttr)).toList ++
      (request.sourceRoot.map (Setting.flag .sourceRoot)).toList

/-- The same request, with all settings left to the configuration. -/
def ExtractRequest.withoutSettings (request : ExtractRequest) : ExtractRequest :=
  { request with attr := none, optionAttr := none, sourceRoot := none }

theorem readArguments_map_flag (setting : Setting) (chosen : setting ≠ .format)
    {value : Option Text} {rest : List Text} {request : ExtractRequest}
    (absent : value = none → request.unset setting = request)
    (asked : readArguments ("extract".toList :: ((value.map setting.flag).toList ++ rest)) =
      .ok (.extract request)) :
    readArguments ("extract".toList :: rest) = .ok (.extract (request.unset setting)) := by
  cases value with
  | none =>
    rw [absent rfl]
    exact asked
  | some value => exact readArguments_flag chosen asked

/-- Without the flags of its settings in front, a command line leaves them to the configuration. -/
theorem readArguments_settingFlags {rest : List Text} {request : ExtractRequest}
    (asked : readArguments ("extract".toList :: (request.settingFlags ++ rest)) =
      .ok (.extract request)) :
    readArguments ("extract".toList :: rest) = .ok (.extract request.withoutSettings) := by
  rw [ExtractRequest.settingFlags, List.append_assoc, List.append_assoc] at asked
  obtain ⟨paths, attr, optionAttr, format, sourceRoot, verbose⟩ := request
  have asked := readArguments_map_flag .attr (by decide) (by rintro rfl; rfl) asked
  have asked := readArguments_map_flag .optionAttr (by decide) (by rintro rfl; rfl) asked
  exact readArguments_map_flag .sourceRoot (by decide) (by rintro rfl; rfl) asked

/-! ### The configuration in the file -/

variable {workspace : Workspace} {request : ExtractRequest} {file : Text} {content : List UInt8}
  {config : Config}

/-- A fault is told in the same way wherever it comes from. -/
theorem message_invalid (fault : Config.Fault) :
    (Config.LoadError.invalid fault).message = fault.message := rfl

/-- With the settings in the file the same configuration is resolved, or the same fault found. -/
theorem resolveConfig_overwrite
    (found : Config.find? workspace (Workspace.pathOf workspace.here) = some file)
    (loaded : Config.loadFile workspace file = .ok config)
    (written : (request.override config).WrittenAs content) :
    resolveConfig (workspace.overwrite file content) request.withoutSettings =
      resolveConfig workspace request := by
  have found' : Config.find? (workspace.overwrite file content)
      (Workspace.pathOf (workspace.overwrite file content).here) = some file :=
    (Config.find?_mapContents _).trans found
  obtain ⟨old, stands⟩ := Config.exists_read_of_loadFile loaded
  have loaded' := Config.loadFile_of_writtenAs (Workspace.read_overwrite stands) written
  -- Nothing overrides what the file holds now, and it is checked when the file is loaded.
  have unchanged : request.withoutSettings.override (request.override config) =
      request.override config := rfl
  rw [resolveConfig, resolveConfig, Config.load, Config.load, found, found']
  dsimp only
  rw [loaded, loaded']
  cases fault : (request.override config).fault? with
  | none => simp only [Except.map, unchanged, fault]
  | some problem => simp only [Except.map, fault, message_invalid]

theorem eq_override_of_resolveConfig {config' : Config}
    (found : Config.find? workspace (Workspace.pathOf workspace.here) = some file)
    (loaded : Config.loadFile workspace file = .ok config)
    (resolved : resolveConfig workspace request = .ok config') :
    config' = request.override config := by
  rw [resolveConfig, Config.load, found] at resolved
  dsimp only at resolved
  rw [loaded] at resolved
  simp only [Except.map] at resolved
  split at resolved
  next => cases resolved
  next =>
    cases resolved
    rfl

/-- The file plays no part in the work but for the settings it holds. -/
theorem sameWork_overwrite
    (found : Config.find? workspace (Workspace.pathOf workspace.here) = some file)
    (loaded : Config.loadFile workspace file = .ok config)
    (written : (request.override config).WrittenAs content)
    (outside : ∀ path ∈ (discover workspace (request.override config) request.paths).files,
      ¬ workspace.SamePlace path file) :
    SameWork workspace (workspace.overwrite file content) request request.withoutSettings := by
  refine ⟨Workspace.directory_mapContents _, fun _ => resolveConfig_overwrite found loaded written,
    fun config' resolved => ?_⟩
  obtain rfl := eq_override_of_resolveConfig found loaded resolved
  exact batchOf_congr (discover_mapContents _ _) fun path member =>
    Workspace.read_overwrite_of_ne (outside path member)

/-- An extraction with settings of its own gives what it gives without them once they stand in the
configuration file, even where they make the configuration invalid. Flags in front of a command line
ask for such settings. -/
theorem run_overwrite (colours : Bool)
    (found : Config.find? workspace (Workspace.pathOf workspace.here) = some file)
    (loaded : Config.loadFile workspace file = .ok config) :
    (∀ arguments arguments' request content,
      readArguments arguments = .ok (.extract request) →
      readArguments arguments' = .ok (.extract request.withoutSettings) →
      (request.override config).WrittenAs content →
      (∀ path ∈ (discover workspace (request.override config) request.paths).files,
        ¬ workspace.SamePlace path file) →
      let outcome := run colours workspace arguments
      let outcome' := run colours (workspace.overwrite file content) arguments'
      outcome'.stdout = outcome.stdout ∧ outcome'.stderr = outcome.stderr ∧
        outcome'.status = outcome.status) ∧
      ∀ rest request,
        readArguments ("extract".toList :: (request.settingFlags ++ rest)) =
          .ok (.extract request) →
        readArguments ("extract".toList :: rest) = .ok (.extract request.withoutSettings) := by
  refine ⟨?_, fun rest request => readArguments_settingFlags⟩
  intro arguments arguments' request content asked asked' written outside outcome outcome'
  have work := sameWork_overwrite found loaded written outside
  have ran : outcome = runExtract colours workspace request := run_of_asked asked
  have ran' : outcome' = runExtract colours (workspace.overwrite file content)
      request.withoutSettings := run_of_asked asked'
  rw [ran, ran']
  refine ⟨work.stdout rfl, work.stderr rfl fun _ config' _ => ?_, work.status⟩
  exact congrArg Scan.notices (discover_mapContents config' request.paths)

/-- A page in a directory, with two attributes of which one is the default for keys. -/
def configuredPage : Workspace :=
  ⟨⟨[(["src".toList], .directory),
    (["src".toList, "a.html".toList], .file (encode "<p data-i18n=a data-k=b>".toList)),
    ([Config.fileName], .file (encode Config.default.text))], []⟩, []⟩

def configuredRequest : ExtractRequest :=
  ⟨[], some "data-k".toList, none, .text, some "src".toList, false⟩

theorem run_overwrite_configuredPage :
    let content := encode (configuredRequest.override .default).text
    let edited := configuredPage.overwrite "/.wclexrc.json".toList content
    let outcome := run false configuredPage
      ["extract".toList, "--attr=data-k".toList, "--source-root=src".toList]
    let outcome' := run false edited ["extract".toList]
    outcome.stdout = "src/a.html\n  b\n\n\u2713 Extracted 1 key from 1 file\n".toList ∧
      outcome'.stdout = outcome.stdout ∧ outcome'.stderr = outcome.stderr ∧
      outcome'.status = outcome.status := by
  intro content edited outcome outcome'
  have found : Config.find? configuredPage (Workspace.pathOf configuredPage.here) =
      some "/.wclexrc.json".toList := by decide +kernel
  have stands : configuredPage.read "/.wclexrc.json".toList =
      .ok (encode Config.default.text) := by rfl
  have loaded : Config.loadFile configuredPage "/.wclexrc.json".toList = .ok .default :=
    Config.loadFile_of_valid stands Config.default.writtenAs_text Config.fault?_default
  have files : (discover configuredPage (configuredRequest.override .default)
      configuredRequest.paths).files = ["src/a.html".toList] := by decide +kernel
  obtain ⟨same, flags⟩ := run_overwrite false found loaded
  have asked : readArguments
      ("extract".toList :: (configuredRequest.settingFlags ++ [])) =
        .ok (.extract configuredRequest) := by rfl
  refine ⟨by decide +kernel, same _ _ configuredRequest content asked (flags _ _ asked)
    (Config.writtenAs_text _) ?_⟩
  intro path member samePlace
  rw [files, List.mem_singleton] at member
  subst member
  obtain ⟨place, leads, leads'⟩ := samePlace
  have both : (configuredPage.target "src/a.html".toList).toOption =
      (configuredPage.target "/.wclexrc.json".toList).toOption := by rw [leads, leads']
  exact absurd both (by decide +kernel)

end KeyHarvest
