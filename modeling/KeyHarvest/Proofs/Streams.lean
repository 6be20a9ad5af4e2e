import KeyHarvest.Proofs.SameWork

/-!
# Streams that do not touch each other

How much is told has a part in what is told, and in nothing else; the format has a part in what is
written, and in nothing else. Two command lines that ask for the same but for the one or the other
(`AskAlike`) therefore agree in the other stream and in how the run ends. That a flag is given, or
with which value, is carried through the reading of a command line step by step
(`readExtract_alike`), so it makes no other difference to what the command line asks for.
-/
namespace KeyHarvest

/-! ### Readings that go alike -/

section Alike

variable {α β γ δ : Type} {refused : UsageError → Prop}

/-- Both readings give what one reading gives, each in its own way, unless the first is refused for
such a reason. -/
def Alike (refused : UsageError → Prop) (way way' : α → β)
    (outcome outcome' : Except UsageError β) : Prop :=
  (∃ problem, refused problem ∧ outcome = .error problem) ∨
    ∃ given : Except UsageError α, outcome = given.map way ∧ outcome' = given.map way'

variable {way way' : α → β}

theorem alike_ok (given : α) : Alike refused way way' (.ok (way given)) (.ok (way' given)) :=
  .inr ⟨.ok given, rfl, rfl⟩

theorem alike_error (problem : UsageError) :
    Alike refused way way' (.error problem) (.error problem) :=
  .inr ⟨.error problem, rfl, rfl⟩

theorem Alike.bind {outcome outcome' : Except UsageError β} {next next' : γ → δ}
    {go go' : β → Except UsageError δ} (alike : Alike refused way way' outcome outcome')
    (later : ∀ given, Alike refused next next' (go (way given)) (go' (way' given))) :
    Alike refused next next' (outcome >>= go) (outcome' >>= go') := by
  rcases alike with ⟨problem, reason, rfl⟩ | ⟨given, rfl, rfl⟩
  · exact .inl ⟨problem, reason, rfl⟩
  · cases given with
    | error problem => exact alike_error problem
    | ok given => exact later given

end Alike

/-! ### The arguments of an extraction -/

/-- Two drafts stay alike whatever is read next. -/
structure StayAlike (refused : UsageError → Prop) (way way' : Draft → Draft) : Prop where
  set : ∀ draft setting value,
    Alike refused way way' ((way draft).set setting value) ((way' draft).set setting value)
  setVerbose : ∀ draft, Alike refused way way' (way draft).setVerbose (way' draft).setVerbose
  settlePaths : ∀ draft paths,
    Alike refused way way' ((way draft).settle (.paths paths)) ((way' draft).settle (.paths paths))

/-- What a reading comes to: the request of a draft, or help. -/
def concluded (way : Draft → Draft) : Draft ⊕ Topic → Request
  | .inl draft => .extract (way draft).request
  | .inr topic => .help topic

namespace StayAlike

variable {refused : UsageError → Prop} {way way' : Draft → Draft}

theorem settle (stay : StayAlike refused way way') (draft : Draft) (pending : Pending) :
    Alike refused way way' ((way draft).settle pending) ((way' draft).settle pending) := by
  cases pending with
  | nothing => exact alike_ok draft
  | setting setting value =>
    cases value with
    | none => exact alike_error _
    | some value => exact stay.set draft setting value
  | paths paths => exact stay.settlePaths draft paths

theorem take (stay : StayAlike refused way way') (draft : Draft) (pending : Pending)
    (argument : Text) (onlyPaths : Bool) :
    Alike refused (Prod.map way id) (Prod.map way' id)
      ((way draft).take pending argument onlyPaths)
      ((way' draft).take pending argument onlyPaths) := by
  have settled : Alike refused (Prod.map way id) (Prod.map way' id)
      (do return (← (way draft).settle pending, Pending.paths [argument]))
      (do return (← (way' draft).settle pending, Pending.paths [argument])) :=
    (stay.settle draft pending).bind fun draft => alike_ok (draft, Pending.paths [argument])
  cases pending with
  | nothing => exact settled
  | setting setting value =>
    cases value with
    | none =>
      cases onlyPaths with
      | true => exact alike_error _
      | false => exact alike_ok (draft, Pending.setting setting (some argument))
    | some value => exact settled
  | paths paths => exact alike_ok (draft, Pending.paths (paths ++ [argument]))

theorem readFlags (stay : StayAlike refused way way') (draft : Draft) (pending : Pending)
    (flags : Text) :
    Alike refused (Option.map way) (Option.map way') (readFlags (way draft) pending flags)
      (readFlags (way' draft) pending flags) := by
  induction flags generalizing draft pending with
  | nil =>
    rw [KeyHarvest.readFlags, KeyHarvest.readFlags]
    rcases stay.settle draft pending with ⟨problem, reason, error⟩ | ⟨given, same, same'⟩
    · rw [error]
      exact .inl ⟨problem, reason, rfl⟩
    · rw [same, same']
      cases given with
      | error problem => exact alike_error problem
      | ok draft => exact alike_ok (some draft)
  | cons flag rest ih =>
    rw [KeyHarvest.readFlags, KeyHarvest.readFlags]
    split
    · exact (stay.settle draft pending).bind fun draft =>
        (stay.setVerbose draft).bind fun draft => ih draft .nothing
    · split
      · exact (stay.settle draft pending).bind fun _ => alike_ok none
      · exact alike_error _

/-- What one argument does to both drafts it does alike, so the readings go alike to their end. -/
theorem readExtract (stay : StayAlike refused way way') (onlyPaths : Bool) (draft : Draft)
    (pending : Pending) (arguments : List Text) :
    Alike refused (concluded way) (concluded way')
      (readExtract onlyPaths (way draft) pending arguments)
      (readExtract onlyPaths (way' draft) pending arguments) := by
  -- The drafts, what is pending and the mode change with every argument that is read.
  induction arguments generalizing onlyPaths draft pending with
  | nil =>
    rw [KeyHarvest.readExtract, KeyHarvest.readExtract]
    exact (stay.settle draft pending).bind fun draft => alike_ok (Sum.inl draft)
  | cons argument rest ih =>
    rw [KeyHarvest.readExtract, KeyHarvest.readExtract]
    split
    next =>
      exact (stay.take draft pending argument onlyPaths).bind fun (draft, pending) =>
        ih onlyPaths draft pending
    next => exact ih true draft pending
    next flags _ =>
      refine (stay.readFlags draft pending flags).bind fun draft => ?_
      cases draft with
      | none => exact alike_ok (Sum.inr (Topic.extract false))
      | some draft => exact ih onlyPaths draft .nothing
    next name value _ =>
      cases Setting.ofName? name with
      | some setting =>
        cases value with
        | some value =>
          exact (stay.settle draft pending).bind fun draft =>
            (stay.set draft setting value).bind fun draft => ih onlyPaths draft .nothing
        | none =>
          exact (stay.settle draft pending).bind fun draft =>
            ih onlyPaths draft (.setting setting none)
      | none =>
        cases value with
        | some value =>
          -- No other option takes a value, so this is refused whatever was read before.
          dsimp only
          split
          · exact alike_error _
          · split
            · exact alike_error _
            · exact alike_error _
        | none =>
          dsimp only
          split
          · exact (stay.settle draft pending).bind fun draft =>
              (stay.setVerbose draft).bind fun draft => ih onlyPaths draft .nothing
          · split
            · exact (stay.settle draft pending).bind fun _ =>
                alike_ok (Sum.inr (Topic.extract true))
            · exact alike_error _

end StayAlike

/-! ### What a draft holds for a flag -/

/-- What was given with one flag, if it was given. -/
inductive Held where
  | attr (value : Option Text)
  | optionAttr (value : Option Text)
  | format (value : Option Format)
  | sourceRoot (value : Option Text)
  | verbose (given : Bool)

/-- The setting it is the value of, unless it is how much to tell. -/
def Held.setting? : Held → Option Setting
  | .attr _ => some .attr
  | .optionAttr _ => some .optionAttr
  | .format _ => some .format
  | .sourceRoot _ => some .sourceRoot
  | .verbose _ => none

def Draft.holding (draft : Draft) : Held → Draft
  | .attr value => { draft with attr := value }
  | .optionAttr value => { draft with optionAttr := value }
  | .format value => { draft with format := value }
  | .sourceRoot value => { draft with sourceRoot := value }
  | .verbose given => { draft with verbose := given }

/-- Settings do not get into each other's way. -/
theorem set_holding (draft : Draft) {held : Held} {setting : Setting}
    (other : held.setting? ≠ some setting) (value : Text) :
    (draft.holding held).set setting value = (draft.set setting value).map (·.holding held) := by
  cases setting with
  | attr =>
    cases held with
    | attr => exact absurd rfl other
    | optionAttr | format | sourceRoot | verbose =>
      cases given : draft.attr.isSome <;> simp [Draft.holding, Draft.set, given, Except.map]
  | optionAttr =>
    cases held with
    | optionAttr => exact absurd rfl other
    | attr | format | sourceRoot | verbose =>
      cases given : draft.optionAttr.isSome <;> simp [Draft.holding, Draft.set, given, Except.map]
  | format =>
    cases held with
    | format => exact absurd rfl other
    | attr | optionAttr | sourceRoot | verbose =>
      cases given : draft.format.isSome <;> cases read : readFormat value <;>
        simp [Draft.holding, Draft.set, given, read, Except.map]
  | sourceRoot =>
    cases held with
    | sourceRoot => exact absurd rfl other
    | attr | optionAttr | format | verbose =>
      cases given : draft.sourceRoot.isSome <;> cases value <;>
        simp [Draft.holding, Draft.set, given, Except.map]

theorem setVerbose_holding (draft : Draft) {held : Held} (other : held.setting? ≠ none) :
    (draft.holding held).setVerbose = draft.setVerbose.map (·.holding held) := by
  cases held with
  | verbose => exact absurd rfl other
  | attr | optionAttr | format | sourceRoot =>
    cases given : draft.verbose <;> simp [Draft.holding, Draft.setVerbose, given, Except.map]

theorem settle_holding (draft : Draft) (held : Held) (paths : List Text) :
    (draft.holding held).settle (.paths paths) =
      (draft.settle (.paths paths)).map (·.holding held) := by
  by_cases empty : [] ∈ paths <;> cases held <;>
    simp [Draft.holding, Draft.settle, empty, Except.map]

/-- Two values of one setting make a difference only where the setting is given again. -/
theorem stayAlike_holding {refused : UsageError → Prop} {setting : Setting} {held held' : Held}
    (holds : held.setting? = some setting) (holds' : held'.setting? = some setting)
    (again : ∀ (draft : Draft) (value : Text),
      Alike refused (Draft.holding · held) (Draft.holding · held')
        ((draft.holding held).set setting value) ((draft.holding held').set setting value)) :
    StayAlike refused (·.holding held) (·.holding held') := by
  refine ⟨fun draft other value => ?_, fun draft => ?_, fun draft paths => ?_⟩
  · -- Only the setting itself can see which value is held.
    by_cases same : setting = other
    · exact same ▸ again draft value
    · have apart : held.setting? ≠ some other := fun both => same (Option.some.inj (holds ▸ both))
      have apart' : held'.setting? ≠ some other :=
        fun both => same (Option.some.inj (holds' ▸ both))
      exact .inr ⟨draft.set other value, set_holding draft apart value,
        set_holding draft apart' value⟩
  · exact .inr ⟨draft.setVerbose, setVerbose_holding draft (by simp [holds]),
      setVerbose_holding draft (by simp [holds'])⟩
  · exact .inr ⟨draft.settle (.paths paths), settle_holding draft held paths,
      settle_holding draft held' paths⟩

/-- With a format given, another one is refused, whichever was given. -/
theorem stayAlike_format (format format' : Format) :
    StayAlike (fun _ => False) (·.holding (.format (some format)))
      (·.holding (.format (some format'))) :=
  stayAlike_holding rfl rfl fun _ _ => alike_error _

/-- With the flag given, a second one is refused; apart from that it changes nothing. -/
theorem stayAlike_verbose :
    StayAlike (· = .repeated verboseDisplay) (·.holding (.verbose true))
      (·.holding (.verbose false)) := by
  refine ⟨fun draft setting value => ?_, fun draft => .inl ⟨_, rfl, rfl⟩, fun draft paths => ?_⟩
  · exact .inr ⟨draft.set setting value, set_holding draft (by simp [Held.setting?]) value,
      set_holding draft (by simp [Held.setting?]) value⟩
  · exact .inr ⟨draft.settle (.paths paths), settle_holding draft _ paths,
      settle_holding draft _ paths⟩

/-! ### Command lines that ask alike -/

/-- A request with what an extraction is asked for put in another way. -/
def Request.mapExtract (change : ExtractRequest → ExtractRequest) : Request → Request
  | .extract request => .extract (change request)
  | request => request

theorem mapExtract_eq_iff {change : ExtractRequest → ExtractRequest} {request request' : Request} :
    request'.mapExtract change = request.mapExtract change ↔
      (∃ asked asked', request = .extract asked ∧ request' = .extract asked' ∧
        change asked' = change asked) ∨
      (∀ asked, request ≠ .extract asked) ∧ request' = request := by
  cases request <;> cases request' <;> simp [Request.mapExtract]

/-- How much is to be told, left out. -/
def ExtractRequest.withoutDetails (request : ExtractRequest) : ExtractRequest :=
  { request with verbose := false }

/-- How it is to be written, left out. -/
def ExtractRequest.withoutFormat (request : ExtractRequest) : ExtractRequest :=
  { request with format := .text }

theorem eq_of_withoutDetails {request request' : ExtractRequest}
    (same : request'.withoutDetails = request.withoutDetails) :
    request' = { request with verbose := request'.verbose } := by
  cases request
  cases request'
  simpa [ExtractRequest.withoutDetails] using same

theorem eq_of_withoutFormat {request request' : ExtractRequest}
    (same : request'.withoutFormat = request.withoutFormat) :
    request' = { request with format := request'.format } := by
  cases request
  cases request'
  simpa [ExtractRequest.withoutFormat] using same

/-- Both command lines ask for the same but for what is left out, or are refused for one reason. -/
def AskAlike (leftOut : ExtractRequest → ExtractRequest) (arguments arguments' : List Text) :
    Prop :=
  (readArguments arguments').map (·.mapExtract leftOut) =
    (readArguments arguments).map (·.mapExtract leftOut)

theorem askAlike_of_alike {leftOut : ExtractRequest → ExtractRequest}
    {refused : UsageError → Prop} {way way' : Draft → Draft} {arguments arguments' : List Text}
    (alike : Alike refused (concluded way') (concluded way) (readArguments arguments')
      (readArguments arguments))
    (same : ∀ draft, leftOut (way' draft).request = leftOut (way draft).request)
    (accepted : ∀ problem, refused problem → readArguments arguments' ≠ .error problem) :
    AskAlike leftOut arguments arguments' := by
  rcases alike with ⟨problem, reason, error⟩ | ⟨given, read', read⟩
  · exact absurd error (accepted problem reason)
  · rw [AskAlike, read, read']
    rcases given with problem | draft | topic
    · rfl
    · exact congrArg (fun request => Except.ok (Request.extract request)) (same draft)
    · rfl

/-- With `-v` in front a command line asks for the same, unless it asks for the details already. -/
theorem askAlike_verbose {rest : List Text}
    (once : readArguments ("extract".toList :: "-v".toList :: rest) ≠
      .error (.repeated verboseDisplay)) :
    AskAlike .withoutDetails ("extract".toList :: rest)
      ("extract".toList :: "-v".toList :: rest) := by
  refine askAlike_of_alike (stayAlike_verbose.readExtract false .empty .nothing rest)
    (fun _ => rfl) ?_
  rintro problem rfl
  exact once

theorem askAlike_format (rest : List Text) :
    AskAlike .withoutFormat ("extract".toList :: "--format=text".toList :: rest)
      ("extract".toList :: "--format=json".toList :: rest) :=
  askAlike_of_alike ((stayAlike_format .json .text).readExtract false .empty .nothing rest)
    (fun _ => rfl) (fun _ => False.elim)

/-- Two command lines that ask alike are run alike, or both are carried out as extractions. -/
theorem AskAlike.cases {leftOut : ExtractRequest → ExtractRequest}
    {arguments arguments' : List Text} (alike : AskAlike leftOut arguments arguments')
    (colours : Bool) (workspace : Workspace) :
    run colours workspace arguments' = run colours workspace arguments ∨
      ∃ request request', leftOut request' = leftOut request ∧
        run colours workspace arguments = runExtract colours workspace request ∧
        run colours workspace arguments' = runExtract colours workspace request' := by
  rw [AskAlike] at alike
  cases read : readArguments arguments with
  | error problem =>
    cases read' : readArguments arguments' with
    | error problem' =>
      rw [read, read'] at alike
      cases alike
      rw [run, run, read, read']
      exact .inl rfl
    | ok request' =>
      rw [read, read'] at alike
      cases alike
  | ok request =>
    cases read' : readArguments arguments' with
    | error problem' =>
      rw [read, read'] at alike
      cases alike
    | ok request' =>
      rw [read, read'] at alike
      rw [run_of_asked read, run_of_asked read']
      rcases mapExtract_eq_iff.mp (Except.ok.inj alike) with
        ⟨asked, asked', rfl, rfl, same⟩ | ⟨-, rfl⟩
      · exact .inr ⟨asked, asked', same, rfl, rfl⟩
      · exact .inl rfl

/-- How much is to be told changes neither what is written nor how a run ends, and the format
changes neither what is told nor how a run ends. That is so for all command lines that ask alike
otherwise, such as those with and without `-v`, and those with one format and with the other. -/
theorem run_of_askAlike (colours : Bool) (workspace : Workspace) :
    (∀ arguments arguments', AskAlike .withoutDetails arguments arguments' →
        (run colours workspace arguments').stdout = (run colours workspace arguments).stdout ∧
          (run colours workspace arguments').status = (run colours workspace arguments).status) ∧
      (∀ arguments arguments', AskAlike .withoutFormat arguments arguments' →
        (run colours workspace arguments').stderr = (run colours workspace arguments).stderr ∧
          (run colours workspace arguments').status = (run colours workspace arguments).status) ∧
      (∀ rest, readArguments ("extract".toList :: "-v".toList :: rest) ≠
          .error (.repeated verboseDisplay) →
        AskAlike .withoutDetails ("extract".toList :: rest)
          ("extract".toList :: "-v".toList :: rest)) ∧
      ∀ rest, AskAlike .withoutFormat ("extract".toList :: "--format=text".toList :: rest)
        ("extract".toList :: "--format=json".toList :: rest) := by
  refine ⟨fun arguments arguments' alike => ?_, fun arguments arguments' alike => ?_,
    fun rest => askAlike_verbose, askAlike_format⟩
  · rcases alike.cases colours workspace with same | ⟨request, request', same, ran, ran'⟩
    · rw [same]
      exact ⟨rfl, rfl⟩
    · have other := eq_of_withoutDetails same
      have paths : request'.paths = request.paths := by rw [other]
      have override : request'.override = request.override := by rw [other]; rfl
      have work := sameWork_of_override workspace paths override
      have format : request'.format = request.format := by rw [other]
      rw [ran, ran']
      exact ⟨work.stdout format, work.status⟩
  · rcases alike.cases colours workspace with same | ⟨request, request', same, ran, ran'⟩
    · rw [same]
      exact ⟨rfl, rfl⟩
    · have other := eq_of_withoutFormat same
      have paths : request'.paths = request.paths := by rw [other]
      have override : request'.override = request.override := by rw [other]; rfl
      have work := sameWork_of_override workspace paths override
      have verbose : request'.verbose = request.verbose := by rw [other]
      rw [ran, ran']
      exact ⟨work.stderr verbose fun _ config _ => by rw [paths], work.status⟩

/-- A page with unusable options, and a name that is not there. -/
def warnedPage : Workspace :=
  ⟨⟨[(["a.html".toList], .file (encode "<p data-i18n=k data-i18n-options=[]>".toList))], []⟩, []⟩

theorem run_of_askAlike_warnedPage :
    let rest := ["--attr".toList, "data-i18n".toList, "a.html".toList, "b.html".toList]
    let plain := run false warnedPage ("extract".toList :: rest)
    let detailed := run false warnedPage ("extract".toList :: "-v".toList :: rest)
    let text := run false warnedPage ("extract".toList :: "--format=text".toList :: rest)
    let json := run false warnedPage ("extract".toList :: "--format=json".toList :: rest)
    detailed.stdout = plain.stdout ∧ detailed.status = plain.status ∧
      detailed.stderr ≠ plain.stderr ∧ json.stderr = text.stderr ∧ json.status = text.status ∧
      json.stdout ≠ text.stdout := by
  intro rest plain detailed text json
  obtain ⟨details, format, flag, setting⟩ := run_of_askAlike false warnedPage
  have once : readArguments ("extract".toList :: "-v".toList :: rest) ≠
      .error (.repeated verboseDisplay) := by
    have read : (readArguments ("extract".toList :: "-v".toList :: rest)).isOk = true := by
      decide +kernel
    intro refused
    rw [refused] at read
    cases read
  obtain ⟨stdout, status⟩ := details _ _ (flag rest once)
  obtain ⟨stderr, status'⟩ := format _ _ (setting rest)
  exact ⟨stdout, status, by decide +kernel, stderr, status', by decide +kernel⟩

end KeyHarvest
