import KeyHarvest.Keys.Merging
import KeyHarvest.Proofs.Contributions
import Mathlib.Control.Monad.Basic
import Mathlib.Logic.ExistsUnique

/-!
# Runs of mergings

Whatever options are merged into records, one after the other, the records keep their number, their
order and their keys. A merging comes to exactly one thing (`comesTo_iff`), and only a default value
changes the records, all of them. After a run every record has the default value of the last merging
that came to one, and where none did the records are as they were (`mergeAll_records`).
-/
namespace KeyHarvest

/-! ### What a single merging comes to -/

section Lookup

variable {declared : List (Attribute Char)} {name : Text} {value : Option Text}

theorem find?_of_declaredFirst (first : DeclaredFirst declared name value) :
    declared.find? (·.name = name) = some ⟨name, value⟩ := by
  obtain ⟨before, after, rfl, others⟩ := first
  rw [List.find?_eq_some_iff_append]
  exact ⟨decide_eq_true rfl, before, after, rfl, by simpa using others⟩

theorem declaredFirst_of_find? {found : Attribute Char}
    (first : declared.find? (·.name = name) = some found) :
    DeclaredFirst declared name found.value := by
  obtain ⟨same, before, after, whole, others⟩ := List.find?_eq_some_iff_append.mp first
  obtain rfl := of_decide_eq_true same
  exact ⟨before, after, whole, by simpa using others⟩

theorem member?_eq_some_iff {members : List (Text × Json.Value)} {value : Json.Value} :
    Json.member? members name = some value ↔ Json.MemberLast members name value := by
  rw [Json.member?, Option.map_eq_some_iff, Json.MemberLast]
  constructor
  · rintro ⟨⟨found, value⟩, first, rfl⟩
    -- The members are looked up from the last one on, so the two parts change places.
    obtain ⟨same, before, after, whole, others⟩ := List.find?_eq_some_iff_append.mp first
    obtain rfl := of_decide_eq_true same
    refine ⟨after.reverse, before.reverse, ?_, by simpa using others⟩
    simpa using congrArg List.reverse whole
  · rintro ⟨before, after, rfl, others⟩
    refine ⟨(name, value), List.find?_eq_some_iff_append.mpr ?_, rfl⟩
    exact ⟨decide_eq_true rfl, after.reverse, before.reverse, by simp, by simpa using others⟩

end Lookup

theorem defaultValue?_of_comesTo {merging : Merging} {outcome : Except OptionsError (Option Text)}
    (comes : merging.ComesTo outcome) :
    defaultValue? merging.declared merging.optionAttr = outcome := by
  cases comes with
  | absent missing => rw [defaultValue?, lookup_absent missing]
  | noValue first => rw [defaultValue?, lookup, find?_of_declaredFirst first]
  | invalidJson first refused =>
    rw [defaultValue?, lookup, find?_of_declaredFirst first]
    simp only [optionsDefault?, refused]
  | notAnObject first read other =>
    rw [defaultValue?, lookup, find?_of_declaredFirst first]
    simp only [optionsDefault?, read]
  | noString first read other =>
    rw [defaultValue?, lookup, find?_of_declaredFirst first]
    simp only [optionsDefault?, read]
    split
    next value found => exact absurd (member?_eq_some_iff.mp found) (other value)
    next => rfl
  | string first read last =>
    rw [defaultValue?, lookup, find?_of_declaredFirst first]
    simp only [optionsDefault?, read, member?_eq_some_iff.mpr last]

theorem comesTo_defaultValue? (merging : Merging) :
    merging.ComesTo (defaultValue? merging.declared merging.optionAttr) := by
  rw [defaultValue?, lookup]
  cases found : merging.declared.find? (·.name = merging.optionAttr) with
  | none => exact .absent (by simpa using List.find?_eq_none.mp found)
  | some declared =>
    have first := declaredFirst_of_find? found
    obtain ⟨name, value⟩ := declared
    cases value with
    | none => exact .noValue first
    | some options =>
      dsimp only [optionsDefault?]
      cases read : Json.parse options with
      | error problem => exact .invalidJson first read
      | ok value =>
        cases value with
        | object members =>
          dsimp only
          split
          next value found => exact .string first read (member?_eq_some_iff.mp found)
          next other =>
            refine .noString first read fun value last => ?_
            exact other value (member?_eq_some_iff.mpr last)
        | _ => exact .notAnObject first read (by simp)

/-- A merging comes to exactly one thing. -/
theorem comesTo_iff {merging : Merging} {outcome : Except OptionsError (Option Text)} :
    merging.ComesTo outcome ↔ defaultValue? merging.declared merging.optionAttr = outcome := by
  constructor
  · exact defaultValue?_of_comesTo
  · rintro rfl
    exact comesTo_defaultValue? merging

theorem mergeOptions_of_comesTo {merging : Merging}
    {outcome : Except OptionsError (Option Text)} :
    merging.ComesTo outcome → ∀ records,
      mergeOptions records merging.declared merging.optionAttr =
        match outcome with
        | .ok (some value) => (records.map (·.withDefault value), none)
        | .ok none => (records, none)
        | .error problem => (records, some problem) := by
  intro comes records
  have found := defaultValue?_of_comesTo comes
  cases outcome with
  | error problem => simp only [mergeOptions, found]
  | ok value =>
    cases value with
    | none => simp only [mergeOptions, found]
    | some value => simp only [mergeOptions, found]

/-! ### Runs -/

/-- A default value replaces those that stood there before: only the keys count. -/
theorem map_withDefault_congr {left right : List Record}
    (same : left.map (·.key) = right.map (·.key)) (value : Text) :
    left.map (·.withDefault value) = right.map (·.withDefault value) := by
  have onlyKeys (records : List Record) :
      records.map (·.withDefault value) = (records.map (·.key)).map (⟨·, some value⟩) := by
    rw [List.map_map]
    rfl
  rw [onlyKeys, onlyKeys, same]

theorem mergeAll_cons (records : List Record) (merging : Merging) (others : List Merging) :
    mergeAll records (merging :: others) =
      let (records, problem) := mergeOptions records merging.declared merging.optionAttr
      ((mergeAll records others).1, problem :: (mergeAll records others).2) := rfl

/-- A run goes on from the records that the run before it leaves. -/
theorem mergeAll_append (records : List Record) (before after : List Merging) :
    mergeAll records (before ++ after) =
      ((mergeAll (mergeAll records before).1 after).1,
        (mergeAll records before).2 ++ (mergeAll (mergeAll records before).1 after).2) := by
  induction before generalizing records with
  | nil => rfl
  | cons merging before ih =>
    rw [List.cons_append, mergeAll_cons, mergeAll_cons]
    simp only [ih, List.cons_append]

theorem mergeAll_keys (records : List Record) (mergings : List Merging) :
    (mergeAll records mergings).1.map (·.key) = records.map (·.key) := by
  induction mergings generalizing records with
  | nil => rfl
  | cons merging others ih =>
    rw [mergeAll_cons]
    exact (ih _).trans (mergeOptions_keys records merging.declared merging.optionAttr)

theorem length_problems (records : List Record) (mergings : List Merging) :
    (mergeAll records mergings).2.length = mergings.length := by
  induction mergings generalizing records with
  | nil => rfl
  | cons merging others ih =>
    rw [mergeAll_cons, List.length_cons, List.length_cons]
    exact congrArg (· + 1) (ih _)

/-- What a merging in a run does, and what it tells, is what it does to the records before it. -/
theorem mergeAll_step (records : List Record) (before after : List Merging) (merging : Merging) :
    let merged :=
      mergeOptions (mergeAll records before).1 merging.declared merging.optionAttr
    (mergeAll records (before ++ [merging])).1 = merged.1 ∧
      (mergeAll records (before ++ merging :: after)).2[before.length]? = some merged.2 := by
  rw [mergeAll_append, mergeAll_append]
  refine ⟨rfl, ?_⟩
  -- Each merging before this one tells one thing, so what this one tells comes next.
  rw [← length_problems records before, List.getElem?_append_right (Nat.le_refl _), Nat.sub_self]
  rfl

/-- A run without any default value changes no record. -/
theorem mergeAll_of_none {mergings : List Merging}
    (unset : ∀ merging ∈ mergings, ∀ value, ¬ merging.ComesTo (.ok (some value)))
    (records : List Record) : (mergeAll records mergings).1 = records := by
  induction mergings generalizing records with
  | nil => rfl
  | cons merging others ih =>
    obtain ⟨here, later⟩ := List.forall_mem_cons.mp unset
    have kept : (mergeOptions records merging.declared merging.optionAttr).1 = records := by
      rw [mergeOptions]
      split
      next value found => exact absurd (comesTo_iff.mpr found) (here value)
      · rfl
      · rfl
    rw [mergeAll_cons]
    simp only [kept, ih later records]

/-- The last default value of a run stands in all records. -/
theorem mergeAll_of_last {before after : List Merging} {merging : Merging} {value : Text}
    (comes : merging.ComesTo (.ok (some value)))
    (last : ∀ later ∈ after, ∀ other, ¬ later.ComesTo (.ok (some other)))
    (records : List Record) :
    (mergeAll records (before ++ merging :: after)).1 = records.map (·.withDefault value) := by
  rw [mergeAll_append, mergeAll_cons, mergeOptions_of_comesTo comes]
  dsimp only
  -- Those behind it leave the records, and of those before it only the keys are left.
  rw [mergeAll_of_none last]
  exact map_withDefault_congr (mergeAll_keys records before) value

/-- Options that are merged into records again and again change no key, and neither the number nor
the order of the records. Each merging comes to exactly one thing: options that cannot be used, and
options without a default value, leave all records as they were, and a default value is given to all
of them. So the last default value stands in all records after the run, and if there was none each
record has its own. -/
theorem mergeAll_records (records : List Record) (mergings : List Merging) :
    (mergeAll records mergings).1.map (·.key) = records.map (·.key) ∧
    (∀ before merging after, mergings = before ++ merging :: after →
      let earlier := (mergeAll records before).1
      let later := (mergeAll records (before ++ [merging])).1
      let told := (mergeAll records mergings).2[before.length]?
      (∃! outcome, merging.ComesTo outcome) ∧
      (∀ problem, merging.ComesTo (.error problem) →
        later = earlier ∧ told = some (some problem)) ∧
      (merging.ComesTo (.ok none) → later = earlier ∧ told = some none) ∧
      ∀ value, merging.ComesTo (.ok (some value)) →
        later = earlier.map (·.withDefault value) ∧ told = some none) ∧
    (∀ before merging after value, mergings = before ++ merging :: after →
      merging.ComesTo (.ok (some value)) →
      (∀ later ∈ after, ∀ other, ¬ later.ComesTo (.ok (some other))) →
        (mergeAll records mergings).1 = records.map (·.withDefault value)) ∧
    ((∀ merging ∈ mergings, ∀ value, ¬ merging.ComesTo (.ok (some value))) →
      (mergeAll records mergings).1 = records) := by
  refine ⟨mergeAll_keys records mergings, ?_, ?_, fun unset => mergeAll_of_none unset records⟩
  · rintro before merging after rfl
    have step := mergeAll_step records before after merging
    refine ⟨⟨_, comesTo_defaultValue? merging, fun other comes => (comesTo_iff.mp comes).symm⟩,
      ?_, ?_, ?_⟩
    · intro problem comes
      rwa [mergeOptions_of_comesTo comes] at step
    · intro comes
      rwa [mergeOptions_of_comesTo comes] at step
    · intro value comes
      rwa [mergeOptions_of_comesTo comes] at step
  · rintro before merging after value rfl comes last
    exact mergeAll_of_last comes last records

/-- A merging of the options in the attribute `o`. -/
def mergingOf (text : String) : Merging := ⟨attributes text.toList, ['o']⟩

/-- The second default value in a run, in the last of its members and the first attribute. -/
def secondDefault : Merging :=
  mergingOf "o='\x7b\"defaultValue\":1,\"defaultValue\":\"y\"\x7d' o=[]"

def brokenOptions : Merging := mergingOf "o=\x7b"

def lostDefault : Merging :=
  mergingOf "o='\x7b\"defaultValue\":\"z\",\"defaultValue\":null\x7d'"

def mixedMergings : List Merging :=
  [mergingOf "o='\x7b\"defaultValue\":\"x\"\x7d'", secondDefault, brokenOptions, mergingOf "o=[]",
    lostDefault, mergingOf "o", mergingOf ""]

theorem mergeAll_mixedMergings :
    let records := [⟨['k'], none⟩, ⟨['l'], some ['v']⟩]
    let problem := OptionsError.invalidJson ['\x7b'] (.before .endInObject [])
    let told := (mergeAll records mixedMergings).2
    secondDefault.ComesTo (.ok (some ['y'])) ∧ brokenOptions.ComesTo (.error problem) ∧
      lostDefault.ComesTo (.ok none) ∧
      (mergeAll records (mixedMergings.take 2)).1 =
        (mergeAll records (mixedMergings.take 1)).1.map (·.withDefault ['y']) ∧
      (mergeAll records (mixedMergings.take 3)).1 = (mergeAll records (mixedMergings.take 2)).1 ∧
      (mergeAll records (mixedMergings.take 5)).1 = (mergeAll records (mixedMergings.take 4)).1 ∧
      told[1]? = some none ∧ told[2]? = some (some problem) ∧ told[4]? = some none ∧
      (mergeAll records mixedMergings).1 = [⟨['k'], some ['y']⟩, ⟨['l'], some ['y']⟩] ∧
      (mergeAll records (mixedMergings.drop 2)).1 = records := by
  intro records problem told
  have sets : secondDefault.ComesTo (.ok (some ['y'])) := comesTo_iff.mpr (by decide +kernel)
  have fails : brokenOptions.ComesTo (.error problem) := comesTo_iff.mpr (by decide +kernel)
  have keeps : lostDefault.ComesTo (.ok none) := comesTo_iff.mpr (by decide +kernel)
  have unset : ∀ later ∈ mixedMergings.drop 2, ∀ value, ¬ later.ComesTo (.ok (some value)) := by
    have found : ∀ later ∈ mixedMergings.drop 2,
        (defaultValue? later.declared later.optionAttr).toOption.join = none := by decide +kernel
    intro later member value comes
    have none := found later member
    rw [comesTo_iff.mp comes] at none
    cases none
  obtain ⟨-, each, last, -⟩ := mergeAll_records records mixedMergings
  obtain ⟨-, -, -, setting⟩ := each (mixedMergings.take 1) secondDefault _ rfl
  obtain ⟨-, failing, -, -⟩ := each (mixedMergings.take 2) brokenOptions _ rfl
  obtain ⟨-, -, keeping, -⟩ := each (mixedMergings.take 4) lostDefault _ rfl
  have rest := (mergeAll_records records (mixedMergings.drop 2)).2.2.2 unset
  exact ⟨sets, fails, keeps, (setting _ sets).1, (failing _ fails).1, (keeping keeps).1,
    (setting _ sets).2, (failing _ fails).2, (keeping keeps).2,
    last (mixedMergings.take 1) secondDefault _ _ rfl sets unset, rest⟩

end KeyHarvest
