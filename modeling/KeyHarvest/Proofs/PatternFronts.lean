import KeyHarvest.Proofs.Parts
import KeyHarvest.Proofs.PathPieces
import Mathlib.Algebra.Order.BigOperators.Group.List
import Mathlib.Algebra.Order.Group.Nat

/-!
# Patterns behind a plain text

A pattern that is joined to a base is read as one text. A base that is plain is read as it stands,
component by component, and the pattern is read behind it as by itself
(`Glob.toOption_readExpansion_join`): it is valid exactly if it is valid alone. A component in which
all tokens are characters is followed as it is written (`Glob.eq_of_literalText?`), so that a
pattern that stays below a directory is expanded by steps that do
(`Glob.staysBelow_of_readExpansion`).
-/
namespace KeyHarvest

namespace Glob
open KeyHarvest.Path

/-! ### Reading on -/

theorem IsPlain.mono {text part : Text} (plain : IsPlain text) (inside : part ⊆ text) :
    IsPlain part :=
  ⟨fun member => plain.1 (inside member), fun member => plain.2.1 (inside member),
    fun member => plain.2.2 (inside member)⟩

theorem isPlain_singleton {c : Char} : IsPlain [c] ↔ c ≠ '[' ∧ c ≠ '*' ∧ c ≠ '?' := by
  simp only [IsPlain, List.mem_singleton, ne_comm, ne_eq]

theorem readTokens_plain {c : Char} (plain : IsPlain [c]) (place : Nat) (starts : Bool)
    (seen : List Token) (rest : Text) :
    readTokens place starts seen (c :: rest) =
      readTokens (place + 1) (c == '/') (.literal c :: seen) rest := by
  obtain ⟨noClass, noRun, noCharacter⟩ := isPlain_singleton.mp plain
  rw [readTokens]
  · exact noCharacter
  · exact fun _ same _ => noRun same
  · exact fun _ same _ => noRun same
  · exact noRun
  · exact noClass

theorem readTokens_class (place : Nat) (starts : Bool) (seen : List Token) (rest : Text) :
    readTokens place starts seen ('[' :: rest) =
      match readClass? rest with
      | some (token, after) =>
        readTokens (place + 1 + (rest.length - after.length)) false (token :: seen) after
      | none => .error ⟨place, .invalidRange⟩ := by
  rw [readTokens]
  split
  next read => rw [read]
  next none => rw [none]

theorem readTokens_partial {rest : Text} (noStar : ∀ others, rest ≠ '*' :: others) (place : Nat)
    (seen : List Token) :
    readTokens place false seen ('*' :: '*' :: rest) =
      .error ⟨place - 1, .partialDirectories⟩ := by
  by_cases empty : rest = []
  · rw [empty, readTokens]
    rfl
  · by_cases separated : ∃ others, rest = '/' :: others
    · obtain ⟨others, rfl⟩ := separated
      rw [readTokens]
      rfl
    · rw [readTokens]
      · rfl
      · exact noStar
      · exact empty
      · exact fun others same => separated ⟨others, same⟩

/-- Whether a pattern is valid does not depend on what was read before. -/
theorem isOk_readTokens (place place' : Nat) (starts : Bool) (seen seen' : List Token)
    (text : Text) :
    (readTokens place starts seen text).isOk = (readTokens place' starts seen' text).isOk := by
  -- Each equation goes on or fails by the text alone; places and tokens are only handed on.
  fun_induction readTokens place starts seen text generalizing place' seen' with
  | case1 | case3 | case4 => rw [readTokens]; rfl
  | case2 place starts seen rest ih => rw [readTokens, ih]
  | case5 place seen rest _ ih => rw [readTokens, ih (place' + 3) (addDirectories seen')]; rfl
  | case6 place seen rest noStar filled noSeparator =>
    rw [readTokens]
    · rfl
    · exact noStar
    · exact filled
    · exact noSeparator
  | case7 place starts seen rest noStar inside =>
    obtain rfl : starts = false := by simpa using inside
    rw [readTokens_partial noStar]
    rfl
  | case8 place starts seen rest noStars noStar ih =>
    rw [readTokens, ih]
    · exact noStars
    · exact noStar
  | case9 place starts seen rest token after read ih => rw [readTokens_class, ih, read]
  | case10 place starts seen rest none => rw [readTokens_class, none]; rfl
  | case11 place starts seen c rest noCharacter _ _ noRun noClass ih =>
    rw [readTokens_plain (isPlain_singleton.mpr ⟨noClass, noRun, noCharacter⟩), ih]

/-- A plain text is read as it stands. -/
theorem readTokens_append {front : Text} (plain : IsPlain front) (place : Nat) (starts : Bool)
    (seen : List Token) (rest : Text) :
    ∃ place' starts', readTokens place starts seen (front ++ rest) =
      readTokens place' starts' ((front.map .literal).reverse ++ seen) rest := by
  induction front generalizing place starts seen with
  | nil => exact ⟨place, starts, rfl⟩
  | cons c front ih =>
    have first : IsPlain [c] := plain.mono (List.cons_subset_cons c (List.nil_subset front))
    obtain ⟨place', starts', read⟩ :=
      ih (plain.mono (List.subset_cons_self c front)) (place + 1) (c == '/') (.literal c :: seen)
    refine ⟨place', starts', ?_⟩
    rw [List.cons_append, readTokens_plain first, read]
    simp

/-- Behind a separator, a pattern is valid if it is valid by itself. -/
theorem isOk_readPattern_append {front : Text} (plain : IsPlain front) (text : Text) :
    (readPattern (front ++ '/' :: text)).isOk = (readPattern text).isOk := by
  obtain ⟨place, starts, read⟩ := readTokens_append plain 0 true [] ('/' :: text)
  rw [readPattern, read, readTokens_plain (by decide)]
  exact isOk_readTokens _ _ _ _ _ _

/-! ### Components -/

theorem exists_of_literalText?_reverse {token : Token} {seen : List Token} {name : Text}
    (all : literalText? (token :: seen).reverse = some name) :
    ∃ c front, token = .literal c ∧ literalText? seen.reverse = some front ∧
      name = front ++ [c] := by
  rw [List.reverse_cons] at all
  generalize seen.reverse = before at all ⊢
  induction before generalizing name with
  | nil =>
    cases token with
    | literal c => exact ⟨c, [], rfl, rfl, (Option.some.inj all).symm⟩
    | _ => cases all
  | cons first before ih =>
    cases first with
    | literal d =>
      rw [List.cons_append, literalText?, Option.map_eq_some_iff] at all
      obtain ⟨rest, all, rfl⟩ := all
      obtain ⟨c, front, rfl, before, rfl⟩ := ih all
      exact ⟨c, d :: front, rfl, by rw [literalText?, before]; rfl, rfl⟩
    | _ => cases all

theorem exists_cons_addDirectories (seen : List Token) :
    ∃ others, addDirectories seen = .anyDirectories :: others := by
  unfold addDirectories
  split
  · exact ⟨_, rfl⟩
  · exact ⟨_, rfl⟩

theorem ne_literal_of_readClass? {text after : Text} {token : Token}
    (read : readClass? text = some (token, after)) (c : Char) : token ≠ .literal c := by
  rintro rfl
  unfold readClass? at read
  split at read
  · obtain ⟨cut, -, other⟩ := Option.map_eq_some_iff.mp read
    cases other
  · cases read
  · obtain ⟨cut, -, other⟩ := Option.map_eq_some_iff.mp read
    cases other
  · cases read

theorem exists_of_readTokens {place : Nat} {starts : Bool} {seen tokens : List Token}
    {text name : Text} (read : readTokens place starts seen text = .ok tokens)
    (all : literalText? tokens = some name) :
    ∃ front, literalText? seen.reverse = some front ∧ name = front ++ text := by
  -- A token that is no character, once it is read, stays among the tokens.
  have other : ∀ {token : Token} {seen : List Token} {name : Text},
      (∀ c, token ≠ .literal c) → literalText? (token :: seen).reverse ≠ some name := by
    intro token seen name different all
    obtain ⟨c, -, same, -⟩ := exists_of_literalText?_reverse all
    exact different c same
  fun_induction readTokens place starts seen text with
  | case1 place starts seen =>
    cases read
    exact ⟨name, all, (List.append_nil name).symm⟩
  | case2 place starts seen rest ih =>
    obtain ⟨front, before, -⟩ := ih read
    exact absurd before (other (by simp))
  | case4 place seen =>
    cases read
    obtain ⟨others, added⟩ := exists_cons_addDirectories seen
    rw [added] at all
    exact absurd all (other (by simp))
  | case5 place seen rest _ ih =>
    obtain ⟨front, before, -⟩ := ih read
    obtain ⟨others, added⟩ := exists_cons_addDirectories seen
    rw [added] at before
    exact absurd before (other (by simp))
  | case8 place starts seen rest _ _ ih =>
    obtain ⟨front, before, -⟩ := ih read
    exact absurd before (other (by simp))
  | case9 place starts seen rest token after class' ih =>
    obtain ⟨front, before, -⟩ := ih read
    exact absurd before (other (ne_literal_of_readClass? class'))
  | case11 place starts seen c rest _ _ _ _ _ ih =>
    obtain ⟨_, reversed, rfl⟩ := ih read
    obtain ⟨d, front, same, before, rfl⟩ := exists_of_literalText?_reverse reversed
    cases same
    exact ⟨front, before, List.append_assoc front [c] rest⟩
  | case3 | case6 | case7 | case10 => cases read

/-- A component in which all tokens are characters is read as it stands. -/
theorem eq_of_literalText? {piece name : Text} {tokens : List Token}
    (read : readPattern piece = .ok tokens) (all : literalText? tokens = some name) :
    name = piece := by
  obtain ⟨front, before, rfl⟩ := exists_of_readTokens read all
  cases before
  rfl

theorem readPattern_of_isPlain {piece : Text} (plain : IsPlain piece) :
    readPattern piece = .ok (piece.map .literal) := by
  obtain ⟨place, starts, read⟩ := readTokens_append plain 0 true [] []
  rw [List.append_nil, readTokens] at read
  rw [readPattern, read]
  simp

theorem ofTokens_literal (piece : Text) : Step.ofTokens (piece.map .literal) = .literal piece := by
  have text : literalText? (piece.map .literal) = some piece := by
    induction piece with
    | nil => rfl
    | cons c piece ih =>
      rw [List.map_cons, literalText?, ih]
      rfl
  have none : (piece.map Token.literal).contains .anyDirectories = false := by simp
  rw [Step.ofTokens, none, if_neg Bool.false_ne_true, text]

/-! ### Expansions -/

theorem mergeDepths_append (names : List Text) (steps : List Step) :
    mergeDepths (names.map .literal ++ steps) = names.map .literal ++ mergeDepths steps := by
  induction names with
  | nil => rfl
  | cons name names ih =>
    rw [List.map_cons, List.cons_append, mergeDepths, ih]
    · rfl
    · simp

theorem mergeDepths_sublist (steps : List Step) : (mergeDepths steps).Sublist steps := by
  fun_induction mergeDepths steps with
  | case1 rest ih => exact ih.cons _
  | case2 step rest _ ih => exact ih.cons_cons step
  | case3 => exact List.Sublist.refl []

/-- A pattern is expanded if it is valid as a whole and component by component. -/
theorem toOption_readExpansion (pattern : Text) :
    (readExpansion pattern).toOption =
      if (readPattern pattern).isOk then
        ((piecesTerminated (body pattern)).mapM readPattern).toOption.map fun components =>
          ⟨isAbsolute pattern, mergeDepths (components.map .ofTokens),
            pattern.getLast? == some '/'⟩
      else none := by
  rw [readExpansion, body]
  cases readPattern pattern with
  | error problem => rfl
  | ok tokens =>
    simp only [bind, Except.bind, pure, Except.pure]
    cases List.mapM readPattern _ with
    | error problem => rfl
    | ok components => rfl

theorem mapM_readPattern_append {front : List Text} (plain : ∀ piece ∈ front, IsPlain piece)
    (rest : List Text) :
    ((front ++ rest).mapM readPattern).toOption =
      (rest.mapM readPattern).toOption.map (front.map (·.map .literal) ++ ·) := by
  induction front with
  | nil =>
    rw [List.nil_append, List.map_nil]
    exact Option.map_id'.symm
  | cons piece front ih =>
    obtain ⟨first, others⟩ := List.forall_mem_cons.mp plain
    rw [List.cons_append, List.mapM_cons, readPattern_of_isPlain first]
    have later := ih others
    generalize (front ++ rest).mapM readPattern = whole at later ⊢
    generalize rest.mapM readPattern = behind at later ⊢
    cases behind with
    | error problem =>
      cases whole with
      | error problem => rfl
      | ok components => cases later
    | ok components =>
      cases whole with
      | error problem => cases later
      | ok components' =>
        cases later
        rfl

theorem piecesTerminated_body_join {base pattern : Text} (filled : base ≠ [])
    (relative : isAbsolute pattern = false) :
    piecesTerminated (body (join base pattern)) =
      piecesTerminated (body base) ++ piecesTerminated pattern := by
  have some := pieces_ne_nil pattern
  have cut := pieces_body_join filled relative
  generalize piecesTerminated (body base) = front at cut ⊢
  simp only [piecesTerminated, cut, List.getLast?_append_of_ne_nil _ some,
    List.dropLast_append_of_ne_nil some]
  split
  · rfl
  · rfl

/-- Behind a plain base, a pattern is read as by itself. -/
theorem toOption_readExpansion_join {base pattern : Text} (filled : base ≠ [])
    (plain : IsPlain base) (relative : isAbsolute pattern = false) (some : pattern ≠ []) :
    (readExpansion (join base pattern)).toOption =
      (readExpansion pattern).toOption.map fun expansion =>
        ⟨isAbsolute base, (piecesTerminated (body base)).map .literal ++ expansion.steps,
          expansion.directoriesOnly⟩ := by
  obtain ⟨front, joined, parts⟩ := exists_front filled
  have inside : front ⊆ base := by
    rcases parts with rfl | ⟨rfl, -⟩
    · exact List.subset_append_left front ['/']
    · exact List.Subset.refl base
  have pieces : ∀ piece ∈ piecesTerminated (body base), IsPlain piece := by
    intro piece member
    have listed := subset_of_mem_pieces (mem_of_mem_piecesTerminated member)
    exact plain.mono (List.Subset.trans listed (body_subset base))
  -- The whole text is checked before its components are.
  have valid : (readPattern (join base pattern)).isOk = (readPattern pattern).isOk := by
    rw [joined pattern relative]
    exact isOk_readPattern_append (plain.mono inside) pattern
  have last : (join base pattern).getLast? = pattern.getLast? := by
    rw [join_eq relative, List.getLast?_append_of_ne_nil _ some]
  rw [toOption_readExpansion, toOption_readExpansion, valid, last,
    isAbsolute_join_of_relative relative, piecesTerminated_body_join filled relative,
    body_of_relative relative, mapM_readPattern_append pieces]
  cases (readPattern pattern).isOk with
  | false => rfl
  | true =>
    rw [if_pos rfl, if_pos rfl, Option.map_map, Option.map_map]
    congr 1
    funext components
    simp only [Function.comp_apply, List.map_append, List.map_map]
    have literal : Step.ofTokens ∘ List.map .literal = Step.literal := funext ofTokens_literal
    rw [literal, mergeDepths_append]

theorem exists_of_mapM_cons {piece : Text} {parts : List Text} {components : List (List Token)}
    (read : (piece :: parts).mapM readPattern = .ok components) :
    ∃ tokens others, readPattern piece = .ok tokens ∧ parts.mapM readPattern = .ok others ∧
      components = tokens :: others := by
  rw [List.mapM_cons] at read
  obtain ⟨tokens, first, read⟩ := Except.bind_eq_ok_iff.mp read
  obtain ⟨others, later, read⟩ := Except.bind_eq_ok_iff.mp read
  cases read
  exact ⟨tokens, others, first, later, rfl⟩

theorem exists_of_mem_mapM {parts : List Text} {components : List (List Token)}
    (read : parts.mapM readPattern = .ok components) :
    ∀ {tokens}, tokens ∈ components → ∃ piece ∈ parts, readPattern piece = .ok tokens := by
  induction parts generalizing components with
  | nil =>
    cases read
    exact fun member => absurd member List.not_mem_nil
  | cons piece parts ih =>
    obtain ⟨tokens, components, first, others, rfl⟩ := exists_of_mapM_cons read
    intro read' member
    rcases List.mem_cons.mp member with rfl | member
    · exact ⟨piece, List.mem_cons_self, first⟩
    · obtain ⟨piece', inside, same⟩ := ih others member
      exact ⟨piece', List.mem_cons_of_mem piece inside, same⟩

/-! ### Names that patterns match -/

theorem exists_of_firstFit {fit : Text → Fit} {texts : List Text}
    (fits : firstFit fit texts = .whole) : ∃ text ∈ texts, fit text = .whole := by
  induction texts with
  | nil => cases fits
  | cons text shorter ih =>
    rw [firstFit] at fits
    cases here : fit text with
    | whole => exact ⟨text, List.mem_cons_self, here⟩
    | mismatch =>
      simp only [here] at fits
      obtain ⟨other, member, fits⟩ := ih fits
      exact ⟨other, List.mem_cons_of_mem text member, fits⟩
    | tooShort =>
      simp only [here] at fits
      cases fits

/-- What matches the empty text by characters that may be left out matches a point, too. -/
theorem fitTokens_point {tokens : List Token} (some : tokens ≠ [])
    (fits : fitTokens tokens [] = .whole) : fitTokens tokens ['.'] = .whole := by
  induction tokens with
  | nil => exact absurd rfl some
  | cons token tokens ih =>
    -- Behind a run the others take the empty text, either at once or at the end.
    have later : fitTokens tokens [] = .whole →
        firstFit (fitTokens tokens) [['.'], []] = .whole := by
      intro fits
      by_cases last : tokens = []
      · subst last
        rfl
      · rw [firstFit, ih last fits]
    have rest : ∀ {shorter}, firstFit (fitTokens tokens) shorter = .whole →
        (∀ text ∈ shorter, text = []) → fitTokens tokens [] = .whole := by
      intro shorter fits empty
      obtain ⟨text, member, fits⟩ := exists_of_firstFit fits
      rwa [empty text member] at fits
    -- Any other token takes a character, and there is none.
    cases token with
    | anyRun => exact later (rest fits (by simp [remainders]))
    | anyDirectories =>
      exact later (rest fits (by simp [directoryRemainders, directoryRemainders.go]))
    | _ => cases fits

/-- A component with wildcards that is not expanded to the directory above is not expanded to the
directory itself. -/
theorem specialNames_eq_nil {tokens : List Token} (wild : literalText? tokens = none)
    (below : ['.', '.'] ∉ specialNames tokens) : specialNames tokens = [] := by
  unfold specialNames at below ⊢
  split
  next rest =>
    have other : matchTokens (.literal '.' :: rest) ['.', '.'] = false := by
      simpa [List.mem_filter] using below
    have some : rest ≠ [] := by
      rintro rfl
      cases wild
    have point : matchTokens (.literal '.' :: rest) ['.'] = false := by
      rw [matchTokens, decide_eq_false_iff_not] at other ⊢
      exact fun fits => other (fitTokens_point some fits)
    simp [other, point]
  next => rfl

/-! ### Steps -/

/-- The step leads to a place below, or to where it starts. -/
def Step.StaysBelow : Step → Prop
  | .literal name => name ≠ ['.', '.'] ∧ '/' ∉ name
  | .wild tokens => specialNames tokens = []
  | .anyDepth => True

/-- How many bytes a step can add to a path, apart from the names that it leads to. -/
def Step.cost : Step → Nat
  | .literal name => CodeUnit.size name + 1
  | .wild _ => 0
  | .anyDepth => 0

/-- Whether the first step that is not along a point is not along an empty name. -/
def anchorsSteps : List Step → Bool
  | .literal name :: rest => if name = ['.'] then anchorsSteps rest else name ≠ []
  | _ => true

/-- A step without wildcards is along the component itself. -/
theorem Step.eq_of_ofTokens {piece name : Text} {tokens : List Token}
    (read : readPattern piece = .ok tokens) (step : Step.ofTokens tokens = .literal name) :
    name = piece := by
  rw [ofTokens] at step
  split at step
  · cases step
  · split at step
    next all =>
      cases step
      exact eq_of_literalText? read all
    next => cases step

theorem Step.staysBelow_ofTokens {piece : Text} {tokens : List Token}
    (read : readPattern piece = .ok tokens) (straight : piece ≠ ['.', '.'])
    (closed : '/' ∉ piece) (below : matchesParent piece = false) :
    (Step.ofTokens tokens).StaysBelow ∧ (Step.ofTokens tokens).cost ≤ CodeUnit.size piece + 1 := by
  rw [matchesParent, read] at below
  rw [ofTokens]
  split
  · exact ⟨trivial, Nat.zero_le _⟩
  · split
    next name all =>
      rw [eq_of_literalText? read all]
      exact ⟨⟨straight, closed⟩, Nat.le_refl _⟩
    next wild => exact ⟨specialNames_eq_nil wild (by simpa using below), Nat.zero_le _⟩

theorem sum_cost_le {parts : List Text} {components : List (List Token)}
    (read : parts.mapM readPattern = .ok components)
    (costs : ∀ {piece tokens}, piece ∈ parts → readPattern piece = .ok tokens →
      (Step.ofTokens tokens).cost ≤ CodeUnit.size piece + 1) :
    ((components.map .ofTokens).map Step.cost).sum ≤
      (parts.map fun piece => CodeUnit.size piece + 1).sum := by
  induction parts generalizing components with
  | nil =>
    cases read
    exact Nat.le_refl 0
  | cons piece parts ih =>
    obtain ⟨tokens, components, first, others, rfl⟩ := exists_of_mapM_cons read
    simp only [List.map_cons, List.sum_cons]
    apply Nat.add_le_add
    · exact costs List.mem_cons_self first
    · exact ih others fun inside => costs (List.mem_cons_of_mem piece inside)

theorem anchorsSteps_anyDepth (steps : List Step) :
    anchorsSteps (mergeDepths (.anyDepth :: steps)) = true := by
  induction steps with
  | nil => rfl
  | cons step steps ih =>
    cases step with
    | anyDepth => exact ih
    | _ => rfl

/-- The steps of anchored components are anchored. -/
theorem anchorsSteps_of_mapM {parts : List Text} {components : List (List Token)}
    (read : parts.mapM readPattern = .ok components) (anchored : anchors parts = true) :
    anchorsSteps (mergeDepths (components.map .ofTokens)) = true := by
  induction parts generalizing components with
  | nil =>
    cases read
    rfl
  | cons piece parts ih =>
    obtain ⟨tokens, components, first, others, rfl⟩ := exists_of_mapM_cons read
    rw [List.map_cons]
    cases step : Step.ofTokens tokens with
    | anyDepth => exact anchorsSteps_anyDepth _
    | wild tokens => rfl
    | literal name =>
      obtain rfl := Step.eq_of_ofTokens first step
      rw [mergeDepths, anchorsSteps]
      · rw [anchors] at anchored
        split
        next point => exact ih others (by rwa [if_pos point] at anchored)
        next other => rwa [if_neg other] at anchored
      · simp

/-- The steps of an expansion are those of the components. -/
theorem exists_components_of_readExpansion {pattern : Text} {expansion : Expansion}
    (read : readExpansion pattern = .ok expansion) :
    ∃ components, (piecesTerminated (body pattern)).mapM readPattern = .ok components ∧
      expansion.steps = mergeDepths (components.map .ofTokens) := by
  have expanded := toOption_readExpansion pattern
  rw [read] at expanded
  split at expanded
  · cases components : (piecesTerminated (body pattern)).mapM readPattern with
    | error problem =>
      rw [components] at expanded
      cases expanded
    | ok components' =>
      rw [components] at expanded
      cases expanded
      exact ⟨components', rfl, rfl⟩
  · cases expanded

/-- A pattern that stays below is expanded by steps that do, and that cost no more than the pattern
and a separator behind it. -/
theorem staysBelow_of_readExpansion {pattern : Text} {expansion : Expansion}
    (relative : isAbsolute pattern = false) (straight : NoParents pattern)
    (below : ∀ piece ∈ pieces isSeparator pattern, matchesParent piece = false)
    (read : readExpansion pattern = .ok expansion) :
    (∀ step ∈ expansion.steps, step.StaysBelow) ∧
      (expansion.steps.map Step.cost).sum ≤ CodeUnit.size pattern + 1 ∧
      (anchors (pieces isSeparator pattern) = true → anchorsSteps expansion.steps = true) := by
  obtain ⟨components, read, steps⟩ := exists_components_of_readExpansion read
  rw [body_of_relative relative] at read
  rw [steps]
  have merged := mergeDepths_sublist (components.map .ofTokens)
  have stays : ∀ {piece tokens}, piece ∈ piecesTerminated pattern →
      readPattern piece = .ok tokens → (Step.ofTokens tokens).StaysBelow ∧
        (Step.ofTokens tokens).cost ≤ CodeUnit.size piece + 1 := by
    intro piece tokens member read
    have listed := mem_of_mem_piecesTerminated member
    refine Step.staysBelow_ofTokens read ?_ ?_ (below piece listed)
    · rintro rfl
      exact straight listed
    · intro separator
      cases not_separator_of_mem_pieces listed '/' separator
  refine ⟨fun step member => ?_, ?_, fun anchored => ?_⟩
  · obtain ⟨tokens, inside, rfl⟩ := List.mem_map.mp (merged.subset member)
    obtain ⟨piece, inside, read⟩ := exists_of_mem_mapM read inside
    exact (stays inside read).1
  · -- Every component costs at most itself and the separator behind it.
    have costs := sum_cost_le read fun inside read => (stays inside read).2
    have fewer := (merged.map Step.cost).sum_le_sum fun _ _ => Nat.zero_le _
    have whole := sum_size_piecesTerminated_le pattern
    exact Nat.le_trans fewer (Nat.le_trans costs whole)
  · exact anchorsSteps_of_mapM read (anchors_piecesTerminated anchored)

end Glob
end KeyHarvest
