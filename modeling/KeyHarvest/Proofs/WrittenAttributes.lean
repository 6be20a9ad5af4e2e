import KeyHarvest.Proofs.Harvest

/-!
# Attribute texts are read back

An attribute text is a list of declarations with an ending: space, and the `/` of a tag that closes
itself. Whatever the forms of the declarations and the space around them, the text is read back as
what they declare, in order, and a name that is looked up gives what its first declaration says
(`attributes_written`).
-/
namespace KeyHarvest
open CodeUnit

/-! ### Endings -/

/-- What may stand behind the last declaration. A `/` directly behind a bare value would belong to
the value. -/
inductive IsEnding (declarations : List Declaration) : Text → Prop where
  | space {space : Text} (spaces : Declaration.IsSpace space) : IsEnding declarations space
  | slash {space : Text} (spaces : Declaration.IsSpace space)
      (apart : space = [] → ∀ last ∈ declarations.getLast?, ∀ value, last.form ≠ .bare value) :
      IsEnding declarations (space ++ ['/'])

theorem head_of_isSpace {space : Text} (spaces : Declaration.IsSpace space) :
    ∀ c ∈ space.head?, isSpace c = true :=
  fun c first => spaces c (List.mem_of_mem_head? first)

theorem skipSpace_of_isSpace {space : Text} (spaces : Declaration.IsSpace space) :
    skipSpace space = [] := by
  have all : (space ++ []).dropWhile isSpace = [] := dropWhile_run spaces (by simp)
  rwa [List.append_nil] at all

namespace IsEnding

variable {declarations : List Declaration} {ending : Text}

theorem units (ends : IsEnding declarations ending) :
    ∀ c ∈ ending, isSpace c = true ∨ c = '/' := by
  cases ends with
  | space spaces => exact fun c member => .inl (spaces c member)
  | slash spaces apart =>
    intro c member
    rcases List.mem_append.mp member with inside | last
    · exact .inl (spaces c inside)
    · exact .inr (List.mem_singleton.mp last)

/-- Behind the space of an ending stands no `=`. -/
theorem head_skipSpace (ends : IsEnding declarations ending) :
    ∀ c ∈ (skipSpace ending).head?, c ≠ '=' := by
  cases ends with
  | space spaces =>
    rw [skipSpace_of_isSpace spaces]
    rintro c ⟨⟩
  | slash spaces apart =>
    rw [skipSpace_append spaces (by decide)]
    rintro c ⟨⟩
    decide

theorem endsBefore (ends : IsEnding declarations ending) :
    ∀ last ∈ declarations.getLast?, last.EndsBefore ending := by
  intro last member
  cases form : last.form with
  | none =>
    simp only [Declaration.EndsBefore, form]
    refine ⟨fun c first => ?_, ends.head_skipSpace⟩
    exact (unit_of_ending (ends.units c (List.mem_of_mem_head? first))).2.1
  | quoted quote value => simp [Declaration.EndsBefore, form]
  | bare value =>
    simp only [Declaration.EndsBefore, form]
    cases ends with
    | space spaces => exact head_of_isSpace spaces
    | @slash space spaces apart =>
      -- The value ends at the space in front of the `/`.
      cases space with
      | nil => exact absurd form (apart rfl last member value)
      | cons first others =>
        have spaced := head_of_isSpace spaces
        exact spaced

end IsEnding

/-! ### Names -/

/-- What is found under the name of a declaration in this form. -/
def ValueForm.found : ValueForm → Lookup Char
  | .none => .noValue
  | .quoted _ value => .value value
  | .bare value => .value value

/-- The first declaration of a name counts. -/
theorem declarationOf_first {before after : List Declaration} {declaration : Declaration}
    (first : ∀ other ∈ before, other.name ≠ declaration.name) :
    declarationOf (before ++ declaration :: after) declaration.name = some declaration := by
  have passed : before.find? (·.name = declaration.name) = none :=
    List.find?_eq_none.mpr (by simpa using first)
  rw [declarationOf, List.find?_append, passed, Option.none_or]
  exact List.find?_cons_of_pos (decide_eq_true rfl)

theorem lookup_first {before after : List Declaration} {declaration : Declaration}
    (first : ∀ other ∈ before, other.name ≠ declaration.name) :
    lookup ((before ++ declaration :: after).map Declaration.declared) declaration.name =
      declaration.form.found := by
  rw [lookup_declared, declarationOf_first first]
  obtain ⟨space, name, spaceBefore, spaceAfter, form⟩ := declaration
  cases form with
  | none => rfl
  | quoted quote value => rfl
  | bare value => rfl

/-- Attributes that are written in any of their forms are read back, and looking a name up gives
what the first attribute of that name says. -/
theorem attributes_written {declarations : List Declaration} {ending : Text}
    (wellFormed : DeclarationsWellFormed declarations) (ends : IsEnding declarations ending) :
    attributes (renderDeclarations declarations ++ ending) =
        declarations.map Declaration.declared ∧
      (∀ before declaration after, declarations = before ++ declaration :: after →
        (∀ other ∈ before, other.name ≠ declaration.name) →
          lookup (attributes (renderDeclarations declarations ++ ending)) declaration.name =
            declaration.form.found) ∧
      ∀ name, (∀ declaration ∈ declarations, declaration.name ≠ name) →
        lookup (attributes (renderDeclarations declarations ++ ending)) name = .absent := by
  have nameless : attributes ending = [] :=
    attributes_of_nameless fun c member => (unit_of_ending (ends.units c member)).2.1
  have read : attributes (renderDeclarations declarations ++ ending) =
      declarations.map Declaration.declared := by
    rw [attributes_renderDeclarations wellFormed ends.endsBefore, nameless, List.append_nil]
  refine ⟨read, ?_, ?_⟩
  · rintro before declaration after rfl first
    rw [read]
    exact lookup_first first
  · intro name other
    rw [read]
    refine lookup_absent fun declared member => ?_
    obtain ⟨declaration, inside, rfl⟩ := List.mem_map.mp member
    exact other declaration inside

/-- All three forms, with space in all places, quotes of the other kind and a name that comes
twice. -/
def mixedDeclarations : List Declaration :=
  [⟨"\n".toList, "ä".toList, [], [], .none⟩,
    ⟨"\t ".toList, "b".toList, " ".toList, "\n".toList, .quoted '"' "it's > '".toList⟩,
    ⟨[], "c".toList, [], "\r".toList, .bare "=/>é\"".toList⟩,
    ⟨" ".toList, "b".toList, [], [], .quoted '\'' []⟩]

theorem attributes_mixedDeclarations :
    DeclarationsWellFormed mixedDeclarations ∧ IsEnding mixedDeclarations ['/'] ∧
      attributes "\nä\t b =\n\"it's > '\"c=\r=/>é\" b=''/".toList =
        [⟨"ä".toList, none⟩, ⟨"b".toList, some "it's > '".toList⟩,
          ⟨"c".toList, some "=/>é\"".toList⟩, ⟨"b".toList, some []⟩] ∧
      lookup (attributes "\nä\t b =\n\"it's > '\"c=\r=/>é\" b=''/".toList) "b".toList =
        .value "it's > '".toList := by
  have wellFormed : DeclarationsWellFormed mixedDeclarations := by decide
  have ends : IsEnding mixedDeclarations ([] ++ ['/']) := by
    refine .slash (by simp [Declaration.IsSpace]) ?_
    rintro - last ⟨⟩ value
    simp
  have written : renderDeclarations mixedDeclarations ++ ([] ++ ['/']) =
      "\nä\t b =\n\"it's > '\"c=\r=/>é\" b=''/".toList := by decide
  obtain ⟨read, first, -⟩ := attributes_written wellFormed ends
  rw [written] at read first
  exact ⟨wellFormed, ends, read, first (mixedDeclarations.take 1) _ _ rfl (by decide)⟩

end KeyHarvest
