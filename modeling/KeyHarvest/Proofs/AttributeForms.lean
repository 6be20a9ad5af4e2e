import KeyHarvest.Markup.Declaration
import KeyHarvest.Proofs.Tokenizer

/-!
# Written attributes are read back

An attribute text that is made of declarations is read back as what they declare, in order. The
step is `Declaration.attributes_render`: one declaration in front of any text that may stand behind
it. A quoted value ends with its quote, so anything may follow it; a name and a bare value go on
until something ends them.
-/
namespace KeyHarvest
open CodeUnit

/-! ### Readers and space -/

theorem attributes_skipSpace (text : Text) : attributes (skipSpace text) = attributes text := by
  rw [Reading.attributes_eq_run, Reading.attributes_eq_run, Reading.run_between_skipSpace]

theorem attributes_of_nameless {text : Text}
    (nameless : ∀ c ∈ text, isAttributeNameUnit c = false) : attributes text = [] := by
  rw [Reading.attributes_eq_run]
  induction text with
  | nil => rfl
  | cons c text ih =>
    rw [Reading.run_between_cons (nameless c List.mem_cons_self)]
    exact ih fun d member => nameless d (List.mem_cons_of_mem c member)

/-- Space is skipped up to the first unit that is none. -/
theorem skipSpace_append {space rest : Text} {c : Char} (spaces : Declaration.IsSpace space)
    (stops : isSpace c = false) : skipSpace (space ++ c :: rest) = c :: rest := by
  refine dropWhile_run spaces ?_
  rintro d ⟨⟩
  exact stops

theorem isSpace_of_isAttributeNameUnit {c : Char} (named : isAttributeNameUnit c = true) :
    isSpace c = false := by
  rw [← Bool.not_eq_true]
  intro space
  rw [Reading.not_isAttributeNameUnit_of_isSpace space] at named
  cases named

theorem isSpace_of_isQuote {c : Char} (quote : isQuote c = true) : isSpace c = false := by
  rcases isQuote_iff.mp quote with rfl | rfl
  · rfl
  · rfl

/-- A name in front of a text that does not go on with it. -/
theorem attributes_name {space name tail : Text} (spaces : Declaration.IsSpace space)
    (named : Declaration.IsName name) (stops : ∀ c ∈ tail.head?, isAttributeNameUnit c = false) :
    attributes (space ++ (name ++ tail)) =
      ⟨name, (readAssignment tail).1⟩ :: attributes (readAssignment tail).2 := by
  obtain ⟨nonempty, units⟩ := named
  obtain ⟨first, rest, rfl⟩ := List.exists_cons_of_ne_nil nonempty
  have starts := units first List.mem_cons_self
  have skipped : skipSpace (space ++ (first :: rest ++ tail)) = first :: (rest ++ tail) :=
    skipSpace_append spaces (isSpace_of_isAttributeNameUnit starts)
  -- The name is a run of its units, and the assignment starts where the run ends.
  have whole := takeWhile_run units stops
  have after := dropWhile_run units stops
  rw [List.cons_append] at whole after
  have read : readAttribute (space ++ (first :: rest ++ tail)) =
      some (some ⟨first :: rest, (readAssignment tail).1⟩, (readAssignment tail).2) := by
    rw [readAttribute, skipped]
    simp only [starts, if_true, whole, after]
  rw [Reading.attributes_eq_run, Reading.run_between, read, Reading.attributes_eq_run]
  rfl

/-! ### Values -/

theorem readAssignment_equals {before rest : Text} (spaces : Declaration.IsSpace before) :
    readAssignment (before ++ '=' :: rest) =
      (some (readAttributeValue rest).1, (readAttributeValue rest).2) := by
  have skipped : skipSpace (before ++ '=' :: rest) = '=' :: rest := skipSpace_append spaces rfl
  rw [readAssignment, skipped]
  rfl

/-- Neither space nor an `=` goes on with a name. -/
theorem head_equals {before : Text} (spaces : Declaration.IsSpace before) (rest : Text) :
    ∀ c ∈ (before ++ '=' :: rest).head?, isAttributeNameUnit c = false := by
  rintro c member
  cases before with
  | nil =>
    cases member
    rfl
  | cons first others =>
    cases member
    exact Reading.not_isAttributeNameUnit_of_isSpace (spaces c List.mem_cons_self)

theorem readAssignment_none {text : Text} (next : ∀ c ∈ (skipSpace text).head?, c ≠ '=') :
    readAssignment text = (none, skipSpace text) := by
  rw [readAssignment]
  split
  next equal => rw [equal]
  next c rest equal =>
    have other : is '=' c = false := not_is_iff.mpr (next c (by rw [equal]; rfl))
    rw [if_neg (by simp [other]), equal]

theorem readAttributeValue_of_isQuote {text rest : Text} {quote : Char}
    (equal : skipSpace text = quote :: rest) (delimits : isQuote quote = true) :
    readAttributeValue text =
      (rest.takeWhile (!is quote ·), (rest.dropWhile (!is quote ·)).drop 1) := by
  rw [readAttributeValue, equal]
  rcases isQuote_iff.mp delimits with rfl | rfl
  · rfl
  · rfl

theorem readAttributeValue_of_not_isQuote {text rest : Text} {a : Char}
    (equal : skipSpace text = a :: rest) (other : isQuote a = false) :
    readAttributeValue text =
      ((a :: rest).takeWhile (!isSpace ·), (a :: rest).dropWhile (!isSpace ·)) := by
  rw [isQuote, Bool.or_eq_false_iff] at other
  rw [readAttributeValue, equal]
  simp only [other.1, other.2, Bool.false_eq_true, if_false]

theorem readAttributeValue_quoted {space value rest : Text} {quote : Char}
    (spaces : Declaration.IsSpace space) (delimits : isQuote quote = true)
    (inside : quote ∉ value) :
    readAttributeValue (space ++ quote :: (value ++ quote :: rest)) = (value, rest) := by
  have passed := forall_not_is_iff.mpr inside
  have units : ∀ c ∈ value, (!is quote c) = true := by simpa using passed
  have closes : ∀ c ∈ (quote :: rest).head?, (!is quote c) = false := by simp
  have skipped : skipSpace (space ++ quote :: (value ++ quote :: rest)) =
      quote :: (value ++ quote :: rest) :=
    skipSpace_append spaces (isSpace_of_isQuote delimits)
  rw [readAttributeValue_of_isQuote skipped delimits, takeWhile_run units closes,
    dropWhile_run units closes]
  rfl

theorem readAttributeValue_bare {space value rest : Text} (spaces : Declaration.IsSpace space)
    (wellFormed : Declaration.FormWellFormed (.bare value))
    (next : ∀ c ∈ rest.head?, isSpace c = true) :
    readAttributeValue (space ++ (value ++ rest)) = (value, rest) := by
  obtain ⟨unspaced, first, others, rfl, unquoted⟩ := wellFormed
  have units : ∀ c ∈ first :: others, (!isSpace c) = true := by simpa using unspaced
  have stops : ∀ c ∈ rest.head?, (!isSpace c) = false := by simpa using next
  have skipped : skipSpace (space ++ (first :: others ++ rest)) = first :: (others ++ rest) :=
    skipSpace_append spaces (unspaced first List.mem_cons_self)
  have whole := takeWhile_run units stops
  have after := dropWhile_run units stops
  rw [List.cons_append] at whole after
  rw [readAttributeValue_of_not_isQuote skipped unquoted, whole, after]

/-! ### Declarations -/

/-- A declaration in front of a text is read as what it declares. -/
theorem Declaration.attributes_render {declaration : Declaration} {rest : Text}
    (wellFormed : declaration.WellFormed) (ends : declaration.EndsBefore rest) :
    attributes (declaration.render ++ rest) = declaration.declared :: attributes rest := by
  obtain ⟨space, name, spaceBefore, spaceAfter, form⟩ := declaration
  obtain ⟨spaces, named, spacesBefore, spacesAfter, formed⟩ := wellFormed
  cases form with
  | none =>
    obtain ⟨other, next⟩ := ends
    have read := attributes_name spaces named other
    rw [readAssignment_none next, attributes_skipSpace] at read
    simpa [Declaration.render, Declaration.declared] using read
  | quoted quote value =>
    obtain ⟨delimits, inside⟩ := formed
    have read := attributes_name spaces named
      (head_equals spacesBefore (spaceAfter ++ quote :: (value ++ quote :: rest)))
    rw [readAssignment_equals spacesBefore,
      readAttributeValue_quoted spacesAfter delimits inside] at read
    simpa [Declaration.render, Declaration.declared] using read
  | bare value =>
    have read := attributes_name spaces named
      (head_equals spacesBefore (spaceAfter ++ (value ++ rest)))
    rw [readAssignment_equals spacesBefore, readAttributeValue_bare spacesAfter formed ends] at read
    simpa [Declaration.render, Declaration.declared] using read

theorem Declaration.render_eq (declaration : Declaration) :
    ∃ value, declaration.render = declaration.space ++ (declaration.name ++ value) :=
  ⟨_, List.append_assoc ..⟩

/-- The next declaration ends the one before it, with space where that is needed. -/
theorem Declaration.endsBefore_render {declaration next : Declaration}
    (wellFormed : next.WellFormed)
    (separated : declaration.needsSpace = true → next.space ≠ []) (rest : Text) :
    declaration.EndsBefore (next.render ++ rest) := by
  obtain ⟨spaces, ⟨nonempty, units⟩, -⟩ := wellFormed
  obtain ⟨first, others, name⟩ := List.exists_cons_of_ne_nil nonempty
  have starts : isAttributeNameUnit first = true := units first (by simp [name])
  obtain ⟨tail, whole⟩ : ∃ tail, next.render ++ rest = next.space ++ first :: tail := by
    obtain ⟨value, rendered⟩ := next.render_eq
    exact ⟨others ++ value ++ rest, by simp [rendered, name]⟩
  have spaced : next.space ≠ [] → ∀ c ∈ (next.render ++ rest).head?, isSpace c = true := by
    intro some c member
    obtain ⟨d, more, equal⟩ := List.exists_cons_of_ne_nil some
    rw [whole, equal] at member
    cases member
    exact spaces c (by simp [equal])
  -- What a name or a bare value needs is the space in front of the next name.
  cases form : declaration.form with
  | none =>
    have space := spaced (separated (by simp [needsSpace, form]))
    simp only [EndsBefore, form]
    refine ⟨fun c member => Reading.not_isAttributeNameUnit_of_isSpace (space c member), ?_⟩
    have skipped : skipSpace (next.render ++ rest) = first :: tail := by
      rw [whole]
      exact skipSpace_append spaces (isSpace_of_isAttributeNameUnit starts)
    rw [skipped]
    rintro c ⟨⟩ rfl
    revert starts
    decide
  | quoted quote value => simp [EndsBefore, form]
  | bare value =>
    have space := spaced (separated (by simp [needsSpace, form]))
    simpa only [EndsBefore, form] using space

/-- A list of declarations in front of a text is read as what they declare. -/
theorem attributes_renderDeclarations {declarations : List Declaration} {rest : Text}
    (wellFormed : DeclarationsWellFormed declarations)
    (ends : ∀ last ∈ declarations.getLast?, last.EndsBefore rest) :
    attributes (renderDeclarations declarations ++ rest) =
      declarations.map Declaration.declared ++ attributes rest := by
  induction declarations with
  | nil => rfl
  | cons declaration others ih =>
    obtain ⟨first, separated, wellFormed⟩ := wellFormed
    have before : declaration.EndsBefore (renderDeclarations others ++ rest) := by
      cases others with
      | nil => exact ends declaration rfl
      | cons next more =>
        have ends := Declaration.endsBefore_render wellFormed.1
          (fun needs => separated needs next rfl) (renderDeclarations more ++ rest)
        rwa [← List.append_assoc] at ends
    have last : ∀ last ∈ others.getLast?, last.EndsBefore rest := by
      intro last member
      cases others with
      | nil => cases member
      | cons next more => exact ends last (by simpa using member)
    have later := ih wellFormed last
    have read := Declaration.attributes_render first before
    rw [later] at read
    rwa [← List.append_assoc] at read

end KeyHarvest
