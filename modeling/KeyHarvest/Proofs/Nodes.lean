import KeyHarvest.Markup.Node
import KeyHarvest.Proofs.AttributeForms
import KeyHarvest.Proofs.RoundTrip

/-!
# Nodes are items

A document that is written attribute by attribute is a well-formed document: the quotes of its tags
are those of its values, so they balance and hide every `>`. Its tags are read back with the
attributes they were written with.
-/
namespace KeyHarvest
open CodeUnit

/-! ### Quotes of values -/

/-- Every quote is closed, and every `>` is quoted. -/
def IsEnclosed (text : Text) : Prop := Balanced text ∧ NoBareEnd none text

theorem IsEnclosed.append {left right : Text} (first : IsEnclosed left)
    (second : IsEnclosed right) : IsEnclosed (left ++ right) := by
  obtain ⟨balanced, quoted⟩ := first
  constructor
  · rw [Balanced, quoteAfter_append, balanced]
    exact second.1
  · rw [noBareEnd_append, balanced]
    exact ⟨quoted, second.2⟩

theorem IsQuiet.isEnclosed {text : Text} (quiet : IsQuiet text) : IsEnclosed text := by
  refine quoting_iff_noBareEnd.mp ?_
  induction text with
  | nil => exact .done
  | cons c text ih =>
    obtain ⟨unquoted, other⟩ := quiet c List.mem_cons_self
    have later := ih fun d member => quiet d (List.mem_cons_of_mem c member)
    exact .bare unquoted (not_is_iff.mpr other) later

theorem isEnclosed_quoted {quote : Char} {value : Text} (delimits : isQuote quote = true)
    (inside : quote ∉ value) : IsEnclosed (quote :: (value ++ [quote])) := by
  have same : is quote quote = true := is_iff.mpr rfl
  have unclosed := forall_not_is_iff.mpr inside
  exact quoting_iff_noBareEnd.mp (.quoted delimits same unclosed same .done)

/-! ### Quotes of declarations -/

theorem quiet_of_isSpace {c : Char} (space : isSpace c = true) : isQuote c = false ∧ c ≠ '>' := by
  constructor
  · rw [← Bool.not_eq_true]
    intro quote
    rw [isSpace_of_isQuote quote] at space
    cases space
  · rintro rfl
    cases space

theorem isQuiet_of_isSpace {text : Text} (spaces : Declaration.IsSpace text) : IsQuiet text :=
  fun c member => quiet_of_isSpace (spaces c member)

theorem isQuiet_of_isName {name : Text} (named : Declaration.IsName name) : IsQuiet name := by
  intro c member
  have unit := named.2 c member
  simp only [isAttributeNameUnit, Bool.and_eq_true, Bool.not_eq_true', not_is_iff] at unit
  exact ⟨unit.1.2, unit.2⟩

theorem IsQuiet.append {left right : Text} (first : IsQuiet left) (second : IsQuiet right) :
    IsQuiet (left ++ right) := by
  intro c member
  rcases List.mem_append.mp member with member | member
  · exact first c member
  · exact second c member

theorem Declaration.isEnclosed_render {declaration : Declaration}
    (wellFormed : declaration.WellFormed) (fits : declaration.FitsTag) :
    IsEnclosed declaration.render := by
  obtain ⟨space, name, spaceBefore, spaceAfter, form⟩ := declaration
  obtain ⟨spaces, named, spacesBefore, spacesAfter, formed⟩ := wellFormed
  -- Up to the value everything is quiet.
  have start := (isQuiet_of_isSpace spaces).append (isQuiet_of_isName named)
  have equals : IsQuiet (spaceBefore ++ '=' :: spaceAfter) := by
    have sign : IsQuiet ['='] := by
      intro c member
      rw [List.mem_singleton.mp member]
      decide
    have joined := ((isQuiet_of_isSpace spacesBefore).append sign).append
      (isQuiet_of_isSpace spacesAfter)
    simpa using joined
  cases form with
  | none =>
    have whole := start.isEnclosed
    simpa [Declaration.render] using whole
  | quoted quote value =>
    obtain ⟨delimits, inside⟩ := formed
    have whole := (start.append equals).isEnclosed.append (isEnclosed_quoted delimits inside)
    simpa [Declaration.render] using whole
  | bare value =>
    have whole := ((start.append equals).append fits).isEnclosed
    simpa [Declaration.render] using whole

theorem isEnclosed_renderDeclarations {declarations : List Declaration}
    (wellFormed : DeclarationsWellFormed declarations)
    (fit : ∀ declaration ∈ declarations, declaration.FitsTag) :
    IsEnclosed (renderDeclarations declarations) := by
  induction declarations with
  | nil => exact ⟨rfl, noBareEnd_nil none⟩
  | cons declaration others ih =>
    have first := Declaration.isEnclosed_render wellFormed.1 (fit declaration List.mem_cons_self)
    have later := ih wellFormed.2.2 fun other member => fit other (List.mem_cons_of_mem _ member)
    exact first.append later

/-! ### Tags -/

theorem not_isTagNameUnit_of_isSpace {c : Char} (space : isSpace c = true) :
    isTagNameUnit c = false := by
  rw [isTagNameUnit, space]
  rfl

/-- What stands behind the attributes of a tag ends names of both kinds and is quiet. -/
theorem unit_of_ending {c : Char} (ends : isSpace c = true ∨ c = '/') :
    isTagNameUnit c = false ∧ isAttributeNameUnit c = false ∧ isQuote c = false ∧ c ≠ '>' := by
  rcases ends with space | rfl
  · exact ⟨not_isTagNameUnit_of_isSpace space, Reading.not_isAttributeNameUnit_of_isSpace space,
      quiet_of_isSpace space⟩
  · decide

theorem head_attributes {declarations : List Declaration} {ending : Text}
    (wellFormed : DeclarationsWellFormed declarations)
    (spaced : ∀ first ∈ declarations.head?, first.space ≠ [])
    (ends : ∀ c ∈ ending, isSpace c = true ∨ c = '/') :
    ∀ c ∈ (renderDeclarations declarations ++ ending).head?, isTagNameUnit c = false := by
  intro c member
  cases declarations with
  | nil => exact (unit_of_ending (ends c (List.mem_of_mem_head? member))).1
  | cons declaration others =>
    obtain ⟨first, more, equal⟩ := List.exists_cons_of_ne_nil (spaced declaration rfl)
    obtain ⟨value, rendered⟩ := declaration.render_eq
    have space : isSpace first = true := wellFormed.1.1 first (by simp [equal])
    have whole : c = first := by
      simpa [renderDeclarations, rendered, equal, eq_comm] using member
    rw [whole]
    exact not_isTagNameUnit_of_isSpace space

theorem Node.item_wellFormed {node : Node} (wellFormed : node.WellFormed) :
    node.item.WellFormed := by
  cases node with
  | tag name declarations ending =>
    obtain ⟨named, wellFormed, fit, spaced, -, ends⟩ := wellFormed
    -- The attributes close their own quotes, and what stands behind them has none.
    have quiet : IsQuiet ending := fun c member => (unit_of_ending (ends c member)).2.2
    have enclosed := (isEnclosed_renderDeclarations wellFormed fit).append quiet.isEnclosed
    exact ⟨named, head_attributes wellFormed spaced ends, enclosed⟩
  | _ => exact wellFormed

theorem documentWellFormed_map {nodes : List Node} (wellFormed : NodesWellFormed nodes) :
    DocumentWellFormed (nodes.map Node.item) := by
  induction nodes with
  | nil => trivial
  | cons node nodes ih =>
    obtain ⟨first, next, others⟩ := wellFormed
    refine ⟨Node.item_wellFormed first, ?_, ih others⟩
    intro text item member
    rw [List.head?_map, Option.mem_def, Option.map_eq_some_iff] at member
    obtain ⟨node, member, rfl⟩ := member
    exact next text node member

/-- The attributes of a tag are read back from its attribute text. -/
theorem Node.attributes_tag {name : Text} {declarations : List Declaration} {ending : Text}
    (wellFormed : (Node.tag name declarations ending).WellFormed) :
    attributes (renderDeclarations declarations ++ ending) =
      declarations.map Declaration.declared := by
  obtain ⟨-, wellFormed, -, -, last, ends⟩ := wellFormed
  have nameless : attributes ending = [] :=
    attributes_of_nameless fun c member => (unit_of_ending (ends c member)).2.1
  rw [attributes_renderDeclarations wellFormed last, nameless, List.append_nil]

/-! ### Well-formed documents can be told -/

namespace Declaration

instance (text : Text) : Decidable (IsSpace text) :=
  inferInstanceAs (Decidable (∀ c ∈ text, isSpace c = true))

instance (name : Text) : Decidable (IsName name) :=
  inferInstanceAs (Decidable (name ≠ [] ∧ ∀ c ∈ name, isAttributeNameUnit c = true))

theorem formWellFormed_bare_iff {value : Text} :
    FormWellFormed (.bare value) ↔
      (∀ c ∈ value, isSpace c = false) ∧ value.head?.any (!isQuote ·) = true := by
  cases value <;> simp [FormWellFormed]

instance : (form : ValueForm) → Decidable (FormWellFormed form)
  | .none => isTrue trivial
  | .quoted quote value => inferInstanceAs (Decidable (isQuote quote = true ∧ quote ∉ value))
  | .bare _ => decidable_of_iff _ formWellFormed_bare_iff.symm

instance (declaration : Declaration) : Decidable declaration.WellFormed :=
  inferInstanceAs (Decidable (IsSpace declaration.space ∧ IsName declaration.name ∧
    IsSpace declaration.spaceBefore ∧ IsSpace declaration.spaceAfter ∧
      FormWellFormed declaration.form))

instance : (declaration : Declaration) → (rest : Text) → Decidable (declaration.EndsBefore rest)
  | ⟨_, _, _, _, .none⟩, rest =>
    inferInstanceAs (Decidable ((∀ c ∈ rest.head?, isAttributeNameUnit c = false) ∧
      ∀ c ∈ (skipSpace rest).head?, c ≠ '='))
  | ⟨_, _, _, _, .quoted _ _⟩, _ => isTrue trivial
  | ⟨_, _, _, _, .bare _⟩, rest =>
    inferInstanceAs (Decidable (∀ c ∈ rest.head?, isSpace c = true))

instance : (declaration : Declaration) → Decidable declaration.FitsTag
  | ⟨_, _, _, _, .none⟩ => isTrue trivial
  | ⟨_, _, _, _, .quoted _ _⟩ => isTrue trivial
  | ⟨_, _, _, _, .bare value⟩ =>
    inferInstanceAs (Decidable (∀ c ∈ value, isQuote c = false ∧ c ≠ '>'))

end Declaration

instance DeclarationsWellFormed.decidable :
    (declarations : List Declaration) → Decidable (DeclarationsWellFormed declarations)
  | [] => isTrue trivial
  | declaration :: rest =>
    have := DeclarationsWellFormed.decidable rest
    inferInstanceAs (Decidable (declaration.WellFormed ∧
      (declaration.needsSpace = true → ∀ next ∈ rest.head?, next.space ≠ []) ∧
        DeclarationsWellFormed rest))

instance : (node : Node) → Decidable node.WellFormed
  | .tag name declarations ending =>
    inferInstanceAs (Decidable (IsTagName name ∧ DeclarationsWellFormed declarations ∧
      (∀ declaration ∈ declarations, declaration.FitsTag) ∧
      (∀ first ∈ declarations.head?, first.space ≠ []) ∧
      (∀ last ∈ declarations.getLast?, last.EndsBefore ending) ∧
      ∀ c ∈ ending, isSpace c = true ∨ c = '/'))
  | .text content => inferInstanceAs (Decidable (Item.text content).WellFormed)
  | .closing body => inferInstanceAs (Decidable (Item.closing body).WellFormed)
  | .instruction body => inferInstanceAs (Decidable (Item.instruction body).WellFormed)
  | .declaration body => inferInstanceAs (Decidable (Item.declaration body).WellFormed)
  | .comment body => inferInstanceAs (Decidable (Item.comment body).WellFormed)

instance NodesWellFormed.decidable : (nodes : List Node) → Decidable (NodesWellFormed nodes)
  | [] => isTrue trivial
  | node :: rest =>
    have := NodesWellFormed.decidable rest
    inferInstanceAs (Decidable (node.WellFormed ∧
      (node.item.isText = true → ∀ next ∈ rest.head?, next.item.isText = false) ∧
        NodesWellFormed rest))

end KeyHarvest
