import KeyHarvest.Discovery.Root
import KeyHarvest.Proofs.Places
import Mathlib.Algebra.GroupWithZero.Nat
import Mathlib.Data.List.Basic

/-!
# Pieces of paths

What stands between the separators of a path. With a separator behind each, the pieces are as long
as the path (`Path.sum_size_pieces`), and the components of a path that is joined to a base come
behind those of the base (`Glob.pieces_body_join`). A joined path that is anchored is so from the
components of the base on (`Glob.anchors_of_isAnchored`).
-/
namespace KeyHarvest

namespace Path

/-! ### Pieces -/

theorem pieces_cons (c : Char) (text : Text) :
    pieces isSeparator (c :: text) =
      if c = '/' then [] :: pieces isSeparator text
      else (pieces isSeparator text).modifyHead (c :: ·) := by
  rw [pieces_eq_splitOnP, pieces_eq_splitOnP, List.splitOnP_cons_eq_if_modifyHead]
  simp only [isSeparator, beq_iff_eq]

theorem subset_of_mem_pieces {text piece : Text} (member : piece ∈ pieces isSeparator text) :
    piece ⊆ text := by
  induction text generalizing piece with
  | nil =>
    rw [List.mem_singleton.mp member]
    exact List.nil_subset _
  | cons c text ih =>
    rw [pieces_cons] at member
    split at member
    · rcases List.mem_cons.mp member with rfl | member
      · exact List.nil_subset _
      · exact List.subset_cons_of_subset c (ih member)
    · obtain ⟨first, others, cut⟩ := List.exists_cons_of_ne_nil (pieces_ne_nil text)
      rw [cut] at ih member
      rcases List.mem_cons.mp member with rfl | member
      · exact List.cons_subset_cons c (ih List.mem_cons_self)
      · exact List.subset_cons_of_subset c (ih (List.mem_cons_of_mem first member))

/-- The pieces hold all of the text but for the separators between them. -/
theorem sum_size_pieces (text : Text) :
    ((pieces isSeparator text).map fun piece => CodeUnit.size piece + 1).sum =
      CodeUnit.size text + 1 := by
  induction text with
  | nil => rfl
  | cons c text ih =>
    rw [pieces_cons]
    split
    next separates =>
      subst separates
      have one : CodeUnit.width '/' = 1 := rfl
      rw [List.map_cons, List.sum_cons, ih, CodeUnit.size_cons, CodeUnit.size_nil, one]
      omega
    next other =>
      -- The first piece is longer by the character, and there are as many.
      obtain ⟨first, others, cut⟩ := List.exists_cons_of_ne_nil (pieces_ne_nil text)
      rw [cut] at ih ⊢
      simp only [List.modifyHead_cons, List.map_cons, List.sum_cons, CodeUnit.size_cons] at ih ⊢
      omega

theorem getLast?_pieces_ne {text : Text} (filled : text ≠ []) (closed : text.getLast? ≠ some '/') :
    (pieces isSeparator text).getLast? ≠ some [] := by
  induction text with
  | nil => exact absurd rfl filled
  | cons c text ih =>
    rw [pieces_cons]
    cases text with
    | nil =>
      have other : c ≠ '/' := fun same => closed (congrArg some same)
      rw [if_neg other]
      simp [pieces, pieces.go]
    | cons d text =>
      rw [List.getLast?_cons_cons] at closed
      have later := ih (List.cons_ne_nil d text) closed
      obtain ⟨first, others, cut⟩ := List.exists_cons_of_ne_nil (pieces_ne_nil (d :: text))
      rw [cut] at later ⊢
      split
      · rwa [List.getLast?_cons_cons]
      · -- The character is put in front of the first piece, which may be the last one, too.
        cases others with
        | nil => simp
        | cons => simpa using later

/-! ### Pieces of a joined path -/

/-- The path without the separator that makes it absolute. -/
def body (path : Text) : Text := if isAbsolute path then path.drop 1 else path

theorem body_of_relative {path : Text} (relative : isAbsolute path = false) : body path = path := by
  rw [body, relative, if_neg Bool.false_ne_true]

theorem body_subset (path : Text) : body path ⊆ path := by
  rw [body]
  split
  · exact List.drop_subset 1 path
  · exact List.Subset.refl path

theorem size_body_le (path : Text) : CodeUnit.size (body path) ≤ CodeUnit.size path := by
  rw [body]
  split
  · cases path with
    | nil => exact Nat.le_refl _
    | cons c rest =>
      rw [CodeUnit.size_cons]
      exact Nat.le_add_left _ _
  · exact Nat.le_refl _

theorem body_append {front : Text} (filled : front ≠ []) (rest : Text) :
    body (front ++ rest) = body front ++ rest := by
  obtain ⟨c, front, rfl⟩ := List.exists_cons_of_ne_nil filled
  have same : isAbsolute (c :: front ++ rest) = isAbsolute (c :: front) := rfl
  rw [body, body, same]
  split
  · rfl
  · rfl

theorem closed_body {path : Text} (filled : path ≠ []) (closed : path.getLast? ≠ some '/') :
    body path ≠ [] ∧ (body path).getLast? ≠ some '/' := by
  obtain ⟨c, rest, rfl⟩ := List.exists_cons_of_ne_nil filled
  by_cases absolute : isAbsolute (c :: rest) = true
  · obtain rfl : c = '/' := by simpa [isAbsolute] using absolute
    -- The separator in front is not the one at the end.
    have inside : rest ≠ [] := by
      rintro rfl
      exact closed rfl
    obtain ⟨d, rest, rfl⟩ := List.exists_cons_of_ne_nil inside
    exact ⟨inside, closed⟩
  · rw [body_of_relative (by simpa using absolute)]
    exact ⟨filled, closed⟩

/-- In front of a separator is the base itself, or the base but for a separator at its end. -/
theorem exists_front {base : Text} (filled : base ≠ []) :
    ∃ front, (∀ path, isAbsolute path = false → join base path = front ++ '/' :: path) ∧
      (base = front ++ ['/'] ∨ base = front ∧ front.getLast? ≠ some '/') := by
  by_cases ends : IsOpen base
  · have last := ends.resolve_left filled
    obtain ⟨front, rfl⟩ := List.getLast?_eq_some_iff.mp last
    refine ⟨front, fun path relative => ?_, .inl rfl⟩
    rw [join_of_isOpen relative ends, List.append_assoc]
    rfl
  · exact ⟨base, fun path relative => join_of_not_isOpen relative ends,
      .inr ⟨rfl, fun last => ends (.inr last)⟩⟩

end Path

namespace Glob
open KeyHarvest.Path

theorem piecesTerminated_concat (text : Text) :
    piecesTerminated (text ++ ['/']) = pieces isSeparator text := by
  have cut : pieces isSeparator (text ++ ['/']) = pieces isSeparator text ++ [[]] :=
    pieces_append text []
  simp [piecesTerminated, cut]

theorem piecesTerminated_of_closed {text : Text} (filled : text ≠ [])
    (closed : text.getLast? ≠ some '/') : piecesTerminated text = pieces isSeparator text := by
  rw [piecesTerminated, if_neg (getLast?_pieces_ne filled closed)]

theorem mem_of_mem_piecesTerminated {text piece : Text} (member : piece ∈ piecesTerminated text) :
    piece ∈ pieces isSeparator text := by
  simp only [piecesTerminated] at member
  split at member
  · exact List.dropLast_subset _ member
  · exact member

/-- With a separator behind each, the components are no longer than the text and a separator. -/
theorem sum_size_piecesTerminated_le (text : Text) :
    ((piecesTerminated text).map fun piece => CodeUnit.size piece + 1).sum ≤
      CodeUnit.size text + 1 := by
  rw [← sum_size_pieces]
  simp only [piecesTerminated]
  split
  next ends =>
    obtain ⟨front, cut⟩ := List.getLast?_eq_some_iff.mp ends
    rw [cut, List.dropLast_concat, List.map_append, List.sum_append]
    exact Nat.le_add_right _ _
  next => exact Nat.le_refl _

/-- Behind a base, the pieces of a path come after those of the base. -/
theorem pieces_body_join {base path : Text} (filled : base ≠ [])
    (relative : isAbsolute path = false) :
    pieces isSeparator (body (join base path)) =
      piecesTerminated (body base) ++ pieces isSeparator path := by
  obtain ⟨front, joined, parts⟩ := exists_front filled
  rw [joined path relative]
  by_cases bare : front = []
  · -- The base is the root itself.
    obtain rfl | ⟨rfl, -⟩ := parts
    · rw [bare]
      rfl
    · exact absurd bare filled
  · rw [body_append bare, pieces_append]
    congr 1
    rcases parts with rfl | ⟨rfl, closed⟩
    · rw [body_append bare, piecesTerminated_concat]
    · obtain ⟨inside, end'⟩ := closed_body filled closed
      rw [piecesTerminated_of_closed inside end']

/-- Where a relative path is anchored, the front of its pieces is, too. -/
theorem anchors_of_append {front parts : List Text} (anchored : anchors (front ++ parts) = true) :
    anchors front = true := by
  induction front with
  | nil => rfl
  | cons piece front ih =>
    rw [List.cons_append, anchors] at anchored
    rw [anchors]
    split
    next point => exact ih (by rwa [if_pos point] at anchored)
    next other => rwa [if_neg other] at anchored

theorem anchors_piecesTerminated {text : Text}
    (anchored : anchors (pieces isSeparator text) = true) :
    anchors (piecesTerminated text) = true := by
  simp only [piecesTerminated]
  split
  next ends =>
    obtain ⟨front, cut⟩ := List.getLast?_eq_some_iff.mp ends
    rw [cut] at anchored
    rw [cut, List.dropLast_concat]
    exact anchors_of_append anchored
  next => exact anchored

/-- Behind a relative base, the components of an anchored path are anchored with those of the
base. -/
theorem anchors_of_isAnchored {base path : Text} (filled : base ≠ [])
    (relative : isAbsolute path = false) (anchored : IsAnchored (join base path))
    (within : isAbsolute base = false) :
    anchors (piecesTerminated (body base) ++ pieces isSeparator path) = true := by
  have joined := (isAbsolute_join_of_relative relative).trans within
  rw [← pieces_body_join filled relative, body_of_relative joined]
  apply anchored.resolve_left
  rw [joined]
  exact Bool.false_ne_true

end Glob
end KeyHarvest
