import KeyHarvest.Files.Lineage
import KeyHarvest.Proofs.Places

/-!
# The ancestors of a path

`Path.parent?` gives the parent of a path and nothing for the root and the empty path
(`Path.parent?_eq_some_iff`, `Path.parent?_eq_none_iff`), so `Path.ancestors` is the one lineage of
a path (`Path.isLineage_iff`). The argument is about what `Path.dropInsignificant` takes off the end
of a path: no component goes with it, and what is left ends in a component.
-/
namespace KeyHarvest.Path

/-! ### The last piece of a path -/

theorem inner_append_separator (left right : Text) :
    inner (left ++ '/' :: right) = inner left ++ inner right := by
  rw [inner, pieces_append, List.filterMap_append]
  rfl

theorem inner_append_of_isOpen {front name : Text} (ends : IsOpen front) (plain : '/' ∉ name) :
    inner (front ++ name) = inner front ++ (component? name).toList := by
  have relative := isAbsolute_of_not_mem plain
  have joined := inner_join front relative
  rw [join_of_isOpen relative ends] at joined
  rw [joined, inner.eq_1 name, pieces_of_not_mem plain, List.filterMap_cons]
  cases component? name <;> rfl

/-- A piece that counts leads up, or is a name. -/
theorem cases_of_component? {piece : Text} {component : Component}
    (counts : component? piece = some component) :
    component = .parent ∧ piece = ['.', '.'] ∨ component = .name piece ∧ piece ≠ ['.', '.'] := by
  rw [component?] at counts
  split at counts
  · cases counts
  · split at counts
    next up =>
      cases counts
      exact .inl ⟨rfl, up⟩
    next other =>
      cases counts
      exact .inr ⟨rfl, other⟩

theorem component?_inj {piece piece' : Text} {component : Component}
    (counts : component? piece = some component) (counts' : component? piece' = some component) :
    piece = piece' := by
  rcases cases_of_component? counts with ⟨rfl, up⟩ | ⟨rfl, other⟩
  · rcases cases_of_component? counts' with ⟨-, up'⟩ | ⟨same, -⟩
    · rw [up, up']
    · cases same
  · rcases cases_of_component? counts' with ⟨same, -⟩ | ⟨same, -⟩
    · cases same
    · exact Component.name.inj same

/-- A text given in reverse ends in a piece without a separator, and in front of that piece it is
empty or ends in one. -/
theorem lastPiece_reverse (text : Text) :
    '/' ∉ (text.takeWhile (!isSeparator ·)).reverse ∧
      IsOpen (text.dropWhile (!isSeparator ·)).reverse ∧
      text.reverse = (text.dropWhile (!isSeparator ·)).reverse ++
        (text.takeWhile (!isSeparator ·)).reverse := by
  refine ⟨?_, ?_, ?_⟩
  · intro member
    have plain := all_takeWhile _ (List.mem_reverse.mp member)
    simp [isSeparator] at plain
  · cases left : text.dropWhile (!isSeparator ·) with
    | nil => exact .inl rfl
    | cons c rest =>
      have stops := head_dropWhile (!isSeparator ·) text
      rw [left] at stops
      have separates : c = '/' := by simpa [isSeparator] using stops c rfl
      exact .inr (by simp [separates])
  · rw [← List.reverse_append, List.takeWhile_append_dropWhile]

/-- A character more takes no component away. -/
theorem length_inner_concat_le (text : Text) (c : Char) :
    (inner text).length ≤ (inner (text ++ [c])).length := by
  by_cases separates : c = '/'
  · rw [separates, inner_append_separator, List.length_append]
    exact Nat.le_add_right _ _
  · obtain ⟨plain, ends, whole⟩ := lastPiece_reverse text.reverse
    rw [List.reverse_reverse] at whole
    generalize (text.reverse.dropWhile (!isSeparator ·)).reverse = front at ends whole
    generalize (text.reverse.takeWhile (!isSeparator ·)).reverse = name at plain whole
    have plain' : '/' ∉ name ++ [c] := by simpa [plain] using Ne.symm separates
    rw [whole, List.append_assoc, inner_append_of_isOpen ends plain,
      inner_append_of_isOpen ends plain', List.length_append, List.length_append]
    apply Nat.add_le_add_left
    -- A piece that counts still counts when it is longer.
    cases name with
    | nil => simp [component?]
    | cons d name =>
      have longer : d :: name ++ [c] ≠ [] ∧ d :: name ++ [c] ≠ ['.'] := by simp
      rw [component?.eq_1 (d :: name ++ [c]), if_neg (by simp)]
      cases component? (d :: name) with
      | none => exact Nat.zero_le _
      | some component => split <;> exact Nat.le_refl 1

theorem length_inner_mono {front text : Text} (isFront : front <+: text) :
    (inner front).length ≤ (inner text).length := by
  obtain ⟨more, rfl⟩ := isFront
  induction more generalizing front with
  | nil => simp
  | cons c more ih =>
    have later := @ih (front ++ [c])
    rw [List.append_assoc, List.singleton_append] at later
    exact Nat.le_trans (length_inner_concat_le front c) later

/-! ### What can be taken off the end -/

/-- Nothing can be taken off the end of a text that is given in reverse. -/
structure IsSettled (text : Text) : Prop where
  closed : text.head? ≠ some '/'
  other : text ≠ ['.']
  behind : ¬ ['.', '/'] <+: text

theorem isSettled_dropInsignificant (text : Text) : IsSettled (dropInsignificant text) := by
  fun_induction dropInsignificant text with
  | case1 rest ih => exact ih
  | case2 => exact ⟨by simp, by simp, by simp⟩
  | case3 rest ih => exact ih
  | case4 text separator point pointed =>
    refine ⟨fun first => ?_, point, ?_⟩
    · obtain ⟨rest, rfl⟩ := List.head?_eq_some_iff.mp first
      exact separator rest rfl
    · rintro ⟨rest, rfl⟩
      exact pointed rest rfl

/-- No component is taken off. -/
theorem inner_dropInsignificant (text : Text) :
    inner (dropInsignificant text).reverse = inner text.reverse := by
  fun_induction dropInsignificant text with
  | case1 rest ih =>
    rw [ih, List.reverse_cons, inner_append_separator]
    exact (List.append_nil _).symm
  | case2 => rfl
  | case3 rest ih =>
    rw [ih, List.reverse_cons, List.reverse_cons, List.append_assoc, List.singleton_append,
      inner_append_separator]
    exact (List.append_nil _).symm
  | case4 => rfl

/-- What is left is empty, or is all of the text, or ends in front of a separator. -/
theorem dropInsignificant_cut (text : Text) :
    dropInsignificant text = [] ∨ dropInsignificant text = text ∨
      ∃ taken, text = taken ++ '/' :: dropInsignificant text := by
  fun_induction dropInsignificant text with
  | case1 rest ih =>
    rcases ih with none | all | ⟨taken, cut⟩
    · exact .inl none
    · exact .inr (.inr ⟨[], by rw [all]; rfl⟩)
    · exact .inr (.inr ⟨'/' :: taken, congrArg ('/' :: ·) cut⟩)
  | case2 => exact .inl rfl
  | case3 rest ih =>
    rcases ih with none | all | ⟨taken, cut⟩
    · exact .inl none
    · exact .inr (.inr ⟨['.'], by rw [all]; rfl⟩)
    · exact .inr (.inr ⟨'.' :: '/' :: taken, congrArg ('.' :: '/' :: ·) cut⟩)
  | case4 => exact .inr (.inl rfl)

theorem dropInsignificant_suffix (text : Text) : dropInsignificant text <:+ text := by
  rcases dropInsignificant_cut text with none | all | ⟨taken, cut⟩
  · rw [none]
    exact List.nil_suffix
  · exact ⟨[], all⟩
  · exact ⟨taken ++ ['/'], by rw [List.append_assoc]; exact cut.symm⟩

/-- A text off which nothing can be taken ends in a component. -/
theorem IsSettled.exists_component {text : Text} (settled : IsSettled text) (some : text ≠ []) :
    ∃ component, component? (text.takeWhile (!isSeparator ·)).reverse = .some component := by
  obtain ⟨c, rest, rfl⟩ := List.exists_cons_of_ne_nil some
  have plain : isSeparator c = false := by
    have closed := settled.closed
    simpa [isSeparator] using closed
  have starts : (c :: rest).takeWhile (!isSeparator ·) = c :: rest.takeWhile (!isSeparator ·) := by
    simp [plain]
  rw [starts, component?]
  have counts : ¬ ((c :: rest.takeWhile (!isSeparator ·)).reverse = [] ∨
      (c :: rest.takeWhile (!isSeparator ·)).reverse = ['.']) := by
    rintro (none | point)
    · simp at none
    · -- A piece `.` would be the whole text or follow a separator.
      rw [List.reverse_eq_iff, List.reverse_singleton, List.cons.injEq] at point
      obtain ⟨rfl, alone⟩ := point
      cases rest with
      | nil => exact settled.other rfl
      | cons d rest =>
        have separates : isSeparator d = true := by
          apply Decidable.byContradiction
          intro other
          rw [List.takeWhile_cons, if_pos (by simpa using other)] at alone
          cases alone
        obtain rfl : d = '/' := by simpa [isSeparator] using separates
        exact settled.behind ⟨rest, rfl⟩
  rw [if_neg counts]
  split
  · exact ⟨_, rfl⟩
  · exact ⟨_, rfl⟩

/-- No shorter front of a text that ends in a component has all its components. -/
theorem IsSettled.eq_of_prefix {text front : Text} (settled : IsSettled text.reverse)
    (isFront : front <+: text) (same : inner front = inner text) : front = text := by
  by_cases none : text = []
  · rw [none] at isFront ⊢
    exact List.prefix_nil.mp isFront
  · obtain ⟨component, counts⟩ := settled.exists_component (by simpa using none)
    obtain ⟨plain, ends, whole⟩ := lastPiece_reverse text.reverse
    rw [List.reverse_reverse] at whole
    generalize (text.reverse.dropWhile (!isSeparator ·)).reverse = outer at ends whole
    generalize (text.reverse.takeWhile (!isSeparator ·)).reverse = name at plain whole counts
    subst whole
    rw [inner_append_of_isOpen ends plain, counts] at same
    have longer : (inner outer).length < (inner front).length := by
      rw [same, List.length_append]
      exact Nat.lt_succ_self _
    -- The front reaches into the last piece, and is cut there to another piece.
    rcases List.prefix_or_prefix_of_prefix isFront (List.prefix_append outer name) with
      before | ⟨part, rfl⟩
    · exact absurd (length_inner_mono before) (Nat.not_le_of_lt longer)
    · have isPart := (List.prefix_append_right_inj outer).mp isFront
      have plain' : '/' ∉ part := fun member => plain (isPart.subset member)
      rw [inner_append_of_isOpen ends plain', List.append_cancel_left_eq] at same
      have counts' : component? part = some component := by
        apply Option.mem_toList.mp
        rw [same]
        exact List.mem_singleton_self component
      rw [component?_inj counts' counts]

/-! ### What a path starts with -/

/-- A component that stands in front of all others only. -/
def Component.isStart : Component → Bool
  | .root | .current => true
  | .parent | .name _ => false

theorem isStart_of_mem_inner {path : Text} {component : Component}
    (member : component ∈ inner path) : component.isStart = false := by
  obtain ⟨piece, -, counts⟩ := List.mem_filterMap.mp member
  rcases cases_of_component? counts with ⟨rfl, -⟩ | ⟨rfl, -⟩
  · rfl
  · rfl

theorem isStart_of_mem_leading {path : Text} {component : Component}
    (member : component ∈ leading path) : component.isStart = true := by
  rw [leading] at member
  split at member
  · rw [List.mem_singleton.mp member]
    rfl
  · split at member
    · rw [List.mem_singleton.mp member]
      rfl
    · cases member

/-- The components of a path tell what it starts with from what stands behind that. -/
theorem components_eq_iff {path path' : Text} :
    components path = components path' ↔
      leading path = leading path' ∧ inner path = inner path' := by
  have starts (path : Text) : (components path).filter Component.isStart = leading path := by
    rw [components_eq, List.filter_append,
      List.filter_eq_self.mpr fun _ => isStart_of_mem_leading,
      List.filter_eq_nil_iff.mpr fun _ member => by simp [isStart_of_mem_inner member],
      List.append_nil]
  have rest (path : Text) : (components path).filter (!Component.isStart ·) = inner path := by
    rw [components_eq, List.filter_append,
      List.filter_eq_nil_iff.mpr fun _ member => by simp [isStart_of_mem_leading member],
      List.filter_eq_self.mpr fun _ member => by simp [isStart_of_mem_inner member],
      List.nil_append]
  constructor
  · intro same
    rw [← starts, ← starts path', ← rest, ← rest path', same]
    exact ⟨rfl, rfl⟩
  · rintro ⟨start, others⟩
    rw [components_eq, components_eq, start, others]

theorem head?_pieces (path : Text) :
    (pieces isSeparator path).head? = some (path.takeWhile (!isSeparator ·)) := by
  have whole := path.takeWhile_append_dropWhile (p := (!isSeparator ·))
  have plain : '/' ∉ path.takeWhile (!isSeparator ·) := by
    intro member
    have other := all_takeWhile _ member
    simp [isSeparator] at other
  have stops := head_dropWhile (!isSeparator ·) path
  generalize path.takeWhile (!isSeparator ·) = first at whole plain ⊢
  generalize path.dropWhile (!isSeparator ·) = rest at whole stops
  subst whole
  cases rest with
  | nil => rw [List.append_nil, pieces_of_not_mem plain, List.head?_cons]
  | cons c rest =>
    obtain rfl : c = '/' := by simpa [isSeparator] using stops c rfl
    rw [pieces_append, pieces_of_not_mem plain]
    rfl

/-- The text that cannot be taken off the front of a path is empty, the root or a point. -/
theorem lead_cases (path : Text) :
    (lead path = ['/'] ∧ ∃ body, path = '/' :: body) ∨
      (lead path = ['.'] ∧ (path = ['.'] ∨ ∃ body, path = '.' :: '/' :: body)) ∨
      (lead path = [] ∧ leading path = []) := by
  rw [lead, leading]
  split
  next absolute =>
    rw [isAbsolute, beq_iff_eq] at absolute
    exact .inl ⟨rfl, List.head?_eq_some_iff.mp absolute⟩
  next relative =>
    split
    next point =>
      refine .inr (.inl ⟨rfl, point.imp_right fun starts => ⟨path.drop 2, ?_⟩⟩)
      rw [← List.take_append_drop 2 path, starts]
      rfl
    next other =>
      refine .inr (.inr ⟨rfl, if_neg fun starts => other ?_⟩)
      rw [head?_pieces, Option.some.injEq] at starts
      have whole := path.takeWhile_append_dropWhile (p := (!isSeparator ·))
      have stops := head_dropWhile (!isSeparator ·) path
      rw [starts] at whole
      rw [← whole]
      cases left : path.dropWhile (!isSeparator ·) with
      | nil => exact .inl rfl
      | cons c rest =>
        obtain rfl : c = '/' := by simpa [isSeparator] using stops c (by rw [left]; rfl)
        exact .inr rfl

/-- Only the empty path has no components. -/
theorem eq_nil_of_components {path : Text} (none : components path = []) : path = [] := by
  rw [components_eq, List.append_eq_nil_iff] at none
  obtain ⟨starts, inside⟩ := none
  cases path with
  | nil => rfl
  | cons c rest =>
    have first := head?_pieces (c :: rest)
    have uncounted := List.filterMap_eq_nil_iff.mp inside _ (List.mem_of_head? first)
    rw [leading, first] at starts
    split at starts
    · cases starts
    next relative =>
      split at starts
      · cases starts
      next other =>
        -- The first piece is neither empty nor a point, so it counts.
        have plain : isSeparator c = false := by simpa [isAbsolute, isSeparator] using relative
        have some : (c :: rest).takeWhile (!isSeparator ·) ≠ [] := by simp [plain]
        rw [component?, if_neg (by simpa [some] using other)] at uncounted
        split at uncounted <;> cases uncounted

theorem lead_append_drop (path : Text) : lead path ++ path.drop (lead path).length = path := by
  rcases lead_cases path with ⟨root, body, rfl⟩ | ⟨point, rfl | ⟨body, rfl⟩⟩ | ⟨none, -⟩
  · rw [root]
    rfl
  · rw [point]
    rfl
  · rw [point]
    rfl
  · rw [none]
    rfl

/-- What a path starts with is in the text that cannot be taken off, and no other component is. -/
theorem leading_lead (path : Text) :
    leading (lead path) = leading path ∧ inner (lead path) = [] := by
  rcases lead_cases path with ⟨root, body, rfl⟩ | ⟨point, rfl | ⟨body, rfl⟩⟩ | ⟨none, starts⟩
  · rw [root]
    exact ⟨rfl, rfl⟩
  · exact ⟨rfl, rfl⟩
  · rw [point]
    refine ⟨?_, rfl⟩
    rw [leading, leading, head?_pieces, head?_pieces]
    rfl
  · rw [none, starts]
    exact ⟨rfl, rfl⟩

/-- The other components of a path are those of what stands behind that text, as far as one
reads. -/
theorem inner_lead_append {path front : Text} (isFront : front <+: path.drop (lead path).length) :
    inner (lead path ++ front) = inner front := by
  rcases lead_cases path with ⟨root, body, rfl⟩ | ⟨point, rfl | ⟨body, rfl⟩⟩ | ⟨none, -⟩
  · rw [root]
    exact inner_append_separator [] front
  · rw [List.prefix_nil.mp isFront]
    rfl
  · rw [point] at isFront ⊢
    rcases List.prefix_cons_iff.mp isFront with rfl | ⟨front, rfl, -⟩
    · rfl
    · -- The separator behind the point cuts it off.
      rw [inner_append_separator]
      exact (inner_append_separator [] front).symm
  · rw [none]
    rfl

theorem leading_append_separator {front : Text} (some : front ≠ []) (more : Text) :
    leading (front ++ '/' :: more) = leading front := by
  obtain ⟨c, front, rfl⟩ := List.exists_cons_of_ne_nil some
  have same : isAbsolute (c :: front ++ '/' :: more) = isAbsolute (c :: front) := rfl
  rw [leading, leading, same, pieces_append,
    List.head?_append_of_ne_nil _ (pieces_ne_nil (c :: front))]

/-! ### Parents -/

theorem IsSettled.append {text : Text} (settled : IsSettled text) (some : text ≠ [])
    (more : Text) : IsSettled (text ++ more) := by
  obtain ⟨c, text, rfl⟩ := List.exists_cons_of_ne_nil some
  refine ⟨settled.closed, fun point => ?_, ?_⟩
  · obtain ⟨rfl, none⟩ := List.cons.inj point
    rw [(List.append_eq_nil_iff.mp none).1] at settled
    exact settled.other rfl
  · intro starts
    cases text with
    | nil =>
      obtain ⟨rfl, -⟩ := List.cons_prefix_cons.mp starts
      exact settled.other rfl
    | cons d text =>
      apply settled.behind
      simpa [List.cons_prefix_cons] using starts

/-- With its last component a text loses all that stands behind the component before. -/
theorem cut_lastComponent {body rest : Text} {c : Char}
    (ends : dropInsignificant body.reverse = c :: rest) :
    let front := (dropInsignificant (rest.dropWhile (!isSeparator ·))).reverse
    IsSettled front.reverse ∧ (front = [] ∨ ∃ more, body = front ++ '/' :: more) ∧
      ∃ last, last ≠ .root ∧ inner body = inner front ++ [last] := by
  intro front
  have settled := isSettled_dropInsignificant body.reverse
  have reads := inner_dropInsignificant body.reverse
  rw [ends] at settled reads
  rw [List.reverse_reverse] at reads
  obtain ⟨last, counts⟩ := settled.exists_component (List.cons_ne_nil c rest)
  obtain ⟨plain, isOpen, whole⟩ := lastPiece_reverse (c :: rest)
  have other : isSeparator c = false := by
    have closed := settled.closed
    simpa [isSeparator] using closed
  have behind : (c :: rest).dropWhile (!isSeparator ·) = rest.dropWhile (!isSeparator ·) := by
    simp [other]
  rw [behind] at isOpen whole
  refine ⟨by rw [List.reverse_reverse]; exact isSettled_dropInsignificant _, ?_, last, ?_, ?_⟩
  · rcases dropInsignificant_cut (rest.dropWhile (!isSeparator ·)) with none | all | ⟨taken, cut⟩
    · exact .inl (by rw [List.reverse_eq_nil_iff, none])
    · -- What stands in front of the last piece ends in a separator, unless it is empty.
      have closed := (isSettled_dropInsignificant (rest.dropWhile (!isSeparator ·))).closed
      rw [all] at closed
      left
      rw [List.reverse_eq_nil_iff, all]
      simpa [IsOpen, closed] using isOpen
    · right
      have behind : '/' :: dropInsignificant (rest.dropWhile (!isSeparator ·)) <:+
          body.reverse := by
        have dropped := dropInsignificant_suffix body.reverse
        rw [ends] at dropped
        refine .trans ⟨taken, cut.symm⟩ (.trans (List.dropWhile_suffix _) ?_)
        exact .trans (List.suffix_cons c rest) dropped
      obtain ⟨more, equal⟩ := behind
      refine ⟨more.reverse, ?_⟩
      rw [← body.reverse_reverse, ← equal]
      simp [front]
  · rcases cases_of_component? counts with ⟨rfl, -⟩ | ⟨rfl, -⟩ <;> simp
  · rw [← reads, whole, inner_append_of_isOpen isOpen plain, counts,
      ← inner_dropInsignificant (rest.dropWhile (!isSeparator ·))]
    rfl

/-- A text that is cut at a separator starts as the whole text does. -/
theorem leading_lead_append {path front : Text}
    (cut : front = [] ∨ ∃ more, path.drop (lead path).length = front ++ '/' :: more) :
    leading (lead path ++ front) = leading path := by
  by_cases empty : front = []
  · rw [empty, List.append_nil, (leading_lead path).1]
  · obtain ⟨more, behind⟩ := cut.resolve_left empty
    have whole : path = (lead path ++ front) ++ '/' :: more := by
      rw [List.append_assoc, ← behind, lead_append_drop]
    have some : lead path ++ front ≠ [] := by simp [empty]
    exact ((congrArg leading whole).trans (leading_append_separator some more)).symm

/-- A text off which nothing can be taken is the shortest with its components. -/
theorem eq_of_components_eq {path front shorter : Text} (settled : IsSettled front.reverse)
    (isShorter : shorter <+: lead path ++ front)
    (same : components shorter = components (lead path ++ front)) :
    shorter = lead path ++ front := by
  obtain ⟨start, others⟩ := components_eq_iff.mp same
  by_cases empty : front = []
  · -- The text in front is a single character or none, and tells what the path starts with.
    rw [empty, List.append_nil] at isShorter start ⊢
    rcases lead_cases path with ⟨root, -⟩ | ⟨point, -⟩ | ⟨bare, -⟩
    · rw [root] at isShorter start ⊢
      rcases List.prefix_cons_iff.mp isShorter with rfl | ⟨rest, rfl, isRest⟩
      · cases start
      · rw [List.prefix_nil.mp isRest]
    · rw [point] at isShorter start ⊢
      rcases List.prefix_cons_iff.mp isShorter with rfl | ⟨rest, rfl, isRest⟩
      · cases start
      · rw [List.prefix_nil.mp isRest]
    · rw [bare] at isShorter ⊢
      exact List.prefix_nil.mp isShorter
  · refine IsSettled.eq_of_prefix ?_ isShorter others
    rw [List.reverse_append]
    exact settled.append (by simpa using empty) _

theorem isParent_of_parent? {path parent : Text} (found : parent? path = some parent) :
    IsParent path parent := by
  have whole := lead_append_drop path
  have starts := (leading_lead path).1
  have startsToo := @leading_lead_append path
  have reads := @inner_lead_append path
  have all := reads List.prefix_rfl
  rw [parent?] at found
  generalize path.drop (lead path).length = body at whole startsToo reads all found
  rw [whole] at all
  split at found
  next ends =>
    -- Nothing is left but the point in front, which is taken off.
    split at found
    next point =>
      cases found
      have inside := inner_dropInsignificant body.reverse
      rw [ends, List.reverse_reverse] at inside
      refine ⟨List.nil_prefix, ⟨.current, by decide, ?_⟩, fun front isFront _ => ?_⟩
      · rw [components_eq, all, ← inside, ← starts, point]
        rfl
      · exact List.prefix_nil.mp isFront
    next => cases found
  next c rest ends =>
    obtain ⟨settled, cut, last, special, inside⟩ := cut_lastComponent ends
    cases found
    generalize (dropInsignificant (rest.dropWhile (!isSeparator ·))).reverse = front at *
    have isFront : front <+: body := by
      rcases cut with rfl | ⟨more, rfl⟩
      · exact List.nil_prefix
      · exact List.prefix_append _ _
    refine ⟨?front, ⟨last, special, ?shorter⟩, fun shorter => eq_of_components_eq settled⟩
    case front =>
      obtain ⟨more, equal⟩ := isFront
      exact ⟨more, by rw [List.append_assoc, equal, whole]⟩
    case shorter =>
      rw [components_eq, components_eq, all, inside, startsToo cut, reads isFront,
        List.append_assoc]

theorem isTop_of_parent?_eq_none {path : Text} (missing : parent? path = none) : IsTop path := by
  have whole := lead_append_drop path
  obtain ⟨starts, -⟩ := leading_lead path
  have all := @inner_lead_append path _ List.prefix_rfl
  rw [parent?] at missing
  generalize path.drop (lead path).length = body at whole all missing
  rw [whole] at all
  split at missing
  next ends =>
    have inside := inner_dropInsignificant body.reverse
    rw [ends, List.reverse_reverse] at inside
    split at missing
    next => cases missing
    next other =>
      have only : components path = leading (lead path) := by
        rw [components_eq, all, ← inside, starts]
        exact List.append_nil _
      rcases lead_cases path with ⟨root, -⟩ | ⟨point, -⟩ | ⟨bare, -⟩
      · exact .inr (by rw [only, root]; rfl)
      · exact absurd point other
      · exact .inl (eq_nil_of_components (by rw [only, bare]; rfl))
  next => cases missing

/-- At the top there is no parent. -/
theorem IsTop.not_isParent {path parent : Text} (top : IsTop path) : ¬ IsParent path parent := by
  rintro ⟨-, ⟨last, special, shorter⟩, -⟩
  rcases top with rfl | root
  · exact List.append_ne_nil_of_right_ne_nil _ (List.cons_ne_nil _ _) shorter.symm
  · rw [root] at shorter
    have same := congrArg List.getLast? shorter
    rw [List.getLast?_concat] at same
    exact special (Option.some.inj same).symm

/-- A path has at most one parent. -/
theorem IsParent.unique {path parent parent' : Text} (isParent : IsParent path parent)
    (isParent' : IsParent path parent') : parent = parent' := by
  obtain ⟨last, -, shorter⟩ := isParent.shorter
  obtain ⟨last', -, shorter'⟩ := isParent'.shorter
  have same : components parent = components parent' :=
    (List.append_inj' (shorter.symm.trans shorter') rfl).1
  -- Of two fronts of one path, one is a front of the other.
  rcases List.prefix_or_prefix_of_prefix isParent.front isParent'.front with before | before
  · exact isParent'.shortest parent before same
  · exact (isParent.shortest parent' before same.symm).symm

theorem parent?_eq_some_iff {path parent : Text} :
    parent? path = some parent ↔ IsParent path parent := by
  refine ⟨isParent_of_parent?, fun isParent => ?_⟩
  cases found : parent? path with
  | none => exact absurd isParent (isTop_of_parent?_eq_none found).not_isParent
  | some parent' => rw [(isParent_of_parent? found).unique isParent]

theorem parent?_eq_none_iff {path : Text} : parent? path = none ↔ IsTop path := by
  refine ⟨isTop_of_parent?_eq_none, fun top => ?_⟩
  cases found : parent? path with
  | none => rfl
  | some parent => exact absurd (isParent_of_parent? found) top.not_isParent

/-! ### Lineages -/

theorem ancestors_of_isParent {path parent : Text} (isParent : IsParent path parent) :
    ancestors path = path :: ancestors parent := by
  have found := parent?_eq_some_iff.mpr isParent
  rw [ancestors]
  split <;> simp_all

theorem ancestors_of_isTop {path : Text} (top : IsTop path) : ancestors path = [path] := by
  have missing := parent?_eq_none_iff.mpr top
  rw [ancestors]
  split <;> simp_all

theorem isLineage_ancestors (path : Text) : IsLineage path (ancestors path) := by
  induction length : path.length using Nat.strongRecOn generalizing path with
  | ind bound ih =>
    subst length
    cases found : parent? path with
    | none =>
      have top := parent?_eq_none_iff.mp found
      rw [ancestors_of_isTop top]
      exact ⟨rfl, .singleton path, by simpa using top⟩
    | some parent =>
      have isParent := parent?_eq_some_iff.mp found
      obtain ⟨first, parents, top⟩ := ih _ (parent?_shorter found) parent rfl
      rw [ancestors_of_isParent isParent]
      obtain ⟨others, equal⟩ := List.head?_eq_some_iff.mp first
      rw [equal] at parents top ⊢
      exact ⟨rfl, .cons_cons isParent parents, by simpa using top⟩

/-- A path has one lineage, which its ancestors are. -/
theorem isLineage_iff {path : Text} {directories : List Text} :
    IsLineage path directories ↔ directories = ancestors path := by
  refine ⟨fun lineage => ?_, fun same => same ▸ isLineage_ancestors path⟩
  obtain ⟨first, parents, top⟩ := lineage
  obtain ⟨others, rfl⟩ := List.head?_eq_some_iff.mp first
  clear first
  induction others generalizing path with
  | nil => rw [ancestors_of_isTop (top path rfl)]
  | cons parent others ih =>
    obtain ⟨isParent, parents⟩ := List.isChain_cons_cons.mp parents
    rw [ancestors_of_isParent isParent, ← ih parents (by simpa using top)]

/-- A path has no more ancestors than it has components, and the top. -/
theorem IsLineage.length_le {path : Text} {directories : List Text}
    (lineage : IsLineage path directories) :
    directories.length ≤ (components path).length + 1 := by
  obtain ⟨first, parents, -⟩ := lineage
  obtain ⟨others, rfl⟩ := List.head?_eq_some_iff.mp first
  clear first
  induction others generalizing path with
  | nil => exact Nat.le_add_left 1 _
  | cons parent others ih =>
    obtain ⟨isParent, parents⟩ := List.isChain_cons_cons.mp parents
    obtain ⟨last, -, shorter⟩ := isParent.shorter
    have bound := ih parents
    rw [shorter, List.length_append, List.length_singleton]
    exact Nat.succ_le_succ bound

end KeyHarvest.Path
