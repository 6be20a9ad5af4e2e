import KeyHarvest.Proofs.Batches
import Mathlib.Data.List.Induction

/-!
# Batches of many workers

The paths of a batch are shared out among workers, which finish in any order. As long as their
outcomes are collected by the positions of the paths, the batch is the one of the paths one after
the other (`gather_collect`).
-/
namespace KeyHarvest

variable {workspace : Workspace} {markers : Markers} {paths : List Text}

/-! ### Outcomes one after the other -/

abbrev FileOutcome := Except ReadFailure FileExtraction

/-- The batch of some outcomes, added one by one. -/
def Batch.gather (outcomes : List FileOutcome) : Batch := outcomes.foldl Batch.push .empty

theorem foldl_push (batch : Batch) (paths : List Text) :
    (paths.map (extractFile workspace markers)).foldl Batch.push batch =
      batch.append (extractFiles workspace markers paths) := by
  induction paths generalizing batch with
  | nil => simp [extractFiles, Batch.append]
  | cons path paths ih =>
    rw [List.map_cons, List.foldl_cons, ih, extractFile]
    cases read : workspace.read path with
    | ok content => simp [extractFiles_cons_of_ok read, Batch.append, Batch.push]
    | error problem => simp [extractFiles_cons_of_error read, Batch.append, Batch.push]

theorem gather_map_extractFile (workspace : Workspace) (markers : Markers) (paths : List Text) :
    .gather (paths.map (extractFile workspace markers)) = extractFiles workspace markers paths :=
  foldl_push .empty paths

/-! ### Workers -/

section Workers

variable {α : Type}

/-- Items, each with its position. -/
def positioned (items : List α) : List (Nat × α) := items.mapIdx Prod.mk

/-- Items that come with their positions, in whatever order, are collected by position. -/
def KeepsPositions (collect : List (Nat × α) → List α) : Prop :=
  ∀ items finished, finished.Perm (positioned items) → collect finished = items

theorem filterMap_range_length {β : Type} (items : List α) (use : Nat → α → β) :
    ((List.range items.length).filterMap fun position => items[position]?.map (use position)) =
      items.mapIdx use := by
  induction items using List.reverseRecOn with
  | nil => rfl
  | append_singleton items last ih =>
    rw [List.length_append, List.length_singleton, List.range_succ, List.filterMap_append,
      List.mapIdx_concat, ← ih]
    congr 1
    · apply List.filterMap_congr
      intro position inside
      rw [List.getElem?_append_left (List.mem_range.mp inside)]
    · simp

/-- The items in the order of their positions. -/
def byPosition (finished : List (Nat × α)) : List α :=
  (List.range finished.length).filterMap fun position =>
    (finished.find? (·.1 = position)).map (·.2)

theorem keepsPositions_byPosition : KeepsPositions (@byPosition α) := by
  intro items finished perm
  have same : finished.length = items.length := by
    rw [perm.length_eq, positioned, List.length_mapIdx]
  have stands (position : Nat) (inside : position < items.length) :
      (finished.find? (·.1 = position)).map (·.2) = items[position]? := by
    have member : (position, items[position]) ∈ finished :=
      perm.mem_iff.mpr (List.mem_mapIdx.mpr ⟨position, inside, rfl⟩)
    cases found : finished.find? (·.1 = position) with
    | none =>
      have missing := List.find?_eq_none.mp found _ member
      exact absurd (decide_eq_true rfl) missing
    | some entry =>
      -- An entry with this position is the one of the item there.
      have there : entry.1 = position := by simpa using List.find?_some found
      obtain ⟨position', inside', rfl⟩ :=
        List.mem_mapIdx.mp (perm.mem_iff.mp (List.mem_of_find?_eq_some found))
      subst there
      exact (List.getElem?_eq_getElem inside').symm
  have inOrder := filterMap_range_length items fun _ item => item
  simp only [Option.map_id_fun', id_eq] at inOrder
  rw [byPosition, same, List.filterMap_congr fun position member =>
    stands position (List.mem_range.mp member)]
  exact inOrder.trans (List.ext_getElem? (by simp))

/-- What the workers hand over that finish in some order: each outcome with the position of its
path. -/
def handedOver (workspace : Workspace) (markers : Markers) (paths : List Text)
    (order : List Nat) : List (Nat × FileOutcome) :=
  order.filterMap fun position =>
    paths[position]?.map fun path => (position, extractFile workspace markers path)

theorem handedOver_perm {order : List Nat} (complete : order.Perm (List.range paths.length)) :
    (handedOver workspace markers paths order).Perm
      (positioned (paths.map (extractFile workspace markers))) := by
  have inOrder := filterMap_range_length (paths.map (extractFile workspace markers)) Prod.mk
  simp only [List.length_map, List.getElem?_map, Option.map_map, Function.comp_def] at inOrder
  rw [positioned, ← inOrder]
  exact complete.filterMap _

theorem gather_collect {collect : List (Nat × FileOutcome) → List FileOutcome}
    (keeps : KeepsPositions collect) {order : List Nat}
    (complete : order.Perm (List.range paths.length)) :
    .gather (collect (handedOver workspace markers paths order)) =
      extractFiles workspace markers paths := by
  rw [keeps _ _ (handedOver_perm complete), gather_map_extractFile]

end Workers

/-- Whatever order the workers finish in, the batch is the one of the paths: it is parted by what
can be read, it stands in front of the batch of any further paths, and what is at one path has no
effect on the entries of another. -/
theorem gather_isolates {collect : List (Nat × FileOutcome) → List FileOutcome}
    (keeps : KeepsPositions collect) (workspace : Workspace) (markers : Markers)
    {paths : List Text} {order : List Nat} (complete : order.Perm (List.range paths.length)) :
    Batch.gather (collect (handedOver workspace markers paths order)) =
        extractFiles workspace markers paths ∧
      Partitions workspace markers paths (extractFiles workspace markers paths) ∧
      (∀ others, extractFiles workspace markers (paths ++ others) =
        (extractFiles workspace markers paths).append (extractFiles workspace markers others)) ∧
      ∀ (path : Text) (workspace' : Workspace),
        (∀ other ∈ paths, other ≠ path → workspace'.read other = workspace.read other) →
          (extractFiles workspace' markers paths).without path =
            (extractFiles workspace markers paths).without path := by
  refine ⟨gather_collect keeps complete, ?_, ?_, ?_⟩
  · exact partitions_extractFiles workspace markers paths
  · exact extractFiles_append workspace markers paths
  · exact fun path workspace' same => without_extractFiles_congr same

/-- Two pages, and something else between them. -/
def mixedPlaces (between : Entry) : Workspace :=
  ⟨⟨[(["a".toList], .file (encode "<p data-i18n=k>".toList)), (["b".toList], between),
    (["c".toList], .file [0xE9])], []⟩, []⟩

def mixedPaths : List Text := ["c".toList, "b".toList, "a".toList, "x".toList, "c".toList]

theorem gather_isolates_mixedPlaces :
    [4, 1, 3, 0, 2].Perm (List.range mixedPaths.length) ∧
      let batch := Batch.gather
        (byPosition (handedOver (mixedPlaces .directory) .default mixedPaths [4, 1, 3, 0, 2]))
      batch.files.map (·.path) = ["c".toList, "a".toList, "c".toList] ∧
        batch.failures.map (·.path) = ["b".toList, "x".toList] ∧ batch.filesChecked = 5 ∧
          (extractFiles (mixedPlaces (.file [])) .default mixedPaths).without "b".toList =
            batch.without "b".toList := by
  have complete : [4, 1, 3, 0, 2].Perm (List.range mixedPaths.length) := by decide
  obtain ⟨gathered, parted, -, isolated⟩ :=
    gather_isolates keepsPositions_byPosition (mixedPlaces .directory) .default complete
  refine ⟨complete, ?_⟩
  rw [gathered]
  refine ⟨?_, ?_, parted.checked, ?_⟩
  · rw [parted.files]
    decide +kernel
  · rw [parted.failures]
    decide +kernel
  · exact isolated "b".toList (mixedPlaces (.file [])) (by decide +kernel)

end KeyHarvest
