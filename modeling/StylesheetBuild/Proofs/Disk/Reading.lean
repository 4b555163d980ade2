/-
Paths of files that can be read.

A path is followed from directory to directory, so whatever lies above a place that it leads to is
a directory.  The last step to a file therefore goes down: the path ends with a name.

* **`Reachable.step`**, **`Reachable.walk`** — every step keeps what lies above a directory;
* **`segmentsFromEnd_ne_nil_of_read`** — a file is not where its path starts;
* **`exists_name_of_read`** — the path of a file ends with a name, up to fillers.
-/
import StylesheetBuild.Disk.Host
import StylesheetBuild.Proofs.Disk.Saving
import StylesheetBuild.Proofs.Path.Composition

namespace StylesheetBuild.Disk

open StylesheetBuild.Path (Component isFiller)

variable {disk : Disk} {here location result : Location} {segment : List UInt8}

/-- All locations above the given one are directories. -/
def Reachable (disk : Disk) (location : Location) : Prop :=
  ∀ above, above <+: location → above ≠ location → disk.find? above = some .directory

theorem Reachable.nil : disk.Reachable [] :=
  fun _ habove hne => absurd (List.prefix_nil.mp habove) hne

theorem Reachable.of_prefix (h : disk.Reachable location)
    (hlocation : disk.find? location = some .directory) {above : Location}
    (habove : above <+: location) : disk.find? above = some .directory := by
  by_cases heq : above = location
  · exact heq ▸ hlocation
  · exact h above habove heq

/-- A step leads up to a directory, into one or nowhere. -/
theorem Reachable.step (h : disk.Reachable location)
    (hstep : disk.step location segment = .ok result) : disk.Reachable result := by
  have hlocation := find?_of_step hstep
  simp only [Disk.step, hlocation] at hstep
  split at hstep
  · obtain rfl := Except.ok.inj hstep
    exact fun above habove _ => h.of_prefix hlocation (habove.trans (List.dropLast_prefix location))
  · obtain ⟨-, -, rfl⟩ := enter_eq_ok_iff.mp hstep
    intro above habove hne
    exact h.of_prefix hlocation ((List.prefix_concat_iff.mp habove).resolve_left hne)
  · obtain rfl := Except.ok.inj hstep
    exact h

theorem Reachable.walk {segments : List (List UInt8)} (h : disk.Reachable location)
    (hwalk : disk.walk location segments = .ok result) : disk.Reachable result := by
  induction segments generalizing location with
  | nil =>
    obtain rfl := Except.ok.inj hwalk
    exact h
  | cons segment rest ih =>
    obtain ⟨middle, hstep, hrest⟩ := exists_of_bind_eq_ok hwalk
    exact ih (h.step hstep) hrest

/-- Fillers lead nowhere. -/
theorem walk_fillers {fillers : List (List UInt8)}
    (hfillers : fillers.filterMap Component.ofSegment? = [])
    (h : disk.walk location fillers = .ok result) : result = location := by
  induction fillers generalizing location with
  | nil => exact (Except.ok.inj h).symm
  | cons filler rest ih =>
    obtain ⟨middle, hstep, hrest⟩ := exists_of_bind_eq_ok h
    have hnone := List.filterMap_eq_nil_iff.mp hfillers filler List.mem_cons_self
    rw [List.filterMap_cons_none hnone] at hfillers
    simp only [step, find?_of_step hstep, hnone] at hstep
    obtain rfl := Except.ok.inj hstep
    exact ih hfillers hrest

/-- The path of a file does not end where it starts. -/
theorem segmentsFromEnd_ne_nil_of_read {path : Path} {content : List UInt8}
    (h : disk.read here path = .ok content) : path.segmentsFromEnd ≠ [] := by
  obtain ⟨location, hlocate, h⟩ := exists_of_bind_eq_ok h
  obtain ⟨-, -, hwalk⟩ := exists_of_bind_eq_ok hlocate
  intro hnil
  obtain rfl := walk_fillers (Path.filterMap_segments_eq_nil hnil) hwalk
  -- there is a piece at least, and it needs a directory
  obtain ⟨first, rest, hsegments⟩ :=
    List.exists_cons_of_ne_nil (Pieces.split_ne_nil Path.slash path.cut.2)
  rw [Path.segments, hsegments] at hwalk
  obtain ⟨middle, hstep, -⟩ := exists_of_bind_eq_ok hwalk
  rw [find?_of_step hstep] at h
  cases h

/-- The path of a file ends with a name. -/
theorem exists_name_of_read {path : Path} {content : List UInt8} (habs : path.isAbsolute)
    (h : disk.read here path = .ok content) :
    ∃ name, path.components.getLast? = some (.name name) := by
  obtain ⟨last, before, hsegments⟩ :=
    List.exists_cons_of_ne_nil (segmentsFromEnd_ne_nil_of_read h)
  obtain ⟨location, hlocate, h⟩ := exists_of_bind_eq_ok h
  have hfile : disk.find? location ≠ some .directory := by
    intro hdirectory
    rw [hdirectory] at h
    exact absurd h nofun
  obtain ⟨-, -, hwalk⟩ := exists_of_bind_eq_ok hlocate
  rw [origin, if_pos habs] at hwalk
  obtain ⟨fillers, hpath, hfillers⟩ := Path.exists_of_segmentsFromEnd hsegments
  rw [hpath, walk_append] at hwalk
  obtain ⟨middle, hbefore, hwalk⟩ := exists_of_bind_eq_ok hwalk
  obtain ⟨next, hstep, hwalk⟩ := exists_of_bind_eq_ok hwalk
  obtain rfl := walk_fillers hfillers hwalk
  have hmiddle := find?_of_step hstep
  have hreachable := Reachable.nil.walk hbefore
  simp only [step, hmiddle] at hstep
  split at hstep
  · obtain rfl := Except.ok.inj hstep
    exact absurd (hreachable.of_prefix hmiddle (List.dropLast_prefix middle)) hfile
  · rename_i name hname
    refine ⟨name, ?_⟩
    rw [Path.components_of_segmentsFromEnd hsegments hname, List.getLast?_concat]
  · obtain rfl := Except.ok.inj hstep
    exact absurd hmiddle hfile

end StylesheetBuild.Disk

namespace StylesheetBuild

/-- A program knows a path as it is seen from the directory that it works in. -/
theorem Host.absolute?_of_absolute {host : Host} {path result : Path}
    (h : host.absolute path = .ok result) :
    path.absolute? host.workingDirectory = some result := by
  rw [Host.absolute] at h
  split at h
  · rename_i placed hplaced
    obtain rfl := Except.ok.inj h
    exact hplaced
  · exact absurd h nofun

end StylesheetBuild
