/-
Where a configuration file is found when none is asked for.

The working directory and those above it are looked into one after the other, and the first one that
has an entry with the name of configuration files settles it, be it a file or a directory.

* **`search_discover?`** — the search ends, at the latest behind the root;
* **`holds_iff_hasFile`** — looking for a file in a directory is looking for an entry of its name;
* **`discover?_of_isNearest`**, **`discover?_eq_none_iff`** — what is found is in the deepest
  directory that has one, and nothing is found only where none of them has one;
* **`load_congr`** — nothing else on the disk is taken into account;
* **`load_nearest`** — so the nearest file is loaded, or else there are the standard settings.
-/
import StylesheetBuild.Config.Load
import StylesheetBuild.Proofs.Disk.Entries
import StylesheetBuild.Proofs.Path.Ancestors

namespace StylesheetBuild.Config

open StylesheetBuild.Path (components_ancestors ancestors_pairwise ancestors_of_top
  ancestors_of_parent? isAbsolute_of_mem_ancestors)

variable {host : Host} {dir other : Path}

/-! ### The search -/

/-- Searching from a directory upwards, with what comes of it: the search ends in the first
directory in which there is a configuration file, or behind the last one above. -/
inductive Search (host : Host) : Path → Option Path → Prop
  | found {dir : Path} (h : host.holds (dir.join fileName)) :
      Search host dir (some (dir.join fileName))
  | up {dir above : Path} {result : Option Path} (h : ¬ host.holds (dir.join fileName))
      (hparent : dir.parent? = some above) (hsearch : Search host above result) :
      Search host dir result
  | top {dir : Path} (h : ¬ host.holds (dir.join fileName)) (hparent : dir.parent? = none) :
      Search host dir none

theorem search_ancestors (host : Host) (h : dir.isAbsolute) :
    Search host dir ((dir.ancestors.map (·.join fileName)).find? host.holds) := by
  induction dir, h using Path.upward_induction with
  | root dir _ _ hparent =>
    rw [ancestors_of_top hparent, List.map_singleton, List.find?_cons]
    cases hholds : host.holds (dir.join fileName) with
    | true => exact .found hholds
    | false => exact .top (by simp [hholds]) hparent
  | down dir above c h _ hparent _ ih =>
    rw [ancestors_of_parent? h hparent, List.map_cons, List.find?_cons]
    cases hholds : host.holds (dir.join fileName) with
    | true => exact .found hholds
    | false => exact .up (by simp [hholds]) hparent ih

/-- The search from an absolute working directory ends. -/
theorem search_discover? (hhost : host.workingDirectory.isAbsolute) :
    Search host host.workingDirectory (discover? host) :=
  search_ancestors host hhost

/-! ### The nearest file -/

theorem isEntryName_fileName : Disk.IsEntryName fileName.bytes where
  slash_not_mem := by decide +kernel
  length_le := by decide +kernel
  ofSegment? := by decide +kernel

/-- A directory on the disk has an entry with the name of configuration files, be it a file or a
directory, and the path of that name in the directory leads to it. -/
def HasFile (host : Host) (dir : Path) : Prop :=
  ∃ location, host.disk.locate host.here dir = .ok location ∧
    host.disk.find? location = some .directory ∧
    (host.disk.find? (location ++ [fileName.bytes])).isSome ∧
    host.disk.locate host.here (dir.join fileName) = .ok (location ++ [fileName.bytes])

theorem holds_iff_hasFile (hdir : dir.isAbsolute) :
    host.holds (dir.join fileName) ↔ HasFile host dir :=
  Disk.holds_join_iff hdir isEntryName_fileName

/-- The deepest of the working directory and those above it in which there is a configuration
file. -/
structure IsNearest (host : Host) (dir : Path) : Prop where
  mem : dir ∈ host.workingDirectory.ancestors
  holds : host.holds (dir.join fileName)
  deepest : ∀ other ∈ host.workingDirectory.ancestors, host.holds (other.join fileName) →
    other.components.length ≤ dir.components.length

theorem discover?_eq_map (host : Host) : discover? host =
    (host.workingDirectory.ancestors.find? fun dir => host.holds (dir.join fileName)).map
      (·.join fileName) :=
  List.find?_map

/-- What is found is the file in the nearest directory that has one. -/
theorem discover?_of_isNearest (hhost : host.workingDirectory.isAbsolute)
    (h : IsNearest host dir) : discover? host = some (dir.join fileName) := by
  obtain ⟨below, above, hcut⟩ := List.append_of_mem h.mem
  have hdeeper := ancestors_pairwise hhost
  rw [hcut, List.pairwise_append] at hdeeper
  have hnone : ∀ other ∈ below, ¬ host.holds (other.join fileName) := by
    intro other hother hholds
    have hmem : other ∈ host.workingDirectory.ancestors :=
      hcut ▸ List.mem_append_left _ hother
    have hlt := hdeeper.2.2 other hother dir List.mem_cons_self
    exact absurd (h.deepest other hmem hholds) (Nat.not_le.mpr hlt)
  have hfound : host.workingDirectory.ancestors.find?
      (fun dir => host.holds (dir.join fileName)) = some dir := by
    rw [List.find?_eq_some_iff_append]
    exact ⟨h.holds, below, above, hcut, fun other hother => by simpa using hnone other hother⟩
  rw [discover?_eq_map, hfound]
  rfl

theorem discover?_eq_none_iff : discover? host = none ↔
    ∀ dir ∈ host.workingDirectory.ancestors, ¬ host.holds (dir.join fileName) := by
  rw [discover?_eq_map, Option.map_eq_none_iff, List.find?_eq_none]

/-- If there is a file in some of the directories, one of them is the nearest. -/
theorem exists_isNearest (hhost : host.workingDirectory.isAbsolute)
    (h : ∃ dir ∈ host.workingDirectory.ancestors, host.holds (dir.join fileName)) :
    ∃ nearest, IsNearest host nearest := by
  cases hfound : host.workingDirectory.ancestors.find?
      (fun dir => host.holds (dir.join fileName)) with
  | none =>
    obtain ⟨dir, hmem, hholds⟩ := h
    exact absurd hholds (List.find?_eq_none.mp hfound dir hmem)
  | some nearest =>
    obtain ⟨hholds, below, above, hcut, hnone⟩ := List.find?_eq_some_iff_append.mp hfound
    have hdeeper := ancestors_pairwise hhost
    rw [hcut, List.pairwise_append, List.pairwise_cons] at hdeeper
    refine ⟨nearest, hcut ▸ List.mem_append_right _ List.mem_cons_self, hholds,
      fun other hother hholds => ?_⟩
    rw [hcut, List.mem_append, List.mem_cons] at hother
    rcases hother with hother | rfl | hother
    · exact absurd (hnone other hother) (by simp [hholds])
    · exact Nat.le_refl _
    · exact Nat.le_of_lt (hdeeper.2.1.1 other hother)

/-! ### Loading it -/

variable {overrides : Overrides}

theorem load_of_isNearest (hhost : host.workingDirectory.isAbsolute) (h : IsNearest host dir) :
    load host none overrides =
      (loadFile host (dir.join fileName)).map (applyOverrides host overrides) := by
  rw [load, loadBase, discover?_of_isNearest hhost h]

theorem load_of_none
    (h : ∀ dir ∈ host.workingDirectory.ancestors, ¬ host.holds (dir.join fileName)) :
    load host none overrides =
      .ok (applyOverrides host overrides (standard host.workingDirectory)) := by
  rw [load, loadBase, discover?_eq_none_iff.mpr h]
  rfl

/-- Of the disk, a configuration depends on nothing but the file that it is read from. -/
theorem loadFile_congr {disk : Disk} {file : Path}
    (h : Host.readText { host with disk := disk } file = host.readText file) :
    loadFile { host with disk := disk } file = loadFile host file := by
  rw [loadFile, loadFile, h]
  rfl

/-- Of the disk, loading depends on nothing but in which directories there is a file, and on the
content of the nearest one. -/
theorem load_congr {disk : Disk} (hhost : host.workingDirectory.isAbsolute)
    (hholds : ∀ dir ∈ host.workingDirectory.ancestors,
      Host.holds { host with disk := disk } (dir.join fileName) = host.holds (dir.join fileName))
    (hread : ∀ dir, IsNearest host dir →
      Host.readText { host with disk := disk } (dir.join fileName) =
        host.readText (dir.join fileName)) :
    load { host with disk := disk } none overrides = load host none overrides := by
  by_cases hnone : ∀ dir ∈ host.workingDirectory.ancestors, ¬ host.holds (dir.join fileName)
  · have hload : load { host with disk := disk } none overrides =
        .ok (applyOverrides host overrides (standard host.workingDirectory)) :=
      load_of_none fun dir hdir => by
        rw [hholds dir hdir]
        exact hnone dir hdir
    rw [hload, load_of_none hnone]
  · obtain ⟨nearest, hnearest⟩ := exists_isNearest hhost (by simpa using hnone)
    have hnearest' : IsNearest { host with disk := disk } nearest :=
      ⟨hnearest.mem, (hholds nearest hnearest.mem).trans hnearest.holds,
        fun other hother h => hnearest.deepest other hother ((hholds other hother).symm.trans h)⟩
    have hload : load { host with disk := disk } none overrides =
        (loadFile { host with disk := disk } (nearest.join fileName)).map
          (applyOverrides host overrides) := load_of_isNearest hhost hnearest'
    rw [hload, load_of_isNearest hhost hnearest, loadFile_congr (hread nearest hnearest)]

end StylesheetBuild.Config
