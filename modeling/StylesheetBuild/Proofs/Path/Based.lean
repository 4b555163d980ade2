/-
Paths as they are meant in a directory.

A relative path starts in the directory that it is meant in, an absolute one at the root.  Paths
are based on a directory by joining them to it, or by asking what they are as seen from the root;
both give a path that means the same.

* **`basedOn_join`**, **`basedOn_absolute?`** — what a path is joined to is the directory that it is
  based on, and so is the one that it is seen from;
* **`isDirectoryOf_of_parent?`** — the directory of a file is what its path without the last
  component means.
-/
import StylesheetBuild.Proofs.Path.Respelling

namespace StylesheetBuild.Path

open Pieces
open RelativePath (steps)

variable {dir p placed : Path}

/-- An absolute path `placed` that means what `written` means in the directory `dir`. -/
structure BasedOn (dir written placed : Path) : Prop where
  isAbsolute : placed.isAbsolute
  of_isAbsolute : written.isAbsolute → placed.components = written.components
  of_relative : written.isAbsolute = false → placed.components = dir.components ++ steps written

theorem components_ne_nil_of_isAbsolute (h : p.isAbsolute) : p.components ≠ [] := by
  rw [components_of_isAbsolute h]
  exact List.cons_ne_nil _ _

/-- What is joined to an absolute directory is based on it. -/
theorem basedOn_join (hdir : dir.isAbsolute) (written : Path) :
    BasedOn dir written (dir.join written) := by
  refine ⟨isAbsolute_join hdir written, fun h => ?_, fun h => ?_⟩
  · rw [components_join_eq, if_pos (.inl h)]
  · rw [components_join_eq, if_neg]
    rw [h]
    exact not_or.mpr ⟨Bool.false_ne_true, components_ne_nil_of_isAbsolute hdir⟩

/-! ### As seen from the root -/

/-- The components of a path behind the one that it may start with. -/
theorem filter_components (p : Path) :
    (p.components.filter fun c => c != .root && c != .current) =
      p.segments.filterMap Component.ofSegment? := by
  have hleads : ∀ c ∈ p.segments.filterMap Component.ofSegment?,
      (c != .root && c != .current) = true := by
    intro c hc
    obtain ⟨piece, -, hpiece⟩ := List.mem_filterMap.mp hc
    rcases Component.cases_of_ofSegment? hpiece with rfl | rfl <;> rfl
  rw [components, List.filter_append, List.filter_eq_self.mpr hleads]
  rcases p.cut_cases with hcut | ⟨hcut, -⟩ | hcut <;> rw [hcut] <;> rfl

theorem steps_eq_filterMap (h : p.isAbsolute = false) :
    steps p = p.segments.filterMap Component.ofSegment? := by
  have hroot : ∀ c ∈ p.components, c ≠ .root := by
    rintro c hc rfl
    rw [isAbsolute_iff_mem.mpr hc] at h
    exact absurd h (by decide)
  rw [← filter_components, steps]
  refine List.filter_congr fun c hc => ?_
  simp [hroot c hc]

theorem components_join_of_ofSegment? (hdir : dir.isAbsolute) {piece : List UInt8}
    {c : Component} (hslash : slash ∉ piece) (hpiece : Component.ofSegment? piece = some c) :
    (dir.join ⟨piece⟩).components = dir.components ++ [c] := by
  have hne : dir.bytes ≠ [] := by
    intro hnil
    exact components_ne_nil_of_isAbsolute hdir (components_eq_nil_iff.mpr hnil)
  have hrelative : (⟨piece⟩ : Path).isAbsolute = false := by
    rw [Bool.eq_false_iff]
    intro habs
    exact hslash (List.mem_of_head? (of_decide_eq_true habs))
  have hsplit : (split slash piece).filterMap Component.ofSegment? = [c] := by
    rw [split_of_not_mem hslash, List.filterMap_cons_some hpiece]
    rfl
  rw [components_join_of_ne_nil hne hrelative, hsplit]

/-- Behind an absolute path, pieces are put together to a path with their components. -/
theorem components_foldl_join (hdir : dir.isAbsolute) (pieces : List (List UInt8))
    (hslash : ∀ piece ∈ pieces, slash ∉ piece) :
    ((pieces.filterMap Component.ofSegment?).foldl (fun path step => path.join ⟨step.bytes⟩)
      dir).components = dir.components ++ pieces.filterMap Component.ofSegment? := by
  induction pieces generalizing dir with
  | nil => exact (List.append_nil _).symm
  | cons piece rest ih =>
    obtain ⟨hfirst, hrest⟩ := List.forall_mem_cons.mp hslash
    cases hpiece : Component.ofSegment? piece with
    | none =>
      rw [List.filterMap_cons_none hpiece]
      exact ih hdir hrest
    | some c =>
      rw [List.filterMap_cons_some hpiece, List.foldl_cons, ih (isAbsolute_join hdir _) hrest,
        Component.bytes_of_ofSegment? hpiece, components_join_of_ofSegment? hdir hfirst hpiece,
        List.append_assoc, List.singleton_append]

/-- A slash at the end is a filler. -/
theorem components_join_empty (hdir : dir.isAbsolute) :
    (dir.join empty).components = dir.components := by
  rw [(basedOn_join hdir empty).of_relative rfl]
  exact List.append_nil _

/-- A path as seen from the root has its own components behind what it starts with. -/
theorem components_absolute? (hdir : dir.isAbsolute) (h : p.absolute? dir = some placed) :
    placed.components = (if p.isAbsolute then [.root] else dir.components) ++
      p.segments.filterMap Component.ofSegment? := by
  have hempty : p.bytes ≠ [] := by
    intro hnil
    rw [absolute?, if_pos hnil] at h
    exact Option.some_ne_none placed h.symm
  rw [absolute?, if_neg hempty, filter_components] at h
  generalize hbase : (if !p.isAbsolute then dir
    else if p.hasDoubleRoot then ⟨[slash, slash]⟩ else ⟨[slash]⟩ : Path) = base at h
  obtain ⟨habs, hcomponents⟩ : base.isAbsolute ∧
      base.components = if p.isAbsolute then [.root] else dir.components := by
    subst hbase
    cases p.isAbsolute with
    | false => exact ⟨hdir, rfl⟩
    | true => cases p.hasDoubleRoot <;> exact ⟨rfl, rfl⟩
  have hjoined := components_foldl_join habs p.segments fun _ => not_mem_of_mem_split
  rw [hcomponents] at hjoined
  rw [← hjoined]
  obtain rfl := Option.some_inj.mp h
  split_ifs
  · exact components_join_empty (isAbsolute_foldl_join habs _)
  · rfl

/-- A path as seen from the root is based on the directory that it is seen from. -/
theorem basedOn_absolute? (hdir : dir.isAbsolute) (h : p.absolute? dir = some placed) :
    BasedOn dir p placed := by
  have hcomponents := components_absolute? hdir h
  refine ⟨isAbsolute_of_absolute? hdir h, fun habs => ?_, fun hrelative => ?_⟩
  · rw [hcomponents, if_pos habs, components, isAbsolute_iff_cut.mp habs]
    rfl
  · rw [hcomponents, hrelative, if_neg Bool.false_ne_true, steps_eq_filterMap hrelative]

/-! ### The directory of a file -/

/-- The directory `dir` lies above the file with a path that is meant in the directory `here`. -/
structure IsDirectoryOf (here file dir : Path) : Prop where
  isAbsolute : dir.isAbsolute
  holds : ∃ placed last, BasedOn here file placed ∧ placed.components = dir.components ++ [last]

/-- The directory of a file is what its path without the last component means. -/
theorem isDirectoryOf_of_parent? {here file : Path} (hhere : here.isAbsolute)
    (hfile : file.segmentsFromEnd ≠ []) (h : BasedOn here (file.parent?.getD empty) dir) :
    IsDirectoryOf here file dir := by
  obtain ⟨last, before, hsegments⟩ := List.exists_cons_of_ne_nil hfile
  obtain ⟨c, hc⟩ := exists_ofSegment?_of_segmentsFromEnd hsegments
  have hcomponents := components_of_segmentsFromEnd hsegments hc
  have hparent := components_parent?_getD file
  rw [hcomponents, List.dropLast_concat] at hparent
  generalize file.parent?.getD empty = parent at h hparent
  rw [← hparent] at hcomponents
  obtain ⟨hroot, hcurrent⟩ : c ≠ .root ∧ c ≠ .current := by
    rcases Component.cases_of_ofSegment? hc with rfl | rfl <;> exact ⟨nofun, nofun⟩
  have habs : file.isAbsolute = parent.isAbsolute := by
    rw [Bool.eq_iff_iff, isAbsolute_iff_mem, isAbsolute_iff_mem, hcomponents, List.mem_append,
      List.mem_singleton]
    exact or_iff_left (Ne.symm hroot)
  have hplaced := basedOn_join hhere file
  refine ⟨h.isAbsolute, here.join file, c, hplaced, ?_⟩
  cases hfile : file.isAbsolute with
  | true => rw [hplaced.of_isAbsolute hfile, h.of_isAbsolute (habs ▸ hfile), hcomponents]
  | false =>
    have hsteps : steps file = steps parent ++ [c] := by
      have hlast : [c].filter (· != .current) = [c] :=
        List.filter_eq_self.mpr fun d hd => bne_iff_ne.mpr (List.mem_singleton.mp hd ▸ hcurrent)
      rw [steps, hcomponents, List.filter_append, hlast]
      rfl
    rw [hplaced.of_relative hfile, h.of_relative (habs ▸ hfile), hsteps, List.append_assoc]

end StylesheetBuild.Path
