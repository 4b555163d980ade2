/-
Paths that are written in different ways.

Two paths mean the same when they have the same components.  Joining and cutting work on the bytes
of paths, which may be others for a path that means the same; but what comes out means the same
again.

* **`Path.components_join_eq`** — what joining gives, by components, for paths of every shape;
* **`Path.components_parent?_getD`** — the directory of a file has the components of the file
  without the last one, for relative paths, too;
* **`Path.components_join_congr`**, **`RelativePath.directory_congr`** — so joining, and the text
  that leads from one directory to another, do not depend on how the paths are written.
-/
import StylesheetBuild.Proofs.Path.Composition

namespace StylesheetBuild

open Pieces
open RelativePath (steps)

namespace Path

variable {p p' q q' : Path}

/-! ### What paths start with -/

theorem isAbsolute_iff_cut : p.isAbsolute ↔ p.cut.1 = some .root := by
  constructor
  · intro h
    obtain ⟨body, hbody⟩ := exists_of_isAbsolute h
    rw [cut_of_isAbsolute hbody]
  · intro h
    rw [isAbsolute, ← p.cut_append, h]
    rfl

/-- Pieces stand for `..` or for names. -/
theorem Component.cases_of_ofSegment? {piece : List UInt8} {c : Component}
    (h : ofSegment? piece = some c) : c = .parent ∨ c = .name piece := by
  rw [ofSegment?] at h
  split_ifs at h
  · exact .inl (Option.some_inj.mp h).symm
  · exact .inr (Option.some_inj.mp h).symm

/-- A path is absolute by its components. -/
theorem isAbsolute_iff_mem : p.isAbsolute ↔ .root ∈ p.components := by
  rw [isAbsolute_iff_cut, components, List.mem_append, Option.mem_toList]
  refine ⟨.inl, fun h => h.resolve_right fun hmem => ?_⟩
  obtain ⟨piece, -, hpiece⟩ := List.mem_filterMap.mp hmem
  rcases Component.cases_of_ofSegment? hpiece with h | h <;> cases h

theorem isAbsolute_congr (h : p.components = q.components) : p.isAbsolute = q.isAbsolute := by
  rw [Bool.eq_iff_iff, isAbsolute_iff_mem, isAbsolute_iff_mem, h]

theorem components_eq_nil_iff : p.components = [] ↔ p.bytes = [] := by
  constructor
  · intro h
    by_contra hne
    exact components_ne_nil hne h
  · intro h
    obtain rfl : p = empty := congrArg Path.mk h
    exact components_nil

/-! ### Joining -/

/-- What leads somewhere in a relative path are its pieces. -/
theorem steps_of_not_isAbsolute (h : q.isAbsolute = false) :
    steps q = (split slash q.bytes).filterMap Component.ofSegment? := by
  have hleads : ∀ c ∈ q.segments.filterMap Component.ofSegment?, c != .current := by
    intro c hc
    obtain ⟨piece, -, hpiece⟩ := List.mem_filterMap.mp hc
    rcases Component.cases_of_ofSegment? hpiece with rfl | rfl <;> rfl
  rw [steps, components, List.filter_append, List.filter_eq_self.mpr hleads]
  rcases q.cut_cases with hcut | ⟨hcut, rest, hrest⟩ | hcut
  · rw [isAbsolute_iff_cut.mpr hcut] at h
    exact absurd h (by decide)
  · -- the dot in front is a piece of its own, and a filler
    have hbytes : q.bytes = dot :: q.cut.2 := by
      rw [← q.cut_append, hcut]
      rfl
    rw [segments] at hrest
    rw [hcut, segments, hbytes, split, if_neg (by decide), hrest]
    rfl
  · rw [segments, cut_of_none hcut]
    rfl

/-- An absolute path stays as it is behind another one, and a relative one starts where that one
leads. -/
theorem components_join_eq (p q : Path) : (p.join q).components =
    if q.isAbsolute ∨ p.components = [] then q.components else p.components ++ steps q := by
  split_ifs with h
  · rw [components_eq_nil_iff] at h
    rw [join, if_pos (by simpa using h)]
  · obtain ⟨hq, hp⟩ := not_or.mp h
    rw [components_eq_nil_iff] at hp
    have hq : q.isAbsolute = false := Bool.eq_false_iff.mpr hq
    rw [components_join_of_ne_nil hp hq, steps_of_not_isAbsolute hq]

/-- Joining does not depend on how the paths are written. -/
theorem components_join_congr (hp : p.components = p'.components)
    (hq : q.components = q'.components) : (p.join q).components = (p'.join q').components := by
  rw [components_join_eq, components_join_eq, isAbsolute_congr hq, hp, hq, steps, steps, hq]

/-! ### The directory of a file -/

/-- The directory of a file has the components of the file without the last one. -/
theorem components_parent?_getD (p : Path) :
    (p.parent?.getD empty).components = p.components.dropLast := by
  cases hsegments : p.segmentsFromEnd with
  | nil =>
    -- there is at most what the path starts with
    rw [components.eq_def p, filterMap_segments_eq_nil hsegments, List.append_nil, parent?,
      hsegments]
    dsimp only
    rcases p.cut_cases with hcut | ⟨hcut, -⟩ | hcut <;> rw [hcut] <;> rfl
  | cons last before =>
    obtain ⟨c, hc⟩ := exists_ofSegment?_of_segmentsFromEnd hsegments
    rw [components_of_segmentsFromEnd hsegments hc, List.dropLast_concat, parent?, hsegments,
      Option.getD_some, ← filterMap_reverse_dropWhile_isFiller before.reverse,
      List.reverse_reverse]
    cases hbefore : before.dropWhile isFiller with
    | nil =>
      rcases p.cut_cases with hcut | ⟨hcut, -⟩ | hcut <;> rw [hcut] <;> rfl
    | cons next front =>
      have hnext : isFiller next = false := by
        have hfiller := List.head?_dropWhile_not isFiller before
        rw [hbefore] at hfiller
        simpa using hfiller
      have hbegins : front.reverse ++ [next] <+: p.segments := by
        obtain ⟨fillers, hp, -⟩ := exists_of_segmentsFromEnd hsegments
        have hkept : before.dropWhile isFiller <:+ before := List.dropWhile_suffix isFiller
        rw [hbefore] at hkept
        rw [← List.reverse_cons, hp]
        exact (List.reverse_prefix.mpr hkept).trans (List.prefix_append _ _)
      have hslash : slash ∉ next :=
        not_mem_of_mem_split (hbegins.subset (List.mem_append_right _ List.mem_cons_self))
      rw [List.reverse_cons, components_ofParts_concat hbegins hnext hslash hnext]

end Path

/-- The text that leads from one directory to another does not depend on how the paths are
written. -/
theorem RelativePath.directory_congr {base base' file file' : Path}
    (hbase : base.components = base'.components) (hfile : file.components = file'.components) :
    directory base file = directory base' file' := by
  simp only [directory, steps, Path.components_parent?_getD, hbase, hfile]

end StylesheetBuild
