/-
Relative paths lead where they are meant to.

A reference in a file is meant in the directory of the file.  Seen from another directory it is
joined to the text that leads from there to the directory of the file, and resolved as a text.

* **`head?_split_directory_iff`** — the text that leads to another directory starts with `..` unless
  that directory lies below;
* **`join_directory_resolves`** — what is joined leads from the one directory where the reference,
  as it is written, leads from the other.
-/
import StylesheetBuild.Proofs.Path.Climbing
import StylesheetBuild.Proofs.Path.Directory

namespace StylesheetBuild.RelativePath

open Pieces
open StylesheetBuild.Path (Component steps_of_isAbsolute steps_parent? components_parent?
  isText_of_mem_components components_of_isAbsolute)

/-! ### The way to another directory -/

theorem commonLength_append (first rest : List Component) :
    commonLength first (first ++ rest) = first.length := by
  induction first with
  | nil => cases rest <;> rfl
  | cons c first ih =>
    rw [List.cons_append, commonLength, if_pos rfl, ih]
    rfl

theorem isPrefix_of_length_le_commonLength {first second : List Component}
    (h : first.length ≤ commonLength first second) : first <+: second := by
  rw [← List.take_of_length_le h, take_commonLength]
  exact List.take_prefix _ second

theorem head?_split_join {segment : Text} (h : '/' ∉ segment) (rest : List Text) :
    (split '/' (Pieces.join '/' (segment :: rest))).head? = some segment := by
  by_cases hrest : rest = []
  · rw [hrest, join_singleton, split_of_not_mem h]
    rfl
  · rw [join_cons segment hrest, List.singleton_append, split_append_separator, split_of_not_mem h]
    rfl

theorem decodeLossy_eq_up_iff {c : Component} (h : c.IsText) :
    Utf8.decodeLossy c.bytes = up ↔ c = .parent := by
  constructor
  · intro hup
    have hsegment := h.2
    rw [hup] at hsegment
    exact (Option.some_inj.mp hsegment).symm
  · rintro rfl
    decide

/-- The text that leads to the directory of a file starts with `..` unless that directory lies
below, and then only if it leads up from there first. -/
theorem head?_split_directory_iff {base : Path} {text : Text} (hbase : base.isAbsolute)
    (hfile : (Path.ofText text).isAbsolute) :
    (split '/' (directory base (Path.ofText text))).head? = some up ↔
      ∀ rest, ((Path.ofText text).parent?.getD Path.empty).components = base.components ++ rest →
        rest.head? = some .parent := by
  obtain ⟨hparent, -⟩ := components_parent? hfile
  rw [directory, steps_of_isAbsolute hbase, steps_parent? hfile, hparent]
  by_cases hbelow : base.components <+: (Path.ofText text).components.dropLast
  · obtain ⟨rest, hrest⟩ := hbelow
    have htext : ∀ c ∈ rest, c.IsText := by
      intro c hc
      refine isText_of_mem_components hfile ?_
      rw [components_of_isAbsolute hbase, List.cons_append] at hrest
      have hmem : c ∈ (Path.ofText text).components.dropLast.tail := by
        rw [← hrest]
        exact List.mem_append_right _ hc
      rw [List.tail_dropLast] at hmem
      exact List.dropLast_subset _ hmem
    have hunique : (∀ other, (Path.ofText text).components.dropLast = base.components ++ other →
        other.head? = some .parent) ↔ rest.head? = some .parent := by
      rw [← hrest]
      exact ⟨fun h => h rest rfl, fun h other heq => List.append_cancel_left heq ▸ h⟩
    rw [hunique, ← hrest, commonLength_append, Nat.sub_self, List.drop_left, List.replicate_zero,
      List.nil_append]
    cases rest with
    | nil => decide
    | cons c rest =>
      obtain ⟨hc, -⟩ := List.forall_mem_cons.mp htext
      rw [List.map_cons, head?_split_join hc.1, Option.some_inj, decodeLossy_eq_up_iff hc,
        List.head?_cons, Option.some_inj]
  · -- some component of the base is not shared
    obtain ⟨count, hcount⟩ := Nat.exists_eq_succ_of_ne_zero
      (Nat.sub_ne_zero_of_lt (Nat.lt_of_not_le fun h =>
        hbelow (isPrefix_of_length_le_commonLength h)))
    rw [hcount, List.replicate_succ, List.cons_append, head?_split_join (by decide)]
    exact iff_of_true rfl fun rest hrest => absurd ⟨rest, hrest.symm⟩ hbelow

/-! ### References in a file -/

/-- **Relative paths lead where they are meant to.**  For a directory without `..` and a file, a
reference joined to the text that leads to the file's directory leads from the former directory
where the reference, written behind the file's directory, leads.  And that text starts with `..`
exactly if the file's directory does not lie below the other one, or leads up from it first. -/
theorem join_directory_resolves {base : Path} {text : Text} (hbase : base.isAbsolute)
    (hup : .parent ∉ base.components) (hfile : (Path.ofText text).isAbsolute) (reference : Text) :
    let file := Path.ofText text
    let parent := file.parent?.getD Path.empty
    (base.join (Path.ofText (join (directory base file) reference))).location =
      (⟨parent.bytes ++ Path.slash :: Utf8.encode (withSlashes reference)⟩ : Path).location ∧
    ((split '/' (directory base file)).head? = some up ↔
      ∀ rest, parent.components = base.components ++ rest → rest.head? = some .parent) := by
  intro file parent
  refine ⟨?_, head?_split_directory_iff hbase hfile⟩
  rw [Path.location_join_ofText hbase (tidy_join _ reference).head_ne,
    Location.follow_split_join, Location.follow_directory hbase hup hfile,
    Path.location_parent?_ofText hfile]

/-- A file with `.` and `..` in its path, outside of the base, and a reference that climbs past what
both have in common, and past the root. -/
theorem join_directory_resolves_outside :
    let base := Path.ofString "/srv/app//assets"
    let text := "/srv/./lib/../app/css/main.scss".toList
    let reference := "..\\..\\..//../img/./a.png".toList
    base.isAbsolute ∧ .parent ∉ base.components ∧ (Path.ofText text).isAbsolute ∧
    directory base (Path.ofText text) = "../../lib/../app/css".toList ∧
    (base.join (Path.ofText
      (join (directory base (Path.ofText text)) reference))).location =
        [Utf8.encode "img".toList, Utf8.encode "a.png".toList] := by
  intro base text reference
  have hbase : base.isAbsolute := by decide +kernel
  have hup : .parent ∉ base.components := by decide +kernel
  have hfile : (Path.ofText text).isAbsolute := by decide +kernel
  refine ⟨hbase, hup, hfile, by decide +kernel, ?_⟩
  rw [(join_directory_resolves hbase hup hfile reference).1]
  decide +kernel

end StylesheetBuild.RelativePath
