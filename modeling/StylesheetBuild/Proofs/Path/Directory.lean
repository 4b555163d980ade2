/-
The directory of a file as seen from another directory.

* **`Path.components_parent?`** — the directory of a file has the components of the file without
  the last;
* **`Location.follow_directory`** — from a directory, the text that says where another file's
  directory is seen from there leads to that directory.

Design notes: the text climbs from the one directory to what both have in common and then goes down
to the other.  A base with a `..` in it could not be climbed from by text alone, so it must have
none; the file may have some.
-/
import Mathlib.Data.Set.List
import StylesheetBuild.Proofs.Path.Resolution

namespace StylesheetBuild

open Pieces RelativePath

/-! ### The directory of a file -/

namespace Path

theorem filterMap_dropWhile_isFiller (pieces : List (List UInt8)) :
    (pieces.dropWhile isFiller).filterMap Component.ofSegment? =
      pieces.filterMap Component.ofSegment? := by
  induction pieces with
  | nil => rfl
  | cons piece rest ih =>
    by_cases h : isFiller piece
    · have hnone : Component.ofSegment? piece = none := Option.isNone_iff_eq_none.mp h
      rw [List.dropWhile_cons_of_pos h, ih, List.filterMap_cons_none hnone]
    · rw [List.dropWhile_cons_of_neg h]

/-- Fillers at the end make no difference. -/
theorem filterMap_reverse_dropWhile_isFiller (pieces : List (List UInt8)) :
    (pieces.reverse.dropWhile isFiller).reverse.filterMap Component.ofSegment? =
      pieces.filterMap Component.ofSegment? := by
  rw [List.filterMap_reverse, filterMap_dropWhile_isFiller, List.filterMap_reverse,
    List.reverse_reverse]

theorem filterMap_split_join {pieces : List (List UInt8)} (h : ∀ piece ∈ pieces, slash ∉ piece) :
    (split slash (Pieces.join slash pieces)).filterMap Component.ofSegment? =
      pieces.filterMap Component.ofSegment? := by
  by_cases hnil : pieces = []
  · subst hnil
    rfl
  · rw [Pieces.split_join hnil h]

theorem isAbsolute_ofParts (pieces : List (List UInt8)) :
    (ofParts (some .root) pieces).isAbsolute := rfl

theorem components_ofParts {pieces : List (List UInt8)} (h : ∀ piece ∈ pieces, slash ∉ piece) :
    (ofParts (some .root) pieces).components =
      .root :: pieces.filterMap Component.ofSegment? := by
  rw [components_of_isAbsolute (isAbsolute_ofParts pieces), ← filterMap_split_join h]
  rfl

theorem slash_not_mem_of_mem_segmentsFromEnd {p : Path} {piece : List UInt8}
    (h : piece ∈ p.segmentsFromEnd) : slash ∉ piece := by
  rw [segmentsFromEnd] at h
  have hpiece := (List.dropWhile_sublist isFiller).subset h
  exact not_mem_of_mem_split (List.mem_reverse.mp hpiece)

/-- The last piece that is left is a component. -/
theorem exists_ofSegment?_of_segmentsFromEnd {p : Path} {segment : List UInt8}
    {before : List (List UInt8)} (h : p.segmentsFromEnd = segment :: before) :
    ∃ c, Component.ofSegment? segment = some c := by
  have hfiller := List.head?_dropWhile_not isFiller p.segments.reverse
  rw [segmentsFromEnd] at h
  rw [h] at hfiller
  have hfiller : isFiller segment = false := by simpa using hfiller
  exact Option.isSome_iff_exists.mp (Option.isNone_eq_false_iff.mp hfiller)

/-- The directory of an absolute path has its components without the last, and only the root has
none. -/
theorem components_parent? {p : Path} (h : p.isAbsolute) :
    (p.parent?.getD empty).components = p.components.dropLast ∧
      ((p.parent?.getD empty).isAbsolute ∨ p.parent?.getD empty = empty) := by
  obtain ⟨body, hbody⟩ := exists_of_isAbsolute h
  have hcut := cut_of_isAbsolute hbody
  have hcomponents : p.components =
      .root :: p.segmentsFromEnd.reverse.filterMap Component.ofSegment? := by
    rw [segmentsFromEnd, filterMap_reverse_dropWhile_isFiller, components, hcut]
    rfl
  rw [parent?, hcomponents]
  cases hsegments : p.segmentsFromEnd with
  | nil =>
    rw [hcut]
    exact ⟨rfl, .inr rfl⟩
  | cons segment before =>
    have hslash : ∀ piece ∈ (before.dropWhile isFiller).reverse, slash ∉ piece := by
      intro piece hpiece
      have hbefore := (List.dropWhile_sublist isFiller).subset (List.mem_reverse.mp hpiece)
      refine slash_not_mem_of_mem_segmentsFromEnd (p := p) ?_
      exact hsegments ▸ List.mem_cons_of_mem segment hbefore
    obtain ⟨c, hc⟩ := exists_ofSegment?_of_segmentsFromEnd hsegments
    refine ⟨?_, .inl ?_⟩
    · show (ofParts p.cut.1 (before.dropWhile isFiller).reverse).components = _
      have hlast : [segment].filterMap Component.ofSegment? = [c] := List.filterMap_cons_some hc
      rw [hcut, components_ofParts hslash, List.filterMap_reverse, filterMap_dropWhile_isFiller,
        ← List.filterMap_reverse, List.reverse_cons, List.filterMap_append, hlast,
        ← List.cons_append, List.dropLast_concat]
    · show (ofParts p.cut.1 (before.dropWhile isFiller).reverse).isAbsolute
      rw [hcut]
      rfl

/-- What is written behind the directory of a file and a slash leads on from the directory. -/
theorem location_parent?_append {p : Path} (h : p.isAbsolute) (bytes : List UInt8) :
    (⟨(p.parent?.getD empty).bytes ++ slash :: bytes⟩ : Path).location =
      (p.parent?.getD empty).location.walk (split slash bytes) := by
  obtain ⟨-, habs | hempty⟩ := components_parent? h
  · exact location_append habs bytes
  · have habs : (⟨slash :: bytes⟩ : Path).isAbsolute := rfl
    rw [hempty]
    show (⟨slash :: bytes⟩ : Path).location = _
    rw [location_of_isAbsolute habs, split, if_pos rfl, Location.walk_nil_cons]
    rfl

/-- What is written behind the directory of a file leads on from there, whatever it starts with. -/
theorem location_parent?_ofText {file : Path} (hfile : file.isAbsolute) (text : Text) :
    (⟨(file.parent?.getD empty).bytes ++ slash :: Utf8.encode text⟩ : Path).location =
      (file.parent?.getD empty).location.follow (split '/' text) := by
  have hsplit : split slash (Utf8.encode text) = (split '/' text).map Utf8.encode :=
    Utf8.split_encode (c := '/') (by decide) text
  rw [location_parent?_append hfile, hsplit]
  rfl

theorem steps_of_isAbsolute {p : Path} (h : p.isAbsolute) : steps p = p.components := by
  rw [steps, List.filter_eq_self, components_of_isAbsolute h]
  intro c hc
  rcases List.mem_cons.mp hc with rfl | hc
  · rfl
  · obtain ⟨piece, -, hpiece⟩ := List.mem_filterMap.mp hc
    rw [Component.ofSegment?] at hpiece
    split_ifs at hpiece
    · rw [← Option.some_inj.mp hpiece]
      rfl
    · rw [← Option.some_inj.mp hpiece]
      rfl

theorem steps_parent? {p : Path} (h : p.isAbsolute) :
    steps (p.parent?.getD empty) = p.components.dropLast := by
  obtain ⟨hcomponents, habs | hempty⟩ := components_parent? h
  · rw [steps_of_isAbsolute habs, hcomponents]
  · rw [← hcomponents, hempty]
    rfl

/-! ### Components as texts -/

namespace Component

/-- Whether a component can be written as a segment of a text and read back from it. -/
def IsText (c : Component) : Prop :=
  '/' ∉ Utf8.decodeLossy c.bytes ∧ ofSegment? (Utf8.encode (Utf8.decodeLossy c.bytes)) = some c

theorem isText_of_ofSegment? {segment : Text} {c : Component} (hslash : '/' ∉ segment)
    (h : ofSegment? (Utf8.encode segment) = some c) : c.IsText := by
  have hbytes : c.bytes = Utf8.encode segment := by
    rw [ofSegment?_encode] at h
    split_ifs at h with hfiller hup
    · rw [← Option.some_inj.mp h, hup]
      rfl
    · rw [← Option.some_inj.mp h]
      rfl
  rw [IsText, hbytes, Utf8.decodeLossy_encode]
  exact ⟨hslash, h⟩

end Component

/-- The components of an absolute path that is a text, behind the root. -/
theorem isText_of_mem_components {text : Text} (h : (ofText text).isAbsolute) {c : Component}
    (hc : c ∈ (ofText text).components.tail) : c.IsText := by
  rw [components_of_isAbsolute h] at hc
  obtain ⟨piece, hpiece, hcomponent⟩ := List.mem_filterMap.mp hc
  have hsplit : split slash (ofText text).bytes = (split '/' text).map Utf8.encode :=
    Utf8.split_encode (c := '/') (by decide) text
  rw [hsplit] at hpiece
  obtain ⟨segment, hsegment, rfl⟩ := List.mem_map.mp hpiece
  exact Component.isText_of_ofSegment? (not_mem_of_mem_split hsegment) hcomponent

end Path

namespace Location

theorem follow_map_decodeLossy {components : List Path.Component}
    (h : ∀ c ∈ components, c.IsText) (location : Location) :
    location.follow (components.map fun c => Utf8.decodeLossy c.bytes) =
      location.enter components := by
  induction components generalizing location with
  | nil => rfl
  | cons c rest ih =>
    obtain ⟨hc, hrest⟩ := List.forall_mem_cons.mp h
    rw [List.map_cons, follow_cons, ih hrest, follow, walk, List.map_singleton,
      List.filterMap_cons_some hc.2]
    rfl

theorem enter_map_name (location : Location) (names : List (List UInt8)) :
    location.enter (names.map .name) = location ++ names := by
  induction names generalizing location with
  | nil => exact (List.append_nil _).symm
  | cons name rest ih =>
    show (location ++ [name]).enter (rest.map .name) = _
    rw [ih, List.append_assoc, List.singleton_append]

theorem follow_replicate_up (location : Location) (count : Nat) :
    location.follow (List.replicate count up) = location.take (location.length - count) := by
  induction count generalizing location with
  | zero => exact (List.take_length).symm
  | succ count ih =>
    rw [List.replicate_succ, follow_cons, follow_up, ih, List.dropLast_eq_take, List.take_take,
      List.length_take]
    congr 1
    omega

theorem follow_split_join_pieces {segments : List Text} (h : ∀ s ∈ segments, '/' ∉ s)
    (location : Location) :
    location.follow (split '/' (Pieces.join '/' segments)) = location.follow segments := by
  by_cases hnil : segments = []
  · subst hnil
    rfl
  · rw [Pieces.split_join hnil h]

end Location

/-! ### From one directory to another -/

theorem RelativePath.take_commonLength (as bs : List Path.Component) :
    as.take (commonLength as bs) = bs.take (commonLength as bs) := by
  induction as generalizing bs with
  | nil =>
    cases bs <;> rfl
  | cons a as ih =>
    cases bs with
    | nil => rfl
    | cons b bs =>
      rw [commonLength]
      split_ifs with h
      · rw [h, List.take_succ_cons, List.take_succ_cons, ih]
      · rfl

/-- Without `..`, the components behind the root are names. -/
theorem Path.exists_names {p : Path} (h : p.isAbsolute) (hup : .parent ∉ p.components) :
    ∃ names : List (List UInt8), p.components = .root :: names.map .name := by
  rw [components_of_isAbsolute h] at hup ⊢
  have hnames : ∀ c ∈ (split slash p.bytes).filterMap Component.ofSegment?,
      ∃ name, Component.name name = c := by
    intro c hc
    obtain ⟨piece, -, hpiece⟩ := List.mem_filterMap.mp hc
    rw [Component.ofSegment?] at hpiece
    split_ifs at hpiece
    · exact absurd (List.mem_cons_of_mem _ (Option.some_inj.mp hpiece ▸ hc)) hup
    · exact ⟨piece, Option.some_inj.mp hpiece⟩
  have hrange : (split slash p.bytes).filterMap Component.ofSegment? ∈
      Set.range (List.map Component.name) := by
    rw [Set.range_list_map]
    exact hnames
  obtain ⟨names, heq⟩ := hrange
  exact ⟨names, by rw [heq]⟩

/-- Climbing from the names of one directory to what it has in common with another one, and going
down from there. -/
theorem Location.follow_climb (names : List (List UInt8)) {components : List Path.Component}
    (htext : ∀ c ∈ components, c.IsText) :
    let common := commonLength (names.map .name) components
    follow names (List.replicate (names.length - common) up ++
        (components.drop common).map fun c => Utf8.decodeLossy c.bytes) =
      enter [] components := by
  intro common
  have hshared : enter [] (components.take common) =
      names.take (names.length - (names.length - common)) := by
    rw [← take_commonLength, ← List.map_take, enter_map_name, List.nil_append]
    by_cases h : common ≤ names.length
    · rw [Nat.sub_sub_self h]
    · rw [List.take_of_length_le (by omega), List.take_of_length_le (by omega)]
  rw [follow_append, follow_replicate_up, ← hshared,
    follow_map_decodeLossy fun c hc => htext c (List.mem_of_mem_drop hc), ← enter_append,
    List.take_append_drop]

/-- From a directory, the text that says where another file's directory is seen from there leads
to that directory. -/
theorem Location.follow_directory {base : Path} {text : Text} (hbase : base.isAbsolute)
    (hup : .parent ∉ base.components) (hfile : (Path.ofText text).isAbsolute) :
    base.location.follow (split '/' (directory base (Path.ofText text))) =
      ((Path.ofText text).parent?.getD Path.empty).location := by
  obtain ⟨names, hnames⟩ := Path.exists_names hbase hup
  obtain ⟨hparent, -⟩ := Path.components_parent? hfile
  have hlocation : base.location = names := by
    rw [Path.location, hnames]
    exact enter_map_name [] names
  have htext := fun c => Path.isText_of_mem_components hfile (c := c)
  obtain ⟨components, hcomponents⟩ :
      ∃ components, (Path.ofText text).components = .root :: components :=
    ⟨_, Path.components_of_isAbsolute hfile⟩
  rw [hcomponents, List.tail_cons] at htext
  rw [hlocation, Path.location, hparent, directory, Path.steps_of_isAbsolute hbase,
    Path.steps_parent? hfile, hnames, hcomponents]
  by_cases hnil : components = []
  · -- the file is the root, and there is nothing to go down to
    subst hnil
    show follow names (split '/' (Pieces.join '/'
      (List.replicate (Path.Component.root :: names.map .name).length up ++ []))) = []
    rw [List.append_nil, follow_split_join_pieces, follow_replicate_up]
    · rw [List.length_cons, List.length_map, Nat.sub_eq_zero_of_le (Nat.le_succ _), List.take_zero]
    · intro s hs
      rw [List.eq_of_mem_replicate hs]
      decide
  · have hdir : ∀ c ∈ components.dropLast, c.IsText := fun c hc =>
      htext c (List.dropLast_subset components hc)
    rw [List.dropLast_cons_of_ne_nil hnil, commonLength, if_pos rfl, List.length_cons,
      List.length_map, Nat.add_sub_add_right, List.drop_succ_cons, follow_split_join_pieces]
    · exact follow_climb names hdir
    · intro s hs
      rcases List.mem_append.mp hs with hs | hs
      · rw [List.eq_of_mem_replicate hs]
        decide
      · obtain ⟨c, hc, rfl⟩ := List.mem_map.mp hs
        exact (hdir c (List.mem_of_mem_drop hc)).1

end StylesheetBuild
