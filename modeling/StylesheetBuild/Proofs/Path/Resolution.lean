/-
Lexical resolution: asset paths as texts, and where they lead.

Asset paths are resolved as texts, while files are found by paths.  Here both are followed through
the tree of directories, piece by piece, and resolving turns out not to change where they lead.

* **`Path.location_join`**, **`Path.location_join_ofText`** — a path leads on from where the path in
  front of it led, and so does a text;
* **`Location.follow_resolve`** — resolved segments lead where the segments led;
* **`RelativePath.exists_split_join`** — a joined text has the resolved segments of its parts;
* **`RelativePath.resolve_pairwise`** — resolved, a `..` stands behind other `..` only.

Design notes: `Location.walk` follows the pieces of a path, which are bytes, and `Location.follow`
the segments of a text.  A filler leads nowhere, so slashes in front, at the end and next to each
other make no difference to either.
-/
import Mathlib.Data.List.Basic
import StylesheetBuild.Path.Location
import StylesheetBuild.Path.Relative
import StylesheetBuild.Proofs.Text.Pieces

namespace StylesheetBuild

/-! ### Pieces of paths -/

namespace Location

/-- Where the pieces of a path lead from a location. -/
def walk (location : Location) (pieces : List (List UInt8)) : Location :=
  location.enter (pieces.filterMap Path.Component.ofSegment?)

theorem walk_append (location : Location) (first second : List (List UInt8)) :
    location.walk (first ++ second) = (location.walk first).walk second := by
  rw [walk, List.filterMap_append, enter_append]
  rfl

/-- The empty piece is a filler. -/
theorem walk_nil_cons (location : Location) (pieces : List (List UInt8)) :
    location.walk ([] :: pieces) = location.walk pieces := rfl

end Location

namespace Path

open Pieces

theorem exists_of_isAbsolute {p : Path} (h : p.isAbsolute) : ∃ body, p.bytes = slash :: body := by
  rw [isAbsolute, decide_eq_true_iff, List.head?_eq_some_iff] at h
  exact h

theorem cut_of_isAbsolute {p : Path} {body : List UInt8} (h : p.bytes = slash :: body) :
    p.cut = (some .root, body) := by
  rw [cut, h]
  exact if_pos rfl

/-- The components of an absolute path. -/
theorem components_of_isAbsolute {p : Path} (h : p.isAbsolute) :
    p.components = .root :: (split slash p.bytes).filterMap Component.ofSegment? := by
  obtain ⟨body, hbody⟩ := exists_of_isAbsolute h
  rw [components, segments, cut_of_isAbsolute hbody, hbody, split, if_pos rfl]
  rfl

theorem location_of_isAbsolute {p : Path} (h : p.isAbsolute) :
    p.location = Location.walk [] (split slash p.bytes) := by
  rw [location, components_of_isAbsolute h]
  rfl

theorem isAbsolute_ofText_iff (text : Text) :
    (ofText text).isAbsolute ↔ text.head? = some '/' := by
  cases text with
  | nil => decide
  | cons c rest =>
    obtain ⟨b, bs, hb⟩ := List.exists_cons_of_ne_nil (Utf8.encodeChar_ne_nil c)
    have hslash : slash ∈ Utf8.encodeChar c ↔ '/' = c :=
      Utf8.mem_encodeChar_iff (c := '/') (by decide)
    rw [isAbsolute, ofText, Utf8.encode_cons, hb, List.cons_append, List.head?_cons,
      List.head?_cons, decide_eq_true_iff, Option.some_inj, Option.some_inj]
    constructor
    · rintro rfl
      exact (hslash.mp (hb ▸ List.mem_cons_self)).symm
    · rintro rfl
      exact (List.cons.inj hb).1.symm

theorem isAbsolute_append {p : Path} (h : p.isAbsolute) (bytes : List UInt8) :
    (⟨p.bytes ++ bytes⟩ : Path).isAbsolute := by
  obtain ⟨body, hbody⟩ := exists_of_isAbsolute h
  rw [isAbsolute, hbody]
  rfl

/-- What is written behind an absolute path and a slash leads on from there. -/
theorem location_append {p : Path} (h : p.isAbsolute) (bytes : List UInt8) :
    (⟨p.bytes ++ slash :: bytes⟩ : Path).location = p.location.walk (split slash bytes) := by
  rw [location_of_isAbsolute (isAbsolute_append h _), location_of_isAbsolute h,
    split_append_separator, Location.walk_append]

/-- A path leads on from where the path in front of it led. -/
theorem location_join {p q : Path} (hp : p.isAbsolute) (hq : q.isAbsolute = false) :
    (p.join q).location = p.location.walk (split slash q.bytes) := by
  obtain ⟨body, hbody⟩ := exists_of_isAbsolute hp
  have hne : p.bytes ≠ [] := by
    rw [hbody]
    exact List.cons_ne_nil _ _
  rw [join, hq, if_neg (by simpa using hne)]
  by_cases hlast : p.bytes.getLast? = some slash
  · -- the slash at the end of `p` parts the two, and behind it `p` has an empty piece only
    obtain ⟨front, hfront⟩ := List.getLast?_eq_some_iff.mp hlast
    have habs := isAbsolute_append hp q.bytes
    rw [if_pos hlast, location_of_isAbsolute habs, location_of_isAbsolute hp, hfront,
      List.append_assoc, List.singleton_append, split_append_separator, split_append_separator,
      Location.walk_append, Location.walk_append]
    rfl
  · rw [if_neg hlast, location_append hp]

end Path

/-! ### Segments of texts -/

open RelativePath

theorem Path.Component.ofSegment?_encode (segment : Text) :
    ofSegment? (Utf8.encode segment) =
      if segment = [] || segment = ['.'] then none
      else if segment = up then some .parent
      else some (.name (Utf8.encode segment)) := by
  have hnil : Utf8.encode segment = [] ↔ segment = [] :=
    Utf8.encode_injective.eq_iff (a := segment) (b := [])
  have hdot : Utf8.encode segment = [dot] ↔ segment = ['.'] :=
    Utf8.encode_injective.eq_iff (a := segment) (b := ['.'])
  have hup : Utf8.encode segment = [dot, dot] ↔ segment = up :=
    Utf8.encode_injective.eq_iff (a := segment) (b := up)
  simp only [ofSegment?, hnil, hdot, hup]

namespace Location

/-- Where the segments of a text lead from a location. -/
def follow (location : Location) (segments : List Text) : Location :=
  location.walk (segments.map Utf8.encode)

theorem follow_append (location : Location) (first second : List Text) :
    location.follow (first ++ second) = (location.follow first).follow second := by
  rw [follow, List.map_append, walk_append]
  rfl

theorem follow_cons (location : Location) (segment : Text) (rest : List Text) :
    location.follow (segment :: rest) = (location.follow [segment]).follow rest :=
  follow_append location [segment] rest

/-- A single segment is a filler, leads up, or is a name. -/
theorem follow_singleton (location : Location) (segment : Text) :
    location.follow [segment] =
      if segment = [] || segment = ['.'] then location
      else if segment = up then location.dropLast
      else location ++ [Utf8.encode segment] := by
  rw [follow, walk, List.map_singleton, List.filterMap_cons, Path.Component.ofSegment?_encode]
  split_ifs <;> rfl

theorem follow_up (location : Location) : location.follow [up] = location.dropLast := rfl

theorem follow_name (location : Location) {segment : Text} (hnil : segment ≠ [])
    (hdot : segment ≠ ['.']) (hup : segment ≠ up) :
    location.follow [segment] = location ++ [Utf8.encode segment] := by
  rw [follow_singleton, if_neg (by simp [hnil, hdot]), if_neg hup]

theorem follow_push (location : Location) {resolved : List Text} (h : IsNormal resolved)
    (segment : Text) : location.follow (push resolved segment).reverse =
      (location.follow resolved.reverse).follow [segment] := by
  unfold push
  split_ifs with hfiller hup
  · rw [follow_singleton, if_pos hfiller]
  · subst hup
    cases resolved with
    | nil => rfl
    | cons last before =>
      rw [List.reverse_cons]
      show location.follow (if last = up then up :: last :: before else before).reverse = _
      split_ifs with hlast
      · rw [List.reverse_cons, List.reverse_cons, follow_append]
      · -- the name in front of `..` is taken away with it
        have hname : last ≠ [] ∧ last ≠ ['.'] := by
          obtain ⟨names, climbs, heq, hnames⟩ := h
          have hmem : last ∈ names ++ List.replicate climbs up := heq ▸ List.mem_cons_self
          rcases List.mem_append.mp hmem with hmem | hmem
          · exact ⟨(hnames last hmem).1, (hnames last hmem).2.1⟩
          · exact absurd (List.eq_of_mem_replicate hmem) hlast
        rw [follow_append, follow_name _ hname.1 hname.2 hlast, follow_up, List.dropLast_concat]
  · rw [List.reverse_cons, follow_append]

/-- Resolved segments lead where the segments led. -/
theorem follow_resolve (location : Location) (segments : List Text) :
    location.follow (resolve segments) = location.follow segments := by
  have : ∀ resolved, IsNormal resolved → location.follow (segments.foldl push resolved).reverse =
      (location.follow resolved.reverse).follow segments := by
    induction segments with
    | nil => exact fun _ _ => rfl
    | cons segment rest ih =>
      intro resolved h
      rw [List.foldl_cons, ih _ (push_isNormal h segment), follow_push location h,
        follow_cons _ segment rest]
  exact this [] ⟨[], 0, rfl, by simp⟩

/-- Slashes in front make no difference. -/
theorem follow_split_dropWhile (location : Location) (path : Text) :
    location.follow (Pieces.split '/' (path.dropWhile (· = '/'))) =
      location.follow (Pieces.split '/' path) := by
  induction path with
  | nil => rfl
  | cons c rest ih =>
    by_cases h : c = '/'
    · rw [List.dropWhile_cons_of_pos (by simpa using h), ih, Pieces.split, if_pos h]
      rfl
    · rw [List.dropWhile_cons_of_neg (by simpa using h)]

/-- Segments other than `..` only lead down. -/
theorem exists_follow_eq_append {segments : List Text} (h : up ∉ segments) (location : Location) :
    ∃ names, location.follow segments = location ++ names := by
  induction segments generalizing location with
  | nil => exact ⟨[], (List.append_nil _).symm⟩
  | cons segment rest ih =>
    obtain ⟨hsegment, hrest⟩ := List.ne_and_not_mem_of_not_mem_cons h
    obtain ⟨names, hnames⟩ := ih hrest (location.follow [segment])
    rw [follow_cons, hnames, follow_singleton, if_neg (Ne.symm hsegment)]
    split_ifs with hfiller
    · exact ⟨names, rfl⟩
    · exact ⟨Utf8.encode segment :: names, by rw [List.append_assoc, List.singleton_append]⟩

end Location

/-- Behind a directory, a text leads on segment by segment. -/
theorem Path.location_join_ofText {base : Path} (hbase : base.isAbsolute) {text : Text}
    (htext : text.head? ≠ some '/') :
    (base.join (ofText text)).location = base.location.follow (Pieces.split '/' text) := by
  have hrelative : (ofText text).isAbsolute = false := by
    rw [Bool.eq_false_iff, Ne, isAbsolute_ofText_iff]
    exact htext
  have hsplit : Pieces.split slash (ofText text).bytes =
      (Pieces.split '/' text).map Utf8.encode :=
    Utf8.split_encode (c := '/') (by decide) text
  rw [location_join hbase hrelative, hsplit]
  rfl

/-! ### Joined texts -/

namespace RelativePath

theorem mem_push {resolved : List Text} {segment s : Text} (h : s ∈ push resolved segment) :
    s ∈ resolved ∨ s = segment := by
  unfold push at h
  split_ifs at h with hfiller hup
  · exact .inl h
  · cases resolved with
    | nil => exact .inr ((List.mem_singleton.mp h).trans hup.symm)
    | cons last before =>
      have h : s ∈ if last = up then up :: last :: before else before := h
      split_ifs at h
      · rcases List.mem_cons.mp h with h | h
        · exact .inr (h.trans hup.symm)
        · exact .inl h
      · exact .inl (List.mem_cons_of_mem last h)
  · exact (List.mem_cons.mp h).symm

theorem mem_resolve {segments : List Text} {s : Text} (h : s ∈ resolve segments) :
    s ∈ segments := by
  have : ∀ resolved, s ∈ segments.foldl push resolved → s ∈ resolved ∨ s ∈ segments := by
    clear h
    induction segments with
    | nil => exact fun _ h => .inl h
    | cons segment rest ih =>
      intro resolved h
      rcases ih _ h with h | h
      · rcases mem_push h with h | rfl
        · exact .inl h
        · exact .inr List.mem_cons_self
      · exact .inr (List.mem_cons_of_mem segment h)
  exact (this [] (List.mem_reverse.mp h)).resolve_left List.not_mem_nil

/-- Resolved, a `..` stands behind other `..` only. -/
theorem resolve_pairwise (segments : List Text) :
    (resolve segments).Pairwise fun s t => t = up → s = up := by
  obtain ⟨names, climbs, heq, hnames⟩ := resolve_isNormal segments
  rw [List.reverse_eq_iff, List.reverse_append, List.reverse_replicate] at heq
  rw [heq, List.pairwise_append]
  refine ⟨?_, ?_, ?_⟩
  · exact List.pairwise_replicate.mpr (.inr id)
  · refine List.pairwise_of_forall_mem_list fun s _ t ht hup => ?_
    exact absurd hup (hnames t (List.mem_reverse.mp ht)).2.2
  · exact fun s hs t _ _ => List.eq_of_mem_replicate hs

/-- A joined text has the resolved segments of its parts, and perhaps a filler at the end. -/
theorem exists_split_join (dir reference : Text) : ∃ rest, (rest = [] ∨ rest = [[]]) ∧
    Pieces.split '/' (join dir reference) =
      resolve (Pieces.split '/' dir ++ Pieces.split '/' (withSlashes reference)) ++ rest := by
  have hslash : ∀ s ∈ resolve (Pieces.split '/' dir ++ Pieces.split '/' (withSlashes reference)),
      '/' ∉ s := by
    intro s hs
    rcases List.mem_append.mp (mem_resolve hs) with h | h
    · exact Pieces.not_mem_of_mem_split h
    · exact Pieces.not_mem_of_mem_split h
  rw [join]
  generalize resolve (Pieces.split '/' dir ++ Pieces.split '/' (withSlashes reference)) = segments
    at hslash
  by_cases hnil : segments = []
  · subst hnil
    refine ⟨[[]], .inr rfl, ?_⟩
    split_ifs with h
    · exact absurd h (by simp [Pieces.join])
    · rfl
  · split_ifs with h
    · refine ⟨[[]], .inr rfl, ?_⟩
      rw [Pieces.split_append_separator, Pieces.split_join hnil hslash]
      rfl
    · refine ⟨[], .inl rfl, ?_⟩
      rw [Pieces.split_join hnil hslash, List.append_nil]

theorem split_join_pairwise (dir reference : Text) :
    (Pieces.split '/' (join dir reference)).Pairwise fun s t => t = up → s = up := by
  obtain ⟨rest, hrest, hsplit⟩ := exists_split_join dir reference
  rw [hsplit, List.pairwise_append]
  refine ⟨resolve_pairwise _, ?_, ?_⟩
  · rcases hrest with rfl | rfl
    · exact .nil
    · exact List.pairwise_singleton _ _
  · intro s _ t ht hup
    rcases hrest with rfl | rfl
    · exact absurd ht List.not_mem_nil
    · rw [List.mem_singleton.mp ht] at hup
      exact absurd hup (by decide)

end RelativePath

/-- A joined text leads where its parts lead one after the other. -/
theorem Location.follow_split_join (location : Location) (dir reference : Text) :
    location.follow (Pieces.split '/' (RelativePath.join dir reference)) =
      (location.follow (Pieces.split '/' dir)).follow
        (Pieces.split '/' (withSlashes reference)) := by
  obtain ⟨rest, hrest, hsplit⟩ := exists_split_join dir reference
  rw [hsplit, follow_append, follow_resolve, follow_append]
  rcases hrest with rfl | rfl
  · rfl
  · rfl

end StylesheetBuild
