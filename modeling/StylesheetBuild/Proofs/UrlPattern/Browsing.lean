/-
URLs below a root, and what a browser makes of them.

A browser removes the dot segments of a path before it asks for it: `.` is passed over, and `..`
takes the segment in front of it away, if there is one.

* **`UrlPattern.render_below`** — the pattern below a root puts module name and path behind the
  root, whatever braces the root has;
* **`Browser.browse_isPrefix`** — a path that does not climb stays in the directory that it is put
  in.
-/
import StylesheetBuild.Proofs.Path.Climbing
import StylesheetBuild.Proofs.UrlPattern.Rendering

namespace StylesheetBuild

/-! ### The pattern below a root -/

namespace UrlPattern

namespace Segment

/-- A text without slashes in front of a text with one ends before it. -/
theorem exists_of_append_eq {s t rest : Text} (token : Text) (htoken : '/' ∉ token)
    (h : s ++ '/' :: t = token ++ rest) : ∃ more, s = token ++ more := by
  rcases List.append_eq_append_iff.mp h with ⟨more, htoken', hrest⟩ | ⟨more, hs, -⟩
  · cases more with
    | nil => exact ⟨[], by simpa using htoken'.symm⟩
    | cons c more =>
      obtain rfl : '/' = c := (List.cons.inj hrest).1
      exact absurd (htoken' ▸ List.mem_append_right s List.mem_cons_self) htoken
  · exact ⟨more, hs⟩

/-- A slash parts the segments of a pattern. -/
theorem flatMap_fill_append (value : Placeholder → Text) (s t : Text) :
    (ofText (s ++ '/' :: t)).flatMap (fill value) =
      (ofText s).flatMap (fill value) ++ '/' :: (ofText t).flatMap (fill value) := by
  fun_induction ofText s with
  | case1 =>
    have hslash : ofText ('/' :: t) = push '/' (ofText t) := by simp [ofText]
    rw [List.nil_append, hslash, flatMap_fill_push]
    rfl
  | case2 rest ih => simp [ofText, ih]
  | case3 rest ih => simp [ofText, ih]
  | case4 rest ih => simp [ofText, ih]
  | case5 c rest hname hversion hpath ih =>
    -- a placeholder at `c` would end in front of the slash
    have hliteral : ofText (c :: (rest ++ '/' :: t)) = push c (ofText (rest ++ '/' :: t)) := by
      rw [ofText]
      · intro more hc hrest
        obtain ⟨more, hmore⟩ :=
          exists_of_append_eq ['n', 'a', 'm', 'e', '\x7d'] (by decide) hrest
        exact hname more hc hmore
      · intro more hc hrest
        obtain ⟨more, hmore⟩ := exists_of_append_eq
          ['v', 'e', 'r', 's', 'i', 'o', 'n', '\x7d'] (by decide) hrest
        exact hversion more hc hmore
      · intro more hc hrest
        obtain ⟨more, hmore⟩ :=
          exists_of_append_eq ['p', 'a', 't', 'h', '\x7d'] (by decide) hrest
        exact hpath more hc hmore
    rw [List.cons_append, hliteral, flatMap_fill_push, flatMap_fill_push, ih, List.cons_append]

end Segment

/-- A root without the slashes at its end, as a pattern. -/
def bare (root : Text) : UrlPattern :=
  ⟨(root.reverse.dropWhile (· == '/')).reverse⟩

/-- Module name and path stand behind the root. -/
theorem render_below (root name : Text) (version : Option Text) (path : Text) :
    (below root).render name version path =
      (bare root).render name version path ++ '/' :: (name ++ '/' :: path) := by
  have hsource : (below root).source =
      (bare root).source ++ '/' :: (Placeholder.name.token ++ '/' :: Placeholder.path.token) := by
    simp [below, bare]
  have htokens : (Segment.ofText (Placeholder.name.token ++ '/' :: Placeholder.path.token)).flatMap
      (Segment.fill (values name version path)) = name ++ '/' :: path := by
    rw [Segment.flatMap_fill_append]
    simp [Placeholder.token, Segment.ofText, Segment.fill, values]
  rw [render_eq, render_eq, segments, segments, hsource, Segment.flatMap_fill_append, htokens]

end UrlPattern

/-! ### Dot segments -/

namespace Browser

open RelativePath

/-- The directory that a segment leads to, each with its last segment first; from the topmost
directory there is no way up. -/
def follow (directory : List Text) (segment : Text) : List Text :=
  if segment = ['.'] then directory
  else if segment = up then directory.tail
  else segment :: directory

/-- The segments that are left of a path in a directory, whose last segment comes first.  A path
with a dot segment at its end leads to a directory. -/
def removeDots (directory segments : List Text) : List Text :=
  let kept := segments.foldl follow directory
  (if segments.getLast? = some ['.'] || segments.getLast? = some up then [] :: kept
    else kept).reverse

/-- What a browser asks for when it finds a path on a page in the directory with the segments
`base`. -/
def browse (base : List Text) : Text → Text
  | '/' :: path => '/' :: Pieces.join '/' (removeDots [] (Pieces.split '/' path))
  | path => '/' :: Pieces.join '/' (removeDots base.reverse (Pieces.split '/' path))

/-- Segments that do not climb take nothing away that was there before them. -/
theorem exists_foldl_follow {segments : List Text} {depth : Nat}
    (h : depth? depth segments ≠ none) (inner : List Text) (hdepth : depth ≤ inner.length)
    (directory : List Text) :
    ∃ inner', segments.foldl follow (inner ++ directory) = inner' ++ directory := by
  induction segments generalizing depth inner with
  | nil => exact ⟨inner, rfl⟩
  | cons segment rest ih =>
    rw [depth?] at h
    rw [List.foldl_cons, follow]
    by_cases hfiller : (segment = [] || segment = ['.']) = true
    · rw [if_pos hfiller] at h
      rw [Bool.or_eq_true, decide_eq_true_eq, decide_eq_true_eq] at hfiller
      rcases hfiller with rfl | rfl
      · exact ih h ([] :: inner) (Nat.le_succ_of_le hdepth)
      · exact ih h inner hdepth
    · rw [if_neg hfiller] at h
      simp only [Bool.or_eq_true, decide_eq_true_eq, not_or] at hfiller
      rw [if_neg hfiller.2]
      by_cases hup : segment = up
      · rw [if_pos hup] at h
        rw [if_pos hup]
        cases inner with
        | nil =>
          rw [if_pos (Nat.le_zero.mp hdepth)] at h
          exact absurd rfl h
        | cons last inner =>
          have hpos : depth ≠ 0 := fun hzero => h (if_pos hzero)
          rw [if_neg hpos] at h
          rw [List.length_cons] at hdepth
          exact ih h inner (by omega)
      · rw [if_neg hup] at h
        rw [if_neg hup]
        exact ih h (segment :: inner) (Nat.succ_le_succ hdepth)

/-- In a directory something is left of a path that does not climb, and all of the directory. -/
theorem exists_removeDots {segments : List Text} (hne : segments ≠ []) (h : ¬ Climbs segments)
    (directory : List Text) :
    ∃ rest, rest ≠ [] ∧ removeDots directory segments = directory.reverse ++ rest := by
  by_cases hdot : (segments.getLast? = some ['.'] || segments.getLast? = some up) = true
  · obtain ⟨inner, hinner⟩ := exists_foldl_follow h [] (Nat.le_refl 0) directory
    rw [List.nil_append] at hinner
    refine ⟨inner.reverse ++ [[]], by simp, ?_⟩
    rw [removeDots, if_pos hdot, hinner]
    simp
  · -- the last segment stays
    obtain ⟨before, last, rfl⟩ := (List.eq_nil_or_concat' segments).resolve_left hne
    have hbefore : depth? 0 before ≠ none := by
      intro hnone
      exact h (by rw [Climbs, depth?_append, hnone]; rfl)
    obtain ⟨inner, hinner⟩ := exists_foldl_follow hbefore [] (Nat.le_refl 0) directory
    rw [List.nil_append] at hinner
    refine ⟨inner.reverse ++ [last], by simp, ?_⟩
    rw [removeDots, if_neg hdot, List.foldl_append, hinner]
    simp only [List.getLast?_concat, Option.some.injEq, Bool.or_eq_true, decide_eq_true_eq,
      not_or] at hdot
    simp [follow, hdot]

theorem join_append_isPrefix (front : List Text) {rest : List Text} (h : rest ≠ []) :
    Pieces.join '/' (front ++ [[]]) <+: Pieces.join '/' (front ++ rest) := by
  induction front with
  | nil => exact ⟨Pieces.join '/' rest, by simp [Pieces.join]⟩
  | cons segment front ih =>
    rw [List.cons_append, List.cons_append, join_cons segment (by simp),
      join_cons segment (by simp [h])]
    exact (List.prefix_append_right_inj _).mpr ((List.prefix_append_right_inj _).mpr ih)

theorem removeDots_isPrefix (directory front : List Text) {segments : List Text}
    (hne : segments ≠ []) (h : ¬ Climbs segments) :
    Pieces.join '/' (removeDots directory (front ++ [[]])) <+:
      Pieces.join '/' (removeDots directory (front ++ segments)) := by
  have hmove : ∀ rest : List Text, rest ≠ [] → removeDots directory (front ++ rest) =
      removeDots (front.foldl follow directory) rest := by
    intro rest hrest
    rw [removeDots, removeDots, List.foldl_append, List.getLast?_append_of_ne_nil _ hrest]
  have hempty : ∀ directory' : List Text,
      removeDots directory' [[]] = directory'.reverse ++ [[]] := by
    intro directory'
    simp [removeDots, follow, up]
  obtain ⟨rest, hrest, hkept⟩ := exists_removeDots hne h (front.foldl follow directory)
  rw [hmove _ (List.cons_ne_nil _ _), hmove _ hne, hempty, hkept]
  exact join_append_isPrefix _ hrest

/-- A path that does not climb stays in the directory that it is put in, wherever the browser starts
from. -/
theorem browse_isPrefix (base : List Text) (directory : Text) {path : Text}
    (h : ¬ Climbs (Pieces.split '/' path)) :
    browse base (directory ++ ['/']) <+: browse base (directory ++ '/' :: path) := by
  have hne := Pieces.split_ne_nil '/' path
  have hsplit : ∀ front : Text, Pieces.split '/' (front ++ ['/']) =
      Pieces.split '/' front ++ [[]] := fun front => Pieces.split_append_separator front []
  have hfront : ∀ (start : List Text) (front : Text),
      '/' :: Pieces.join '/' (removeDots start (Pieces.split '/' (front ++ ['/']))) <+:
        '/' :: Pieces.join '/' (removeDots start (Pieces.split '/' (front ++ '/' :: path))) := by
    intro start front
    rw [hsplit, Pieces.split_append_separator]
    exact (List.prefix_cons_inj '/').mpr (removeDots_isPrefix start _ hne h)
  cases directory with
  | nil => exact ⟨Pieces.join '/' (removeDots [] (Pieces.split '/' path)), rfl⟩
  | cons c directory =>
    by_cases hc : c = '/'
    · subst hc
      exact hfront [] directory
    · have hrelative : ∀ rest, browse base (c :: rest) =
          '/' :: Pieces.join '/' (removeDots base.reverse (Pieces.split '/' (c :: rest))) := by
        intro rest
        rw [browse]
        simpa using hc
      rw [List.cons_append, List.cons_append, hrelative, hrelative]
      exact hfront base.reverse (c :: directory)

end Browser

end StylesheetBuild
