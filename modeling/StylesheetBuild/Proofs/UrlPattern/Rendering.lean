/-
What a rendered pattern says about the path that was filled in.

* **`uses_path_below`**, **`uses_version_below_iff`** — the pattern below a root has a place for the
  path, whatever braces the root has, and one for the version if the root has it;
* **`render_congr`** — a rendered pattern depends on what it has a place for;
* **`render_append_path`** — one that ends with its only place for the path ends with the path;
* **`length_render`** — a rendered pattern is as long as what it has besides the path and the
  path as often as there is a place for it;
* **`render_path_injective`** — so the path can be told from the URL if there is a place for it;
* **`mem_render`**, **`exists_render_of_root`** — a URL has its characters from the pattern and from
  what was filled in, and begins with a slash if the pattern does.
-/
import Mathlib.Data.List.Basic
import StylesheetBuild.Proofs.Text.Runs
import StylesheetBuild.Proofs.UrlPattern.Segments

namespace StylesheetBuild.UrlPattern

open Text

/-! ### The pattern below a root -/

/-- The pattern below a root has a place for the path. -/
theorem uses_path_below (root : Text) : (below root).uses .path :=
  uses_iff_infix.mpr (List.suffix_append _ _).isInfix

/-- It has a place for the version exactly if the root has one. -/
theorem uses_version_below_iff {root : Text} :
    (below root).uses .version ↔ Placeholder.version.token <:+: root := by
  have hslash : '/' ∉ Placeholder.version.token := by decide
  have hsource : (below root).source = (root.reverse.dropWhile (· == '/')).reverse ++
      '/' :: (Placeholder.name.token ++ '/' :: Placeholder.path.token) := by
    simp [below]
  have hname : ¬ Placeholder.version.token <:+: Placeholder.name.token := by decide
  have hpath : ¬ Placeholder.version.token <:+: Placeholder.path.token := by decide
  refine uses_iff_infix.trans ?_
  rw [hsource, infix_append_cons_iff hslash, infix_append_cons_iff hslash,
    or_iff_left (not_or.mpr ⟨hname, hpath⟩), ← List.reverse_infix, List.reverse_reverse,
    infix_dropWhile_iff (by decide) (by simpa using hslash), List.reverse_infix]

/-! ### The path in a rendered pattern -/

/-- A rendered pattern depends on what it has a place for. -/
theorem render_congr {pattern : UrlPattern} {name name' : Text} {version version' : Option Text}
    {path path' : Text} (hname : pattern.uses .name → name = name')
    (hversion : pattern.uses .version → version = version')
    (hpath : pattern.uses .path → path = path') :
    pattern.render name version path = pattern.render name' version' path' := by
  rw [render, render, List.flatMap_def, List.flatMap_def]
  refine congrArg List.flatten (List.map_congr_left ?_)
  intro segment hsegment
  cases segment with
  | literal text => rfl
  | placeholder p =>
    have hp := uses_iff.mpr hsegment
    cases p with
    | name => exact hname hp
    | version =>
      rw [Segment.fill, Segment.fill]
      exact congrArg (·.getD []) (hversion hp)
    | path => exact hpath hp

/-- A pattern that ends with its only place for the path ends with the path. -/
theorem render_append_path {front : Text} (hfront : ¬ Placeholder.path.token <:+: front)
    (name : Text) (version : Option Text) (path suffix : Text) :
    render ⟨front ++ Placeholder.path.token⟩ name version (path ++ suffix) =
      render ⟨front ++ Placeholder.path.token⟩ name version path ++ suffix := by
  obtain ⟨cut, hcut⟩ := exists_isCut front
  have hjoin := hcut.join .nil .path
  rw [List.append_nil] at hjoin
  have hnone : ¬ uses ⟨front⟩ .path := fun huses => hfront <| uses_iff_infix.mp huses
  -- the front is rendered without the path
  have hrender : ∀ path, render ⟨front ++ Placeholder.path.token⟩ name version path =
      render ⟨front⟩ name version [] ++ path := by
    intro path
    have hsame : render ⟨front⟩ name version path = render ⟨front⟩ name version [] :=
      render_congr (fun _ => rfl) (fun _ => rfl) fun huses => absurd huses hnone
    rw [IsCut.render hjoin, Cut.fill_join, ← hsame, IsCut.render hcut]
    simp [Cut.fill, values]
  rw [hrender, hrender, List.append_assoc]

theorem length_flatMap_fill (name : Text) (version : Option Text) (path : Text)
    (segments : List Segment) :
    (segments.flatMap (Segment.fill (values name version path))).length =
      (segments.flatMap (Segment.fill (values name version []))).length +
        segments.count (.placeholder .path) * path.length := by
  induction segments with
  | nil => simp
  | cons segment segments ih =>
    rw [List.flatMap_cons, List.flatMap_cons, List.length_append, List.length_append, ih]
    by_cases hpath : segment = .placeholder .path
    · subst hpath
      rw [List.count_cons_self, Nat.add_mul, Nat.one_mul]
      simp only [Segment.fill, values, List.length_nil]
      omega
    · have hfill : Segment.fill (values name version path) segment =
          Segment.fill (values name version []) segment := by
        rcases segment with text | (_ | _ | _)
        · rfl
        · rfl
        · rfl
        · exact absurd rfl hpath
      rw [List.count_cons_of_ne hpath, hfill]
      omega

/-- The path adds its length as often as there is a place for it. -/
theorem length_render (pattern : UrlPattern) (name : Text) (version : Option Text) (path : Text) :
    (pattern.render name version path).length = (pattern.render name version []).length +
      pattern.segments.count (.placeholder .path) * path.length := by
  rw [render_eq, render_eq, length_flatMap_fill]

theorem eq_of_flatMap_fill_eq {segments : List Segment} {value value' : Placeholder → Text}
    (hlength : ∀ p, (value p).length = (value' p).length)
    (heq : segments.flatMap (Segment.fill value) = segments.flatMap (Segment.fill value'))
    {p : Placeholder} (hp : .placeholder p ∈ segments) : value p = value' p := by
  induction segments with
  | nil => exact absurd hp (by simp)
  | cons segment segments ih =>
    rw [List.flatMap_cons, List.flatMap_cons] at heq
    have hfill : (Segment.fill value segment).length = (Segment.fill value' segment).length := by
      cases segment with
      | literal text => rfl
      | placeholder q => exact hlength q
    obtain ⟨hhead, htail⟩ := List.append_inj heq hfill
    rcases List.mem_cons.mp hp with rfl | hp
    · exact hhead
    · exact ih htail hp

/-- The path can be told from a rendered pattern that has a place for it. -/
theorem render_path_injective {pattern : UrlPattern} (huses : pattern.uses .path) {name : Text}
    {version : Option Text} {path path' : Text}
    (heq : pattern.render name version path = pattern.render name version path') :
    path = path' := by
  have hmem := uses_iff.mp huses
  have hpos : 0 < pattern.segments.count (.placeholder .path) := List.count_pos_iff.mpr hmem
  -- the URLs have all but the paths in common, and so the paths are equally long
  have hlength : path.length = path'.length := by
    have hsizes := congrArg List.length heq
    rw [length_render, length_render _ _ _ path'] at hsizes
    exact Nat.eq_of_mul_eq_mul_left hpos (Nat.add_left_cancel hsizes)
  have hvalues : ∀ p, (values name version path p).length =
      (values name version path' p).length := by
    intro p
    cases p with
    | name => rfl
    | version => rfl
    | path => exact hlength
  rw [render_eq, render_eq] at heq
  exact eq_of_flatMap_fill_eq hvalues heq hmem

/-! ### The characters of a rendered pattern -/

/-- A character of a URL comes from the pattern or from what was filled in. -/
theorem mem_render {pattern : UrlPattern} {name path : Text} {version : Option Text} {c : Char}
    (h : c ∈ pattern.render name version path) :
    c ∈ pattern.source ∨ c ∈ name ∨ c ∈ version.getD [] ∨ c ∈ path := by
  rw [render_eq] at h
  obtain ⟨segment, hsegment, hc⟩ := List.mem_flatMap.mp h
  rcases segment with text | (_ | _ | _)
  · left
    rw [← source_eq_tokens]
    exact List.mem_flatMap.mpr ⟨_, hsegment, hc⟩
  · exact .inr (.inl hc)
  · exact .inr (.inr (.inl hc))
  · exact .inr (.inr (.inr hc))

/-- The URL begins with a slash if the pattern does. -/
theorem exists_render_of_root {pattern : UrlPattern} (h : pattern.source.head? = some '/')
    (name : Text) (version : Option Text) (path : Text) :
    ∃ rest, pattern.render name version path = '/' :: rest := by
  obtain ⟨source⟩ := pattern
  obtain ⟨rest, rfl⟩ := List.head?_eq_some_iff.mp h
  have hsegments : segments ⟨'/' :: rest⟩ = Segment.push '/' (Segment.ofText rest) := by
    simp [segments, Segment.ofText]
  rw [render_eq, hsegments, Segment.flatMap_fill_push]
  exact ⟨_, rfl⟩

end StylesheetBuild.UrlPattern
