/-
The components of paths that are put together and cut.

Joining, cutting and replacing an extension work on the bytes of a path.  Here they are said by
components, with all fillers left out of account.

* **`Path.components_join`** — a path behind a directory has its components behind those of the
  directory;
* **`Path.components_of_below?`** — what lies below a directory has the components that are left;
* **`Path.components_withExtension`** — another extension changes the last component, and only if
  this is a name;
* **`Path.isAbsolute_of_absolute?`** — a path as seen from the root starts there.
-/
import Mathlib.Data.List.ModifyLast
import Mathlib.Data.List.TakeWhile
import StylesheetBuild.Proofs.Path.Characters
import StylesheetBuild.Proofs.Path.Directory

namespace StylesheetBuild

namespace Pieces

/-- The first piece is empty only in front of a separator. -/
theorem head_of_split_eq {α : Type} [DecidableEq α] {separator : α} {xs : List α}
    {rest : List (List α)} (h : split separator xs = [] :: rest) :
    xs = [] ∨ xs.head? = some separator := by
  cases xs with
  | nil => exact .inl rfl
  | cons a xs =>
    by_cases ha : a = separator
    · exact .inr (congrArg some ha)
    · obtain ⟨first, others, hsplit⟩ := List.exists_cons_of_ne_nil (split_ne_nil separator xs)
      rw [split, if_neg ha, hsplit] at h
      exact absurd (List.head_eq_of_cons_eq h) (List.cons_ne_nil a first)

end Pieces

namespace Path

open Pieces

/-! ### Behind a slash -/

/-- What is written behind a slash makes no difference to the beginning of a path. -/
theorem cut_append_slash {p : Path} (h : p.bytes ≠ []) (bytes : List UInt8) :
    cut ⟨p.bytes ++ slash :: bytes⟩ = (p.cut.1, p.cut.2 ++ slash :: bytes) := by
  obtain ⟨a, rest, hbytes⟩ := List.exists_cons_of_ne_nil h
  have hdot : (rest ++ slash :: bytes = [] || (rest ++ slash :: bytes).head? = some slash) =
      (decide (rest = []) || rest.head? = some slash) := by
    cases rest <;> simp
  rw [cut, cut, hbytes, List.cons_append]
  dsimp only
  rw [hdot]
  split_ifs <;> rfl

theorem components_append {p : Path} (h : p.bytes ≠ []) (bytes : List UInt8) :
    (⟨p.bytes ++ slash :: bytes⟩ : Path).components =
      p.components ++ (split slash bytes).filterMap Component.ofSegment? := by
  rw [components, components, segments, segments, cut_append_slash h, split_append_separator,
    List.filterMap_append, List.append_assoc]

/-- A slash at the end is a filler. -/
theorem components_append_slash {p : Path} (h : p.bytes ≠ []) :
    (⟨p.bytes ++ [slash]⟩ : Path).components = p.components := by
  rw [components_append h]
  exact List.append_nil _

/-! ### Paths that start with a name or with `..` -/

theorem cut_of_none {p : Path} (h : p.cut.1 = none) : p.cut = (none, p.bytes) := by
  rw [← p.cut_append, h]
  exact Prod.ext h rfl

theorem components_of_cut {p : Path} (h : p.cut.1 = none) :
    p.components = (split slash p.bytes).filterMap Component.ofSegment? := by
  rw [components, segments, cut_of_none h]
  rfl

theorem isAbsolute_of_cut {p : Path} (h : p.cut.1 = none) : p.isAbsolute = false := by
  rw [Bool.eq_false_iff]
  intro habs
  obtain ⟨body, hbody⟩ := exists_of_isAbsolute habs
  rw [cut_of_isAbsolute hbody] at h
  exact absurd h (Option.some_ne_none _)

/-- Such a path has no filler in front. -/
theorem exists_segments_eq {p : Path} (h : p.cut.1 = none) (hne : p.bytes ≠ []) :
    ∃ first rest, p.segments = first :: rest ∧ isFiller first = false := by
  obtain ⟨a, tail, hbytes⟩ := List.exists_cons_of_ne_nil hne
  obtain ⟨piece, rest, hsplit⟩ := List.exists_cons_of_ne_nil (split_ne_nil slash tail)
  rw [segments, cut_of_none h, hbytes]
  rw [cut, hbytes] at h
  dsimp only at h
  split_ifs at h with hslash hdot
  refine ⟨a :: piece, rest, ?_, ?_⟩
  · rw [split, if_neg hslash, hsplit]
    rfl
  · -- a lone dot would have been cut off
    have hpiece : a :: piece ≠ [dot] := by
      intro heq
      obtain ⟨rfl, rfl⟩ := List.cons.inj heq
      refine hdot ?_
      rcases head_of_split_eq hsplit with hnil | hhead
      · simp [hnil]
      · simp [hhead]
    rw [isFiller, Component.ofSegment?, if_neg (by simp [hpiece])]
    split_ifs <;> rfl

/-- Only the empty path has no component. -/
theorem components_ne_nil {p : Path} (h : p.bytes ≠ []) : p.components ≠ [] := by
  intro hnil
  obtain ⟨hcut, hsegments⟩ := List.append_eq_nil_iff.mp hnil
  obtain ⟨first, rest, hfirst, hfiller⟩ :=
    exists_segments_eq (Option.toList_eq_nil_iff.mp hcut) h
  rw [hfirst, List.filterMap_eq_nil_iff] at hsegments
  have hnone := hsegments first List.mem_cons_self
  rw [isFiller, hnone] at hfiller
  exact absurd hfiller (by decide)

/-- Pieces of which the first one is not a filler, as a path. -/
theorem cut_ofParts {pieces : List (List UInt8)} (hslash : ∀ piece ∈ pieces, slash ∉ piece)
    (hfirst : ∀ first ∈ pieces.head?, isFiller first = false) :
    (ofParts none pieces).cut.1 = none := by
  obtain _ | ⟨first, rest⟩ := pieces
  · rfl
  have hslash := hslash first List.mem_cons_self
  have hfiller := hfirst first rfl
  obtain ⟨a, tail, rfl⟩ : ∃ a tail, first = a :: tail := by
    refine List.exists_cons_of_ne_nil ?_
    rintro rfl
    exact absurd hfiller (by decide)
  have ha : a ≠ slash := fun h => hslash (h ▸ List.mem_cons_self)
  obtain ⟨more, hbytes, hmore⟩ : ∃ more, (ofParts none ((a :: tail) :: rest)).bytes =
      a :: (tail ++ more) ∧ ∀ b, more.head? = some b → b = slash := by
    by_cases hrest : rest = []
    · exact ⟨[], by simp [ofParts, hrest, Pieces.join], nofun⟩
    · refine ⟨slash :: Pieces.join slash rest, ?_, fun b hb => (Option.some_inj.mp hb).symm⟩
      simp [ofParts, Pieces.join, List.intercalate_cons_of_ne_nil hrest]
  rw [cut, hbytes]
  dsimp only
  rw [if_neg ha, if_neg]
  -- behind a dot there is something else than a slash
  intro hdot
  cases tail with
  | nil =>
    obtain rfl : a = dot := by simpa using (Bool.and_eq_true_iff.mp hdot).1
    exact absurd hfiller (by decide)
  | cons b tail =>
    obtain rfl : b = slash := by simpa using (Bool.and_eq_true_iff.mp hdot).2
    exact hslash (List.mem_cons_of_mem _ List.mem_cons_self)

theorem components_ofParts_none {pieces : List (List UInt8)}
    (hslash : ∀ piece ∈ pieces, slash ∉ piece)
    (hfirst : ∀ first ∈ pieces.head?, isFiller first = false) :
    (ofParts none pieces).components = pieces.filterMap Component.ofSegment? := by
  rw [components_of_cut (cut_ofParts hslash hfirst), ← filterMap_split_join hslash]
  rfl

/-- Behind a dot in front, pieces start with a slash. -/
theorem components_ofParts_current {pieces : List (List UInt8)} (hne : pieces ≠ [])
    (hslash : ∀ piece ∈ pieces, slash ∉ piece) :
    (ofParts (some .current) ([] :: pieces)).components =
      .current :: pieces.filterMap Component.ofSegment? := by
  have hbytes : ofParts (some .current) ([] :: pieces) =
      ⟨[dot] ++ slash :: Pieces.join slash pieces⟩ := by
    rw [ofParts, Pieces.join, List.intercalate_cons_of_ne_nil hne]
    rfl
  rw [hbytes, components_append (p := ⟨[dot]⟩) (List.cons_ne_nil _ _), filterMap_split_join hslash]
  rfl

/-- Behind a directory, the pieces of a path all stand behind a slash. -/
theorem components_join_of_ne_nil {p q : Path} (hp : p.bytes ≠ []) (hq : q.isAbsolute = false) :
    (p.join q).components =
      p.components ++ (split slash q.bytes).filterMap Component.ofSegment? := by
  rw [join, hq, if_neg (by simpa using hp)]
  split_ifs with hlast
  · -- the slash at the end of `p` parts the two
    obtain ⟨front, hfront⟩ := List.getLast?_eq_some_iff.mp hlast
    obtain rfl : p = ⟨front ++ [slash]⟩ := congrArg Path.mk hfront
    rw [List.append_assoc, List.singleton_append]
    by_cases hnil : front = []
    · subst hnil
      exact components_of_isAbsolute (p := ⟨slash :: q.bytes⟩) rfl
    · rw [components_append (p := ⟨front⟩) hnil, components_append_slash (p := ⟨front⟩) hnil]
  · exact components_append hp q.bytes

/-- A path behind a directory has its components behind those of the directory. -/
theorem components_join {q : Path} (hq : q.cut.1 = none) (p : Path) :
    (p.join q).components = p.components ++ q.components := by
  by_cases hp : p.bytes = []
  · obtain rfl : p = empty := congrArg Path.mk hp
    rw [join, hp]
    simp [components_nil]
  · rw [components_join_of_ne_nil hp (isAbsolute_of_cut hq), components_of_cut hq]

theorem isAbsolute_join {p : Path} (hp : p.isAbsolute) (q : Path) : (p.join q).isAbsolute := by
  rw [join]
  split_ifs with hq
  · rcases Bool.or_eq_true_iff.mp hq with hq | hq
    · exact hq
    · obtain ⟨body, hbody⟩ := exists_of_isAbsolute hp
      rw [hbody] at hq
      exact absurd (of_decide_eq_true hq) (List.cons_ne_nil _ _)
  · exact isAbsolute_append hp _
  · exact isAbsolute_append hp _

theorem isAbsolute_foldl_join {base : Path} (h : base.isAbsolute) (steps : List Component) :
    (steps.foldl (fun path step => path.join ⟨step.bytes⟩) base).isAbsolute := by
  induction steps generalizing base with
  | nil => exact h
  | cons step rest ih => exact ih (isAbsolute_join h ⟨step.bytes⟩)

/-- A path as seen from the root starts there. -/
theorem isAbsolute_of_absolute? {p dir result : Path} (hdir : dir.isAbsolute)
    (h : p.absolute? dir = some result) : result.isAbsolute := by
  have hempty : p.bytes ≠ [] := by
    intro hnil
    rw [absolute?, if_pos hnil] at h
    exact absurd h nofun
  rw [absolute?, if_neg hempty] at h
  have hbase : (if !p.isAbsolute then dir
      else if p.hasDoubleRoot then ⟨[slash, slash]⟩ else ⟨[slash]⟩ : Path).isAbsolute := by
    split_ifs
    · exact hdir
    all_goals rfl
  obtain rfl := Option.some_inj.mp h
  by_cases hlast : p.bytes.getLast? = some slash
  · rw [if_pos hlast]
    exact isAbsolute_join (isAbsolute_foldl_join hbase _) _
  · rw [if_neg hlast]
    exact isAbsolute_foldl_join hbase _

/-! ### Below a directory -/

theorem filterMap_dropComponents (count : Nat) (pieces : List (List UInt8)) :
    (dropComponents count pieces).filterMap Component.ofSegment? =
      (pieces.filterMap Component.ofSegment?).drop count := by
  fun_induction dropComponents count pieces with
  | case1 => simp
  | case2 => rfl
  | case3 count piece rest hfiller ih =>
    rw [ih, List.filterMap_cons_none (Option.isNone_iff_eq_none.mp hfiller)]
  | case4 count piece rest hfiller ih =>
    obtain ⟨c, hc⟩ := Option.isSome_iff_exists.mp
      (Option.isNone_eq_false_iff.mp (Bool.eq_false_iff.mpr hfiller))
    rw [ih, List.filterMap_cons_some hc, List.drop_succ_cons]

theorem mem_of_mem_dropComponents {count : Nat} {pieces : List (List UInt8)} {piece : List UInt8}
    (h : piece ∈ dropComponents count pieces) : piece ∈ pieces := by
  fun_induction dropComponents count pieces with
  | case1 => exact h
  | case2 => exact h
  | case3 count _ rest _ ih => exact List.mem_cons_of_mem _ (ih h)
  | case4 count _ rest _ ih => exact List.mem_cons_of_mem _ (ih h)

/-- Pieces without the fillers around them, as a path. -/
theorem components_trimmed {pieces : List (List UInt8)} (hslash : ∀ piece ∈ pieces, slash ∉ piece) :
    let trimmed := ((pieces.dropWhile isFiller).reverse.dropWhile isFiller).reverse
    (ofParts none trimmed).cut.1 = none ∧
      (ofParts none trimmed).components = pieces.filterMap Component.ofSegment? := by
  intro trimmed
  have hkept : trimmed <+: pieces.dropWhile isFiller :=
    List.reverse_suffix.mp (by simpa [trimmed] using List.dropWhile_suffix isFiller)
  have htrimmed : ∀ piece ∈ trimmed, slash ∉ piece := fun piece hpiece =>
    hslash piece ((List.dropWhile_sublist isFiller).subset (hkept.subset hpiece))
  have hfirst : ∀ first ∈ trimmed.head?, isFiller first = false := by
    intro first hfirst
    obtain ⟨more, hmore⟩ := hkept
    have hfiller := List.head?_dropWhile_not isFiller pieces
    rw [← hmore, List.head?_append, Option.mem_def.mp hfirst] at hfiller
    simpa using hfiller
  refine ⟨cut_ofParts htrimmed hfirst, ?_⟩
  rw [components_ofParts_none htrimmed hfirst, filterMap_reverse_dropWhile_isFiller,
    filterMap_dropWhile_isFiller]

theorem below?_eq_none {p base : Path} (h : p.startsWith base = false) : p.below? base = none := by
  rw [below?, h]
  rfl

/-- What lies below a directory has the components that are left. -/
theorem components_of_below? {p base : Path} (hbase : base.components ≠ [])
    (h : p.startsWith base) : ∃ rest, p.below? base = some rest ∧ rest.cut.1 = none ∧
      rest.components = p.components.drop base.components.length := by
  obtain ⟨count, hcount⟩ : ∃ count, base.components.length = count + 1 :=
    Nat.exists_eq_add_one.mpr (List.length_pos_of_ne_nil hbase)
  let pieces := dropComponents (count + 1 - p.cut.1.toList.length) p.segments
  have hslash : ∀ piece ∈ pieces, slash ∉ piece := fun piece hpiece =>
    not_mem_of_mem_split (mem_of_mem_dropComponents hpiece)
  obtain ⟨hcut, hcomponents⟩ := components_trimmed hslash
  refine ⟨_, ?_, hcut, ?_⟩
  · rw [below?, if_pos h, hcount]
    rfl
  · have hfront : p.cut.1.toList.drop (count + 1) = [] := by
      refine List.drop_eq_nil_of_le ?_
      cases p.cut.1 <;> simp
    rw [hcomponents, filterMap_dropComponents, hcount, components, List.drop_append, hfront]
    rfl

/-! ### Extensions -/

/-- A component with the extension of a name replaced. -/
def Component.titled (extension : List UInt8) : Component → Component
  | name bytes => name (stem bytes ++ dot :: extension)
  | root => root
  | current => current
  | parent => parent

/-- The last piece that is left, and what is in front of it and behind it. -/
theorem exists_of_segmentsFromEnd {p : Path} {last : List UInt8} {before : List (List UInt8)}
    (h : p.segmentsFromEnd = last :: before) : ∃ fillers,
      p.segments = before.reverse ++ last :: fillers ∧
        fillers.filterMap Component.ofSegment? = [] := by
  refine ⟨(p.segments.reverse.takeWhile isFiller).reverse, ?_, ?_⟩
  · have hreverse : (p.segments.reverse.takeWhile isFiller ++ last :: before).reverse =
        p.segments := by
      rw [← h, segmentsFromEnd, List.takeWhile_append_dropWhile, List.reverse_reverse]
    rwa [List.reverse_append, List.reverse_cons, List.append_assoc, List.singleton_append,
      eq_comm] at hreverse
  · refine List.filterMap_eq_nil_iff.mpr fun piece hpiece => ?_
    have hfiller : isFiller piece := List.mem_takeWhile_imp (List.mem_reverse.mp hpiece)
    exact Option.isNone_iff_eq_none.mp hfiller

/-- What is in front of the pieces of a path. -/
theorem cut_cases (p : Path) : p.cut.1 = some .root ∨
    (p.cut.1 = some .current ∧ ∃ rest, p.segments = [] :: rest) ∨ p.cut.1 = none := by
  rw [segments, cut]
  split
  · exact .inr (.inr rfl)
  · rename_i a rest _
    split_ifs with hslash hdot
    · exact .inl rfl
    · refine .inr (.inl ⟨rfl, ?_⟩)
      cases rest with
      | nil => exact ⟨[], rfl⟩
      | cons b rest =>
        obtain rfl : b = slash := by simpa using (Bool.and_eq_true_iff.mp hdot).2
        exact ⟨split slash rest, if_pos rfl⟩
    · exact .inr (.inr rfl)

/-- Pieces at the beginning of a path, the last of which is put in the place of one that is not a
filler. -/
theorem components_ofParts_concat {p : Path} {last other : List UInt8}
    {front : List (List UInt8)} (hbegins : front ++ [last] <+: p.segments)
    (hlast : isFiller last = false) (hslash : slash ∉ other) (hother : isFiller other = false) :
    (ofParts p.cut.1 (front ++ [other])).components =
      p.cut.1.toList ++ (front ++ [other]).filterMap Component.ofSegment? := by
  have hall : ∀ piece ∈ front ++ [other], slash ∉ piece := by
    intro piece hpiece
    rcases List.mem_append.mp hpiece with hfront | hlast
    · exact not_mem_of_mem_split (hbegins.subset (List.mem_append_left [last] hfront))
    · exact List.mem_singleton.mp hlast ▸ hslash
  obtain ⟨behind, hp⟩ := hbegins
  rw [List.append_assoc] at hp
  rcases p.cut_cases with hcut | ⟨hcut, rest, hrest⟩ | hcut
  · rw [hcut]
    exact components_ofParts hall
  · -- behind the dot there is a slash
    rw [← hp] at hrest
    cases front with
    | nil =>
      obtain rfl : last = [] := List.head_eq_of_cons_eq hrest
      exact absurd hlast (by decide)
    | cons first more =>
      obtain rfl := List.head_eq_of_cons_eq hrest
      rw [hcut]
      exact components_ofParts_current (List.append_ne_nil_of_right_ne_nil more (by simp))
        fun piece hpiece => hall piece (List.mem_cons_of_mem [] hpiece)
  · rw [hcut]
    refine components_ofParts_none hall fun first hfirst => ?_
    cases front with
    | nil =>
      obtain rfl := Option.some_inj.mp hfirst
      exact hother
    | cons head more =>
      obtain rfl := Option.some_inj.mp hfirst
      have hne : p.bytes ≠ [] := by
        intro hnil
        rw [segments, cut_of_none hcut, hnil] at hp
        obtain rfl : head = [] := List.head_eq_of_cons_eq hp
        exact absurd (List.append_eq_nil_iff.mp (List.cons.inj hp).2).2 (List.cons_ne_nil _ _)
      obtain ⟨head', rest, hhead, hfiller⟩ := exists_segments_eq hcut hne
      rw [hhead] at hp
      rwa [List.head_eq_of_cons_eq hp]

theorem mem_of_mem_stem {name : List UInt8} {b : UInt8} (h : b ∈ stem name) : b ∈ name := by
  rw [stem] at h
  split at h
  · rename_i front before hname
    split_ifs at h
    · exact h
    · refine List.mem_reverse.mp ((List.dropWhile_suffix (· != dot)).subset ?_)
      exact hname ▸ List.mem_cons_of_mem front (List.mem_reverse.mp h)
  · exact h

/-- A piece with something else than dots in it is a name. -/
theorem ofSegment?_of_mem {piece : List UInt8} {b : UInt8} (h : b ∈ piece) (hb : b ≠ dot) :
    Component.ofSegment? piece = some (.name piece) := by
  have hdots : ∀ count, piece ≠ List.replicate count dot := by
    rintro count rfl
    exact hb (List.eq_of_mem_replicate h)
  have hup : piece ≠ [dot, dot] := hdots 2
  rw [Component.ofSegment?, if_neg, if_neg hup]
  rw [Bool.or_eq_true, decide_eq_true_eq, decide_eq_true_eq]
  exact not_or.mpr ⟨hdots 0, hdots 1⟩

theorem components_of_segmentsFromEnd {p : Path} {last : List UInt8} {before : List (List UInt8)}
    (h : p.segmentsFromEnd = last :: before) {c : Component}
    (hc : Component.ofSegment? last = some c) :
    p.components = p.cut.1.toList ++ before.reverse.filterMap Component.ofSegment? ++ [c] := by
  obtain ⟨fillers, hp, hfillers⟩ := exists_of_segmentsFromEnd h
  rw [components, hp, List.filterMap_append, List.filterMap_cons_some hc, hfillers,
    List.append_assoc]

theorem filterMap_segments_eq_nil {p : Path} (h : p.segmentsFromEnd = []) :
    p.segments.filterMap Component.ofSegment? = [] := by
  rw [← filterMap_reverse_dropWhile_isFiller, ← segmentsFromEnd, h]
  rfl

theorem exists_of_fileName? {p : Path} {name : List UInt8} (h : p.fileName? = some name) :
    ∃ before, p.segmentsFromEnd = name :: before ∧
      Component.ofSegment? name = some (.name name) := by
  rw [fileName?] at h
  split at h
  · rename_i bytes hlast
    obtain rfl := Option.some_inj.mp h
    obtain ⟨last, hhead, hlast⟩ := Option.bind_eq_some_iff.mp hlast
    obtain ⟨before, hbefore⟩ := List.head?_eq_some_iff.mp hhead
    obtain rfl : bytes = last := Component.bytes_of_ofSegment? hlast
    exact ⟨before, hbefore, hlast⟩
  · exact absurd h nofun

/-- A path without a file name does not end with a name. -/
theorem getLast?_of_fileName?_eq_none {p : Path} (h : p.fileName? = none) (name : List UInt8) :
    p.components.getLast? ≠ some (.name name) := by
  cases hsegments : p.segmentsFromEnd with
  | nil =>
    rw [components, filterMap_segments_eq_nil hsegments, List.append_nil]
    rcases p.cut_cases with hcut | ⟨hcut, -⟩ | hcut <;> simp [hcut]
  | cons last before =>
    obtain ⟨c, hc⟩ := exists_ofSegment?_of_segmentsFromEnd hsegments
    rw [components_of_segmentsFromEnd hsegments hc, List.getLast?_concat]
    intro hname
    rw [Option.some_inj.mp hname] at hc
    rw [fileName?, hsegments, List.head?_cons, Option.bind_some, hc] at h
    exact absurd h (Option.some_ne_none name)

theorem modifyLast_titled_eq_self {components : List Component} {extension : List UInt8}
    (h : ∀ name, components.getLast? ≠ some (.name name)) :
    components.modifyLast (Component.titled extension) = components := by
  rcases List.eq_nil_or_concat components with rfl | ⟨front, c, rfl⟩
  · rfl
  · rw [List.concat_eq_append] at h ⊢
    rw [List.modifyLast_concat]
    cases c with
    | name bytes => exact absurd List.getLast?_concat (h bytes)
    | root => rfl
    | current => rfl
    | parent => rfl

/-- Another extension changes the last component, and only if this is a name. -/
theorem components_withExtension (p : Path) {extension : List UInt8} (hslash : slash ∉ extension)
    (hdot : ∃ b ∈ extension, b ≠ dot) :
    (p.withExtension extension).components =
      p.components.modifyLast (Component.titled extension) := by
  cases hname : p.fileName? with
  | none =>
    rw [withExtension, hname, modifyLast_titled_eq_self (getLast?_of_fileName?_eq_none hname)]
  | some name =>
    obtain ⟨before, hsegments, hlast⟩ := exists_of_fileName? hname
    obtain ⟨b, hb, hbdot⟩ := hdot
    have htitled : Component.ofSegment? (stem name ++ dot :: extension) =
        some (.name (stem name ++ dot :: extension)) :=
      ofSegment?_of_mem (List.mem_append_right _ (List.mem_cons_of_mem dot hb)) hbdot
    have hnew : slash ∉ stem name ++ dot :: extension := by
      rw [List.mem_append, List.mem_cons, not_or, not_or]
      refine ⟨fun hmem => ?_, by decide, hslash⟩
      exact slash_not_mem_of_mem_segmentsFromEnd (hsegments ▸ List.mem_cons_self)
        (mem_of_mem_stem hmem)
    have hbegins : before.reverse ++ [name] <+: p.segments := by
      obtain ⟨fillers, hp, -⟩ := exists_of_segmentsFromEnd hsegments
      exact ⟨fillers, by rw [hp, List.append_assoc, List.singleton_append]⟩
    rw [components_of_segmentsFromEnd hsegments hlast, List.modifyLast_concat, withExtension, hname,
      hsegments]
    dsimp only
    rw [List.reverse_cons, components_ofParts_concat hbegins (by rw [isFiller, hlast]; rfl) hnew
      (by rw [isFiller, htitled]; rfl), List.filterMap_append, List.filterMap_cons_some htitled,
      List.append_assoc]
    rfl

end Path

end StylesheetBuild
