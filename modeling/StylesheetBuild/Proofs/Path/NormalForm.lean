/-
The normal form of a joined path.

Joining leaves the `..` that lead above the start in front of names, with no filler between them.
There are as many of these as the parts lead above the start at their highest, for a `..` is kept
only where no name is left that it could take away.

* **`Leaves.step`**, **`exists_leaves`** — one segment keeps that account, and so do all of them;
* **`resolve_resolve_append`** — what is in front may be resolved before the rest is;
* **`join_normal`** — joined paths have that normal form, and joining in two steps is joining once.

Design notes: `resolve` works on a stack with the last segment on top, while the account is given in
the order of the text, so the induction is from the end of the segments.
-/
import Mathlib.Data.List.Induction
import Mathlib.Order.Bounds.Basic
import StylesheetBuild.Proofs.Path.Climbing

namespace StylesheetBuild.RelativePath

variable {segments names : List Text} {segment : Text} {climbs : Nat}

/-! ### Up and down -/

instance : DecidablePred IsName := fun segment =>
  inferInstanceAs (Decidable (segment ≠ [] ∧ segment ≠ ['.'] ∧ segment ≠ up))

/-- A segment without a meaning. -/
def IsFiller (segment : Text) : Prop :=
  segment = [] ∨ segment = ['.']

theorem segment_cases (segment : Text) : IsFiller segment ∨ segment = up ∨ IsName segment := by
  by_cases hnil : segment = []
  · exact .inl (.inl hnil)
  by_cases hdot : segment = ['.']
  · exact .inl (.inr hdot)
  by_cases hup : segment = up
  · exact .inr (.inl hup)
  · exact .inr (.inr ⟨hnil, hdot, hup⟩)

/-- By how much more segments lead up than down. -/
def excess (segments : List Text) : Int :=
  (segments.count up : Int) - segments.countP (fun segment => IsName segment)

theorem excess_append (first second : List Text) :
    excess (first ++ second) = excess first + excess second := by
  simp only [excess, List.count_append, List.countP_append]
  omega

theorem excess_filler (h : IsFiller segment) : excess [segment] = 0 := by
  rcases h with rfl | rfl <;> decide

theorem excess_up : excess [up] = 1 := by decide

theorem excess_name (h : IsName segment) : excess [segment] = -1 := by
  have hcount : [segment].count up = 0 :=
    List.count_eq_zero.mpr fun hup => h.2.2 (List.mem_singleton.mp hup).symm
  simp [excess, h, hcount]

/-! ### One segment more -/

theorem push_filler (h : IsFiller segment) (resolved : List Text) :
    push resolved segment = resolved := by
  rcases h with rfl | rfl <;> rfl

theorem push_name (h : IsName segment) (resolved : List Text) :
    push resolved segment = segment :: resolved := by
  rw [push.eq_def, if_neg (by simp [h.1, h.2.1]), if_neg h.2.2]

/-- Where no name is left, a `..` is kept. -/
theorem push_up_replicate (climbs : Nat) :
    push (List.replicate climbs up) up = List.replicate (climbs + 1) up := by
  cases climbs <;> rfl

/-- A `..` takes the name before it away. -/
theorem push_up_cons {name : Text} (h : IsName name) (resolved : List Text) :
    push (name :: resolved) up = resolved :=
  if_neg h.2.2

theorem resolve_concat (segments : List Text) (segment : Text) :
    resolve (segments ++ [segment]) = (push (resolve segments).reverse segment).reverse := by
  rw [resolve, resolve, List.foldl_append, List.reverse_reverse]
  rfl

/-! ### What resolving leaves -/

/-- Resolving leaves `..` in front of some of the names: as many as the segments lead above the
start at their highest. -/
structure Leaves (segments : List Text) (climbs : Nat) (names : List Text) : Prop where
  resolve_eq : resolve segments = List.replicate climbs up ++ names
  isName : ∀ name ∈ names, IsName name
  sublist : names.Sublist segments
  excess_eq : excess segments = climbs - names.length
  highest : IsGreatest (excess '' {front | front <+: segments}) climbs

/-- With a further segment, the highest point is the old one or the new end. -/
theorem isGreatest_concat {height height' : Int}
    (h : IsGreatest (excess '' {front | front <+: segments}) height)
    (hend : excess (segments ++ [segment]) ≤ height') (hle : height ≤ height')
    (hreached : height' = height ∨ height' = excess (segments ++ [segment])) :
    IsGreatest (excess '' {front | front <+: segments ++ [segment]}) height' := by
  constructor
  · rcases hreached with rfl | rfl
    · obtain ⟨front, hfront, heq⟩ := h.1
      exact ⟨front, hfront.trans (List.prefix_append segments [segment]), heq⟩
    · exact Set.mem_image_of_mem excess (List.prefix_refl _)
  · rintro - ⟨front, hfront, rfl⟩
    rcases List.prefix_concat_iff.mp hfront with rfl | hfront
    · exact hend
    · exact (h.2 (Set.mem_image_of_mem excess hfront)).trans hle

/-- One segment more: a filler changes nothing, a `..` takes the last name away or is kept, and a
name is added. -/
theorem Leaves.step (h : Leaves segments climbs names) (segment : Text) :
    ∃ climbs names, Leaves (segments ++ [segment]) climbs names := by
  have hresolve : resolve (segments ++ [segment]) =
      (push (names.reverse ++ List.replicate climbs up) segment).reverse := by
    rw [resolve_concat, h.resolve_eq, List.reverse_append, List.reverse_replicate]
  have hexcess := excess_append segments [segment]
  have hcount := h.excess_eq
  have hsublist := h.sublist.trans (List.sublist_append_left segments [segment])
  rcases segment_cases segment with hfiller | rfl | hname
  · rw [push_filler hfiller, List.reverse_append, List.reverse_reverse,
      List.reverse_replicate] at hresolve
    rw [excess_filler hfiller, Int.add_zero] at hexcess
    exact ⟨climbs, names, hresolve, h.isName, hsublist, hexcess.trans hcount,
      isGreatest_concat h.highest (by omega) le_rfl (.inl rfl)⟩
  · rw [excess_up] at hexcess
    rcases List.eq_nil_or_concat names with rfl | ⟨front, last, rfl⟩
    · -- no name is left, and the new end is the highest point
      rw [List.reverse_nil, List.nil_append, push_up_replicate, List.reverse_replicate] at hresolve
      rw [List.length_nil] at hcount
      exact ⟨climbs + 1, [], hresolve.trans (List.append_nil _).symm, nofun,
        List.nil_sublist _, by rw [List.length_nil]; omega,
        isGreatest_concat h.highest (by omega) (by omega) (.inr (by omega))⟩
    · rw [List.concat_eq_append] at h hcount hresolve hsublist
      obtain ⟨hfront, hlast⟩ := List.forall_mem_append.mp h.isName
      rw [List.reverse_append, List.reverse_singleton, List.singleton_append, List.cons_append,
        push_up_cons (hlast last List.mem_cons_self), List.reverse_append, List.reverse_reverse,
        List.reverse_replicate] at hresolve
      rw [List.length_append, List.length_singleton] at hcount
      exact ⟨climbs, front, hresolve, hfront,
        (List.sublist_append_left front [last]).trans hsublist, by omega,
        isGreatest_concat h.highest (by omega) le_rfl (.inl rfl)⟩
  · rw [push_name hname, List.reverse_cons, List.reverse_append, List.reverse_reverse,
      List.reverse_replicate, List.append_assoc] at hresolve
    rw [excess_name hname] at hexcess
    exact ⟨climbs, names ++ [segment], hresolve,
      List.forall_mem_append.mpr ⟨h.isName, List.forall_mem_singleton.mpr hname⟩,
      h.sublist.append (List.Sublist.refl _),
      by rw [List.length_append, List.length_singleton]; omega,
      isGreatest_concat h.highest (by omega) le_rfl (.inl rfl)⟩

/-- Resolving any segments leaves `..` in front of names. -/
theorem exists_leaves (segments : List Text) : ∃ climbs names, Leaves segments climbs names := by
  induction segments using List.reverseRecOn with
  | nil =>
    refine ⟨0, [], rfl, nofun, .slnil, rfl, ⟨[], List.prefix_refl [], rfl⟩, ?_⟩
    rintro - ⟨front, hfront, rfl⟩
    rw [List.prefix_nil.mp hfront]
    exact le_rfl
  | append_singleton front segment ih =>
    obtain ⟨climbs, names, h⟩ := ih
    exact h.step segment

/-! ### Resolving in two steps -/

/-- Segments that are resolved stay as they are. -/
theorem foldl_push_reverse {resolved : List Text} (h : IsNormal resolved) :
    resolved.reverse.foldl push [] = resolved := by
  obtain ⟨names, climbs, rfl, hnames⟩ := h
  induction names with
  | nil =>
    rw [List.nil_append, List.reverse_replicate]
    induction climbs with
    | zero => rfl
    | succ climbs ih =>
      rw [List.replicate_succ', List.foldl_append, ih, ← List.replicate_succ']
      exact push_up_replicate climbs
  | cons name names ih =>
    obtain ⟨hname, hrest⟩ := List.forall_mem_cons.mp hnames
    rw [List.cons_append, List.reverse_cons, List.foldl_append, ih hrest]
    exact push_name hname _

/-- What is in front may be resolved before the rest is. -/
theorem resolve_resolve_append (first second : List Text) :
    resolve (resolve first ++ second) = resolve (first ++ second) := by
  have hfirst : (resolve first).foldl push [] = first.foldl push [] := by
    have hnormal := foldl_push_reverse (resolve_isNormal first)
    rwa [List.reverse_reverse, resolve, List.reverse_reverse] at hnormal
  rw [resolve, resolve.eq_def (first ++ second), List.foldl_append, List.foldl_append, hfirst]

/-- An empty segment is a filler. -/
theorem resolve_append_nil_append (first second : List Text) :
    resolve (first ++ [[]] ++ second) = resolve (first ++ second) := by
  rw [resolve, resolve, List.foldl_append, List.foldl_append, List.foldl_append]
  rfl

/-! ### Joined paths -/

theorem getLast?_withSlashes (reference : Text) : (withSlashes reference).getLast? = some '/' ↔
    reference.getLast? = some '/' ∨ reference.getLast? = some '\\' := by
  rw [withSlashes, List.getLast?_map]
  cases reference.getLast? with
  | none => simp
  | some c => by_cases hc : c = '\\' <;> simp [hc]

theorem join_pieces_eq_nil_iff (h : ∀ s ∈ segments, s ≠ []) :
    Pieces.join '/' segments = [] ↔ segments = [] := by
  cases segments with
  | nil => exact iff_of_true rfl rfl
  | cons s rest =>
    refine iff_of_false (fun hnil => ?_) (List.cons_ne_nil s rest)
    by_cases hrest : rest = []
    · rw [hrest, join_singleton] at hnil
      exact h s List.mem_cons_self hnil
    · rw [join_cons s hrest] at hnil
      exact h s List.mem_cons_self (List.append_eq_nil_iff.mp hnil).1

/-- Joining, as seen from what resolving leaves. -/
theorem join_eq (dir reference : Text) :
    let resolved := resolve (Pieces.split '/' dir ++ Pieces.split '/' (withSlashes reference))
    join dir reference = Pieces.join '/' resolved ++
      if (reference.getLast? = some '/' ∨ reference.getLast? = some '\\') ∧ resolved ≠ []
      then ['/'] else [] := by
  intro resolved
  have hnil : Pieces.join '/' resolved = [] ↔ resolved = [] :=
    join_pieces_eq_nil_iff fun _ hs => ne_nil_of_mem_resolve hs
  have hcondition : ((withSlashes reference).getLast? = some '/' &&
      Pieces.join '/' resolved != []) = true ↔
      (reference.getLast? = some '/' ∨ reference.getLast? = some '\\') ∧ resolved ≠ [] := by
    rw [Bool.and_eq_true, decide_eq_true_eq, bne_iff_ne, getLast?_withSlashes, Ne, hnil]
  rw [join, if_congr hcondition rfl rfl]
  split_ifs
  · rfl
  · rw [List.append_nil]

/-- Joining one reference behind another is joining both at once. -/
theorem join_join (dir first : Text) {second : Text} (h : second ≠ []) :
    join (join dir first) second = join dir (first ++ '/' :: second) := by
  have hslashes : withSlashes (first ++ '/' :: second) =
      withSlashes first ++ '/' :: withSlashes second := by
    simp [withSlashes]
  have hresolve : resolve (Pieces.split '/' (join dir first) ++
        Pieces.split '/' (withSlashes second)) =
      resolve (Pieces.split '/' dir ++
        Pieces.split '/' (withSlashes (first ++ '/' :: second))) := by
    obtain ⟨rest, hrest, hsplit⟩ := exists_split_join dir first
    rw [hsplit, hslashes, Pieces.split_append_separator, ← List.append_assoc,
      ← resolve_resolve_append (Pieces.split '/' dir ++ _)]
    rcases hrest with rfl | rfl
    · rw [List.append_nil]
    · exact resolve_append_nil_append _ _
  have hlast : (first ++ '/' :: second).getLast? = second.getLast? := by
    rw [List.getLast?_append_of_ne_nil _ (List.cons_ne_nil '/' second)]
    exact List.getLast?_append_of_ne_nil ['/'] h
  rw [join_eq (join dir first) second, join_eq dir (first ++ '/' :: second), hresolve, hlast]

/-- **Joined paths are in normal form.**  Up to a slash at its end, a joined path consists of some
`..` and behind them names, which are in the order of the directory and the reference.  There are as
many `..` as the segments of both lead above the start at their highest, and a slash at the end is
that of the reference, unless nothing is left in front of it.  And joining one reference behind
another, if it is not empty, is joining both at once. -/
theorem join_normal (dir reference : Text) :
    let segments := Pieces.split '/' dir ++ Pieces.split '/' (withSlashes reference)
    (∃ (climbs : Nat) (names : List Text), (∀ name ∈ names, IsName name ∧ '/' ∉ name) ∧
      names.Sublist segments ∧ IsGreatest (excess '' {front | front <+: segments}) climbs ∧
      join dir reference = Pieces.join '/' (List.replicate climbs up ++ names) ++
        if (reference.getLast? = some '/' ∨ reference.getLast? = some '\\') ∧
          List.replicate climbs up ++ names ≠ [] then ['/'] else []) ∧
    ∀ second, second ≠ [] →
      join (join dir reference) second = join dir (reference ++ '/' :: second) := by
  intro segments
  refine ⟨?_, fun second h => join_join dir reference h⟩
  obtain ⟨climbs, names, h⟩ := exists_leaves segments
  refine ⟨climbs, names, fun name hname => ⟨h.isName name hname, ?_⟩, h.sublist, h.highest, ?_⟩
  · rcases List.mem_append.mp (h.sublist.subset hname) with hdir | hreference
    · exact Pieces.not_mem_of_mem_split hdir
    · exact Pieces.not_mem_of_mem_split hreference
  · rw [join_eq, h.resolve_eq]

/-- A directory above the start, left and climbed from again. -/
theorem join_normal_above :
    let dir := "../styles".toList
    let first := "..\\..\\img\\.\\".toList
    let second := "../../a//b/".toList
    second ≠ [] ∧ join (join dir first) second = "../../../a/b/".toList ∧
      join dir (first ++ '/' :: second) = "../../../a/b/".toList := by
  intro dir first second
  have hjoin := (join_normal dir first).2 second (by decide)
  have hresult : join dir (first ++ '/' :: second) = "../../../a/b/".toList := by decide +kernel
  exact ⟨by decide, hjoin.trans hresult, hresult⟩

end StylesheetBuild.RelativePath
