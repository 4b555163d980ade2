/-
Asset paths that climb, and asset paths with stray slashes.

* **`up_mem_split_join_iff`** — a joined path has a `..` exactly when its parts lead above the start
  on their way;
* **`climbs_split_join_iff`** — and climbs exactly then;
* **`split_append_name`** — the name at the end of a path makes no difference to that;
* **`tidy_join`** — a joined path does not start with a slash and has no two slashes next to each
  other.
-/
import Mathlib.Data.List.Chain
import StylesheetBuild.Proofs.Path.Resolution

namespace StylesheetBuild.RelativePath

/-! ### Climbing -/

/-- How far below the start segments lead from a given depth on, unless they lead above the start
on their way. -/
def depth? (depth : Nat) : List Text → Option Nat
  | [] => some depth
  | segment :: rest =>
    if segment = [] || segment = ['.'] then depth? depth rest
    else if segment = up then
      if depth = 0 then none else depth? (depth - 1) rest
    else depth? (depth + 1) rest

/-- Segments that lead above the start on their way. -/
def Climbs (segments : List Text) : Prop :=
  depth? 0 segments = none

instance (segments : List Text) : Decidable (Climbs segments) :=
  inferInstanceAs (Decidable (depth? 0 segments = none))

theorem depth?_append (depth : Nat) (first second : List Text) :
    depth? depth (first ++ second) = (depth? depth first).bind (depth? · second) := by
  induction first generalizing depth with
  | nil => rfl
  | cons segment rest ih =>
    rw [List.cons_append, depth?, depth?]
    split_ifs with hfiller hup htop
    · exact ih depth
    · rfl
    · exact ih (depth - 1)
    · exact ih (depth + 1)

/-- Without `..` no segments climb. -/
theorem not_climbs_of_not_mem {segments : List Text} (h : up ∉ segments) : ¬ Climbs segments := by
  have hsome : ∀ depth, depth? depth segments ≠ none := by
    induction segments with
    | nil => exact fun depth => Option.some_ne_none depth
    | cons segment rest ih =>
      intro depth
      obtain ⟨hsegment, hrest⟩ := List.ne_and_not_mem_of_not_mem_cons h
      rw [depth?, if_neg hsegment.symm]
      split_ifs
      · exact ih hrest depth
      · exact ih hrest (depth + 1)
  exact hsome 0

theorem up_mem_push {resolved : List Text} (h : up ∈ resolved) (segment : Text) :
    up ∈ push resolved segment := by
  unfold push
  split_ifs with hfiller hup
  · exact h
  · cases resolved with
    | nil => exact absurd h List.not_mem_nil
    | cons last before =>
      show up ∈ if last = up then up :: last :: before else before
      split_ifs with hlast
      · exact List.mem_cons_self
      · exact (List.mem_cons.mp h).resolve_left (Ne.symm hlast)
  · exact List.mem_cons_of_mem segment h

theorem up_mem_foldl_push {resolved : List Text} (h : up ∈ resolved) (segments : List Text) :
    up ∈ segments.foldl push resolved := by
  induction segments generalizing resolved with
  | nil => exact h
  | cons segment rest ih => exact ih (up_mem_push h segment)

theorem up_mem_foldl_push_iff {names : List Text} (hnames : up ∉ names) (segments : List Text) :
    up ∈ segments.foldl push names ↔ depth? names.length segments = none := by
  induction segments generalizing names with
  | nil => simp [depth?, hnames]
  | cons segment rest ih =>
    rw [List.foldl_cons, depth?, push.eq_def]
    by_cases hfiller : (segment = [] || segment = ['.']) = true
    · rw [if_pos hfiller, if_pos hfiller]
      exact ih hnames
    rw [if_neg hfiller, if_neg hfiller]
    by_cases hup : segment = up
    · rw [if_pos hup, if_pos hup]
      cases names with
      | nil => exact iff_of_true (up_mem_foldl_push List.mem_cons_self rest) rfl
      | cons name names =>
        obtain ⟨hname, hnames⟩ := List.ne_and_not_mem_of_not_mem_cons hnames
        show up ∈ rest.foldl push (if name = up then up :: name :: names else names) ↔ _
        rw [if_neg hname.symm]
        exact ih hnames
    · rw [if_neg hup, if_neg hup]
      exact ih (List.not_mem_cons_of_ne_of_not_mem (Ne.symm hup) hnames)

/-- A `..` is left exactly where segments climb. -/
theorem up_mem_resolve_iff (segments : List Text) : up ∈ resolve segments ↔ Climbs segments := by
  rw [resolve, List.mem_reverse, up_mem_foldl_push_iff List.not_mem_nil]
  rfl

theorem up_mem_split_join_iff (dir reference : Text) :
    up ∈ Pieces.split '/' (join dir reference) ↔
      Climbs (Pieces.split '/' dir ++ Pieces.split '/' (withSlashes reference)) := by
  obtain ⟨rest, hrest, hsplit⟩ := exists_split_join dir reference
  have hnot : up ∉ rest := by
    rcases hrest with rfl | rfl <;> decide
  rw [hsplit, List.mem_append, or_iff_left hnot, up_mem_resolve_iff]

/-- A joined path climbs exactly when its parts do. -/
theorem climbs_split_join_iff (dir reference : Text) :
    Climbs (Pieces.split '/' (join dir reference)) ↔
      Climbs (Pieces.split '/' dir ++ Pieces.split '/' (withSlashes reference)) := by
  rw [← up_mem_split_join_iff]
  refine ⟨fun h => not_not.mp fun hup => not_climbs_of_not_mem hup h, fun hup => ?_⟩
  -- every `..` stands behind other `..` only, so the first segment is one
  have hpairwise := split_join_pairwise dir reference
  obtain ⟨first, rest, hsplit⟩ := List.exists_cons_of_ne_nil
    (Pieces.split_ne_nil '/' (join dir reference))
  rw [hsplit] at hup hpairwise ⊢
  obtain rfl : first = up := by
    rcases List.mem_cons.mp hup with h | h
    · exact h.symm
    · exact (List.pairwise_cons.mp hpairwise).1 up h rfl
  rfl

/-! ### Names at the end -/

/-- A segment that leads to something of that name. -/
def IsName (segment : Text) : Prop :=
  segment ≠ [] ∧ segment ≠ ['.'] ∧ segment ≠ up

theorem isName_of_mem {segment : Text} {c : Char} (h : c ∈ segment) (hc : c ≠ '.') :
    IsName segment := by
  refine ⟨?_, ?_, ?_⟩ <;> rintro rfl <;> simp [up, hc] at h

theorem depth?_name (depth : Nat) {name : Text} (h : IsName name) :
    depth? depth [name] = some (depth + 1) := by
  obtain ⟨hnil, hdot, hup⟩ := h
  rw [depth?, if_neg (by simp [hnil, hdot]), if_neg hup]
  rfl

theorem climbs_append_name_iff (segments : List Text) {name : Text} (h : IsName name) :
    Climbs (segments ++ [name]) ↔ Climbs segments := by
  rw [Climbs, Climbs, depth?_append]
  cases depth? 0 segments with
  | none => exact Iff.rfl
  | some depth => simp [depth?_name depth h]

/-- The name at the end of a path makes no difference to where its directory is. -/
theorem split_append_name (stem : Text) {s t : Text} (hs : '/' ∉ s) (ht : '/' ∉ t)
    (hns : ∃ c ∈ s, c ≠ '.') (hnt : ∃ c ∈ t, c ≠ '.') :
    (up ∈ Pieces.split '/' (stem ++ s) ↔ up ∈ Pieces.split '/' (stem ++ t)) ∧
      (Climbs (Pieces.split '/' (stem ++ s)) ↔ Climbs (Pieces.split '/' (stem ++ t))) := by
  -- each path is the directory with one more name
  have hcut : ∃ before last, ∀ u, '/' ∉ u →
      Pieces.split '/' (stem ++ u) = before ++ [last ++ u] := by
    obtain ⟨before, last, -, -, hstem, -⟩ := Pieces.exists_split_append '/' stem []
    refine ⟨before, last, fun u hu => ?_⟩
    obtain ⟨before', last', first, after, hstem', hfirst, happend⟩ :=
      Pieces.exists_split_append '/' stem u
    obtain ⟨rfl, hlast⟩ := List.append_inj' (hstem.symm.trans hstem') rfl
    obtain rfl := List.head_eq_of_cons_eq hlast
    rw [Pieces.split_of_not_mem hu] at hfirst
    obtain ⟨rfl, rfl⟩ := List.cons.inj hfirst
    exact happend
  obtain ⟨before, last, hcut⟩ := hcut
  have hname : ∀ u : Text, (∃ c ∈ u, c ≠ '.') → IsName (last ++ u) := by
    rintro u ⟨c, hc, hne⟩
    exact isName_of_mem (List.mem_append_right last hc) hne
  have hup : ∀ u : Text, (∃ c ∈ u, c ≠ '.') → (up ∈ before ++ [last ++ u] ↔ up ∈ before) := by
    intro u hu
    rw [List.mem_append, List.mem_singleton, or_iff_left (hname u hu).2.2.symm]
  rw [hcut s hs, hcut t ht, hup s hns, hup t hnt, climbs_append_name_iff before (hname s hns),
    climbs_append_name_iff before (hname t hnt)]
  exact ⟨Iff.rfl, Iff.rfl⟩

/-! ### Slashes -/

/-- No two slashes stand next to each other. -/
def SlashesApart (text : Text) : Prop :=
  ¬ ['/', '/'] <:+: text

theorem slashesApart_iff_isChain {text : Text} :
    SlashesApart text ↔ text.IsChain fun c d => c = '/' → d ≠ '/' := by
  rw [List.isChain_iff_forall_rel_of_append_cons_cons]
  constructor
  · rintro h c d before after rfl rfl rfl
    exact h ⟨before, after, by simp⟩
  · rintro h ⟨before, after, rfl⟩
    exact h (List.append_assoc before ['/', '/'] after) rfl rfl

theorem slashesApart_of_not_mem {text : Text} (h : '/' ∉ text) : SlashesApart text :=
  fun hslashes => h (hslashes.subset List.mem_cons_self)

theorem slashesApart_singleton (c : Char) : SlashesApart [c] :=
  slashesApart_iff_isChain.mpr (List.isChain_singleton c)

theorem slashesApart_append {s t : Text} : SlashesApart (s ++ t) ↔ SlashesApart s ∧
    SlashesApart t ∧ (s.getLast? = some '/' → t.head? ≠ some '/') := by
  rw [slashesApart_iff_isChain, slashesApart_iff_isChain, slashesApart_iff_isChain,
    List.isChain_append]
  refine and_congr_right fun _ => and_congr_right fun _ => ⟨fun h hs ht => ?_, ?_⟩
  · exact h '/' hs '/' ht rfl rfl
  · rintro h c hc d hd rfl rfl
    exact h hc hd

/-- A path that does not start with a slash and has no two slashes next to each other. -/
structure Tidy (path : Text) : Prop where
  head_ne : path.head? ≠ some '/'
  slashesApart : SlashesApart path

theorem Tidy.of_isPrefix {s path : Text} (h : Tidy path) (hs : s <+: path) : Tidy s where
  head_ne hhead := by
    obtain ⟨rest, rfl⟩ := hs
    exact h.head_ne (by rw [List.head?_append, hhead]; rfl)
  slashesApart hslashes := h.slashesApart (hslashes.trans hs.isInfix)

theorem join_singleton (s : Text) : Pieces.join '/' [s] = s := by
  simp [Pieces.join]

theorem join_cons (s : Text) {rest : List Text} (h : rest ≠ []) :
    Pieces.join '/' (s :: rest) = s ++ (['/'] ++ Pieces.join '/' rest) := by
  obtain ⟨t, rest, rfl⟩ := List.exists_cons_of_ne_nil h
  rw [Pieces.join, List.intercalate_cons_cons, List.append_assoc]
  rfl

theorem getLast?_join_pieces {segments : List Text} (h : ∀ s ∈ segments, s ≠ [] ∧ '/' ∉ s) :
    (Pieces.join '/' segments).getLast? ≠ some '/' := by
  induction segments with
  | nil => simp [Pieces.join]
  | cons s rest ih =>
    cases rest with
    | nil =>
      rw [join_singleton]
      exact fun hlast => (h s List.mem_cons_self).2 (List.mem_of_getLast? hlast)
    | cons t rest =>
      have hrest : ∀ s ∈ t :: rest, s ≠ [] ∧ '/' ∉ s := fun s hs => h s (List.mem_cons_of_mem _ hs)
      have hne : Pieces.join '/' (t :: rest) ≠ [] := by
        intro hnil
        have hsplit := Pieces.split_join (List.cons_ne_nil t rest) fun s hs => (hrest s hs).2
        rw [hnil] at hsplit
        exact (hrest t List.mem_cons_self).1 (List.cons.inj hsplit).1.symm
      rw [join_cons s (List.cons_ne_nil t rest), List.getLast?_append_of_ne_nil _ (by simp),
        List.getLast?_append_of_ne_nil _ hne]
      exact ih hrest

theorem tidy_join_pieces {segments : List Text} (h : ∀ s ∈ segments, s ≠ [] ∧ '/' ∉ s) :
    Tidy (Pieces.join '/' segments) := by
  have hsingle : ∀ s ∈ segments, s.head? ≠ some '/' ∧ s.getLast? ≠ some '/' := fun s hs =>
    ⟨fun hhead => (h s hs).2 (List.mem_of_head? hhead),
      fun hlast => (h s hs).2 (List.mem_of_getLast? hlast)⟩
  induction segments with
  | nil => exact ⟨by simp [Pieces.join], slashesApart_of_not_mem (by simp [Pieces.join])⟩
  | cons s rest ih =>
    obtain ⟨hne, hslash⟩ := h s List.mem_cons_self
    obtain ⟨hhead, hlast⟩ := hsingle s List.mem_cons_self
    cases rest with
    | nil =>
      rw [join_singleton]
      exact ⟨hhead, slashesApart_of_not_mem hslash⟩
    | cons t rest =>
      have htail := ih (fun s hs => h s (List.mem_cons_of_mem _ hs))
        fun s hs => hsingle s (List.mem_cons_of_mem _ hs)
      rw [join_cons s (List.cons_ne_nil t rest)]
      constructor
      · rw [List.head?_append_of_ne_nil _ hne]
        exact hhead
      · have hbehind : SlashesApart (['/'] ++ Pieces.join '/' (t :: rest)) :=
          slashesApart_append.mpr ⟨slashesApart_singleton '/', htail.slashesApart,
            fun _ => htail.head_ne⟩
        exact slashesApart_append.mpr ⟨slashesApart_of_not_mem hslash, hbehind,
          fun h => absurd h hlast⟩

theorem ne_nil_of_mem_resolve {segments : List Text} {s : Text} (h : s ∈ resolve segments) :
    s ≠ [] := by
  obtain ⟨names, climbs, heq, hnames⟩ := resolve_isNormal segments
  rw [← List.mem_reverse, heq] at h
  rcases List.mem_append.mp h with h | h
  · exact (hnames s h).1
  · rw [List.eq_of_mem_replicate h]
    decide

theorem tidy_join (dir reference : Text) : Tidy (join dir reference) := by
  have hsegments : ∀ s ∈ resolve (Pieces.split '/' dir ++ Pieces.split '/' (withSlashes reference)),
      s ≠ [] ∧ '/' ∉ s := by
    intro s hs
    refine ⟨ne_nil_of_mem_resolve hs, ?_⟩
    rcases List.mem_append.mp (mem_resolve hs) with h | h
    · exact Pieces.not_mem_of_mem_split h
    · exact Pieces.not_mem_of_mem_split h
  have htidy := tidy_join_pieces hsegments
  have hlast : (Pieces.join '/' (resolve (Pieces.split '/' dir ++
      Pieces.split '/' (withSlashes reference)))).getLast? ≠ some '/' :=
    getLast?_join_pieces hsegments
  rw [join]
  split_ifs with hslash
  · simp only [Bool.and_eq_true, bne_iff_ne] at hslash
    constructor
    · rw [List.head?_append_of_ne_nil _ hslash.2]
      exact htidy.head_ne
    · exact slashesApart_append.mpr ⟨htidy.slashesApart, slashesApart_singleton '/',
        fun h => absurd h hlast⟩
  · exact htidy

end StylesheetBuild.RelativePath
