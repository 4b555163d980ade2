/-
Scanning loses and invents no reference.

`Reference.scan` brings the matches of both patterns in the order of their arguments, and drops
those whose arguments start inside an argument already taken.

* **`mem_disjointFrom_iff`** — where only an argument of `url( )` can start inside another one,
  and only inside one of `@import`, exactly those that do are dropped;
* **`scan_eq_of_perm`** — any order by the starts of arguments leads to the same references;
* **`scan_exact`** — so a scan consists of every match of `@import` and of the matches of `url( )`
  outside of these, with spans that increase and cut the stylesheet between characters.

Design notes: the two forms never start an argument together, so the starts of all matches are
distinct and sorting them leaves no choice.  The selection then needs only two facts on a pair of
matches: of one form they are disjoint, and a `url( )` in front of an `@import` ends there.
-/
import StylesheetBuild.Proofs.Reference.Found
import Mathlib.Data.List.Pairwise

namespace StylesheetBuild.Reference

open Text

/-- An argument ends before a later one starts, or it is one of `@import` and the later one is
one of `url( )`. -/
def Orderly (rs : List Reference) : Prop :=
  ∀ r ∈ rs, ∀ s ∈ rs, r.start < s.start →
    r.finish ≤ s.start ∨ r.form = .importRule ∧ s.form = .url

/-- An argument does not start inside an argument of `@import`, or it is one itself. -/
def Outside (rs : List Reference) (r : Reference) : Prop :=
  r.form = .url → ∀ i ∈ rs, i.form = .importRule → ¬ (i.start ≤ r.start ∧ r.start < i.finish)

theorem outside_cons {s r : Reference} {rest : List Reference} :
    Outside (s :: rest) r ↔
      (r.form = .url → s.form = .importRule → ¬ (s.start ≤ r.start ∧ r.start < s.finish)) ∧
        Outside rest r := by
  constructor
  · intro h
    refine ⟨fun hurl => h hurl s List.mem_cons_self, fun hurl i hi => ?_⟩
    exact h hurl i (List.mem_cons_of_mem s hi)
  · rintro ⟨hs, hrest⟩ hurl i hi
    rcases List.mem_cons.mp hi with rfl | hi
    · exact hs hurl
    · exact hrest hurl i hi

/-- The references that are dropped are the ones inside an argument of `@import`. -/
theorem mem_disjointFrom_iff {rs : List Reference} {limit : Nat} {r : Reference}
    (hsorted : rs.Pairwise fun r s => r.start < s.start) (horderly : Orderly rs)
    (hlimit : ∀ i ∈ rs, i.form = .importRule → limit ≤ i.start) :
    r ∈ disjointFrom limit rs ↔ r ∈ rs ∧ limit ≤ r.start ∧ Outside rs r := by
  induction rs generalizing limit with
  | nil => simp [disjointFrom]
  | cons s rest ih =>
    obtain ⟨hs, hrest⟩ := List.pairwise_cons.mp hsorted
    have horderly' : Orderly rest := fun a ha b hb =>
      horderly a (List.mem_cons_of_mem s ha) b (List.mem_cons_of_mem s hb)
    have hnext : ∀ t ∈ rest, s.finish ≤ t.start ∨ s.form = .importRule ∧ t.form = .url :=
      fun t ht => horderly s List.mem_cons_self t (List.mem_cons_of_mem s ht) (hs t ht)
    by_cases hkeep : limit ≤ s.start
    · -- `s` is taken, and no later `@import` starts inside it
      have hlimit' : ∀ i ∈ rest, i.form = .importRule → s.finish ≤ i.start := by
        intro i hi hform
        rcases hnext i hi with h | ⟨-, h⟩
        · exact h
        · rw [hform] at h
          exact absurd h (by decide)
      rw [disjointFrom, if_pos hkeep, List.mem_cons, List.mem_cons, outside_cons,
        ih hrest horderly' hlimit']
      constructor
      · rintro (rfl | ⟨hr, hstart, hout⟩)
        · refine ⟨.inl rfl, hkeep, fun hurl hform => ?_, fun _ i hi _ => ?_⟩
          · rw [hurl] at hform
            exact absurd hform (by decide)
          · have := hs i hi
            omega
        · have := hs r hr
          refine ⟨.inr hr, ?_, fun _ _ => ?_, hout⟩
          · omega
          · omega
      · rintro ⟨rfl | hr, -, hin, hout⟩
        · exact .inl rfl
        · refine .inr ⟨hr, ?_, hout⟩
          rcases hnext r hr with h | ⟨hform, hurl⟩
          · exact h
          · have hstart := hs r hr
            have := hin hurl hform
            omega
    · -- `s` starts inside what was taken before, so it is no `@import`
      have hform : s.form ≠ .importRule := fun h => hkeep (hlimit s List.mem_cons_self h)
      rw [disjointFrom, if_neg hkeep, List.mem_cons, outside_cons,
        ih hrest horderly' fun i hi => hlimit i (List.mem_cons_of_mem s hi)]
      constructor
      · rintro ⟨hr, hstart, hout⟩
        exact ⟨.inr hr, hstart, fun _ h => absurd h hform, hout⟩
      · rintro ⟨rfl | hr, hstart, -, hout⟩
        · exact absurd hstart hkeep
        · exact ⟨hr, hstart, hout⟩

/-! ### All matches in order -/

/-- The matches of both patterns. -/
def allFound (css : Text) : List Reference :=
  found .url css ++ found .importRule css

theorem mem_allFound {css : Text} {r : Reference} :
    r ∈ allFound css ↔ r ∈ found r.form css := by
  rw [allFound, List.mem_append]
  constructor
  · rintro (h | h) <;> rwa [form_of_mem_found h]
  · intro h
    cases hform : r.form with
    | url => exact .inl (hform ▸ h)
    | importRule => exact .inr (hform ▸ h)

/-- Two arguments do not overlap. -/
def Apart (r s : Reference) : Prop :=
  r.finish ≤ s.start ∨ s.finish ≤ r.start

instance : Std.Symm Apart := ⟨fun _ _ h => h.symm⟩

theorem apart_of_ne {form : Form} {css : Text} {r s : Reference}
    (hr : r ∈ found form css) (hs : s ∈ found form css) (hne : r ≠ s) : Apart r s := by
  have hpairwise : (found form css).Pairwise Apart := (found_pairwise form css).imp .inl
  exact hpairwise.forall hr hs hne

theorem orderly_allFound (css : Text) : Orderly (allFound css) := by
  intro r hr s hs hstart
  rw [mem_allFound] at hr hs
  have hsfin := start_lt_finish hs
  cases hfr : r.form <;> cases hfs : s.form <;> rw [hfr] at hr <;> rw [hfs] at hs
  · rcases apart_of_ne hr hs (by rintro rfl; omega) with h | h <;> omega
  · exact .inl (finish_le_of_start_lt hs hr hstart)
  · exact .inr ⟨rfl, rfl⟩
  · rcases apart_of_ne hr hs (by rintro rfl; omega) with h | h <;> omega

/-- No two matches start an argument together. -/
theorem eq_of_start_eq {css : Text} {r s : Reference} (hr : r ∈ allFound css)
    (hs : s ∈ allFound css) (h : r.start = s.start) : r = s := by
  rw [mem_allFound] at hr hs
  have hrfin := start_lt_finish hr
  have hsfin := start_lt_finish hs
  by_contra hne
  cases hfr : r.form <;> cases hfs : s.form <;> rw [hfr] at hr <;> rw [hfs] at hs
  · rcases apart_of_ne hr hs hne with h | h <;> omega
  · exact start_ne_start hs hr h.symm
  · exact start_ne_start hr hs h
  · rcases apart_of_ne hr hs hne with h | h <;> omega

theorem found_nodup (form : Form) (css : Text) : (found form css).Nodup := by
  refine (found_pairwise form css).imp_of_mem fun hr _ h => ?_
  rintro rfl
  have := start_lt_finish hr
  omega

theorem allFound_nodup (css : Text) : (allFound css).Nodup := by
  refine List.nodup_append.mpr ⟨found_nodup _ css, found_nodup _ css, ?_⟩
  rintro r hr _ hs rfl
  have := (form_of_mem_found hr).symm.trans (form_of_mem_found hs)
  exact absurd this (by decide)

/-- Sorted by the starts of arguments, the starts strictly increase. -/
theorem start_lt_of_sorted {css : Text} {rs : List Reference} (hperm : rs.Perm (allFound css))
    (hsorted : rs.Pairwise fun r s => r.start ≤ s.start) :
    rs.Pairwise fun r s => r.start < s.start := by
  have hnodup : rs.Nodup := hperm.nodup_iff.mpr (allFound_nodup css)
  refine (hsorted.and hnodup).imp_of_mem fun hr hs h => ?_
  refine Nat.lt_of_le_of_ne h.1 fun heq => h.2 ?_
  exact eq_of_start_eq (hperm.mem_iff.mp hr) (hperm.mem_iff.mp hs) heq

/-- There is one way to sort all matches by the starts of their arguments. -/
theorem eq_of_sorted {css : Text} {rs ss : List Reference} (hrs : rs.Perm (allFound css))
    (hss : ss.Perm (allFound css)) (hr : rs.Pairwise fun r s => r.start ≤ s.start)
    (hs : ss.Pairwise fun r s => r.start ≤ s.start) : rs = ss := by
  refine (hrs.trans hss.symm).eq_of_pairwise (fun a b ha hb hab hba => ?_) hr hs
  exact eq_of_start_eq (hrs.mem_iff.mp ha) (hss.mem_iff.mp hb) (Nat.le_antisymm hab hba)

theorem found_sorted (form : Form) (css : Text) :
    (found form css).Pairwise fun r s => r.start ≤ s.start := by
  refine (found_pairwise form css).imp fun {r s} h => ?_
  rw [finish] at h
  omega

/-- The matches of both patterns, merged by the starts of their arguments. -/
def merged (css : Text) : List Reference :=
  (found .url css).merge (found .importRule css) fun r s => r.start ≤ s.start

theorem merged_perm (css : Text) : (merged css).Perm (allFound css) :=
  List.merge_perm_append _

theorem merged_sorted (css : Text) : (merged css).Pairwise fun r s => r.start ≤ s.start := by
  have h := @List.pairwise_merge _ (fun r s : Reference => decide (r.start ≤ s.start))
    (fun a b c hab hbc => by simp only [decide_eq_true_eq] at *; omega)
    (fun a b => by simp only [Bool.or_eq_true, decide_eq_true_eq]; omega)
    (found .url css) (found .importRule css)
    ((found_sorted _ css).imp fun h => by simpa using h)
    ((found_sorted _ css).imp fun h => by simpa using h)
  exact h.imp fun h => by simpa using h

theorem scan_eq_merged (css : Text) : scan css = disjointFrom 0 (merged css) := by
  rw [scan, urls_eq_found, imports_eq_found]
  rfl

/-- Any order by the starts of arguments leads to the same references. -/
theorem scan_eq_of_perm {css : Text} {rs : List Reference} (hperm : rs.Perm (allFound css))
    (hsorted : rs.Pairwise fun r s => r.start ≤ s.start) : disjointFrom 0 rs = scan css := by
  rw [scan_eq_merged, eq_of_sorted hperm (merged_perm css) hsorted (merged_sorted css)]

theorem mem_scan_iff {css : Text} {r : Reference} :
    r ∈ scan css ↔ r ∈ found r.form css ∧ Outside (allFound css) r := by
  have hmem : ∀ {s}, s ∈ merged css ↔ s ∈ allFound css := (merged_perm css).mem_iff
  have horderly : Orderly (merged css) := fun r hr s hs =>
    orderly_allFound css r (hmem.mp hr) s (hmem.mp hs)
  rw [scan_eq_merged, mem_disjointFrom_iff
    (start_lt_of_sorted (merged_perm css) (merged_sorted css)) horderly fun i _ _ => Nat.zero_le _,
    hmem, mem_allFound]
  simp only [Outside, hmem, Nat.zero_le, true_and]

/-! ### Spans -/

theorem byteLength_pos {text : Text} (h : text ≠ []) : 0 < byteLength text := by
  obtain ⟨c, rest, rfl⟩ := List.exists_cons_of_ne_nil h
  have := c.utf8Size_pos
  rw [byteLength_cons]
  omega

theorem byteLength_take_le (text : Text) {m n : Nat} (h : m ≤ n) :
    byteLength (text.take m) ≤ byteLength (text.take n) := by
  obtain ⟨k, rfl⟩ := Nat.exists_eq_add_of_le h
  rw [List.take_add, byteLength_append]
  omega

/-- An argument is the piece of the stylesheet at its span, whose ends lie between characters. -/
theorem byteSpan_of_mem_found {form : Form} {css : Text} {r : Reference}
    (h : r ∈ found form css) :
    ∃ before after, css = before ++ r.argument ++ after ∧
      r.byteSpan css = (byteLength before, byteLength (before ++ r.argument)) := by
  obtain ⟨before, after, rfl, hstart⟩ := argument_eq_slice h
  have hfinish : r.finish = (before ++ r.argument).length := by
    rw [finish, ← hstart, List.length_append]
  refine ⟨before, after, rfl, ?_⟩
  rw [byteSpan, hfinish, ← hstart, List.take_left, List.append_assoc, List.take_left]

/-- **A scan is exact.**  Its spans increase, are not empty and cut the stylesheet between
characters into the arguments.  It consists of all matches of `@import` and of those matches of
`url( )` whose arguments do not start inside an argument of `@import`.  An argument of the one form
and one of the other never start together, and one of `url( )` that starts first does not reach
into one of `@import`; so every order of the matches by their starts gives the same scan. -/
theorem scan_exact (css : Text) :
    ((scan css).Pairwise fun r s => (r.byteSpan css).2 ≤ (s.byteSpan css).1) ∧
    (∀ r ∈ scan css, (r.byteSpan css).1 < (r.byteSpan css).2 ∧
      ∃ before after, css = before ++ r.argument ++ after ∧
        r.byteSpan css = (byteLength before, byteLength (before ++ r.argument))) ∧
    (∀ i ∈ found .importRule css, i ∈ scan css) ∧
    (∀ u ∈ found .url css, u ∈ scan css ↔
      ∀ i ∈ found .importRule css, ¬ (i.start ≤ u.start ∧ u.start < i.finish)) ∧
    (∀ r ∈ scan css, r ∈ found .importRule css ∨ r ∈ found .url css) ∧
    (∀ i ∈ found .importRule css, ∀ u ∈ found .url css,
      i.start ≠ u.start ∧ (u.start < i.start → u.finish ≤ i.start)) ∧
    (∀ rs : List Reference, rs.Perm (found .url css ++ found .importRule css) →
      (rs.Pairwise fun r s => r.start ≤ s.start) → disjointFrom 0 rs = scan css) := by
  refine ⟨?_, ?_, ?_, ?_, ?_, ?_, ?_⟩
  · refine (scan_disjoint css).imp fun {r s} h => ?_
    exact byteLength_take_le css h
  · intro r hr
    obtain ⟨hfound, -⟩ := mem_scan_iff.mp hr
    obtain ⟨before, after, hcss, hspan⟩ := byteSpan_of_mem_found hfound
    refine ⟨?_, before, after, hcss, hspan⟩
    have := byteLength_pos (argument_of_mem_found hfound).1
    rw [hspan, byteLength_append]
    show byteLength before < byteLength before + byteLength r.argument
    omega
  · intro i hi
    have hform := form_of_mem_found hi
    refine mem_scan_iff.mpr ⟨hform ▸ hi, fun hurl => ?_⟩
    rw [hform] at hurl
    exact absurd hurl (by decide)
  · intro u hu
    have hform := form_of_mem_found hu
    rw [mem_scan_iff, hform]
    constructor
    · rintro ⟨-, hout⟩ i hi
      have hi' := form_of_mem_found hi
      exact hout hform i (mem_allFound.mpr (hi'.symm ▸ hi)) hi'
    · intro hout
      refine ⟨hu, fun _ i hi hi' => hout i ?_⟩
      rw [mem_allFound, hi'] at hi
      exact hi
  · intro r hr
    obtain ⟨hfound, -⟩ := mem_scan_iff.mp hr
    cases hform : r.form with
    | url => exact .inr (hform ▸ hfound)
    | importRule => exact .inl (hform ▸ hfound)
  · intro i hi u hu
    exact ⟨start_ne_start hi hu, finish_le_of_start_lt hi hu⟩
  · intro rs hperm hsorted
    exact scan_eq_of_perm hperm hsorted

/-- In `@import "url(a)";url(b)` the first `url( )` is inside the argument of `@import`. -/
theorem scan_exact_nested :
    let css := "@import \"url(a)\";url(b)".toList
    let rule : Reference := ⟨.importRule, "url(a)".toList, 9⟩
    let inner : Reference := ⟨.url, ['a'], 13⟩
    let outer : Reference := ⟨.url, ['b'], 21⟩
    rule ∈ found .importRule css ∧ inner ∈ found .url css ∧ outer ∈ found .url css ∧
      rule ∈ scan css ∧ inner ∉ scan css ∧ outer ∈ scan css := by
  intro css rule inner outer
  have hrule : rule ∈ found .importRule css := by decide +kernel
  have hinner : inner ∈ found .url css := by decide +kernel
  have houter : outer ∈ found .url css := by decide +kernel
  have hrules : ∀ i ∈ found .importRule css, i = rule := by decide +kernel
  obtain ⟨-, -, himport, hurl, -, -, -⟩ := scan_exact css
  refine ⟨hrule, hinner, houter, himport rule hrule, fun hmem => ?_, (hurl outer houter).mpr ?_⟩
  · exact (hurl inner hinner).mp hmem rule hrule (by decide)
  · intro i hi
    rw [hrules i hi]
    decide

end StylesheetBuild.Reference
