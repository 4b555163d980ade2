/-
Scanning a stylesheet in two parts.

Two texts are parted if no match begins in the first one and ends in the second one.

* **`Parted.ways_append`** — then the second text does not matter to what is matched in the first;
* **`found_append`** — the matches of a form are those in the first text and those in the second;
* **`scan_append`** — and so are the references, those in the second text shifted by the length of
  the first.

Design notes: which references are kept is decided on all matches in the order of their arguments.
The matches in both texts one after the other are in that order, so `scan_eq_of_perm` leaves only
the selection to be cut in two.
-/
import StylesheetBuild.Proofs.Reference.Locality
import StylesheetBuild.Proofs.Reference.Shape
import StylesheetBuild.Proofs.Reference.Spans
import Mathlib.Data.List.Infix

namespace StylesheetBuild.Reference

open Text

variable {a b : Text}

/-- A text that the pattern of a form matches as a whole. -/
def Form.Matches (form : Form) (text : Text) : Prop :=
  ∃ e ∈ form.pattern.ways text, e.text = text

instance (form : Form) (text : Text) : Decidable (form.Matches text) :=
  inferInstanceAs (Decidable (∃ e ∈ form.pattern.ways text, e.text = text))

/-- No match begins in the first text and ends in the second one, be it at its very end. -/
def Parted (a b : Text) : Prop :=
  ∀ (form : Form) (s t : Text), s <:+ a → t <+: b → s ≠ [] → t ≠ [] → ¬ form.Matches (s ++ t)

theorem parted_iff : Parted a b ↔ ∀ s ∈ a.tails, ∀ t ∈ b.inits, s ≠ [] → t ≠ [] →
    ¬ Form.url.Matches (s ++ t) ∧ ¬ Form.importRule.Matches (s ++ t) := by
  simp only [List.mem_tails, List.mem_inits]
  constructor
  · intro h s hs t ht hsne htne
    exact ⟨h .url s t hs ht hsne htne, h .importRule s t hs ht hsne htne⟩
  · intro h form s t hs ht hsne htne
    obtain ⟨hurl, himport⟩ := h s hs t ht hsne htne
    cases form with
    | url => exact hurl
    | importRule => exact himport

instance : Decidable (Parted a b) :=
  decidable_of_iff _ parted_iff.symm

/-! ### The matches of a form -/

theorem Parted.ways_append (h : Parted a b) (form : Form) {v : Text} (hne : v ≠ [])
    (hv : v <:+ a) : form.pattern.ways (v ++ b) = form.pattern.ways v := by
  refine Pattern.ways_append_of_length_le fun e he => ?_
  obtain ⟨hmatch, hfront⟩ := Form.mem_ways_iff.mp he
  by_contra hlong
  -- what reaches beyond `v` ends in `b`
  obtain ⟨t, ht⟩ := List.prefix_of_prefix_length_le (List.prefix_append v b) hfront (by omega)
  have htne : t ≠ [] := by
    rintro rfl
    rw [List.append_nil] at ht
    rw [ht] at hlong
    omega
  have htb : t <+: b := by
    rw [← ht] at hfront
    exact (List.prefix_append_right_inj v).mp hfront
  have hwhole : e ∈ form.pattern.ways (v ++ t) :=
    Form.mem_ways_iff.mpr ⟨hmatch, ht ▸ List.prefix_refl _⟩
  exact h form v t hv htb hne htne ⟨e, hwhole, ht.symm⟩

/-- The reference in a text with `n` more characters in front. -/
def shift (n : Nat) (r : Reference) : Reference :=
  { r with start := r.start + n }

@[simp] theorem argument_shift (n : Nat) (r : Reference) : (r.shift n).argument = r.argument := rfl

@[simp] theorem start_shift (n : Nat) (r : Reference) : (r.shift n).start = r.start + n := rfl

@[simp] theorem finish_shift (n : Nat) (r : Reference) : (r.shift n).finish = r.finish + n := by
  rw [finish, finish, start_shift, argument_shift]
  omega

theorem found_append (h : Parted a b) (form : Form) :
    found form (a ++ b) = found form a ++ (found form b).map (shift a.length) := by
  have hlength : ∀ {text : Text} {e : Enclosed} {length : Nat},
      (form.pattern.match? text).map Enclosed.finding = some (e, length) →
        length ≤ text.length := by
    intro text e length hfinding
    obtain ⟨hways, rfl⟩ := exists_of_finding hfinding
    exact (Form.mem_ways_iff.mp hways).2.length_le
  have hlocal : ∀ v, v ≠ [] → v <:+ a →
      (form.pattern.match? (v ++ b)).map Enclosed.finding =
        (form.pattern.match? v).map Enclosed.finding := by
    intro v hne hv
    rw [Pattern.match?, Pattern.match?, h.ways_append form hne hv]
  rw [found, occurrences, occurrencesFrom_append_of_local hlength hlocal (Nat.zero_le _),
    occurrences_shift, List.map_append, List.map_map]
  congr 1
  rw [found, occurrences, List.map_map]
  refine List.map_congr_left fun o _ => ?_
  show (⟨form, o.2.argument, o.1 + a.length + o.2.before.length⟩ : Reference) =
    ⟨form, o.2.argument, o.1 + o.2.before.length + a.length⟩
  rw [Nat.add_right_comm]

/-! ### The selection -/

theorem disjointFrom_shift (n limit : Nat) (rs : List Reference) :
    disjointFrom (limit + n) (rs.map (shift n)) = (disjointFrom limit rs).map (shift n) := by
  induction rs generalizing limit with
  | nil => rfl
  | cons r rest ih =>
    have hiff : limit + n ≤ (r.shift n).start ↔ limit ≤ r.start := Nat.add_le_add_iff_right
    by_cases hr : limit ≤ r.start
    · rw [List.map_cons, disjointFrom, disjointFrom, if_pos hr, if_pos (hiff.mpr hr), finish_shift,
        ih, List.map_cons]
    · rw [List.map_cons, disjointFrom, disjointFrom, if_neg hr, if_neg (mt hiff.mp hr), ih]

/-- Of references on both sides of a position the ones in front do not keep the ones behind from
being taken. -/
theorem disjointFrom_append {rs ss : List Reference} {n limit : Nat} (hlimit : limit ≤ n)
    (hrs : ∀ r ∈ rs, r.finish ≤ n) (hss : ∀ s ∈ ss, n ≤ s.start) :
    disjointFrom limit (rs ++ ss) = disjointFrom limit rs ++ disjointFrom n ss := by
  induction rs generalizing limit with
  | nil =>
    cases ss with
    | nil => rfl
    | cons s ss =>
      have hs := hss s List.mem_cons_self
      rw [List.nil_append, disjointFrom, disjointFrom, disjointFrom, if_pos hs,
        if_pos (Nat.le_trans hlimit hs)]
      rfl
  | cons r rest ih =>
    have hrest : ∀ r ∈ rest, r.finish ≤ n := fun s hs => hrs s (List.mem_cons_of_mem r hs)
    by_cases hr : limit ≤ r.start
    · rw [List.cons_append, disjointFrom, disjointFrom, if_pos hr, if_pos hr,
        ih (hrs r List.mem_cons_self) hrest]
      rfl
    · rw [List.cons_append, disjointFrom, disjointFrom, if_neg hr, if_neg hr, ih hlimit hrest]

theorem finish_le_length {form : Form} {css : Text} {r : Reference} (h : r ∈ found form css) :
    r.finish ≤ css.length := by
  obtain ⟨before, after, rfl, hstart⟩ := argument_eq_slice h
  rw [finish, ← hstart, List.length_append, List.length_append]
  omega

theorem finish_le_length_of_mem_merged {css : Text} {r : Reference} (h : r ∈ merged css) :
    r.finish ≤ css.length :=
  finish_le_length (mem_allFound.mp ((merged_perm css).mem_iff.mp h))

/-- The matches in both texts, sorted by the starts of their arguments. -/
theorem merged_append_perm (h : Parted a b) :
    (merged a ++ (merged b).map (shift a.length)).Perm (allFound (a ++ b)) := by
  have hperm : (merged a ++ (merged b).map (shift a.length)).Perm
      (allFound a ++ (allFound b).map (shift a.length)) :=
    (merged_perm a).append ((merged_perm b).map _)
  refine hperm.trans ?_
  rw [allFound, allFound, allFound, found_append h, found_append h, List.map_append]
  -- the matches of `@import` in `a` change places with those of `url( )` in `b`
  rw [List.append_assoc, List.append_assoc]
  refine List.Perm.append_left _ ?_
  rw [← List.append_assoc, ← List.append_assoc]
  exact List.perm_append_comm.append_right _

/-- **Scanning distributes over concatenation.** -/
theorem scan_append (h : Parted a b) :
    scan (a ++ b) = scan a ++ (scan b).map (shift a.length) := by
  have hfront : ∀ r ∈ merged a, r.finish ≤ a.length := fun r hr =>
    finish_le_length_of_mem_merged hr
  have hback : ∀ s ∈ (merged b).map (shift a.length), a.length ≤ s.start := by
    intro s hs
    obtain ⟨r, -, rfl⟩ := List.mem_map.mp hs
    exact Nat.le_add_left _ _
  have hsorted : (merged a ++ (merged b).map (shift a.length)).Pairwise
      fun r s => r.start ≤ s.start := by
    refine List.pairwise_append.mpr ⟨merged_sorted a, ?_, fun r hr s hs => ?_⟩
    · exact List.pairwise_map.mpr ((merged_sorted b).imp fun hle => Nat.add_le_add_right hle _)
    · have hr' := hfront r hr
      have hs' := hback s hs
      rw [finish] at hr'
      omega
  have hshift := disjointFrom_shift a.length 0 (merged b)
  rw [Nat.zero_add] at hshift
  rw [← scan_eq_of_perm (merged_append_perm h) hsorted,
    disjointFrom_append (Nat.zero_le _) hfront hback, hshift, ← scan_eq_merged, ← scan_eq_merged]

/-! ### Spans -/

theorem byteSpan_append_of_mem_scan {r : Reference} (h : r ∈ scan a) :
    r.byteSpan (a ++ b) = r.byteSpan a := by
  have hfinish := finish_le_length (mem_scan_iff.mp h).1
  have hstart : r.start ≤ a.length := Nat.le_trans (Nat.le_add_right _ _) hfinish
  rw [byteSpan, byteSpan, List.take_append_of_le_length hstart,
    List.take_append_of_le_length hfinish]

theorem byteSpan_append_shift (a b : Text) (r : Reference) :
    (r.shift a.length).byteSpan (a ++ b) =
      (byteLength a + (r.byteSpan b).1, byteLength a + (r.byteSpan b).2) := by
  rw [byteSpan, byteSpan, start_shift, finish_shift, Nat.add_comm r.start,
    Nat.add_comm r.finish, List.take_length_add_append, List.take_length_add_append,
    byteLength_append, byteLength_append]

end StylesheetBuild.Reference
