/-
References in a stylesheet, in the order of their arguments.

The forms `url( … )` and `@import "…"` are looked for apart, each from left to right.  Of
references whose arguments overlap, the one whose argument starts first is kept.

* **`scan_disjoint`**: each argument ends before the next one starts.
* **`byteSpans_scan`**: one pass finds the byte offsets of all arguments.
-/
import StylesheetBuild.Reference.Url
import StylesheetBuild.Reference.ImportRule

namespace StylesheetBuild

/-- The form in which a stylesheet refers to a resource. -/
inductive Reference.Form where
  -- `url( … )`, with or without quotes
  | url
  | importRule
deriving Repr, DecidableEq

/-- One reference to a resource in the text of a stylesheet. -/
structure Reference where
  form : Reference.Form
  argument : Text
  -- the number of characters in front of the argument
  start : Nat
deriving Repr, DecidableEq

namespace Reference

/-- The number of characters in front of the end of the argument. -/
def finish (r : Reference) : Nat :=
  r.start + r.argument.length

/-- The byte offsets of the argument's start and end in `css`. -/
def byteSpan (css : Text) (r : Reference) : Nat × Nat :=
  (Text.byteLength (css.take r.start), Text.byteLength (css.take r.finish))

/-- The byte offsets of arguments that follow one another, where `css` is the text from the
character at `position` on, and `offset` the number of bytes in front of it. -/
def byteSpansFrom (position offset : Nat) (css : Text) : List Reference → List (Nat × Nat)
  | [] => []
  | r :: rest =>
    let start := offset + Text.byteLength (css.take (r.start - position))
    let finish := offset + Text.byteLength (css.take (r.finish - position))
    (start, finish) :: byteSpansFrom r.finish finish (css.drop (r.finish - position)) rest

/-- The byte offsets of arguments that follow one another in `css`, found in one pass. -/
def byteSpans (css : Text) (rs : List Reference) : List (Nat × Nat) :=
  byteSpansFrom 0 0 css rs

/-- The reference made of a finding at a position. -/
def ofFinding (form : Form) (found : Nat × Enclosed) : Reference :=
  ⟨form, found.2.argument, found.1 + found.2.before.length⟩

/-- The references `url( … )` in `css`. -/
def urls (css : Text) : List Reference :=
  (Text.occurrences Url.recognise css).map (ofFinding .url)

def imports (css : Text) : List Reference :=
  (Text.occurrences ImportRule.recognise css).map (ofFinding .importRule)

/-- The references of a list whose arguments start no earlier than `limit` and than the end of
the last argument kept. -/
def disjointFrom (limit : Nat) : List Reference → List Reference
  | [] => []
  | r :: rest =>
    if limit ≤ r.start then r :: disjointFrom r.finish rest else disjointFrom limit rest

/-- All references in `css`, in the order of their arguments. -/
def scan (css : Text) : List Reference :=
  disjointFrom 0 ((urls css).merge (imports css) fun r s => r.start ≤ s.start)

/-- Without imports only the references in `url( )` are selected from. -/
theorem scan_of_imports_eq_nil {css : Text} (h : imports css = []) :
    scan css = disjointFrom 0 (urls css) := by
  rw [scan, h, List.merge_right]

theorem scan_of_urls_eq_nil {css : Text} (h : urls css = []) :
    scan css = disjointFrom 0 (imports css) := by
  rw [scan, h, List.nil_merge]

/-! ### The arguments do not overlap -/

theorem start_of_mem_disjointFrom {limit : Nat} {rs : List Reference} {r : Reference}
    (h : r ∈ disjointFrom limit rs) : limit ≤ r.start := by
  induction rs generalizing limit with
  | nil => simp [disjointFrom] at h
  | cons s rest ih =>
    by_cases hs : limit ≤ s.start
    · simp only [disjointFrom, hs, if_true, List.mem_cons] at h
      rcases h with rfl | h
      · exact hs
      · have : s.finish ≤ r.start := ih h
        simp only [finish] at this
        omega
    · simp only [disjointFrom, hs, if_false] at h
      exact ih h

theorem disjointFrom_pairwise (limit : Nat) (rs : List Reference) :
    (disjointFrom limit rs).Pairwise fun r s => r.finish ≤ s.start := by
  induction rs generalizing limit with
  | nil => simp [disjointFrom]
  | cons r rest ih =>
    by_cases hr : limit ≤ r.start
    · simp only [disjointFrom, hr, if_true, List.pairwise_cons]
      exact ⟨fun s hs => start_of_mem_disjointFrom hs, ih _⟩
    · simpa only [disjointFrom, hr, if_false] using ih limit

/-- Each argument ends before the next one starts. -/
theorem scan_disjoint (css : Text) : (scan css).Pairwise fun r s => r.finish ≤ s.start :=
  disjointFrom_pairwise 0 _

/-! ### Byte offsets -/

theorem byteLength_take_drop (css : Text) {position count : Nat} (h : position ≤ count) :
    Text.byteLength (css.take position) +
        Text.byteLength ((css.drop position).take (count - position)) =
      Text.byteLength (css.take count) := by
  rw [← Text.byteLength_append, ← List.take_add, Nat.add_sub_cancel' h]

theorem byteSpansFrom_eq (css : Text) {rs : List Reference} {position : Nat}
    (hrs : rs.Pairwise fun r s => r.finish ≤ s.start) (hstart : ∀ r ∈ rs, position ≤ r.start) :
    byteSpansFrom position (Text.byteLength (css.take position)) (css.drop position) rs =
      rs.map (byteSpan css) := by
  induction rs generalizing position with
  | nil => rfl
  | cons r rest ih =>
    have hr : position ≤ r.start := hstart r (by simp)
    have hfinish : position ≤ r.finish := Nat.le_trans hr (Nat.le_add_right _ _)
    have hdrop : (css.drop position).drop (r.finish - position) = css.drop r.finish := by
      rw [List.drop_drop, Nat.add_sub_cancel' hfinish]
    rw [List.pairwise_cons] at hrs
    simp only [byteSpansFrom, List.map_cons, byteSpan, byteLength_take_drop css hr,
      byteLength_take_drop css hfinish, hdrop]
    rw [ih hrs.2 hrs.1]

/-- One pass finds the byte offsets of all arguments. -/
theorem byteSpans_scan (css : Text) : byteSpans css (scan css) = (scan css).map (byteSpan css) := by
  simpa [byteSpans] using
    byteSpansFrom_eq css (scan_disjoint css) fun r _ => Nat.zero_le r.start

end Reference

end StylesheetBuild
