/-
Runs of characters of a class.

* **`takeWhile_append_of_stops`**, **`dropWhile_append_of_stops`** — a run ends where the text
  behind it begins with a character of another class;
* **`eq_of_first`**, **`eq_of_last`** — a text is cut in one way at its first character of a class,
  and in one way at its last;
* **`prefix_of_prefix_append`**, **`infix_append_cons_iff`** — a part without characters of a class
  ends in front of the first one, or is behind it;
* **`isBlank_of_isAlphanum`** — no letter and no digit is blank.
-/
import Mathlib.Data.List.TakeWhile
import StylesheetBuild.Text.Alphanumeric
import StylesheetBuild.Text.Blank

namespace StylesheetBuild.Text

variable {p : Char → Bool} {run rest : Text}

/-- A text does not begin with a character of the class. -/
def Stops (p : Char → Bool) (text : Text) : Prop :=
  ∀ c, text.head? = some c → p c = false

theorem stops_cons {c : Char} : Stops p (c :: rest) ↔ p c = false := by
  simp [Stops]

/-- What is left behind a run. -/
theorem stops_dropWhile (p : Char → Bool) (text : Text) : Stops p (text.dropWhile p) := by
  intro c hc
  have := List.head?_dropWhile_not p text
  rw [hc] at this
  simpa using this

theorem of_dropWhile_eq_cons {text : Text} {c : Char} (h : text.dropWhile p = c :: rest) :
    p c = false :=
  stops_cons.mp (h ▸ stops_dropWhile p text)

theorem takeWhile_append_of_stops (hrun : ∀ c ∈ run, p c) (hrest : Stops p rest) :
    (run ++ rest).takeWhile p = run := by
  rw [List.takeWhile_append_of_pos hrun]
  cases rest with
  | nil => simp
  | cons c rest => simp [stops_cons.mp hrest]

theorem dropWhile_append_of_stops (hrun : ∀ c ∈ run, p c) (hrest : Stops p rest) :
    (run ++ rest).dropWhile p = rest := by
  rw [List.dropWhile_append_of_pos hrun]
  cases rest with
  | nil => rfl
  | cons c rest => simp [stops_cons.mp hrest]

/-- A text is cut in one way at its first character of a class. -/
theorem eq_of_first {u v x y : Text} {c d : Char} (hu : ∀ e ∈ u, p e = false)
    (hv : ∀ e ∈ v, p e = false) (hc : p c) (hd : p d) (h : u ++ c :: x = v ++ d :: y) :
    u = v ∧ c = d ∧ x = y := by
  have hu' : ∀ e ∈ u, !p e := fun e he => by simp [hu e he]
  have hv' : ∀ e ∈ v, !p e := fun e he => by simp [hv e he]
  have hc' : Stops (!p ·) (c :: x) := stops_cons.mpr (by simp [hc])
  have hd' : Stops (!p ·) (d :: y) := stops_cons.mpr (by simp [hd])
  have htake := congrArg (List.takeWhile (!p ·)) h
  rw [takeWhile_append_of_stops hu' hc', takeWhile_append_of_stops hv' hd'] at htake
  subst htake
  exact ⟨rfl, List.cons.inj (List.append_cancel_left h)⟩

/-- A text is cut in one way at its last character of a class. -/
theorem eq_of_last {u v x y : Text} {c d : Char} (hu : ∀ e ∈ u, p e = false)
    (hv : ∀ e ∈ v, p e = false) (hc : p c) (hd : p d) (h : x ++ c :: u = y ++ d :: v) :
    x = y ∧ c = d ∧ u = v := by
  have hreverse : u.reverse ++ c :: x.reverse = v.reverse ++ d :: y.reverse := by
    simpa using congrArg List.reverse h
  obtain ⟨huv, hcd, hxy⟩ := eq_of_first (fun e he => hu e (List.mem_reverse.mp he))
    (fun e he => hv e (List.mem_reverse.mp he)) hc hd hreverse
  exact ⟨List.reverse_inj.mp hxy, hcd, List.reverse_inj.mp huv⟩

/-- A text without a character is not cut at one. -/
theorem ne_append_cons_of_not_mem {text : Text} {c : Char} (h : c ∉ text) (s t : Text) :
    text ≠ s ++ c :: t := by
  rintro rfl
  exact h (List.mem_append_right s List.mem_cons_self)

theorem beq_false_of_not_mem {text : Text} {c : Char} (h : c ∉ text) :
    ∀ e ∈ text, (e == c) = false := by
  intro e he
  rw [beq_eq_false_iff_ne]
  rintro rfl
  exact h he

/-- A text is cut in one way at the first place of a character. -/
theorem eq_of_first_char {u v x y : Text} {c : Char} (hu : c ∉ u) (hv : c ∉ v)
    (h : u ++ c :: x = v ++ c :: y) : u = v ∧ x = y := by
  obtain ⟨huv, -, hxy⟩ := eq_of_first (p := (· == c)) (beq_false_of_not_mem hu)
    (beq_false_of_not_mem hv) (beq_self_eq_true c) (beq_self_eq_true c) h
  exact ⟨huv, hxy⟩

/-- A part without characters of a class ends in front of the first one. -/
theorem prefix_of_prefix_append {lead : Text} (hlead : ∀ c ∈ lead, p c = false)
    (hrest : ∀ c, rest.head? = some c → p c) (h : lead <+: run ++ rest) : lead <+: run := by
  rcases List.prefix_or_prefix_of_prefix h (List.prefix_append run rest) with h | ⟨more, rfl⟩
  · exact h
  · rw [List.prefix_append_right_inj] at h
    cases more with
    | nil => simp
    | cons c more =>
      obtain ⟨tail, rfl⟩ := h
      have hc := hrest c rfl
      rw [hlead c (List.mem_append_right run List.mem_cons_self)] at hc
      exact absurd hc (by decide)

/-- A part without a character is on one side of it. -/
theorem infix_append_cons_iff {part s t : Text} {c : Char} (hc : c ∉ part) :
    part <:+: s ++ c :: t ↔ part <:+: s ∨ part <:+: t := by
  constructor
  · intro h
    induction s with
    | nil =>
      rcases List.infix_cons_iff.mp h with h | h
      · cases part with
        | nil => exact .inl List.infix_rfl
        | cons d part =>
          obtain rfl : d = c := (List.cons_prefix_cons.mp h).1
          exact absurd List.mem_cons_self hc
      · exact .inr h
    | cons d s ih =>
      rcases List.infix_cons_iff.mp h with h | h
      · have hfirst : ∀ e, (c :: t).head? = some e → e == c := fun e he => by
          rw [← Option.some_inj.mp he, beq_self_eq_true]
        have hprefix : part <+: d :: s ++ c :: t := h
        exact .inl (prefix_of_prefix_append (beq_false_of_not_mem hc) hfirst hprefix).isInfix
      · exact (ih h).imp_left fun h => h.trans (List.suffix_cons d s).isInfix
  · rintro (h | h)
    · exact h.trans (List.prefix_append s (c :: t)).isInfix
    · exact h.trans ((List.suffix_cons c t).trans (List.suffix_append s (c :: t))).isInfix

/-- And it is behind those that a text begins with. -/
theorem infix_dropWhile_iff {part text : Text} {c : Char} (hne : part ≠ []) (hc : c ∉ part) :
    part <:+: text.dropWhile (· == c) ↔ part <:+: text := by
  induction text with
  | nil => rfl
  | cons d text ih =>
    by_cases hd : d = c
    · subst hd
      have hfirst : part <:+: d :: text ↔ part <:+: [] ∨ part <:+: text :=
        infix_append_cons_iff (s := []) hc
      rw [List.dropWhile_cons_of_pos (by simp), ih, hfirst, List.infix_nil]
      exact (or_iff_right hne).symm
    · rw [List.dropWhile_cons_of_neg (by simpa using hd)]

/-! ### Classes -/

theorem isBlank_of_isAlphanum {c : Char} (h : c.isAlphanum) : isBlank c = false := by
  have hbounds := toNat_of_isAlphanum h
  rw [Bool.eq_false_iff]
  intro hblank
  simp [isBlank, blankRanges] at hblank
  omega

theorem isBlank_of_isWordChar {c : Char} (h : isWordChar c) : isBlank c = false := by
  simp only [isWordChar, Bool.or_eq_true, decide_eq_true_eq] at h
  rcases h with h | rfl
  · exact isBlank_of_isAlphanum h
  · decide

end StylesheetBuild.Text
