/-
Patterns look no further than they match.

A search may try many ways, and in a longer text it may try more of them.  It is local if those
that stay in the front of the longer text are just the ones of the front alone, in the same order.

* **`Local.bind`** — one local search after another is local;
* **`Piece.local_ways`**, **`Pattern.local_splits`** — every piece is, and so is every pattern;
* **`Pattern.ways_append_of_length_le`** — so a pattern that does not reach beyond the front of a
  text matches it in the same ways as the front alone.
-/
import StylesheetBuild.Proofs.Reference.Pattern

namespace StylesheetBuild

open Text

/-! ### Searches that look no further than they have to -/

/-- The ways to match a text with what is left behind it.  In the front of a longer text they are
just those of the longer text that do not reach beyond it, in the same order. -/
structure Local {β : Type} (ways : Text → List (β × Text)) : Prop where
  length_le : ∀ {text w}, w ∈ ways text → w.2.length ≤ text.length
  filter_append : ∀ s t, (ways (s ++ t)).filter (fun w => t.length ≤ w.2.length) =
    (ways s).map fun w => (w.1, w.2 ++ t)

namespace Local

variable {β γ : Type}

theorem pure (b : β) : Local fun text => [(b, text)] where
  length_le h := by simp_all
  filter_append s t := by simp

theorem map {ways : Text → List (β × Text)} (h : Local ways) (f : β → γ) :
    Local fun text => (ways text).map fun w => (f w.1, w.2) where
  length_le hw := by
    obtain ⟨v, hv, rfl⟩ := List.mem_map.mp hw
    exact h.length_le hv
  filter_append s t := by
    have hfilter := congrArg (List.map fun w : β × Text => (f w.1, w.2)) (h.filter_append s t)
    rw [List.filter_map]
    simpa [Function.comp_def] using hfilter

/-- One search after another. -/
theorem bind {first : Text → List (β × Text)} {second : β → Text → List (γ × Text)}
    (hfirst : Local first) (hsecond : ∀ b, Local (second b)) :
    Local fun text => (first text).flatMap fun w => second w.1 w.2 where
  length_le hw := by
    obtain ⟨v, hv, hw⟩ := List.mem_flatMap.mp hw
    exact Nat.le_trans ((hsecond v.1).length_le hw) (hfirst.length_le hv)
  filter_append s t := by
    -- a first way that reaches beyond the front leaves nothing for the second
    have hdrop : ∀ ws : List (β × Text),
        (ws.flatMap fun w => (second w.1 w.2).filter fun v => t.length ≤ v.2.length) =
          (ws.filter fun w => t.length ≤ w.2.length).flatMap fun w =>
            (second w.1 w.2).filter fun v => t.length ≤ v.2.length := by
      intro ws
      induction ws with
      | nil => rfl
      | cons w ws ih =>
        by_cases hw : t.length ≤ w.2.length
        · rw [List.filter_cons_of_pos (by simpa using hw), List.flatMap_cons, List.flatMap_cons, ih]
        · have hnil : (second w.1 w.2).filter (fun v => t.length ≤ v.2.length) = [] := by
            refine List.filter_eq_nil_iff.mpr fun v hv => ?_
            have := (hsecond w.1).length_le hv
            simp only [decide_eq_true_eq]
            omega
          rw [List.filter_cons_of_neg (by simpa using hw), List.flatMap_cons, hnil, ih]
          rfl
    rw [List.filter_flatMap, hdrop, hfirst.filter_append, List.flatMap_map, List.map_flatMap]
    simp only [(hsecond _).filter_append]

theorem filter {ways : Text → List (β × Text)} (h : Local ways) (p : β → Bool) :
    Local fun text => (ways text).filter fun w => p w.1 where
  length_le hw := h.length_le (List.mem_of_mem_filter hw)
  filter_append s t := by
    rw [List.filter_comm, h.filter_append, List.filter_map]
    rfl

theorem reverse {ways : Text → List (β × Text)} (h : Local ways) :
    Local fun text => (ways text).reverse where
  length_le hw := h.length_le (List.mem_reverse.mp hw)
  filter_append s t := by
    rw [List.filter_reverse, h.filter_append, List.map_reverse]

theorem append {ways ways' : Text → List (β × Text)} (h : Local ways) (h' : Local ways') :
    Local fun text => ways text ++ ways' text where
  length_le hw := (List.mem_append.mp hw).elim h.length_le h'.length_le
  filter_append s t := by
    rw [List.filter_append, h.filter_append, h'.filter_append, List.map_append]

end Local

/-! ### Patterns are local -/

namespace Piece

theorem local_first (p : Char → Bool) : Local (first p) where
  length_le h := by
    obtain ⟨htext, -⟩ := mem_first h
    rw [htext, List.length_append]
    omega
  filter_append s t := by
    cases s with
    | cons c s => by_cases hc : p c <;> simp [first, hc]
    | nil =>
      refine List.filter_eq_nil_iff.mpr fun w hw => ?_
      obtain ⟨htext, c, -, hpart⟩ := mem_first hw
      rw [List.nil_append, hpart] at htext
      simp [htext]

/-- Beyond an empty front only the empty part does not reach. -/
theorem filter_runs (p : Char → Bool) (t : Text) :
    (runs p t).filter (fun w => t.length ≤ w.2.length) = [([], t)] := by
  have hnil : ((runs p t).filter (·.1 != [])).filter (fun w => t.length ≤ w.2.length) = [] := by
    refine List.filter_eq_nil_iff.mpr fun w hw => ?_
    obtain ⟨hw, hne⟩ := List.mem_filter.mp hw
    obtain ⟨htext, -⟩ := mem_runs hw
    have hpos := List.length_pos_iff.mpr (by simpa using hne)
    have := congrArg List.length htext
    rw [List.length_append] at this
    simp only [decide_eq_true_eq]
    omega
  rw [runs_eq_filter_append, List.filter_append, hnil]
  simp

theorem local_runs (p : Char → Bool) : Local (runs p) where
  length_le h := by
    obtain ⟨htext, -⟩ := mem_runs h
    rw [htext, List.length_append]
    omega
  filter_append s t := by
    induction s with
    | nil =>
      rw [List.nil_append, filter_runs]
      rfl
    | cons c s ih =>
      by_cases hc : p c
      · have hmap := congrArg (List.map fun w : Text × Text => (c :: w.1, w.2)) ih
        have hwhole : t.length ≤ (c :: (s ++ t)).length := by
          rw [List.length_cons, List.length_append]
          omega
        rw [List.cons_append, runs, runs, if_pos hc, if_pos hc, List.filter_append, List.filter_map,
          List.map_append, List.filter_cons_of_pos (by simpa using hwhole)]
        simpa [Function.comp_def] using hmap
      · have hwhole : t.length ≤ (c :: (s ++ t)).length := by
          rw [List.length_cons, List.length_append]
          omega
        rw [List.cons_append, runs, runs, if_neg hc, if_neg hc,
          List.filter_cons_of_pos (by simpa using hwhole)]
        rfl

theorem local_literal (l : Text) : Local (literal l).ways where
  length_le h := by
    obtain ⟨htext, -⟩ := mem_ways h
    rw [htext, List.length_append]
    omega
  filter_append s t := by
    by_cases hs : l <+: s
    · have hst : l <+: s ++ t := hs.trans (List.prefix_append s t)
      obtain ⟨rest, rfl⟩ := hs
      simp [ways]
    · have hnone : (literal l).ways s = [] := by
        rw [ways, if_neg (mt List.isPrefixOf_iff_prefix.mp hs)]
      rw [hnone, List.map_nil]
      refine List.filter_eq_nil_iff.mpr fun w hw => ?_
      obtain ⟨htext, hpart⟩ := mem_ways hw
      -- the literal would end in `t`, or else `s` would begin with it
      have hlong : ¬ l.length ≤ s.length := fun hle => hs <|
        List.prefix_of_prefix_length_le ⟨w.2, (htext.trans (hpart ▸ rfl)).symm⟩
          (List.prefix_append s t) hle
      have hlength := congrArg List.length htext
      rw [List.length_append, List.length_append, hpart] at hlength
      simp only [decide_eq_true_eq]
      omega

theorem local_ways (piece : Piece) : Local piece.ways := by
  cases piece with
  | literal l => exact local_literal l
  | one p => exact local_first p
  | optional p => exact (local_first p).append (.pure [])
  | many p => exact local_runs p
  | most p => exact (local_runs p).filter (· != [])
  | few p => exact ((local_runs p).filter (· != [])).reverse

theorem local_sequence (pieces : List Piece) : Local (sequence pieces) := by
  induction pieces with
  | nil => exact .pure []
  | cons piece pieces ih => exact (local_ways piece).bind fun part => ih.map (part :: ·)

end Piece

namespace Pattern

/-- The ways in which a pattern matches the beginning of a text, each with the text behind it. -/
def splits (pattern : Pattern) (text : Text) : List (Enclosed × Text) :=
  (Piece.sequence pattern.before text).flatMap fun b =>
    (pattern.argument.ways b.2).flatMap fun a =>
      (Piece.sequence pattern.after a.2).map fun e => (⟨b.1.flatten, a.1, e.1.flatten⟩, e.2)

theorem map_splits (pattern : Pattern) (text : Text) :
    (pattern.splits text).map (·.1) = pattern.ways text := by
  simp only [splits, ways, List.map_flatMap, List.map_map, Function.comp_def]

theorem local_splits (pattern : Pattern) : Local pattern.splits := by
  have hafter (before : List Text) (argument : Text) :
      Local fun text => (Piece.sequence pattern.after text).map fun e =>
        ((⟨before.flatten, argument, e.1.flatten⟩ : Enclosed), e.2) :=
    (Piece.local_sequence pattern.after).map fun after =>
      (⟨before.flatten, argument, after.flatten⟩ : Enclosed)
  exact (Piece.local_sequence pattern.before).bind fun before =>
    (Piece.local_ways pattern.argument).bind fun argument => hafter before argument

theorem mem_splits {pattern : Pattern} {text : Text} {e : Enclosed} {rest : Text}
    (h : (e, rest) ∈ pattern.splits text) : text = e.text ++ rest := by
  simp only [splits, List.mem_flatMap, List.mem_map, Prod.mk.injEq] at h
  obtain ⟨⟨before, rest₁⟩, hbefore, ⟨argument, rest₂⟩, hargument, ⟨after, rest₃⟩, hafter, rfl,
    rfl⟩ := h
  obtain ⟨rfl, -⟩ := Piece.mem_sequence hbefore
  obtain ⟨rfl, -⟩ := Piece.mem_ways hargument
  obtain ⟨rfl, -⟩ := Piece.mem_sequence hafter
  simp [Enclosed.text]

/-- A pattern that does not reach beyond the front of a text matches it as if the front were all. -/
theorem ways_append_of_length_le {pattern : Pattern} {s t : Text}
    (h : ∀ e ∈ pattern.ways (s ++ t), e.text.length ≤ s.length) :
    pattern.ways (s ++ t) = pattern.ways s := by
  have hall : (pattern.splits (s ++ t)).filter (fun w => t.length ≤ w.2.length) =
      pattern.splits (s ++ t) := by
    refine List.filter_eq_self.mpr fun w hw => ?_
    have hlength := congrArg List.length (mem_splits hw)
    have hle := h w.1 (pattern.map_splits _ ▸ List.mem_map_of_mem hw)
    rw [List.length_append, List.length_append] at hlength
    simp only [decide_eq_true_eq]
    omega
  rw [← map_splits, ← map_splits, ← hall, pattern.local_splits.filter_append, List.map_map]
  rfl

end Pattern

end StylesheetBuild
