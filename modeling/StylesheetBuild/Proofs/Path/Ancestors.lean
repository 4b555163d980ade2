/-
The directories above an absolute path.

Going up takes the components of a path away one by one, and ends at the root.

* **`parent?_cases`** — only the root has no directory above it;
* **`upward_induction`** — so what goes down from the root holds for every absolute path;
* **`ancestors_of_parent?`** — the directories above a path are its parent and those above that;
* **`components_ancestors`** — they are the beginnings of the path, the longest first.

Design notes: `ancestors` goes up as many times as the path has bytes.  That it never stops before
the root is `ancestors_of_parent?`, and nothing else depends on that number.
-/
import Mathlib.Data.List.Infix
import StylesheetBuild.Proofs.Path.Directory

namespace StylesheetBuild

theorem Pieces.length_split_le {α : Type} [DecidableEq α] (separator : α) (xs : List α) :
    (split separator xs).length ≤ xs.length + 1 := by
  induction xs with
  | nil => exact Nat.le_refl 1
  | cons a rest ih =>
    rw [split]
    split_ifs
    · exact Nat.succ_le_succ ih
    · rw [List.length_modifyHead]
      exact Nat.le_succ_of_le ih

namespace Path

variable {p above : Path}

/-! ### One directory up -/

theorem isAbsolute_of_parent? (h : p.isAbsolute) (hparent : p.parent? = some above) :
    above.isAbsolute := by
  obtain ⟨body, hbody⟩ := exists_of_isAbsolute h
  rw [parent?, cut_of_isAbsolute hbody] at hparent
  cases hsegments : p.segmentsFromEnd with
  | nil =>
    rw [hsegments] at hparent
    simp at hparent
  | cons last before =>
    rw [hsegments] at hparent
    rw [← Option.some_inj.mp hparent]
    exact isAbsolute_ofParts _

/-- Only the root has no directory above it; all other absolute paths have one component more than
theirs. -/
theorem parent?_cases (h : p.isAbsolute) : (p.parent? = none ∧ p.components = [.root]) ∨
    ∃ above c, p.parent? = some above ∧ above.isAbsolute ∧
      p.components = above.components ++ [c] := by
  obtain ⟨hcomponents, -⟩ := components_parent? h
  rcases List.eq_nil_or_concat p.components with hnil | ⟨front, c, hfront⟩
  · rw [components_of_isAbsolute h] at hnil
    exact absurd hnil (List.cons_ne_nil _ _)
  rw [List.concat_eq_append] at hfront
  rw [hfront, List.dropLast_concat] at hcomponents
  cases hparent : p.parent? with
  | none =>
    rw [hparent] at hcomponents
    obtain rfl : front = [] := hcomponents.symm.trans components_nil
    rw [components_of_isAbsolute h] at hfront
    exact .inl ⟨rfl, (components_of_isAbsolute h).trans
      (congrArg (.root :: ·) (List.cons.inj hfront).2)⟩
  | some above =>
    rw [hparent, Option.getD_some] at hcomponents
    exact .inr ⟨above, c, rfl, isAbsolute_of_parent? h hparent, hcomponents ▸ hfront⟩

/-- What holds for the root and goes down to every directory holds for all absolute paths. -/
@[elab_as_elim]
theorem upward_induction {motive : (p : Path) → p.isAbsolute → Prop}
    (root : ∀ p h, p.components = [.root] → p.parent? = none → motive p h)
    (down : ∀ p above c h habove, p.parent? = some above →
      p.components = above.components ++ [c] → motive above habove → motive p h)
    (p : Path) (h : p.isAbsolute) : motive p h := by
  induction hlength : p.components.length generalizing p with
  | zero =>
    rw [components_of_isAbsolute h] at hlength
    exact absurd hlength (Nat.succ_ne_zero _)
  | succ length ih =>
    rcases parent?_cases h with ⟨hparent, hroot⟩ | ⟨above, c, hparent, habove, hcomponents⟩
    · exact root p h hroot hparent
    · rw [hcomponents, List.length_append, List.length_singleton] at hlength
      exact down p above c h habove hparent hcomponents
        (ih above habove (Nat.succ.inj hlength))

/-! ### All directories above -/

/-- There are no more components than bytes, and one for the root. -/
theorem length_components_le (h : p.isAbsolute) : p.components.length ≤ p.bytes.length + 1 := by
  obtain ⟨body, hbody⟩ := exists_of_isAbsolute h
  have hsegments : p.segments.length ≤ body.length + 1 := by
    rw [segments, cut_of_isAbsolute hbody]
    exact Pieces.length_split_le slash body
  have hkept := List.length_filterMap_le Component.ofSegment? p.segments
  rw [components, cut_of_isAbsolute hbody, hbody, List.length_append, List.length_cons]
  show 1 + _ ≤ _
  omega

theorem ancestorsWithin_of_top (count : Nat) (h : p.parent? = none) :
    ancestorsWithin count p = [p] := by
  cases count with
  | zero => rfl
  | succ count => rw [ancestorsWithin, h]

/-- It makes no difference how often one could go up, as long as it is to the root. -/
theorem ancestorsWithin_eq (h : p.isAbsolute) {count count' : Nat}
    (hcount : p.components.length ≤ count + 1) (hcount' : p.components.length ≤ count' + 1) :
    ancestorsWithin count p = ancestorsWithin count' p := by
  induction p, h using upward_induction generalizing count count' with
  | root p _ _ hparent =>
    rw [ancestorsWithin_of_top count hparent, ancestorsWithin_of_top count' hparent]
  | down p above c _ habove hparent hcomponents ih =>
    have hpos : 0 < above.components.length := by
      rw [components_of_isAbsolute habove]
      exact Nat.succ_pos _
    rw [hcomponents, List.length_append, List.length_singleton] at hcount hcount'
    obtain ⟨count, rfl⟩ := Nat.exists_eq_succ_of_ne_zero (show count ≠ 0 by omega)
    obtain ⟨count', rfl⟩ := Nat.exists_eq_succ_of_ne_zero (show count' ≠ 0 by omega)
    simp only [ancestorsWithin, hparent]
    rw [ih (Nat.le_of_succ_le_succ hcount) (Nat.le_of_succ_le_succ hcount')]

theorem ancestors_of_top (h : p.parent? = none) : p.ancestors = [p] :=
  ancestorsWithin_of_top _ h

/-- Above a path are its directory and what is above that. -/
theorem ancestors_of_parent? (h : p.isAbsolute) (hparent : p.parent? = some above) :
    p.ancestors = p :: above.ancestors := by
  rcases parent?_cases h with ⟨hnone, -⟩ | ⟨above', c, hsome, habove, hcomponents⟩
  · rw [hnone] at hparent
    exact absurd hparent nofun
  obtain rfl : above' = above := Option.some_inj.mp (hsome.symm.trans hparent)
  have hlength := length_components_le h
  rw [ancestors, ancestorsWithin_eq h hlength (Nat.le_succ_of_le hlength), ancestorsWithin, hparent]
  rw [hcomponents, List.length_append, List.length_singleton] at hlength
  exact congrArg (p :: ·) (ancestorsWithin_eq habove (by omega) (length_components_le habove))

theorem isAbsolute_of_mem_ancestors (h : p.isAbsolute) (hmem : above ∈ p.ancestors) :
    above.isAbsolute := by
  induction p, h using upward_induction with
  | root p h _ hparent =>
    rw [ancestors_of_top hparent, List.mem_singleton] at hmem
    exact hmem ▸ h
  | down p above' c h _ hparent _ ih =>
    rw [ancestors_of_parent? h hparent] at hmem
    rcases List.mem_cons.mp hmem with rfl | hmem
    · exact h
    · exact ih hmem

/-- The directories above a path are the beginnings of the path, the longest first. -/
theorem components_ancestors (h : p.isAbsolute) :
    p.ancestors.map components = p.components.inits.tail.reverse := by
  induction p, h using upward_induction with
  | root p _ hroot hparent =>
    rw [ancestors_of_top hparent, hroot]
    exact congrArg ([·]) hroot
  | down p above c h _ hparent hcomponents ih =>
    have hinits : p.components.inits = above.components.inits ++ [p.components] := by
      rw [hcomponents, List.inits_append]
      rfl
    have hne : above.components.inits ≠ [] := List.length_pos_iff.mp (by simp)
    rw [ancestors_of_parent? h hparent, List.map_cons, ih, hinits, List.tail_append_of_ne_nil hne,
      List.reverse_append, List.reverse_singleton, List.singleton_append]

/-- Going up, paths get shorter. -/
theorem ancestors_pairwise (h : p.isAbsolute) : p.ancestors.Pairwise
    fun below above => above.components.length < below.components.length := by
  have hinits : p.components.inits.Pairwise fun s t => s.length < t.length := by
    rw [List.pairwise_iff_getElem]
    intro i j hi hj hij
    rw [List.length_inits] at hj
    rw [List.getElem_inits, List.getElem_inits, List.length_take, List.length_take]
    omega
  have hreverse := List.pairwise_reverse.mpr (hinits.sublist (List.tail_sublist _))
  rw [← components_ancestors h] at hreverse
  exact List.pairwise_map.mp hreverse

end Path

end StylesheetBuild
