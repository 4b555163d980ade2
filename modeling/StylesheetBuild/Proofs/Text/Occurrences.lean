/-
Where the occurrences of a form are.

* **`mem_occurrencesFrom`** — an occurrence is what the recogniser finds at its position;
* **`occurrencesFrom_pairwise`** — each occurrence ends before the next one begins, when findings
  tell their lengths;
* **`mem_or_inside`** — what is recognised somewhere is an occurrence, or it begins inside one;
* **`occurrencesFrom_append_of_local`** — a text is gone through in two parts, where the second part
  does not matter to what is recognised in the first;
* **`findings_append_of_none`**, **`findings_append_of_some`** — a text is gone through piece by
  piece, where nothing is found in a piece or the piece is a finding.
-/
import StylesheetBuild.Text.Occurrences

namespace StylesheetBuild.Text

variable {α : Type} {recognise : Recogniser α}

theorem mem_occurrencesFrom {position skip : Nat} {text : Text} {o : Nat × α}
    (h : o ∈ occurrencesFrom recognise position skip text) :
    ∃ before rest length, text = before ++ rest ∧ o.1 = position + before.length ∧
      skip ≤ before.length ∧ recognise rest = some (o.2, length) := by
  induction text generalizing position skip with
  | nil => simp [occurrencesFrom] at h
  | cons c text ih =>
    have hlater : ∀ {skip' : Nat}, o ∈ occurrencesFrom recognise (position + 1) skip' text →
        skip ≤ skip' + 1 → ∃ before rest length, c :: text = before ++ rest ∧
          o.1 = position + before.length ∧ skip ≤ before.length ∧
          recognise rest = some (o.2, length) := by
      intro skip' ho hskip
      obtain ⟨before, rest, length, rfl, hposition, hbefore, hfound⟩ := ih ho
      refine ⟨c :: before, rest, length, rfl, ?_, ?_, hfound⟩
      · rw [hposition, List.length_cons]
        omega
      · rw [List.length_cons]
        omega
    cases skip with
    | succ skip =>
      rw [occurrencesFrom] at h
      exact hlater h (Nat.le_refl _)
    | zero =>
      cases hfound : recognise (c :: text) with
      | none =>
        rw [occurrencesFrom, hfound] at h
        exact hlater h (Nat.zero_le _)
      | some found =>
        rw [occurrencesFrom, hfound] at h
        rcases List.mem_cons.mp h with rfl | h
        · exact ⟨[], c :: text, found.2, rfl, rfl, Nat.zero_le _, hfound⟩
        · exact hlater h (Nat.zero_le _)

theorem mem_occurrences {text : Text} {o : Nat × α} (h : o ∈ occurrences recognise text) :
    ∃ before rest length, text = before ++ rest ∧ o.1 = before.length ∧
      recognise rest = some (o.2, length) := by
  obtain ⟨before, rest, length, htext, hposition, -, hfound⟩ := mem_occurrencesFrom h
  exact ⟨before, rest, length, htext, by rw [hposition, Nat.zero_add], hfound⟩

theorem occurrencesFrom_pairwise {size : α → Nat}
    (hsize : ∀ {text found length}, recognise text = some (found, length) → length = size found)
    (position skip : Nat) (text : Text) :
    (occurrencesFrom recognise position skip text).Pairwise fun o o' => o.1 + size o.2 ≤ o'.1 := by
  induction text generalizing position skip with
  | nil => exact .nil
  | cons c text ih =>
    cases skip with
    | succ skip =>
      rw [occurrencesFrom]
      exact ih _ _
    | zero =>
      cases hfound : recognise (c :: text) with
      | none =>
        rw [occurrencesFrom, hfound]
        exact ih _ _
      | some found =>
        rw [occurrencesFrom, hfound]
        refine List.pairwise_cons.mpr ⟨fun o ho => ?_, ih _ _⟩
        obtain ⟨before, rest, length, -, hposition, hskip, -⟩ := mem_occurrencesFrom ho
        have := hsize hfound
        rw [hposition]
        show position + size found.1 ≤ position + 1 + before.length
        omega

theorem mem_or_inside_from (recognise : Recogniser α) {size : α → Nat}
    (hsize : ∀ {text found length}, recognise text = some (found, length) → length = size found)
    {position skip : Nat} {before rest : Text} {found : α} {length : Nat} (hne : rest ≠ [])
    (h : recognise rest = some (found, length)) (hskip : skip ≤ before.length) :
    (position + before.length, found) ∈ occurrencesFrom recognise position skip (before ++ rest) ∨
      ∃ o ∈ occurrencesFrom recognise position skip (before ++ rest),
        o.1 < position + before.length ∧ position + before.length < o.1 + size o.2 := by
  induction before generalizing position skip with
  | nil =>
    obtain rfl : skip = 0 := Nat.le_zero.mp hskip
    obtain ⟨c, rest, rfl⟩ := List.exists_cons_of_ne_nil hne
    rw [List.nil_append, occurrencesFrom, h]
    exact .inl List.mem_cons_self
  | cons c before ih =>
    rw [List.length_cons, Nat.add_comm before.length, ← Nat.add_assoc, List.cons_append]
    cases skip with
    | succ skip =>
      rw [occurrencesFrom]
      exact ih (Nat.le_of_succ_le_succ hskip)
    | zero =>
      cases hfirst : recognise (c :: (before ++ rest)) with
      | none =>
        rw [occurrencesFrom, hfirst]
        exact ih (Nat.zero_le _)
      | some first =>
        have hlength := hsize hfirst
        simp only [occurrencesFrom, hfirst]
        by_cases hbehind : first.2 - 1 ≤ before.length
        · rcases ih hbehind with hmem | ⟨o, ho, hinside⟩
          · exact .inl (List.mem_cons_of_mem _ hmem)
          · exact .inr ⟨o, List.mem_cons_of_mem _ ho, hinside⟩
        · refine .inr ⟨(position, first.1), List.mem_cons_self, ?_⟩
          show position < position + 1 + before.length ∧
            position + 1 + before.length < position + size first.1
          omega

/-- What is recognised somewhere is an occurrence, or it begins inside one. -/
theorem mem_or_inside (recognise : Recogniser α) {size : α → Nat}
    (hsize : ∀ {text found length}, recognise text = some (found, length) → length = size found)
    (before : Text) {rest : Text} {found : α} {length : Nat} (hne : rest ≠ [])
    (h : recognise rest = some (found, length)) :
    (before.length, found) ∈ occurrences recognise (before ++ rest) ∨
      ∃ o ∈ occurrences recognise (before ++ rest),
        o.1 < before.length ∧ before.length < o.1 + size o.2 := by
  rw [occurrences, ← Nat.zero_add before.length]
  exact mem_or_inside_from recognise hsize hne h (Nat.zero_le _)

/-- Where nothing behind the front of a text matters to what is recognised in the front, both are
gone through one after the other. -/
theorem occurrencesFrom_append_of_local {s t : Text}
    (hlength : ∀ {text found length}, recognise text = some (found, length) → length ≤ text.length)
    (hlocal : ∀ v, v ≠ [] → v <:+ s → recognise (v ++ t) = recognise v) {position skip : Nat}
    (hskip : skip ≤ s.length) :
    occurrencesFrom recognise position skip (s ++ t) =
      occurrencesFrom recognise position skip s ++
        occurrencesFrom recognise (position + s.length) 0 t := by
  induction s generalizing position skip with
  | nil =>
    obtain rfl : skip = 0 := Nat.le_zero.mp hskip
    rfl
  | cons c s ih =>
    have hrest : ∀ v, v ≠ [] → v <:+ s → recognise (v ++ t) = recognise v :=
      fun v hne hv => hlocal v hne (hv.trans (List.suffix_cons c s))
    have hposition : position + 1 + s.length = position + (c :: s).length := by
      rw [List.length_cons]
      omega
    rw [List.cons_append]
    cases skip with
    | succ skip =>
      rw [occurrencesFrom, occurrencesFrom, ih hrest (Nat.le_of_succ_le_succ hskip), hposition]
    | zero =>
      have hfirst : recognise (c :: (s ++ t)) = recognise (c :: s) :=
        hlocal (c :: s) (List.cons_ne_nil c s) (List.suffix_refl _)
      cases hfound : recognise (c :: s) with
      | none =>
        simp only [occurrencesFrom, hfirst, hfound]
        rw [ih hrest (Nat.zero_le _), hposition]
      | some found =>
        have hinside := hlength hfound
        rw [List.length_cons] at hinside
        simp only [occurrencesFrom, hfirst, hfound]
        rw [ih hrest (by omega), hposition]
        rfl

/-! ### Findings without their positions -/

/-- The findings of `recognise` in `text`, from left to right. -/
def findings (recognise : Recogniser α) (text : Text) : List α :=
  (occurrences recognise text).map (·.2)

theorem findings_eq_map_occurrencesFrom (recognise : Recogniser α) (position : Nat) (text : Text) :
    (occurrencesFrom recognise position 0 text).map (·.2) = findings recognise text := by
  have hshift := occurrences_shift recognise position 0 0 text
  rw [Nat.zero_add] at hshift
  rw [hshift, List.map_map]
  rfl

/-- Characters that belong to the finding before are passed over. -/
theorem occurrencesFrom_append (recognise : Recogniser α) (position : Nat) (s t : Text) :
    occurrencesFrom recognise position s.length (s ++ t) =
      occurrencesFrom recognise (position + s.length) 0 t := by
  induction s generalizing position with
  | nil => rfl
  | cons c s ih =>
    rw [List.length_cons, List.cons_append, occurrencesFrom, ih]
    congr 1
    omega

/-- A piece of a text in which nothing begins makes no difference. -/
theorem findings_append_of_none {s t : Text}
    (h : ∀ v, v ≠ [] → v <:+ s → recognise (v ++ t) = none) :
    findings recognise (s ++ t) = findings recognise t := by
  induction s with
  | nil => rfl
  | cons c s ih =>
    have hnone : recognise (c :: (s ++ t)) = none := h (c :: s) (by simp) (List.suffix_refl _)
    rw [findings, occurrences, List.cons_append, occurrencesFrom, hnone]
    show (occurrencesFrom recognise (0 + 1) 0 (s ++ t)).map (·.2) = _
    rw [findings_eq_map_occurrencesFrom]
    exact ih fun v hne hv => h v hne (hv.trans (List.suffix_cons c s))

/-- A finding is followed by those behind it. -/
theorem findings_append_of_some {s t : Text} {found : α} (hne : s ≠ [])
    (h : recognise (s ++ t) = some (found, s.length)) :
    findings recognise (s ++ t) = found :: findings recognise t := by
  obtain ⟨c, s, rfl⟩ := List.exists_cons_of_ne_nil hne
  rw [List.cons_append] at h
  rw [findings, occurrences, List.cons_append, occurrencesFrom, h]
  show found :: (occurrencesFrom recognise (0 + 1) ((c :: s).length - 1) (s ++ t)).map (·.2) = _
  rw [List.length_cons, Nat.add_sub_cancel, occurrencesFrom_append, findings_eq_map_occurrencesFrom]

end StylesheetBuild.Text
