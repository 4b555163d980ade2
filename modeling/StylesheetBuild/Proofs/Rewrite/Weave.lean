/-
A stylesheet and its rewriting, woven from the same cells.

A cell is a character of a gap, which stays, or a slot, which holds an argument before and what
replaces it afterwards.  Neither has a delimiter in it.

* **`exists_of_targets_eq`** — a delimiter of the rewritten text is a character of a gap, so the
  cells can be cut there;
* **`sources_weave`**, **`targets_weave`** — cells give both texts, with the same gaps;
* **`Woven.surroundings`** — around each slot stands what encloses a reference;
* **`Woven.delimiter_before`**, **`Woven.delimiter_after`** — so next to a slot, but for blanks,
  there is a quote, or a bracket of the right kind.
-/
import StylesheetBuild.Proofs.Reference.External
import StylesheetBuild.Proofs.Reference.Flat
import StylesheetBuild.Proofs.Rewrite.Splice

namespace StylesheetBuild.Rewrite

open Text
open Reference (isDelimiter Plain Flat scan)

/-! ### Cells -/

/-- A reference, and the external text without delimiters that takes the place of its argument. -/
structure Slot where
  reference : Reference
  target : Text
  argument_ne_nil : reference.argument ≠ []
  plain_argument : Plain reference.argument
  isExternal_target : Target.isExternal target
  plain_target : Plain target

inductive Cell where
  | gap (c : Char)
  | slot (s : Slot)

/-- What a cell holds before rewriting. -/
def Cell.source : Cell → Text
  | gap c => [c]
  | slot s => s.reference.argument

/-- What a cell holds afterwards. -/
def Cell.target : Cell → Text
  | gap c => [c]
  | slot s => s.target

def sources (cells : List Cell) : Text :=
  cells.flatMap Cell.source

def targets (cells : List Cell) : Text :=
  cells.flatMap Cell.target

/-- The characters of a gap. -/
def gapCells (text : Text) : List Cell :=
  text.map .gap

@[simp] theorem sources_nil : sources [] = [] := rfl

@[simp] theorem targets_nil : targets [] = [] := rfl

@[simp] theorem sources_append (cells cells' : List Cell) :
    sources (cells ++ cells') = sources cells ++ sources cells' :=
  List.flatMap_append

@[simp] theorem targets_append (cells cells' : List Cell) :
    targets (cells ++ cells') = targets cells ++ targets cells' :=
  List.flatMap_append

@[simp] theorem sources_gap (c : Char) (cells : List Cell) :
    sources (.gap c :: cells) = c :: sources cells := rfl

@[simp] theorem targets_gap (c : Char) (cells : List Cell) :
    targets (.gap c :: cells) = c :: targets cells := rfl

@[simp] theorem sources_slot (s : Slot) (cells : List Cell) :
    sources (.slot s :: cells) = s.reference.argument ++ sources cells := rfl

@[simp] theorem targets_slot (s : Slot) (cells : List Cell) :
    targets (.slot s :: cells) = s.target ++ targets cells := rfl

@[simp] theorem sources_gapCells (text : Text) : sources (gapCells text) = text := by
  induction text with
  | nil => rfl
  | cons c text ih => exact congrArg (c :: ·) ih

@[simp] theorem targets_gapCells (text : Text) : targets (gapCells text) = text := by
  induction text with
  | nil => rfl
  | cons c text ih => exact congrArg (c :: ·) ih

@[simp] theorem gapCells_append (s t : Text) : gapCells (s ++ t) = gapCells s ++ gapCells t :=
  List.map_append

theorem sources_ne_nil {cells : List Cell} (h : cells ≠ []) : sources cells ≠ [] := by
  obtain ⟨cell, cells, rfl⟩ := List.exists_cons_of_ne_nil h
  cases cell with
  | gap c => exact List.cons_ne_nil _ _
  | slot s =>
    rw [sources_slot]
    exact List.append_ne_nil_of_left_ne_nil s.argument_ne_nil _

/-! ### Delimiters -/

/-- A delimiter of the rewritten text is a character of a gap. -/
theorem exists_of_targets_eq {cells : List Cell} {x y : Text} {c : Char} (hc : isDelimiter c)
    (h : targets cells = x ++ c :: y) :
    ∃ before after, cells = before ++ .gap c :: after ∧ targets before = x ∧ targets after = y := by
  induction cells generalizing x with
  | nil => exact absurd h (by simp [targets])
  | cons cell cells ih =>
    cases cell with
    | gap d =>
      rw [targets_gap] at h
      cases x with
      | nil =>
        obtain ⟨rfl, rfl⟩ := List.cons.inj h
        exact ⟨[], cells, rfl, rfl, rfl⟩
      | cons e x =>
        obtain ⟨rfl, htail⟩ := List.cons.inj h
        obtain ⟨before, after, rfl, rfl, rfl⟩ := ih htail
        exact ⟨.gap d :: before, after, rfl, rfl, rfl⟩
    | slot s =>
      rw [targets_slot] at h
      have hrest : ∃ x', x = s.target ++ x' ∧ targets cells = x' ++ c :: y := by
        rcases List.append_eq_append_iff.mp h with ⟨x', hx, hrest⟩ | ⟨x', hx, hrest⟩
        · exact ⟨x', hx, hrest⟩
        · cases x' with
          | nil => exact ⟨[], by simpa using hx.symm, hrest.symm⟩
          | cons d x' =>
            obtain ⟨rfl, -⟩ := List.cons.inj hrest
            exact absurd (hx ▸ by simp) (s.plain_target.not_mem hc)
      obtain ⟨x', rfl, hrest⟩ := hrest
      obtain ⟨before, after, rfl, rfl, rfl⟩ := ih hrest
      exact ⟨.slot s :: before, after, rfl, rfl, rfl⟩

/-- A delimiter of a stylesheet is there after rewriting, too. -/
theorem mem_targets_of_mem_sources {cells : List Cell} {c : Char} (hc : isDelimiter c)
    (h : c ∈ sources cells) : c ∈ targets cells := by
  obtain ⟨cell, hcell, hmem⟩ := List.mem_flatMap.mp h
  refine List.mem_flatMap.mpr ⟨cell, hcell, ?_⟩
  cases cell with
  | gap d => exact hmem
  | slot s => exact absurd hmem (s.plain_argument.not_mem hc)

/-! ### First and last slots -/

theorem eq_gapCells_or_first (cells : List Cell) : cells = gapCells (targets cells) ∨
    ∃ front s rest, cells = gapCells front ++ .slot s :: rest := by
  induction cells with
  | nil => exact .inl rfl
  | cons cell cells ih =>
    cases cell with
    | slot s => exact .inr ⟨[], s, cells, rfl⟩
    | gap c =>
      rcases ih with ih | ⟨front, s, rest, rfl⟩
      · exact .inl (congrArg (Cell.gap c :: ·) ih)
      · exact .inr ⟨c :: front, s, rest, rfl⟩

theorem eq_gapCells_or_last (cells : List Cell) : cells = gapCells (targets cells) ∨
    ∃ front s rest, cells = front ++ .slot s :: gapCells rest := by
  induction cells with
  | nil => exact .inl rfl
  | cons cell cells ih =>
    rcases ih with ih | ⟨front, s, rest, rfl⟩
    · cases cell with
      | gap c => exact .inl (congrArg (Cell.gap c :: ·) ih)
      | slot s =>
        refine .inr ⟨[], s, targets cells, ?_⟩
        rw [← ih]
        rfl
    · exact .inr ⟨cell :: front, s, rest, rfl⟩

/-- In front of a slot there is a first one, with a piece of a gap in front of it. -/
theorem exists_first_slot (cells : List Cell) (s : Slot) (rest : List Cell) :
    ∃ front s' rest', cells ++ .slot s :: rest = gapCells front ++ .slot s' :: rest' ∧
      front <+: sources cells := by
  rcases eq_gapCells_or_first cells with h | ⟨front, s', rest', rfl⟩
  · have hsources : sources cells = targets cells := by
      rw [h, sources_gapCells, targets_gapCells]
    refine ⟨targets cells, s, rest, by rw [← h], ?_⟩
    exact ⟨[], by rw [hsources, List.append_nil]⟩
  · refine ⟨front, s', rest' ++ .slot s :: rest, by simp, ?_⟩
    simp

/-- Where only blanks come out there is no slot. -/
theorem eq_gapCells_of_blank {cells : List Cell} (h : ∀ c ∈ targets cells, isBlank c) :
    cells = gapCells (targets cells) := by
  refine (eq_gapCells_or_first cells).resolve_right ?_
  rintro ⟨front, s, rest, rfl⟩
  obtain ⟨c, others, htarget, hc⟩ := Target.exists_of_isExternal s.isExternal_target
  have hblank : isBlank c := h c (by simp [htarget])
  rw [hc] at hblank
  exact absurd hblank (by decide)

/-- Of two beginnings of the same cells, the one with less text is a beginning of the other. -/
theorem exists_of_length_le {before after before' after' : List Cell}
    (heq : before ++ after = before' ++ after')
    (hlength : (sources before).length ≤ (sources before').length) :
    ∃ more, before' = before ++ more ∧ after = more ++ after' := by
  rcases List.append_eq_append_iff.mp heq with h | ⟨more, rfl, rfl⟩
  · exact h
  · have hnil : more = [] := by
      by_contra hne
      have hpos := List.length_pos_iff.mpr (sources_ne_nil hne)
      rw [sources_append, List.length_append] at hlength
      omega
    subst hnil
    exact ⟨[], by simp, by simp⟩

/-! ### Weaving -/

/-- Gaps with a slot between each two. -/
def weave : List Text → List Slot → List Cell
  | gap :: gaps, s :: slots => gapCells gap ++ .slot s :: weave gaps slots
  | gap :: _, [] => gapCells gap
  | [], _ => []

theorem sources_weave (gaps : List Text) (slots : List Slot) :
    sources (weave gaps slots) = interleave gaps (slots.map (·.reference.argument)) := by
  fun_induction weave gaps slots with
  | case1 gap gaps s slots ih => simp [interleave, ih]
  | case2 gap gaps => simp [interleave]
  | case3 slots => rfl

theorem targets_weave (gaps : List Text) (slots : List Slot) :
    targets (weave gaps slots) = interleave gaps (slots.map (·.target)) := by
  fun_induction weave gaps slots with
  | case1 gap gaps s slots ih => simp [interleave, ih]
  | case2 gap gaps => simp [interleave]
  | case3 slots => rfl

theorem mem_weave {gaps : List Text} {slots : List Slot} (hlength : slots.length < gaps.length)
    {s : Slot} (h : s ∈ slots) : .slot s ∈ weave gaps slots := by
  fun_induction weave gaps slots with
  | case1 gap gaps s' slots ih =>
    rcases List.mem_cons.mp h with rfl | h
    · simp
    · simp [ih (by simpa using hlength) h]
  | case2 gap gaps => exact absurd h List.not_mem_nil
  | case3 slots => exact absurd hlength (Nat.not_lt_zero _)

theorem slot_not_mem_gapCells (s : Slot) (text : Text) : .slot s ∉ gapCells text := by
  simp [gapCells]

/-- In front of a slot, woven cells hold what is put together up to it. -/
theorem exists_of_weave_eq {gaps : List Text} {slots : List Slot} {before after : List Cell}
    {s : Slot} (h : weave gaps slots = before ++ .slot s :: after) :
    ∃ i, slots[i]? = some s ∧ sources before =
      interleave (gaps.take (i + 1)) ((slots.take i).map (·.reference.argument)) := by
  fun_induction weave gaps slots generalizing before with
  | case1 gap gaps s' slots ih =>
    have hbehind : ∃ more, before = gapCells gap ++ more ∧
        .slot s' :: weave gaps slots = more ++ .slot s :: after := by
      rcases List.append_eq_append_iff.mp h with hmore | ⟨more, hgap, hmore⟩
      · exact hmore
      · cases more with
        | nil => exact ⟨[], by simpa using hgap.symm, hmore.symm⟩
        | cons cell more =>
          obtain ⟨rfl, -⟩ := List.cons.inj hmore
          exact absurd (hgap ▸ by simp) (slot_not_mem_gapCells s gap)
    obtain ⟨more, rfl, hmore⟩ := hbehind
    cases more with
    | nil =>
      obtain ⟨hs, -⟩ := List.cons.inj hmore
      obtain rfl : s' = s := Cell.slot.inj hs
      exact ⟨0, rfl, by simp [interleave]⟩
    | cons cell more =>
      obtain ⟨rfl, hrest⟩ := List.cons.inj hmore
      obtain ⟨i, hi, hsources⟩ := ih hrest
      refine ⟨i + 1, hi, ?_⟩
      rw [sources_append, sources_slot, hsources]
      simp [interleave]
  | case2 gap gaps =>
    exact absurd (h ▸ by simp) (slot_not_mem_gapCells s gap)
  | case3 slots => exact absurd h (by simp)

/-! ### Woven stylesheets -/

/-- The cells of a stylesheet, with a slot for each reference in its place. -/
structure Woven (css : Text) (cells : List Cell) : Prop where
  sources_eq : sources cells = css
  placed : ∀ {before s after}, cells = before ++ .slot s :: after →
    s.reference ∈ scan css ∧ (sources before).length = s.reference.start
  filled : ∀ r ∈ scan css, ∃ s, .slot s ∈ cells ∧ s.reference = r

/-- Cut at its references, a stylesheet is woven from the gaps and the slots of the references. -/
theorem woven_weave {css : Text} {gaps : List Text} {slots : List Slot}
    (hcut : IsCut css (scan css) gaps) (hslots : slots.map (·.reference) = scan css) :
    Woven css (weave gaps slots) where
  sources_eq := by
    have harguments : slots.map (·.reference.argument) = (scan css).map (·.argument) := by
      rw [← hslots, List.map_map]
      rfl
    rw [sources_weave, harguments, hcut.whole]
  placed := by
    intro before s after h
    obtain ⟨i, hi, hbefore⟩ := exists_of_weave_eq h
    have hr : (scan css)[i]? = some s.reference := by
      rw [← hslots, List.getElem?_map, hi]
      rfl
    have harguments : (slots.take i).map (·.reference.argument) =
        ((scan css).take i).map (·.argument) := by
      rw [← hslots, ← List.map_take, List.map_map]
      rfl
    have hmem : s.reference ∈ scan css := List.mem_of_getElem? hr
    obtain ⟨front, rest, hcss, hstart⟩ :=
      Reference.argument_eq_slice (Reference.mem_scan_iff.mp hmem).1
    refine ⟨hmem, ?_⟩
    rw [hbefore, harguments, hcut.start i _ hr, List.length_take, ← hstart, hcss]
    simp
  filled := by
    intro r hr
    rw [← hslots] at hr
    obtain ⟨s, hs, rfl⟩ := List.mem_map.mp hr
    have hlength : slots.length = (scan css).length := by
      rw [← hslots, List.length_map]
    refine ⟨s, mem_weave ?_ hs, rfl⟩
    rw [hcut.length, hlength]
    exact Nat.lt_succ_self _

namespace Woven

variable {css : Text} {cells before after : List Cell} {s : Slot}

/-- No argument of a woven stylesheet has a delimiter in it. -/
theorem flat (hw : Woven css cells) : Flat css := by
  intro r hr
  obtain ⟨s, -, rfl⟩ := hw.filled r hr
  exact s.plain_argument

/-- Around a slot stands what encloses its reference. -/
theorem surroundings (hw : Woven css cells) (h : cells = before ++ .slot s :: after) :
    ∃ (form : Reference.Form) (e : Enclosed) (front rest : Text), form.IsMatch e ∧
      sources before = front ++ e.before ∧ sources after = e.after ++ rest := by
  obtain ⟨hmem, hstart⟩ := hw.placed h
  obtain ⟨front, e, rest, hcss, hways, hr⟩ :=
    Reference.exists_of_mem_found (Reference.mem_scan_iff.mp hmem).1
  obtain ⟨hmatch, -⟩ := Reference.Form.mem_ways_iff.mp hways
  refine ⟨s.reference.form, e, front, rest, hmatch, ?_⟩
  have hargument : s.reference.argument = e.argument := by rw [hr]
  have hlength : (sources before).length = (front ++ e.before).length := by
    rw [hstart, hr]
  have htext : sources before ++ (e.argument ++ sources after) =
      front ++ e.before ++ (e.argument ++ (e.after ++ rest)) := by
    rw [← hw.sources_eq, h, sources_append, sources_slot, hargument] at hcss
    simpa [Enclosed.text] using hcss
  obtain ⟨hbefore, hafter⟩ := List.append_inj htext hlength
  exact ⟨hbefore, List.append_cancel_left hafter⟩

/-- The last delimiter in front of a slot is an opening bracket or a quote. -/
theorem delimiter_before (hw : Woven css cells) {c : Char} {gap : Text} (hc : isDelimiter c)
    (hgap : Plain gap) (h : cells = before ++ .gap c :: (gapCells gap ++ .slot s :: after)) :
    c = '(' ∨ isQuote c := by
  have hslot : cells = (before ++ .gap c :: gapCells gap) ++ .slot s :: after := by simpa using h
  obtain ⟨form, e, front, rest, hmatch, hbefore, -⟩ := hw.surroundings hslot
  obtain ⟨front', d, blanks, hshape, hd, hblanks⟩ := hmatch.exists_before
  have hdelimiter : isDelimiter d := by
    rcases hd with rfl | hd
    · decide
    · exact Reference.isDelimiter_of_isQuote hd
  have htext : sources before ++ c :: gap = front ++ front' ++ d :: blanks := by
    rw [hshape] at hbefore
    simpa using hbefore
  obtain ⟨-, rfl, -⟩ := eq_of_last hgap (Reference.plain_blanks hblanks) hc hdelimiter htext
  exact hd

/-- The next delimiter behind a slot is a closing bracket or a quote. -/
theorem delimiter_after (hw : Woven css cells) {c : Char} {gap : Text} (hc : isDelimiter c)
    (hgap : Plain gap) (h : cells = before ++ .slot s :: (gapCells gap ++ .gap c :: after)) :
    c = ')' ∨ isQuote c := by
  obtain ⟨form, e, front, rest, hmatch, -, hafter⟩ := hw.surroundings h
  obtain ⟨blanks, d, rest', hshape, hd, hblanks⟩ := hmatch.exists_after
  have hdelimiter : isDelimiter d := by
    rcases hd with rfl | hd
    · decide
    · exact Reference.isDelimiter_of_isQuote hd
  have htext : gap ++ c :: sources after = blanks ++ d :: (rest' ++ rest) := by
    rw [hshape] at hafter
    simpa using hafter
  obtain ⟨-, rfl, -⟩ := eq_of_first hgap (Reference.plain_blanks hblanks) hc hdelimiter htext
  exact hd

end Woven

end StylesheetBuild.Rewrite
