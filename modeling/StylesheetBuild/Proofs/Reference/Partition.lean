/-
The kinds of targets, told apart by the text of the argument.

Every argument is of one kind, and nothing of it is lost: an external one stays as it is, one that
leads into a module is cut at its first colon, and all others are relative as they stand.

* **`Target.classify_eq_inModule_iff`** — an argument leads into a module by the parts around its
  first colon;
* **`Target.exists_parts_iff`** — it has such parts by the position of that colon;
* **`Target.classify_partition`** — so each kind has a description of its own, and exactly one of
  them fits.
-/
import StylesheetBuild.Proofs.Reference.External

namespace StylesheetBuild.Target

open Text

variable {raw name path : Text}

/-! ### The parts around the first colon -/

/-- An argument is `name`, its first colon, and `path`, neither of them empty and the second one
without a line feed. -/
structure Parts (raw name path : Text) : Prop where
  text : raw = name ++ ':' :: path
  first : ':' ∉ name
  name_ne : name ≠ []
  path_ne : path ≠ []
  line : '\n' ∉ path

/-- The first colon of an argument is at position `i`, behind its first character and in front of
its last one, and no line feed follows it. -/
structure ColonAt (raw : Text) (i : Nat) : Prop where
  colon : raw[i]? = some ':'
  first : ':' ∉ raw.take i
  inside : 0 < i
  behind : i + 1 < raw.length
  line : '\n' ∉ raw.drop (i + 1)

theorem Parts.colonAt (h : Parts raw name path) : ColonAt raw name.length := by
  obtain ⟨rfl, hfirst, hname, hpath, hline⟩ := h
  have hpos := List.length_pos_iff.mpr hpath
  refine ⟨?_, ?_, List.length_pos_iff.mpr hname, ?_, ?_⟩
  · rw [List.getElem?_append_right (Nat.le_refl _), Nat.sub_self, List.getElem?_cons_zero]
  · rwa [List.take_left]
  · rw [List.length_append, List.length_cons]
    omega
  · rwa [← List.drop_drop, List.drop_left, List.drop_succ_cons, List.drop_zero]

/-- An argument is cut where it has a colon. -/
theorem ColonAt.parts {i : Nat} (h : ColonAt raw i) :
    Parts raw (raw.take i) (raw.drop (i + 1)) := by
  obtain ⟨hi, hcolon⟩ := List.getElem?_eq_some_iff.mp h.colon
  have hbehind := h.behind
  have hinside := h.inside
  refine ⟨?_, h.first, ?_, ?_, h.line⟩
  · rw [← hcolon, ← List.drop_eq_getElem_cons hi, List.take_append_drop]
  · refine List.ne_nil_of_length_pos ?_
    rw [List.length_take]
    omega
  · refine List.ne_nil_of_length_pos ?_
    rw [List.length_drop]
    omega

/-- An argument has such parts if its first colon is at such a position. -/
theorem exists_parts_iff : (∃ name path, Parts raw name path) ↔ ∃ i, ColonAt raw i := by
  constructor
  · rintro ⟨name, path, h⟩
    exact ⟨name.length, h.colonAt⟩
  · rintro ⟨i, h⟩
    exact ⟨raw.take i, raw.drop (i + 1), h.parts⟩

/-! ### The kinds -/

theorem qualified?_eq_some_iff : qualified? raw = some (name, path) ↔ Parts raw name path := by
  constructor
  · intro h
    by_cases hcolon : ':' ∈ raw
    · obtain ⟨front, back, rfl, hfront⟩ := List.eq_append_cons_of_mem hcolon
      rw [qualified?_append hfront] at h
      split_ifs at h with hparts
      obtain ⟨rfl, rfl⟩ := Prod.mk.inj (Option.some_inj.mp h)
      simp only [not_or] at hparts
      exact ⟨rfl, hfront, hparts.1, hparts.2.1, hparts.2.2⟩
    · rw [qualified?_of_not_mem hcolon] at h
      exact absurd h nofun
  · rintro ⟨rfl, hfirst, hname, hpath, hline⟩
    rw [qualified?_append hfirst, if_neg (by simp [hname, hpath, hline])]

/-- An argument leads into a module by the parts around its first colon. -/
theorem classify_eq_inModule_iff : classify raw = inModule name path ↔
    classify raw ≠ external ∧ Parts raw name path := by
  constructor
  · intro h
    refine ⟨by simp [h], ?_⟩
    exact qualified?_eq_some_iff.mp (classify_eq_inModule h)
  · rintro ⟨hexternal, hparts⟩
    rw [ne_eq, classify_eq_external_iff] at hexternal
    rw [classify, if_neg hexternal, qualified?_eq_some_iff.mpr hparts]

/-- An argument is relative if it is neither external nor leads into a module. -/
theorem classify_eq_relative_iff : classify raw = relative path ↔
    classify raw ≠ external ∧ (¬ ∃ name path, Parts raw name path) ∧ path = raw := by
  constructor
  · intro h
    refine ⟨by simp [h], ?_, classify_eq_relative h⟩
    rintro ⟨name, path', hparts⟩
    have hmodule := classify_eq_inModule_iff.mpr ⟨by simp [h], hparts⟩
    exact absurd (h.symm.trans hmodule) nofun
  · rintro ⟨hexternal, hparts, rfl⟩
    cases h : classify path with
    | external => exact absurd h hexternal
    | inModule name path' => exact absurd ⟨name, path', (classify_eq_inModule_iff.mp h).2⟩ hparts
    | relative path' => rw [classify_eq_relative h]

/-- **The kinds of targets are a partition, and nothing is lost.**  An argument is external exactly
if it starts with a slash, with a word, a colon and a slash, or with `data:`.  Otherwise it leads
into a module exactly if its first colon is neither its first nor its last character and no line
feed follows it, and then it is the name of the module, that colon, and the path.  In all other
cases it is relative, as it stands. -/
theorem classify_partition (raw : Text) :
    (classify raw = external ↔ ['/'] <+: raw ∨
      (∃ word, word ≠ [] ∧ (∀ c ∈ word, isWordChar c) ∧ word ++ [':', '/'] <+: raw) ∨
      ['d', 'a', 't', 'a', ':'] <+: raw) ∧
    ((∃ name path, classify raw = inModule name path) ↔
      classify raw ≠ external ∧ ∃ i, ColonAt raw i) ∧
    (∀ name path, classify raw = inModule name path ↔
      classify raw ≠ external ∧ Parts raw name path) ∧
    (∀ path, classify raw = relative path ↔
      classify raw ≠ external ∧ (¬ ∃ i, ColonAt raw i) ∧ path = raw) := by
  refine ⟨?_, ?_, fun name path => classify_eq_inModule_iff, fun path => ?_⟩
  · rw [classify_eq_external_iff, isExternal, Bool.or_eq_true, Bool.or_eq_true,
      List.isPrefixOf_iff_prefix, List.isPrefixOf_iff_prefix, hasSchemeRoot_iff, or_assoc]
  · simp only [classify_eq_inModule_iff, ← exists_parts_iff, exists_and_left]
  · rw [← exists_parts_iff, classify_eq_relative_iff]

/-- Arguments that differ in the place of a colon, a line feed or a slash. -/
example : classify "a\nb:c".toList = inModule "a\nb".toList "c".toList ∧
    classify "a:b\n".toList = relative "a:b\n".toList ∧
    classify "a-b:/c".toList = inModule "a-b".toList "/c".toList ∧
    classify "a_b:/c".toList = external ∧ classify ":a:b".toList = relative ":a:b".toList := by
  decide +kernel

end StylesheetBuild.Target
