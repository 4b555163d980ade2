/-
What makes an argument external.

* **`isExternal_iff`** — an argument is external by the text at its beginning, its lead;
* **`isExternal_append`**, **`isExternal_trimmed`** — so it stays external with more text behind it,
  and without blanks at its end, of which a lead has none;
* **`qualified?_append`** — an argument that leads into a module is the name of the module, a colon
  and a path.
-/
import StylesheetBuild.Proofs.Text.Runs
import StylesheetBuild.Reference.Target
import StylesheetBuild.Reference.Url

namespace StylesheetBuild

open Text

/-- What is behind the text without the blanks at its end is blank. -/
theorem Text.exists_trimEnd_append (text : Text) :
    ∃ blanks, trimEnd text ++ blanks = text ∧ ∀ c ∈ blanks, isBlank c := by
  refine ⟨(text.reverse.takeWhile isBlank).reverse, ?_, fun c hc => ?_⟩
  · rw [trimEnd, ← List.reverse_append, List.takeWhile_append_dropWhile, List.reverse_reverse]
  · exact List.all_eq_true.mp List.all_takeWhile c (List.mem_reverse.mp hc)

/-- What is cut off is blank. -/
theorem Url.isBlank_of_mem_trimmed {run : Text} : ∀ c ∈ (Url.trimmed run).2, isBlank c := by
  obtain ⟨blanks, hsplit, hall⟩ := exists_trimEnd_append run
  rw [Url.trimmed]
  generalize trimEnd run = kept at hsplit ⊢
  subst hsplit
  intro c hc
  have hmem : c ∈ (kept ++ blanks).drop kept.length :=
    (List.drop_suffix_drop_left _ (Nat.le_max_right 1 kept.length)).subset hc
  rw [List.drop_left] at hmem
  exact hall c hmem

namespace Target

/-- A text at the beginning of external arguments. -/
inductive IsLead : Text → Prop
  | root : IsLead ['/']
  | scheme {word : Text} (hne : word ≠ []) (hword : ∀ c ∈ word, isWordChar c) :
      IsLead (word ++ [':', '/'])
  | data : IsLead ['d', 'a', 't', 'a', ':']

theorem IsLead.char_cases {lead : Text} (h : IsLead lead) {c : Char} (hc : c ∈ lead) :
    isWordChar c ∨ c = ':' ∨ c = '/' := by
  cases h with
  | root => exact .inr (.inr (List.mem_singleton.mp hc))
  | scheme _ hword =>
    rcases List.mem_append.mp hc with hc | hc
    · exact .inl (hword c hc)
    · exact .inr (by simpa using hc)
  | data =>
    simp only [List.mem_cons, List.not_mem_nil, or_false] at hc
    rcases hc with rfl | rfl | rfl | rfl | rfl
    all_goals decide

theorem IsLead.not_blank {lead : Text} (h : IsLead lead) : ∀ c ∈ lead, isBlank c = false := by
  intro c hc
  rcases h.char_cases hc with hc | rfl | rfl
  · exact isBlank_of_isWordChar hc
  · decide
  · decide

theorem IsLead.ne_nil {lead : Text} (h : IsLead lead) : lead ≠ [] := by
  cases h <;> simp

theorem hasSchemeRoot_iff {raw : Text} : hasSchemeRoot raw ↔
    ∃ word, word ≠ [] ∧ (∀ c ∈ word, isWordChar c) ∧ word ++ [':', '/'] <+: raw := by
  have hsplit := List.takeWhile_append_dropWhile (p := isWordChar) (l := raw)
  have hall := List.all_takeWhile (p := isWordChar) (l := raw)
  rw [hasSchemeRoot, Bool.and_eq_true, bne_iff_ne, List.isPrefixOf_iff_prefix]
  constructor
  · rintro ⟨hne, rest, hrest⟩
    refine ⟨_, hne, fun c => List.all_eq_true.mp hall c, rest, ?_⟩
    rw [List.append_assoc, hrest, hsplit]
  · rintro ⟨word, hne, hword, rest, rfl⟩
    have hstops : Stops isWordChar ([':', '/'] ++ rest) := stops_cons.mpr (by decide)
    rw [List.append_assoc, takeWhile_append_of_stops hword hstops,
      dropWhile_append_of_stops hword hstops]
    exact ⟨hne, List.prefix_append _ _⟩

/-- An argument is external by what it begins with. -/
theorem isExternal_iff {raw : Text} : isExternal raw ↔ ∃ lead, IsLead lead ∧ lead <+: raw := by
  rw [isExternal, Bool.or_eq_true, Bool.or_eq_true, List.isPrefixOf_iff_prefix,
    List.isPrefixOf_iff_prefix, hasSchemeRoot_iff]
  constructor
  · rintro ((hroot | ⟨word, hne, hword, hscheme⟩) | hdata)
    · exact ⟨_, .root, hroot⟩
    · exact ⟨_, .scheme hne hword, hscheme⟩
    · exact ⟨_, .data, hdata⟩
  · rintro ⟨lead, hlead, hprefix⟩
    cases hlead with
    | root => exact .inl (.inl hprefix)
    | scheme hne hword => exact .inl (.inr ⟨_, hne, hword, hprefix⟩)
    | data => exact .inr hprefix

/-- An external argument begins with a character that is not blank. -/
theorem exists_of_isExternal {raw : Text} (h : isExternal raw) :
    ∃ c rest, raw = c :: rest ∧ isBlank c = false := by
  obtain ⟨lead, hlead, rest, rfl⟩ := isExternal_iff.mp h
  obtain ⟨c, lead, rfl⟩ := List.exists_cons_of_ne_nil hlead.ne_nil
  exact ⟨c, lead ++ rest, rfl, hlead.not_blank c List.mem_cons_self⟩

/-- An external argument stays external with more text behind it. -/
theorem isExternal_append {raw : Text} (h : isExternal raw) (rest : Text) :
    isExternal (raw ++ rest) := by
  obtain ⟨lead, hlead, hprefix⟩ := isExternal_iff.mp h
  exact isExternal_iff.mpr ⟨lead, hlead, hprefix.trans (List.prefix_append _ _)⟩

/-- An external argument stays external without the blanks at its end. -/
theorem isExternal_trimmed {run : Text} (h : isExternal run) :
    isExternal (Url.trimmed run).1 := by
  obtain ⟨lead, hlead, hprefix⟩ := isExternal_iff.mp h
  rw [← Url.trimmed_append run] at hprefix
  refine isExternal_iff.mpr ⟨lead, hlead, prefix_of_prefix_append hlead.not_blank ?_ hprefix⟩
  exact fun c hc => Url.isBlank_of_mem_trimmed c (List.mem_of_mem_head? hc)

/-! ### Arguments that lead into a module -/

/-- An argument without a colon leads into no module. -/
theorem qualified?_of_not_mem {raw : Text} (h : ':' ∉ raw) : qualified? raw = none := by
  have hall : ∀ c ∈ raw, c != ':' := by
    intro c hc
    rw [bne_iff_ne]
    rintro rfl
    exact h hc
  rw [qualified?, List.dropWhile_eq_nil_iff.mpr hall]

/-- What is in front of the first colon and what is behind it. -/
theorem qualified?_append {name : Text} (h : ':' ∉ name) (path : Text) :
    qualified? (name ++ ':' :: path) =
      if name = [] ∨ path = [] ∨ '\n' ∈ path then none else some (name, path) := by
  have hall : ∀ c ∈ name, c != ':' := by
    intro c hc
    rw [bne_iff_ne]
    rintro rfl
    exact h hc
  have hstops : Stops (· != ':') (':' :: path) := stops_cons.mpr (by decide)
  rw [qualified?, takeWhile_append_of_stops hall hstops, dropWhile_append_of_stops hall hstops]
  simp [or_assoc]

/-- What is in front of the first colon and what is behind it make up the argument. -/
theorem append_of_qualified? {raw name path : Text} (h : qualified? raw = some (name, path)) :
    name ++ ':' :: path = raw := by
  by_cases hcolon : ':' ∈ raw
  · obtain ⟨front, back, rfl, hfront⟩ := List.eq_append_cons_of_mem hcolon
    rw [qualified?_append hfront] at h
    split_ifs at h
    obtain ⟨rfl, rfl⟩ := Prod.mk.inj (Option.some_inj.mp h)
    rfl
  · rw [qualified?_of_not_mem hcolon] at h
    exact absurd h (by simp)

end Target

end StylesheetBuild
