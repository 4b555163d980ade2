/-
Reading the directives of a comment that was written entry by entry.

A written comment is a list of entries in either form, with blanks and stars in front of each and
behind the last.

* **`endless_body`** — nothing in it closes the comment before its end;
* **`Reads.findings_inside`** — a recogniser for one form finds the entries in that form, in the
  order in which they stand, and nothing else;
* **`read_written`** — so a name is said what the first entry of that name in the current form
  says, or else what the first one in the older form says, whatever follows the comment.

Design notes: the two forms are read apart from each other, and `Reads` says what both recognisers
have in common.  The fillers may be empty: an entry ends at the `@` or `!` of the next one.
-/
import StylesheetBuild.Proofs.Directive.Entry
import StylesheetBuild.Proofs.Text.Occurrences

namespace StylesheetBuild.Directive

open Text

/-! ### Comments as they are written -/

/-- What may stand between entries. -/
def isFillerChar (c : Char) : Bool :=
  isBlank c || c = '*'

/-- A comment with its entries, each behind a filler. -/
structure WrittenComment where
  blanks : Fill isBlank
  entries : List (Fill isFillerChar × Entry)
  filler : Fill isFillerChar

/-- The entries as they are written, each behind its filler. -/
def inside (entries : List (Fill isFillerChar × Entry)) : Text :=
  entries.flatMap fun (filler, entry) => filler.text ++ entry.text

namespace WrittenComment

def body (written : WrittenComment) : Text :=
  inside written.entries ++ written.filler.text

def text (written : WrittenComment) : Text :=
  written.blanks.text ++ ['/', '*'] ++ written.body ++ ['*', '/']

/-- The first entry of a name in a form. -/
def entry? (written : WrittenComment) (isLegacy : Bool) (name : Text) : Option Entry :=
  (written.entries.map (·.2)).find? fun entry =>
    entry.isLegacy = isLegacy && entry.name = name

/-- What the entries say of a name: the current form comes first. -/
def meaning (written : WrittenComment) (name : Text) : Option Directive :=
  (written.entry? false name <|> written.entry? true name).map Entry.directive

end WrittenComment

theorem inside_cons (entry : Fill isFillerChar × Entry)
    (entries : List (Fill isFillerChar × Entry)) (behind : Text) :
    inside (entry :: entries) ++ behind =
      entry.1.text ++ (entry.2.text ++ (inside entries ++ behind)) := by
  simp [inside]

/-- An entry begins with one of two signs. -/
theorem Entry.exists_text_eq (entry : Entry) :
    ∃ c rest, entry.text = c :: rest ∧ (c = '@' ∨ c = '!') := by
  cases entry with
  | flag | bare | quoted => exact ⟨'@', _, rfl, .inl rfl⟩
  | legacy => exact ⟨'!', _, rfl, .inr rfl⟩

theorem unmarked_filler (filler : Fill isFillerChar) : '@' ∉ filler.text ∧ '!' ∉ filler.text :=
  ⟨fun hmem => absurd (filler.all '@' hmem) (by decide),
    fun hmem => absurd (filler.all '!' hmem) (by decide)⟩

/-! ### What stands behind an entry -/

theorem isBareChar_of_isFillerChar {c : Char} (h : isFillerChar c) : isBareChar c = false := by
  simp only [isFillerChar, Bool.or_eq_true, decide_eq_true_eq] at h
  rcases h with h | rfl
  · exact isBareChar_of_isBlank h
  · decide

/-- A filler with a sign behind it. -/
theorem boundary_filler (filler : Fill isFillerChar) {c : Char} (hc : c = '@' ∨ c = '!' ∨ c = '*')
    (rest : Text) : Boundary (filler.text ++ c :: rest) := by
  obtain ⟨text, hall⟩ := filler
  induction text with
  | nil => rcases hc with rfl | rfl | rfl <;> exact ⟨stops_cons.mpr rfl, stops_cons.mpr rfl⟩
  | cons d text ih =>
    have hd : isFillerChar d := hall d List.mem_cons_self
    refine ⟨stops_cons.mpr (isBareChar_of_isFillerChar hd), ?_⟩
    cases hspace : isSpaceOrTab d with
    | true =>
      rw [List.cons_append, List.dropWhile_cons_of_pos hspace]
      exact (ih fun e he => hall e (List.mem_cons_of_mem d he)).colon
    | false =>
      rw [List.cons_append, List.dropWhile_cons_of_neg (by simp [hspace])]
      refine stops_cons.mpr (decide_eq_false ?_)
      rintro rfl
      exact absurd hd (by decide)

/-- What stands behind an entry cannot be taken for more of it. -/
theorem boundary_inside (entries : List (Fill isFillerChar × Entry)) (filler : Fill isFillerChar)
    (rest : Text) : Boundary (inside entries ++ (filler.text ++ '*' :: rest)) := by
  cases entries with
  | nil => exact boundary_filler filler (.inr (.inr rfl)) rest
  | cons entry entries =>
    obtain ⟨c, others, htext, hc⟩ := entry.2.exists_text_eq
    rw [inside_cons, htext]
    exact boundary_filler entry.1 (hc.imp_right .inl) _

/-! ### The end of the comment -/

theorem endless_of_not_mem {text : Text} (h : '*' ∉ text ∨ '/' ∉ text) : Endless text := by
  intro hin
  rcases h with h | h <;> exact h (hin.subset (by simp))

/-- Texts without `*/` are put together where no star comes to stand in front of a slash. -/
theorem Endless.append {s t : Text} (hs : Endless s) (ht : Endless t)
    (h : s.getLast? ≠ some '*' ∨ t.head? ≠ some '/') : Endless (s ++ t) := by
  rw [endless_iff_isChain] at *
  refine hs.append ht ?_
  rintro a ha b hb rfl rfl
  exact h.elim (absurd ha) (absurd hb)

theorem endless_filler (filler : Fill isFillerChar) : Endless filler.text :=
  endless_of_not_mem (.inr fun hmem => absurd (filler.all '/' hmem) (by decide))

theorem Entry.endless_text (entry : Entry) : Endless entry.text := by
  have hname (name : Word isNameChar) : '*' ∉ name.text := fun hmem =>
    absurd (name.all '*' hmem) (by decide)
  have hspaces (spaces : Fill isSpaceOrTab) : '*' ∉ spaces.text := fun hmem =>
    absurd (spaces.all '*' hmem) (by decide)
  cases entry with
  | flag name => exact endless_of_not_mem (.inl (by simp [text, hname]))
  | bare name before after word =>
    have hword : '*' ∉ word.text := fun hmem => absurd (word.all '*' hmem) (by decide)
    exact endless_of_not_mem (.inl (by simp [text, hname, hspaces, hword]))
  | quoted name before after quotation =>
    obtain ⟨hstar, hslash⟩ : quotation.quote ≠ '*' ∧ quotation.quote ≠ '/' := by
      constructor <;>
      · intro heq
        have := quotation.isQuote_quote
        rw [heq] at this
        exact absurd this (by decide)
    have htext : (Entry.quoted name before after quotation).text =
        (('@' :: (name.text ++ (before.text ++ ':' :: after.text))) ++ [quotation.quote]) ++
          (quotation.text ++ [quotation.quote]) := by
      simp [text, Quotation.written]
    have hfront : Endless
        (('@' :: (name.text ++ (before.text ++ ':' :: after.text))) ++ [quotation.quote]) :=
      endless_of_not_mem (.inl (by simp [hname, hspaces, hstar.symm]))
    have hclosing : Endless [quotation.quote] :=
      endless_of_not_mem (.inl (by simp [hstar.symm]))
    rw [htext]
    refine hfront.append (quotation.endless.append hclosing (.inr ?_)) (.inl ?_)
    · simpa using hslash
    · rw [List.getLast?_concat]
      simpa using hstar
  | legacy name front before after word =>
    exact endless_of_not_mem (.inl (by simp [text, legacyKeyword, hname, hspaces]))

theorem Endless.cons_inside {filler : Fill isFillerChar} {entry : Entry} {behind : Text}
    (h : Endless behind) (hbehind : Boundary behind) :
    Endless (filler.text ++ (entry.text ++ behind)) := by
  obtain ⟨c, rest, htext, hc⟩ := entry.exists_text_eq
  refine (endless_filler filler).append (entry.endless_text.append h (.inr ?_)) (.inr ?_)
  · intro hslash
    exact absurd (hbehind.bare '/' hslash) (by decide)
  · rw [htext, List.cons_append, List.head?_cons]
    rcases hc with rfl | rfl <;> decide

theorem endless_inside (entries : List (Fill isFillerChar × Entry)) (filler : Fill isFillerChar) :
    Endless (inside entries ++ (filler.text ++ ['*'])) := by
  induction entries with
  | nil => exact endless_append_star.mpr (endless_filler filler)
  | cons entry entries ih =>
    rw [inside_cons]
    exact ih.cons_inside (boundary_inside entries filler [])

/-- Nothing in a written comment closes it before its end. -/
theorem endless_body (written : WrittenComment) : Endless written.body := by
  rw [← endless_append_star, WrittenComment.body, List.append_assoc]
  exact endless_inside written.entries written.filler

/-- A written comment can open a source text. -/
def WrittenComment.comment (written : WrittenComment) : LeadingComment :=
  ⟨written.blanks.text, written.body, written.blanks.all, endless_body written⟩

/-! ### Going through a written comment -/

/-- A recogniser for the entries in a form. -/
structure Reads (recognise : Recogniser (Text × Directive)) (isLegacy : Bool) : Prop where
  -- an entry in the form is read as it was written
  some : ∀ {entry : Entry}, entry.isLegacy = isLegacy → ∀ {rest}, Boundary rest →
    recognise (entry.text ++ rest) = .some ((entry.name, entry.directive), entry.text.length)
  -- nothing is read from any character of another entry on
  none : ∀ {entry : Entry}, entry.isLegacy = !isLegacy → ∀ {s}, s ≠ [] → s <:+ entry.text →
    ∀ rest, recognise (s ++ rest) = .none
  -- nothing is read elsewhere
  unmarked : ∀ {c}, c ≠ '@' → c ≠ '!' → ∀ rest, recognise (c :: rest) = .none

theorem reads_current : Reads current false where
  some h _ hrest := current_text h hrest
  none h _ hne hs rest := current_eq_none_of_legacy h hne hs rest
  unmarked hc _ rest := current_eq_none (s := [_]) (by simp) (by simpa using hc.symm) rest

theorem reads_legacy : Reads legacy true where
  some h _ hrest := legacy_text h hrest
  none h _ hne hs rest := legacy_eq_none_of_current h hne hs rest
  unmarked _ hc rest := legacy_eq_none_of_head hc rest

namespace Reads

variable {recognise : Recogniser (Text × Directive)} {isLegacy : Bool}

/-- A text without the signs of entries makes no difference. -/
theorem findings_unmarked (h : Reads recognise isLegacy) {s : Text} (hs : '@' ∉ s ∧ '!' ∉ s)
    (t : Text) : findings recognise (s ++ t) = findings recognise t := by
  refine findings_append_of_none fun v hne hv => ?_
  obtain ⟨c, v, rfl⟩ := List.exists_cons_of_ne_nil hne
  have hc : c ∈ s := hv.subset List.mem_cons_self
  refine h.unmarked ?_ ?_ (v ++ t)
  · rintro rfl
    exact hs.1 hc
  · rintro rfl
    exact hs.2 hc

/-- One entry: it is found if it is in the form. -/
theorem findings_entry (h : Reads recognise isLegacy) (entry : Entry) {rest : Text}
    (hrest : Boundary rest) :
    findings recognise (entry.text ++ rest) =
      if entry.isLegacy = isLegacy then (entry.name, entry.directive) :: findings recognise rest
      else findings recognise rest := by
  split_ifs with hform
  · exact findings_append_of_some entry.text_ne_nil (h.some hform hrest)
  · exact findings_append_of_none fun v hne hv =>
      h.none (Bool.eq_not.mpr hform) hne hv rest

/-- The entries in the form are found one after another. -/
theorem findings_inside (h : Reads recognise isLegacy)
    (entries : List (Fill isFillerChar × Entry)) (filler : Fill isFillerChar) :
    findings recognise (inside entries ++ (filler.text ++ ['*', '/'])) =
      ((entries.map (·.2)).filter (·.isLegacy = isLegacy)).map
        fun entry => (entry.name, entry.directive) := by
  induction entries with
  | nil =>
    have htail : findings recognise (['*', '/'] ++ []) = [] := h.findings_unmarked (by decide) []
    rw [inside, List.flatMap_nil, List.nil_append, h.findings_unmarked (unmarked_filler filler)]
    exact htail
  | cons entry entries ih =>
    rw [inside_cons, h.findings_unmarked (unmarked_filler _),
      h.findings_entry _ (boundary_inside entries filler _), ih, List.map_cons]
    by_cases hform : entry.2.isLegacy = isLegacy
    · rw [if_pos hform, List.filter_cons_of_pos (by simpa using hform), List.map_cons]
    · rw [if_neg hform, List.filter_cons_of_neg (by simpa using hform)]

theorem find?_eq_findings (recognise : Recogniser (Text × Directive)) (comment name : Text) :
    find? recognise comment name =
      ((findings recognise comment).find? (·.1 = name)).map (·.2) := by
  rw [find?, findings, List.find?_map, Option.map_map]
  rfl

/-- In a written comment a recogniser finds the entries in its form. -/
theorem find?_text (h : Reads recognise isLegacy) (written : WrittenComment) (name : Text) :
    find? recognise written.text name = (written.entry? isLegacy name).map Entry.directive := by
  have hlead : '@' ∉ written.blanks.text ++ ['/', '*'] ∧
      '!' ∉ written.blanks.text ++ ['/', '*'] := by
    constructor <;>
    · intro hmem
      rcases List.mem_append.mp hmem with hmem | hmem
      · exact absurd (written.blanks.all _ hmem) (by decide)
      · exact absurd hmem (by decide)
  have htext : written.text = written.blanks.text ++ ['/', '*'] ++
      (inside written.entries ++ (written.filler.text ++ ['*', '/'])) := by
    simp [WrittenComment.text, WrittenComment.body]
  rw [find?_eq_findings, htext, h.findings_unmarked hlead, h.findings_inside, List.find?_map,
    List.find?_filter, Option.map_map, WrittenComment.entry?]
  congr 2
  funext entry
  simp

end Reads

/-- **What was written is read.**  Of every name a written comment means what its entries mean:
the first one in the current form counts, with its value without quotes, then the first one in the
older form, and there is nothing if no entry has the name.  Whatever follows the comment makes no
difference. -/
theorem read_written (written : WrittenComment) (rest name : Text) :
    read (written.text ++ rest) name = written.meaning name := by
  have hfound : leadingComment? (written.text ++ rest) = some written.text :=
    leadingComment?_append written.comment rest
  rw [read, hfound, Option.bind_eq_bind, Option.bind_some, reads_current.find?_text,
    reads_legacy.find?_text, WrittenComment.meaning]
  cases written.entry? false name <;> rfl

/-- The current form comes first, wherever it stands. -/
example : read "/* !!cmd: a=b @a: 'c' */".toList ['a'] = some (.value ['c']) := by decide

end StylesheetBuild.Directive
