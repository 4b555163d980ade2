/-
The shape of a match, written out.

* **`Url.mem_ways_iff`**, **`ImportRule.mem_ways_iff`** — a pattern matches in just those ways whose
  texts have its shape and stand at the beginning;
* **`Form.exists_match?`** — so a text of the shape at the beginning is enough for a match, though
  perhaps of another text;
* **`exists_match_of_mem_found`** — a reference is the preferred match where it begins.
-/
import StylesheetBuild.Proofs.Reference.Found

namespace StylesheetBuild

open Text

/-- A text of one quote or none. -/
def IsOptionalQuote (quote : Text) : Prop :=
  quote = [] ∨ ∃ c, isQuote c ∧ quote = [c]

/-! ### The form `url( … )` -/

/-- An argument of `url( )` with what encloses it. -/
inductive Url.IsMatch : Enclosed → Prop
  | mk {blanks inner opening argument closing more : Text}
      (hblanks : ∀ c ∈ blanks, isBlank c) (hinner : ∀ c ∈ inner, isBlank c)
      (hopening : IsOptionalQuote opening)
      (hne : argument ≠ []) (hargument : ∀ c ∈ argument, isArgumentChar c)
      (hclosing : IsOptionalQuote closing) (hmore : ∀ c ∈ more, isBlank c) :
      IsMatch ⟨['u', 'r', 'l'] ++ (blanks ++ '(' :: (inner ++ opening)), argument,
        closing ++ (more ++ [')'])⟩

theorem Url.mem_ways_iff {text : Text} {e : Enclosed} :
    e ∈ Url.pattern.ways text ↔ Url.IsMatch e ∧ e.text <+: text := by
  constructor
  · intro h
    obtain ⟨hfront, ⟨before, hbefore, heq⟩, ⟨hne, hargument⟩, after, hafter, heq'⟩ :=
      Pattern.mem_ways h
    obtain _ | ⟨rfl, _ | ⟨hblanks, _ | ⟨rfl, _ | ⟨hinner, _ | ⟨hopening, _ | _⟩⟩⟩⟩⟩ := hbefore
    obtain _ | ⟨hclosing, _ | ⟨hmore, _ | ⟨rfl, _ | _⟩⟩⟩ := hafter
    obtain ⟨before, argument, after⟩ := e
    refine ⟨?_, hfront⟩
    have hmatch := IsMatch.mk hblanks hinner hopening hne hargument hclosing hmore
    simp only at heq heq'
    rw [heq, heq']
    simpa using hmatch
  · rintro ⟨⟨hblanks, hinner, hopening, hne, hargument, hclosing, hmore⟩, rest, rfl⟩
    rename_i blanks inner opening argument closing more
    have hbefore : List.Forall₂ Piece.Admits Url.pattern.before
        [['u', 'r', 'l'], blanks, ['('], inner, opening] :=
      .cons rfl (.cons hblanks (.cons rfl (.cons hinner (.cons hopening .nil))))
    have hafter : List.Forall₂ Piece.Admits Url.pattern.after [closing, more, [')']] :=
      .cons hclosing (.cons hmore (.cons rfl .nil))
    have hadmits : Url.pattern.argument.Admits argument := ⟨hne, hargument⟩
    have hways := Pattern.ways_append hbefore hadmits hafter rest
    simpa [Enclosed.text] using hways

theorem Url.isMatch_of_match? {text : Text} {e : Enclosed} (h : Url.pattern.match? text = some e) :
    Url.IsMatch e ∧ e.text <+: text :=
  Url.mem_ways_iff.mp (List.mem_of_head? h)

/-! ### The form `@import "…"` -/

/-- An argument of `@import` with what encloses it. -/
inductive ImportRule.IsMatch : Enclosed → Prop
  | mk {blanks argument : Text} {opening closing : Char}
      (hblanks : ∀ c ∈ blanks, isBlank c) (hopening : isQuote opening)
      (hne : argument ≠ []) (hargument : ∀ c ∈ argument, isQuote c = false)
      (hclosing : isQuote closing) :
      IsMatch ⟨['@', 'i', 'm', 'p', 'o', 'r', 't'] ++ (blanks ++ [opening]), argument, [closing]⟩

theorem ImportRule.mem_ways_iff {text : Text} {e : Enclosed} :
    e ∈ ImportRule.pattern.ways text ↔ ImportRule.IsMatch e ∧ e.text <+: text := by
  constructor
  · intro h
    obtain ⟨hfront, ⟨before, hbefore, heq⟩, ⟨hne, hargument⟩, after, hafter, heq'⟩ :=
      Pattern.mem_ways h
    obtain _ | ⟨rfl, _ | ⟨hblanks, _ | ⟨⟨opening, hopening, rfl⟩, _ | _⟩⟩⟩ := hbefore
    obtain _ | ⟨⟨closing, hclosing, rfl⟩, _ | _⟩ := hafter
    obtain ⟨before, argument, after⟩ := e
    refine ⟨?_, hfront⟩
    have hmatch := IsMatch.mk hblanks hopening hne (fun c hc => by simpa using hargument c hc)
      hclosing
    simp only at heq heq'
    rw [heq, heq']
    simpa using hmatch
  · rintro ⟨⟨hblanks, hopening, hne, hargument, hclosing⟩, rest, rfl⟩
    rename_i blanks argument opening closing
    have hbefore : List.Forall₂ Piece.Admits ImportRule.pattern.before
        [['@', 'i', 'm', 'p', 'o', 'r', 't'], blanks, [opening]] :=
      .cons rfl (.cons hblanks (.cons ⟨opening, hopening, rfl⟩ .nil))
    have hafter : List.Forall₂ Piece.Admits ImportRule.pattern.after [[closing]] :=
      .cons ⟨closing, hclosing, rfl⟩ .nil
    have hadmits : ImportRule.pattern.argument.Admits argument :=
      ⟨hne, fun c hc => by simpa using hargument c hc⟩
    have hways := Pattern.ways_append hbefore hadmits hafter rest
    simpa [Enclosed.text] using hways

theorem ImportRule.isMatch_of_match? {text : Text} {e : Enclosed}
    (h : ImportRule.pattern.match? text = some e) : ImportRule.IsMatch e ∧ e.text <+: text :=
  ImportRule.mem_ways_iff.mp (List.mem_of_head? h)

/-! ### Both forms -/

namespace Reference

/-- An argument of a form with what encloses it. -/
def Form.IsMatch : Form → Enclosed → Prop
  | .url => Url.IsMatch
  | .importRule => ImportRule.IsMatch

theorem Form.mem_ways_iff {form : Form} {text : Text} {e : Enclosed} :
    e ∈ form.pattern.ways text ↔ form.IsMatch e ∧ e.text <+: text := by
  cases form with
  | url => exact Url.mem_ways_iff
  | importRule => exact ImportRule.mem_ways_iff

theorem Form.isMatch_of_match? {form : Form} {text : Text} {e : Enclosed}
    (h : form.pattern.match? text = some e) : form.IsMatch e ∧ e.text <+: text :=
  mem_ways_iff.mp (List.mem_of_head? h)

theorem Form.IsMatch.text_ne_nil {form : Form} {e : Enclosed} (h : form.IsMatch e) :
    e.text ≠ [] := by
  cases form with
  | url =>
    obtain ⟨⟩ := h
    exact List.cons_ne_nil _ _
  | importRule =>
    obtain ⟨⟩ := h
    exact List.cons_ne_nil _ _

/-- In front of an argument there is an opening bracket or a quote, with blanks in between. -/
theorem Form.IsMatch.exists_before {form : Form} {e : Enclosed} (h : form.IsMatch e) :
    ∃ front c blanks, e.before = front ++ c :: blanks ∧ (c = '(' ∨ isQuote c) ∧
      ∀ d ∈ blanks, isBlank d := by
  cases form with
  | url =>
    obtain ⟨-, hinner, hopening, -, -, -, -⟩ := h
    rename_i blanks inner opening _ _ _
    rcases hopening with rfl | ⟨quote, hquote, rfl⟩
    · exact ⟨['u', 'r', 'l'] ++ blanks, '(', inner, by simp, .inl rfl, hinner⟩
    · exact ⟨['u', 'r', 'l'] ++ (blanks ++ '(' :: inner), quote, [], by simp, .inr hquote, by simp⟩
  | importRule =>
    obtain ⟨-, hopening, -, -, -⟩ := h
    rename_i blanks _ opening _
    exact ⟨['@', 'i', 'm', 'p', 'o', 'r', 't'] ++ blanks, opening, [], by simp, .inr hopening,
      by simp⟩

/-- Behind an argument there is a closing bracket or a quote, with blanks in between. -/
theorem Form.IsMatch.exists_after {form : Form} {e : Enclosed} (h : form.IsMatch e) :
    ∃ blanks c rest, e.after = blanks ++ c :: rest ∧ (c = ')' ∨ isQuote c) ∧
      ∀ d ∈ blanks, isBlank d := by
  cases form with
  | url =>
    obtain ⟨-, -, -, -, -, hclosing, hmore⟩ := h
    rename_i more
    rcases hclosing with rfl | ⟨quote, hquote, rfl⟩
    · exact ⟨more, ')', [], rfl, .inl rfl, hmore⟩
    · exact ⟨[], quote, more ++ [')'], rfl, .inr hquote, by simp⟩
  | importRule =>
    obtain ⟨-, -, -, -, hclosing⟩ := h
    exact ⟨[], _, [], rfl, .inr hclosing, by simp⟩

/-- A text of the shape at the beginning is enough for a match. -/
theorem Form.exists_match? {form : Form} {e : Enclosed} (h : form.IsMatch e) (rest : Text) :
    ∃ e', form.pattern.match? (e.text ++ rest) = some e' := by
  have hmem : e ∈ form.pattern.ways (e.text ++ rest) :=
    mem_ways_iff.mpr ⟨h, List.prefix_append _ _⟩
  rw [← Option.isSome_iff_exists, Pattern.match?, List.isSome_head?]
  exact List.ne_nil_of_mem hmem

/-- Recognises the preferred match of a form. -/
def Form.recognise (form : Form) : Recogniser Enclosed :=
  fun text => (form.pattern.match? text).map Enclosed.finding

theorem Form.length_of_recognise {form : Form} {text : Text} {e : Enclosed} {length : Nat}
    (h : form.recognise text = some (e, length)) : length = e.text.length :=
  (exists_of_finding h).2

/-- A reference is the preferred match where it begins. -/
theorem exists_match_of_mem_found {form : Form} {css : Text} {r : Reference}
    (h : r ∈ found form css) :
    ∃ before rest e, css = before ++ rest ∧ form.pattern.match? rest = some e ∧
      r = ofFinding form (before.length, e) := by
  obtain ⟨o, ho, rfl⟩ := List.mem_map.mp h
  obtain ⟨before, rest, length, rfl, hposition, hfound⟩ := mem_occurrences ho
  obtain ⟨e, he, heq⟩ := Option.map_eq_some_iff.mp hfound
  rw [Enclosed.finding, Prod.mk.injEq] at heq
  refine ⟨before, rest, e, rfl, he, ?_⟩
  rw [ofFinding, ofFinding, hposition, heq.1]

end Reference

end StylesheetBuild
