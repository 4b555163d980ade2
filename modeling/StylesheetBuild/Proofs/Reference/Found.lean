/-
The matches of the two patterns, and how their arguments lie to one another.

`found form css` are the matches of one pattern in a stylesheet, from left to right, none
beginning inside the one before, and each the preferred one where it begins.

* **`urls_eq_found`**, **`imports_eq_found`** — the scanner looks for just these;
* **`exists_of_mem_found`** — a match is there, with its argument where it says;
* **`found_pairwise`** — arguments of one form do not overlap;
* **`start_ne_start`** — an argument of `@import` and one of `url( )` never start together: the
  quote in front of the first has a keyword before it, the quote in front of the second a bracket;
* **`finish_le_of_start_lt`** — an argument of `url( )` has no quote in it, so it cannot reach into
  an argument of `@import`.
-/
import StylesheetBuild.Proofs.Reference.Preferred
import StylesheetBuild.Proofs.Text.Occurrences
import StylesheetBuild.Reference.Scan

namespace StylesheetBuild.Reference

open Text

/-- The pattern of a form. -/
def Form.pattern : Form → Pattern
  | .url => Url.pattern
  | .importRule => ImportRule.pattern

/-- The matches of a form's pattern in `css`. -/
def found (form : Form) (css : Text) : List Reference :=
  (occurrences (fun text => (form.pattern.match? text).map Enclosed.finding) css).map
    (ofFinding form)

theorem urls_eq_found (css : Text) : urls css = found .url css := by
  have h : Url.recognise = fun text => (Url.pattern.match? text).map Enclosed.finding := by
    funext text
    rw [Url.recognise, Url.enclosed?_eq_match?]
  rw [urls, h]
  rfl

theorem imports_eq_found (css : Text) : imports css = found .importRule css := by
  have h : ImportRule.recognise =
      fun text => (ImportRule.pattern.match? text).map Enclosed.finding := by
    funext text
    rw [ImportRule.recognise, ImportRule.enclosed?_eq_match?]
  rw [imports, h]
  rfl

theorem exists_of_finding {pattern : Pattern} {text : Text} {e : Enclosed} {length : Nat}
    (h : (pattern.match? text).map Enclosed.finding = some (e, length)) :
    e ∈ pattern.ways text ∧ length = e.text.length := by
  obtain ⟨e', he, heq⟩ := Option.map_eq_some_iff.mp h
  rw [Enclosed.finding, Prod.mk.injEq] at heq
  obtain ⟨rfl, rfl⟩ := heq
  exact ⟨List.mem_of_head? he, rfl⟩

/-- A match is there, with its argument where it says. -/
theorem exists_of_mem_found {form : Form} {css : Text} {r : Reference} (h : r ∈ found form css) :
    ∃ before e after, css = before ++ e.text ++ after ∧
      e ∈ form.pattern.ways (e.text ++ after) ∧
      r = ⟨form, e.argument, (before ++ e.before).length⟩ := by
  obtain ⟨o, ho, rfl⟩ := List.mem_map.mp h
  obtain ⟨before, rest, length, rfl, hposition, hfound⟩ := mem_occurrences ho
  obtain ⟨hways, -⟩ := exists_of_finding hfound
  obtain ⟨⟨after, rfl⟩, -⟩ := Pattern.mem_ways hways
  refine ⟨before, o.2, after, by simp, hways, ?_⟩
  rw [ofFinding, hposition, List.length_append]

theorem form_of_mem_found {form : Form} {css : Text} {r : Reference} (h : r ∈ found form css) :
    r.form = form := by
  obtain ⟨o, -, rfl⟩ := List.mem_map.mp h
  rfl

/-- Arguments of one form do not overlap. -/
theorem found_pairwise (form : Form) (css : Text) :
    (found form css).Pairwise fun r s => r.finish ≤ s.start := by
  have hsize : ∀ {text : Text} {e : Enclosed} {length : Nat},
      (form.pattern.match? text).map Enclosed.finding = some (e, length) →
        length = e.text.length := fun h => (exists_of_finding h).2
  refine List.pairwise_map.mpr ((occurrencesFrom_pairwise hsize 0 0 css).imp ?_)
  intro o o' h
  rw [Enclosed.length_text] at h
  show o.1 + o.2.before.length + o.2.argument.length ≤ o'.1 + o'.2.before.length
  omega

theorem argument_of_mem_found {form : Form} {css : Text} {r : Reference}
    (h : r ∈ found form css) : r.argument ≠ [] ∧ ∀ c ∈ r.argument, isQuote c = false := by
  obtain ⟨before, e, after, -, hways, rfl⟩ := exists_of_mem_found h
  obtain ⟨-, -, hargument, -⟩ := Pattern.mem_ways hways
  cases form with
  | url =>
    obtain ⟨hne, hall⟩ := hargument
    refine ⟨hne, fun c hc => ?_⟩
    have := hall c hc
    simp only [Url.isArgumentChar, Bool.and_eq_true, Bool.not_eq_true'] at this
    exact this.1
  | importRule =>
    obtain ⟨hne, hall⟩ := hargument
    exact ⟨hne, fun c hc => by simpa using hall c hc⟩

theorem start_lt_finish {form : Form} {css : Text} {r : Reference} (h : r ∈ found form css) :
    r.start < r.finish := by
  have := List.length_pos_iff.mpr (argument_of_mem_found h).1
  rw [finish]
  omega

/-! ### What stands in front of an argument -/

/-- An argument of `@import` has a quote in front of it, and before that only blanks behind the
keyword. -/
theorem front_of_import {css : Text} {r : Reference} (h : r ∈ found .importRule css) :
    ∃ front keyword blanks quote, front = keyword ++ ['t'] ++ blanks ++ [quote] ∧
      front <+: css ∧ front.length = r.start ∧ isQuote quote ∧ ∀ c ∈ blanks, isBlank c := by
  obtain ⟨before, e, after, rfl, hways, rfl⟩ := exists_of_mem_found h
  obtain ⟨-, ⟨parts, hparts, hfront⟩, -⟩ := Pattern.mem_ways hways
  obtain _ | ⟨hkeyword, _ | ⟨hblanks, _ | ⟨⟨quote, hquote, rfl⟩, _ | _⟩⟩⟩ := hparts
  rename_i blanks
  refine ⟨before ++ e.before, before ++ ['@', 'i', 'm', 'p', 'o', 'r'], blanks, quote, ?_, ?_,
    rfl, hquote, hblanks⟩
  · rw [hfront, hkeyword]
    simp
  · exact ⟨e.argument ++ e.after ++ after, by simp [Enclosed.text]⟩

/-- An argument of `url( )` may have a quote in front of it, and before that only blanks behind
the bracket. -/
theorem front_of_url {css : Text} {r : Reference} (h : r ∈ found .url css) :
    ∃ front keyword blanks quote, front = keyword ++ ['('] ++ blanks ++ quote ∧
      front <+: css ∧ front.length = r.start ∧ (∀ c ∈ blanks, isBlank c) ∧
      (quote = [] ∨ ∃ c, isQuote c ∧ quote = [c]) := by
  obtain ⟨before, e, after, rfl, hways, rfl⟩ := exists_of_mem_found h
  obtain ⟨-, ⟨parts, hparts, hfront⟩, -⟩ := Pattern.mem_ways hways
  obtain _ | ⟨hkeyword, _ | ⟨hinner, _ | ⟨hbracket, _ | ⟨hblanks, _ | ⟨hquote, _ | _⟩⟩⟩⟩⟩ :=
    hparts
  rename_i inner _ blanks quote
  refine ⟨before ++ e.before, before ++ ['u', 'r', 'l'] ++ inner, blanks, quote, ?_, ?_, rfl,
    hblanks, hquote⟩
  · rw [hfront, hkeyword, hbracket]
    simp
  · exact ⟨e.argument ++ e.after ++ after, by simp [Enclosed.text]⟩

/-- Prefixes of one text that are equally long are equal. -/
theorem eq_of_prefix_of_length {s t text : Text} (hs : s <+: text) (ht : t <+: text)
    (h : s.length = t.length) : s = t :=
  (List.prefix_of_prefix_length_le hs ht (Nat.le_of_eq h)).eq_of_length h

/-- An argument of `@import` and one of `url( )` never start together. -/
theorem start_ne_start {css : Text} {i u : Reference} (hi : i ∈ found .importRule css)
    (hu : u ∈ found .url css) : i.start ≠ u.start := by
  intro hstart
  obtain ⟨front, keyword, blanks, quote, hfront, hprefix, hlength, hquote, hblanks⟩ :=
    front_of_import hi
  obtain ⟨front', keyword', blanks', quote', hfront', hprefix', hlength', hblanks', hquote'⟩ :=
    front_of_url hu
  have heq : front = front' :=
    eq_of_prefix_of_length hprefix hprefix' (by rw [hlength, hlength', hstart])
  -- read from the end, both fronts are the same text
  have hback : quote :: (blanks.reverse ++ 't' :: keyword.reverse) =
      quote'.reverse ++ (blanks'.reverse ++ '(' :: keyword'.reverse) := by
    have := congrArg List.reverse (hfront.symm.trans (heq.trans hfront'))
    simpa using this
  rcases hquote' with rfl | ⟨c, hc, rfl⟩
  · -- the quote would be a blank or the bracket
    cases hrev : blanks'.reverse with
    | nil =>
      rw [hrev] at hback
      have : quote = '(' := (List.cons.inj hback).1
      rw [this] at hquote
      exact absurd hquote (by decide)
    | cons b bs =>
      rw [hrev] at hback
      have : quote = b := (List.cons.inj hback).1
      have hb : isBlank b := hblanks' b (List.mem_reverse.mp (hrev ▸ List.mem_cons_self))
      rw [← this, isBlank_of_isQuote hquote] at hb
      exact absurd hb (by decide)
  · -- behind the quote and the blanks the keyword would be the bracket
    have htail : blanks.reverse ++ 't' :: keyword.reverse =
        blanks'.reverse ++ '(' :: keyword'.reverse := (List.cons.inj hback).2
    have hdrop := congrArg (List.dropWhile isBlank) htail
    rw [List.dropWhile_append_of_pos fun b hb => hblanks b (List.mem_reverse.mp hb),
      List.dropWhile_append_of_pos fun b hb => hblanks' b (List.mem_reverse.mp hb),
      List.dropWhile_cons_of_neg (by decide), List.dropWhile_cons_of_neg (by decide)] at hdrop
    exact absurd (List.cons.inj hdrop).1 (by decide)

theorem argument_eq_slice {form : Form} {css : Text} {r : Reference} (h : r ∈ found form css) :
    ∃ before after, css = before ++ r.argument ++ after ∧ before.length = r.start := by
  obtain ⟨before, e, after, rfl, -, rfl⟩ := exists_of_mem_found h
  exact ⟨before ++ e.before, e.after ++ after, by simp [Enclosed.text], rfl⟩

/-- An argument of `url( )` that starts in front of one of `@import` ends in front of it. -/
theorem finish_le_of_start_lt {css : Text} {i u : Reference} (hi : i ∈ found .importRule css)
    (hu : u ∈ found .url css) (h : u.start < i.start) : u.finish ≤ i.start := by
  by_contra hlt
  obtain ⟨front, keyword, blanks, quote, hfront, ⟨rest, hcss⟩, hlength, hquote, -⟩ :=
    front_of_import hi
  obtain ⟨before, after, hcss', hbefore⟩ := argument_eq_slice hu
  -- the quote in front of the one would be a character of the other
  have hget : css[i.start - 1]? = some quote := by
    rw [← hcss, ← hlength, hfront]
    simp
  rw [finish] at hlt
  have hpos : i.start - 1 - before.length < u.argument.length := by omega
  rw [hcss', List.append_assoc, List.getElem?_append_right (by omega),
    List.getElem?_append_left hpos] at hget
  have hmem := List.mem_of_getElem? hget
  rw [(argument_of_mem_found hu).2 quote hmem] at hquote
  exact absurd hquote (by decide)

end StylesheetBuild.Reference
