/-
What a scan finds in a rewritten stylesheet.

A match in the rewritten text begins with a keyword, up to a bracket or a quote.  These characters
belong to gaps, so the keyword is in the stylesheet, too, and from there on the stylesheet matches
as well.

* **`exists_isMatch_sources`** — what encloses an argument after rewriting enclosed one before;
* **`isExternal_of_match?_url`**, **`isExternal_of_match?_importRule`** — so the argument of a match
  begins with what has been put into a slot, and is external;
* **`isExternal_of_mem_scan`** — nothing else is found.
-/
import StylesheetBuild.Proofs.Reference.Delimiters
import StylesheetBuild.Proofs.Rewrite.Weave

namespace StylesheetBuild

open Text
open Reference (isDelimiter Plain Flat)

/-! ### Behind the opening of a match -/

namespace Url

theorem isArgumentChar_of_not_isDelimiter {c : Char} (h : isDelimiter c = false) :
    isArgumentChar c := by
  simp only [isDelimiter, Bool.or_eq_false_iff, decide_eq_false_iff_not] at h
  simp [isArgumentChar, h]

/-- An argument that begins with an external text is external. -/
theorem isExternal_of_argument? {target rest argument closing : Text}
    (htarget : Target.isExternal target) (hplain : Plain target)
    (h : argument? (target ++ rest) = some (argument, closing)) : Target.isExternal argument := by
  have hrun : Target.isExternal ((target ++ rest).takeWhile isArgumentChar) := by
    rw [List.takeWhile_append_of_pos fun c hc => isArgumentChar_of_not_isDelimiter (hplain c hc)]
    exact Target.isExternal_append htarget _
  rcases (argument?_cases h).2 with rfl | ⟨rfl, -⟩
  · exact Target.isExternal_trimmed hrun
  · exact hrun

/-- So it is behind blanks and a quote. -/
theorem isExternal_of_inside? {opening blanks quote target rest : Text} {e : Enclosed}
    (hblanks : ∀ c ∈ blanks, isBlank c) (hquote : IsOptionalQuote quote)
    (htarget : Target.isExternal target) (hplain : Plain target)
    (h : inside? opening (blanks ++ (quote ++ (target ++ rest))) = some e) :
    Target.isExternal e.argument := by
  obtain ⟨c, others, rfl, hc⟩ := Target.exists_of_isExternal htarget
  have hargument := isArgumentChar_of_not_isDelimiter (hplain c List.mem_cons_self)
  simp only [isArgumentChar, Bool.and_eq_true, Bool.not_eq_true', bne_iff_ne] at hargument
  have hstops : Stops isBlank (quote ++ (c :: others ++ rest)) := by
    rcases hquote with rfl | ⟨d, hd, rfl⟩
    · exact stops_cons.mpr hc
    · exact stops_cons.mpr (isBlank_of_isQuote hd)
  have hoptional : optionalQuote (quote ++ (c :: others ++ rest)) =
      (quote, c :: others ++ rest) := by
    rcases hquote with rfl | ⟨d, hd, rfl⟩
    · simp [optionalQuote, hargument.1]
    · simp [optionalQuote, hd]
  rw [inside?, takeWhile_append_of_stops hblanks hstops, dropWhile_append_of_stops hblanks hstops,
    hoptional] at h
  simp only at h
  cases hfound : argument? (c :: others ++ rest) with
  | none =>
    have hclosing : closing? (c :: others ++ rest) = none := closing?_cons hc hargument.2
    rw [hfound, hclosing] at h
    simp at h
  | some found =>
    rw [hfound] at h
    obtain rfl := Option.some_inj.mp h
    exact isExternal_of_argument? htarget hplain hfound

end Url

/-! ### What encloses an argument -/

namespace Rewrite

theorem isArgumentChar_of_mem_sources {cells : List Cell}
    (h : ∀ c ∈ targets cells, Url.isArgumentChar c) :
    ∀ c ∈ sources cells, Url.isArgumentChar c := by
  intro c hc
  by_cases hdelimiter : isDelimiter c
  · exact h c (mem_targets_of_mem_sources hdelimiter hc)
  · exact Url.isArgumentChar_of_not_isDelimiter (by simpa using hdelimiter)

theorem isQuote_of_mem_sources {cells : List Cell}
    (h : ∀ c ∈ targets cells, isQuote c = false) : ∀ c ∈ sources cells, isQuote c = false := by
  intro c hc
  cases hquote : isQuote c with
  | false => rfl
  | true =>
    have hdelimiter := Reference.isDelimiter_of_isQuote hquote
    rw [h c (mem_targets_of_mem_sources hdelimiter hc)] at hquote
    exact absurd hquote (by decide)

theorem sources_ne_nil_of_targets {cells : List Cell} (h : targets cells ≠ []) :
    sources cells ≠ [] := by
  refine sources_ne_nil ?_
  rintro rfl
  exact h rfl

/-- A quote in front of an argument was there before, and blanks without a quote count as part of
the argument. -/
theorem exists_opening {cells : List Cell} {inner opening rest : Text}
    (hinner : ∀ c ∈ inner, isBlank c) (hopening : IsOptionalQuote opening)
    (h : targets cells = inner ++ (opening ++ rest)) :
    ∃ inner' inner'' cells', (∀ c ∈ inner', isBlank c) ∧ (∀ c ∈ inner'', isBlank c) ∧
      sources cells = inner' ++ (opening ++ sources cells') ∧ targets cells' = inner'' ++ rest := by
  rcases hopening with rfl | ⟨quote, hquote, rfl⟩
  · exact ⟨[], inner, cells, by simp, hinner, rfl, h⟩
  · obtain ⟨front, cells', rfl, hfront, hrest⟩ :=
      exists_of_targets_eq (Reference.isDelimiter_of_isQuote hquote) h
    subst hfront
    refine ⟨targets front, [], cells', hinner, by simp, ?_, hrest⟩
    rw [eq_gapCells_of_blank hinner]
    simp

/-- The same for a quote behind an argument. -/
theorem exists_closing {cells : List Cell} {closing more front : Text}
    (hclosing : IsOptionalQuote closing) (hmore : ∀ c ∈ more, isBlank c)
    (h : targets cells = front ++ (closing ++ more)) :
    ∃ more' more'' cells', (∀ c ∈ more', isBlank c) ∧ (∀ c ∈ more'', isBlank c) ∧
      sources cells = sources cells' ++ (closing ++ more') ∧ targets cells' = front ++ more'' := by
  rcases hclosing with rfl | ⟨quote, hquote, rfl⟩
  · exact ⟨[], more, cells, by simp, hmore, by simp, h⟩
  · obtain ⟨cells', behind, rfl, hfront, hbehind⟩ :=
      exists_of_targets_eq (Reference.isDelimiter_of_isQuote hquote) h
    subst hbehind
    refine ⟨targets behind, [], cells', hmore, by simp, ?_, by simpa using hfront⟩
    rw [eq_gapCells_of_blank hmore]
    simp

/-- Behind blanks and perhaps a quote there is a first slot, with no more than these in front of
it. -/
theorem exists_first_slot_of_opening {front : List Cell} {inner opening : Text}
    (hinner : ∀ c ∈ inner, isBlank c) (hopening : IsOptionalQuote opening)
    (hfront : sources front = inner ++ opening) (s : Slot) (behind : List Cell) :
    ∃ spaces quote s' behind', front ++ .slot s :: behind =
      gapCells (spaces ++ quote) ++ .slot s' :: behind' ∧
      (∀ c ∈ spaces, isBlank c) ∧ IsOptionalQuote quote := by
  obtain ⟨gap, s', behind', hfirst, hgap⟩ := exists_first_slot front s behind
  rw [hfront] at hgap
  by_cases hblank : gap <+: inner
  · exact ⟨gap, [], s', behind', by rw [hfirst, List.append_nil],
      fun c hc => hinner c (hblank.subset hc), .inl rfl⟩
  · -- the gap reaches beyond the blanks, so it has the quote as well
    rcases hopening with rfl | ⟨quote, hquote, rfl⟩
    · exact absurd (by simpa using hgap) hblank
    · obtain rfl := (List.prefix_concat_iff.mp hgap).resolve_right hblank
      exact ⟨inner, [quote], s', behind', hfirst, hinner, .inr ⟨quote, hquote, rfl⟩⟩

/-- What encloses an argument behind a bracket after rewriting enclosed one before. -/
theorem exists_isMatch_sources {cells : List Cell}
    {blanks inner opening argument closing more rest : Text}
    (hblanks : ∀ c ∈ blanks, isBlank c) (hinner : ∀ c ∈ inner, isBlank c)
    (hopening : IsOptionalQuote opening) (hne : argument ≠ [])
    (hargument : ∀ c ∈ argument, Url.isArgumentChar c) (hclosing : IsOptionalQuote closing)
    (hmore : ∀ c ∈ more, isBlank c)
    (h : targets cells = inner ++ (opening ++ (argument ++ (closing ++ (more ++ ')' :: rest))))) :
    ∃ e rest', Url.IsMatch e ∧
      ['u', 'r', 'l'] ++ (blanks ++ '(' :: sources cells) = e.text ++ rest' := by
  -- cut in front of the bracket, then behind the opening quote, then in front of the closing one
  have hbracket : targets cells =
      (inner ++ (opening ++ (argument ++ (closing ++ more)))) ++ ')' :: rest := by
    simpa using h
  obtain ⟨front, behind, rfl, hfront, -⟩ := exists_of_targets_eq (by decide) hbracket
  obtain ⟨inner', inner'', middle, hinner', hinner'', hsources, hmiddle⟩ :=
    exists_opening hinner hopening hfront
  rw [← List.append_assoc] at hmiddle
  obtain ⟨more', more'', run, hmore', hmore'', hsources', hrun⟩ :=
    exists_closing hclosing hmore hmiddle
  have hrunchar : ∀ c ∈ targets run, Url.isArgumentChar c := by
    intro c hc
    rw [hrun, List.mem_append, List.mem_append] at hc
    rcases hc with (hc | hc) | hc
    · exact Url.isArgumentChar_of_isBlank (hinner'' c hc)
    · exact hargument c hc
    · exact Url.isArgumentChar_of_isBlank (hmore'' c hc)
  have hrunne : targets run ≠ [] := by
    rw [hrun]
    simp [hne]
  refine ⟨_, sources behind, .mk hblanks hinner' hopening (sources_ne_nil_of_targets hrunne)
    (isArgumentChar_of_mem_sources hrunchar) hclosing hmore', ?_⟩
  rw [sources_append, sources_gap, hsources, hsources']
  simp [Enclosed.text]

/-! ### Matches in a rewritten stylesheet -/

namespace Woven

variable {css : Text} {cells : List Cell}

/-- Characters in front of an opening bracket are characters of a gap, up to a delimiter. -/
theorem exists_of_bracket (hw : Woven css cells) {before after : List Cell} {x run : Text}
    (hrun : Plain run) (hcells : cells = before ++ .gap '(' :: after)
    (hbefore : targets before = x ++ run) :
    ∃ before', before = before' ++ gapCells run ∧ targets before' = x := by
  rcases eq_gapCells_or_last before with h | ⟨front, s, rest, rfl⟩
  · rw [hbefore, gapCells_append] at h
    exact ⟨gapCells x, h, targets_gapCells x⟩
  · rw [targets_append, targets_slot, targets_gapCells, ← List.append_assoc] at hbefore
    have hsuffix : rest <:+ x ++ run := ⟨_, hbefore⟩
    rcases List.suffix_or_suffix_of_suffix (List.suffix_append x run) hsuffix with
      ⟨more, rfl⟩ | hrest
    · refine ⟨front ++ .slot s :: gapCells more, by simp, ?_⟩
      rw [← List.append_assoc] at hbefore
      simpa using List.append_cancel_right hbefore
    · -- the bracket would be the next delimiter behind a slot
      have hplain : Plain rest := fun c hc => hrun c (hrest.subset hc)
      have hdelimiter := hw.delimiter_after (by decide) hplain
        (hcells.trans (List.append_assoc front _ _))
      exact absurd hdelimiter (by decide)

/-- Characters behind an `@` are characters of a gap, up to a delimiter. -/
theorem eq_gapCells_of_at (hw : Woven css cells) {before after behind : List Cell}
    (hbehind : Plain (targets behind)) (hcells : cells = before ++ .gap '@' :: (behind ++ after)) :
    behind = gapCells (targets behind) := by
  refine (eq_gapCells_or_first behind).resolve_right ?_
  rintro ⟨front, s, rest, rfl⟩
  have hplain : Plain front := fun c hc => hbehind c (by simp [hc])
  have hat : isDelimiter '@' := by decide
  have hslot : cells = before ++ .gap '@' :: (gapCells front ++ .slot s :: (rest ++ after)) := by
    simpa using hcells
  exact absurd (hw.delimiter_before hat hplain hslot) (by decide)

/-- Where a stylesheet matches there is a slot, as far behind the beginning of the match as the
argument. -/
theorem exists_slot_of_match (hw : Woven css cells) {form : Reference.Form}
    {front after : List Cell} {x lead rest : Text} {e : Enclosed} (hcells : cells = front ++ after)
    (hfront : sources front = x ++ lead) (hcss : css = x ++ rest)
    (h : form.pattern.match? rest = some e) (hlead : lead <+: e.before) :
    ∃ more s behind, after = more ++ .slot s :: behind ∧ lead ++ sources more = e.before := by
  obtain ⟨s, hs, hreference⟩ := hw.filled _ (Reference.mem_scan_of_match? hw.flat hcss h)
  obtain ⟨before, behind, hslot⟩ := List.append_of_mem hs
  obtain ⟨-, hstart⟩ := hw.placed hslot
  obtain ⟨-, tail, htail⟩ := Reference.Form.isMatch_of_match? h
  have hbefore : sources before = x ++ e.before := by
    have htext : sources before ++ (s.reference.argument ++ sources behind) =
        x ++ e.before ++ (e.argument ++ (e.after ++ tail)) := by
      rw [← hw.sources_eq, hslot, sources_append, sources_slot, ← htail] at hcss
      simpa [Enclosed.text] using hcss
    refine (List.append_inj htext ?_).1
    rw [hstart, hreference, List.length_append]
    rfl
  have hlength : (sources front).length ≤ (sources before).length := by
    have := hlead.length_le
    rw [hfront, hbefore, List.length_append, List.length_append]
    omega
  obtain ⟨more, rfl, hafter⟩ := exists_of_length_le (hcells.symm.trans hslot) hlength
  refine ⟨more, s, behind, hafter, ?_⟩
  rw [sources_append, hfront, List.append_assoc] at hbefore
  exact List.append_cancel_left hbefore

/-- Where a stylesheet matches `url( )`, the first slot behind the bracket has at most blanks and a
quote in front of it. -/
theorem exists_slot_of_bracket (hw : Woven css cells) {before after : List Cell}
    {blanks rest : Text} (hblanks : ∀ c ∈ blanks, isBlank c)
    (hcells : cells = before ++ gapCells (['u', 'r', 'l'] ++ blanks) ++ .gap '(' :: after)
    {e : Enclosed} (hmatch : Url.IsMatch e)
    (htext : ['u', 'r', 'l'] ++ (blanks ++ '(' :: sources after) = e.text ++ rest) :
    ∃ spaces quote s behind, after = gapCells (spaces ++ quote) ++ .slot s :: behind ∧
      (∀ c ∈ spaces, isBlank c) ∧ IsOptionalQuote quote := by
  obtain ⟨e', hpreferred⟩ :=
    Reference.Form.exists_match? (show Reference.Form.url.IsMatch e from hmatch) rest
  have hcss : css = sources before ++ (e.text ++ rest) := by
    rw [← hw.sources_eq, hcells, ← htext]
    simp
  obtain ⟨⟨hblanks', hinner, hopening, -, -, -, -⟩, rest', hprefix⟩ :=
    Url.isMatch_of_match? hpreferred
  rename_i blanks' inner opening argument closing more
  -- the match that counts begins with the same keyword, blanks and bracket
  have hkeyword : blanks' ++ '(' :: (inner ++ opening ++ argument ++ closing ++ more ++
      ')' :: rest') = blanks ++ '(' :: sources after := by
    rw [← htext] at hprefix
    simpa [Enclosed.text] using hprefix
  obtain ⟨rfl, -, -⟩ := eq_of_first (Reference.plain_blanks hblanks')
    (Reference.plain_blanks hblanks) (by decide) (by decide) hkeyword
  have hcut : cells =
      (before ++ gapCells (['u', 'r', 'l'] ++ blanks') ++ [.gap '(']) ++ after := by
    simpa using hcells
  have hlead : sources (before ++ gapCells (['u', 'r', 'l'] ++ blanks') ++ [.gap '(']) =
      sources before ++ (['u', 'r', 'l'] ++ blanks' ++ ['(']) := by
    simp
  obtain ⟨front, s, behind, rfl, hfront⟩ :=
    hw.exists_slot_of_match hcut hlead hcss hpreferred (by simp)
  exact exists_first_slot_of_opening hinner hopening (by simpa using hfront) s behind

/-- Where a stylesheet matches `@import`, there is a slot right behind the quote. -/
theorem exists_slot_of_quote (hw : Woven css cells) {before inside after : List Cell}
    {blanks : Text} {opening closing : Char} (hblanks : ∀ c ∈ blanks, isBlank c)
    (hopening : isQuote opening) (hne : sources inside ≠ [])
    (hinside : ∀ c ∈ sources inside, isQuote c = false) (hclosing : isQuote closing)
    (hcells : cells = before ++ gapCells (['@', 'i', 'm', 'p', 'o', 'r', 't'] ++ blanks) ++
      .gap opening :: (inside ++ .gap closing :: after)) :
    ∃ s behind, inside = .slot s :: behind := by
  have hmatch : Reference.Form.importRule.IsMatch ⟨['@', 'i', 'm', 'p', 'o', 'r', 't'] ++
      (blanks ++ [opening]), sources inside, [closing]⟩ :=
    .mk hblanks hopening hne hinside hclosing
  obtain ⟨e, hpreferred⟩ := Reference.Form.exists_match? hmatch (sources after)
  obtain ⟨⟨hblanks', hopening', -, -, -⟩, rest', hprefix⟩ :=
    ImportRule.isMatch_of_match? hpreferred
  rename_i blanks' argument opening' closing'
  have hkeyword : blanks' ++ opening' :: (argument ++ closing' :: rest') =
      blanks ++ opening :: (sources inside ++ closing :: sources after) := by
    simpa [Enclosed.text] using hprefix
  obtain ⟨rfl, rfl, -⟩ := eq_of_first (Reference.plain_blanks hblanks')
    (Reference.plain_blanks hblanks) (Reference.isDelimiter_of_isQuote hopening')
    (Reference.isDelimiter_of_isQuote hopening) hkeyword
  have hcut : cells = (before ++ gapCells (['@', 'i', 'm', 'p', 'o', 'r', 't'] ++ blanks') ++
      [.gap opening']) ++ (inside ++ .gap closing :: after) := by
    simpa using hcells
  have hlead : sources (before ++ gapCells (['@', 'i', 'm', 'p', 'o', 'r', 't'] ++ blanks') ++
      [.gap opening']) = sources before ++
        (['@', 'i', 'm', 'p', 'o', 'r', 't'] ++ (blanks' ++ [opening'])) := by
    simp
  have hcss : css = sources before ++ (Enclosed.text ⟨['@', 'i', 'm', 'p', 'o', 'r', 't'] ++
      (blanks' ++ [opening']), sources inside, [closing]⟩ ++ sources after) := by
    rw [← hw.sources_eq, hcells]
    simp
  obtain ⟨front, s, behind, hafter, hfront⟩ :=
    hw.exists_slot_of_match hcut hlead hcss hpreferred List.prefix_rfl
  obtain rfl : front = [] := by
    by_contra hne
    exact sources_ne_nil hne (by simpa using hfront)
  obtain ⟨cell, inside, rfl⟩ := List.exists_cons_of_ne_nil (show inside ≠ [] by
    rintro rfl
    exact hne rfl)
  obtain ⟨rfl, -⟩ := List.cons.inj hafter
  exact ⟨s, inside, rfl⟩

/-- The argument of a match of `url( )` in the rewritten text is external. -/
theorem isExternal_of_match?_url (hw : Woven css cells) {x v : Text} (hx : targets cells = x ++ v)
    {e : Enclosed} (h : Url.pattern.match? v = some e) : Target.isExternal e.argument := by
  obtain ⟨hmatch, rest, rfl⟩ := Url.isMatch_of_match? h
  obtain ⟨hblanks, hinner, hopening, hne, hargument, hclosing, hmore⟩ := hmatch
  rename_i blanks inner opening argument closing more
  have hbracket : targets cells = x ++ (['u', 'r', 'l'] ++ blanks) ++
      '(' :: (inner ++ (opening ++ (argument ++ (closing ++ (more ++ ')' :: rest))))) := by
    simpa [Enclosed.text] using hx
  obtain ⟨before, after, hcells, hbefore, hafter⟩ := exists_of_targets_eq (by decide) hbracket
  have hkeyword : Plain (['u', 'r', 'l'] ++ blanks) :=
    Plain.append (by decide) (Reference.plain_blanks hblanks)
  obtain ⟨front, rfl, rfl⟩ := hw.exists_of_bracket hkeyword hcells hbefore
  -- the stylesheet matches at the same keyword, so there is a slot behind the bracket
  obtain ⟨e', rest', hmatch', htext⟩ :=
    exists_isMatch_sources hblanks hinner hopening hne hargument hclosing hmore hafter
  obtain ⟨spaces, quote, s, behind, rfl, hspaces, hquote⟩ :=
    hw.exists_slot_of_bracket hblanks hcells hmatch' htext
  have hv : Enclosed.text ⟨['u', 'r', 'l'] ++ (blanks ++ '(' :: (inner ++ opening)), argument,
      closing ++ (more ++ [')'])⟩ ++ rest = ['u', 'r', 'l'] ++
        (blanks ++ '(' :: (spaces ++ (quote ++ (s.target ++ targets behind)))) := by
    have htargets : spaces ++ (quote ++ (s.target ++ targets behind)) =
        inner ++ (opening ++ (argument ++ (closing ++ (more ++ ')' :: rest)))) := by
      rw [← hafter]
      simp
    rw [htargets]
    simp [Enclosed.text]
  rw [hv, ← Url.enclosed?_eq_match?, Url.enclosed?_eq_bind, Url.opening?_append hblanks,
    Option.bind_some] at h
  exact Url.isExternal_of_inside? hspaces hquote s.isExternal_target s.plain_target h

/-- The argument of a match of `@import` in the rewritten text is external. -/
theorem isExternal_of_match?_importRule (hw : Woven css cells) {x v : Text}
    (hx : targets cells = x ++ v) {e : Enclosed} (h : ImportRule.pattern.match? v = some e) :
    Target.isExternal e.argument := by
  obtain ⟨hmatch, rest, rfl⟩ := ImportRule.isMatch_of_match? h
  obtain ⟨hblanks, hopening, hne, hargument, hclosing⟩ := hmatch
  rename_i blanks argument opening closing
  have hat : targets cells = x ++ '@' :: (['i', 'm', 'p', 'o', 'r', 't'] ++ blanks ++
      opening :: (argument ++ closing :: rest)) := by
    simpa [Enclosed.text] using hx
  obtain ⟨before, after, hcells, hbefore, hafter⟩ := exists_of_targets_eq (by decide) hat
  obtain ⟨keyword, after, rfl, hkeyword, hquote⟩ :=
    exists_of_targets_eq (Reference.isDelimiter_of_isQuote hopening) hafter
  obtain ⟨inside, behind, rfl, hinside, -⟩ :=
    exists_of_targets_eq (Reference.isDelimiter_of_isQuote hclosing) hquote
  have hplain : Plain (targets keyword) := by
    rw [hkeyword]
    exact Plain.append (by decide) (Reference.plain_blanks hblanks)
  have hgap := hw.eq_gapCells_of_at hplain hcells
  rw [hkeyword] at hgap
  have hcells' : cells = before ++ gapCells (['@', 'i', 'm', 'p', 'o', 'r', 't'] ++ blanks) ++
      .gap opening :: (inside ++ .gap closing :: behind) := by
    rw [hcells, hgap]
    simp [gapCells]
  obtain ⟨s, rest', rfl⟩ := hw.exists_slot_of_quote hblanks hopening
    (sources_ne_nil_of_targets (by rwa [hinside]))
    (isQuote_of_mem_sources (by rwa [hinside])) hclosing hcells'
  show Target.isExternal argument
  rw [← hinside, targets_slot]
  exact Target.isExternal_append s.isExternal_target _

/-- Everything that is found in the rewritten text is external. -/
theorem isExternal_of_mem_scan (hw : Woven css cells) {r : Reference}
    (h : r ∈ Reference.scan (targets cells)) : Target.isExternal r.argument := by
  obtain ⟨before, rest, e, hcss, hmatch, hr⟩ :=
    Reference.exists_match_of_mem_found (Reference.mem_scan_iff.mp h).1
  rw [hr]
  show Target.isExternal e.argument
  cases hform : r.form with
  | url =>
    rw [hform] at hmatch
    exact hw.isExternal_of_match?_url hcss hmatch
  | importRule =>
    rw [hform] at hmatch
    exact hw.isExternal_of_match?_importRule hcss hmatch

end Woven

end Rewrite

end StylesheetBuild
