/-
Stylesheets without references inside references.

Quotes, brackets and `@` delimit references.  In a flat stylesheet no argument contains one of
them, so a match of one pattern neither begins inside another match nor inside an argument of the
other form:

* **`mem_scan_of_mem_found`** — no match is dropped;
* **`mem_scan_of_match?`** — and none is missed: wherever a pattern matches, there is a reference.
-/
import StylesheetBuild.Proofs.Reference.Shape
import StylesheetBuild.Proofs.Reference.Spans
import StylesheetBuild.Proofs.Text.Runs

namespace StylesheetBuild.Reference

open Text

/-- A character that can delimit a reference. -/
def isDelimiter (c : Char) : Bool :=
  isQuote c || c = '(' || c = ')' || c = '@'

/-- A text without delimiters. -/
def Plain (text : Text) : Prop :=
  ∀ c ∈ text, isDelimiter c = false

instance (text : Text) : Decidable (Plain text) :=
  List.decidableBAll (fun c => isDelimiter c = false) text

/-- No argument in `css` contains a delimiter. -/
def Flat (css : Text) : Prop :=
  ∀ r ∈ scan css, Plain r.argument

/-! ### Delimiters -/

theorem isDelimiter_iff {c : Char} :
    isDelimiter c ↔ c = '\'' ∨ c = '"' ∨ c = '(' ∨ c = ')' ∨ c = '@' := by
  simp [isDelimiter, isQuote, or_assoc]

theorem isDelimiter_of_isQuote {c : Char} (h : isQuote c) : isDelimiter c := by
  simp [isDelimiter, h]

theorem isDelimiter_of_isBlank {c : Char} (h : isBlank c) : isDelimiter c = false := by
  have hquote : isQuote c = false := by
    cases hq : isQuote c with
    | false => rfl
    | true => simp [isBlank_of_isQuote hq] at h
  have hne : ∀ d, isBlank d = false → c ≠ d := by
    rintro d hd rfl
    simp [hd] at h
  simp [isDelimiter, hquote, hne '(' (by decide), hne ')' (by decide), hne '@' (by decide)]

theorem plain_blanks {blanks : Text} (h : ∀ c ∈ blanks, isBlank c) : Plain blanks :=
  fun c hc => isDelimiter_of_isBlank (h c hc)

theorem plain_iff {text : Text} : Plain text ↔ ∀ c, isDelimiter c → c ∉ text := by
  constructor
  · intro h c hc hmem
    rw [h c hmem] at hc
    exact absurd hc (by decide)
  · intro h c hmem
    rw [Bool.eq_false_iff]
    exact fun hc => h c hc hmem

theorem Plain.not_mem {text : Text} (h : Plain text) {c : Char} (hc : isDelimiter c) :
    c ∉ text :=
  plain_iff.mp h c hc

theorem Plain.of_subset {s t : Text} (ht : Plain t) (h : s ⊆ t) : Plain s :=
  fun c hc => ht c (h hc)

theorem Plain.append {s t : Text} (hs : Plain s) (ht : Plain t) : Plain (s ++ t) :=
  List.forall_mem_append.mpr ⟨hs, ht⟩

/-! ### No match is dropped -/

theorem mem_scan_of_mem_imports {css : Text} {i : Reference} (h : i ∈ found .importRule css) :
    i ∈ scan css := by
  have hform := form_of_mem_found h
  refine mem_scan_iff.mpr ⟨hform ▸ h, fun hurl => ?_⟩
  rw [hform] at hurl
  exact absurd hurl (by decide)

/-- What is in front of a later character of an argument of `@import`, seen from its quote. -/
theorem take_of_inside {css : Text} {i : Reference} (hi : i ∈ found .importRule css) {n : Nat}
    (hstart : i.start ≤ n) (hfinish : n < i.finish) :
    ∃ front quote run, css.take n = front ++ quote :: run ∧ isQuote quote ∧
      run <+: i.argument ∧ run.length = n - i.start := by
  obtain ⟨front, keyword, blanks, quote, hfront, hprefix, hlength, hquote, -⟩ := front_of_import hi
  obtain ⟨before, after, rfl, hbefore⟩ := argument_eq_slice hi
  obtain rfl : front = before := by
    refine eq_of_prefix_of_length hprefix ?_ (hlength.trans hbefore.symm)
    rw [List.append_assoc]
    exact List.prefix_append _ _
  rw [finish] at hfinish
  refine ⟨keyword ++ ['t'] ++ blanks, quote, i.argument.take (n - i.start), ?_, hquote,
    List.take_prefix _ _, ?_⟩
  · have hn : n = front.length + (n - i.start) := by omega
    rw [hn, List.append_assoc, List.take_length_add_append,
      List.take_append_of_le_length (by omega), hlength, Nat.add_sub_cancel_left, hfront]
    simp
  · rw [List.length_take]
    omega

/-- No match is dropped. -/
theorem mem_scan_of_mem_found {css : Text} (hflat : Flat css) {form : Form} {r : Reference}
    (h : r ∈ found form css) : r ∈ scan css := by
  have hform := form_of_mem_found h
  cases form with
  | importRule => exact mem_scan_of_mem_imports h
  | url =>
    refine mem_scan_iff.mpr ⟨hform ▸ h, fun _ i hi hform' ⟨hstart, hfinish⟩ => ?_⟩
    rw [mem_allFound, hform'] at hi
    have hplain : Plain i.argument := hflat i (mem_scan_of_mem_imports hi)
    obtain ⟨front, keyword, blanks, quote, rfl, hprefix, hlength, hblanks, hquote⟩ :=
      front_of_url h
    obtain ⟨front', opening, run, htake, hopening, hrun, hlength'⟩ :=
      take_of_inside hi hstart hfinish
    have hplain' : Plain run := fun c hc => hplain c (hrun.subset hc)
    have hfront : keyword ++ ['('] ++ blanks ++ quote = front' ++ opening :: run := by
      rw [← htake, ← hlength]
      exact List.prefix_iff_eq_take.mp hprefix
    -- the last delimiter in front of the argument is the quote of `@import`
    rcases hquote with rfl | ⟨c, hc, rfl⟩
    · have heq : keyword ++ '(' :: blanks = front' ++ opening :: run := by simpa using hfront
      obtain ⟨-, hbracket, -⟩ := eq_of_last (plain_blanks hblanks) hplain' (by decide)
        (isDelimiter_of_isQuote hopening) heq
      rw [← hbracket] at hopening
      exact absurd hopening (by decide)
    · have heq : keyword ++ '(' :: blanks ++ c :: [] = front' ++ opening :: run := by
        simpa using hfront
      obtain ⟨-, -, hnil⟩ := eq_of_last (by simp) hplain' (isDelimiter_of_isQuote hc)
        (isDelimiter_of_isQuote hopening) heq
      have hne := start_ne_start hi h
      rw [← hnil, List.length_nil] at hlength'
      omega

/-! ### No match is missed -/

theorem not_mem_blanks {blanks : Text} (h : ∀ c ∈ blanks, isBlank c) {c : Char}
    (hc : isBlank c = false) : c ∉ blanks := by
  intro hmem
  rw [h c hmem] at hc
  exact absurd hc (by decide)

theorem not_mem_optionalQuote {quote : Text} (h : IsOptionalQuote quote) {c : Char}
    (hc : isQuote c = false) : c ∉ quote := by
  rcases h with rfl | ⟨d, hd, rfl⟩
  · exact List.not_mem_nil
  · rintro hmem
    rw [List.mem_singleton.mp hmem, hd] at hc
    exact absurd hc (by decide)

/-- No match of `@import` begins inside another one. -/
theorem ImportRule.not_inside {e e' : Enclosed} (h : ImportRule.IsMatch e)
    (h' : ImportRule.IsMatch e') (hplain : Plain e.argument) {y z : Text} (hy : y ≠ [])
    (hz : z ≠ []) (heq : e.text = y ++ z) {rest : Text} (hrest : e'.text <+: z ++ rest) :
    False := by
  obtain ⟨hblanks, hopening, -, -, hclosing⟩ := h
  obtain ⟨-, -, -, -, -⟩ := h'
  rename_i blanks argument opening closing _ _ _ _
  obtain ⟨c, y, rfl⟩ := List.exists_cons_of_ne_nil hy
  obtain ⟨d, z, rfl⟩ := List.exists_cons_of_ne_nil hz
  obtain rfl : '@' = d := (List.cons_prefix_cons.mp hrest).1
  have htail : ['i', 'm', 'p', 'o', 'r', 't'] ++ (blanks ++ [opening]) ++ argument ++ [closing] =
      y ++ '@' :: z := (List.cons.inj heq).2
  have hne : ∀ q, isQuote q → '@' ≠ q := by
    rintro q hq rfl
    exact absurd hq (by decide)
  have hmem : '@' ∈ y ++ '@' :: z := by simp
  rw [← htail] at hmem
  simp [not_mem_blanks hblanks, hplain.not_mem, hne _ hopening, hne _ hclosing,
    show isBlank '@' = false by decide, show isDelimiter '@' from by decide] at hmem

/-- No match of `url( )` begins inside another one. -/
theorem Url.not_inside {e e' : Enclosed} (h : Url.IsMatch e) (h' : Url.IsMatch e')
    (hplain : Plain e.argument) {y z : Text} (hy : y ≠ []) (hz : z ≠ []) (heq : e.text = y ++ z)
    {rest : Text} (hrest : e'.text <+: z ++ rest) : False := by
  obtain ⟨hblanks, hinner, hopening, -, -, hclosing, hmore⟩ := h
  obtain ⟨hblanks', -, -, -, -, -, -⟩ := h'
  rename_i blanks inner opening argument closing more blanks' _ _ _ _ _
  have htext : ['u', 'r', 'l'] ++ blanks ++
      '(' :: (inner ++ opening ++ argument ++ closing ++ more ++ [')']) = y ++ z := by
    simpa [Enclosed.text] using heq
  -- the later match reaches beyond its bracket, since the earlier one ends with another one
  obtain ⟨z', rfl⟩ : ['u', 'r', 'l'] ++ blanks' ++ ['('] <+: z := by
    have hopen : ['u', 'r', 'l'] ++ blanks' ++ ['('] <+: z ++ rest := by
      refine List.IsPrefix.trans ?_ hrest
      simp [Enclosed.text]
    refine (List.prefix_or_prefix_of_prefix hopen (List.prefix_append z rest)).resolve_right ?_
    intro hprefix
    have hlast : z.getLast? = some ')' := by
      have hconcat : y ++ z =
          ['u', 'r', 'l'] ++ blanks ++ '(' :: (inner ++ opening ++ argument ++ closing ++ more) ++
            [')'] := by
        simpa using htext.symm
      rw [← List.getLast?_append_of_ne_nil y hz, hconcat, List.getLast?_concat]
    have hmem : ')' ∈ ['u', 'r', 'l'] ++ blanks' ++ ['('] :=
      hprefix.subset (List.mem_of_getLast? hlast)
    simp [not_mem_blanks hblanks', show isBlank ')' = false by decide] at hmem
  have htail : '(' ∉ inner ++ opening ++ argument ++ closing ++ more ++ [')'] := by
    simp [not_mem_blanks hinner, not_mem_blanks hmore, not_mem_optionalQuote hopening,
      not_mem_optionalQuote hclosing, hplain.not_mem, show isBlank '(' = false by decide,
      show isQuote '(' = false by decide, show isDelimiter '(' by decide]
  have hhead : '(' ∉ ['u', 'r', 'l'] ++ blanks := by
    simp [not_mem_blanks hblanks, show isBlank '(' = false by decide]
  -- so the two brackets are one, and the later keyword would begin inside the earlier one
  have hbracket : ['u', 'r', 'l'] ++ blanks = y ++ (['u', 'r', 'l'] ++ blanks') :=
    ((List.append_cons_inj_of_notMem hhead htail).mp (by simpa using htext)).1
  obtain ⟨c, y, rfl⟩ := List.exists_cons_of_ne_nil hy
  have hmem : 'u' ∈ y ++ (['u', 'r', 'l'] ++ blanks') := by simp
  have hkeyword : ['r', 'l'] ++ blanks = y ++ (['u', 'r', 'l'] ++ blanks') :=
    (List.cons.inj hbracket).2
  rw [← hkeyword] at hmem
  simp [not_mem_blanks hblanks, show isBlank 'u' = false by decide] at hmem

/-- What begins inside a text begins with an end of it. -/
theorem exists_of_begins_inside {front text behind before rest : Text}
    (heq : before ++ rest = front ++ (text ++ behind)) (hlt : front.length < before.length)
    (hgt : before.length < front.length + text.length) :
    ∃ y z, y ≠ [] ∧ z ≠ [] ∧ text = y ++ z ∧ rest = z ++ behind := by
  obtain ⟨y, rfl, hrest⟩ : ∃ y, before = front ++ y ∧ text ++ behind = y ++ rest := by
    rcases List.append_eq_append_iff.mp heq with ⟨y, rfl, -⟩ | h
    · rw [List.length_append] at hlt
      omega
    · exact h
  rw [List.length_append] at hlt hgt
  obtain ⟨z, rfl, rfl⟩ : ∃ z, text = y ++ z ∧ rest = z ++ behind := by
    rcases List.append_eq_append_iff.mp hrest with ⟨z, rfl, -⟩ | h
    · rw [List.length_append] at hgt
      omega
    · exact h
  rw [List.length_append] at hgt
  exact ⟨y, z, List.ne_nil_of_length_pos (by omega), List.ne_nil_of_length_pos (by omega), rfl, rfl⟩

/-- Wherever a pattern matches, there is a reference. -/
theorem mem_scan_of_match? {css : Text} (hflat : Flat css) {form : Form} {before rest : Text}
    {e : Enclosed} (hcss : css = before ++ rest) (h : form.pattern.match? rest = some e) :
    ofFinding form (before.length, e) ∈ scan css := by
  subst hcss
  obtain ⟨hmatch, hprefix⟩ := Form.isMatch_of_match? h
  have hne : rest ≠ [] := by
    rintro rfl
    exact hmatch.text_ne_nil (List.prefix_nil.mp hprefix)
  have hfinding : form.recognise rest = some e.finding := by
    rw [Form.recognise, h]
    rfl
  rcases mem_or_inside form.recognise Form.length_of_recognise before hne hfinding with
    hmem | ⟨o, ho, hlt, hgt⟩
  · exact mem_scan_of_mem_found hflat (List.mem_map_of_mem hmem)
  · -- it would begin inside an earlier match
    exfalso
    have hplain := hflat _ (mem_scan_of_mem_found hflat (List.mem_map_of_mem ho))
    obtain ⟨before', rest', length, heq, hposition, hfound⟩ := mem_occurrences ho
    obtain ⟨hways, -⟩ := exists_of_finding hfound
    obtain ⟨hmatch', after, rfl⟩ := Form.mem_ways_iff.mp hways
    rw [hposition] at hlt hgt
    obtain ⟨y, z, hy, hz, htext, rfl⟩ := exists_of_begins_inside heq hlt hgt
    cases form with
    | url => exact Url.not_inside hmatch' hmatch hplain hy hz htext hprefix
    | importRule => exact ImportRule.not_inside hmatch' hmatch hplain hy hz htext hprefix

end StylesheetBuild.Reference
