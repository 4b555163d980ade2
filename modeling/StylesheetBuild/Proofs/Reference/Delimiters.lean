/-
How the arguments of `url( )` are delimited and trimmed.

The blanks around an argument belong to the brackets, unless a quote keeps them.

* **`Url.isTrimmed_of_enclosed?`** — what is found has blanks at an end only beside a quote, or it
  is a single blank;
* **`Url.enclosed?_of_isProper`** — what is written with its quotes in pairs, or without quotes and
  without blanks at its ends, is found as it is written;
* **`url_delimited`** — so a scan finds nothing else, and all of this outside of other matches.
-/
import StylesheetBuild.Proofs.Reference.External
import StylesheetBuild.Proofs.Reference.Shape
import StylesheetBuild.Proofs.Reference.Spans

namespace StylesheetBuild

open Text

namespace Url

/-- A quote stands right in front of the argument. -/
def QuotedBefore (e : Enclosed) : Prop :=
  ∃ c, e.before.getLast? = some c ∧ isQuote c

/-- A quote stands right behind the argument. -/
def QuotedAfter (e : Enclosed) : Prop :=
  ∃ c, e.after.head? = some c ∧ isQuote c

/-- An argument begins and ends with a blank only where there is a quote, unless it is a single
blank. -/
def IsTrimmed (e : Enclosed) : Prop :=
  (∃ c, isBlank c ∧ e.argument = [c]) ∨
    (∀ c, e.argument.head? = some c → isBlank c → QuotedBefore e) ∧
      ∀ c, e.argument.getLast? = some c → isBlank c → QuotedAfter e

/-- An argument without quotes and brackets as it is meant to be written: between two quotes of
one kind, or without quotes and without blanks at its ends. -/
inductive IsProper : Enclosed → Prop
  | quoted {blanks inner argument more : Text} {quote : Char} (hblanks : ∀ c ∈ blanks, isBlank c)
      (hinner : ∀ c ∈ inner, isBlank c) (hquote : isQuote quote) (hne : argument ≠ [])
      (hargument : ∀ c ∈ argument, isArgumentChar c) (hmore : ∀ c ∈ more, isBlank c) :
      IsProper ⟨['u', 'r', 'l'] ++ (blanks ++ '(' :: (inner ++ [quote])), argument,
        quote :: (more ++ [')'])⟩
  | bare {blanks inner argument more : Text} (hblanks : ∀ c ∈ blanks, isBlank c)
      (hinner : ∀ c ∈ inner, isBlank c) (hne : argument ≠ [])
      (hargument : ∀ c ∈ argument, isArgumentChar c)
      (hfirst : ∀ c, argument.head? = some c → isBlank c = false)
      (hlast : ∀ c, argument.getLast? = some c → isBlank c = false)
      (hmore : ∀ c ∈ more, isBlank c) :
      IsProper ⟨['u', 'r', 'l'] ++ (blanks ++ '(' :: inner), argument, more ++ [')']⟩

/-! ### Trimming -/

theorem trimEnd_append {text blanks : Text}
    (hlast : ∀ c, text.getLast? = some c → isBlank c = false) (hblanks : ∀ c ∈ blanks, isBlank c) :
    trimEnd (text ++ blanks) = text := by
  have hstops : Stops isBlank text.reverse := by
    intro c hc
    rw [List.head?_reverse] at hc
    exact hlast c hc
  rw [trimEnd, List.reverse_append, dropWhile_append_of_stops
    (fun c hc => hblanks c (List.mem_reverse.mp hc)) hstops, List.reverse_reverse]

/-- Blanks are cut off behind a character that is none. -/
theorem trimmed_append_blanks {text blanks : Text} (hne : text ≠ [])
    (hlast : ∀ c, text.getLast? = some c → isBlank c = false) (hblanks : ∀ c ∈ blanks, isBlank c) :
    trimmed (text ++ blanks) = (text, blanks) := by
  have hpos : 1 ≤ text.length := List.length_pos_iff.mpr hne
  rw [trimmed, trimEnd_append hlast hblanks, Nat.max_eq_right hpos, List.take_left, List.drop_left]

/-- Characters behind which blanks are cut off end without a blank, unless only one is left. -/
theorem trimmed_cases {run : Text} (hne : run ≠ []) :
    (∃ c, isBlank c ∧ (trimmed run).1 = [c]) ∨
      ∀ c, (trimmed run).1.getLast? = some c → isBlank c = false := by
  by_cases hall : run.all isBlank
  · obtain ⟨c, rest, rfl⟩ := List.exists_cons_of_ne_nil hne
    rw [List.all_cons, Bool.and_eq_true] at hall
    rw [trimmed_cons_of_all hall.2]
    exact .inl ⟨c, hall.1, rfl⟩
  · -- the last character that is no blank stays, with all in front of it
    obtain ⟨blanks, hsplit, hblanks⟩ := exists_trimEnd_append run
    have hlast : ∀ c, (trimEnd run).getLast? = some c → isBlank c = false := by
      intro c hc
      rw [trimEnd, List.getLast?_reverse] at hc
      exact stops_dropWhile isBlank run.reverse c hc
    have hkept : trimEnd run ≠ [] := by
      intro hnil
      rw [hnil, List.nil_append] at hsplit
      exact hall (List.all_eq_true.mpr (hsplit ▸ hblanks))
    rw [← hsplit, trimmed_append_blanks hkept hlast hblanks]
    exact .inr hlast

theorem head?_trimmed (run : Text) : (trimmed run).1.head? = run.head? := by
  cases run with
  | nil => rfl
  | cons c rest =>
    have hkept : max 1 (trimEnd (c :: rest)).length ≠ 0 := by omega
    rw [trimmed, List.head?_take, if_neg hkept]

/-! ### What is found -/

theorem isQuote_of_stop {text rest : Text} {stop : Char}
    (h : text.dropWhile isArgumentChar = stop :: rest) (hstop : stop ≠ ')') : isQuote stop :=
  (isArgumentChar_false_iff.mp (of_dropWhile_eq_cons h)).resolve_right hstop

/-- An argument is as long as it can be and ends in front of a quote, or it is that without the
blanks at its end. -/
theorem argument?_cases {text argument closing : Text}
    (h : argument? text = some (argument, closing)) :
    text.takeWhile isArgumentChar ≠ [] ∧
      (argument = (trimmed (text.takeWhile isArgumentChar)).1 ∨
        argument = text.takeWhile isArgumentChar ∧
          ∃ quote, closing.head? = some quote ∧ isQuote quote) := by
  rw [argument?] at h
  split_ifs at h with hne
  refine ⟨hne, ?_⟩
  cases hdrop : text.dropWhile isArgumentChar with
  | nil =>
    rw [hdrop] at h
    exact absurd h (by simp)
  | cons stop rest =>
    rw [hdrop] at h
    simp only at h
    split_ifs at h with hstop
    · exact .inl (Prod.mk.inj (Option.some_inj.mp h)).1.symm
    · obtain ⟨_, -, heq⟩ := Option.map_eq_some_iff.mp h
      obtain ⟨rfl, rfl⟩ := Prod.mk.inj heq
      exact .inr ⟨rfl, stop, rfl, isQuote_of_stop hdrop hstop⟩

/-- An argument begins where it is looked for. -/
theorem head?_of_argument? {text argument closing : Text}
    (h : argument? text = some (argument, closing)) : argument.head? = text.head? := by
  obtain ⟨hne, hcases⟩ := argument?_cases h
  have hrun : (text.takeWhile isArgumentChar).head? = text.head? := by
    cases text with
    | nil => rfl
    | cons c rest =>
      by_cases hc : isArgumentChar c
      · rw [List.takeWhile_cons_of_pos hc]
        rfl
      · exact absurd (List.takeWhile_cons_of_neg hc) hne
  rcases hcases with rfl | ⟨rfl, -⟩
  · rw [head?_trimmed, hrun]
  · exact hrun

/-- What is found is trimmed. -/
theorem isTrimmed_of_enclosed? {text : Text} {e : Enclosed} (h : enclosed? text = some e) :
    IsTrimmed e := by
  rw [enclosed?_eq_bind] at h
  obtain ⟨⟨opening, inner⟩, -, h⟩ := Option.bind_eq_some_iff.mp h
  have hblanks := List.all_eq_true.mp (List.all_takeWhile (p := isBlank) (l := inner))
  have hfirst := stops_dropWhile isBlank inner
  rw [inside?] at h
  generalize inner.takeWhile isBlank = blanks at h hblanks
  generalize inner.dropWhile isBlank = tail at h hfirst
  cases hargument : argument? (optionalQuote tail).2 with
  | some found =>
    obtain ⟨argument, closing⟩ := found
    simp only [hargument] at h
    obtain rfl := Option.some_inj.mp h
    have hhead := head?_of_argument? hargument
    -- an argument that begins with a blank does not begin where the blanks end
    have hquoted : ∀ c, argument.head? = some c → isBlank c →
        QuotedBefore ⟨opening ++ blanks ++ (optionalQuote tail).1, argument, closing⟩ := by
      intro c hc hblank
      rw [hhead] at hc
      cases tail with
      | nil => exact absurd hc (by simp [optionalQuote])
      | cons d tail =>
        by_cases hd : isQuote d
        · exact ⟨d, by simp [optionalQuote, hd], hd⟩
        · rw [optionalQuote, if_neg hd] at hc
          rw [hfirst c hc] at hblank
          exact absurd hblank (by decide)
    obtain ⟨hne, rfl | ⟨rfl, hstop⟩⟩ := argument?_cases hargument
    · refine (trimmed_cases hne).imp_right fun hlast => ⟨hquoted, fun c hc hblank => ?_⟩
      rw [hlast c hc] at hblank
      exact absurd hblank (by decide)
    · exact .inr ⟨hquoted, fun _ _ _ => hstop⟩
  | none =>
    simp only [hargument, Option.bind_eq_bind] at h
    obtain ⟨last, hlast, h⟩ := Option.bind_eq_some_iff.mp h
    obtain ⟨closing, -, h⟩ := Option.bind_eq_some_iff.mp h
    obtain rfl := Option.some_inj.mp h
    exact .inl ⟨last, hblanks last (List.mem_of_getLast? hlast), rfl⟩

/-! ### What is found as it is written -/

theorem opening?_append {blanks : Text} (hblanks : ∀ c ∈ blanks, isBlank c) (inner : Text) :
    opening? (['u', 'r', 'l'] ++ (blanks ++ '(' :: inner)) =
      some (['u', 'r', 'l'] ++ blanks ++ ['('], inner) := by
  have hstops : Stops isBlank ('(' :: inner) := stops_cons.mpr (by decide)
  show opening? ('u' :: 'r' :: 'l' :: (blanks ++ '(' :: inner)) = _
  simp only [opening?, dropWhile_append_of_stops hblanks hstops,
    takeWhile_append_of_stops hblanks hstops]

/-- An argument is found behind blanks and an optional quote. -/
theorem inside?_of_argument? {opening blanks body quote text argument closing : Text}
    (hblanks : ∀ c ∈ blanks, isBlank c) (hstops : Stops isBlank body)
    (hquote : optionalQuote body = (quote, text)) (h : argument? text = some (argument, closing)) :
    inside? opening (blanks ++ body) = some ⟨opening ++ blanks ++ quote, argument, closing⟩ := by
  rw [inside?, takeWhile_append_of_stops hblanks hstops, dropWhile_append_of_stops hblanks hstops,
    hquote]
  simp only [h]

/-- An argument in front of a quote. -/
theorem argument?_of_quote {argument more back : Text} {quote : Char} (hne : argument ≠ [])
    (hargument : ∀ c ∈ argument, isArgumentChar c) (hquote : isQuote quote)
    (hmore : ∀ c ∈ more, isBlank c) :
    argument? (argument ++ quote :: (more ++ ')' :: back)) =
      some (argument, quote :: (more ++ [')'])) := by
  have hstops : Stops isArgumentChar (quote :: (more ++ ')' :: back)) :=
    stops_cons.mpr (isArgumentChar_false_iff.mpr (.inl hquote))
  have hbracket : quote ≠ ')' := by
    rintro rfl
    exact absurd hquote (by decide)
  have hclosing : closing? (more ++ ')' :: back) = some (more ++ [')']) := by
    have hstops : Stops isBlank (')' :: back) := stops_cons.mpr (by decide)
    simp only [closing?, takeWhile_append_of_stops hmore hstops,
      dropWhile_append_of_stops hmore hstops]
  rw [argument?, takeWhile_append_of_stops hargument hstops,
    dropWhile_append_of_stops hargument hstops]
  simp only [if_neg hne, if_neg hbracket, hclosing, Option.map_some]

/-- An argument in front of blanks and the bracket. -/
theorem argument?_of_bracket {argument more back : Text} (hne : argument ≠ [])
    (hargument : ∀ c ∈ argument, isArgumentChar c)
    (hlast : ∀ c, argument.getLast? = some c → isBlank c = false) (hmore : ∀ c ∈ more, isBlank c) :
    argument? (argument ++ (more ++ ')' :: back)) = some (argument, more ++ [')']) := by
  have hstops : Stops isArgumentChar (')' :: back) := stops_cons.mpr (by decide)
  have hrun : ∀ c ∈ argument ++ more, isArgumentChar c := by
    intro c hc
    rcases List.mem_append.mp hc with hc | hc
    · exact hargument c hc
    · exact isArgumentChar_of_isBlank (hmore c hc)
  have hrunne : argument ++ more ≠ [] := by simp [hne]
  rw [argument?, ← List.append_assoc, takeWhile_append_of_stops hrun hstops,
    dropWhile_append_of_stops hrun hstops]
  simp only [if_neg hrunne, if_true, trimmed_append_blanks hne hlast hmore]

/-- What is written as it is meant to be is found as it is written. -/
theorem enclosed?_of_isProper {e : Enclosed} (h : IsProper e) (back : Text) :
    enclosed? (e.text ++ back) = some e := by
  cases h with
  | quoted hblanks hinner hquote hne hargument hmore =>
    rename_i blanks inner argument more quote
    have htext : Enclosed.text ⟨['u', 'r', 'l'] ++ (blanks ++ '(' :: (inner ++ [quote])), argument,
        quote :: (more ++ [')'])⟩ ++ back = ['u', 'r', 'l'] ++ (blanks ++ '(' :: (inner ++
          quote :: (argument ++ quote :: (more ++ ')' :: back)))) := by
      simp [Enclosed.text]
    have hoptional : optionalQuote (quote :: (argument ++ quote :: (more ++ ')' :: back))) =
        ([quote], argument ++ quote :: (more ++ ')' :: back)) := by
      simp [optionalQuote, hquote]
    rw [htext, enclosed?_eq_bind, opening?_append hblanks, Option.bind_some,
      inside?_of_argument? hinner (stops_cons.mpr (isBlank_of_isQuote hquote)) hoptional
        (argument?_of_quote hne hargument hquote hmore)]
    simp
  | bare hblanks hinner hne hargument hfirst hlast hmore =>
    rename_i blanks inner argument more
    have htext : Enclosed.text ⟨['u', 'r', 'l'] ++ (blanks ++ '(' :: inner), argument,
        more ++ [')']⟩ ++ back = ['u', 'r', 'l'] ++ (blanks ++ '(' :: (inner ++
          (argument ++ (more ++ ')' :: back)))) := by
      simp [Enclosed.text]
    have hstops : Stops isBlank (argument ++ (more ++ ')' :: back)) := by
      intro c hc
      rw [List.head?_append_of_ne_nil _ hne] at hc
      exact hfirst c hc
    have hoptional : optionalQuote (argument ++ (more ++ ')' :: back)) =
        ([], argument ++ (more ++ ')' :: back)) := by
      obtain ⟨c, rest, rfl⟩ := List.exists_cons_of_ne_nil hne
      have hc := hargument c List.mem_cons_self
      simp only [isArgumentChar, Bool.and_eq_true, Bool.not_eq_true'] at hc
      simp [optionalQuote, hc.1]
    rw [htext, enclosed?_eq_bind, opening?_append hblanks, Option.bind_some,
      inside?_of_argument? hinner hstops hoptional (argument?_of_bracket hne hargument hlast hmore)]
    simp

end Url

/-! ### In a stylesheet -/

namespace Reference

/-- The span of an argument begins behind what is in front of the argument. -/
theorem byteSpan_ofFinding (form : Form) (front : Text) (e : Enclosed) (back : Text) :
    (ofFinding form (front.length, e)).byteSpan (front ++ (e.text ++ back)) =
      (byteLength (front ++ e.before), byteLength (front ++ e.before ++ e.argument)) := by
  have htext : front ++ (e.text ++ back) =
      front ++ e.before ++ e.argument ++ (e.after ++ back) := by
    simp [Enclosed.text]
  have hstart : (ofFinding form (front.length, e)).start = (front ++ e.before).length := by
    rw [ofFinding, List.length_append]
  have hfinish : (ofFinding form (front.length, e)).finish =
      (front ++ e.before ++ e.argument).length := by
    rw [finish, hstart]
    exact List.length_append.symm
  rw [byteSpan, hstart, hfinish, htext, List.take_left, List.append_assoc, List.take_left]

/-- **The arguments of `url( )` are delimited.**  In front of one stand the keyword, blanks, the
bracket, blanks and an optional quote, behind it an optional quote, blanks and the bracket.  It is
not empty, has no quote and no bracket, and begins or ends with a blank only beside a quote, unless
it is a single blank.  On the other hand an argument is found just as it is written when it is
written between two quotes of one kind, or without quotes and without blanks at its ends, unless the
form begins inside an earlier match or the argument starts inside one of `@import`. -/
theorem url_delimited (css : Text) :
    (∀ r ∈ scan css, r.form = .url → ∃ front e back, css = front ++ (e.text ++ back) ∧
      r.argument = e.argument ∧
      r.byteSpan css =
        (byteLength (front ++ e.before), byteLength (front ++ e.before ++ e.argument)) ∧
      Url.IsMatch e ∧ Url.IsTrimmed e) ∧
    (∀ front e back, css = front ++ (e.text ++ back) → Url.IsProper e →
      (∀ o ∈ occurrences Url.recognise css,
        ¬ (o.1 < front.length ∧ front.length < o.1 + o.2.text.length)) →
      (∀ i ∈ imports css, ¬ (i.start ≤ (front ++ e.before).length ∧
        (front ++ e.before).length < i.finish)) →
      ∃ r ∈ scan css, r.form = .url ∧ r.argument = e.argument ∧
        r.byteSpan css =
          (byteLength (front ++ e.before), byteLength (front ++ e.before ++ e.argument))) := by
  constructor
  · intro r hr hform
    have hfound := (mem_scan_iff.mp hr).1
    rw [hform] at hfound
    obtain ⟨front, rest, e, rfl, hmatch, rfl⟩ := exists_match_of_mem_found hfound
    obtain ⟨hshape, back, rfl⟩ := Form.isMatch_of_match? hmatch
    refine ⟨front, e, back, rfl, rfl, byteSpan_ofFinding _ _ _ _, hshape, ?_⟩
    exact Url.isTrimmed_of_enclosed? ((Url.enclosed?_eq_match? _).trans hmatch)
  · rintro front e back rfl hproper houtside himport
    have hsize : ∀ {text : Text} {e : Enclosed} {length : Nat},
        Url.recognise text = some (e, length) → length = e.text.length := by
      intro text e length h
      rw [Url.recognise, Url.enclosed?_eq_match?] at h
      exact (exists_of_finding h).2
    have hfound : Url.recognise (e.text ++ back) = some e.finding := by
      rw [Url.recognise, Url.enclosed?_of_isProper hproper, Option.map_some]
    have hne : e.text ++ back ≠ [] := by
      cases hproper <;> simp [Enclosed.text]
    have hmem : ofFinding .url (front.length, e) ∈ urls (front ++ (e.text ++ back)) := by
      rcases mem_or_inside Url.recognise hsize front hne hfound with h | ⟨o, ho, hinside⟩
      · exact List.mem_map_of_mem h
      · exact absurd hinside (houtside o ho)
    refine ⟨_, mem_scan_iff.mpr ⟨urls_eq_found _ ▸ hmem, ?_⟩, rfl, rfl, byteSpan_ofFinding _ _ _ _⟩
    -- its form is `url( )`, so it only has to keep out of the arguments of `@import`
    intro _ i hi hform
    rw [mem_allFound, hform, ← imports_eq_found] at hi
    have hout := himport i hi
    rwa [List.length_append] at hout

/-- Blanks between quotes belong to the argument, those around the quotes do not. -/
theorem url_delimited_quoted :
    let css := "b:url( ' x ' );".toList
    ∃ r ∈ scan css, r.form = .url ∧ r.argument = " x ".toList ∧ r.byteSpan css = (8, 11) := by
  intro css
  have hproper : Url.IsProper ⟨['u', 'r', 'l'] ++ ([] ++ '(' :: ([' '] ++ ['\''])), [' ', 'x', ' '],
      '\'' :: ([' '] ++ [')'])⟩ :=
    .quoted (by simp) (List.all_eq_true.mp (by decide)) (by decide) (by decide)
      (List.all_eq_true.mp (by decide)) (List.all_eq_true.mp (by decide))
  exact (url_delimited css).2 ['b', ':'] _ [';'] (by decide +kernel) hproper (by decide +kernel)
    (by decide +kernel)

end Reference

end StylesheetBuild
