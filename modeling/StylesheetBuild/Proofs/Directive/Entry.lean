/-
Entries of a leading comment, as they are written and as they are read.

An entry is a directive in the current form, as a flag or with a bare or a quoted value, or one in
the older form.  Each carries what makes it readable: names and values are not empty and consist of
the characters of their kind.

* **`current_text`**, **`legacy_text`** — an entry is read in its own form as it was written, and
  as much as it takes, if the text behind it cannot be taken for more of it;
* **`current_eq_none_of_legacy`**, **`legacy_eq_none_of_current`** — in the other form nothing is
  read from any character of it on.

Design notes: what may follow an entry is said once, by `Boundary`.  It is about the text behind
the entry only, so entries can be read one after another.
-/
import StylesheetBuild.Proofs.Directive.LeadingComment
import StylesheetBuild.Proofs.Text.Runs

namespace StylesheetBuild.Directive

open Text

/-! ### Classes of characters -/

theorem isBareChar_of_isNameChar {c : Char} (h : isNameChar c) : isBareChar c := by
  rw [isBareChar, h]
  rfl

theorem isSpaceOrTab_iff {c : Char} : isSpaceOrTab c ↔ c = ' ' ∨ c = '\t' := by
  simp [isSpaceOrTab]

theorem isBareChar_of_isSpaceOrTab {c : Char} (h : isSpaceOrTab c) : isBareChar c = false := by
  rcases isSpaceOrTab_iff.mp h with rfl | rfl <;> decide

theorem isSpaceOrTab_of_isBareChar {c : Char} (h : isBareChar c) : isSpaceOrTab c = false := by
  cases hc : isSpaceOrTab c with
  | false => rfl
  | true =>
    rw [isBareChar_of_isSpaceOrTab hc] at h
    exact absurd h (by decide)

theorem isBareChar_of_isQuote {c : Char} (h : isQuote c) : isBareChar c = false := by
  simp only [isQuote, Bool.or_eq_true, decide_eq_true_eq] at h
  rcases h with rfl | rfl <;> decide

theorem isSpaceOrTab_of_isQuote {c : Char} (h : isQuote c) : isSpaceOrTab c = false := by
  simp only [isQuote, Bool.or_eq_true, decide_eq_true_eq] at h
  rcases h with rfl | rfl <;> decide

theorem isBareChar_of_isBlank {c : Char} (h : isBlank c) : isBareChar c = false := by
  cases hbare : isBareChar c with
  | false => rfl
  | true =>
    simp only [isBareChar, isNameChar, Bool.or_eq_true, decide_eq_true_eq] at hbare
    rcases hbare with (((halphanum | rfl) | rfl) | rfl) | rfl
    · rw [isBlank_of_isAlphanum halphanum] at h
      exact absurd h (by decide)
    all_goals exact absurd h (by decide)

/-! ### Entries -/

/-- A text of characters of a class. -/
structure Fill (p : Char → Bool) where
  text : Text
  all : ∀ c ∈ text, p c

/-- A text of characters of a class that is not empty. -/
structure Word (p : Char → Bool) extends Fill p where
  ne_nil : text ≠ []

/-- How an entry in the older form begins. -/
def legacyKeyword : Text := ['!', '!', 'c', 'm', 'd', ':']

/-- A value between quotes of one kind, without quotes of either kind in it, without the end of a
comment and without the beginning of an entry in the older form. -/
structure Quotation where
  quote : Char
  text : Text
  isQuote_quote : isQuote quote
  ne_nil : text ≠ []
  isQuote_text : ∀ c ∈ text, isQuote c = false
  endless : Endless text
  keywordless : ¬ legacyKeyword <:+: text

/-- A quoted value as it is written. -/
def Quotation.written (quotation : Quotation) : Text :=
  quotation.quote :: (quotation.text ++ [quotation.quote])

inductive Entry where
  -- `@name`
  | flag (name : Word isNameChar)
  -- `@name: value`, with spaces and tabs around the colon
  | bare (name : Word isNameChar) (before after : Fill isSpaceOrTab) (word : Word isBareChar)
  -- `@name: 'value'`
  | quoted (name : Word isNameChar) (before after : Fill isSpaceOrTab) (quotation : Quotation)
  -- `!!cmd: name=value`, with spaces and tabs behind the colon and around the sign
  | legacy (name : Word isNameChar) (front before after : Fill isSpaceOrTab)
      (word : Word isNameChar)

namespace Entry

/-- An entry as it is written. -/
def text : Entry → Text
  | flag name => '@' :: name.text
  | bare name before after word =>
    '@' :: (name.text ++ (before.text ++ ':' :: (after.text ++ word.text)))
  | quoted name before after quotation =>
    '@' :: (name.text ++ (before.text ++ ':' :: (after.text ++ quotation.written)))
  | legacy name front before after word =>
    legacyKeyword ++
      (front.text ++ (name.text ++ (before.text ++ '=' :: (after.text ++ word.text))))

def name : Entry → Text
  | flag name | bare name _ _ _ | quoted name _ _ _ | legacy name _ _ _ _ => name.text

/-- What an entry says of its name. -/
def directive : Entry → Directive
  | flag _ => Directive.flag
  | bare _ _ _ word | legacy _ _ _ _ word => Directive.value word.text
  | quoted _ _ _ quotation => Directive.value quotation.text

/-- Whether an entry is in the older form. -/
def isLegacy : Entry → Bool
  | legacy .. => true
  | _ => false

theorem text_ne_nil (entry : Entry) : entry.text ≠ [] := by
  cases entry <;> simp [text, legacyKeyword]

end Entry

/-! ### What may follow an entry -/

/-- The text behind an entry cannot be taken for more of it: it goes on with no character of a bare
value, nor with a colon behind spaces and tabs. -/
structure Boundary (text : Text) : Prop where
  bare : Stops isBareChar text
  colon : Stops (· = ':') (text.dropWhile isSpaceOrTab)

theorem Boundary.name {text : Text} (h : Boundary text) : Stops isNameChar text := by
  intro c hc
  cases hname : isNameChar c with
  | false => rfl
  | true =>
    have hbare := h.bare c hc
    rw [isBareChar_of_isNameChar hname] at hbare
    exact absurd hbare (by decide)

/-- Spaces and tabs are followed by something else. -/
theorem stops_fill {p : Char → Bool} (spaces : Fill isSpaceOrTab) {c : Char} {rest : Text}
    (hspace : ∀ d, isSpaceOrTab d → p d = false) (hc : p c = false) :
    Stops p (spaces.text ++ c :: rest) := by
  intro d hd
  cases hspaces : spaces.text with
  | nil =>
    rw [hspaces] at hd
    exact Option.some_inj.mp hd ▸ hc
  | cons e others =>
    rw [hspaces] at hd
    obtain rfl : e = d := Option.some_inj.mp hd
    exact hspace e (spaces.all e (by rw [hspaces]; exact List.mem_cons_self))

theorem isNameChar_of_isSpaceOrTab {c : Char} (h : isSpaceOrTab c) : isNameChar c = false := by
  rcases isSpaceOrTab_iff.mp h with rfl | rfl <;> decide

/-- A text that begins with a character of a class does not begin with one of another class. -/
theorem Word.stops {p q : Char → Bool} (word : Word p) (rest : Text)
    (h : ∀ c, p c → q c = false) : Stops q (word.text ++ rest) := by
  intro c hc
  obtain ⟨d, others, hword⟩ := List.exists_cons_of_ne_nil word.ne_nil
  rw [hword] at hc
  obtain rfl : d = c := Option.some_inj.mp hc
  exact h d (word.all d (by rw [hword]; exact List.mem_cons_self))

/-! ### Reading an entry in the current form -/

/-- A name is read up to its end, and then what is assigned to it. -/
theorem current_name (name : Word isNameChar) {text : Text} (htext : Stops isNameChar text) :
    current ('@' :: (name.text ++ text)) = some
      (match assigned? text with
      | some (word, length) => ((name.text, .value word), 1 + name.text.length + length)
      | none => ((name.text, .flag), 1 + name.text.length)) := by
  have htake := takeWhile_append_of_stops name.all htext
  have hdrop := dropWhile_append_of_stops name.all htext
  simp only [current, htake, hdrop, if_neg name.ne_nil]
  cases assigned? text <;> rfl

theorem assigned?_eq_none {text : Text} (h : Stops (· = ':') (text.dropWhile isSpaceOrTab)) :
    assigned? text = none := by
  rw [assigned?]
  split
  · rename_i rest hdrop
    exact absurd (h ':' (by rw [hdrop]; rfl)) (by decide)
  · rfl

/-- Spaces and tabs around the colon are passed over. -/
theorem assigned?_colon (before after : Fill isSpaceOrTab) {body : Text}
    (hbody : Stops isSpaceOrTab body) :
    assigned? (before.text ++ ':' :: (after.text ++ body)) =
      if body.takeWhile isBareChar = [] then
        (quoted? body).map fun (content, length) =>
          (content, before.text.length + 1 + after.text.length + length)
      else some (body.takeWhile isBareChar,
        before.text.length + 1 + after.text.length + (body.takeWhile isBareChar).length) := by
  have hcolon : Stops isSpaceOrTab (':' :: (after.text ++ body)) := stops_cons.mpr (by decide)
  have htake := takeWhile_append_of_stops before.all hcolon
  have hdrop := dropWhile_append_of_stops before.all hcolon
  have htake' := takeWhile_append_of_stops after.all hbody
  have hdrop' := dropWhile_append_of_stops after.all hbody
  simp only [assigned?, htake, hdrop, htake', hdrop']

/-- A quotation is read up to its closing quote. -/
theorem quoted?_quotation (quotation : Quotation) (rest : Text) :
    quoted? (quotation.written ++ rest) = some (quotation.text, quotation.written.length) := by
  have hall : ∀ c ∈ quotation.text, !isQuote c := by
    intro c hc
    rw [quotation.isQuote_text c hc]
    rfl
  have hquote : Stops (!isQuote ·) (quotation.quote :: rest) := by
    refine stops_cons.mpr ?_
    rw [quotation.isQuote_quote]
    rfl
  have htake := takeWhile_append_of_stops hall hquote
  have hdrop := dropWhile_append_of_stops hall hquote
  have htext : quotation.written ++ rest =
      quotation.quote :: (quotation.text ++ quotation.quote :: rest) := by
    simp [Quotation.written]
  have hne : (quotation.text != []) = true := by
    simpa using quotation.ne_nil
  rw [htext]
  simp only [quoted?, htake, hdrop, quotation.isQuote_quote, hne]
  simp [Quotation.written]

/-- An entry in the current form is read as it was written. -/
theorem current_text {entry : Entry} (h : entry.isLegacy = false) {rest : Text}
    (hrest : Boundary rest) :
    current (entry.text ++ rest) = some ((entry.name, entry.directive), entry.text.length) := by
  cases entry with
  | flag name =>
    rw [Entry.text, List.cons_append, current_name name hrest.name, assigned?_eq_none hrest.colon]
    simp only [Entry.name, Entry.directive, List.length_cons]
    rw [Nat.add_comm]
  | bare name before after word =>
    have hword : Stops isSpaceOrTab (word.text ++ rest) :=
      word.stops rest fun c => isSpaceOrTab_of_isBareChar
    have hname : Stops isNameChar (before.text ++ ':' :: (after.text ++ (word.text ++ rest))) :=
      stops_fill before (fun c => isNameChar_of_isSpaceOrTab) (by decide)
    have htext : (Entry.bare name before after word).text ++ rest =
        '@' :: (name.text ++ (before.text ++ ':' :: (after.text ++ (word.text ++ rest)))) := by
      simp [Entry.text]
    rw [htext, current_name name hname, assigned?_colon before after hword,
      takeWhile_append_of_stops word.all hrest.bare, if_neg word.ne_nil]
    simp only [Entry.name, Entry.directive, Entry.text, List.length_cons, List.length_append]
    congr 2
    omega
  | quoted name before after quotation =>
    have hword : Stops isSpaceOrTab (quotation.written ++ rest) :=
      stops_cons.mpr (isSpaceOrTab_of_isQuote quotation.isQuote_quote)
    have hname : Stops isNameChar
        (before.text ++ ':' :: (after.text ++ (quotation.written ++ rest))) :=
      stops_fill before (fun c => isNameChar_of_isSpaceOrTab) (by decide)
    have htext : (Entry.quoted name before after quotation).text ++ rest = '@' ::
        (name.text ++ (before.text ++ ':' :: (after.text ++ (quotation.written ++ rest)))) := by
      simp [Entry.text]
    have hbare : ¬ isBareChar quotation.quote := by
      rw [isBareChar_of_isQuote quotation.isQuote_quote]
      decide
    have htake : (quotation.written ++ rest).takeWhile isBareChar = [] :=
      List.takeWhile_cons_of_neg hbare
    rw [htext, current_name name hname, assigned?_colon before after hword, if_pos htake,
      quoted?_quotation]
    simp only [Option.map_some, Entry.name, Entry.directive, Entry.text, List.length_cons,
      List.length_append]
    congr 2
    omega
  | legacy name front before after word => exact absurd h (by simp [Entry.isLegacy])

/-! ### Reading an entry in the older form -/

/-- An entry in the older form is read as it was written. -/
theorem legacy_text {entry : Entry} (h : entry.isLegacy) {rest : Text} (hrest : Boundary rest) :
    legacy (entry.text ++ rest) = some ((entry.name, entry.directive), entry.text.length) := by
  cases entry with
  | flag name => exact absurd h (by simp [Entry.isLegacy])
  | bare name before after word => exact absurd h (by simp [Entry.isLegacy])
  | quoted name before after quotation => exact absurd h (by simp [Entry.isLegacy])
  | legacy name front before after word =>
    have hword : Stops isSpaceOrTab (word.text ++ rest) :=
      word.stops rest fun c hc => isSpaceOrTab_of_isBareChar (isBareChar_of_isNameChar hc)
    have hsign : Stops isSpaceOrTab ('=' :: (after.text ++ (word.text ++ rest))) :=
      stops_cons.mpr (by decide)
    have hbehind : Stops isNameChar (before.text ++ '=' :: (after.text ++ (word.text ++ rest))) :=
      stops_fill before (fun c => isNameChar_of_isSpaceOrTab) (by decide)
    have hname : Stops isSpaceOrTab
        (name.text ++ (before.text ++ '=' :: (after.text ++ (word.text ++ rest)))) :=
      name.stops _ fun c hc => isSpaceOrTab_of_isBareChar (isBareChar_of_isNameChar hc)
    have htext : (Entry.legacy name front before after word).text ++ rest =
        '!' :: '!' :: 'c' :: 'm' :: 'd' :: ':' :: (front.text ++
          (name.text ++ (before.text ++ '=' :: (after.text ++ (word.text ++ rest))))) := by
      simp [Entry.text, legacyKeyword]
    rw [htext]
    simp only [legacy, takeWhile_append_of_stops front.all hname,
      dropWhile_append_of_stops front.all hname, takeWhile_append_of_stops name.all hbehind,
      dropWhile_append_of_stops name.all hbehind, takeWhile_append_of_stops before.all hsign,
      dropWhile_append_of_stops before.all hsign, takeWhile_append_of_stops after.all hword,
      dropWhile_append_of_stops after.all hword, takeWhile_append_of_stops word.all hrest.name,
      name.ne_nil, word.ne_nil]
    simp only [Entry.name, Entry.directive, Entry.text, legacyKeyword, List.length_cons,
      List.length_append, List.length_nil]
    rw [if_neg (by decide)]
    congr 2
    omega

/-! ### Nothing is read in the other form -/

theorem current_eq_none {s : Text} (hne : s ≠ []) (h : '@' ∉ s) (rest : Text) :
    current (s ++ rest) = none := by
  obtain ⟨c, s, rfl⟩ := List.exists_cons_of_ne_nil hne
  unfold current
  split
  · rename_i heq
    obtain rfl : c = '@' := (List.cons.inj heq).1
    exact absurd List.mem_cons_self h
  · rfl

theorem legacy_eq_none {text : Text} (h : ¬ legacyKeyword <+: text) : legacy text = none := by
  unfold legacy
  split
  · exact absurd ⟨_, rfl⟩ h
  · rfl

/-- In an entry in the older form nothing is read in the current one. -/
theorem current_eq_none_of_legacy {entry : Entry} (h : entry.isLegacy) {s : Text} (hne : s ≠ [])
    (hs : s <:+ entry.text) (rest : Text) : current (s ++ rest) = none := by
  refine current_eq_none hne (fun hmem => ?_) rest
  cases entry with
  | flag name => exact absurd h (by simp [Entry.isLegacy])
  | bare name before after word => exact absurd h (by simp [Entry.isLegacy])
  | quoted name before after quotation => exact absurd h (by simp [Entry.isLegacy])
  | legacy name front before after word =>
    have hmem := hs.subset hmem
    simp only [Entry.text, List.mem_append, List.mem_cons] at hmem
    rcases hmem with hmem | hmem | hmem | hmem | hmem | hmem | hmem
    · exact absurd hmem (by decide)
    · exact absurd (front.all '@' hmem) (by decide)
    · exact absurd (name.all '@' hmem) (by decide)
    · exact absurd (before.all '@' hmem) (by decide)
    · exact absurd hmem (by decide)
    · exact absurd (after.all '@' hmem) (by decide)
    · exact absurd (word.all '@' hmem) (by decide)

theorem legacy_eq_none_of_head {c : Char} (hc : c ≠ '!') (text : Text) :
    legacy (c :: text) = none := by
  refine legacy_eq_none fun h => ?_
  exact hc (List.cons_prefix_cons.mp h).1.symm

/-- A character that a part in front does not have begins in the part behind it. -/
theorem suffix_of_not_mem {c : Char} {s front back : Text} (h : c :: s <:+ front ++ back)
    (hc : c ∉ front) : c :: s <:+ back := by
  obtain ⟨before, h⟩ := h
  rcases List.append_eq_append_iff.mp h with ⟨x, hfront, hback⟩ | ⟨x, -, hback⟩
  · cases x with
    | nil => exact ⟨[], hback⟩
    | cons d x =>
      obtain ⟨rfl, -⟩ := List.cons.inj hback
      exact absurd (by simp [hfront]) hc
  · exact ⟨x, hback.symm⟩

/-- A quoted value holds no beginning of an entry in the older form, and none begins in it. -/
theorem legacy_quotation {quotation : Quotation} {s : Text} (hne : s ≠ [])
    (hs : s <:+ quotation.text ++ [quotation.quote]) (rest : Text) : legacy (s ++ rest) = none := by
  rcases List.suffix_concat_iff.mp hs with rfl | ⟨v, rfl, hv⟩
  · exact absurd rfl hne
  refine legacy_eq_none fun hkeyword => ?_
  have hv' : v ++ [quotation.quote] <+: v ++ [quotation.quote] ++ rest := List.prefix_append _ _
  rcases Nat.lt_or_ge v.length legacyKeyword.length with hlength | hlength
  · -- the closing quote would be a character of the keyword
    have hfront : v ++ [quotation.quote] <+: legacyKeyword :=
      List.prefix_of_prefix_length_le hv' hkeyword (by simpa [Nat.succ_le_iff] using hlength)
    have hquote : quotation.quote ∈ legacyKeyword := hfront.subset (by simp)
    have hplain : legacyKeyword.all (!isQuote ·) := by decide
    have hquote' := List.all_eq_true.mp hplain _ hquote
    rw [quotation.isQuote_quote] at hquote'
    exact absurd hquote' (by decide)
  · have hfront : legacyKeyword <+: v :=
      List.prefix_of_prefix_length_le hkeyword ((List.prefix_append _ _).trans hv') hlength
    exact quotation.keywordless (hfront.isInfix.trans hv.isInfix)

/-- In an entry in the current form nothing is read in the older one. -/
theorem legacy_eq_none_of_current {entry : Entry} (h : entry.isLegacy = false) {s : Text}
    (hne : s ≠ []) (hs : s <:+ entry.text) (rest : Text) : legacy (s ++ rest) = none := by
  obtain ⟨c, s, rfl⟩ := List.exists_cons_of_ne_nil hne
  by_cases hc : c = '!'
  swap
  · exact legacy_eq_none_of_head hc _
  subst hc
  have hname (name : Word isNameChar) : '!' ∉ name.text := fun hmem =>
    absurd (name.all '!' hmem) (by decide)
  have hspaces (spaces : Fill isSpaceOrTab) : '!' ∉ spaces.text := fun hmem =>
    absurd (spaces.all '!' hmem) (by decide)
  cases entry with
  | flag name =>
    refine absurd (hs.subset List.mem_cons_self) ?_
    simp [Entry.text, hname]
  | bare name before after word =>
    have hword : '!' ∉ word.text := fun hmem => absurd (word.all '!' hmem) (by decide)
    refine absurd (hs.subset List.mem_cons_self) ?_
    simp [Entry.text, hname, hspaces, hword]
  | quoted name before after quotation =>
    have hquote : quotation.quote ≠ '!' := by
      intro heq
      have := quotation.isQuote_quote
      rw [heq] at this
      exact absurd this (by decide)
    have htext : (Entry.quoted name before after quotation).text =
        ('@' :: (name.text ++ (before.text ++ ':' :: (after.text ++ [quotation.quote])))) ++
          (quotation.text ++ [quotation.quote]) := by
      simp [Entry.text, Quotation.written]
    rw [htext] at hs
    refine legacy_quotation hne (suffix_of_not_mem hs ?_) rest
    simp [hname, hspaces, hquote.symm]
  | legacy name front before after word => exact absurd h (by simp [Entry.isLegacy])

end StylesheetBuild.Directive
