/-
The recognisers of references find the preferred ways of their patterns.

A search through the ways of a pattern may go back in a text and try a shorter or a longer part.
The recognisers `ImportRule.enclosed?` and `Url.enclosed?` never do.  That they find the same is
shown piece by piece, from left to right:

* **`ImportRule.enclosed?_eq_match?`** — nothing in this form leaves a choice;
* **`Url.argument?_cons`** — an argument that ends in front of blanks and the bracket ends as early
  as it can, one in front of a quote reaches up to the quote;
* **`Url.inside?_cons_isBlank`** — blanks in front of an argument are given back, the last one
  first, where there is no argument without them;
* **`Url.enclosed?_eq_match?`** — so the recogniser foresees where a search would end up.
-/
import StylesheetBuild.Proofs.Reference.Pattern

namespace StylesheetBuild

open Text

/-! ### The form `@import "…"` -/

namespace ImportRule

theorem opening?_of_not_isPrefixOf {text : Text}
    (h : ¬ ['@', 'i', 'm', 'p', 'o', 'r', 't'].isPrefixOf text) : opening? text = none := by
  unfold opening?
  split
  · exact absurd (by simp) h
  · rfl

/-- The search for the pieces in front of the argument. -/
theorem findSome?_before {β : Type} (f : Text → Text → Option β) (text : Text) :
    ((Piece.sequence pattern.before text).findSome? fun b => f b.1.flatten b.2) =
      (opening? text).bind fun w => f w.1 w.2 := by
  simp only [pattern, Piece.findSome?_sequence_cons, Piece.findSome?_sequence_nil,
    Piece.findSome?_literal, Piece.findSome?_one]
  by_cases h : ['@', 'i', 'm', 'p', 'o', 'r', 't'].isPrefixOf text
  · obtain ⟨rest, rfl⟩ := List.isPrefixOf_iff_prefix.mp h
    rw [if_pos h, Piece.ways, Piece.findSome?_runs]
    · simp only [List.cons_append, List.nil_append, List.length_cons, List.length_nil,
        List.drop_succ_cons, List.drop_zero, opening?]
      cases rest.dropWhile isBlank with
      | nil => rfl
      | cons quote inner => by_cases hq : isQuote quote <;> simp [hq]
    · -- a blank is no quote
      intro part c rest hc
      have hq : ¬ isQuote c := fun hq => by simp [isBlank_of_isQuote hq] at hc
      simp [hq]
  · rw [if_neg h, opening?_of_not_isPrefixOf h]
    rfl

/-- The recogniser of `@import "…"` finds the preferred way of its pattern. -/
theorem enclosed?_eq_match? (text : Text) : enclosed? text = pattern.match? text := by
  rw [Pattern.match?_eq]
  refine .trans ?_ (findSome?_before (fun before inner => (pattern.argument.ways inner).findSome?
    fun a => (Piece.sequence pattern.after a.2).findSome? fun e =>
      some (Enclosed.mk before a.1 e.1.flatten)) text).symm
  unfold enclosed?
  congr 1
  funext ⟨opening, inner⟩
  simp only [pattern, Piece.findSome?_sequence_cons, Piece.findSome?_sequence_nil,
    Piece.findSome?_one]
  rw [Piece.findSome?_most]
  · by_cases ha : inner.takeWhile (!isQuote ·) = []
    · rw [if_pos ha, if_pos ha]
    · rw [if_neg ha, if_neg ha]
      cases hd : inner.dropWhile (!isQuote ·) with
      | nil => rfl
      | cons quote rest =>
        have hq : isQuote quote := by
          have := List.head?_dropWhile_not (!isQuote ·) inner
          rw [hd] at this
          simpa using this
        simp [hq]
  · -- what the argument leaves out is a quote
    intro part c rest hc
    have hq : isQuote c = false := by simpa using hc
    simp [hq]

end ImportRule

/-! ### The form `url( … )` -/

namespace Url

theorem opening?_of_not_isPrefixOf {text : Text} (h : ¬ ['u', 'r', 'l'].isPrefixOf text) :
    opening? text = none := by
  unfold opening?
  split
  · exact absurd (by simp) h
  · rfl

theorem isBlank_of_isArgumentChar_false {c : Char} (h : isArgumentChar c = false) :
    isBlank c = false := by
  simp only [isArgumentChar, Bool.and_eq_false_iff, Bool.not_eq_false', bne_eq_false_iff_eq] at h
  rcases h with h | rfl
  · exact isBlank_of_isQuote h
  · decide

theorem isArgumentChar_of_isBlank {c : Char} (h : isBlank c) : isArgumentChar c := by
  cases hc : isArgumentChar c with
  | true => rfl
  | false => simp [isBlank_of_isArgumentChar_false hc] at h

/-- Blanks and the closing bracket cannot begin with anything else. -/
theorem closing?_cons {c : Char} {rest : Text} (hb : isBlank c = false) (hc : c ≠ ')') :
    closing? (c :: rest) = none := by
  rw [closing?, List.dropWhile_cons_of_neg (by simp [hb])]
  split
  · rename_i h
    exact absurd (List.cons.inj h).1 hc
  · rfl

/-- An optional quote, blanks and the closing bracket. -/
def ending? (text : Text) : Option Text :=
  (closing? (optionalQuote text).2).map ((optionalQuote text).1 ++ ·)

variable {β : Type}

theorem findSome?_closing (f : Text → Option β) (text : Text) :
    ((Piece.sequence [.many isBlank, .literal [')']] text).findSome? fun e => f e.1.flatten) =
      (closing? text).bind f := by
  simp only [Piece.findSome?_sequence_cons, Piece.findSome?_sequence_nil, Piece.findSome?_literal]
  rw [Piece.ways, Piece.findSome?_runs]
  · rw [closing?]
    cases text.dropWhile isBlank with
    | nil => rfl
    | cons c rest =>
      by_cases hc : c = ')'
      · subst hc
        simp
      · simp [hc, Ne.symm hc]
  · -- a blank is no bracket
    intro part c rest hc
    have : c ≠ ')' := by
      rintro rfl
      exact absurd hc (by decide)
    simp [Ne.symm this]

theorem findSome?_after (f : Text → Option β) (text : Text) :
    ((Piece.sequence pattern.after text).findSome? fun e => f e.1.flatten) =
      (ending? text).bind f := by
  rw [pattern, Piece.findSome?_sequence_cons, Piece.ways, List.findSome?_append]
  have hclosing : ∀ (q body : Text),
      ((Piece.sequence [.many isBlank, .literal [')']] body).findSome? fun e =>
        f (q :: e.1).flatten) = (closing? body).bind fun closing => f (q ++ closing) :=
    fun q body => findSome?_closing (fun closing => f (q ++ closing)) body
  simp only [List.findSome?_cons, List.findSome?_nil, hclosing, ending?]
  cases text with
  | nil => rfl
  | cons c rest =>
    by_cases hq : isQuote c
    · have hnone : closing? (c :: rest) = none :=
        closing?_cons (isBlank_of_isQuote hq) (by rintro rfl; exact absurd hq (by decide))
      simp only [Piece.first, optionalQuote, hq, if_true, hnone, List.findSome?_cons,
        List.findSome?_nil, Option.bind_none]
      cases closing? rest with
      | none => rfl
      | some closing => cases h : f (c :: closing) <;> simp [h]
    · simp only [Piece.first, optionalQuote, hq, if_false, Bool.false_eq_true,
        List.findSome?_nil]
      cases closing? (c :: rest) with
      | none => rfl
      | some closing => cases h : f closing <;> simp [h]

theorem closing?_cons_blank {c : Char} (hc : isBlank c) (rest : Text) :
    closing? (c :: rest) = (closing? rest).map (c :: ·) := by
  rw [closing?, closing?, List.dropWhile_cons_of_pos hc, List.takeWhile_cons_of_pos hc]
  split <;> rfl

/-- Blanks and the closing bracket behind characters of an argument: these must all be blanks. -/
theorem closing?_append {run : Text} (hrun : ∀ c ∈ run, isArgumentChar c) (rest : Text) :
    closing? (run ++ rest) =
      if run.all isBlank then (closing? rest).map (run ++ ·) else none := by
  induction run with
  | nil => cases h : closing? rest <;> simp [h]
  | cons c run ih =>
    rw [List.cons_append]
    by_cases hb : isBlank c
    · rw [closing?_cons_blank hb, ih fun d hd => hrun d (List.mem_cons_of_mem c hd)]
      by_cases hall : run.all isBlank
      · simp [hb, hall, Function.comp_def]
      · simp [hb, hall]
    · have hne : c ≠ ')' := by
        rintro rfl
        exact absurd (hrun ')' List.mem_cons_self) (by decide)
      rw [closing?_cons (by simpa using hb) hne]
      simp [hb]

theorem trimmed_cons_of_all {run : Text} (h : run.all isBlank) (c : Char) :
    trimmed (c :: run) = ([c], run) := by
  have hle : (trimEnd (c :: run)).length ≤ 1 := by
    have hdrop : run.reverse.dropWhile isBlank = [] :=
      List.dropWhile_eq_nil_iff.mpr fun d hd => List.all_eq_true.mp h d (List.mem_reverse.mp hd)
    rw [trimEnd, List.reverse_cons, List.dropWhile_append, hdrop, List.length_reverse]
    exact (List.dropWhile_sublist isBlank).length_le
  rw [trimmed, Nat.max_eq_left hle]
  rfl

theorem trimmed_cons_of_not_all {run : Text} (h : ¬ run.all isBlank) (c : Char) :
    trimmed (c :: run) = (c :: (trimmed run).1, (trimmed run).2) := by
  have hne : run.reverse.dropWhile isBlank ≠ [] := by
    intro hnil
    refine h (List.all_eq_true.mpr fun d hd => ?_)
    exact List.dropWhile_eq_nil_iff.mp hnil d (List.mem_reverse.mpr hd)
  have hlen : (trimEnd (c :: run)).length = (trimEnd run).length + 1 := by
    rw [trimEnd, List.reverse_cons, List.dropWhile_append]
    simp [hne, trimEnd]
  have hpos : 1 ≤ (trimEnd run).length := by
    rw [trimEnd, List.length_reverse]
    exact List.length_pos_iff.mpr hne
  rw [trimmed, trimmed, hlen, Nat.max_eq_right (by omega), Nat.max_eq_right hpos]
  rfl

theorem isArgumentChar_false_iff {c : Char} : isArgumentChar c = false ↔ isQuote c ∨ c = ')' := by
  cases h : isQuote c <;> simp [isArgumentChar, h]

/-- What ends an argument behind characters of the argument begins with these. -/
theorem ending?_append {run : Text} (hne : run ≠ []) (hrun : ∀ c ∈ run, isArgumentChar c)
    (rest : Text) : ending? (run ++ rest) = closing? (run ++ rest) := by
  obtain ⟨c, run, rfl⟩ := List.exists_cons_of_ne_nil hne
  have hq : isQuote c = false := by
    have := hrun c List.mem_cons_self
    simp only [isArgumentChar, Bool.and_eq_true, Bool.not_eq_true'] at this
    exact this.1
  rw [ending?, List.cons_append, optionalQuote]
  cases h : closing? (c :: (run ++ rest)) <;> simp [hq, h]

/-- An argument takes no more than one character if it can end there. -/
theorem argument?_cons {c : Char} (hc : isArgumentChar c) (rest : Text) :
    argument? (c :: rest) =
      match ending? rest with
      | some ending => some ([c], ending)
      | none => (argument? rest).map fun a => (c :: a.1, a.2) := by
  have hsplit := List.takeWhile_append_dropWhile (p := isArgumentChar) (l := rest)
  have hrun : ∀ d ∈ rest.takeWhile isArgumentChar, isArgumentChar d :=
    fun d hd => List.all_eq_true.mp (List.all_takeWhile (p := isArgumentChar) (l := rest)) d hd
  have hstop := List.head?_dropWhile_not isArgumentChar rest
  rw [argument?, argument?, List.takeWhile_cons_of_pos hc, List.dropWhile_cons_of_pos hc]
  simp only [List.cons_ne_nil, if_false]
  generalize rest.takeWhile isArgumentChar = run at hsplit hrun ⊢
  generalize rest.dropWhile isArgumentChar = tail at hsplit hstop ⊢
  subst hsplit
  cases tail with
  | nil =>
    -- the text ends before the argument does
    have hnil : closing? [] = none := rfl
    have hending : ending? (run ++ []) = none := by
      by_cases hne : run = []
      · subst hne
        rfl
      · rw [ending?_append hne hrun, closing?_append hrun, hnil]
        simp
    rw [hending]
    by_cases hne : run = [] <;> simp [hne]
  | cons stop tail =>
    have hstop : isArgumentChar stop = false := by simpa using hstop
    by_cases hne : run = []
    · subst hne
      rcases isArgumentChar_false_iff.mp hstop with hq | rfl
      · have hbracket : stop ≠ ')' := by
          rintro rfl
          exact absurd hq (by decide)
        cases h : closing? tail <;> simp [ending?, optionalQuote, hq, hbracket, h]
      · have hending : ending? (')' :: tail) = some [')'] := rfl
        simp [hending, @trimmed_cons_of_all [] rfl c]
    · rw [ending?_append hne hrun, closing?_append hrun]
      rcases isArgumentChar_false_iff.mp hstop with hq | rfl
      · have hbracket : stop ≠ ')' := by
          rintro rfl
          exact absurd hq (by decide)
        have hnone : closing? (stop :: tail) = none :=
          closing?_cons (isBlank_of_isQuote hq) hbracket
        cases h : closing? tail <;> simp [hne, hbracket, hnone, h]
      · have hsome : closing? (')' :: tail) = some [')'] := rfl
        by_cases hall : run.all isBlank
        · simp [hall, hsome, trimmed_cons_of_all hall]
        · simp [hne, hall, trimmed_cons_of_not_all hall]

theorem findSome?_argument (text : Text) :
    ((pattern.argument.ways text).findSome? fun a => (ending? a.2).map fun ending =>
      (a.1, ending)) = argument? text := by
  induction text with
  | nil => rfl
  | cons c rest ih =>
    rw [pattern, Piece.few_ways_cons]
    by_cases hc : isArgumentChar c
    · rw [if_pos hc, argument?_cons hc, ← ih, List.findSome?_cons, List.findSome?_map, pattern]
      cases ending? rest with
      | some ending => rfl
      | none =>
        simp [List.map_findSome?, Function.comp_def]
    · rw [if_neg hc, argument?, List.takeWhile_cons_of_neg hc]
      rfl

theorem closing?_of_optionalQuote {text : Text} (h : closing? (optionalQuote text).2 = none) :
    closing? text = none := by
  cases text with
  | nil => rfl
  | cons c rest =>
    by_cases hq : isQuote c
    · exact closing?_cons (isBlank_of_isQuote hq) (by rintro rfl; exact absurd hq (by decide))
    · simpa [optionalQuote, hq] using h

theorem argument?_of_optionalQuote {text : Text} (h : argument? (optionalQuote text).2 = none) :
    argument? text = none := by
  cases text with
  | nil => rfl
  | cons c rest =>
    by_cases hq : isQuote c
    · have hc : ¬ isArgumentChar c := by simp [isArgumentChar, hq]
      rw [argument?, List.takeWhile_cons_of_neg hc]
      rfl
    · simpa [optionalQuote, hq] using h

/-- Blanks in front of something that neither is an argument nor ends one cannot begin one. -/
theorem argument?_blanks_append {blanks text : Text} (hblanks : ∀ c ∈ blanks, isBlank c)
    (hargument : argument? (optionalQuote text).2 = none)
    (hclosing : closing? (optionalQuote text).2 = none) :
    argument? (blanks ++ text) = none := by
  induction blanks with
  | nil => exact argument?_of_optionalQuote hargument
  | cons c blanks ih =>
    have hrest : ∀ d ∈ blanks, isBlank d := fun d hd => hblanks d (List.mem_cons_of_mem c hd)
    have hending : ending? (blanks ++ text) = none := by
      by_cases hne : blanks = []
      · subst hne
        rw [List.nil_append, ending?, hclosing]
        rfl
      · have hrun : ∀ d ∈ blanks, isArgumentChar d :=
          fun d hd => isArgumentChar_of_isBlank (hrest d hd)
        rw [ending?_append hne hrun, closing?_append hrun, closing?_of_optionalQuote hclosing]
        simp
    rw [List.cons_append, argument?_cons (isArgumentChar_of_isBlank (hblanks c (by simp))), hending,
      ih hrest]
    rfl

/-- What stands behind the opening bracket. -/
def inside? (opening inner : Text) : Option Enclosed := do
  let blanks := inner.takeWhile isBlank
  let (quote, body) := optionalQuote (inner.dropWhile isBlank)
  match argument? body with
  | some (argument, closing) => some ⟨opening ++ blanks ++ quote, argument, closing⟩
  | none => do
    let last ← blanks.getLast?
    let closing ← closing? body
    some ⟨opening ++ blanks.dropLast, [last], quote ++ closing⟩

theorem enclosed?_eq_bind (text : Text) :
    enclosed? text = (opening? text).bind fun w => inside? w.1 w.2 := rfl

/-- An argument behind an optional quote. -/
def quoted? (opening text : Text) : Option Enclosed :=
  (argument? (optionalQuote text).2).map fun a =>
    ⟨opening ++ (optionalQuote text).1, a.1, a.2⟩

theorem inside?_of_not_isBlank {opening inner : Text} (h : inner.takeWhile isBlank = []) :
    inside? opening inner = quoted? opening inner := by
  have hdrop : inner.dropWhile isBlank = inner := by
    have := List.takeWhile_append_dropWhile (p := isBlank) (l := inner)
    rw [h] at this
    exact this
  rw [inside?, quoted?, h, hdrop]
  cases ha : argument? (optionalQuote inner).2 <;> simp [ha]

theorem inside?_cons_isBlank {c : Char} (hc : isBlank c) (opening inner : Text) :
    inside? opening (c :: inner) =
      (inside? (opening ++ [c]) inner).or (quoted? opening (c :: inner)) := by
  have hq : ¬ isQuote c := fun hq => by simp [isBlank_of_isQuote hq] at hc
  have hquoted : quoted? opening (c :: inner) =
      (argument? (c :: inner)).map fun a => ⟨opening, a.1, a.2⟩ := by
    simp [quoted?, optionalQuote, hq]
  have hsplit := List.takeWhile_append_dropWhile (p := isBlank) (l := inner)
  have hblanks : ∀ d ∈ inner.takeWhile isBlank, isBlank d :=
    fun d hd => List.all_eq_true.mp (List.all_takeWhile (p := isBlank) (l := inner)) d hd
  rw [hquoted, inside?, inside?, List.takeWhile_cons_of_pos hc, List.dropWhile_cons_of_pos hc,
    argument?_cons (isArgumentChar_of_isBlank hc)]
  generalize inner.takeWhile isBlank = blanks at hsplit hblanks ⊢
  generalize inner.dropWhile isBlank = tail at hsplit ⊢
  subst hsplit
  cases hargument : argument? (optionalQuote tail).2 with
  | some a => simp [hargument]
  | none =>
    cases blanks with
    | nil =>
      rw [List.nil_append, argument?_of_optionalQuote hargument, ending?]
      cases hclosing : closing? (optionalQuote tail).2 <;> simp [hargument, hclosing]
    | cons b blanks =>
      cases hclosing : closing? (optionalQuote tail).2 with
      | some closing =>
        have hlast := List.getLast?_eq_some_getLast (List.cons_ne_nil b blanks)
        simp [hargument, hclosing, hlast]
      | none =>
        -- the search comes back to this blank in vain
        have hnone := argument?_blanks_append hblanks hargument hclosing
        have hrun : ∀ d ∈ b :: blanks, isArgumentChar d :=
          fun d hd => isArgumentChar_of_isBlank (hblanks d hd)
        have hending : ending? (b :: blanks ++ tail) = none := by
          rw [ending?_append (List.cons_ne_nil b blanks) hrun, closing?_append hrun,
            closing?_of_optionalQuote hclosing]
          simp
        rw [hnone, hending]
        simp [hargument, hclosing]

theorem findSome?_quoted (opening text : Text) :
    ((Piece.sequence [.optional isQuote] text).findSome? fun b =>
      (argument? b.2).map fun a => Enclosed.mk (opening ++ b.1.flatten) a.1 a.2) =
      quoted? opening text := by
  rw [Piece.findSome?_sequence_cons, Piece.ways, List.findSome?_append, quoted?]
  simp only [Piece.findSome?_sequence_nil, List.findSome?_cons, List.findSome?_nil]
  cases text with
  | nil => rfl
  | cons c rest =>
    by_cases hq : isQuote c
    · have hc : ¬ isArgumentChar c := by simp [isArgumentChar, hq]
      have hnone : argument? (c :: rest) = none := by
        rw [argument?, List.takeWhile_cons_of_neg hc]
        rfl
      cases ha : argument? rest <;> simp [Piece.first, optionalQuote, hq, hnone, ha]
    · cases ha : argument? (c :: rest) <;> simp [Piece.first, optionalQuote, hq, ha]

/-- The search among the blanks in front of an argument. -/
theorem findSome?_blanks (opening inner : Text) :
    ((Piece.runs isBlank inner).findSome? fun w => quoted? (opening ++ w.1) w.2) =
      inside? opening inner := by
  induction inner generalizing opening with
  | nil =>
    rw [inside?_of_not_isBlank rfl]
    simp [Piece.runs]
  | cons c inner ih =>
    by_cases hc : isBlank c
    · rw [inside?_cons_isBlank hc, ← ih, Piece.runs, if_pos hc, List.findSome?_append,
        List.findSome?_map]
      simp [Function.comp_def]
    · rw [inside?_of_not_isBlank (List.takeWhile_cons_of_neg hc), Piece.runs, if_neg hc]
      simp

/-- The search for the pieces up to the opening bracket. -/
theorem findSome?_opening {β : Type} (f : Text → Text → Option β) (text : Text) :
    ((Piece.sequence [.literal ['u', 'r', 'l'], .many isBlank, .literal ['(']] text).findSome?
      fun b => f b.1.flatten b.2) = (opening? text).bind fun w => f w.1 w.2 := by
  simp only [Piece.findSome?_sequence_cons, Piece.findSome?_sequence_nil, Piece.findSome?_literal]
  by_cases h : ['u', 'r', 'l'].isPrefixOf text
  · obtain ⟨rest, rfl⟩ := List.isPrefixOf_iff_prefix.mp h
    rw [if_pos h, Piece.ways, Piece.findSome?_runs]
    · simp only [List.cons_append, List.nil_append, List.length_cons, List.length_nil,
        List.drop_succ_cons, List.drop_zero, opening?]
      cases rest.dropWhile isBlank with
      | nil => rfl
      | cons c inner =>
        by_cases hc : c = '('
        · subst hc
          simp
        · simp [hc, Ne.symm hc]
    · -- a blank is no bracket
      intro part c rest hc
      have : c ≠ '(' := by
        rintro rfl
        exact absurd hc (by decide)
      simp [Ne.symm this]
  · rw [if_neg h, opening?_of_not_isPrefixOf h]
    rfl

/-- The search for an argument and what is behind it. -/
theorem findSome?_argument_after (before text : Text) :
    ((pattern.argument.ways text).findSome? fun a =>
      (Piece.sequence pattern.after a.2).findSome? fun e =>
        some (Enclosed.mk before a.1 e.1.flatten)) =
      (argument? text).map fun a => ⟨before, a.1, a.2⟩ := by
  rw [← findSome?_argument, List.map_findSome?]
  congr 1
  funext a
  refine (findSome?_after (fun ending => some (Enclosed.mk before a.1 ending)) a.2).trans ?_
  cases h : ending? a.2 <;> simp [h]

/-- The recogniser of `url( … )` finds the preferred way of its pattern. -/
theorem enclosed?_eq_match? (text : Text) : enclosed? text = pattern.match? text := by
  have hbefore : pattern.before =
      [.literal ['u', 'r', 'l'], .many isBlank, .literal ['(']] ++
        [.many isBlank, .optional isQuote] := rfl
  rw [Pattern.match?_eq, enclosed?_eq_bind, hbefore, Piece.findSome?_sequence_append]
  simp only [findSome?_argument_after, List.flatten_append]
  refine .trans ?_ (findSome?_opening (fun opening inner =>
    (Piece.sequence [.many isBlank, .optional isQuote] inner).findSome? fun b =>
      (argument? b.2).map fun a => Enclosed.mk (opening ++ b.1.flatten) a.1 a.2) text).symm
  congr 1
  funext ⟨opening, inner⟩
  rw [← findSome?_blanks, Piece.findSome?_sequence_cons]
  congr 1
  funext w
  rw [← findSome?_quoted]
  simp

end Url

end StylesheetBuild
