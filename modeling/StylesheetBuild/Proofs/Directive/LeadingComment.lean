/-
The comment that opens a source text.

Only the block comment in front of everything but blanks is ever looked at, and it closes at the
first `*/` behind its opening.

* **`endless_iff_isChain`** — a text has no `*/` in it if no star has a slash next to it;
* **`unrolled_iff`** — the pattern of a comment goes round by round from one run of stars to the
  next, and it stops at the first run with a slash behind it;
* **`leadingComment?_eq_some_iff`** — what is found is blanks, `/*`, a text without `*/`, and `*/`;
* **`leadingComment_exact`** — so the pattern has one match at most, nothing behind it counts, and
  a source text without it has no directives.

Design notes: two comments that begin the same source text are equal, since both close at the
first `*/`.  Whatever a search through the ways of the pattern prefers, there is nothing to choose.
-/
import Mathlib.Data.List.Chain
import Mathlib.Data.List.TakeWhile
import StylesheetBuild.Directive.Basic

namespace StylesheetBuild.Directive

open Text

/-! ### Texts without `*/` -/

/-- A text without `*/` in it. -/
def Endless (text : Text) : Prop :=
  ¬ ['*', '/'] <:+: text

/-- In such a text no star has a slash next to it. -/
theorem endless_iff_isChain {text : Text} :
    Endless text ↔ text.IsChain fun a b => a = '*' → b ≠ '/' := by
  rw [List.isChain_iff_forall_rel_of_append_cons_cons]
  constructor
  · rintro h a b before after rfl rfl rfl
    exact h ⟨before, after, by simp⟩
  · rintro h ⟨before, after, rfl⟩
    exact h (List.append_assoc before ['*', '/'] after) rfl rfl

theorem endless_append_star {text : Text} : Endless (text ++ ['*']) ↔ Endless text := by
  rw [endless_iff_isChain, endless_iff_isChain, List.isChain_append]
  constructor
  · rintro ⟨h, -, -⟩
    exact h
  · intro h
    refine ⟨h, List.isChain_singleton _, fun a _ b hb _ => ?_⟩
    obtain rfl : '*' = b := Option.some_inj.mp hb
    decide

/-! ### The comment -/

/-- A comment that can open a source text: blanks, and a text without `*/` between `/*` and
`*/`. -/
structure LeadingComment where
  blanks : Text
  body : Text
  isBlank_blanks : ∀ c ∈ blanks, isBlank c
  endless_body : Endless body

def LeadingComment.text (comment : LeadingComment) : Text :=
  comment.blanks ++ ['/', '*'] ++ comment.body ++ ['*', '/']

/-- What is found is the comment at the beginning of the source text. -/
theorem leadingComment?_eq_some_iff {source text : Text} :
    leadingComment? source = some text ↔
      ∃ comment : LeadingComment, comment.text = text ∧ text <+: source := by
  constructor
  · intro h
    have hsplit := List.takeWhile_append_dropWhile (p := isBlank) (l := source)
    have hblank := List.all_takeWhile (p := isBlank) (l := source)
    rw [leadingComment?] at h
    split at h
    · rename_i rest hdrop
      obtain ⟨body, hbody, rfl⟩ := Option.map_eq_some_iff.mp h
      obtain ⟨after, rfl, hendless⟩ := body?_eq_some_iff.mp hbody
      refine ⟨⟨source.takeWhile isBlank, body, List.all_eq_true.mp hblank,
        endless_append_star.mp hendless⟩, rfl, after, ?_⟩
      rw [hdrop] at hsplit
      simpa using hsplit
    · exact absurd h (by simp)
  · rintro ⟨⟨blanks, body, hblank, hendless⟩, rfl, after, rfl⟩
    have hsource : LeadingComment.text ⟨blanks, body, hblank, hendless⟩ ++ after =
        blanks ++ '/' :: '*' :: (body ++ '*' :: '/' :: after) := by
      simp [LeadingComment.text]
    have hbody : body? (body ++ '*' :: '/' :: after) = some body :=
      body?_eq_some_iff.mpr ⟨after, rfl, endless_append_star.mpr hendless⟩
    have hslash : ¬ isBlank '/' := by decide
    rw [leadingComment?, hsource, List.takeWhile_append_of_pos hblank,
      List.dropWhile_append_of_pos hblank, List.takeWhile_cons_of_neg hslash,
      List.dropWhile_cons_of_neg hslash]
    simp [hbody, LeadingComment.text]

/-- The comment is found whatever follows it. -/
theorem leadingComment?_append (comment : LeadingComment) (rest : Text) :
    leadingComment? (comment.text ++ rest) = some comment.text :=
  leadingComment?_eq_some_iff.mpr ⟨comment, rfl, List.prefix_append _ _⟩

/-! ### The pattern of a comment -/

/-- Rounds of the pattern: each is a character that is neither a star nor a slash, characters other
than stars, and stars. -/
inductive Rounds : Text → Prop
  | nil : Rounds []
  | cons {c : Char} {plain stars rest : Text} (hstar : c ≠ '*') (hslash : c ≠ '/')
      (hplain : '*' ∉ plain) (hne : stars ≠ []) (hstars : ∀ d ∈ stars, d = '*')
      (hrest : Rounds rest) : Rounds (c :: (plain ++ stars ++ rest))

/-- What the pattern takes in front of the last slash: characters other than stars, stars, and any
number of rounds. -/
def Unrolled (text : Text) : Prop :=
  ∃ plain stars rounds, text = plain ++ stars ++ rounds ∧ '*' ∉ plain ∧ stars ≠ [] ∧
    (∀ c ∈ stars, c = '*') ∧ Rounds rounds

/-- Stars, with characters other than stars in front of them, have no slash behind a star, and the
last of them is a star. -/
theorem isChain_plain_stars {plain stars : Text} (hplain : '*' ∉ plain) (hne : stars ≠ [])
    (hstars : ∀ c ∈ stars, c = '*') :
    (plain ++ stars).IsChain (fun a b => a = '*' → b ≠ '/') ∧
      (plain ++ stars).getLast? = some '*' := by
  have hlast : (plain ++ stars).getLast? = some '*' := by
    obtain ⟨last, hlast⟩ := List.getLast?_isSome.mpr hne |> Option.isSome_iff_exists.mp
    rw [List.getLast?_append, hlast, hstars last (List.mem_of_getLast? hlast)]
    rfl
  refine ⟨List.isChain_append.mpr ⟨?_, ?_, fun a ha b hb hstar => ?_⟩, hlast⟩
  · rw [List.isChain_iff_forall_rel_of_append_cons_cons]
    rintro a b before after rfl rfl
    exact absurd (by simp) hplain
  · rw [List.isChain_iff_forall_rel_of_append_cons_cons]
    rintro a b before after rfl -
    rw [hstars b (by simp)]
    decide
  · rw [hstars b (List.mem_of_mem_head? hb)]
    decide

theorem isChain_of_rounds {text : Text} (h : Rounds text) :
    text.IsChain (fun a b => a = '*' → b ≠ '/') ∧ text.head? ≠ some '/' ∧
      (text = [] ∨ text.getLast? = some '*') := by
  induction h with
  | nil => exact ⟨List.isChain_nil, by simp, .inl rfl⟩
  | @cons c plain stars rest hstar hslash hplain hne hstars _ ih =>
    obtain ⟨hrest, hhead, hend⟩ := ih
    have hround : '*' ∉ c :: plain := by
      simpa [hplain] using hstar.symm
    obtain ⟨hchain, hlast⟩ := isChain_plain_stars hround hne hstars
    have htext : c :: (plain ++ stars ++ rest) = (c :: plain ++ stars) ++ rest := by simp
    refine ⟨?_, by simpa using hslash, .inr ?_⟩
    · rw [htext]
      refine hchain.append hrest fun a _ b hb _ => ?_
      rintro rfl
      exact hhead hb
    · rw [htext, List.getLast?_append, hlast]
      rcases hend with rfl | hend
      · rfl
      · rw [hend]
        rfl

/-- The pattern goes on up to a star with a slash behind it, and not beyond the first. -/
theorem unrolled_iff {text : Text} :
    Unrolled text ↔ ∃ body, text = body ++ ['*'] ∧ Endless body := by
  constructor
  · rintro ⟨plain, stars, rounds, rfl, hplain, hne, hstars, hrounds⟩
    obtain ⟨hchain, hlast⟩ := isChain_plain_stars hplain hne hstars
    obtain ⟨hrest, hhead, hend⟩ := isChain_of_rounds hrounds
    have hall : (plain ++ stars ++ rounds).IsChain fun a b => a = '*' → b ≠ '/' := by
      refine hchain.append hrest fun a _ b hb _ => ?_
      rintro rfl
      exact hhead hb
    have hstar : (plain ++ stars ++ rounds).getLast? = some '*' := by
      rcases hend with rfl | hend
      · rw [List.append_nil, hlast]
      · rw [List.getLast?_append, hend]
        rfl
    obtain ⟨body, hbody⟩ := List.getLast?_eq_some_iff.mp hstar
    refine ⟨body, hbody, endless_append_star.mp ?_⟩
    rw [← hbody]
    exact endless_iff_isChain.mpr hall
  · rintro ⟨body, rfl, hendless⟩
    have hchain := endless_iff_isChain.mp (endless_append_star.mpr hendless)
    clear hendless
    induction body with
    | nil => exact ⟨[], ['*'], [], rfl, by simp, by simp, by simp, .nil⟩
    | cons c body ih =>
      rw [List.cons_append, List.isChain_cons] at hchain
      obtain ⟨hnext, hchain⟩ := hchain
      obtain ⟨plain, stars, rounds, htext, hplain, hne, hstars, hrounds⟩ := ih hchain
      by_cases hc : c = '*'
      · subst hc
        cases plain with
        | nil =>
          -- one more star in front of the first ones
          refine ⟨[], '*' :: stars, rounds, by simp [htext], by simp, by simp, ?_, hrounds⟩
          simpa using hstars
        | cons d plain =>
          -- the star ends a run, and what stood in front of the stars begins a round
          have hd : d ≠ '/' := hnext d (by rw [htext]; rfl) rfl
          rw [List.mem_cons, not_or] at hplain
          refine ⟨[], ['*'], d :: (plain ++ stars ++ rounds), by simp [htext], by simp, by simp,
            by simp, .cons (Ne.symm hplain.1) hd hplain.2 hne hstars hrounds⟩
      · refine ⟨c :: plain, stars, rounds, by simp [htext], ?_, hne, hstars, hrounds⟩
        simpa [hplain] using Ne.symm hc

/-! ### Nothing else counts -/

/-- **Only the comment in front of everything is seen.**  It is found exactly where a source text
consists of blanks, `/*`, a text without `*/`, `*/` and anything else, and it ends with that first
`*/`.  The same texts are the matches of the pattern `\s*/\*[^*]*\*+(?:[^/*][^*]*\*+)*/` at the
beginning of the source text.  What stands behind the comment makes no difference to any directive,
and without the comment there is none. -/
theorem leadingComment_exact :
    (∀ source text, leadingComment? source = some text ↔
      ∃ blanks body rest, source = blanks ++ ['/', '*'] ++ body ++ ['*', '/'] ++ rest ∧
        (∀ c ∈ blanks, isBlank c) ∧ ¬ ['*', '/'] <:+: body ∧
        text = blanks ++ ['/', '*'] ++ body ++ ['*', '/']) ∧
    (∀ source text, leadingComment? source = some text ↔
      text <+: source ∧ ∃ blanks closing, (∀ c ∈ blanks, isBlank c) ∧ Unrolled closing ∧
        text = blanks ++ ['/', '*'] ++ closing ++ ['/']) ∧
    (∀ (comment : LeadingComment) (rest rest' name : Text),
      read (comment.text ++ rest) name = read (comment.text ++ rest') name) ∧
    (∀ source, (∃ comment : LeadingComment, comment.text <+: source) ∨
      ∀ name, read source name = none) := by
  refine ⟨fun source text => ?_, fun source text => ?_, fun comment rest rest' name => ?_,
    fun source => ?_⟩
  · rw [leadingComment?_eq_some_iff]
    constructor
    · rintro ⟨comment, rfl, rest, rfl⟩
      exact ⟨comment.blanks, comment.body, rest, rfl, comment.isBlank_blanks,
        comment.endless_body, rfl⟩
    · rintro ⟨blanks, body, rest, rfl, hblanks, hbody, rfl⟩
      exact ⟨⟨blanks, body, hblanks, hbody⟩, rfl, List.prefix_append _ _⟩
  · rw [leadingComment?_eq_some_iff]
    constructor
    · rintro ⟨comment, rfl, hfront⟩
      refine ⟨hfront, comment.blanks, comment.body ++ ['*'], comment.isBlank_blanks,
        unrolled_iff.mpr ⟨comment.body, rfl, comment.endless_body⟩, ?_⟩
      simp [LeadingComment.text]
    · rintro ⟨hfront, blanks, closing, hblanks, hclosing, rfl⟩
      obtain ⟨body, rfl, hbody⟩ := unrolled_iff.mp hclosing
      refine ⟨⟨blanks, body, hblanks, hbody⟩, ?_, hfront⟩
      simp [LeadingComment.text]
  · rw [read, read, leadingComment?_append, leadingComment?_append]
  · cases h : leadingComment? source with
    | none => exact .inr fun name => read_eq_none h
    | some text =>
      obtain ⟨comment, rfl, hfront⟩ := leadingComment?_eq_some_iff.mp h
      exact .inl ⟨comment, hfront⟩

/-- `/*/` does not close itself. -/
example : leadingComment? "/*/ @a".toList = none := by decide

/-- A run of stars closes with its last one. -/
example : leadingComment? " /***/ */".toList = some " /***/".toList := by decide

end StylesheetBuild.Directive
