/-
Patterns of pieces and the ways in which they match.

A form of reference is a keyword, blanks, brackets and quotes around an argument.  As a pattern
it is a list of pieces, each a class of characters and a rule for how many of them to take.  A
pattern may match the beginning of a text in several ways.  `ways` lists them all, the preferred
one first: a greedy piece tries long parts before short ones, a reluctant piece the other way
round, and an earlier piece decides before a later one.

* **`Pattern.mem_ways`** — whichever way it is, the parts are what their pieces admit, and they
  make up the beginning of the text;
* **`Pattern.ways_append`** — and every such beginning of a text is matched in that way;
* **`Pattern.match?_eq`** — the preferred way is found by a search that nests in the order of the
  pieces;
* **`Piece.findSome?_runs`** — in such a search a greedy piece in front of something that its class
  excludes has only its longest part to offer.
-/
import StylesheetBuild.Reference.Url
import StylesheetBuild.Reference.ImportRule
import Mathlib.Data.List.Forall2
import Mathlib.Data.List.TakeWhile

namespace StylesheetBuild

open Text

/-- A piece of a pattern: given characters; one character of a class; one or else none; as many
as possible; as many as possible but not none; as few as possible but not none. -/
inductive Piece where
  | literal (text : Text)
  | one (p : Char → Bool)
  | optional (p : Char → Bool)
  | many (p : Char → Bool)
  | most (p : Char → Bool)
  | few (p : Char → Bool)

namespace Piece

/-- The first character of a text with the text behind it, if it is of a class. -/
def first (p : Char → Bool) : Text → List (Text × Text)
  | [] => []
  | c :: rest => if p c then [([c], rest)] else []

/-- The beginnings of a text that consist of characters of a class, each with the text behind
it, the longest first. -/
def runs (p : Char → Bool) : Text → List (Text × Text)
  | [] => [([], [])]
  | c :: rest =>
    if p c then (runs p rest).map (fun w => (c :: w.1, w.2)) ++ [([], c :: rest)]
    else [([], c :: rest)]

/-- The ways in which a piece matches the beginning of a text, the preferred one first: the part
that it takes, and the text behind that. -/
def ways : Piece → Text → List (Text × Text)
  | literal s, text => if s.isPrefixOf text then [(s, text.drop s.length)] else []
  | one p, text => first p text
  | optional p, text => first p text ++ [([], text)]
  | many p, text => runs p text
  | most p, text => (runs p text).filter (·.1 != [])
  | few p, text => ((runs p text).filter (·.1 != [])).reverse

/-- The ways in which pieces match the beginning of a text one after another, the preferred one
first: their parts, and the text behind them. -/
def sequence : List Piece → Text → List (List Text × Text)
  | [], text => [([], text)]
  | piece :: pieces, text =>
    (piece.ways text).flatMap fun w =>
      (sequence pieces w.2).map fun v => (w.1 :: v.1, v.2)

/-- What a piece can take. -/
def Admits : Piece → Text → Prop
  | literal s, part => part = s
  | one p, part => ∃ c, p c ∧ part = [c]
  | optional p, part => part = [] ∨ ∃ c, p c ∧ part = [c]
  | many p, part => ∀ c ∈ part, p c
  | most p, part | few p, part => part ≠ [] ∧ ∀ c ∈ part, p c

end Piece

/-- A pattern for an argument with the pieces in front of it and behind it. -/
structure Pattern where
  before : List Piece
  argument : Piece
  after : List Piece

namespace Pattern

/-- The ways in which a pattern matches the beginning of a text, the preferred one first. -/
def ways (pattern : Pattern) (text : Text) : List Enclosed :=
  (Piece.sequence pattern.before text).flatMap fun b =>
    (pattern.argument.ways b.2).flatMap fun a =>
      (Piece.sequence pattern.after a.2).map fun e => ⟨b.1.flatten, a.1, e.1.flatten⟩

/-- The preferred way in which a pattern matches the beginning of a text. -/
def match? (pattern : Pattern) (text : Text) : Option Enclosed :=
  (pattern.ways text).head?

end Pattern

/-- The keyword, blanks, an opening bracket, blanks and an optional quote; an argument without
quotes and closing brackets, as short as possible; an optional quote, blanks and a closing
bracket. -/
def Url.pattern : Pattern where
  before := [.literal ['u', 'r', 'l'], .many isBlank, .literal ['('], .many isBlank,
    .optional isQuote]
  argument := .few isArgumentChar
  after := [.optional isQuote, .many isBlank, .literal [')']]

/-- The keyword, blanks and a quote; an argument without quotes, as long as possible; a quote. -/
def ImportRule.pattern : Pattern where
  before := [.literal ['@', 'i', 'm', 'p', 'o', 'r', 't'], .many isBlank, .one isQuote]
  argument := .most (!isQuote ·)
  after := [.one isQuote]

/-! ### What a pattern finds is there -/

namespace Piece

theorem mem_first {p : Char → Bool} {text part rest : Text} (h : (part, rest) ∈ first p text) :
    text = part ++ rest ∧ ∃ c, p c ∧ part = [c] := by
  cases text with
  | nil => simp [first] at h
  | cons c text =>
    by_cases hc : p c
    · simp only [first, hc, if_true, List.mem_singleton, Prod.mk.injEq] at h
      obtain ⟨rfl, rfl⟩ := h
      exact ⟨rfl, c, hc, rfl⟩
    · simp [first, hc] at h

theorem mem_runs {p : Char → Bool} {text part rest : Text} (h : (part, rest) ∈ runs p text) :
    text = part ++ rest ∧ ∀ c ∈ part, p c := by
  induction text generalizing part with
  | nil =>
    simp only [runs, List.mem_singleton, Prod.mk.injEq] at h
    obtain ⟨rfl, rfl⟩ := h
    simp
  | cons c text ih =>
    by_cases hc : p c
    · simp only [runs, hc, if_true, List.mem_append, List.mem_map, List.mem_singleton,
        Prod.mk.injEq] at h
      rcases h with ⟨w, hw, rfl, rfl⟩ | ⟨rfl, rfl⟩
      · obtain ⟨htext, hpart⟩ := @ih w.1 hw
        refine ⟨by rw [htext]; rfl, fun d hd => ?_⟩
        rcases List.mem_cons.mp hd with rfl | hd
        · exact hc
        · exact hpart d hd
      · simp
    · simp only [runs, hc, Bool.false_eq_true, if_false, List.mem_singleton, Prod.mk.injEq] at h
      obtain ⟨rfl, rfl⟩ := h
      simp

theorem mem_ways {piece : Piece} {text part rest : Text} (h : (part, rest) ∈ piece.ways text) :
    text = part ++ rest ∧ piece.Admits part := by
  cases piece with
  | literal s =>
    by_cases hs : s.isPrefixOf text
    · simp only [ways, hs, if_true, List.mem_singleton, Prod.mk.injEq] at h
      obtain ⟨rfl, rfl⟩ := h
      obtain ⟨tail, rfl⟩ := List.isPrefixOf_iff_prefix.mp hs
      exact ⟨by simp, rfl⟩
    · simp [ways, hs] at h
  | one p => exact mem_first h
  | optional p =>
    rcases List.mem_append.mp h with h | h
    · obtain ⟨htext, hpart⟩ := mem_first h
      exact ⟨htext, .inr hpart⟩
    · simp only [List.mem_singleton, Prod.mk.injEq] at h
      obtain ⟨rfl, rfl⟩ := h
      exact ⟨rfl, .inl rfl⟩
  | many p => exact mem_runs h
  | most p =>
    obtain ⟨h, hne⟩ := List.mem_filter.mp h
    obtain ⟨htext, hpart⟩ := mem_runs h
    exact ⟨htext, by simpa using hne, hpart⟩
  | few p =>
    obtain ⟨h, hne⟩ := List.mem_filter.mp (List.mem_reverse.mp h)
    obtain ⟨htext, hpart⟩ := mem_runs h
    exact ⟨htext, by simpa using hne, hpart⟩

theorem mem_sequence {pieces : List Piece} {text : Text} {parts : List Text} {rest : Text}
    (h : (parts, rest) ∈ sequence pieces text) :
    text = parts.flatten ++ rest ∧ List.Forall₂ Admits pieces parts := by
  induction pieces generalizing text parts with
  | nil =>
    simp only [sequence, List.mem_singleton, Prod.mk.injEq] at h
    obtain ⟨rfl, rfl⟩ := h
    exact ⟨rfl, .nil⟩
  | cons piece pieces ih =>
    simp only [sequence, List.mem_flatMap, List.mem_map, Prod.mk.injEq] at h
    obtain ⟨⟨part, rest'⟩, hpart, ⟨parts', rest''⟩, hparts, rfl, rfl⟩ := h
    obtain ⟨rfl, hadmits⟩ := mem_ways hpart
    obtain ⟨rfl, hall⟩ := ih hparts
    exact ⟨by simp, .cons hadmits hall⟩

end Piece

/-- Whichever way a pattern matches, the parts are what their pieces admit, and they make up the
beginning of the text. -/
theorem Pattern.mem_ways {pattern : Pattern} {text : Text} {e : Enclosed}
    (h : e ∈ pattern.ways text) :
    e.text <+: text ∧
      (∃ parts, List.Forall₂ Piece.Admits pattern.before parts ∧ e.before = parts.flatten) ∧
      pattern.argument.Admits e.argument ∧
      ∃ parts, List.Forall₂ Piece.Admits pattern.after parts ∧ e.after = parts.flatten := by
  simp only [ways, List.mem_flatMap, List.mem_map] at h
  obtain ⟨⟨before, rest₁⟩, hbefore, ⟨argument, rest₂⟩, hargument, ⟨after, rest₃⟩, hafter, rfl⟩ := h
  obtain ⟨rfl, hb⟩ := Piece.mem_sequence hbefore
  obtain ⟨rfl, ha⟩ := Piece.mem_ways hargument
  obtain ⟨rfl, he⟩ := Piece.mem_sequence hafter
  exact ⟨⟨rest₃, by simp [Enclosed.text]⟩, ⟨before, hb, rfl⟩, ha, after, he, rfl⟩

/-! ### What is there is found -/

namespace Piece

theorem runs_append {p : Char → Bool} {part : Text} (h : ∀ c ∈ part, p c) (rest : Text) :
    (part, rest) ∈ runs p (part ++ rest) := by
  induction part with
  | nil =>
    cases rest with
    | nil => simp [runs]
    | cons c rest => by_cases hc : p c <;> simp [runs, hc]
  | cons c part ih =>
    rw [List.cons_append, runs, if_pos (h c List.mem_cons_self)]
    refine List.mem_append_left _ (List.mem_map.mpr ⟨(part, rest), ?_, rfl⟩)
    exact ih fun d hd => h d (List.mem_cons_of_mem c hd)

theorem ways_append {piece : Piece} {part : Text} (h : piece.Admits part) (rest : Text) :
    (part, rest) ∈ piece.ways (part ++ rest) := by
  cases piece with
  | literal s =>
    obtain rfl : part = s := h
    simp [ways]
  | one p =>
    obtain ⟨c, hc, rfl⟩ := h
    simp [ways, first, hc]
  | optional p =>
    rcases h with rfl | ⟨c, hc, rfl⟩
    · simp [ways]
    · simp [ways, first, hc]
  | many p => exact runs_append h rest
  | most p => exact List.mem_filter.mpr ⟨runs_append h.2 rest, by simpa using h.1⟩
  | few p =>
    refine List.mem_reverse.mpr (List.mem_filter.mpr ⟨runs_append h.2 rest, ?_⟩)
    simpa using h.1

theorem sequence_append {pieces : List Piece} {parts : List Text}
    (h : List.Forall₂ Admits pieces parts) (rest : Text) :
    (parts, rest) ∈ sequence pieces (parts.flatten ++ rest) := by
  induction h with
  | nil => simp [sequence]
  | @cons piece part pieces parts hpart _ ih =>
    rw [List.flatten_cons, List.append_assoc, sequence, List.mem_flatMap]
    exact ⟨(part, parts.flatten ++ rest), ways_append hpart _,
      List.mem_map.mpr ⟨(parts, rest), ih, rfl⟩⟩

end Piece

/-- Parts that their pieces admit are matched wherever a text begins with them. -/
theorem Pattern.ways_append {pattern : Pattern} {before after : List Text} {argument : Text}
    (hbefore : List.Forall₂ Piece.Admits pattern.before before)
    (hargument : pattern.argument.Admits argument)
    (hafter : List.Forall₂ Piece.Admits pattern.after after) (rest : Text) :
    ⟨before.flatten, argument, after.flatten⟩ ∈
      pattern.ways (before.flatten ++ (argument ++ (after.flatten ++ rest))) := by
  simp only [ways, List.mem_flatMap, List.mem_map]
  exact ⟨_, Piece.sequence_append hbefore _, _, Piece.ways_append hargument _, _,
    Piece.sequence_append hafter rest, rfl⟩

/-! ### The first result of a search -/

namespace Piece

variable {β : Type}

theorem findSome?_flatMap {α γ : Type} (xs : List α) (g : α → List γ) (f : γ → Option β) :
    (xs.flatMap g).findSome? f = xs.findSome? fun x => (g x).findSome? f := by
  induction xs with
  | nil => rfl
  | cons x xs ih =>
    rw [List.flatMap_cons, List.findSome?_append, ih, List.findSome?_cons]
    cases (g x).findSome? f <;> rfl

theorem findSome?_sequence_nil {f : List Text × Text → Option β} {text : Text} :
    (sequence [] text).findSome? f = f ([], text) := by
  simp [sequence]

theorem findSome?_sequence_cons {piece : Piece} {pieces : List Piece}
    {f : List Text × Text → Option β} {text : Text} :
    (sequence (piece :: pieces) text).findSome? f =
      (piece.ways text).findSome? fun w =>
        (sequence pieces w.2).findSome? fun v => f (w.1 :: v.1, v.2) := by
  simp [sequence, findSome?_flatMap, List.findSome?_map, Function.comp_def]

theorem findSome?_sequence_append {first second : List Piece}
    {f : List Text × Text → Option β} {text : Text} :
    (sequence (first ++ second) text).findSome? f =
      (sequence first text).findSome? fun w =>
        (sequence second w.2).findSome? fun v => f (w.1 ++ v.1, v.2) := by
  induction first generalizing f text with
  | nil => simp [findSome?_sequence_nil]
  | cons piece first ih => simp [findSome?_sequence_cons, ih]

theorem findSome?_literal {s : Text} {f : Text × Text → Option β} {text : Text} :
    ((literal s).ways text).findSome? f =
      if s.isPrefixOf text then f (s, text.drop s.length) else none := by
  by_cases h : s.isPrefixOf text <;> simp [ways, h]

/-- A greedy piece in front of something that its class excludes has only its longest part to
offer. -/
theorem findSome?_runs {p : Char → Bool} {f : Text × Text → Option β} {text : Text}
    (h : ∀ part c rest, p c → f (part, c :: rest) = none) :
    (runs p text).findSome? f = f (text.takeWhile p, text.dropWhile p) := by
  induction text generalizing f with
  | nil => simp [runs]
  | cons c text ih =>
    by_cases hc : p c
    · have hlong := ih (f := fun w => f (c :: w.1, w.2)) fun part => h (c :: part)
      simp [runs, hc, List.findSome?_append, List.findSome?_map, Function.comp_def, hlong,
        h [] c text hc]
    · simp [runs, hc]

theorem filter_runs_cons {p : Char → Bool} {c : Char} {text : Text} (hc : p c) :
    (runs p (c :: text)).filter (·.1 != []) =
      (runs p text).map fun w => (c :: w.1, w.2) := by
  have hne : ∀ w : Text × Text, (c :: w.1 != []) = true := fun w => by simp
  simp [runs, hc, List.filter_map, Function.comp_def, hne]

theorem runs_eq_filter_append (p : Char → Bool) (text : Text) :
    runs p text = (runs p text).filter (·.1 != []) ++ [([], text)] := by
  cases text with
  | nil => simp [runs]
  | cons c text =>
    by_cases hc : p c
    · rw [filter_runs_cons hc, runs, if_pos hc]
    · simp [runs, hc]

theorem few_ways_cons (p : Char → Bool) (c : Char) (text : Text) :
    (few p).ways (c :: text) =
      if p c then ([c], text) :: ((few p).ways text).map fun w => (c :: w.1, w.2) else [] := by
  by_cases hc : p c
  · have hruns := congrArg List.reverse (runs_eq_filter_append p text)
    rw [List.reverse_append] at hruns
    rw [if_pos hc, ways, filter_runs_cons hc, ← List.map_reverse, hruns]
    rfl
  · simp [ways, runs, hc]

theorem findSome?_most {p : Char → Bool} {f : Text × Text → Option β} {text : Text}
    (h : ∀ part c rest, p c → f (part, c :: rest) = none) :
    ((most p).ways text).findSome? f =
      if text.takeWhile p = [] then none else f (text.takeWhile p, text.dropWhile p) := by
  have hfilter : ∀ ws : List (Text × Text), (ws.filter (·.1 != [])).findSome? f =
      ws.findSome? fun w => if w.1 = [] then none else f w := by
    intro ws
    induction ws with
    | nil => rfl
    | cons w ws ih =>
      by_cases hw : w.1 = []
      · simp [hw, ih]
      · simp [hw, ih, List.findSome?_cons]
  rw [ways, hfilter, findSome?_runs]
  intro part c rest hc
  rw [h part c rest hc, ite_self]

theorem findSome?_one {p : Char → Bool} {f : Text × Text → Option β} {text : Text} :
    ((one p).ways text).findSome? f =
      match text with
      | [] => none
      | c :: rest => if p c then f ([c], rest) else none := by
  cases text with
  | nil => simp [ways, first]
  | cons c rest => by_cases hc : p c <;> simp [ways, first, hc]

end Piece

theorem Pattern.match?_eq (pattern : Pattern) (text : Text) :
    pattern.match? text =
      (Piece.sequence pattern.before text).findSome? fun b =>
        (pattern.argument.ways b.2).findSome? fun a =>
          (Piece.sequence pattern.after a.2).findSome? fun e =>
            some ⟨b.1.flatten, a.1, e.1.flatten⟩ := by
  have hhead : ∀ (ws : List (List Text × Text)) (g : List Text × Text → Enclosed),
      (ws.map g).head? = ws.findSome? fun w => some (g w) := by
    intro ws g
    cases ws <;> rfl
  simp only [match?, ways, List.head?_flatMap, hhead]

end StylesheetBuild
