/-
Expansion is one pass over the segments of a text.

A setting with variables is written in segments: plain text, variables in braces with or without a
default, variables without braces, and doubled dollar signs.  Each segment is read for itself,
whatever stands behind it, and what takes its place is not looked at again.

* **`Segment.pieces_append`** — a segment at the beginning of a text is read back from it;
* **`valueOf_flatMap_pieces`** — the pieces of segments fail at the first variable that is not set
  and has no default, or each segment is replaced;
* **`hasBraced_iff`** — a text is expanded at all exactly if there is a `${` in it;
* **`expandSetting_one_pass`** — so segments are replaced one by one, from the left.
-/
import Mathlib.Data.List.Infix
import StylesheetBuild.Config.Load
import StylesheetBuild.Proofs.Text.Runs

namespace StylesheetBuild.Config

open Text (Stops)

namespace Expansion

/-! ### Segments -/

/-- The name of a variable in braces, which ends at the closing brace or at the first `:-`. -/
structure BracedName where
  text : Text
  text_ne : text ≠ []
  brace : '\x7d' ∉ text
  separator : ¬ [':', '-'] <:+: text

/-- What takes the place of a variable in braces that is not set. -/
structure Fallback where
  text : Text
  brace : '\x7d' ∉ text

/-- The name of a variable without braces. -/
structure BareName where
  text : Text
  text_ne : text ≠ []
  nameChar : ∀ c ∈ text, isNameChar c

/-- A part of a text with variables, as it is written. -/
inductive Segment where
  -- text without a dollar sign
  | plain (text : Text) (h : '$' ∉ text)
  | braced (name : BracedName) (fallback : Option Fallback)
  | bare (name : BareName)
  -- a doubled dollar sign, which stands for one
  | dollar

namespace Segment

/-- What stands between the braces of a variable. -/
def content (name : BracedName) : Option Fallback → Text
  | none => name.text
  | some fallback => name.text ++ ':' :: '-' :: fallback.text

def text : Segment → Text
  | plain text _ => text
  | braced name fallback => '$' :: '\x7b' :: (content name fallback ++ ['\x7d'])
  | bare name => '$' :: name.text
  | dollar => ['$', '$']

/-- Whether a segment ends in front of the given text: a name without braces goes on as far as it
can. -/
def EndsAt (rest : Text) : Segment → Prop
  | bare _ => Stops isNameChar rest
  | _ => True

/-- Whether a segment is a variable in braces. -/
def IsBraced : Segment → Prop
  | braced _ _ => True
  | _ => False

/-- The name of the variable that a segment refers to. -/
def name? : Segment → Option Text
  | braced name _ => some name.text
  | bare name => some name.text
  | _ => none

/-- The name of the variable that a segment cannot do without, if that is not set. -/
def unset? (lookup : Variables) : Segment → Option Text
  | braced name none => if (lookup name.text).isNone then some name.text else none
  | bare name => if (lookup name.text).isNone then some name.text else none
  | _ => none

/-- What takes the place of a segment: the value of a variable if that is set, else its default. -/
def filled (lookup : Variables) : Segment → Text
  | plain text _ => text
  | braced name fallback => (lookup name.text).getD (fallback.elim [] (·.text))
  | bare name => (lookup name.text).getD []
  | dollar => ['$']

/-- The pieces that a segment is read as. -/
def pieces : Segment → List Piece
  | plain text _ => text.map .literal
  | braced name fallback => [.named name.text (fallback.map (·.text))]
  | bare name => [.named name.text none]
  | dollar => [.literal '$']

end Segment

/-- The text that segments make up. -/
def written (segments : List Segment) : Text :=
  segments.flatMap Segment.text

/-- Whether each segment ends where the next one begins. -/
def Apart : List Segment → Prop
  | [] => True
  | s :: rest => s.EndsAt (written rest) ∧ Apart rest

/-! ### Reading a segment -/

theorem piecesFrom_length (front rest : Text) :
    piecesFrom front.length (front ++ rest) = piecesFrom 0 rest := by
  induction front with
  | nil => rfl
  | cons c front ih => rw [List.length_cons, List.cons_append, piecesFrom, ih]

/-- What a dollar sign and the text behind it stand for. -/
theorem pieces_dollar (front : Text) {rest : Text} {piece : Piece}
    (h : behindDollar? (front ++ rest) = some (piece, front.length)) :
    Expansion.pieces ('$' :: (front ++ rest)) = piece :: Expansion.pieces rest := by
  rw [Expansion.pieces, piecesFrom, if_pos rfl, h]
  exact congrArg (piece :: ·) (piecesFrom_length front rest)

/-- A separator that is not at the beginning is behind the first character. -/
theorem split_cons {c : Char} {rest : Text} (h : ¬ [':', '-'] <+: c :: rest) :
    splitFallback.split (c :: rest)
      = (c :: (splitFallback.split rest).1, (splitFallback.split rest).2) := by
  rw [splitFallback.split.eq_def]
  split
  · next fallback heq =>
    rw [heq] at h
    exact absurd (List.prefix_append [':', '-'] fallback) h
  · next heq =>
    obtain ⟨rfl, rfl⟩ := List.cons.inj heq
    rfl
  · next heq => exact absurd heq (List.cons_ne_nil c rest)

theorem split_eq_self {name : Text} (h : ¬ [':', '-'] <:+: name) :
    splitFallback.split name = (name, none) := by
  induction name with
  | nil => rfl
  | cons c rest ih =>
    rw [List.infix_cons_iff, not_or] at h
    rw [split_cons h.1, ih h.2]

/-- No separator begins in the name in front of one. -/
theorem not_separator_append {name : Text} (hne : name ≠ []) (h : ¬ [':', '-'] <:+: name)
    (fallback : Text) : ¬ [':', '-'] <+: name ++ ':' :: '-' :: fallback := by
  intro hbegins
  obtain ⟨c, rest, rfl⟩ := List.exists_cons_of_ne_nil hne
  cases rest with
  | nil => simp at hbegins
  | cons d rest =>
    have hname : [':', '-'] <+: c :: d :: rest := by simpa using hbegins
    exact h hname.isInfix

theorem split_append {name : Text} (h : ¬ [':', '-'] <:+: name) (fallback : Text) :
    splitFallback.split (name ++ ':' :: '-' :: fallback) = (name, some fallback) := by
  induction name with
  | nil => rfl
  | cons c rest ih =>
    have hfirst := not_separator_append (List.cons_ne_nil c rest) h fallback
    rw [List.infix_cons_iff, not_or] at h
    rw [List.cons_append] at hfirst ⊢
    rw [split_cons hfirst, ih h.2]

/-- What stands between braces is a name, and what is behind the first separator if there is
one. -/
theorem splitFallback_content (name : BracedName) (fallback : Option Fallback) :
    splitFallback (Segment.content name fallback) = (name.text, fallback.map (·.text)) := by
  have hfirst : ¬ [':', '-'] <+: Segment.content name fallback := by
    intro h
    cases fallback with
    | none => exact name.separator h.isInfix
    | some fallback => exact not_separator_append name.text_ne name.separator fallback.text h
  have hsplit : splitFallback.split (Segment.content name fallback)
      = (name.text, fallback.map (·.text)) := by
    cases fallback with
    | none => exact split_eq_self name.separator
    | some fallback => exact split_append name.separator fallback.text
  rw [← hsplit]
  cases hcontent : Segment.content name fallback with
  | nil => rfl
  | cons c rest =>
    rw [hcontent, ← List.isPrefixOf_iff_prefix, Bool.not_eq_true] at hfirst
    rw [splitFallback, hfirst, if_neg Bool.false_ne_true]

theorem brace_not_mem_content (name : BracedName) (fallback : Option Fallback) :
    '\x7d' ∉ Segment.content name fallback := by
  cases fallback with
  | none => exact name.brace
  | some fallback => simp [Segment.content, name.brace, fallback.brace]

theorem behindDollar?_braced (name : BracedName) (fallback : Option Fallback) (rest : Text) :
    behindDollar? ('\x7b' :: (Segment.content name fallback ++ ['\x7d']) ++ rest)
      = some (.named name.text (fallback.map (·.text)),
        ('\x7b' :: (Segment.content name fallback ++ ['\x7d'])).length) := by
  have hrun : ∀ c ∈ Segment.content name fallback, (c != '\x7d') = true := by
    intro c hc
    rw [bne_iff_ne]
    rintro rfl
    exact brace_not_mem_content name fallback hc
  have hstop : Stops (· != '\x7d') ('\x7d' :: rest) := Text.stops_cons.mpr rfl
  rw [List.cons_append, List.append_assoc, List.singleton_append, List.length_cons,
    List.length_append]
  simp only [behindDollar?, Text.takeWhile_append_of_stops hrun hstop,
    Text.dropWhile_append_of_stops hrun hstop, splitFallback_content, List.length_singleton]

theorem behindDollar?_bare (name : BareName) {rest : Text} (h : Stops isNameChar rest) :
    behindDollar? (name.text ++ rest) = some (.named name.text none, name.text.length) := by
  have htake := Text.takeWhile_append_of_stops name.nameChar h
  have hfirst : ∀ {c : Char} {tail : Text}, isNameChar c = false →
      name.text ++ rest ≠ c :: tail := by
    intro c tail hc heq
    obtain ⟨d, more, hname⟩ := List.exists_cons_of_ne_nil name.text_ne
    rw [hname, List.cons_append] at heq
    obtain rfl := (List.cons.inj heq).1
    have hd := name.nameChar d (hname ▸ List.mem_cons_self)
    rw [hc] at hd
    exact Bool.false_ne_true hd
  unfold behindDollar?
  split
  · next heq => exact absurd heq (hfirst (by decide +kernel))
  · next heq => exact absurd heq (hfirst (by decide +kernel))
  · rw [htake, if_neg name.text_ne]

/-- A segment is read for itself, whatever stands behind it. -/
theorem Segment.pieces_append {s : Segment} {rest : Text} (h : s.EndsAt rest) :
    Expansion.pieces (s.text ++ rest) = s.pieces ++ Expansion.pieces rest := by
  cases s with
  | plain text htext =>
    simp only [Segment.text, Segment.pieces]
    induction text with
    | nil => rfl
    | cons c text ih =>
      rw [List.mem_cons, not_or] at htext
      rw [List.cons_append, Expansion.pieces, piecesFrom, if_neg (Ne.symm htext.1)]
      exact congrArg (_ :: ·) (ih htext.2 trivial)
  | braced name fallback => exact pieces_dollar _ (behindDollar?_braced name fallback rest)
  | bare name => exact pieces_dollar name.text (behindDollar?_bare name h)
  | dollar => exact pieces_dollar ['$'] rfl

theorem pieces_written {segments : List Segment} (h : Apart segments) :
    pieces (written segments) = segments.flatMap Segment.pieces := by
  induction segments with
  | nil => rfl
  | cons s rest ih =>
    rw [written, List.flatMap_cons, ← written, Segment.pieces_append h.1, ih h.2,
      List.flatMap_cons]

/-! ### What takes their place -/

/-- What pieces stand for together, or the name of the first variable among them that is not
set. -/
def valueOf (lookup : Variables) (pieces : List Piece) : Except Text Text :=
  (pieces.mapM (Piece.value lookup)).map List.flatten

theorem valueOf_append (lookup : Variables) (front rest : List Piece) :
    valueOf lookup (front ++ rest)
      = valueOf lookup front >>= fun value => (valueOf lookup rest).map (value ++ ·) := by
  rw [valueOf, valueOf, valueOf, List.mapM_append]
  cases front.mapM (Piece.value lookup) with
  | error name => rfl
  | ok values =>
    cases rest.mapM (Piece.value lookup) with
    | error name => rfl
    | ok behind => exact congrArg Except.ok List.flatten_append

theorem valueOf_singleton (lookup : Variables) (piece : Piece) :
    valueOf lookup [piece] = piece.value lookup := by
  rw [valueOf, List.mapM_cons, List.mapM_nil]
  cases piece.value lookup with
  | error name => rfl
  | ok value => exact congrArg Except.ok (List.append_nil value)

theorem valueOf_literals (lookup : Variables) (text : Text) :
    valueOf lookup (text.map .literal) = .ok text := by
  induction text with
  | nil => rfl
  | cons c text ih =>
    rw [List.map_cons, ← List.singleton_append, valueOf_append, valueOf_singleton, ih]
    rfl

/-- What a segment stands for. -/
theorem valueOf_pieces (lookup : Variables) (s : Segment) :
    valueOf lookup s.pieces = match s.unset? lookup with
      | some name => .error name
      | none => .ok (s.filled lookup) := by
  cases s with
  | plain text htext => exact valueOf_literals lookup text
  | braced name fallback =>
    rw [Segment.pieces, valueOf_singleton]
    cases fallback with
    | none =>
      cases hvalue : lookup name.text <;> simp [Piece.value, Segment.unset?, Segment.filled, hvalue]
    | some fallback =>
      cases hvalue : lookup name.text <;> simp [Piece.value, Segment.unset?, Segment.filled, hvalue]
  | bare name =>
    rw [Segment.pieces, valueOf_singleton]
    cases hvalue : lookup name.text <;> simp [Piece.value, Segment.unset?, Segment.filled, hvalue]
  | dollar => rfl

/-- Segments fail at the first variable that is not set, or each of them is replaced. -/
theorem valueOf_flatMap_pieces (lookup : Variables) (segments : List Segment) :
    valueOf lookup (segments.flatMap Segment.pieces)
      = match segments.findSome? (Segment.unset? lookup) with
        | some name => .error name
        | none => .ok (segments.flatMap (Segment.filled lookup)) := by
  induction segments with
  | nil => rfl
  | cons s rest ih =>
    rw [List.flatMap_cons, valueOf_append, valueOf_pieces, ih, List.findSome?_cons]
    cases s.unset? lookup with
    | some name => rfl
    | none => cases rest.findSome? (Segment.unset? lookup) <;> rfl

/-! ### Texts that are expanded -/

/-- A text is expanded if there is a `${` in it. -/
theorem hasBraced_iff (text : Text) : hasBraced text ↔ ['$', '\x7b'] <:+: text := by
  fun_induction hasBraced text with
  | case1 rest => simpa using (List.prefix_append ['$', '\x7b'] rest).isInfix
  | case2 c rest hne ih =>
    have hc : ¬ ['$', '\x7b'] <+: c :: rest := by
      rintro ⟨tail, heq⟩
      obtain ⟨rfl, rfl⟩ := List.cons.inj heq
      exact hne tail rfl rfl
    rw [ih, List.infix_cons_iff, or_iff_right hc]
  | case3 => simp

theorem hasBraced_written {segments : List Segment} {s : Segment} (hs : s ∈ segments)
    (hbraced : s.IsBraced) : hasBraced (written segments) := by
  rw [hasBraced_iff]
  cases s with
  | braced name fallback =>
    have htext : ['$', '\x7b'] <:+: (Segment.braced name fallback).text :=
      (List.prefix_append ['$', '\x7b'] _).isInfix
    exact htext.trans (List.infix_of_mem_flatten (List.mem_map_of_mem hs))
  | plain text htext => exact hbraced.elim
  | bare name => exact hbraced.elim
  | dollar => exact hbraced.elim

theorem expand_written (lookup : Variables) {segments : List Segment} (h : Apart segments)
    (hbraced : ∃ s ∈ segments, s.IsBraced) :
    expand lookup (written segments)
      = match segments.findSome? (Segment.unset? lookup) with
        | some name => .error name
        | none => .ok (segments.flatMap (Segment.filled lookup)) := by
  obtain ⟨s, hs, hbraced⟩ := hbraced
  rw [expand, if_pos (hasBraced_written hs hbraced), pieces_written h]
  exact valueOf_flatMap_pieces lookup segments

/-! ### Variables that count -/

/-- What takes the place of a segment depends on no variable but its own. -/
theorem Segment.congr {lookup lookup' : Variables} {s : Segment}
    (h : ∀ name, s.name? = some name → lookup name = lookup' name) :
    s.unset? lookup' = s.unset? lookup ∧ s.filled lookup' = s.filled lookup := by
  cases s with
  | plain text htext => exact ⟨rfl, rfl⟩
  | braced name fallback =>
    have hname := h name.text rfl
    cases fallback <;> simp [Segment.unset?, Segment.filled, hname]
  | bare name =>
    have hname := h name.text rfl
    simp [Segment.unset?, Segment.filled, hname]
  | dollar => exact ⟨rfl, rfl⟩

theorem findSome?_unset?_congr {lookup lookup' : Variables} {segments : List Segment}
    (h : ∀ s ∈ segments, ∀ name, s.name? = some name → lookup name = lookup' name) :
    segments.findSome? (Segment.unset? lookup') = segments.findSome? (Segment.unset? lookup) := by
  have hmap : segments.map (Segment.unset? lookup') = segments.map (Segment.unset? lookup) :=
    List.map_congr_left fun s hs => (Segment.congr (h s hs)).1
  have hfind := congrArg (List.findSome? id) hmap
  rwa [List.findSome?_map, List.findSome?_map] at hfind

theorem flatMap_filled_congr {lookup lookup' : Variables} {segments : List Segment}
    (h : ∀ s ∈ segments, ∀ name, s.name? = some name → lookup name = lookup' name) :
    segments.flatMap (Segment.filled lookup') = segments.flatMap (Segment.filled lookup) :=
  List.flatMap_congr fun s hs => (Segment.congr (h s hs)).2

end Expansion

open Expansion

/-- A text without `${` stays as it is.  Otherwise each segment of it is replaced: variables by
their values, and those that are not set by their defaults, as they are; the first variable that
has neither is reported.  No other variable counts. -/
theorem expandSetting_one_pass (lookup : Variables) (field : Text) :
    (∀ value : Text, ¬ ['$', '\x7b'] <:+: value → expandSetting lookup field value = .ok value) ∧
    ∀ segments : List Segment, Apart segments → (∃ s ∈ segments, s.IsBraced) →
      (expandSetting lookup field (written segments)
        = match segments.findSome? (Segment.unset? lookup) with
          | some name => .error (.unsetVariable field name)
          | none => .ok (segments.flatMap (Segment.filled lookup))) ∧
      ∀ lookup' : Variables,
        (∀ s ∈ segments, ∀ name, s.name? = some name → lookup name = lookup' name) →
        expandSetting lookup' field (written segments)
          = expandSetting lookup field (written segments) := by
  refine ⟨fun value hvalue => ?_, fun segments hapart hbraced => ?_⟩
  · have hplain : hasBraced value = false := by
      rwa [← Bool.not_eq_true, hasBraced_iff]
    rw [expandSetting, expand_of_not_contains hplain]
  · have hexpand : ∀ lookup' : Variables, expandSetting lookup' field (written segments)
        = match segments.findSome? (Segment.unset? lookup') with
          | some name => .error (.unsetVariable field name)
          | none => .ok (segments.flatMap (Segment.filled lookup')) := by
      intro lookup'
      rw [expandSetting, expand_written lookup' hapart hbraced]
      cases segments.findSome? (Segment.unset? lookup') <;> rfl
    refine ⟨hexpand lookup, fun lookup' hagree => ?_⟩
    rw [hexpand lookup', hexpand lookup, findSome?_unset?_congr hagree, flatMap_filled_congr hagree]

theorem isNameChar_of_isAlphanum {name : Text} (h : name.all Char.isAlphanum) :
    ∀ c ∈ name, isNameChar c := by
  intro c hc
  have hchar := Text.isAlphanumeric_of_isAlphanum (List.all_eq_true.mp h c hc)
  exact Bool.or_eq_true_iff.mpr (.inl hchar)

/-- A value with dollar signs in it, one that is empty, and a default that looks like another
variable. -/
theorem expandSetting_one_pass_verbatim :
    let lookup : Variables := fun name =>
      if name = "HOST".toList then some "a$b$\x7bc\x7d".toList
      else if name = "DIR".toList then some [] else none
    let host : BracedName := ⟨"HOST".toList, by decide, by decide, by decide⟩
    let dir : BareName := ⟨"DIR".toList, by decide, isNameChar_of_isAlphanum (by decide)⟩
    let port : BracedName := ⟨"PORT".toList, by decide, by decide, by decide⟩
    let segments : List Segment := [.plain "//".toList (by decide), .braced host none, .dollar,
      .bare dir, .braced port (some ⟨":-$x".toList, by decide⟩)]
    ¬ ['$', '\x7b'] <:+: "/g/$x".toList ∧ Apart segments ∧ (∃ s ∈ segments, s.IsBraced) ∧
      expandSetting lookup "assets.prefix".toList "/g/$x".toList = .ok "/g/$x".toList ∧
      written segments = "//$\x7bHOST\x7d$$$DIR$\x7bPORT:-:-$x\x7d".toList ∧
      expandSetting lookup "assets.prefix".toList (written segments)
        = .ok "//a$b$\x7bc\x7d$:-$x".toList := by
  intro lookup host dir port segments
  have hplain : ¬ ['$', '\x7b'] <:+: "/g/$x".toList := by decide
  have hapart : Apart segments :=
    ⟨trivial, trivial, trivial, Text.stops_cons.mpr (by decide +kernel), trivial, trivial⟩
  have hbraced : ∃ s ∈ segments, s.IsBraced := ⟨.braced host none, by simp [segments], trivial⟩
  obtain ⟨hsame, hwritten⟩ := expandSetting_one_pass lookup "assets.prefix".toList
  refine ⟨hplain, hapart, hbraced, hsame _ hplain, by decide +kernel, ?_⟩
  rw [(hwritten segments hapart hbraced).1]
  decide +kernel

end StylesheetBuild.Config
