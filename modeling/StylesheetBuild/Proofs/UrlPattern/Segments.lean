/-
The segments of a pattern, and the places of its placeholders.

A placeholder is written with an opening brace in front and none inside, so two of them never
overlap.  Whatever other braces a pattern has, there is one way to cut it at its placeholders.

* **`Segment.ofText_induction`** — a pattern is gone through placeholder by placeholder, and
  character by character where none begins;
* **`uses_iff_infix`** — a pattern has a placeholder exactly if the token of it is part of the text;
* **`IsCut.unique`**, **`IsCut.join`** — there is one cut of a text into placeholders and gaps
  without any, and it contains every place at which a token stands;
* **`IsCut.render`** — rendering puts the values at these places and leaves the gaps alone;
* **`segments_exact`** — so nothing of a pattern is lost, and exactly the placeholders are found.

Design notes: the cut is said of the text alone, and the segments are then compared with it.  What
is filled in is no part of the cut, and so it is never looked at again.
-/
import Mathlib.Data.List.Infix
import StylesheetBuild.UrlPattern

namespace StylesheetBuild

/-! ### Tokens -/

namespace Placeholder

theorem token_ne_nil (p : Placeholder) : p.token ≠ [] := by
  cases p <;> exact List.cons_ne_nil _ _

theorem exists_token (p : Placeholder) : ∃ key, p.token = '\x7b' :: key ∧ '\x7b' ∉ key := by
  cases p
  all_goals exact ⟨_, rfl, by decide⟩

/-- No token is the beginning of another one. -/
theorem token_append_inj {p q : Placeholder} {s t : Text} (h : p.token ++ s = q.token ++ t) :
    p = q ∧ s = t := by
  cases p <;> cases q <;> simp_all [token]

/-- A token that begins in front of an opening brace ends there at the latest. -/
theorem token_prefix_of_append {p : Placeholder} {text rest : Text} (hne : text ≠ [])
    (h : p.token <+: text ++ '\x7b' :: rest) : p.token <+: text := by
  obtain ⟨more, hmore⟩ := h
  rcases List.append_eq_append_iff.mp hmore with ⟨others, htext, -⟩ | ⟨others, htoken, hothers⟩
  · exact ⟨others, htext.symm⟩
  · cases others with
    | nil => exact ⟨[], by simpa using htoken⟩
    | cons d others =>
      -- the brace would be inside the token
      obtain rfl : '\x7b' = d := (List.cons.inj hothers).1
      obtain ⟨key, hkey, hbrace⟩ := p.exists_token
      obtain ⟨c, text, rfl⟩ := List.exists_cons_of_ne_nil hne
      rw [hkey, List.cons_append] at htoken
      rw [(List.cons.inj htoken).2] at hbrace
      exact absurd (List.mem_append_right text List.mem_cons_self) hbrace

/-- A token in a text that begins with one is that one, or it stands behind it. -/
theorem token_infix_append {p q : Placeholder} {rest : Text} (h : p.token <:+: q.token ++ rest) :
    p = q ∨ p.token <:+: rest := by
  obtain ⟨before, after, heq⟩ := h
  rw [List.append_assoc] at heq
  by_cases hbefore : before = []
  · subst hbefore
    exact .inl (token_append_inj heq).1
  · obtain ⟨key, hkey, -⟩ := p.exists_token
    have hprefix : q.token <+: before ++ '\x7b' :: (key ++ after) := by
      rw [← List.cons_append, ← hkey, heq]
      exact List.prefix_append _ _
    obtain ⟨more, rfl⟩ := token_prefix_of_append hbefore hprefix
    rw [List.append_assoc] at heq
    refine .inr ⟨more, after, ?_⟩
    rw [List.append_assoc]
    exact List.append_cancel_left heq

end Placeholder

namespace UrlPattern

/-! ### Segments -/

namespace Segment

theorem placeholder_mem_push {c : Char} {p : Placeholder} {segments : List Segment} :
    placeholder p ∈ push c segments ↔ placeholder p ∈ segments := by
  rw [push.eq_def]
  split <;> simp

theorem flatMap_fill_push (value : Placeholder → Text) (c : Char) (segments : List Segment) :
    (push c segments).flatMap (fill value) = c :: segments.flatMap (fill value) := by
  unfold push
  split <;> simp [fill]

theorem flatMap_token_ofText (source : Text) : (ofText source).flatMap token = source :=
  source_eq_tokens ⟨source⟩

/-- A text is gone through placeholder by placeholder, and character by character where none
begins. -/
theorem ofText_induction {motive : Text → List Segment → Prop} (nil : motive [] [])
    (token : ∀ p rest, motive rest (ofText rest) →
      motive (p.token ++ rest) (placeholder p :: ofText rest))
    (char : ∀ c rest, (∀ p : Placeholder, ¬ p.token <+: c :: rest) → motive rest (ofText rest) →
      motive (c :: rest) (push c (ofText rest)))
    (text : Text) : motive text (ofText text) := by
  fun_induction ofText text with
  | case1 => exact nil
  | case2 rest ih => exact token .name rest ih
  | case3 rest ih => exact token .version rest ih
  | case4 rest ih => exact token .path rest ih
  | case5 c rest hname hversion hpath ih =>
    refine char c rest ?_ ih
    rintro p ⟨more, hmore⟩
    cases p with
    | name => exact hname more (List.cons.inj hmore).1.symm (List.cons.inj hmore).2.symm
    | version => exact hversion more (List.cons.inj hmore).1.symm (List.cons.inj hmore).2.symm
    | path => exact hpath more (List.cons.inj hmore).1.symm (List.cons.inj hmore).2.symm

/-- The literals that a character in front of segments brings. -/
theorem literal_mem_push {c : Char} {text : Text} {segments : List Segment}
    (h : literal text ∈ push c segments) :
    literal text ∈ segments ∨ ∃ rest, text = c :: rest ∧
      (rest = [] ∨ ∃ others, segments = literal rest :: others) := by
  rw [push.eq_def] at h
  split at h
  · rename_i rest others
    rcases List.mem_cons.mp h with heq | h
    · exact .inr ⟨rest, literal.inj heq, .inr ⟨others, rfl⟩⟩
    · exact .inl (List.mem_cons_of_mem _ h)
  · rcases List.mem_cons.mp h with heq | h
    · exact .inr ⟨[], literal.inj heq, .inl rfl⟩
    · exact .inl h

theorem literal_ne_nil {source text : Text} (h : literal text ∈ ofText source) : text ≠ [] := by
  induction source using ofText_induction with
  | nil => exact absurd h List.not_mem_nil
  | token p rest ih => exact ih ((List.mem_cons.mp h).resolve_left (by simp))
  | char c rest hc ih =>
    rcases literal_mem_push h with h | ⟨others, rfl, -⟩
    · exact ih h
    · exact List.cons_ne_nil _ _

/-- No literal holds a token: it would have begun at one of the characters of the literal. -/
theorem not_infix_of_literal_mem {source text : Text} (h : literal text ∈ ofText source)
    (p : Placeholder) : ¬ p.token <:+: text := by
  induction source using ofText_induction generalizing text with
  | nil => exact absurd h List.not_mem_nil
  | token q rest ih => exact ih ((List.mem_cons.mp h).resolve_left (by simp))
  | char c rest hc ih =>
    rcases literal_mem_push h with h | ⟨others, rfl, hothers⟩
    · exact ih h
    · rw [List.infix_cons_iff, not_or]
      rcases hothers with rfl | ⟨segments, hsegments⟩
      · exact ⟨fun h => hc p (h.trans (List.prefix_append [c] rest)),
          fun h => p.token_ne_nil (List.infix_nil.mp h)⟩
      · have hprefix : others <+: rest := by
          rw [← flatMap_token_ofText rest, hsegments]
          exact List.prefix_append _ _
        refine ⟨fun h => hc p (h.trans ((List.prefix_cons_inj c).mpr hprefix)), ih ?_⟩
        rw [hsegments]
        exact List.mem_cons_self

/-- No two literals are neighbours. -/
theorem not_literals_infix (source s t : Text) : ¬ [literal s, literal t] <:+: ofText source := by
  induction source using ofText_induction generalizing s t with
  | nil => simp
  | token p rest ih => simpa [List.infix_cons_iff] using ih s t
  | char c rest hc ih =>
    rw [push.eq_def]
    split
    · rename_i text others hsegments
      rw [hsegments] at ih
      rw [List.infix_cons_iff, List.cons_prefix_cons]
      rintro (⟨-, h⟩ | h)
      · exact ih text t (List.infix_cons_iff.mpr (.inl ((List.prefix_cons_inj _).mpr h)))
      · exact ih s t (List.infix_cons_iff.mpr (.inr h))
    · rename_i hliteral
      rw [List.infix_cons_iff, List.cons_prefix_cons]
      rintro (⟨-, others, h⟩ | h)
      · exact hliteral t others h.symm
      · exact ih s t h

/-- A text has a placeholder exactly if the token of it is part of the text. -/
theorem placeholder_mem_ofText_iff {source : Text} {p : Placeholder} :
    placeholder p ∈ ofText source ↔ p.token <:+: source := by
  induction source using ofText_induction with
  | nil => simp [p.token_ne_nil]
  | token q rest ih =>
    rw [List.mem_cons, ih]
    constructor
    · rintro (heq | h)
      · rw [placeholder.inj heq]
        exact List.infix_append_left ..
      · exact h.trans (List.suffix_append _ _).isInfix
    · intro h
      rcases Placeholder.token_infix_append h with rfl | h
      · exact .inl rfl
      · exact .inr h
  | char c rest hc ih =>
    rw [placeholder_mem_push, ih, List.infix_cons_iff]
    exact ⟨.inr, fun h => h.resolve_left (hc p)⟩

end Segment

theorem uses_iff {pattern : UrlPattern} {p : Placeholder} :
    pattern.uses p ↔ Segment.placeholder p ∈ pattern.segments := by
  rw [uses, List.contains_iff_mem]

/-- A pattern has a placeholder exactly if the token of it is part of the text. -/
theorem uses_iff_infix {pattern : UrlPattern} {p : Placeholder} :
    pattern.uses p ↔ p.token <:+: pattern.source := by
  rw [uses_iff, segments, Segment.placeholder_mem_ofText_iff]

/-! ### Values -/

/-- What the placeholders stand for. -/
def values (name : Text) (version : Option Text) (path : Text) : Placeholder → Text
  | .name => name
  | .version => version.getD []
  | .path => path

theorem render_eq (pattern : UrlPattern) (name : Text) (version : Option Text) (path : Text) :
    pattern.render name version path =
      pattern.segments.flatMap (Segment.fill (values name version path)) :=
  rfl

/-! ### Cuts -/

/-- A text cut into placeholders and gaps. -/
structure Cut where
  -- the placeholders, each with the gap in front of it
  places : List (Text × Placeholder)
  -- the gap behind the last placeholder
  rest : Text

namespace Cut

/-- The gaps with a text at the place of each placeholder. -/
def fill (value : Placeholder → Text) (cut : Cut) : Text :=
  cut.places.flatMap (fun place => place.1 ++ value place.2) ++ cut.rest

/-- A placeholder and the gap in front of it, in front of a cut. -/
def cons (gap : Text) (p : Placeholder) (cut : Cut) : Cut :=
  ⟨(gap, p) :: cut.places, cut.rest⟩

/-- A character in front of a cut. -/
def push (c : Char) : Cut → Cut
  | ⟨[], rest⟩ => ⟨[], c :: rest⟩
  | ⟨(gap, p) :: places, rest⟩ => ⟨(c :: gap, p) :: places, rest⟩

/-- A cut, a placeholder behind it, and another cut behind that. -/
def join (front : Cut) (p : Placeholder) (back : Cut) : Cut :=
  ⟨front.places ++ (front.rest, p) :: back.places, back.rest⟩

@[simp] theorem fill_cons (value : Placeholder → Text) (gap : Text) (p : Placeholder) (cut : Cut) :
    (cons gap p cut).fill value = gap ++ (value p ++ cut.fill value) := by
  simp [fill, cons]

@[simp] theorem fill_push (value : Placeholder → Text) (c : Char) (cut : Cut) :
    (push c cut).fill value = c :: cut.fill value := by
  rcases cut with ⟨_ | ⟨⟨gap, p⟩, places⟩, rest⟩
  · simp [fill, push]
  · simp [fill, push]

@[simp] theorem fill_join (value : Placeholder → Text) (front : Cut) (p : Placeholder)
    (back : Cut) :
    (join front p back).fill value = front.fill value ++ (value p ++ back.fill value) := by
  simp [fill, join]

end Cut

/-- A cut of a text at all its placeholders. -/
structure IsCut (source : Text) (cut : Cut) : Prop where
  whole : cut.fill Placeholder.token = source
  gap : ∀ place ∈ cut.places, ∀ p : Placeholder, ¬ p.token <:+: place.1
  rest : ∀ p : Placeholder, ¬ p.token <:+: cut.rest

namespace IsCut

theorem nil : IsCut [] ⟨[], []⟩ :=
  ⟨rfl, by simp, fun p => by simp [p.token_ne_nil]⟩

theorem cons {source gap : Text} {cut : Cut} (h : IsCut source cut)
    (hgap : ∀ p : Placeholder, ¬ p.token <:+: gap) (p : Placeholder) :
    IsCut (gap ++ (p.token ++ source)) (.cons gap p cut) where
  whole := by rw [Cut.fill_cons, h.whole]
  gap place hplace := by
    rcases List.mem_cons.mp hplace with rfl | hplace
    · exact hgap
    · exact h.gap place hplace
  rest := h.rest

theorem whole_cons {source gap : Text} {p : Placeholder} {places : List (Text × Placeholder)}
    {rest : Text} (h : IsCut source ⟨(gap, p) :: places, rest⟩) :
    gap ++ (p.token ++ Cut.fill Placeholder.token ⟨places, rest⟩) = source := by
  rw [← h.whole]
  exact (Cut.fill_cons Placeholder.token gap p ⟨places, rest⟩).symm

theorem push {source : Text} {cut : Cut} {c : Char} (h : IsCut source cut)
    (hc : ∀ p : Placeholder, ¬ p.token <+: c :: source) : IsCut (c :: source) (cut.push c) := by
  -- a token in the first gap would begin at the new character
  have hgap : ∀ gap : Text, gap <+: source → (∀ p : Placeholder, ¬ p.token <:+: gap) →
      ∀ p : Placeholder, ¬ p.token <:+: c :: gap := by
    intro gap hprefix hplain p
    rw [List.infix_cons_iff, not_or]
    exact ⟨fun h => hc p (h.trans ((List.prefix_cons_inj c).mpr hprefix)), hplain p⟩
  have hwhole : (cut.push c).fill Placeholder.token = c :: source := by rw [Cut.fill_push, h.whole]
  rcases cut with ⟨_ | ⟨⟨gap, p⟩, places⟩, rest⟩
  · exact ⟨hwhole, h.gap, hgap rest ⟨[], by simpa [Cut.fill] using h.whole⟩ h.rest⟩
  · refine ⟨hwhole, fun place hplace => ?_, h.rest⟩
    rcases List.mem_cons.mp hplace with rfl | hplace
    · exact hgap gap ⟨_, h.whole_cons⟩ (h.gap (gap, p) List.mem_cons_self)
    · exact h.gap place (List.mem_cons_of_mem _ hplace)

/-- The cut of an empty text. -/
theorem of_nil {cut : Cut} (h : IsCut [] cut) : cut = ⟨[], []⟩ := by
  rcases cut with ⟨_ | ⟨⟨gap, p⟩, places⟩, rest⟩
  · obtain rfl : rest = [] := by simpa [Cut.fill] using h.whole
    rfl
  · have hwhole := h.whole_cons
    rw [List.append_eq_nil_iff, List.append_eq_nil_iff] at hwhole
    exact absurd hwhole.2.1 p.token_ne_nil

/-- A token at the beginning of a text is the first placeholder of a cut. -/
theorem of_token {source : Text} {p : Placeholder} {cut : Cut} (h : IsCut (p.token ++ source) cut) :
    ∃ cut', cut = .cons [] p cut' ∧ IsCut source cut' := by
  rcases cut with ⟨_ | ⟨⟨gap, q⟩, places⟩, rest⟩
  · have hwhole : rest = p.token ++ source := by simpa [Cut.fill] using h.whole
    exact absurd (hwhole ▸ List.infix_append_left ..) (h.rest p)
  · have hwhole := h.whole_cons
    have hgap : gap = [] := by
      by_contra hne
      obtain ⟨key, hkey, -⟩ := q.exists_token
      have hprefix : p.token <+:
          gap ++ '\x7b' :: (key ++ Cut.fill Placeholder.token ⟨places, rest⟩) := by
        rw [← List.cons_append, ← hkey, hwhole]
        exact List.prefix_append _ _
      exact h.gap _ List.mem_cons_self p (Placeholder.token_prefix_of_append hne hprefix).isInfix
    subst hgap
    obtain ⟨rfl, hplaces⟩ := Placeholder.token_append_inj hwhole
    exact ⟨⟨places, rest⟩, rfl, hplaces, fun place hplace => h.gap place
      (List.mem_cons_of_mem _ hplace), h.rest⟩

/-- A character at which no token begins is the first one of a gap. -/
theorem of_char {source : Text} {c : Char} {cut : Cut} (h : IsCut (c :: source) cut)
    (hc : ∀ p : Placeholder, ¬ p.token <+: c :: source) :
    ∃ cut', cut = cut'.push c ∧ IsCut source cut' := by
  have hplain : ∀ {gap : Text}, (∀ p : Placeholder, ¬ p.token <:+: c :: gap) →
      ∀ p : Placeholder, ¬ p.token <:+: gap :=
    fun hgap p h => hgap p (List.infix_cons_iff.mpr (.inr h))
  rcases cut with ⟨_ | ⟨⟨gap, q⟩, places⟩, rest⟩
  · obtain rfl : rest = c :: source := by simpa [Cut.fill] using h.whole
    exact ⟨⟨[], source⟩, rfl, rfl, h.gap, hplain h.rest⟩
  · have hwhole := h.whole_cons
    cases gap with
    | nil => exact absurd (hwhole ▸ List.prefix_append _ _) (hc q)
    | cons d gap =>
      obtain ⟨rfl, hsource⟩ := List.cons.inj hwhole
      have hfill := Cut.fill_cons Placeholder.token gap q ⟨places, rest⟩
      refine ⟨.cons gap q ⟨places, rest⟩, rfl, hfill.trans hsource, fun place hplace => ?_, h.rest⟩
      rcases List.mem_cons.mp hplace with rfl | hplace
      · exact hplain (h.gap _ List.mem_cons_self)
      · exact h.gap place (List.mem_cons_of_mem _ hplace)

end IsCut

theorem exists_isCut (source : Text) : ∃ cut, IsCut source cut := by
  induction source using Segment.ofText_induction with
  | nil => exact ⟨_, .nil⟩
  | token p rest ih =>
    obtain ⟨cut, hcut⟩ := ih
    have hempty : ∀ q : Placeholder, ¬ q.token <:+: [] := fun q => by simp [q.token_ne_nil]
    exact ⟨_, hcut.cons hempty p⟩
  | char c rest hc ih =>
    obtain ⟨cut, hcut⟩ := ih
    exact ⟨_, hcut.push hc⟩

namespace IsCut

/-- There is one cut of a text at all its placeholders. -/
theorem unique {source : Text} {cut cut' : Cut} (h : IsCut source cut) (h' : IsCut source cut') :
    cut = cut' := by
  induction source using Segment.ofText_induction generalizing cut cut' with
  | nil => rw [h.of_nil, h'.of_nil]
  | token p rest ih =>
    obtain ⟨_, rfl, hrest⟩ := h.of_token
    obtain ⟨_, rfl, hrest'⟩ := h'.of_token
    rw [ih hrest hrest']
  | char c rest hc ih =>
    obtain ⟨_, rfl, hrest⟩ := h.of_char hc
    obtain ⟨_, rfl, hrest'⟩ := h'.of_char hc
    rw [ih hrest hrest']

/-- A token in a text is a placeholder of its cut. -/
theorem join {front back : Text} {cut cut' : Cut} (h : IsCut front cut) (h' : IsCut back cut')
    (p : Placeholder) : IsCut (front ++ (p.token ++ back)) (cut.join p cut') where
  whole := by rw [Cut.fill_join, h.whole, h'.whole]
  gap place hplace := by
    rcases List.mem_append.mp hplace with hplace | hplace
    · exact h.gap place hplace
    · rcases List.mem_cons.mp hplace with rfl | hplace
      · exact h.rest
      · exact h'.gap place hplace
  rest := h'.rest

/-- The segments of a text are the gaps and the placeholders of its cut. -/
theorem flatMap_fill {source : Text} {cut : Cut} (h : IsCut source cut)
    (value : Placeholder → Text) :
    (Segment.ofText source).flatMap (Segment.fill value) = cut.fill value := by
  induction source using Segment.ofText_induction generalizing cut with
  | nil =>
    rw [h.of_nil]
    rfl
  | token p rest ih =>
    obtain ⟨_, rfl, hrest⟩ := h.of_token
    rw [List.flatMap_cons, ih hrest, Cut.fill_cons]
    rfl
  | char c rest hc ih =>
    obtain ⟨_, rfl, hrest⟩ := h.of_char hc
    rw [Segment.flatMap_fill_push, ih hrest, Cut.fill_push]

/-- Rendering puts the values at the places of a cut. -/
theorem render {pattern : UrlPattern} {cut : Cut} (h : IsCut pattern.source cut) (name : Text)
    (version : Option Text) (path : Text) :
    pattern.render name version path = cut.fill (values name version path) := by
  rw [render_eq, segments, h.flatMap_fill]

end IsCut

/-! ### Nothing lost, nothing invented -/

/-- **The segments of a pattern are exact.**  Written down again they are the pattern, and so is the
pattern rendered with the tokens for values.  No literal is empty, no two are neighbours, and none
holds a token; so a pattern has exactly the placeholders whose tokens are part of it.  There is one
cut of the pattern into gaps without tokens and the placeholders between them; every place at which
a token stands belongs to it, and whatever the values are, rendering puts them at these places as
they are. -/
theorem segments_exact (pattern : UrlPattern) :
    pattern.segments.flatMap Segment.token = pattern.source ∧
    pattern.render Placeholder.name.token (some Placeholder.version.token)
      Placeholder.path.token = pattern.source ∧
    (∀ text, .literal text ∈ pattern.segments →
      text ≠ [] ∧ ∀ p : Placeholder, ¬ p.token <:+: text) ∧
    (∀ s t, ¬ [Segment.literal s, .literal t] <:+: pattern.segments) ∧
    (∀ p : Placeholder, pattern.uses p ↔ p.token <:+: pattern.source) ∧
    ∃ cut : Cut,
      (∀ cut', IsCut pattern.source cut' ↔ cut' = cut) ∧
      (∀ before p after, pattern.source = before ++ (Placeholder.token p ++ after) →
        ∃ places gap others, cut.places = places ++ (gap, p) :: others ∧
          Cut.fill Placeholder.token ⟨places, gap⟩ = before) ∧
      ∀ name version path,
        pattern.render name version path = cut.fill (values name version path) := by
  obtain ⟨cut, hcut⟩ := exists_isCut pattern.source
  refine ⟨source_eq_tokens pattern, ?_, ?_, ?_, fun p => uses_iff_infix, cut, ?_, ?_, ?_⟩
  · have hvalues : values Placeholder.name.token (some Placeholder.version.token)
        Placeholder.path.token = Placeholder.token := by
      funext p
      cases p <;> rfl
    rw [hcut.render, hvalues, hcut.whole]
  · intro text htext
    exact ⟨Segment.literal_ne_nil htext, Segment.not_infix_of_literal_mem htext⟩
  · exact Segment.not_literals_infix pattern.source
  · intro cut'
    exact ⟨fun h => h.unique hcut, fun h => h ▸ hcut⟩
  · intro before p after hsource
    obtain ⟨front, hfront⟩ := exists_isCut before
    obtain ⟨back, hback⟩ := exists_isCut after
    have hjoin := hfront.join hback p
    rw [← hsource] at hjoin
    rw [hcut.unique hjoin]
    exact ⟨front.places, front.rest, back.places, rfl, hfront.whole⟩
  · exact fun name version path => hcut.render name version path

/-- Braces in front of a placeholder and around another one, and values that look like
placeholders. -/
theorem segments_exact_braces :
    let pattern : UrlPattern := ⟨"\x7b\x7bname\x7d/\x7bna\x7bpath\x7d\x7d".toList⟩
    let cut : Cut := ⟨[(['\x7b'], .name), ("/\x7bna".toList, .path)], ['\x7d']⟩
    IsCut pattern.source cut ∧ pattern.uses .path ∧ ¬ pattern.uses .version ∧
      pattern.render "\x7bpath\x7d".toList none "me\x7d".toList =
        "\x7b\x7bpath\x7d/\x7bname\x7d\x7d".toList := by
  intro pattern cut
  have hcut : IsCut pattern.source cut := by
    refine ⟨rfl, fun place hplace p => ?_, fun p => by cases p <;> decide⟩
    simp only [cut, List.mem_cons, List.not_mem_nil, or_false] at hplace
    rcases hplace with rfl | rfl <;> cases p <;> decide
  obtain ⟨-, -, -, -, huses, cut', hunique, -, hrender⟩ := segments_exact pattern
  have hpath : Placeholder.path.token <:+: pattern.source := by decide
  refine ⟨hcut, (huses _).mpr hpath, fun h => ?_, ?_⟩
  · exact absurd ((huses _).mp h) (by decide)
  · rw [hrender, ← (hunique cut).mp hcut]
    rfl

end UrlPattern

end StylesheetBuild
