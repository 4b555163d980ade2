/-
What a suffix behind a reference changes.

A query or a fragment is cut off before an asset is looked for, and put behind the URL again.  But
it is still there when the module of the reference is found, so its colons and line feeds count.

* **`Target.classify_append_iff`** — the references whose target a suffix leaves alone;
* **`Context.address?_append`** — these lead to the same asset with the suffix as without it;
* **`suffix_kept`** — so the suffix is put behind a URL that is otherwise the same.
-/
import StylesheetBuild.Proofs.Config.AssetUrl
import StylesheetBuild.Proofs.Reference.External
import StylesheetBuild.Proofs.Rewrite.Probe

namespace StylesheetBuild

open Text
open Rewrite (isMark)

/-! ### Targets -/

namespace Target

/-- A target with more text behind its path. -/
def append (suffix : Text) : Target → Target
  | external => external
  | inModule name path => inModule name (path ++ suffix)
  | relative path => relative (path ++ suffix)

/-- A suffix brings no module into an argument, and the argument does not lose its module. -/
structure Kept (raw suffix : Text) : Prop where
  -- behind the first colon stands the path in a module, which has no line feed
  inside : ∀ name path, raw = name ++ ':' :: path → ':' ∉ name → name ≠ [] →
    '\n' ∉ path → (path = [] ↔ '\n' ∈ suffix)
  -- the first colon may also be in the suffix
  outside : ':' ∉ raw → ∀ name path, suffix = name ++ ':' :: path → ':' ∉ name →
    path = [] ∨ '\n' ∈ path

theorem IsLead.not_mark {lead : Text} (h : IsLead lead) : ∀ c ∈ lead, isMark c = false := by
  intro c hc
  rcases h.char_cases hc with hc | rfl | rfl
  · rw [Bool.eq_false_iff]
    intro hmark
    simp only [isMark, Bool.or_eq_true, decide_eq_true_eq] at hmark
    rcases hmark with rfl | rfl <;> exact absurd hc (by decide)
  · decide
  · decide

variable {raw rest : Text} {mark : Char}

/-- A suffix does not make an argument external. -/
theorem isExternal_append_mark (hmark : isMark mark) (h : isExternal raw = false) :
    isExternal (raw ++ mark :: rest) = false := by
  rw [Bool.eq_false_iff] at h ⊢
  intro hexternal
  obtain ⟨lead, hlead, hprefix⟩ := isExternal_iff.mp hexternal
  refine h (isExternal_iff.mpr ⟨lead, hlead, prefix_of_prefix_append hlead.not_mark ?_ hprefix⟩)
  intro c hc
  rwa [← Option.some_inj.mp hc]

theorem classify_of_not_isExternal (h : isExternal raw = false) :
    classify raw = (qualified? raw).elim (relative raw) fun w => inModule w.1 w.2 := by
  rw [classify, if_neg (by simp [h])]
  cases qualified? raw <;> rfl

/-- The first colon of an argument stays the first one. -/
theorem kept_append_iff {name path suffix : Text} (hname : ':' ∉ name) :
    Kept (name ++ ':' :: path) suffix ↔
      (name ≠ [] → '\n' ∉ path → (path = [] ↔ '\n' ∈ suffix)) := by
  constructor
  · exact fun h => h.inside name path rfl hname
  · refine fun h => ⟨fun name' path' heq hname' => ?_, fun hraw => ?_⟩
    · obtain ⟨rfl, rfl⟩ := eq_of_first_char hname hname' heq
      exact h
    · exact absurd rfl (ne_append_cons_of_not_mem hraw name path)

/-- An argument without a colon gets the first one of the suffix. -/
theorem kept_iff_of_not_mem {name path : Text} (hraw : ':' ∉ raw) (hname : ':' ∉ name) :
    Kept raw (name ++ ':' :: path) ↔ path = [] ∨ '\n' ∈ path := by
  constructor
  · exact fun h => h.outside hraw name path rfl hname
  · refine fun h => ⟨fun name' path' heq => ?_, fun _ name' path' heq hname' => ?_⟩
    · exact absurd heq (ne_append_cons_of_not_mem hraw name' path')
    · obtain ⟨rfl, rfl⟩ := eq_of_first_char hname hname' heq
      exact h

theorem kept_of_not_mem {suffix : Text} (hraw : ':' ∉ raw) (hsuffix : ':' ∉ suffix) :
    Kept raw suffix where
  inside name path heq := absurd heq (ne_append_cons_of_not_mem hraw name path)
  outside _ name path heq := absurd heq (ne_append_cons_of_not_mem hsuffix name path)

/-- The arguments whose target a suffix leaves alone. -/
theorem classify_append_iff (hmark : isMark mark) (hinternal : isExternal raw = false) :
    classify (raw ++ mark :: rest) = (classify raw).append (mark :: rest) ↔
      Kept raw (mark :: rest) := by
  rw [classify_of_not_isExternal hinternal,
    classify_of_not_isExternal (isExternal_append_mark hmark hinternal)]
  by_cases hraw : ':' ∈ raw
  · obtain ⟨name, path, rfl, hname⟩ := List.eq_append_cons_of_mem hraw
    rw [kept_append_iff hname, List.append_assoc, List.cons_append, qualified?_append hname,
      qualified?_append hname]
    by_cases hempty : name = []
    · simp [hempty, append]
    by_cases hfeed : '\n' ∈ path
    · simp [hfeed, append]
    by_cases hpath : path = [] <;> by_cases hsuffix : '\n' ∈ mark :: rest
    all_goals simp [hempty, hfeed, hpath, hsuffix, append]
  · rw [qualified?_of_not_mem hraw]
    by_cases hsuffix : ':' ∈ mark :: rest
    · obtain ⟨name, path, heq, hname⟩ := List.eq_append_cons_of_mem hsuffix
      have hempty : name ≠ [] := by
        rintro rfl
        obtain rfl : mark = ':' := (List.cons.inj heq).1
        exact absurd hmark (by decide)
      have hfront : ':' ∉ raw ++ name := fun h => (List.mem_append.mp h).elim hraw hname
      rw [heq, kept_iff_of_not_mem hraw hname, ← List.append_assoc, qualified?_append hfront]
      by_cases hpath : path = []
      · simp [hpath, append]
      by_cases hfeed : '\n' ∈ path
      · simp [hfeed, append]
      simp [hempty, hpath, hfeed, append]
    · have hall : ':' ∉ raw ++ mark :: rest := fun h => (List.mem_append.mp h).elim hraw hsuffix
      rw [qualified?_of_not_mem hall]
      exact iff_of_true rfl (kept_of_not_mem hraw hsuffix)

end Target

/-! ### Addresses -/

namespace Rewrite

variable {raw rest : Text} {mark : Char}

/-- A suffix with more text behind it begins with a mark, too. -/
theorem isMark_of_head?_append {suffix : Text} (hsuffix : ∀ c, suffix.head? = some c → isMark c)
    (hmark : isMark mark) : ∀ c, (suffix ++ mark :: rest).head? = some c → isMark c := by
  intro c hc
  cases suffix with
  | nil => rwa [← Option.some_inj.mp hc]
  | cons d suffix => exact hsuffix c hc

/-- The first mark of a text stays its first one. -/
theorem splitSuffix_append_mark (hmark : isMark mark) (text : Text) :
    splitSuffix (text ++ mark :: rest) =
      ((splitSuffix text).1, (splitSuffix text).2 ++ mark :: rest) := by
  have hsplit := List.takeWhile_append_dropWhile (p := (!isMark ·)) (l := text)
  rw [← splitSuffix_append (fun _ h => isMark_of_mem_splitSuffix h)
    (isMark_of_head?_append (fun _ h => isMark_of_head?_splitSuffix h) hmark),
    splitSuffix_eq text, ← List.append_assoc, hsplit]

/-- An address with more text behind its suffix. -/
def Address.append (a : Address) (hmark : isMark mark) (rest : Text) : Address where
  owner := a.owner
  path := a.path
  suffix := a.suffix ++ mark :: rest
  isMark_path := a.isMark_path
  isMark_suffix := isMark_of_head?_append a.isMark_suffix hmark

theorem Address.ofText_append (owner : AssetModule) (text : Text) (hmark : isMark mark) :
    ofText owner (text ++ mark :: rest) = (ofText owner text).append hmark rest := by
  simp only [ofText, append, splitSuffix_append_mark hmark]

namespace Context

theorem joined_append (context : Context) (raw : Text) (hmark : isMark mark) :
    context.joined (raw ++ mark :: rest) = context.joined raw ++ mark :: rest := by
  rw [joined, joined, splitSuffix_append_mark hmark, List.append_assoc]

/-- A reference whose target is left alone leads to the same asset as before. -/
theorem address?_append (context : Context) (hmark : isMark mark)
    (h : Target.classify (raw ++ mark :: rest) = (Target.classify raw).append (mark :: rest)) :
    context.address? (raw ++ mark :: rest) =
      (context.address? raw).map (·.append hmark rest) := by
  rw [address?, address?, h]
  cases Target.classify raw with
  | external => rfl
  | inModule name path =>
    rw [Target.append, Option.map_map]
    exact congrArg (Option.map · _) (funext fun owner => Address.ofText_append owner path hmark)
  | relative path =>
    show some (Address.ofText context.owner (context.joined (path ++ mark :: rest))) = _
    rw [joined_append context path hmark, Address.ofText_append _ _ hmark]
    rfl

/-- And it fails as before. -/
theorem unknown?_append (context : Context)
    (h : Target.classify (raw ++ mark :: rest) = (Target.classify raw).append (mark :: rest)) :
    context.unknown? (raw ++ mark :: rest) = context.unknown? raw := by
  rw [unknown?, unknown?, h]
  cases Target.classify raw <;> rfl

end Context

/-! ### Rewriting -/

/-- **A suffix is kept.**  Text behind a reference, from a `?` or `#` on, leaves the target of the
reference alone unless it brings the first colon, the first text behind that colon, or a line feed
behind it.  Then rewriting fails as without the suffix, or it leads to the same module, looks for
the same file, misses it as before and puts the same digest into the path; and the suffix stands
behind the path.  Where the pattern ends with its only place for the path, it stands behind the
URL. -/
theorem suffix_kept (context : Context) (raw rest : Text) {mark : Char} (hmark : isMark mark)
    (hinternal : Target.classify raw ≠ .external) :
    let written := raw ++ mark :: rest
    let pattern := context.options.pattern
    (Target.classify written = (Target.classify raw).append (mark :: rest) ↔
      Target.Kept raw (mark :: rest)) ∧
    (Target.Kept raw (mark :: rest) →
      (∀ error, rewriteReference context written = .error error ↔
        rewriteReference context raw = .error error) ∧
      ∀ rewritten, rewriteReference context raw = .ok rewritten → ∃ a rewritten',
        rewriteReference context written = .ok rewritten' ∧
        context.address? raw = some a ∧
        context.address? written = some (a.append hmark rest) ∧
        context.Probes raw a.file ∧ context.Probes written a.file ∧
        rewritten'.missing = rewritten.missing.map (fun asset => ⟨written, asset.file⟩) ∧
        rewritten.url =
          pattern.render a.owner.name a.owner.version (context.served a ++ a.suffix) ∧
        rewritten'.url = pattern.render a.owner.name a.owner.version
          (context.served a ++ a.suffix ++ mark :: rest) ∧
        ∀ front, pattern.source = front ++ Placeholder.path.token →
          ¬ Placeholder.path.token <:+: front →
          rewritten'.url = rewritten.url ++ mark :: rest) := by
  intro written pattern
  have hraw : Target.isExternal raw = false := by
    rw [Bool.eq_false_iff]
    exact fun h => hinternal (Target.classify_eq_external_iff.mpr h)
  have hclassify : Target.classify written = (Target.classify raw).append (mark :: rest) ↔
      Target.Kept raw (mark :: rest) := Target.classify_append_iff hmark hraw
  refine ⟨hclassify, fun hkept => ?_⟩
  have hunknown : context.unknown? written = context.unknown? raw :=
    context.unknown?_append (hclassify.mpr hkept)
  have haddress : context.address? written = (context.address? raw).map (·.append hmark rest) :=
    context.address?_append hmark (hclassify.mpr hkept)
  cases hname : context.unknown? raw with
  | some name =>
    rw [Context.rewriteReference_of_unknown? hname,
      Context.rewriteReference_of_unknown? (hunknown.trans hname)]
    exact ⟨fun _ => Iff.rfl, fun _ h => absurd h (by simp)⟩
  | none =>
    obtain ⟨a, ha⟩ := Context.exists_address? hinternal hname
    have ha' : context.address? written = some (a.append hmark rest) := by
      rw [haddress, ha, Option.map_some]
    obtain ⟨rewritten, hok, hurl, hmissing⟩ := Context.rewriteReference_of_known hname
    obtain ⟨rewritten', hok', hurl', hmissing'⟩ :=
      Context.rewriteReference_of_known (hunknown.trans hname)
    rw [Context.replacement, ha] at hurl
    rw [Context.replacement, ha'] at hurl'
    rw [Context.missing?, ha] at hmissing
    rw [Context.missing?, ha'] at hmissing'
    rw [hok, hok']
    refine ⟨fun _ => by simp, ?_⟩
    rintro _ ⟨⟩
    have hsuffix : rewritten'.url = pattern.render a.owner.name a.owner.version
        (context.served a ++ a.suffix ++ mark :: rest) := by
      rw [hurl', List.append_assoc]
      rfl
    refine ⟨a, rewritten', rfl, ha, ha', Context.probes_of_address? ha,
      Context.probes_of_address? (a := a.append hmark rest) ha', ?_, hurl, hsuffix, ?_⟩
    · rw [hmissing, hmissing']
      show (if context.files.holds a.file then _ else _) = Option.map _ (if _ then _ else _)
      split_ifs <;> rfl
    · intro front hsource hfront
      have hpattern : pattern = ⟨front ++ Placeholder.path.token⟩ := by rw [← hsource]
      rw [hsuffix, hurl, hpattern]
      show _ = pattern.render _ _ _ ++ _
      rw [hpattern, UrlPattern.render_append_path hfront]

/-- A fragment with colons behind a reference into a module. -/
theorem suffix_kept_fragment :
    let context : Context :=
      ⟨⟨"app".toList, none, Path.ofString "/srv/app", Path.empty⟩,
        Path.ofString "/srv/app/main.scss",
        fun name => if name = ['l', 'i', 'b'] then
          some ⟨['l', 'i', 'b'], none, Path.ofString "/srv/lib", Path.empty⟩ else none,
        .ofMemory [], .standard⟩
    ∃ rewritten, rewriteReference context "lib:a.svg#b:c?d".toList = .ok rewritten ∧
      rewritten.url = "/g/lib/a.svg#b:c?d".toList ∧
      rewritten.missing = some ⟨"lib:a.svg#b:c?d".toList, Path.ofString "/srv/lib/a.svg"⟩ := by
  intro context
  have hinternal : Target.classify (['l', 'i', 'b'] ++ ':' :: "a.svg".toList) ≠ .external := by
    decide +kernel
  have hkept : Target.Kept (['l', 'i', 'b'] ++ ':' :: "a.svg".toList) ('#' :: "b:c?d".toList) :=
    (Target.kept_append_iff (by decide)).mpr fun _ _ => by decide +kernel
  have hknown : context.unknown? (['l', 'i', 'b'] ++ ':' :: "a.svg".toList) = none := by
    decide +kernel
  have hmark : isMark '#' := by decide
  obtain ⟨plain, hok, hurl, hmissing⟩ := Context.rewriteReference_of_known hknown
  have hsuffix := (suffix_kept context _ "b:c?d".toList hmark hinternal).2 hkept
  obtain ⟨a, rewritten, hok', -, -, -, -, hmissing', -, -, hbehind⟩ := hsuffix.2 plain hok
  refine ⟨rewritten, hok', ?_, ?_⟩
  · rw [hbehind "/g/\x7bname\x7d/".toList (by decide +kernel) (by decide +kernel), hurl]
    decide +kernel
  · rw [hmissing', hmissing]
    decide +kernel

/-- A suffix that brings the first colon, or the first text behind it, or a line feed behind it,
and a pattern with two places for the path. -/
theorem suffix_moves :
    let context (pattern : Text) : Context :=
      ⟨⟨"app".toList, none, Path.ofString "/srv/app", Path.empty⟩,
        Path.ofString "/srv/app/main.scss",
        fun name => if name = ['l', 'i', 'b'] then
          some ⟨['l', 'i', 'b'], none, Path.ofString "/srv/lib", Path.empty⟩ else none,
        .ofMemory [], ⟨.development, ⟨pattern⟩, .version, rfl⟩⟩
    let url (pattern raw : String) : Option Text :=
      (rewriteReference (context pattern.toList) raw.toList).toOption.map (·.url)
    (url "/\x7bname\x7d/\x7bpath\x7d" "a.png" = some "/app/a.png".toList ∧
      url "/\x7bname\x7d/\x7bpath\x7d" "a.png?t=12:30" = none) ∧
    (url "/\x7bname\x7d/\x7bpath\x7d" "lib:" = some "/app/lib:".toList ∧
      url "/\x7bname\x7d/\x7bpath\x7d" "lib:?x" = some "/lib/?x".toList) ∧
    (url "/\x7bname\x7d/\x7bpath\x7d" "lib:a.png" = some "/lib/a.png".toList ∧
      url "/\x7bname\x7d/\x7bpath\x7d" "lib:a.png?\nx" = some "/app/lib:a.png?\nx".toList) ∧
    (url "/\x7bpath\x7d/\x7bpath\x7d" "a.png" = some "/a.png/a.png".toList ∧
      url "/\x7bpath\x7d/\x7bpath\x7d" "a.png?x" = some "/a.png?x/a.png?x".toList) := by
  intro context url
  refine ⟨⟨?_, ?_⟩, ⟨?_, ?_⟩, ⟨?_, ?_⟩, ?_, ?_⟩
  all_goals decide +kernel

end Rewrite

end StylesheetBuild
