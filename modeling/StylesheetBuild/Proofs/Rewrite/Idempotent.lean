/-
Rewriting is idempotent.

A rewritten stylesheet refers to URLs only, so that rewriting it once more leaves it as it is.  This
takes a pattern that begins with a slash, and no delimiter in anything that a URL is made of; one
in a URL could end an argument early or make up another reference.

* **`Context.rewrite_of_external`** — a stylesheet whose references are all external stays as it is;
* **`Context.Undelimited.isExternal_replacement`**,
  **`Context.Undelimited.plain_replacement`** — what takes the place of a reference is external and
  has no delimiter in it;
* **`rewrite_idempotent`** — so the rewritten stylesheet is one that stays as it is.

Design notes: the two passes are compared through the cells that a stylesheet is woven from
(`Woven`), where what the second pass finds is a part of a slot of the first pass
(`Woven.isExternal_of_mem_scan`).
-/
import StylesheetBuild.Proofs.Digest.Recovery
import StylesheetBuild.Proofs.Path.Characters
import StylesheetBuild.Proofs.Rewrite.Rescan
import StylesheetBuild.Proofs.UrlPattern.Rendering

namespace StylesheetBuild

open Reference (isDelimiter Plain scan)

/-- A hexadecimal digit is no delimiter. -/
theorem Reference.isDelimiter_of_isHexDigit {c : Char} (h : Digest.isHexDigit c) :
    isDelimiter c = false := by
  rw [Bool.eq_false_iff]
  intro hdelimiter
  rcases isDelimiter_iff.mp hdelimiter with rfl | rfl | rfl | rfl | rfl <;>
    exact absurd h (by decide)

namespace Rewrite

/-! ### External references only -/

namespace Context

theorem unknown?_of_isExternal (context : Context) {raw : Text} (h : Target.isExternal raw) :
    context.unknown? raw = none := by
  rw [unknown?, Target.classify_eq_external_iff.mpr h]

theorem address?_of_isExternal (context : Context) {raw : Text} (h : Target.isExternal raw) :
    context.address? raw = none := by
  rw [address?, Target.classify_eq_external_iff.mpr h]

theorem firstUnknown?_eq_none_iff {context : Context} {refs : List Reference} :
    context.firstUnknown? refs = none ↔ ∀ r ∈ refs, context.unknown? r.argument = none :=
  List.findSome?_eq_none_iff

/-- A stylesheet whose references are all external stays as it is. -/
theorem rewrite_of_external (context : Context) {css : Text}
    (h : ∀ r ∈ scan css, Target.isExternal r.argument) :
    (rewrite context css).2 = .ok ⟨css, []⟩ := by
  have hunknown : context.firstUnknown? (scan css) = none :=
    firstUnknown?_eq_none_iff.mpr fun r hr => context.unknown?_of_isExternal (h r hr)
  have hurls : (scan css).map (fun r => context.replacement r.argument) =
      (scan css).map (·.argument) := by
    refine List.map_congr_left fun r hr => ?_
    rw [replacement, context.address?_of_isExternal (h r hr)]
    rfl
  have hmissing : (scan css).filterMap (fun r => context.missing? r.argument) = [] := by
    refine List.filterMap_eq_nil_iff.mpr fun r hr => ?_
    rw [missing?, context.address?_of_isExternal (h r hr)]
    rfl
  have hcut := isCut_gapsFrom (Reference.scan_disjoint css) fun r hr => fits_of_mem_scan hr
  rw [context.rewrite_eq css, hunknown, hurls, hmissing]
  show Except.ok (⟨interleave (gapsFrom 0 css (scan css)) ((scan css).map (·.argument)), []⟩ :
    Stylesheet) = _
  rw [hcut.whole]

/-! ### URLs without delimiters -/

/-- Nothing that the URLs of a stylesheet are made of has a delimiter in it, and the URLs begin with
a slash.  Arguments have no quotes in them anyway. -/
structure Undelimited (context : Context) (css : Text) : Prop where
  root : context.options.pattern.source.head? = some '/'
  pattern : Plain context.options.pattern.source
  -- the modules that references lead into
  name : ∀ r ∈ scan css, ∀ a ∈ context.address? r.argument, Plain a.owner.name
  version : ∀ r ∈ scan css, ∀ a ∈ context.address? r.argument, Plain (a.owner.version.getD [])
  -- where the stylesheet is, in bytes
  directory : ∀ c, isDelimiter c →
    UInt8.ofNat c.toNat ∉ (context.source.parent?.getD Path.empty).bytes
  argument : ∀ r ∈ scan css, '(' ∉ r.argument ∧ ')' ∉ r.argument ∧ '@' ∉ r.argument

theorem plain_served {context : Context} {a : Address} (h : Plain a.path) :
    Plain (context.served a) := by
  rw [served, withDigest]
  split_ifs
  · split
    · intro c hc
      rcases Digest.mem_insert hc with hpath | hdigest | rfl
      · exact h c hpath
      · exact Reference.isDelimiter_of_isHexDigit
          ((Digest.isDigest_content _).isHexDigit c hdigest)
      · decide
    · exact h
  · exact h
  · exact h

namespace Undelimited

variable {context : Context} {css : Text}

theorem plain_argument (h : context.Undelimited css) {r : Reference} (hr : r ∈ scan css) :
    Plain r.argument := by
  obtain ⟨hopening, hclosing, hat⟩ := h.argument r hr
  have hquote := (Reference.argument_of_mem_found (Reference.mem_scan_iff.mp hr).1).2
  have hquotes : ∀ c, Text.isQuote c → c ∉ r.argument := by
    intro c hc hmem
    rw [hquote c hmem] at hc
    exact absurd hc (by decide)
  refine Reference.plain_iff.mpr fun c hc => ?_
  simp only [isDelimiter, Bool.or_eq_true, decide_eq_true_eq] at hc
  rcases hc with ((hc | rfl) | rfl) | rfl
  · exact hquotes c hc
  · exact hopening
  · exact hclosing
  · exact hat

theorem plain_sourceDir (h : context.Undelimited css) : Plain context.sourceDir := by
  refine Reference.plain_iff.mpr fun c hc hmem => ?_
  obtain ⟨hpos, hlt, hslash, hdot⟩ : 0 < c.toNat ∧ c.toNat < 0x80 ∧ c ≠ '/' ∧ c ≠ '.' := by
    rcases Reference.isDelimiter_iff.mp hc with rfl | rfl | rfl | rfl | rfl <;> decide
  exact h.directory c hc (RelativePath.byte_mem_of_mem_directory hpos hlt hslash hdot hmem)

/-- A relative reference has no delimiter as seen from the assets, either. -/
theorem plain_joined (h : context.Undelimited css) {raw : Text} (hraw : Plain raw) :
    Plain (context.joined raw) := by
  have hparts : Plain ((splitSuffix raw).1 ++ (splitSuffix raw).2) := by
    rw [splitSuffix_eq, List.takeWhile_append_dropWhile]
    exact hraw
  obtain ⟨hpath, hsuffix⟩ := List.forall_mem_append.mp hparts
  refine Plain.append (fun c hc => ?_) hsuffix
  rcases RelativePath.mem_join hc with hdir | hreference | rfl
  · exact h.plain_sourceDir c hdir
  · exact hpath c hreference
  · decide

/-- The path and the suffix of an address have no delimiter in them. -/
theorem plain_address (h : context.Undelimited css) {raw : Text} (hraw : Plain raw) {a : Address}
    (ha : context.address? raw = some a) : Plain a.path ∧ Plain a.suffix := by
  have hofText : ∀ owner text, Plain text →
      Plain (Address.ofText owner text).path ∧ Plain (Address.ofText owner text).suffix := by
    intro owner text htext
    exact ⟨htext.of_subset (List.takeWhile_prefix _).subset,
      htext.of_subset (List.dropWhile_suffix _).subset⟩
  rw [address?] at ha
  split at ha
  · exact absurd ha (by simp)
  · rename_i name path hclass
    obtain ⟨owner, -, rfl⟩ := Option.map_eq_some_iff.mp ha
    have happend := Target.append_of_qualified? (Target.classify_eq_inModule hclass)
    refine hofText owner path (hraw.of_subset ?_)
    rw [← happend]
    exact fun c hc => List.mem_append_right _ (List.mem_cons_of_mem _ hc)
  · rename_i path hclass
    obtain rfl := Target.classify_eq_relative hclass
    rw [← Option.some_inj.mp ha]
    exact hofText context.owner _ (h.plain_joined hraw)

/-- The URLs of a stylesheet have no delimiter in them. -/
theorem plain_url (h : context.Undelimited css) {r : Reference} (hr : r ∈ scan css) {a : Address}
    (ha : context.address? r.argument = some a) : Plain (context.url a) := by
  obtain ⟨hpath, hsuffix⟩ := h.plain_address (h.plain_argument hr) ha
  intro c hc
  rcases UrlPattern.mem_render hc with hpattern | hname | hversion | hfilled
  · exact h.pattern c hpattern
  · exact h.name r hr a ha c hname
  · exact h.version r hr a ha c hversion
  · exact Plain.append (plain_served hpath) hsuffix c hfilled

/-- What takes the place of a reference has no delimiter in it. -/
theorem plain_replacement (h : context.Undelimited css) {r : Reference} (hr : r ∈ scan css) :
    Plain (context.replacement r.argument) := by
  rw [replacement]
  cases ha : context.address? r.argument with
  | none => exact h.plain_argument hr
  | some a => exact h.plain_url hr ha

/-- What takes the place of a reference is external. -/
theorem isExternal_replacement (h : context.Undelimited css) {raw : Text}
    (hknown : context.unknown? raw = none) : Target.isExternal (context.replacement raw) := by
  have hbecomes := becomes_replacement hknown
  generalize context.replacement raw = text at hbecomes ⊢
  cases hbecomes with
  | external hclass => exact Target.classify_eq_external_iff.mp hclass
  | asset ha hserves =>
    rename_i a path
    obtain ⟨rest, hrest⟩ := UrlPattern.exists_render_of_root h.root a.owner.name a.owner.version
      (path ++ a.suffix)
    rw [hrest]
    exact Target.isExternal_iff.mpr ⟨['/'], .root, rest, rfl⟩

/-- A reference of a stylesheet, with what takes its place. -/
def slot (h : context.Undelimited css) (hknown : ∀ r ∈ scan css, context.unknown? r.argument = none)
    (r : { r // r ∈ scan css }) : Slot where
  reference := r.1
  target := context.replacement r.1.argument
  argument_ne_nil := (Reference.argument_of_mem_found (Reference.mem_scan_iff.mp r.2).1).1
  plain_argument := h.plain_argument r.2
  isExternal_target := h.isExternal_replacement (hknown r.1 r.2)
  plain_target := h.plain_replacement r.2

end Undelimited

end Context

/-! ### Rewriting twice -/

/-- **Rewriting is idempotent.**  Where no URL can have a delimiter in it, a rewritten stylesheet
stays as it is when it is rewritten once more, and nothing is reported. -/
theorem rewrite_idempotent (context : Context) (css : Text) (sheet : Stylesheet)
    (h : context.Undelimited css) (hsheet : (rewrite context css).2 = .ok sheet) :
    (rewrite context sheet.css).2 = .ok ⟨sheet.css, []⟩ := by
  rw [context.rewrite_eq css] at hsheet
  cases hunknown : context.firstUnknown? (scan css) with
  | some name =>
    rw [hunknown] at hsheet
    exact absurd hsheet (by simp)
  | none =>
    rw [hunknown] at hsheet
    have hknown := Context.firstUnknown?_eq_none_iff.mp hunknown
    have hcut := isCut_gapsFrom (Reference.scan_disjoint css) fun r hr => fits_of_mem_scan hr
    -- the rewritten stylesheet is woven from the gaps and the slots of the references
    have hreferences : ((scan css).attach.map (h.slot hknown)).map (·.reference) = scan css := by
      rw [List.map_map]
      exact List.attach_map_subtype_val _
    have htargets : ((scan css).attach.map (h.slot hknown)).map (·.target) =
        (scan css).map fun r => context.replacement r.argument := by
      rw [List.map_map]
      exact List.attach_map_val (f := fun r : Reference => context.replacement r.argument)
    have hcss : sheet.css =
        targets (weave (gapsFrom 0 css (scan css)) ((scan css).attach.map (h.slot hknown))) := by
      rw [targets_weave, htargets, ← Except.ok.inj hsheet]
    refine context.rewrite_of_external fun r hr => ?_
    rw [hcss] at hr
    exact (woven_weave hcut hreferences).isExternal_of_mem_scan hr

/-- A stylesheet with a reference to an asset that takes a digest and one to a missing asset of
another module. -/
theorem rewrite_idempotent_digested :
    let css := "@import 'lib:a.css';p\x7bbackground:url( ../b.png?v )\x7d".toList
    let rewritten :=
      "@import '/g/lib/a.css';p\x7bbackground:url( /g/app/b-11f6ad8ec5.png?v )\x7d".toList
    let lib : AssetModule := ⟨"lib".toList, some ['2'], Path.ofString "/srv/lib", Path.empty⟩
    let context : Context :=
      ⟨⟨"app".toList, none, Path.ofString "/srv/app", Path.ofString "public"⟩,
        Path.ofString "/srv/app/public/css/main.css",
        fun name => if name = lib.name then some lib else none,
        .ofMemory [(Path.ofString "/srv/app/public/b.png", .ok [0x78])], .standard⟩
    context.Undelimited css ∧
      (rewrite context css).2 =
        .ok ⟨rewritten, [⟨"lib:a.css".toList, Path.ofString "/srv/lib/a.css"⟩]⟩ ∧
      (rewrite context rewritten).2 = .ok ⟨rewritten, []⟩ := by
  intro css rewritten lib context
  have hscan : scan css =
      [⟨.importRule, "lib:a.css".toList, 9⟩, ⟨.url, "../b.png?v".toList, 38⟩] := by
    have hurls : Reference.urls css = [⟨.url, "../b.png?v".toList, 38⟩] := by decide +kernel
    have himports : Reference.imports css = [⟨.importRule, "lib:a.css".toList, 9⟩] := by
      decide +kernel
    rw [scan, hurls, himports]
    simp [Reference.disjointFrom, Reference.finish]
  have hundelimited : context.Undelimited css := by
    refine ⟨rfl, by decide +kernel, ?_, ?_, ?_, ?_⟩
    · rw [hscan]
      decide +kernel
    · rw [hscan]
      decide +kernel
    · intro c hc
      rcases Reference.isDelimiter_iff.mp hc with rfl | rfl | rfl | rfl | rfl <;> decide +kernel
    · rw [hscan]
      decide +kernel
  have hsheet : (rewrite context css).2 =
      .ok ⟨rewritten, [⟨"lib:a.css".toList, Path.ofString "/srv/lib/a.css"⟩]⟩ := by
    have hunknown : context.firstUnknown? (scan css) = none := by
      rw [hscan]
      decide +kernel
    have hcss : interleave (gapsFrom 0 css (scan css))
        ((scan css).map fun r => context.replacement r.argument) = rewritten := by
      rw [hscan]
      decide +kernel
    have hmissing : (scan css).filterMap (fun r => context.missing? r.argument) =
        [⟨"lib:a.css".toList, Path.ofString "/srv/lib/a.css"⟩] := by
      rw [hscan]
      decide +kernel
    simp only [context.rewrite_eq css, hunknown, hcss, hmissing]
  exact ⟨hundelimited, hsheet, rewrite_idempotent context css _ hundelimited hsheet⟩

end Rewrite

end StylesheetBuild
