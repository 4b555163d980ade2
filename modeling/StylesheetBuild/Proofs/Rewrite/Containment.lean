/-
Where the URL of an asset can lead.

A URL is made of the path of an asset below its module.  The path may lead out of the module, but
only if the reference does.

* **`Context.Serves.climbs_iff`** — a digest in the path makes no difference to that;
* **`Context.exists_fills`** — the path climbs only if the reference does, as seen from the
  directory of the stylesheet;
* **`rewrite_contained`** — so a URL below a root stays below its module's root unless its reference
  climbs;
* **`rewrite_climbs`** — and some reference does.
-/
import StylesheetBuild.Disk.Write
import StylesheetBuild.Proofs.Digest.Recovery
import StylesheetBuild.Proofs.Path.Characters
import StylesheetBuild.Proofs.Rewrite.Probe
import StylesheetBuild.Proofs.Rewrite.Splice
import StylesheetBuild.Proofs.UrlPattern.Browsing

namespace StylesheetBuild

namespace Rewrite

open Pieces RelativePath

namespace Context

variable {context : Context} {a : Address} {path : Text}

/-! ### Digests in paths -/

theorem not_mem_word {c : Char} (hc : Text.isWordChar c = false) {word : Text}
    (hword : ∀ d ∈ word, Text.isWordChar d) : c ∉ word := by
  intro hmem
  rw [hword c hmem] at hc
  exact absurd hc (by decide)

theorem not_mem_content {c : Char} (hc : Digest.isHexDigit c = false) (bytes : List UInt8) :
    c ∉ Digest.content bytes := by
  intro hmem
  rw [(Digest.isDigest_content bytes).isHexDigit c hmem] at hc
  exact absurd hc (by decide)

/-- The names at the end of an asset path, without a digest and with one. -/
theorem Digested.split_iff {bytes : List UInt8} {stem extension : Text}
    (h : context.Digested a bytes stem extension) :
    (up ∈ split '/' (stem ++ '-' :: (Digest.content bytes ++ '.' :: extension)) ↔
      up ∈ split '/' a.path) ∧
    (Climbs (split '/' (stem ++ '-' :: (Digest.content bytes ++ '.' :: extension))) ↔
      Climbs (split '/' a.path)) := by
  obtain ⟨hpath, hne, hword⟩ := h.extension
  have hextension : '/' ∉ extension := not_mem_word (by decide) hword
  have hcontent : '/' ∉ Digest.content bytes := not_mem_content (by decide) bytes
  obtain ⟨c, hc⟩ := List.exists_mem_of_ne_nil _ hne
  have hdot : c ≠ '.' := by
    rintro rfl
    exact not_mem_word (by decide) hword hc
  rw [hpath]
  refine split_append_name stem ?_ ?_ ⟨'-', List.mem_cons_self, by decide⟩
    ⟨c, List.mem_cons_of_mem _ hc, hdot⟩
  · simp [hextension, hcontent]
  · simp [hextension]

theorem Serves.up_mem_iff (h : context.Serves a path) :
    up ∈ split '/' path ↔ up ∈ split '/' a.path := by
  cases h with
  | digested h => exact h.split_iff.1
  | plain => exact Iff.rfl

/-- An asset is served from the directory that it is in. -/
theorem Serves.climbs_iff (h : context.Serves a path) :
    Climbs (split '/' path) ↔ Climbs (split '/' a.path) := by
  cases h with
  | digested h => exact h.split_iff.2
  | plain => exact Iff.rfl

theorem Serves.tidy (h : context.Serves a path) (htidy : Tidy a.path) : Tidy path := by
  cases h with
  | plain => exact htidy
  | digested h =>
    rename_i bytes stem extension
    obtain ⟨hpath, -, hword⟩ := h.extension
    have hextension : '/' ∉ extension := not_mem_word (by decide) hword
    have hcontent : '/' ∉ Digest.content bytes := not_mem_content (by decide) bytes
    have hstem : Tidy stem := htidy.of_isPrefix ⟨'.' :: extension, hpath.symm⟩
    constructor
    · cases stem with
      | nil =>
        have hne : '-' ≠ '/' := by decide
        exact fun hhead => hne (Option.some_inj.mp hhead)
      | cons c stem => exact hstem.head_ne
    · refine slashesApart_append.mpr ⟨hstem.slashesApart, slashesApart_of_not_mem ?_, fun _ => ?_⟩
      · simp [hextension, hcontent]
      · have hne : '-' ≠ '/' := by decide
        exact fun hhead => hne (Option.some_inj.mp hhead)

theorem Serves.isMark (h : context.Serves a path) : ∀ c ∈ path, isMark c = false := by
  cases h with
  | plain => exact a.isMark_path
  | digested h =>
    rename_i bytes stem extension
    obtain ⟨hpath, -, -⟩ := h.extension
    have hstem : ∀ c ∈ stem ++ '.' :: extension, isMark c = false := hpath ▸ a.isMark_path
    intro c hc
    have hcases : c ∈ stem ++ '.' :: extension ∨ c = '-' ∨ c ∈ Digest.content bytes := by
      simp only [List.mem_append, List.mem_cons] at hc ⊢
      tauto
    rcases hcases with hc | rfl | hc
    · exact hstem c hc
    · rfl
    · cases hmark : Rewrite.isMark c with
      | false => rfl
      | true =>
        rw [Rewrite.isMark, Bool.or_eq_true, decide_eq_true_eq, decide_eq_true_eq] at hmark
        rcases hmark with rfl | rfl
        · exact absurd hc (not_mem_content (by decide) bytes)
        · exact absurd hc (not_mem_content (by decide) bytes)

/-! ### References and what is filled in for them -/

/-- What a reference has filled in for the path of an asset: a path, and behind it a suffix. -/
structure Fills (context : Context) (raw : Text) (owner : AssetModule) (path suffix : Text) :
    Prop where
  isMark_path : ∀ c ∈ path, isMark c = false
  isMark_suffix : ∀ c, suffix.head? = some c → isMark c
  -- as seen from the assets of the module, where no name of a directory is cut off as a suffix
  relative : ∀ text, Target.classify raw = .relative text → owner = context.owner ∧ Tidy path ∧
    ((∀ c ∈ RelativePath.join context.sourceDir (splitSuffix text).1, isMark c = false) →
      (up ∈ split '/' path ↔
        Climbs (split '/' context.sourceDir ++ split '/' (withSlashes (splitSuffix text).1))) ∧
      (Climbs (split '/' path) ↔
        Climbs (split '/' context.sourceDir ++ split '/' (withSlashes (splitSuffix text).1))))
  inModule : ∀ name text, Target.classify raw = .inModule name text →
    context.resolve name = some owner ∧
    (up ∉ split '/' (splitSuffix text).1 → up ∉ split '/' path) ∧
    (¬ Climbs (split '/' (splitSuffix text).1) → ¬ Climbs (split '/' path)) ∧
    (Tidy (splitSuffix text).1 → Tidy path)

theorem fills_of_relative {raw : Text} (hraw : Target.classify raw = .relative raw)
    (h : context.Serves (Address.ofText context.owner (context.joined raw)) path) :
    context.Fills raw context.owner path
      (Address.ofText context.owner (context.joined raw)).suffix where
  isMark_path := h.isMark
  isMark_suffix := (Address.ofText context.owner (context.joined raw)).isMark_suffix
  relative := by
    intro text htext
    obtain rfl := Target.classify_eq_relative htext
    have hcut : (Address.ofText context.owner (context.joined text)).path =
        (RelativePath.join context.sourceDir (splitSuffix text).1).takeWhile (!isMark ·) :=
      context.splitSuffix_joined text
    refine ⟨rfl, h.tidy ?_, fun hmark => ?_⟩
    · rw [hcut]
      exact (tidy_join _ _).of_isPrefix (List.takeWhile_prefix _)
    · have hwhole :
          (RelativePath.join context.sourceDir (splitSuffix text).1).takeWhile (!isMark ·) =
            RelativePath.join context.sourceDir (splitSuffix text).1 := by
        refine List.takeWhile_eq_self_iff.mpr fun c hc => ?_
        rw [hmark c hc]
        rfl
      rw [h.up_mem_iff, h.climbs_iff, hcut, hwhole]
      exact ⟨up_mem_split_join_iff _ _, climbs_split_join_iff _ _⟩
  inModule name text' hmodule := by
    rw [hraw] at hmodule
    exact absurd hmodule (by simp)

theorem fills_of_inModule {raw name text : Text} {owner : AssetModule}
    (hraw : Target.classify raw = .inModule name text) (howner : context.resolve name = some owner)
    (h : context.Serves (Address.ofText owner text) path) :
    context.Fills raw owner path (Address.ofText owner text).suffix where
  isMark_path := h.isMark
  isMark_suffix := (Address.ofText owner text).isMark_suffix
  relative text' hrelative := by
    rw [hraw] at hrelative
    exact absurd hrelative (by simp)
  inModule name' text' hmodule := by
    rw [hraw, Target.inModule.injEq] at hmodule
    obtain ⟨rfl, rfl⟩ := hmodule
    exact ⟨howner, fun hup => mt h.up_mem_iff.mp hup, fun hclimb => mt h.climbs_iff.mp hclimb,
      h.tidy⟩

/-- What a reference that is not external becomes. -/
theorem exists_fills {raw url : Text} (h : context.Becomes raw url)
    (hraw : Target.classify raw ≠ .external) : ∃ owner path suffix,
      url = context.options.pattern.render owner.name owner.version (path ++ suffix) ∧
        context.Fills raw owner path suffix := by
  cases h with
  | external h => exact absurd h hraw
  | asset ha hpath =>
    refine ⟨_, _, _, rfl, ?_⟩
    rw [address?] at ha
    cases hclass : Target.classify raw with
    | external => exact absurd hclass hraw
    | relative text =>
      obtain rfl := Target.classify_eq_relative hclass
      simp only [hclass, Option.some_inj] at ha
      subst ha
      exact fills_of_relative hclass hpath
    | inModule name text =>
      simp only [hclass] at ha
      obtain ⟨owner, howner, rfl⟩ := Option.map_eq_some_iff.mp ha
      exact fills_of_inModule hclass howner hpath

end Context

/-! ### URLs below a root -/

/-- A URL that is put together from a root, the name of a module, and the path and the suffix of an
asset.  A path that does not climb stays below root and name when a browser removes dot segments,
whatever it takes for the origin in front of the root and wherever the page is; and a tidy path
brings in no two slashes next to each other. -/
structure Below (root name path suffix url : Text) : Prop where
  url_eq : url = root ++ '/' :: (name ++ '/' :: (path ++ suffix))
  stays : ¬ Climbs (split '/' path) → ∀ origin directory base, root = origin ++ directory →
    Browser.browse base (directory ++ '/' :: (name ++ ['/'])) <+:
      Browser.browse base (directory ++ '/' :: (name ++ '/' :: path))
  slashesApart : Tidy path → SlashesApart ('/' :: (name ++ ['/'])) →
    SlashesApart ('/' :: (name ++ '/' :: path))

theorem below_of_eq {root name path suffix url : Text}
    (h : url = root ++ '/' :: (name ++ '/' :: (path ++ suffix))) :
    Below root name path suffix url where
  url_eq := h
  stays hclimb := by
    intro _ directory base _
    have hstays := Browser.browse_isPrefix base (directory ++ '/' :: name) hclimb
    simpa using hstays
  slashesApart htidy hname := by
    have happend := slashesApart_append.mpr ⟨hname, htidy.slashesApart, fun _ => htidy.head_ne⟩
    simpa using happend

/-- A reference is external, or the URL in its place has a path of some module filled in, and stays
below its root if the path does not climb. -/
def Context.Contained (context : Context) (raw url : Text) : Prop :=
  Target.classify raw ≠ .external → ∃ (owner : AssetModule) (path suffix : Text),
    url = context.options.pattern.render owner.name owner.version (path ++ suffix) ∧
    context.Fills raw owner path suffix ∧
    ∀ root, context.options.pattern = UrlPattern.below root →
      Below ((UrlPattern.bare root).render owner.name owner.version (path ++ suffix))
        owner.name path suffix url

theorem Context.contained_of_becomes {context : Context} {raw url : Text}
    (h : context.Becomes raw url) : context.Contained raw url := by
  intro hraw
  obtain ⟨owner, path, suffix, hrender, hfills⟩ := exists_fills h hraw
  refine ⟨owner, path, suffix, hrender, hfills, fun root hroot => below_of_eq ?_⟩
  rw [hrender, hroot, UrlPattern.render_below]

/-- **URLs stay below the root of their module unless their references climb.**  Each reference that
is not external is replaced by a URL, whether or not its file exists.  What is filled in for the
path of a relative one neither starts with a slash nor has two next to each other, and has a `..`
exactly where the directory of the stylesheet and the reference lead out of the assets of the
module.  In a reference into a module all this can only come from what is written there.  Below a
root the URL stays in the directory of its module if the path does not climb. -/
theorem rewrite_contained (context : Context) (css : Text) (sheet : Stylesheet)
    (h : (rewrite context css).2 = .ok sheet) :
    ∃ gaps urls, IsCut css (Reference.scan css) gaps ∧ sheet.css = interleave gaps urls ∧
      List.Forall₂ (fun r url => context.Contained r.argument url) (Reference.scan css) urls := by
  have hsplices := rewrite_splices context css
  split at hsplices
  · rw [h] at hsplices
    exact absurd hsplices (by simp)
  · obtain ⟨sheet', gaps, urls, hsheet, hcut, hbecomes, hcss, -⟩ := hsplices
    obtain rfl := Except.ok.inj (hsheet.symm.trans h)
    exact ⟨gaps, urls, hcut, hcss, hbecomes.imp fun r url => Context.contained_of_becomes⟩

/-- A reference up to the assets of the module and not further, which takes a digest. -/
theorem rewrite_contained_digested :
    let css := ".a\x7bbackground:url(../b.png)\x7d".toList
    let context : Context :=
      ⟨⟨"app".toList, none, Path.ofString "/srv/app", Path.empty⟩,
        Path.ofString "/srv/app/css/main.css", fun _ => none,
        .ofMemory [(Path.ofString "/srv/app/b.png", .ok [0x78])], .standard⟩
    let sheet : Stylesheet := ⟨".a\x7bbackground:url(/g/app/b-11f6ad8ec5.png)\x7d".toList, []⟩
    (rewrite context css).2 = .ok sheet ∧
      ∃ gaps url, sheet.css = interleave gaps [url] ∧ context.Contained "../b.png".toList url := by
  intro css context sheet
  have hscan : Reference.scan css = [⟨.url, "../b.png".toList, 18⟩] := by
    rw [Reference.scan_of_imports_eq_nil (by decide +kernel)]
    decide +kernel
  have hsheet : (rewrite context css).2 = .ok sheet :=
    Context.rewrite_of_scan hscan (by decide +kernel) (by decide +kernel) (by decide +kernel)
  obtain ⟨gaps, urls, -, hcss, hall⟩ := rewrite_contained context css sheet hsheet
  rw [hscan, List.forall₂_cons_left_iff] at hall
  obtain ⟨url, rest, hurl, hrest, rfl⟩ := hall
  obtain rfl := List.forall₂_nil_left_iff.mp hrest
  exact ⟨hsheet, gaps, url, hcss, hurl⟩

/-- A reference to an existing file above the assets of the module: its URL leads out of the
directory of the module. -/
theorem rewrite_climbs :
    let css := ".a\x7bbackground:url(../x.png)\x7d".toList
    let raw := "../x.png".toList
    let disk := (Disk.empty.withFile (Path.ofString "/srv/x.png").location [0x78]).withFile
      (Path.ofString "/srv/app/main.css").location []
    let context : Context :=
      ⟨⟨"app".toList, none, Path.ofString "/srv/app", Path.empty⟩,
        Path.ofString "/srv/app/main.css", fun _ => none, disk.assetFiles [],
        ⟨.development, UrlPattern.below UrlPattern.defaultRoot, .contentHash, by decide⟩⟩
    Reference.scan css = [⟨.url, raw, 18⟩] ∧ Target.classify raw = .relative raw ∧
      (rewrite context css).2 = .ok ⟨".a\x7bbackground:url(/g/app/../x.png)\x7d".toList, []⟩ ∧
      context.options.pattern.render "app".toList none raw = "/g/app/../x.png".toList ∧
      up ∈ split '/' raw ∧
      Browser.browse [] "/g/app/../x.png".toList = "/g/x.png".toList ∧
      ¬ Browser.browse [] "/g/app/".toList <+: "/g/x.png".toList := by
  intro css raw disk context
  have hscan : Reference.scan css = [⟨.url, raw, 18⟩] := by
    rw [Reference.scan_of_imports_eq_nil (by decide +kernel)]
    decide +kernel
  have hsheet : (rewrite context css).2 =
      .ok ⟨".a\x7bbackground:url(/g/app/../x.png)\x7d".toList, []⟩ :=
    Context.rewrite_of_scan hscan (by decide +kernel) (by decide +kernel) (by decide +kernel)
  exact ⟨hscan, by decide +kernel, hsheet, by decide +kernel, by decide +kernel, by decide +kernel,
    by decide +kernel⟩

end Rewrite

end StylesheetBuild
