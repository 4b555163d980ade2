/-
Digests and versions never both act.

A URL of an asset can change with the content of the file or with the version of the module.  Two
runs of rewriting that differ in one of these only are compared:

* **`rewrite_eq_of_sameButVersions`** — with content hashes the pattern has no place for the
  version, so versions make no difference;
* **`rewrite_eq_of_sameButContents`** — without digests no file is read, so contents make no
  difference;
* **`cacheBusting_exclusive`** — so each of the two strategies ignores what the other looks at.

Design notes: two runs agree as soon as they agree on each reference (`rewrite_congr`), and options
carry the proof that they do not have both strategies at once (`Options.exclusive`).
-/
import StylesheetBuild.Proofs.UrlPattern.Rendering
import StylesheetBuild.Rewrite.Basic

namespace StylesheetBuild

namespace Rewrite

/-- Runs that agree on each reference agree on the stylesheet. -/
theorem rewrite_congr {a b : Context}
    (h : ∀ raw, rewriteReference a raw = rewriteReference b raw) (css : Text) :
    rewrite a css = rewrite b css := by
  have hrefs : ∀ refs, rewriteReferences a refs = rewriteReferences b refs := by
    intro refs
    induction refs with
    | nil => rfl
    | cons r rest ih => rw [rewriteReferences, rewriteReferences, h, ih]
  rw [rewrite, rewrite, hrefs]

/-! ### Worlds that differ in versions -/

/-- Modules that differ in the version only. -/
structure SameButVersion (m n : AssetModule) : Prop where
  name : m.name = n.name
  root : m.root = n.root
  assetsRoot : m.assetsRoot = n.assetsRoot

/-- Contexts that differ in the versions of modules only: of the stylesheet's own and of those that
references lead into. -/
structure SameButVersions (a b : Context) : Prop where
  owner : SameButVersion a.owner b.owner
  resolve : ∀ name, Option.Rel SameButVersion (a.resolve name) (b.resolve name)
  source : a.source = b.source
  files : a.files = b.files
  options : a.options = b.options

theorem SameButVersion.assetDir {m n : AssetModule} (h : SameButVersion m n) :
    m.assetDir = n.assetDir := by
  rw [AssetModule.assetDir, AssetModule.assetDir, h.root, h.assetsRoot]

theorem SameButVersions.rewritePath {a b : Context} (h : SameButVersions a b)
    (hbusting : a.options.busting = .contentHash) {m n : AssetModule} (hmn : SameButVersion m n)
    (raw path : Text) : rewritePath a raw m path = rewritePath b raw n path := by
  rw [h.options] at hbusting
  -- the pattern has no place for the version, the only thing that the two modules differ in
  have hrender : ∀ path, b.options.pattern.render m.name m.version path =
      b.options.pattern.render n.name n.version path := by
    intro path
    refine UrlPattern.render_congr (fun _ => hmn.name) (fun huses => ?_) fun _ => rfl
    rw [Options.uses_version_eq_false hbusting] at huses
    exact absurd huses (by decide)
  have hfile : ∀ path, assetFile m path = assetFile n path := by
    intro path
    rw [assetFile, assetFile, hmn.assetDir]
  simp only [Rewrite.rewritePath, withDigest, hrender, hfile, h.source, h.files, h.options]

theorem SameButVersions.rewriteReference {a b : Context} (h : SameButVersions a b)
    (hbusting : a.options.busting = .contentHash) (raw : Text) :
    rewriteReference a raw = rewriteReference b raw := by
  have hpath := fun {m n} (hmn : SameButVersion m n) => h.rewritePath hbusting hmn raw
  have hdir : a.sourceDir = b.sourceDir := by
    rw [Context.sourceDir, Context.sourceDir, h.owner.assetDir, h.source]
  rw [Rewrite.rewriteReference, Rewrite.rewriteReference]
  cases Target.classify raw with
  | external => rfl
  | inModule name path =>
    have howner := h.resolve name
    cases ha : a.resolve name <;> cases hb : b.resolve name <;> rw [ha, hb] at howner
    · simp only [ha, hb, h.source]
    · exact absurd howner (by rintro ⟨⟩)
    · exact absurd howner (by rintro ⟨⟩)
    · cases howner with
      | some hmn => simp only [ha, hb, hpath hmn]
  | relative path => simp only [hdir, hpath h.owner]

/-- With content hashes, versions make no difference. -/
theorem rewrite_eq_of_sameButVersions {a b : Context} (h : SameButVersions a b)
    (hbusting : a.options.busting = .contentHash) (css : Text) : rewrite a css = rewrite b css :=
  rewrite_congr (h.rewriteReference hbusting) css

/-! ### Worlds that differ in contents -/

/-- Contexts that differ in what reading a file gives only. -/
structure SameButContents (a b : Context) : Prop where
  owner : a.owner = b.owner
  resolve : a.resolve = b.resolve
  source : a.source = b.source
  holds : a.files.holds = b.files.holds
  options : a.options = b.options

theorem withDigest_of_not_hashesContent {context : Context}
    (h : context.options.hashesContent = false) (file : Path) (path : Text) :
    withDigest context file path = (path, []) := by
  rw [withDigest, h]
  exact if_neg (by decide)

/-- Without digests, contents make no difference. -/
theorem rewrite_eq_of_sameButContents {a b : Context} (h : SameButContents a b)
    (hhash : a.options.hashesContent = false) (css : Text) : rewrite a css = rewrite b css := by
  have hhash' : b.options.hashesContent = false := h.options ▸ hhash
  have hpath : ∀ raw m path, rewritePath a raw m path = rewritePath b raw m path := by
    intro raw m path
    simp only [rewritePath, withDigest_of_not_hashesContent hhash,
      withDigest_of_not_hashesContent hhash', h.source, h.holds, h.options]
  have hdir : a.sourceDir = b.sourceDir := by
    rw [Context.sourceDir, Context.sourceDir, h.owner, h.source]
  refine rewrite_congr (fun raw => ?_) css
  simp only [rewriteReference, hpath, hdir, h.owner, h.resolve, h.source]

theorem hashesContent_eq_false {options : Options}
    (h : options.busting = .version ∨ options.mode = .development) :
    options.hashesContent = false := by
  rcases h with h | h <;> simp [Options.hashesContent, h]

/-- **Digests and versions never both act.**  With content hashes, rewriting gives the same result
whatever the versions of the modules are; with versions, or in development, it gives the same
result whatever reading the files gives. -/
theorem cacheBusting_exclusive (a b : Context) (css : Text) :
    (a.options.busting = .contentHash → SameButVersions a b → rewrite a css = rewrite b css) ∧
    (a.options.busting = .version ∨ a.options.mode = .development → SameButContents a b →
      rewrite a css = rewrite b css) := by
  constructor
  · intro hbusting h
    exact rewrite_eq_of_sameButVersions h hbusting css
  · intro hoptions h
    exact rewrite_eq_of_sameButContents h (hashesContent_eq_false hoptions) css

/-- A new version of a module with content hashes, and new contents of its files with versions. -/
theorem cacheBusting_exclusive_updated :
    let css := "@import 'lib:a.css';p\x7bbackground:url(b.png)\x7d".toList
    let lib (version : Text) : AssetModule :=
      ⟨"lib".toList, some version, Path.ofString "/m/lib", Path.empty⟩
    let context (version : Text) (bytes : List UInt8) (options : Options) : Context :=
      ⟨lib version, Path.ofString "/m/lib/main.css", fun _ => some (lib version),
        ⟨fun _ => true, fun _ => .ok bytes⟩, options⟩
    let versioned : Options :=
      ⟨.production, ⟨"/\x7bname\x7d/\x7bversion\x7d/\x7bpath\x7d".toList⟩, .version, by decide⟩
    rewrite (context ['1'] [0] .standard) css = rewrite (context ['2'] [0] .standard) css ∧
      rewrite (context ['1'] [0] versioned) css = rewrite (context ['1'] [1] versioned) css := by
  intro css lib context versioned
  constructor
  · have hlib : SameButVersion (lib ['1']) (lib ['2']) := ⟨rfl, rfl, rfl⟩
    exact (cacheBusting_exclusive (context ['1'] [0] .standard) (context ['2'] [0] .standard)
      css).1 rfl ⟨hlib, fun _ => .some hlib, rfl, rfl, rfl⟩
  · exact (cacheBusting_exclusive (context ['1'] [0] versioned) (context ['1'] [1] versioned)
      css).2 (.inl rfl) ⟨rfl, rfl, rfl, rfl, rfl⟩

end Rewrite

end StylesheetBuild
