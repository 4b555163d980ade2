/-
Options of rewriting.

A URL changes with the asset's content or with the module's version, never with both.

* **`uses_version_eq_false`**: with content hashes the pattern has no version.
* **`make_isOk_iff`**: exactly the combination of both is refused.
-/
import StylesheetBuild.UrlPattern
import StylesheetBuild.Path.Basic

namespace StylesheetBuild.Rewrite

inductive Mode where
  -- local work: URLs without digests
  | development
  | production
deriving Repr, DecidableEq, Inhabited

/-- What makes the URL of a changed asset a new one. -/
inductive CacheBusting where
  -- a digest of the content in the path, in production
  | contentHash
  -- the version of the module, where the pattern has a place for it
  | version
deriving Repr, DecidableEq, Inhabited

/-- Whether a pattern has a place for the version although content hashes are used. -/
def conflicts (pattern : UrlPattern) (busting : CacheBusting) : Bool :=
  busting = .contentHash && pattern.uses .version

structure Options where
  mode : Mode
  pattern : UrlPattern
  -- what makes the URL of a changed asset a new one
  busting : CacheBusting
  -- not by both means at once
  exclusive : conflicts pattern busting = false

/-- Why rewriting is refused or given up. -/
inductive Error where
  -- the stylesheet `referrer` refers to a module that is not known
  | moduleNotFound (name : Text) (referrer : Path)
  -- the pattern has a place for the version although content hashes are used
  | conflictingCacheBusting (pattern : UrlPattern)
deriving Repr, DecidableEq

def Error.message : Error → Text
  | moduleNotFound name referrer =>
    "can not find module: ".toList ++ name ++ " (referenced by ".toList ++ referrer.display
      ++ [')']
  | conflictingCacheBusting pattern =>
    "url pattern `".toList ++ pattern.source ++ "` uses ".toList ++ Placeholder.version.token
      ++ ", which conflicts with content-hash cache busting".toList

namespace Options

/-- Options made of their parts, unless these conflict. -/
def make (mode : Mode) (pattern : UrlPattern) (busting : CacheBusting) :
    Except Error Options :=
  if h : conflicts pattern busting = false then .ok ⟨mode, pattern, busting, h⟩
  else .error (.conflictingCacheBusting pattern)

/-- Production, the URL root of a build that sets none, and content hashes. -/
def standard : Options :=
  ⟨.production, UrlPattern.below UrlPattern.defaultRoot, .contentHash, by decide⟩

instance : Inhabited Options := ⟨standard⟩

/-- Whether digests go into paths. -/
def hashesContent (options : Options) : Bool :=
  options.mode = .production && options.busting = .contentHash

/-- With content hashes the pattern has no version. -/
theorem uses_version_eq_false {options : Options} (h : options.busting = .contentHash) :
    options.pattern.uses .version = false := by
  simpa [conflicts, h] using options.exclusive

/-- Exactly the combination of content hashes and versions is refused. -/
theorem make_isOk_iff (mode : Mode) (pattern : UrlPattern) (busting : CacheBusting) :
    (∃ options, make mode pattern busting = .ok options) ↔ conflicts pattern busting = false := by
  unfold make
  split <;> simp_all

end Options

end StylesheetBuild.Rewrite
