/-
Rewriting the references of a stylesheet.

Each reference to an asset becomes a URL; the text between the references stays as it is.  An
unknown module fails the stylesheet as a whole, a missing asset does not.

* **`rewrite_of_scan_eq_nil`**: a stylesheet without references stays as it is.
-/
import StylesheetBuild.Digest.Basic
import StylesheetBuild.Module.Basic
import StylesheetBuild.Path.Relative
import StylesheetBuild.Reference.Scan
import StylesheetBuild.Reference.Target
import StylesheetBuild.Rewrite.Event
import StylesheetBuild.Rewrite.Options

namespace StylesheetBuild.Rewrite

/-- What the references of one stylesheet depend on. -/
structure Context where
  -- the module that the stylesheet belongs to
  owner : AssetModule
  source : Path
  resolve : Text → Option AssetModule
  -- the files that references can point at
  files : AssetFiles
  options : Options

/-- A reference to a file that does not exist. -/
structure MissingAsset where
  reference : Text
  file : Path
deriving Repr, DecidableEq

structure Rewritten where
  -- the text that takes the place of the argument
  url : Text
  -- the file that does not exist, if that is so
  missing : Option MissingAsset
  events : List Event

/-- A reference path in front of its first `?` or `#`, and from there on. -/
def splitSuffix (path : Text) : Text × Text :=
  let isMark := fun c => c = '?' || c = '#'
  (path.takeWhile (!isMark ·), path.dropWhile (!isMark ·))

/-- The directory of the stylesheet as seen from its module's assets. -/
def Context.sourceDir (context : Context) : Text :=
  RelativePath.directory context.owner.assetDir context.source

/-- The file of an asset path in a module. -/
def assetFile (owner : AssetModule) (path : Text) : Path :=
  owner.assetDir.join (Path.ofText (path.dropWhile (· = '/')))

/-- An asset path with the digest of the file's content, if digests are wanted and the file can be
read. -/
def withDigest (context : Context) (file : Path) (path : Text) : Text × List Event :=
  if context.options.hashesContent then
    match context.files.read file with
    | .ok bytes => (Digest.insert path (Digest.content bytes), [])
    | .error error => (path, [.unhashed file error])
  else (path, [])

/-- The URL of the asset `path` of `owner`, for a reference written `raw`. -/
def rewritePath (context : Context) (raw : Text) (owner : AssetModule) (path : Text) :
    Rewritten :=
  let (path, suffix) := splitSuffix path
  let file := assetFile owner path
  let url := fun path => context.options.pattern.render owner.name owner.version (path ++ suffix)
  if context.files.holds file then
    let (path, events) := withDigest context file path
    ⟨url path, none, events⟩
  else ⟨url path, some ⟨raw, file⟩, [.missing file context.source]⟩

/-- What becomes of a reference written `raw`. -/
def rewriteReference (context : Context) (raw : Text) : Except Error Rewritten :=
  match Target.classify raw with
  | .external => .ok ⟨raw, none, []⟩
  | .inModule name path =>
    match context.resolve name with
    | none => .error (.moduleNotFound name context.source)
    | some owner =>
      let rewritten := rewritePath context raw owner path
      .ok { rewritten with events := .resolved name path :: rewritten.events }
  | .relative path =>
    let (path, suffix) := splitSuffix path
    let joined := RelativePath.join context.sourceDir path
    .ok (rewritePath context raw context.owner (joined ++ suffix))

/-! ### Gaps -/

/-- The text between the references of a stylesheet, from the character at `position` on: in
front of each reference, and behind the last one. -/
def gapsFrom (position : Nat) (css : Text) : List Reference → List Text
  | [] => [css]
  | r :: rest =>
    css.take (r.start - position) ::
      gapsFrom r.finish (css.drop (r.finish - position)) rest

/-- Gaps with a text put between each two. -/
def interleave : List Text → List Text → Text
  | gap :: gaps, text :: texts => gap ++ text ++ interleave gaps texts
  | gap :: _, [] => gap
  | [], _ => []

/-! ### Stylesheets -/

structure Stylesheet where
  css : Text
  -- the references to files that do not exist, in order
  missing : List MissingAsset

/-- What becomes of references one after another, up to the first that fails, and what was worth
noting until then. -/
def rewriteReferences (context : Context) :
    List Reference → List Event × Except Error (List Rewritten)
  | [] => ([], .ok [])
  | r :: rest =>
    match rewriteReference context r.argument with
    | .error error => ([], .error error)
    | .ok rewritten =>
      let (events, others) := rewriteReferences context rest
      (rewritten.events ++ events, others.map (rewritten :: ·))

/-- The stylesheet `css` with all its references rewritten, and what was worth noting. -/
def rewrite (context : Context) (css : Text) : List Event × Except Error Stylesheet :=
  let references := Reference.scan css
  let (events, rewritten) := rewriteReferences context references
  (events, rewritten.map fun rewritten =>
    ⟨interleave (gapsFrom 0 css references) (rewritten.map (·.url)),
      rewritten.filterMap (·.missing)⟩)

/-- A stylesheet without references stays as it is. -/
theorem rewrite_of_scan_eq_nil (context : Context) {css : Text} (h : Reference.scan css = []) :
    rewrite context css = ([], .ok ⟨css, []⟩) := by
  rw [rewrite, h]
  rfl

end StylesheetBuild.Rewrite
