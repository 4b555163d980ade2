/-
Building one stylesheet: it is skipped, or compiled and its references rewritten.

* **`build_calls`**: the compiler is called once for a stylesheet that is not skipped.
-/
import StylesheetBuild.Pipeline.Compiler
import StylesheetBuild.Rewrite.Basic

namespace StylesheetBuild.Pipeline

/-- What all stylesheets of a build have in common. -/
structure Settings where
  development : Bool
  applicationRoot : Path
  -- the directories in which included stylesheets are looked for first
  includePaths : List Path
  -- whether to compress the output; in production unless it is set
  compress : Option Bool
  -- whether to ask for a source map; in development unless it is set
  sourceMap : Option Bool
  -- whether the directive `ignore` counts
  legacyIgnore : Bool
  rewrite : Rewrite.Options

/-- What the compiler is told for the stylesheet at `path`, which belongs to `owner`. -/
def Settings.compileOptions (settings : Settings) (path : Path) (owner : AssetModule) :
    CompileOptions where
  filename := path
  paths := settings.includePaths ++
    [owner.root, owner.dependencyDir, settings.applicationRoot,
     settings.applicationRoot.join AssetModule.dependencyDirName]
  compress := settings.compress.getD !settings.development
  sourceMap := settings.sourceMap.getD settings.development

/-- What a build works with besides its stylesheets. -/
structure Environment where
  compiler : Compiler
  settings : Settings
  resolve : Text → Option AssetModule
  -- the files that references can point at
  files : AssetFiles

structure Job where
  path : Path
  source : Text
  owner : AssetModule

inductive Error where
  | compile (error : CompileError)
  | rewrite (error : Rewrite.Error)
deriving Repr, DecidableEq

def Error.message : Error → Text
  | compile error => error.message
  | rewrite error => error.message

/-- What became of a stylesheet that was not in error. -/
inductive Outcome where
  -- it is not built on its own
  | skipped (reason : SkipReason)
  | compiled (css : Text)
deriving Repr, DecidableEq

/-- One use of the compiler. -/
structure Call where
  source : Text
  options : CompileOptions
deriving Repr, DecidableEq

structure Run where
  -- the uses of the compiler, in order
  calls : List Call
  events : List Event
  result : Except Error Outcome

/-- What rewriting the references of a stylesheet depends on. -/
def Environment.rewriteContext (env : Environment) (job : Job) : Rewrite.Context where
  owner := job.owner
  source := job.path
  resolve := env.resolve
  files := env.files
  options := env.settings.rewrite

/-- What remains to be done with the CSS of a stylesheet. -/
def finish (env : Environment) (job : Job) (css : Text) : List Event × Except Error Outcome :=
  let (events, rewritten) := Rewrite.rewrite (env.rewriteContext job) css
  match rewritten with
  | .error error => (events.map .rewriting, .error (.rewrite error))
  | .ok stylesheet =>
    let note := if stylesheet.missing = [] then []
      else [.missingAssets job.path stylesheet.missing.length]
    (events.map .rewriting ++ note, .ok (.compiled stylesheet.css))

def build (env : Environment) (job : Job) : Run :=
  match skipReason? env.settings.legacyIgnore job.path job.source with
  | some reason => ⟨[], [.skipping job.path reason], .ok (.skipped reason)⟩
  | none =>
    let options := env.settings.compileOptions job.path job.owner
    let (compilerEvents, compiled) := env.compiler job.source options
    let started := [.building job.path job.owner.name, .compileOptions options] ++ compilerEvents
    match compiled with
    | .error error => ⟨[⟨job.source, options⟩], started, .error (.compile error)⟩
    | .ok css =>
      let (events, result) := finish env job css
      ⟨[⟨job.source, options⟩], started ++ events, result⟩

/-- The compiler is called once for a stylesheet that is not skipped. -/
theorem build_calls {env : Environment} {job : Job}
    (h : skipReason? env.settings.legacyIgnore job.path job.source = none) :
    (build env job).calls =
      [⟨job.source, env.settings.compileOptions job.path job.owner⟩] := by
  unfold build
  simp only [h]
  split <;> rfl

end StylesheetBuild.Pipeline
