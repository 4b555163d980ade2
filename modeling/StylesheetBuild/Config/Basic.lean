/-
The configuration of a build.

* **`validate_isOk_iff`**: when a configuration is valid.
-/
import StylesheetBuild.Files.Basic
import StylesheetBuild.Module.Registry
import StylesheetBuild.Rewrite.Options

namespace StylesheetBuild

/-- Where the URLs of assets lie. -/
structure Config.Assets where
  -- the URL root in development, and in production where nothing else is set
  root : Text
  productionRoot : Option Text
  productionPattern : Option Text
  -- what makes the URL of a changed asset a new one
  busting : Rewrite.CacheBusting
deriving Repr, DecidableEq

/-- What the compiler is told in every build. -/
structure Config.Compiler where
  -- the directories in which included stylesheets are looked for first
  paths : List Path
  -- whether to compress the output, if that is set
  compress : Option Bool
  -- whether to ask for a source map, if that is set
  sourceMap : Option Bool
deriving Repr, DecidableEq

structure Config where
  development : Bool
  -- whether the directive `ignore` counts
  legacyIgnore : Bool
  assets : Config.Assets
  applicationRoot : Path
  compiler : Config.Compiler
  modules : Registry
  -- the file that the configuration was read from, if there was one
  file : Option Path

namespace Config

inductive Defect where
  -- the setting of the given name is empty
  | emptySetting (name : Text)
  -- the production pattern has no place for the path of the asset
  | patternWithoutPath (pattern : Text)
  | rewriting (error : Rewrite.Error)
deriving Repr, DecidableEq

def Defect.message : Defect → Text
  | emptySetting name => name ++ " cannot be empty".toList
  | patternWithoutPath pattern =>
    "assets.url_pattern `".toList ++ pattern ++ "` must contain ".toList ++ Placeholder.path.token
  | rewriting error => error.message

inductive Error where
  -- the file that was asked for does not exist
  | notFound (file : Path)
  | unreadable (error : FileError)
  -- the file is no document of settings
  | parse
  | invalid (defect : Defect)
  -- the setting `field` depends on the variable `name`, which is not set
  | unsetVariable (field name : Text)
deriving Repr, DecidableEq

/-- What is said about an error.  Of a file that is no document of settings, it is not said where
and why reading it failed. -/
def Error.message : Error → Text
  | notFound file => "Configuration file not found: ".toList ++ file.display
  | unreadable error => "I/O error: ".toList ++ error.message
  | parse => "TOML parse error".toList
  | invalid defect => "Configuration error: ".toList ++ defect.message
  | unsetVariable field name =>
    "Environment variable error in ".toList ++ field ++ ": $".toList ++ ['\x7b'] ++ name
      ++ ['\x7d'] ++ " not set".toList

/-- Where the URLs of assets lie when nothing is set. -/
def Assets.standard : Assets :=
  ⟨UrlPattern.defaultRoot, none, none, .contentHash⟩

/-- The configuration of a build in which nothing is set. -/
def standard (applicationRoot : Path) : Config where
  development := false
  legacyIgnore := true
  assets := .standard
  applicationRoot := applicationRoot
  compiler := ⟨[], none, none⟩
  modules := .empty
  file := none

def mode (config : Config) : Rewrite.Mode :=
  if config.development then .development else .production

/-- The URL pattern for builds of a kind: in production the pattern that is set, else the one
below the production root, else as in development. -/
def Assets.pattern (assets : Assets) : Rewrite.Mode → UrlPattern
  | .development => .below assets.root
  | .production =>
    match assets.productionPattern with
    | some pattern => ⟨pattern⟩
    | none => .below (assets.productionRoot.getD assets.root)

/-- How references are rewritten, unless the settings for that conflict. -/
def rewriteOptions (config : Config) : Except Error Rewrite.Options :=
  match Rewrite.Options.make config.mode (config.assets.pattern config.mode)
      config.assets.busting with
  | .ok options => .ok options
  | .error error => .error (.invalid (.rewriting error))

/-- Refuses an empty setting. -/
def requireSetting (name value : Text) : Except Error Unit :=
  if value = [] then .error (.invalid (.emptySetting name)) else .ok ()

/-- Refuses settings that give assets no URL of their own. -/
def Assets.validate (assets : Assets) : Except Error Unit := do
  requireSetting "assets.prefix".toList assets.root
  match assets.productionRoot with
  | some root => requireSetting "assets.url_prefix".toList root
  | none => pure ()
  match assets.productionPattern with
  | some pattern =>
    if UrlPattern.uses ⟨pattern⟩ .path then pure ()
    else .error (.invalid (.patternWithoutPath pattern))
  | none => pure ()

/-- Refuses a configuration that references cannot be rewritten with. -/
def validate (config : Config) : Except Error Unit := do
  config.assets.validate
  discard config.rewriteOptions

/-- A valid configuration has valid asset settings and options for rewriting. -/
theorem validate_isOk_iff (config : Config) :
    config.validate = .ok () ↔
      config.assets.validate = .ok () ∧ ∃ options, config.rewriteOptions = .ok options := by
  unfold validate
  cases config.assets.validate with
  | error e => simp [bind, Except.bind]
  | ok u =>
    cases config.rewriteOptions with
    | error e => simp [bind, Except.bind, discard, Functor.discard, Functor.mapConst, Except.map]
    | ok options =>
      simp [bind, Except.bind, discard, Functor.discard, Functor.mapConst, Except.map]

end Config

end StylesheetBuild
