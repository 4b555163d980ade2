/-
Configuration documents.

A document is a table of settings; settings that it does not know are ignored.  A group of
settings may also be given as an array of their values in a fixed order, whose end may be missing
where there are defaults.  Values that no setting asks for in such an array are not looked at.
-/
import StylesheetBuild.Config.Basic
import StylesheetBuild.Toml.Document

namespace StylesheetBuild.Config

/-- What a document says about a module. -/
structure ModuleSettings where
  path : Text
  version : Option Text
  -- the directory of the assets as seen from the root
  assetsRoot : Text
deriving Repr, DecidableEq

/-- What a document says about the compiler. -/
structure CompilerSettings where
  -- the directories in which included stylesheets are looked for first
  paths : List Text
  -- whether to compress the output, if that is set
  compress : Option Bool
  -- whether to ask for a source map, if that is set
  sourceMap : Option Bool
deriving Repr, DecidableEq

structure Document where
  development : Bool
  -- whether the directive `ignore` counts
  legacyIgnore : Bool
  assets : Assets
  -- the root directory of the application, if it is set
  applicationRoot : Option Text
  compiler : CompilerSettings
  modules : List (Text × ModuleSettings)
deriving Repr, DecidableEq

namespace Document

open Toml (Value)

/-! ### Settings -/

/-- The values of a group of settings, in the given order of their names. -/
structure Group where
  -- the value of each setting, if it is there
  values : List (Option Value)
  -- whether the values were given without their names
  positional : Bool

/-- The entries of a table in the order of `names`; entries of other names have to be
representable. -/
def ofEntries? (names : List Text) (entries : List (Text × Value)) :
    Option (List (Option Value)) :=
  if (entries.filter fun entry => !names.contains entry.1).all (·.2.isRepresentable) then
    some (names.map fun name => (entries.find? (·.1 = name)).map (·.2))
  else none

/-- A group of settings, as a table or as an array.  A date or a time is a group in which nothing
is set. -/
def group? (names : List Text) : Value → Option Group
  | .table entries => (ofEntries? names entries).map (⟨·, false⟩)
  | .moment => some ⟨names.map fun _ => none, false⟩
  | .array values => some ⟨(values.map some ++ names.map fun _ => none).take names.length, true⟩
  | _ => none

def text? : Value → Option Text
  | .string text => some text
  | _ => none

def boolean? : Value → Option Bool
  | .boolean b => some b
  | _ => none

def texts? : Value → Option (List Text)
  | .array values => values.mapM text?
  | _ => none

/-- The means to make the URL of a changed asset a new one, by name. -/
def bustingOfName? (name : Text) : Option Rewrite.CacheBusting :=
  if name = "content-hash".toList then some .contentHash
  else if name = "version".toList then some .version
  else none

/-- The means to make the URL of a changed asset a new one: a name, or a table with the name as
its only key and nothing in it. -/
def busting? : Value → Option Rewrite.CacheBusting
  | .string name => bustingOfName? name
  | .table [(name, .table [])] => bustingOfName? name
  | .table [(name, .array [])] => bustingOfName? name
  | _ => none

/-- The value of a setting that may be missing. -/
def setting? {α : Type} (read? : Value → Option α) : Option Value → Option (Option α)
  | none => some none
  | some value => (read? value).map some

/-! ### Groups of settings -/

/-- The settings for the URLs of assets. -/
def assets? (value : Value) : Option Assets := do
  let group ← group? ["prefix".toList, "url_prefix".toList, "url_pattern".toList,
    "cache_busting".toList] value
  match group.values with
  | [root, productionRoot, productionPattern, busting] => do
    let root ← setting? text? root
    let productionRoot ← setting? text? productionRoot
    let productionPattern ← setting? text? productionPattern
    let busting ← setting? busting? busting
    some ⟨root.getD Assets.standard.root, productionRoot, productionPattern,
      busting.getD Assets.standard.busting⟩
  | _ => none

def compiler? (value : Value) : Option CompilerSettings := do
  let group ← group? ["paths".toList, "compress".toList, "source_map".toList] value
  match group.values with
  | [paths, compress, sourceMap] => do
    let paths ← setting? texts? paths
    let compress ← setting? boolean? compress
    let sourceMap ← setting? boolean? sourceMap
    some ⟨paths.getD [], compress, sourceMap⟩
  | _ => none

/-- The settings for a module; in an array the version may not be missing. -/
def module? (value : Value) : Option ModuleSettings := do
  let group ← group? ["path".toList, "version".toList, "assets_root".toList] value
  match group.values with
  | [some path, version, assetsRoot] => do
    let path ← text? path
    let version ← setting? text? version
    let assetsRoot ← setting? text? assetsRoot
    if group.positional && version.isNone then none
    else some ⟨path, version, assetsRoot.getD []⟩
  | _ => none

def modules? : Value → Option (List (Text × ModuleSettings))
  | .table entries => entries.mapM fun (name, value) => (module? value).map (name, ·)
  | _ => none

/-- What the entries of a document say. -/
def ofTable? (entries : List (Text × Value)) : Option Document := do
  let values ← ofEntries? ["development".toList, "legacy_ignore".toList, "assets".toList,
    "application_root".toList, "compiler".toList, "modules".toList] entries
  match values with
  | [development, legacyIgnore, assets, applicationRoot, compiler, modules] => do
    let development ← setting? boolean? development
    let legacyIgnore ← setting? boolean? legacyIgnore
    let assets ← setting? assets? assets
    let applicationRoot ← setting? text? applicationRoot
    let compiler ← setting? compiler? compiler
    let modules ← setting? modules? modules
    some ⟨development.getD false, legacyIgnore.getD true, assets.getD .standard, applicationRoot,
      compiler.getD ⟨[], none, none⟩, modules.getD []⟩
  | _ => none

def read? (text : Text) : Option Document := do
  ofTable? (← Toml.read? text)

/-- The configuration that a document gives on its own: with the given root directory of the
application, and without the settings that depend on where the document lies. -/
def unplaced (document : Document) (applicationRoot : Path) : Config :=
  { standard applicationRoot with
    development := document.development
    legacyIgnore := document.legacyIgnore
    assets := document.assets }

end Document

end StylesheetBuild.Config
