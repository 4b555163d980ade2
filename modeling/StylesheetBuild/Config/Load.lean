/-
Loading a configuration.

The configuration is read from the file that is asked for, or else from the nearest one found in
the working directory and above it; where there is none, nothing is set.  Relative paths in a
file start from its directory.
-/
import StylesheetBuild.Config.Document
import StylesheetBuild.Config.Expansion
import StylesheetBuild.Disk.Host

namespace StylesheetBuild.Config

/-- Settings that take precedence over those of a file. -/
structure Overrides where
  -- whether the build is for local work, if that is set
  development : Option Bool
  -- the root directory of the application, if it is set
  applicationRoot : Option Path

/-- No settings that take precedence. -/
def Overrides.none : Overrides := ⟨.none, .none⟩

def fileName : Path := Path.ofString "assetline.toml"

/-- The setting `field` with its variables replaced. -/
def expandSetting (lookup : Variables) (field : Text) (value : Text) : Except Error Text :=
  match expand lookup value with
  | .ok value => .ok value
  | .error name => .error (.unsetVariable field name)

/-- A setting that may be missing, with its variables replaced. -/
def expandOptional (lookup : Variables) (field : Text) :
    Option Text → Except Error (Option Text)
  | none => .ok none
  | some value => (expandSetting lookup field value).map some

/-- The settings for the URLs of assets with their variables replaced. -/
def Assets.expand (lookup : Variables) (assets : Assets) : Except Error Assets := do
  let root ← expandSetting lookup "assets.prefix".toList assets.root
  let productionRoot ←
    expandOptional lookup "assets.url_prefix".toList assets.productionRoot
  let productionPattern ←
    expandOptional lookup "assets.url_pattern".toList assets.productionPattern
  .ok { assets with
    root := root, productionRoot := productionRoot, productionPattern := productionPattern }

/-- The module that settings in a file of the directory `dir` describe; its root has to be set. -/
def placeModule (dir : Path) (name : Text) (settings : ModuleSettings) :
    Except Error AssetModule := do
  requireSetting ("modules.".toList ++ name ++ ".path".toList) settings.path
  .ok ⟨name, settings.version, dir.join (.ofText settings.path), .ofText settings.assetsRoot⟩

/-- The modules that settings in a file of the directory `dir` describe, in the order of their
names. -/
def placeModules (dir : Path) (modules : List (Text × ModuleSettings)) :
    Except Error Registry := do
  let sorted := modules.mergeSort fun a b => !(b.1 < a.1)
  let placed ← sorted.mapM fun (name, settings) => placeModule dir name settings
  .ok (Registry.ofList placed)

/-- The configuration that a document gives in the file `file` of the directory `dir`. -/
def place (file dir : Path) (document : Document) : Except Error Config := do
  let modules ← placeModules dir document.modules
  .ok {
    development := document.development
    legacyIgnore := document.legacyIgnore
    assets := document.assets
    applicationRoot := match document.applicationRoot with
      | some root => dir.join (.ofText root)
      | none => dir
    compiler := {
      paths := document.compiler.paths.map fun path => dir.join (.ofText path)
      compress := document.compiler.compress
      sourceMap := document.compiler.sourceMap }
    modules := modules
    file := some file }

/-- The directory of a file as a path of its own: `.` for a bare file name. -/
def directoryOf (file : Path) : Path :=
  match file.parent? with
  | some dir => if dir.bytes = [] then .ofString "." else dir
  | none => .ofString "."

/-- The result of a file operation as part of loading a configuration. -/
def ofFile {α : Type} : Except FileError α → Except Error α
  | .ok a => .ok a
  | .error error => .error (.unreadable error)

def loadFile (host : Host) (file : Path) : Except Error Config := do
  let text ← ofFile (host.readText file)
  let document ← match Document.read? text with
    | some document => .ok document
    | none => .error .parse
  let assets ← document.assets.expand host.lookup
  let dir ← ofFile (host.absolute (directoryOf file))
  let config ← place file dir { document with assets := assets }
  config.validate
  .ok config

/-- The configuration file in the nearest directory that has one, from the working directory
upwards. -/
def discover? (host : Host) : Option Path :=
  (host.workingDirectory.ancestors.map (·.join fileName)).find? host.holds

/-- A configuration with the settings that take precedence. -/
def applyOverrides (host : Host) (overrides : Overrides) (config : Config) : Config :=
  { config with
    development := overrides.development.getD config.development
    applicationRoot := match overrides.applicationRoot with
      | some root => (root.absolute? host.workingDirectory).getD root
      | none => config.applicationRoot }

/-- The configuration before other settings take precedence. -/
def loadBase (host : Host) (file : Option Path) : Except Error Config :=
  match file with
  | some file => if host.holds file then loadFile host file else .error (.notFound file)
  | none =>
    match discover? host with
    | some file => loadFile host file
    | none => .ok (standard host.workingDirectory)

/-- The configuration in `file`, or else in the nearest file. -/
def load (host : Host) (file : Option Path) (overrides : Overrides) : Except Error Config :=
  (loadBase host file).map (applyOverrides host overrides)

end StylesheetBuild.Config
