/-
Modules: the units of the asset tree.
-/
import StylesheetBuild.Path.Basic

namespace StylesheetBuild

/-- A part of the asset tree with a name of its own. -/
structure AssetModule where
  -- the name, by which other modules refer to it and which its URLs contain
  name : Text
  version : Option Text
  root : Path
  -- the directory of the assets as seen from the root; empty for the root itself
  assetsRoot : Path
deriving Repr, DecidableEq

namespace AssetModule

/-- The directory that the module's asset paths start from. -/
def assetDir (m : AssetModule) : Path :=
  if m.assetsRoot.bytes = [] then m.root else m.root.join m.assetsRoot

/-- The name of the directory in which dependencies are installed. -/
def dependencyDirName : Path := Path.ofString "node_modules"

/-- The directory of the module's own dependencies. -/
def dependencyDir (m : AssetModule) : Path :=
  m.root.join dependencyDirName

end AssetModule

end StylesheetBuild
