/-
The places of a disk that one use of the command line looks at.

A program that runs on a copy of a disk has to copy these places: first the configuration files,
and then what the configuration found there leads to.
-/
import StylesheetBuild.Command.Run

namespace StylesheetBuild.Command

/-- The configuration files that may be looked at: the one that is named, or one in each directory
from the working directory upwards. -/
def configFiles (host : Host) (request : BuildRequest) : List Path :=
  match request.config with
  | some file => [file]
  | none => host.workingDirectory.ancestors.map (·.join Config.fileName)

/-- The trees that may be looked at once the configuration is loaded: those of the modules, of the
files to build and of the output directory. -/
def trees (config : Config) (request : BuildRequest) : List Path :=
  config.modules.modules.flatMap (fun m => [m.root, m.assetDir]) ++ request.files ++
    request.outDir.toList

end StylesheetBuild.Command
