/-
The command line program.

It copies the places of the disk that matter, runs the command line on the copy, and carries the
changes over.  Stylesheets have to be plain CSS as it is to be published: they are compiled by
`Pipeline.Compiler.plain`, which gives them back as they are.
-/
import StylesheetBuild.Command.Places

open StylesheetBuild

namespace StylesheetBuild.Program

/-- The file name that a path stands for. -/
def fileName (path : Path) : String :=
  String.ofList path.display

/-- How deep trees are followed. -/
def depth : Nat := 64

/-- The disk with the tree that the given path leads to. -/
def copyTree : Nat → Disk → Path → IO Disk
  | 0, disk, _ => pure disk
  | fuel + 1, disk, path => do
    let file := (← IO.currentDir) / fileName path
    let location := path.location
    if ← file.isDir then
      (← file.readDir).foldlM
        (fun disk entry => copyTree fuel disk (path.join (.ofString entry.fileName)))
        (disk.withDirectories location)
    else if ← file.pathExists then
      pure (disk.withFile location (← IO.FS.readBinFile file).toList)
    else pure disk

/-- The disk with the trees that the given paths lead to, as seen from the working directory. -/
def copyTrees (workingDirectory : Path) (disk : Disk) (paths : List Path) : IO Disk :=
  (paths.filterMap (·.absolute? workingDirectory)).foldlM (copyTree depth) disk

def readVariables : IO Variables := do
  let bytes ← try IO.FS.readBinFile "/proc/self/environ" catch _ => pure ByteArray.empty
  pure (.ofEnvironment (Pieces.split 0 bytes.toList))

/-- What the program finds around it, as far as the arguments make it look there. -/
def surroundings (arguments : List Command.Argument) : IO Host := do
  let workingDirectory := Path.ofString (← IO.currentDir).toString
  let lookup ← readVariables
  let start := Disk.empty.withDirectories (workingDirectory.location)
  let bare : Host := ⟨start, workingDirectory, lookup⟩
  match Command.parse ((lookup Command.configVariable).map Utf8.encode) arguments with
  | .ok (.build request) => do
    let disk ← copyTrees workingDirectory start (Command.configFiles bare request)
    let configured := { bare with disk := disk }
    match Config.load configured request.config ⟨none, request.applicationRoot⟩ with
    | .ok config =>
      let disk ← copyTrees workingDirectory disk (Command.trees config request)
      pure { configured with disk := disk }
    | .error _ => pure configured
  | _ => pure bare

def carryOver (change : Location × List UInt8) : IO Unit := do
  let root ← IO.currentDir
  let file := root / fileName (Location.path change.1)
  if let some dir := file.parent then IO.FS.createDirAll dir
  IO.FS.writeBinFile file ⟨change.2.toArray⟩

end StylesheetBuild.Program

open StylesheetBuild.Program in
def main (arguments : List String) : IO UInt32 := do
  let arguments := arguments.map fun argument => argument.toUTF8.toList
  let host ← surroundings arguments
  let result := Command.run host .plain List.range arguments
  (result.host.disk.changedFrom host.disk).forM carryOver
  IO.print (String.ofList result.output)
  IO.eprint (String.ofList result.status)
  pure result.exit.toUInt32
