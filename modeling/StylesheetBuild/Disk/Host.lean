/-
What a program finds around it: a disk, the directory that it works in, and the environment.
-/
import StylesheetBuild.Disk.Write

namespace StylesheetBuild

/-- The values of environment variables, by their names. -/
abbrev Variables := Text → Option Text

/-- The variables of an environment, whose entries are written `NAME=VALUE`, as bytes.  The value
of a name is what follows it and an equals sign in the first entry that begins so, if that is a
text; a name that is asked for may have equals signs of its own. -/
def Variables.ofEnvironment (entries : List (List UInt8)) : Variables := fun name =>
  let front := Utf8.encode (name ++ ['='])
  (entries.find? front.isPrefixOf).bind fun entry => Utf8.decode? (entry.drop front.length)

/-- What a program finds around it. -/
structure Host where
  disk : Disk
  -- the directory that relative paths start from, as an absolute path
  workingDirectory : Path
  lookup : Variables

namespace Host

/-- The host of a program that works in the directory that a path leads to, which is made if it is
not there.  The program knows the directory by its location, however the path was written. -/
def start (disk : Disk) (directory : Path) (lookup : Variables) : Host :=
  let (disk, _) := disk.makeDirectories [] directory
  match disk.locate [] directory with
  | .ok location => ⟨disk, location.path, lookup⟩
  | .error _ => ⟨disk, directory.location.path, lookup⟩

def here (host : Host) : Location :=
  host.workingDirectory.location

/-- Whether a path leads anywhere. -/
def holds (host : Host) (path : Path) : Bool :=
  host.disk.holds host.here path

/-- The content of the file that a path leads to, as a text. -/
def readText (host : Host) (path : Path) : Except FileError Text :=
  host.disk.readText host.here path

/-- The files that references can point at. -/
def assetFiles (host : Host) : AssetFiles :=
  host.disk.assetFiles host.here

/-- A path as seen from the root, or why there is none. -/
def absolute (host : Host) (path : Path) : Except FileError Path :=
  match path.absolute? host.workingDirectory with
  | some path => .ok path
  | none => .error .emptyPath

/-- The host after a file has been given a new content, together with directories above it. -/
def save (host : Host) (path : Path) (content : List UInt8) : Host × Except FileError Unit :=
  let (disk, result) := host.disk.save host.here path content
  ({ host with disk := disk }, result)

end Host

end StylesheetBuild
