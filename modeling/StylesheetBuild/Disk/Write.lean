/-
Changing a disk: making directories, and writing files.

A change that fails half-way leaves what was made before it.
-/
import StylesheetBuild.Disk.Basic

namespace StylesheetBuild.Disk

/-- The last piece of a path and the location of the directory that it is looked up in; slashes at
the end count only if `keepSlash` is set. -/
def place (disk : Disk) (here : Location) (path : Path) (keepSlash : Bool) :
    Except FileError (Location × List UInt8) := do
  checkPath path
  let fromEnd :=
    if keepSlash then path.segments.reverse else path.segments.reverse.dropWhile (· = [])
  match fromEnd with
  | [] => .ok (origin here path, [])
  | last :: before => do
    let location ← disk.walk (origin here path) before.reverse
    match disk.find? location with
    | some .directory => .ok (location, last)
    | some (.file _) => .error .notDirectory
    | none => .error .noEntry

/-- Makes the directory that a path leads to; the one above has to exist. -/
def makeDirectory (disk : Disk) (here : Location) (path : Path) : Except FileError Disk := do
  let (location, last) ← disk.place here path false
  match Path.Component.ofSegment? last with
  | some (.name name) =>
    match disk.enter location name with
    | .ok _ => .error .alreadyExists
    | .error .noEntry => .ok (disk.put (location ++ [name]) .directory)
    | .error error => .error error
  | _ => .error .alreadyExists

/-- Makes directories one after another, the outermost first, and goes on where there is one
already. -/
def makeEach (disk : Disk) (here : Location) : List Path → Disk × Except FileError Unit
  | [] => (disk, .ok ())
  | path :: rest =>
    match disk.makeDirectory here path with
    | .ok disk => makeEach disk here rest
    | .error error =>
      if error = .alreadyExists && disk.holdsDirectory here path then makeEach disk here rest
      else (disk, .error error)

/-- Makes the first of the given directories that can be made, and then those inside it; each one
lies in the one behind it. -/
def makeFrom (disk : Disk) (here : Location) (inner : List Path) :
    List Path → Disk × Except FileError Unit
  | [] => disk.makeEach here inner
  | path :: outer =>
    if path.bytes = [] || path.parent?.isNone then disk.makeEach here inner
    else match disk.makeDirectory here path with
    | .ok disk => disk.makeEach here inner
    | .error .noEntry => makeFrom disk here (path :: inner) outer
    | .error error =>
      if error = .alreadyExists && disk.holdsDirectory here path then disk.makeEach here inner
      else (disk, .error error)

/-- Makes the directory that a path leads to, and those above it that do not exist. -/
def makeDirectories (disk : Disk) (here : Location) (path : Path) :
    Disk × Except FileError Unit :=
  disk.makeFrom here [] path.ancestors

/-- Gives the file that a path leads to a new content; the directory above has to exist. -/
def write (disk : Disk) (here : Location) (path : Path) (content : List UInt8) :
    Except FileError Disk := do
  let (location, last) ← disk.place here path true
  match Path.Component.ofSegment? last with
  | some (.name name) =>
    if nameLimit < name.length then .error .nameTooLong
    else if disk.find? (location ++ [name]) = some .directory then .error .isDirectory
    else .ok (disk.put (location ++ [name]) (.file content))
  | _ => .error .isDirectory

/-- Makes the directory above the file that a path leads to, and gives the file a new content. -/
def save (disk : Disk) (here : Location) (path : Path) (content : List UInt8) :
    Disk × Except FileError Unit :=
  let (disk, made) := match path.parent? with
    | some parent => disk.makeDirectories here parent
    | none => (disk, .ok ())
  match made with
  | .error error => (disk, .error error)
  | .ok () =>
    match disk.write here path content with
    | .error error => (disk, .error error)
    | .ok disk => (disk, .ok ())

/-! ### Making up a disk -/

/-- The disk with directories at a location and above it. -/
def withDirectories (disk : Disk) (location : Location) : Disk :=
  (List.range location.length).foldl (fun disk length =>
    let above := location.take (length + 1)
    if (disk.find? above).isNone then disk.put above .directory else disk) disk

/-- The disk with a file at a location, and directories above it. -/
def withFile (disk : Disk) (location : Location) (content : List UInt8) : Disk :=
  (disk.withDirectories location.dropLast).put location (.file content)

/-- The files of `disk` that `before` has not or has with another content. -/
def changedFrom (disk before : Disk) : List (Location × List UInt8) :=
  (disk.entries.map (·.1)).eraseDups.filterMap fun location =>
    match disk.find? location with
    | some (.file content) =>
      if before.find? location = some (.file content) then none else some (location, content)
    | _ => none

end StylesheetBuild.Disk
