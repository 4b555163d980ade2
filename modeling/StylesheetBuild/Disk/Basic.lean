/-
A disk and the paths that lead through it.

A disk is a tree of directories and files, given by the locations of its entries.  Paths are
followed step by step: each step needs a directory, `..` leads up only from a directory that
exists, and a slash or a `.` behind a file leads nowhere.  Names and paths that are too long lead
nowhere either, whatever there is.

Links from one place to another and permissions are left out: every entry has one location, and
may be looked at, read and changed.

* **`find?_put`**: what was put at a location is found there.
* **`walk_append`**: a path is followed one part after the other.
-/
import StylesheetBuild.Files.Basic
import StylesheetBuild.Path.Location

namespace StylesheetBuild

inductive Entry where
  | directory
  | file (content : List UInt8)
deriving Repr, DecidableEq

/-- The entries of a disk other than its root.  Of several entries for one location the first
counts. -/
structure Disk where
  entries : List (Location × Entry)
deriving Repr

namespace Disk

/-- The disk with nothing but a root. -/
def empty : Disk := ⟨[]⟩

def find? (disk : Disk) (location : Location) : Option Entry :=
  if location = [] then some .directory
  else (disk.entries.find? fun e => e.1 = location).map (·.2)

/-- The disk with the given entry at a location. -/
def put (disk : Disk) (location : Location) (entry : Entry) : Disk :=
  ⟨(location, entry) :: disk.entries⟩

/-- What was put at a location is found there. -/
theorem find?_put (disk : Disk) {location : Location} (entry : Entry) (h : location ≠ []) :
    (disk.put location entry).find? location = some entry := by
  simp [find?, put, h]

theorem find?_put_of_ne (disk : Disk) {location other : Location} (entry : Entry)
    (h : other ≠ location) : (disk.put location entry).find? other = disk.find? other := by
  simp [find?, put, Ne.symm h]

/-! ### Following a path -/

/-- The greatest number of bytes of a name. -/
def nameLimit : Nat := 255

/-- The number of bytes that a path stays below. -/
def pathLimit : Nat := 4096

/-- The location of the entry `name` in a directory. -/
def enter (disk : Disk) (location : Location) (name : List UInt8) : Except FileError Location :=
  if nameLimit < name.length then .error .nameTooLong
  else match disk.find? (location ++ [name]) with
  | some _ => .ok (location ++ [name])
  | none => .error .noEntry

/-- The location that one piece of a path leads to. -/
def step (disk : Disk) (location : Location) (segment : List UInt8) :
    Except FileError Location :=
  match disk.find? location with
  | none => .error .noEntry
  | some (.file _) => .error .notDirectory
  | some .directory =>
    match Path.Component.ofSegment? segment with
    | some .parent => .ok location.dropLast
    | some (.name name) => disk.enter location name
    | _ => .ok location

/-- The location that the pieces of a path lead to. -/
def walk (disk : Disk) (location : Location) (segments : List (List UInt8)) :
    Except FileError Location :=
  segments.foldlM disk.step location

theorem walk_append (disk : Disk) (location : Location) (first second : List (List UInt8)) :
    disk.walk location (first ++ second) =
      disk.walk location first >>= fun middle => disk.walk middle second := by
  simp [walk, List.foldlM_append]

/-- Refuses paths that no file can have. -/
def checkPath (path : Path) : Except FileError Unit :=
  if path.bytes.contains 0 then .error .zeroByte
  else if path.bytes = [] then .error .noEntry
  else if pathLimit ≤ path.bytes.length then .error .nameTooLong
  else .ok ()

/-- Where the pieces of a path start, as seen from the directory `here`. -/
def origin (here : Location) (path : Path) : Location :=
  if path.isAbsolute then [] else here

/-- The location that a path leads to, as seen from the directory `here`. -/
def locate (disk : Disk) (here : Location) (path : Path) : Except FileError Location := do
  checkPath path
  disk.walk (origin here path) path.segments

/-! ### Looking -/

/-- Whether a path leads anywhere. -/
def holds (disk : Disk) (here : Location) (path : Path) : Bool :=
  (disk.locate here path).isOk

/-- Whether a path leads to a directory. -/
def holdsDirectory (disk : Disk) (here : Location) (path : Path) : Bool :=
  match disk.locate here path with
  | .ok location => disk.find? location = some .directory
  | .error _ => false

/-- The content of the file that a path leads to. -/
def read (disk : Disk) (here : Location) (path : Path) : Except FileError (List UInt8) := do
  let location ← disk.locate here path
  match disk.find? location with
  | some (.file content) => .ok content
  | some .directory => .error .isDirectory
  | none => .error .noEntry

/-- The content of the file that a path leads to, as a text. -/
def readText (disk : Disk) (here : Location) (path : Path) : Except FileError Text := do
  match Utf8.decode? (← disk.read here path) with
  | some text => .ok text
  | none => .error .notText

/-- The files of a disk, as seen from the directory `here`. -/
def assetFiles (disk : Disk) (here : Location) : AssetFiles where
  holds := disk.holds here
  read := disk.read here

end Disk

end StylesheetBuild
