/-
Asset files as rewriting sees them.
-/
import StylesheetBuild.Path.Basic

namespace StylesheetBuild

inductive FileError where
  | noEntry
  -- a directory was needed where there is something else
  | notDirectory
  -- a file was needed where there is a directory
  | isDirectory
  -- there is already something of that name
  | alreadyExists
  -- a name is longer than a directory can hold
  | nameTooLong
  | zeroByte
  -- text was needed where there is something else
  | notText
  -- the path is empty where a file has to be named
  | emptyPath
  | notInMemory (path : Path)
  | unreadable (reason : Text)
deriving Repr, DecidableEq

namespace FileError

/-- The class that an error belongs to. -/
def kind : FileError → Text
  | noEntry | notInMemory _ => "entity not found".toList
  | notDirectory => "not a directory".toList
  | isDirectory => "is a directory".toList
  | alreadyExists => "entity already exists".toList
  | nameTooLong => "invalid filename".toList
  | zeroByte | emptyPath => "invalid input parameter".toList
  | notText => "invalid data".toList
  | unreadable _ => "other error".toList

def message : FileError → Text
  | noEntry => "No such file or directory (os error 2)".toList
  | notDirectory => "Not a directory (os error 20)".toList
  | isDirectory => "Is a directory (os error 21)".toList
  | alreadyExists => "File exists (os error 17)".toList
  | nameTooLong => "File name too long (os error 36)".toList
  | zeroByte => "file name contained an unexpected NUL byte".toList
  | notText => "stream did not contain valid UTF-8".toList
  | emptyPath => "cannot make an empty path absolute".toList
  | notInMemory path => "file not found: ".toList ++ path.display
  | unreadable reason => reason

end FileError

/-- Operations one after another succeed if each of them does. -/
theorem exists_of_bind_eq_ok {ε α β : Type} {first : Except ε α} {next : α → Except ε β} {b : β}
    (h : (first >>= next) = .ok b) : ∃ a, first = .ok a ∧ next a = .ok b := by
  cases first with
  | error error => exact absurd h (by simp [bind, Except.bind])
  | ok a => exact ⟨a, rfl, h⟩

/-- The files that references can point at: which paths exist, and what reading one gives. -/
structure AssetFiles where
  -- whether there is something at a path
  holds : Path → Bool
  read : Path → Except FileError (List UInt8)

namespace AssetFiles

/-- The entry for a path among files in memory, whose paths are told apart by their components. -/
def lookup (files : List (Path × Except FileError (List UInt8))) (path : Path) :
    Option (Except FileError (List UInt8)) :=
  (files.find? fun file => file.1.same path).map (·.2)

/-- Files in memory, each with its content or the reason why it cannot be read. -/
def ofMemory (files : List (Path × Except FileError (List UInt8))) : AssetFiles where
  holds path := (lookup files path).isSome
  read path := (lookup files path).getD (.error (.notInMemory path))

end AssetFiles

end StylesheetBuild
