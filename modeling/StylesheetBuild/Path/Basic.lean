/-
Paths.

A path is a list of bytes, kept as it was written.  Its components are what it means: the root,
`.` at the very beginning of a relative path, `..`, and names.  Repeated slashes, slashes at the
end and all other `.` are fillers without a meaning.

Operations that cut a path work on its text and leave the inner fillers alone; comparisons go by
components.

* **`components_nil`**: the empty path has no component.
* **`startsWith_iff`**: one path starts with another when its components do.
-/
import StylesheetBuild.Text.Utf8

namespace StylesheetBuild

/-- A path, as it was written. -/
structure Path where
  bytes : List UInt8
deriving Repr, DecidableEq, Inhabited

namespace Path

/-- The byte that separates components. -/
def slash : UInt8 := 0x2F

/-- The byte that starts an extension and makes up `.` and `..`. -/
def dot : UInt8 := 0x2E

inductive Component where
  | root
  -- the current directory, at the beginning of a relative path
  | current
  | parent
  | name (bytes : List UInt8)
deriving Repr, DecidableEq

def Component.bytes : Component → List UInt8
  | root => [slash]
  | current => [dot]
  | parent => [dot, dot]
  | name bytes => bytes

def ofText (text : Text) : Path :=
  ⟨Utf8.encode text⟩

def ofString (s : String) : Path :=
  ofText s.toList

def empty : Path := ⟨[]⟩

/-- The path as a text, with U+FFFD for each ill-formed unit. -/
def display (p : Path) : Text :=
  Utf8.decodeLossy p.bytes

/-! ### Components -/

/-- The component in front of the body of a path, and the body. -/
def cut (p : Path) : Option Component × List UInt8 :=
  match p.bytes with
  | [] => (none, [])
  | a :: rest =>
    if a = slash then (some .root, rest)
    else if a = dot && (rest = [] || rest.head? = some slash) then (some .current, rest)
    else (none, a :: rest)

/-- The pieces of the body between slashes. -/
def segments (p : Path) : List (List UInt8) :=
  Pieces.split slash p.cut.2

/-- The component that a piece of the body stands for, if it is not a filler. -/
def Component.ofSegment? (segment : List UInt8) : Option Component :=
  if segment = [] || segment = [dot] then none
  else if segment = [dot, dot] then some .parent
  else some (.name segment)

/-- Whether a piece of the body has no meaning. -/
def isFiller (segment : List UInt8) : Bool :=
  (Component.ofSegment? segment).isNone

def components (p : Path) : List Component :=
  p.cut.1.toList ++ p.segments.filterMap Component.ofSegment?

theorem components_nil : empty.components = [] := by decide

/-- Whether two paths have the same components. -/
def same (p q : Path) : Bool :=
  p.components = q.components

/-- Whether a path starts at the root. -/
def isAbsolute (p : Path) : Bool :=
  p.bytes.head? = some slash

/-! ### Putting together and cutting -/

/-- `q` as seen from the directory `p`. -/
def join (p q : Path) : Path :=
  if q.isAbsolute || p.bytes = [] then q
  else if p.bytes.getLast? = some slash then ⟨p.bytes ++ q.bytes⟩
  else ⟨p.bytes ++ slash :: q.bytes⟩

/-- The path with the given component in front of the pieces of its body. -/
def ofParts (front : Option Component) (segments : List (List UInt8)) : Path :=
  ⟨(front.elim [] Component.bytes) ++ Pieces.join slash segments⟩

/-- The pieces of the body from the last one that is not a filler back to the first. -/
def segmentsFromEnd (p : Path) : List (List UInt8) :=
  p.segments.reverse.dropWhile isFiller

/-- The path without its last component; neither the empty path nor the root has one. -/
def parent? (p : Path) : Option Path :=
  match p.segmentsFromEnd with
  | _ :: before => some (ofParts p.cut.1 (before.dropWhile isFiller).reverse)
  | [] => if p.cut.1 = some .current then some empty else none

/-- The last component, if it is a name. -/
def fileName? (p : Path) : Option (List UInt8) :=
  match p.segmentsFromEnd.head?.bind Component.ofSegment? with
  | some (.name bytes) => some bytes
  | _ => none

/-- A file name without its extension, which is what follows its last dot; a dot at the very
beginning starts no extension. -/
def stem (name : List UInt8) : List UInt8 :=
  match name.reverse.dropWhile (· != dot) with
  | _ :: before => if before = [] then name else before.reverse
  | [] => name

/-- The path with the extension of its file name replaced or added; a path without a file name
stays as it is. -/
def withExtension (p : Path) (extension : List UInt8) : Path :=
  match p.fileName?, p.segmentsFromEnd with
  | some name, _ :: before =>
    ofParts p.cut.1 ((stem name ++ dot :: extension) :: before).reverse
  | _, _ => p

/-- A path and the paths above it, at most `count` of them, the nearest first. -/
def ancestorsWithin : Nat → Path → List Path
  | 0, p => [p]
  | count + 1, p =>
    match p.parent? with
    | some parent => p :: ancestorsWithin count parent
    | none => [p]

/-- A path and the paths above it, the nearest first. -/
def ancestors (p : Path) : List Path :=
  ancestorsWithin p.bytes.length p

/-! ### Paths inside directories -/

/-- Whether the components of `p` begin with those of `base`. -/
def startsWith (p base : Path) : Bool :=
  base.components.isPrefixOf p.components

theorem startsWith_iff {p base : Path} :
    p.startsWith base ↔ base.components <+: p.components := by
  simp [startsWith]

/-- The pieces behind the first `count` ones that are not fillers. -/
def dropComponents : Nat → List (List UInt8) → List (List UInt8)
  | _, [] => []
  | 0, segments => segments
  | count + 1, segment :: rest =>
    if isFiller segment then dropComponents (count + 1) rest else dropComponents count rest

/-- What follows the components of `base` in `p`, without the fillers around it. -/
def below? (p base : Path) : Option Path :=
  if p.startsWith base then
    match base.components.length with
    | 0 => some (ofParts p.cut.1 p.segmentsFromEnd.reverse)
    | count =>
      let rest := (dropComponents (count - p.cut.1.toList.length) p.segments).dropWhile isFiller
      some (ofParts none (rest.reverse.dropWhile isFiller).reverse)
  else none

/-! ### Absolute paths -/

/-- Whether a path starts with exactly two slashes. -/
def hasDoubleRoot (p : Path) : Bool :=
  [slash, slash].isPrefixOf p.bytes && !([slash, slash, slash].isPrefixOf p.bytes)

/-- The path as seen from the root, without fillers; a slash at the end stays, and so do exactly
two slashes at the beginning.  The empty path has none. -/
def absolute? (p workingDirectory : Path) : Option Path :=
  if p.bytes = [] then none
  else
    let base := if !p.isAbsolute then workingDirectory
      else if p.hasDoubleRoot then ⟨[slash, slash]⟩ else ⟨[slash]⟩
    let steps := p.components.filter fun c => c != .root && c != .current
    let joined := steps.foldl (fun path step => path.join ⟨step.bytes⟩) base
    some (if p.bytes.getLast? = some slash then joined.join empty else joined)

end Path

end StylesheetBuild
