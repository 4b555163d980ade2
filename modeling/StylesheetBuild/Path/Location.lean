/-
Locations: where absolute paths lead as far as their text tells.

Names lead down, `..` leads up and stays at the root, and fillers lead nowhere.

* **`enter_append`**: components lead on from where those before them led.
-/
import StylesheetBuild.Path.Basic

namespace StylesheetBuild

/-- A place in a tree of directories: the names that lead there from the root. -/
abbrev Location := List (List UInt8)

namespace Location

/-- Where a component leads from a location. -/
def step (location : Location) : Path.Component → Location
  | .root => []
  | .current => location
  | .parent => location.dropLast
  | .name name => location ++ [name]

/-- Where components lead from a location. -/
def enter (location : Location) (components : List Path.Component) : Location :=
  components.foldl step location

/-- Components lead on from where those before them led. -/
theorem enter_append (location : Location) (first second : List Path.Component) :
    location.enter (first ++ second) = (location.enter first).enter second := by
  simp [enter]

def path (location : Location) : Path :=
  if location = [] then ⟨[Path.slash]⟩ else ⟨location.flatMap fun name => Path.slash :: name⟩

end Location

/-- Where an absolute path leads as far as its text tells. -/
def Path.location (p : Path) : Location :=
  Location.enter [] p.components

end StylesheetBuild
