/-
Targets: what the argument of a reference points at.

* **`classify_eq_external_iff`**, **`classify_eq_inModule`**, **`classify_eq_relative`**: the three
  cases, each read off the argument.
-/
import StylesheetBuild.Text.Basic

namespace StylesheetBuild

/-- What the argument of a reference points at. -/
inductive Target where
  -- an absolute URL or inline data, which stays as it is
  | external
  -- a path in the assets of the module called `name`
  | inModule (name path : Text)
  -- a path that starts at the directory of the stylesheet
  | relative (path : Text)
deriving Repr, DecidableEq

namespace Target

open Text (isWordChar)

/-- Whether `raw` starts with a word, a colon and a slash. -/
def hasSchemeRoot (raw : Text) : Bool :=
  raw.takeWhile isWordChar != [] && [':', '/'].isPrefixOf (raw.dropWhile isWordChar)

/-- Whether `raw` starts with a slash, with a scheme and a slash, or with `data:`. -/
def isExternal (raw : Text) : Bool :=
  ['/'].isPrefixOf raw || hasSchemeRoot raw || ['d', 'a', 't', 'a', ':'].isPrefixOf raw

/-- The part of `raw` in front of its first colon and the part behind it, where neither is empty
and the second has no line feed. -/
def qualified? (raw : Text) : Option (Text × Text) :=
  match raw.takeWhile (· != ':'), raw.dropWhile (· != ':') with
  | name, _ :: path =>
    if name = [] || path = [] || path.contains '\n' then none else some (name, path)
  | _, [] => none

def classify (raw : Text) : Target :=
  if isExternal raw then .external
  else match qualified? raw with
  | some (name, path) => .inModule name path
  | none => .relative raw

theorem classify_eq_external_iff {raw : Text} : classify raw = .external ↔ isExternal raw := by
  unfold classify
  split
  · simp_all
  · split <;> simp_all

theorem classify_eq_inModule {raw name path : Text} (h : classify raw = .inModule name path) :
    qualified? raw = some (name, path) := by
  unfold classify at h
  split at h
  · simp at h
  · split at h
    · simp_all
    · simp at h

theorem classify_eq_relative {raw path : Text} (h : classify raw = .relative path) :
    path = raw := by
  unfold classify at h
  split at h
  · simp at h
  · split at h <;> simp_all

end Target

end StylesheetBuild
