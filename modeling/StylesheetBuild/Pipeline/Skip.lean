/-
Stylesheets that are not built on their own.
-/
import StylesheetBuild.Directive.Basic
import StylesheetBuild.Path.Basic

namespace StylesheetBuild.Pipeline

/-- Why a stylesheet is not built on its own. -/
inductive SkipReason where
  -- its name starts with an underscore: it is there for others to include
  | partialName
  -- its directive `compile` says `false`
  | compileDisabled
  -- its directive `ignore` is on
  | legacyIgnore
deriving Repr, DecidableEq

def SkipReason.message : SkipReason → Text
  | partialName => "partial (name starts with `_`)".toList
  | compileDisabled => "disabled by `@compile`".toList
  | legacyIgnore => "disabled by `ignore`".toList

/-- Whether the file name of a path is a text that starts with an underscore. -/
def isPartial (path : Path) : Bool :=
  (path.fileName?.bind Utf8.decode?).any fun name => name.head? = some '_'

/-- Why the stylesheet `source` at `path` is not built on its own, if so. -/
def skipReason? (legacyIgnore : Bool) (path : Path) (source : Text) : Option SkipReason :=
  if isPartial path then some .partialName
  else if (Directive.read source "compile".toList).any (·.hasValue "false".toList) then
    some .compileDisabled
  else if legacyIgnore && (Directive.read source "ignore".toList).any (·.isTruthy) then
    some .legacyIgnore
  else none

end StylesheetBuild.Pipeline
