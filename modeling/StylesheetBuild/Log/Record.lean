/-
Log records.
-/
import StylesheetBuild.Text.Basic

namespace StylesheetBuild.Log

inductive Level where
  | debug
  | info
  | warn
deriving Repr, DecidableEq

def Level.name : Level → Text
  | debug => "DEBUG".toList
  | info => "INFO".toList
  | warn => "WARN".toList

structure Record where
  level : Level
  message : Text
  fields : List (Text × Text)
deriving Repr, DecidableEq

end StylesheetBuild.Log
