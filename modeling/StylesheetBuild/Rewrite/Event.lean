/-
What is worth noting while references are rewritten.
-/
import StylesheetBuild.Files.Basic
import StylesheetBuild.Log.Record

namespace StylesheetBuild.Rewrite

/-- Something worth noting while references are rewritten. -/
inductive Event where
  | resolved (name path : Text)
  | missing (file source : Path)
  | unhashed (file : Path) (error : FileError)
deriving Repr, DecidableEq

def Event.record : Event → Log.Record
  | resolved name path =>
    ⟨.debug, "resolved cross-module reference".toList,
      [("module".toList, name), ("path".toList, path)]⟩
  | missing file source =>
    ⟨.warn, "resource not exists: ".toList ++ file.display ++ ", reference by ".toList
      ++ source.display, []⟩
  | unhashed file error =>
    ⟨.warn, "failed to hash ".toList ++ file.display ++ ": ".toList ++ error.message, []⟩

end StylesheetBuild.Rewrite
