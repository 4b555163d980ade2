/-
The settings of a build that a configuration gives.

* **`ofConfig_isOk_iff`**: there are settings exactly if there are options for rewriting.
-/
import StylesheetBuild.Config.Basic
import StylesheetBuild.Pipeline.Basic

namespace StylesheetBuild.Pipeline

/-- The settings of a build with the given configuration. -/
def Settings.ofConfig (config : Config) : Except Config.Error Settings :=
  config.rewriteOptions.map fun rewrite => {
    development := config.development
    applicationRoot := config.applicationRoot
    includePaths := config.compiler.paths
    compress := config.compiler.compress
    sourceMap := config.compiler.sourceMap
    legacyIgnore := config.legacyIgnore
    rewrite := rewrite }

/-- There are settings exactly if there are options for rewriting. -/
theorem Settings.ofConfig_isOk_iff (config : Config) :
    (∃ settings, Settings.ofConfig config = .ok settings) ↔
      ∃ options, config.rewriteOptions = .ok options := by
  unfold Settings.ofConfig
  cases config.rewriteOptions <;> simp [Except.map]

end StylesheetBuild.Pipeline
