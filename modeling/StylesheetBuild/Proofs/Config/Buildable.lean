/-
Which configurations a build can use.

A configuration is checked when it is loaded, for the kind of build that it asks for itself.  Only
then may the settings of a call make it another kind of build, with another URL pattern.

* **`Assets.uses_version_iff`** — a URL pattern has a place for the version exactly if the setting
  that it is made from has one;
* **`rewriteOptions_isOk_iff`** — that is all that can be wrong with a checked configuration;
* **`validate_of_loadBase`** — what is loaded has been checked;
* **`load_builds_iff`** — so a loaded configuration can be used unless a call changes the kind of
  build to one whose pattern has a place for the version, against content hashes;
* **`load_unbuildable`** — which is possible both ways.
-/
import StylesheetBuild.Config.Load
import StylesheetBuild.Pipeline.Configured
import StylesheetBuild.Proofs.Config.Routes
import StylesheetBuild.Proofs.UrlPattern.Rendering

namespace StylesheetBuild

/-! ### Places for the version -/

namespace Config

open Rewrite (Mode)

/-- The setting that the URL pattern of a kind of build is made from. -/
def Assets.patternText (assets : Assets) : Mode → Text
  | .development => assets.root
  | .production => assets.productionPattern.getD (assets.productionRoot.getD assets.root)

/-- A URL pattern has a place for the version exactly if its setting has one. -/
theorem Assets.uses_version_iff (assets : Assets) (mode : Mode) :
    (assets.pattern mode).uses .version ↔
      Placeholder.version.token <:+: assets.patternText mode := by
  cases mode with
  | development => exact UrlPattern.uses_version_below_iff
  | production =>
    rw [pattern.eq_def, patternText]
    cases assets.productionPattern with
    | none => exact UrlPattern.uses_version_below_iff
    | some text => exact UrlPattern.uses_iff_infix

/-- There are options for rewriting unless content hashes meet a place for the version. -/
theorem rewriteOptions_isOk_iff (config : Config) :
    (∃ options, config.rewriteOptions = .ok options) ↔
      ¬ (config.assets.busting = .contentHash ∧
        Placeholder.version.token <:+: config.assets.patternText config.mode) := by
  have hmake : (∃ options, config.rewriteOptions = .ok options) ↔
      ∃ options, Rewrite.Options.make config.mode (config.assets.pattern config.mode)
        config.assets.busting = .ok options := by
    rw [rewriteOptions]
    cases Rewrite.Options.make config.mode (config.assets.pattern config.mode)
      config.assets.busting <;> simp
  rw [hmake, Rewrite.Options.make_isOk_iff, ← Assets.uses_version_iff, Rewrite.conflicts,
    Bool.and_eq_false_iff, decide_eq_false_iff_not, not_and_or, Bool.not_eq_true]

/-! ### Loading -/

/-- What is loaded has been checked. -/
theorem validate_of_loadBase {host : Host} {file : Option Path} {config : Config}
    (h : loadBase host file = .ok config) : config.validate = .ok () := by
  rcases loadBase_cases h with ⟨used, -, h⟩ | ⟨-, rfl⟩
  · obtain ⟨_, _, _, _, -, -, -, -, -, hvalid⟩ := exists_of_loadFile h
    exact hvalid
  · rfl

/-- **A loaded configuration can be used** for a build, unless a call makes it another kind of
build, whose URL pattern has a place for the version although content hashes are used.  For the
kind of build that it asks for itself, this has been refused when it was loaded. -/
theorem load_builds_iff {host : Host} {file : Option Path} {overrides : Overrides}
    {config : Config} (h : load host file overrides = .ok config) :
    ∃ base, loadBase host file = .ok base ∧ config = applyOverrides host overrides base ∧
      base.validate = .ok () ∧
      (base.assets.busting = .contentHash →
        ¬ Placeholder.version.token <:+: base.assets.patternText base.mode) ∧
      ((∃ settings, Pipeline.Settings.ofConfig config = .ok settings) ↔
        ∃ options, config.rewriteOptions = .ok options) ∧
      ((∃ options, config.rewriteOptions = .ok options) ↔
        ¬ (overrides.development = some (!base.development) ∧
          config.assets.busting = .contentHash ∧
          Placeholder.version.token <:+: config.assets.patternText config.mode)) := by
  rw [load] at h
  cases hbase : loadBase host file with
  | error error =>
    rw [hbase] at h
    exact absurd h (by simp [Except.map])
  | ok base =>
    rw [hbase] at h
    obtain rfl := Except.ok.inj h
    have hvalid := validate_of_loadBase hbase
    have hown : ¬ (base.assets.busting = .contentHash ∧
        Placeholder.version.token <:+: base.assets.patternText base.mode) :=
      (rewriteOptions_isOk_iff base).mp ((validate_isOk_iff base).mp hvalid).2
    refine ⟨base, rfl, rfl, hvalid, not_and.mp hown, Pipeline.Settings.ofConfig_isOk_iff _, ?_⟩
    rw [rewriteOptions_isOk_iff]
    by_cases hother : overrides.development = some (!base.development)
    · simp [hother]
    · -- the kind of build is the one that has been checked
      have hdevelopment : overrides.development.getD base.development = base.development := by
        cases hset : overrides.development with
        | none => rfl
        | some development =>
          rw [hset, Option.some_inj, Bool.eq_not] at hother
          simpa using hother
      have hmode : (applyOverrides host overrides base).mode = base.mode := by
        rw [mode, applyOverrides, hdevelopment]
        rfl
      rw [hmode]
      exact iff_of_true hown fun h => hother h.1

/-- A place for the version that comes from the environment, in a kind of build that is not made. -/
theorem load_builds_iff_expanded :
    let text := "development = true\n[assets]\nurl_prefix = '$\x7bCDN\x7d'\n"
    let host : Host :=
      ⟨Disk.empty.put ["assetline.toml".toUTF8.toList] (.file text.toUTF8.toList),
        Path.ofString "/", fun _ => some "//cdn/\x7bversion\x7d".toList⟩
    ∃ config, load host none .none = .ok config ∧ config.assets.busting = .contentHash ∧
      Placeholder.version.token <:+: config.assets.patternText .production ∧
      ∃ options, config.rewriteOptions = .ok options := by
  intro text host
  have hok : ((load host none .none).toOption.any fun config =>
      config.assets.busting = .contentHash &&
        decide (Placeholder.version.token <:+: config.assets.patternText .production)) = true := by
    decide +kernel
  cases hload : load host none .none with
  | error error =>
    rw [hload] at hok
    exact absurd hok (by simp [Except.toOption])
  | ok config =>
    rw [hload] at hok
    obtain ⟨base, -, -, -, -, -, hiff⟩ := load_builds_iff hload
    have hsettings : config.assets.busting = .contentHash ∧
        Placeholder.version.token <:+: config.assets.patternText .production := by
      simpa [Except.toOption] using hok
    exact ⟨config, rfl, hsettings.1, hsettings.2, hiff.mpr fun h => absurd h.1 nofun⟩

/-- A call that makes a configuration for production one for development, or the other way round,
may make it one that no build can use. -/
theorem load_unbuildable :
    let host (text : String) : Host :=
      ⟨Disk.empty.put ["assetline.toml".toUTF8.toList] (.file text.toUTF8.toList),
        Path.ofString "/", fun _ => none⟩
    let loaded (text : String) (kind : Option Bool) : Option Config :=
      (load (host text) none ⟨kind, none⟩).toOption
    let usable (config : Config) : Bool × Bool :=
      (config.rewriteOptions.toOption.isSome,
        (Pipeline.Settings.ofConfig config).toOption.isSome)
    let production :=
      "[assets]\nprefix = '/g/\x7bversion\x7d'\nurl_pattern = '//cdn/\x7bpath\x7d'\n"
    let development :=
      "development = true\n[assets]\nurl_pattern = '/\x7bversion\x7d/\x7bpath\x7d'\n"
    ((loaded production none).map usable = some (true, true) ∧
      (loaded production (some true)).map usable = some (false, false)) ∧
    ((loaded development none).map usable = some (true, true) ∧
      (loaded development (some false)).map usable = some (false, false)) := by
  intro host loaded usable production development
  refine ⟨⟨?_, ?_⟩, ?_, ?_⟩
  all_goals decide +kernel

end Config

end StylesheetBuild
