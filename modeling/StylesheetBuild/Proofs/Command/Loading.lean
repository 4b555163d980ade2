/-
Loading the files of a request.

* **`loadJob_cases`** — a file is loaded with the module that owns it and its content, or there is
  one of three reasons why it is not;
* **`mapM_loadJob_cases`** — the files of a request are all loaded, or the first one that is not
  loaded gives the reason;
* **`plan_of_files`** — with a configuration that is loaded, this decides whether there is a plan;
* **`plan_of_conflict`** — unless the settings of the configuration conflict.
-/
import Mathlib.Data.List.Forall2
import StylesheetBuild.Command.Build

namespace StylesheetBuild.Command

open Pipeline (Job)

variable {host : Host} {config : Config}

/-! ### One file -/

/-- A file is loaded as a stylesheet: under its absolute path, with the module that owns it and with
its content. -/
structure Loads (host : Host) (config : Config) (file : Path) (job : Job) : Prop where
  absolute : host.absolute file = .ok job.path
  owner : config.modules.owner? job.path = some job.owner
  source : host.readText job.path = .ok job.source

/-- Why a file is not loaded: it cannot be made absolute, no module owns it, or it cannot be
read. -/
inductive LoadFails (host : Host) (config : Config) (file : Path) : Error → Prop
  | relative {error : FileError} (h : host.absolute file = .error error) :
      LoadFails host config file (.file error)
  | unowned {path : Path} (h : host.absolute file = .ok path)
      (howner : config.modules.owner? path = none) : LoadFails host config file (.unowned path)
  | unreadable {path : Path} {owner : AssetModule} {error : FileError}
      (h : host.absolute file = .ok path) (howner : config.modules.owner? path = some owner)
      (hread : host.readText path = .error error) : LoadFails host config file (.file error)

theorem loadJob_cases (host : Host) (config : Config) (file : Path) :
    (∃ job, loadJob host config file = .ok job ∧ Loads host config file job) ∨
      ∃ error, loadJob host config file = .error error ∧ LoadFails host config file error := by
  cases hpath : host.absolute file with
  | error error =>
    refine .inr ⟨.file error, ?_, .relative hpath⟩
    rw [loadJob, hpath]
    rfl
  | ok path =>
    cases howner : config.modules.owner? path with
    | none =>
      refine .inr ⟨.unowned path, ?_, .unowned hpath howner⟩
      simp only [loadJob, hpath, howner, ofFile, bind, Except.bind]
    | some owner =>
      cases hsource : host.readText path with
      | error error =>
        refine .inr ⟨.file error, ?_, .unreadable hpath howner hsource⟩
        simp only [loadJob, hpath, howner, hsource, ofFile, bind, Except.bind]
      | ok source =>
        refine .inl ⟨⟨path, source, owner⟩, ?_, ⟨hpath, howner, hsource⟩⟩
        simp only [loadJob, hpath, howner, hsource, ofFile, bind, Except.bind]

theorem Loads.loadJob {file : Path} {job : Job} (h : Loads host config file job) :
    loadJob host config file = .ok job := by
  obtain ⟨path, source, owner⟩ := job
  obtain ⟨hpath, howner, hsource⟩ := h
  simp only at hpath howner hsource
  simp only [Command.loadJob, hpath, howner, hsource, ofFile, bind, Except.bind]

/-- What is loaded, is loaded as a stylesheet. -/
theorem loads_of_loadJob {file : Path} {job : Job} (h : loadJob host config file = .ok job) :
    Loads host config file job := by
  obtain ⟨job', hjob, hloads⟩ | ⟨error, herror, -⟩ := loadJob_cases host config file
  · obtain rfl := Except.ok.inj (h.symm.trans hjob)
    exact hloads
  · exact absurd (h.symm.trans herror) nofun

/-! ### All files -/

/-- All files are loaded, or the first one that is not gives the error. -/
theorem mapM_loadJob_cases (host : Host) (config : Config) (files : List Path) :
    (∃ jobs, files.mapM (loadJob host config) = .ok jobs ∧
      List.Forall₂ (Loads host config) files jobs) ∨
    ∃ before file after jobs error, files = before ++ file :: after ∧
      List.Forall₂ (Loads host config) before jobs ∧ LoadFails host config file error ∧
      files.mapM (loadJob host config) = .error error := by
  induction files with
  | nil => exact .inl ⟨[], rfl, .nil⟩
  | cons file rest ih =>
    rw [List.mapM_cons]
    obtain ⟨job, hjob, hloads⟩ | ⟨error, hjob, hfails⟩ := loadJob_cases host config file
    · rw [hjob]
      obtain ⟨jobs, hjobs, hall⟩ |
        ⟨before, other, after, jobs, error, rfl, hall, hfails, hjobs⟩ := ih
      · refine .inl ⟨job :: jobs, ?_, .cons hloads hall⟩
        rw [hjobs]
        rfl
      · refine .inr ⟨file :: before, other, after, job :: jobs, error, rfl, .cons hloads hall,
          hfails, ?_⟩
        rw [hjobs]
        rfl
    · refine .inr ⟨[], file, rest, [], error, rfl, .nil, hfails, ?_⟩
      rw [hjob]
      rfl

/-! ### Plans -/

/-- What a request sets in place of the configuration. -/
def overrides (request : BuildRequest) : Config.Overrides :=
  ⟨if request.development then some true else none, request.applicationRoot⟩

/-- What the builds of a request work with: they see the disk as it is when the request is made. -/
def environment (host : Host) (compiler : Pipeline.Compiler) (config : Config)
    (settings : Pipeline.Settings) : Pipeline.Environment :=
  ⟨compiler, settings, config.modules.get?, host.assetFiles⟩

/-- There is no plan with settings that conflict. -/
theorem plan_of_conflict (compiler : Pipeline.Compiler) {request : BuildRequest}
    {error : Config.Error}
    (hconfig : Config.load host request.config (overrides request) = .ok config)
    (hsettings : Pipeline.Settings.ofConfig config = .error error) :
    plan host compiler request = .error (.config error) := by
  rw [overrides] at hconfig
  simp only [plan, hconfig, hsettings, ofConfig, bind, Except.bind]

theorem plan_of_files (compiler : Pipeline.Compiler) {request : BuildRequest}
    {settings : Pipeline.Settings}
    (hconfig : Config.load host request.config (overrides request) = .ok config)
    (hsettings : Pipeline.Settings.ofConfig config = .ok settings) :
    plan host compiler request =
      match request.files.mapM (loadJob host config) with
      | .ok jobs => .ok ⟨environment host compiler config settings, jobs⟩
      | .error error => .error error := by
  rw [overrides] at hconfig
  simp only [plan, hconfig, hsettings, ofConfig, bind, Except.bind]
  cases request.files.mapM (loadJob host config) <;> rfl

end StylesheetBuild.Command
