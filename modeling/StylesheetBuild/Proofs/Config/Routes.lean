/-
How a loaded configuration came about.

It was read from the file that was asked for, or from the nearest one, or it is the standard one;
then the settings of the call were put in.

* **`exists_of_load`**, **`loadBase_cases`** — the routes on which a configuration is loaded;
* **`exists_of_loadFile`** — what has been done when it was read from a file.
-/
import Mathlib.Tactic.SplitIfs
import StylesheetBuild.Config.Load

namespace StylesheetBuild.Config

variable {host : Host} {config : Config}

/-- The settings of a call are put in last. -/
theorem exists_of_load {file : Option Path} {overrides : Overrides}
    (h : load host file overrides = .ok config) :
    ∃ base, loadBase host file = .ok base ∧ config = applyOverrides host overrides base := by
  cases hbase : loadBase host file with
  | error error =>
    rw [load, hbase] at h
    exact absurd h (by simp [Except.map])
  | ok base =>
    rw [load, hbase] at h
    exact ⟨base, rfl, (Except.ok.inj h).symm⟩

/-- A configuration comes from the file that was asked for or that was found, or else it is the
standard one. -/
theorem loadBase_cases {file : Option Path} (h : loadBase host file = .ok config) :
    (∃ used, file.or (discover? host) = some used ∧ loadFile host used = .ok config) ∨
      file.or (discover? host) = none ∧ config = standard host.workingDirectory := by
  cases file with
  | some file =>
    rw [loadBase] at h
    split_ifs at h
    exact .inl ⟨file, rfl, h⟩
  | none =>
    rw [loadBase] at h
    cases hfile : discover? host with
    | some file =>
      rw [hfile] at h
      exact .inl ⟨file, rfl, h⟩
    | none =>
      rw [hfile] at h
      exact .inr ⟨rfl, (Except.ok.inj h).symm⟩

theorem eq_ok_of_ofFile {α : Type} {result : Except FileError α} {a : α}
    (h : ofFile result = .ok a) : result = .ok a := by
  cases result with
  | ok b => exact congrArg Except.ok (Except.ok.inj h)
  | error error => exact absurd h nofun

/-- What has been done when a configuration was read from a file. -/
theorem exists_of_loadFile {file : Path} (h : loadFile host file = .ok config) :
    ∃ text document assets dir, host.readText file = .ok text ∧
      Document.read? text = some document ∧ document.assets.expand host.lookup = .ok assets ∧
      host.absolute (directoryOf file) = .ok dir ∧
      place file dir { document with assets := assets } = .ok config ∧
      config.validate = .ok () := by
  obtain ⟨text, htext, h⟩ := exists_of_bind_eq_ok h
  cases hdocument : Document.read? text with
  | none =>
    rw [hdocument] at h
    exact absurd h nofun
  | some document =>
    rw [hdocument] at h
    obtain ⟨document, hread, h⟩ := exists_of_bind_eq_ok h
    obtain rfl := Except.ok.inj hread
    obtain ⟨assets, hassets, h⟩ := exists_of_bind_eq_ok h
    obtain ⟨dir, hdir, h⟩ := exists_of_bind_eq_ok h
    obtain ⟨placed, hplaced, h⟩ := exists_of_bind_eq_ok h
    obtain ⟨⟨⟩, hvalid, h⟩ := exists_of_bind_eq_ok h
    obtain rfl := Except.ok.inj h
    exact ⟨text, document, assets, dir, eq_ok_of_ofFile htext, hdocument, hassets,
      eq_ok_of_ofFile hdir, hplaced, hvalid⟩

end StylesheetBuild.Config
