/-
The modules of a loaded configuration.

* **`exists_placeModule_of_load`** — each one comes from settings in a configuration file;
* **`root_ne_nil_of_load`** — so its root is written somehow, if only as a dot;
* **`exists_loadFile_eq_ok`** — a configuration file with such settings is loaded.
-/
import StylesheetBuild.Proofs.Config.Routes
import StylesheetBuild.Proofs.Module.History
import StylesheetBuild.Proofs.Module.Ownership

namespace StylesheetBuild

/-! ### Results -/

/-- What is collected from a list comes from its members one by one. -/
theorem forall₂_of_mapM {ε α β : Type} {f : α → Except ε β} {xs : List α} {ys : List β}
    (h : xs.mapM f = .ok ys) : List.Forall₂ (fun x y => f x = .ok y) xs ys := by
  induction xs generalizing ys with
  | nil =>
    obtain rfl := Except.ok.inj h
    exact .nil
  | cons x rest ih =>
    rw [List.mapM_cons] at h
    obtain ⟨first, hfirst, h⟩ := exists_of_bind_eq_ok h
    obtain ⟨others, hothers, h⟩ := exists_of_bind_eq_ok h
    obtain rfl := Except.ok.inj h
    exact .cons hfirst (ih hothers)

theorem exists_of_mem_of_forall₂ {α β : Type} {R : α → β → Prop} {xs : List α} {ys : List β}
    (h : List.Forall₂ R xs ys) {y : β} (hy : y ∈ ys) : ∃ x ∈ xs, R x y := by
  obtain ⟨⟨i, hi⟩, rfl⟩ := List.get_of_mem hy
  have hx : i < xs.length := h.length_eq ▸ hi
  exact ⟨xs.get ⟨i, hx⟩, List.get_mem xs ⟨i, hx⟩, h.get hx hi⟩

theorem exists_of_toOption_any {ε α : Type} {result : Except ε α} {p : α → Bool}
    (h : result.toOption.any p) : ∃ a, result = .ok a ∧ p a := by
  cases result with
  | error error => exact absurd h Bool.false_ne_true
  | ok a => exact ⟨a, rfl, h⟩

/-! ### Names and roots -/

theorem Path.join_ne_nil {q : Path} (h : q.bytes ≠ []) (p : Path) : (p.join q).bytes ≠ [] := by
  rw [join]
  split_ifs
  · exact h
  · exact List.append_ne_nil_of_right_ne_nil _ h
  · exact List.append_ne_nil_of_right_ne_nil _ (List.cons_ne_nil _ _)

theorem Utf8.encode_ne_nil {text : Text} (h : text ≠ []) : encode text ≠ [] :=
  fun hnil => h (encode_injective (hnil : encode text = encode []))

/-! ### Loading -/

namespace Config

/-- Each module of a loaded configuration comes from settings in a file. -/
theorem exists_placeModule_of_load {host : Host} {file : Option Path} {overrides : Overrides}
    {config : Config} (h : load host file overrides = .ok config) {m : AssetModule}
    (hm : m ∈ config.modules.modules) :
    ∃ dir name settings, placeModule dir name settings = .ok m := by
  obtain ⟨base, hbase, rfl⟩ := exists_of_load h
  replace hm : m ∈ base.modules.modules := hm
  rcases loadBase_cases hbase with ⟨used, -, hfile⟩ | ⟨-, rfl⟩
  · obtain ⟨_, document, assets, dir, -, -, -, -, hplaced, -⟩ := exists_of_loadFile hfile
    obtain ⟨registry, hregistry, hplaced⟩ := exists_of_bind_eq_ok hplaced
    obtain rfl := Except.ok.inj hplaced
    obtain ⟨modules, hmodules, hregistry⟩ := exists_of_bind_eq_ok hregistry
    obtain rfl := Except.ok.inj hregistry
    obtain ⟨⟨name, settings⟩, -, hplace⟩ :=
      exists_of_mem_of_forall₂ (forall₂_of_mapM hmodules) (Registry.mem_of_mem_ofList hm)
    exact ⟨dir, name, settings, hplace⟩
  · -- where there is no file there are no modules
    exact absurd hm List.not_mem_nil

/-- The root of a module is written somehow. -/
theorem root_ne_nil_of_load {host : Host} {file : Option Path} {overrides : Overrides}
    {config : Config} (h : load host file overrides = .ok config) {m : AssetModule}
    (hm : m ∈ config.modules.modules) : m.root.bytes ≠ [] := by
  obtain ⟨dir, name, settings, hplace⟩ := exists_placeModule_of_load h hm
  obtain ⟨⟨⟩, hrequired, hplace⟩ := exists_of_bind_eq_ok hplace
  obtain rfl := Except.ok.inj hplace
  have hpath : settings.path ≠ [] := by
    intro hnil
    rw [requireSetting, if_pos hnil] at hrequired
    exact absurd hrequired nofun
  exact Path.join_ne_nil (Utf8.encode_ne_nil hpath) dir

/-- Modules that a document gives in the order of their names are placed in that order. -/
theorem placeModules_of_pairwise {modules : List (Text × ModuleSettings)}
    (h : modules.Pairwise fun a b => !(b.1 < a.1)) (dir : Path) :
    placeModules dir modules =
      (modules.mapM fun (name, settings) => placeModule dir name settings).map Registry.ofList := by
  rw [placeModules, List.mergeSort_of_pairwise h]
  rfl

/-- A configuration is loaded if each step succeeds. -/
theorem exists_loadFile_eq_ok {host : Host} {file dir : Path} {text : Text} {document : Document}
    {assets : Assets} {modules : List AssetModule} (htext : host.readText file = .ok text)
    (hdocument : Document.read? text = some document)
    (hassets : document.assets.expand host.lookup = .ok assets)
    (hdir : host.absolute (directoryOf file) = .ok dir)
    (hsorted : document.modules.Pairwise fun a b => !(b.1 < a.1))
    (hmodules : (document.modules.mapM fun (name, settings) => placeModule dir name settings) =
      .ok modules)
    (hvalid : ({ document with assets := assets }.unplaced dir).validate = .ok ()) :
    ∃ config, loadFile host file = .ok config ∧ config.modules = Registry.ofList modules := by
  have hplaced : placeModules dir document.modules = .ok (Registry.ofList modules) := by
    rw [placeModules_of_pairwise hsorted, hmodules]
    rfl
  obtain ⟨config, hplace, hregistry, hconfig⟩ : ∃ config,
      place file dir { document with assets := assets } = .ok config ∧
        config.modules = Registry.ofList modules ∧ config.validate = .ok () := by
    rw [place, hplaced]
    exact ⟨_, rfl, rfl, hvalid⟩
  refine ⟨config, ?_, hregistry⟩
  simp only [loadFile, htext, hdocument, hassets, hdir, hplace, hconfig, ofFile, bind, Except.bind]

end Config

end StylesheetBuild
