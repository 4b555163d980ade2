/-
Where the paths of a loaded configuration lie.

Every path of a configuration starts at the root, on whichever route it was loaded.  A relative one
in a configuration file starts in the directory of that file, wherever the program works; one that
is given in a call starts in the directory that the program works in.

* **`isDirectoryOf_of_absolute`** — what the paths in a file are joined to is the directory of that
  file, also for a bare file name;
* **`Document.nodup_modules`** — a document names a module once;
* **`registers_of_placeModules`** — each module that it names is registered, with what it says;
* **`load_places`** — so it is known for every path of a loaded configuration where it lies.
-/
import StylesheetBuild.Proofs.Config.Modules
import StylesheetBuild.Proofs.Disk.Reading
import StylesheetBuild.Proofs.Path.Based
import StylesheetBuild.Proofs.Toml.DistinctKeys

namespace StylesheetBuild.Config

open StylesheetBuild.Path (BasedOn IsDirectoryOf)

variable {host : Host} {config : Config} {dir : Path}

/-! ### The directory of a configuration file -/

/-- A dot means the same as nothing at all. -/
theorem basedOn_directoryOf {here file : Path} (h : BasedOn here (directoryOf file) dir) :
    BasedOn here (file.parent?.getD .empty) dir := by
  have hdot : BasedOn here (.ofString ".") dir → BasedOn here .empty dir := fun h =>
    ⟨h.isAbsolute, nofun, fun _ => h.of_relative rfl⟩
  rw [directoryOf] at h
  cases hparent : file.parent? with
  | none =>
    rw [hparent] at h
    exact hdot h
  | some parent =>
    rw [hparent] at h
    dsimp only at h
    split_ifs at h with hempty
    · obtain rfl : parent = .empty := congrArg Path.mk hempty
      exact hdot h
    · exact h

/-- What the paths in a file are joined to is the directory of that file. -/
theorem isDirectoryOf_of_absolute {file : Path} {text : Text}
    (hhost : host.workingDirectory.isAbsolute) (htext : host.readText file = .ok text)
    (h : host.absolute (directoryOf file) = .ok dir) :
    IsDirectoryOf host.workingDirectory file dir := by
  obtain ⟨content, hcontent, -⟩ := exists_of_bind_eq_ok htext
  have hfile := Disk.segmentsFromEnd_ne_nil_of_read hcontent
  have hbased := Path.basedOn_absolute? hhost (Host.absolute?_of_absolute h)
  exact Path.isDirectoryOf_of_parent? hhost hfile (basedOn_directoryOf hbased)

/-! ### The modules that a document names -/

theorem keys_of_modules? {entries : List (Text × Toml.Value)}
    {modules : List (Text × ModuleSettings)}
    (h : Document.modules? (.table entries) = some modules) :
    modules.map (·.1) = entries.map (·.1) := by
  rw [Document.modules?] at h
  induction entries generalizing modules with
  | nil =>
    obtain rfl := Option.some_inj.mp h
    rfl
  | cons entry rest ih =>
    rw [List.mapM_cons] at h
    obtain ⟨first, hfirst, h⟩ := Option.bind_eq_some_iff.mp h
    obtain ⟨others, hothers, h⟩ := Option.bind_eq_some_iff.mp h
    obtain rfl := Option.some_inj.mp h
    obtain ⟨settings, -, rfl⟩ := Option.map_eq_some_iff.mp hfirst
    rw [List.map_cons, ih hothers, List.map_cons]

/-- The modules of a document are those in its table of modules, if it has one. -/
theorem modules_of_ofTable? {entries : List (Text × Toml.Value)} {document : Document}
    (h : Document.ofTable? entries = some document) :
    document.modules = [] ∨
      ∃ entry ∈ entries, Document.modules? entry.2 = some document.modules := by
  obtain ⟨values, hvalues, h⟩ := Option.bind_eq_some_iff.mp h
  rw [Document.ofEntries?] at hvalues
  split_ifs at hvalues
  obtain rfl := Option.some_inj.mp hvalues
  obtain ⟨development, -, h⟩ := Option.bind_eq_some_iff.mp h
  obtain ⟨legacyIgnore, -, h⟩ := Option.bind_eq_some_iff.mp h
  obtain ⟨assets, -, h⟩ := Option.bind_eq_some_iff.mp h
  obtain ⟨applicationRoot, -, h⟩ := Option.bind_eq_some_iff.mp h
  obtain ⟨compiler, -, h⟩ := Option.bind_eq_some_iff.mp h
  obtain ⟨modules, hmodules, h⟩ := Option.bind_eq_some_iff.mp h
  obtain rfl := Option.some_inj.mp h
  dsimp only at hmodules
  cases hentry : entries.find? (·.1 = "modules".toList) with
  | none =>
    rw [hentry] at hmodules
    obtain rfl := Option.some_inj.mp hmodules
    exact .inl rfl
  | some entry =>
    rw [hentry] at hmodules
    obtain ⟨read, hread, rfl⟩ := Option.map_eq_some_iff.mp hmodules
    exact .inr ⟨entry, List.mem_of_find?_eq_some hentry, hread⟩

/-- A document names a module once. -/
theorem Document.nodup_modules {text : Text} {document : Document}
    (h : Document.read? text = some document) : (document.modules.map (·.1)).Nodup := by
  obtain ⟨entries, hentries, h⟩ := Option.bind_eq_some_iff.mp h
  rcases modules_of_ofTable? h with hnone | ⟨entry, hentry, hmodules⟩
  · rw [hnone]
    exact List.nodup_nil
  · obtain _ | _ | _ | _ | _ | _ | ⟨-, heach⟩ := Toml.distinct_of_read? hentries
    have hdistinct := heach entry hentry
    generalize entry.2 = value at hdistinct hmodules
    cases hdistinct with
    | table hkeys => exact keys_of_modules? hmodules ▸ hkeys
    | _ => exact absurd hmodules nofun

/-! ### Modules -/

/-- The module `m` is the one of an entry of a document in the directory `dir`. -/
structure Describes (dir : Path) (entry : Text × ModuleSettings) (m : AssetModule) : Prop where
  name : m.name = entry.1
  version : m.version = entry.2.version
  assetsRoot : m.assetsRoot = .ofText entry.2.assetsRoot
  root : BasedOn dir (.ofText entry.2.path) m.root

/-- A registry has a module for each entry of a document, and no other modules. -/
structure Registers (dir : Path) (entries : List (Text × ModuleSettings)) (registry : Registry) :
    Prop where
  keys : (entries.map (·.1)).Nodup
  exists_module : ∀ entry ∈ entries, ∃ m ∈ registry.modules, Describes dir entry m ∧
    ∀ n ∈ registry.modules, n.name = entry.1 → n = m
  exists_entry : ∀ m ∈ registry.modules, ∃ entry ∈ entries, Describes dir entry m

theorem describes_of_placeModule {entry : Text × ModuleSettings} {m : AssetModule}
    (hdir : dir.isAbsolute) (h : placeModule dir entry.1 entry.2 = .ok m) :
    Describes dir entry m := by
  obtain ⟨-, -, h⟩ := exists_of_bind_eq_ok h
  obtain rfl := Except.ok.inj h
  exact ⟨rfl, rfl, rfl, Path.basedOn_join hdir _⟩

theorem registers_of_placeModules {entries : List (Text × ModuleSettings)} {registry : Registry}
    (hdir : dir.isAbsolute) (hkeys : (entries.map (·.1)).Nodup)
    (h : placeModules dir entries = .ok registry) : Registers dir entries registry := by
  obtain ⟨placed, hplaced, h⟩ := exists_of_bind_eq_ok h
  obtain rfl := Except.ok.inj h
  let sorted := entries.mergeSort fun a b => !(b.1 < a.1)
  have hsorted : sorted.Perm entries := List.mergeSort_perm entries _
  have hdescribes : List.Forall₂ (Describes dir) sorted placed :=
    (forall₂_of_mapM hplaced).imp fun entry m h => describes_of_placeModule hdir h
  have hnames : placed.map (·.name) = sorted.map (·.1) := by
    rw [← List.forall₂_eq_eq_eq, List.forall₂_map_left_iff, List.forall₂_map_right_iff]
    exact (hdescribes.imp fun entry m h => h.name).flip
  have hregistry : (Registry.ofList placed).modules.Perm placed := by
    refine Registry.ofList_perm ?_
    rw [hnames]
    exact (hsorted.map _).nodup_iff.mpr hkeys
  refine ⟨hkeys, fun entry hentry => ?_, fun m hm => ?_⟩
  · obtain ⟨m, hm, hentry⟩ :=
      exists_of_mem_of_forall₂ hdescribes.flip (hsorted.mem_iff.mpr hentry)
    have hm := hregistry.mem_iff.mpr hm
    exact ⟨m, hm, hentry, fun n hn hname =>
      Registry.eq_of_name_eq hn hm (hname.trans hentry.name.symm)⟩
  · obtain ⟨entry, hentry, hm⟩ := exists_of_mem_of_forall₂ hdescribes (hregistry.mem_iff.mp hm)
    exact ⟨entry, hsorted.mem_iff.mp hentry, hm⟩

/-! ### Configurations -/

/-- Every path of a configuration starts at the root. -/
structure HasAbsolutePaths (config : Config) : Prop where
  root : config.applicationRoot.isAbsolute
  paths : ∀ path ∈ config.compiler.paths, path.isAbsolute
  modules : ∀ m ∈ config.modules.modules, m.root.isAbsolute

/-- The paths of a configuration are those that a document in the directory `dir` asks for; that is
the root of the application where the document does not say another one. -/
structure Places (dir : Path) (document : Document) (config : Config) : Prop where
  root : BasedOn dir (document.applicationRoot.elim .empty .ofText) config.applicationRoot
  paths : List.Forall₂ (BasedOn dir) (document.compiler.paths.map .ofText) config.compiler.paths
  modules : Registers dir document.modules config.modules

theorem Places.hasAbsolutePaths {document : Document} (h : Places dir document config) :
    config.HasAbsolutePaths := by
  refine ⟨h.root.isAbsolute, fun path hpath => ?_, fun m hm => ?_⟩
  · obtain ⟨written, -, hbased⟩ := exists_of_mem_of_forall₂ h.paths hpath
    exact hbased.isAbsolute
  · obtain ⟨entry, -, hdescribes⟩ := h.modules.exists_entry m hm
    exact hdescribes.root.isAbsolute

theorem places_of_place {file : Path} {document : Document} (hdir : dir.isAbsolute)
    (hkeys : (document.modules.map (·.1)).Nodup) (h : place file dir document = .ok config) :
    Places dir document config := by
  obtain ⟨modules, hmodules, h⟩ := exists_of_bind_eq_ok h
  obtain rfl := Except.ok.inj h
  refine ⟨?_, ?_, registers_of_placeModules hdir hkeys hmodules⟩
  · cases document.applicationRoot with
    | some root => exact Path.basedOn_join hdir (.ofText root)
    | none => exact ⟨hdir, nofun, fun _ => (List.append_nil _).symm⟩
  · rw [List.forall₂_map_left_iff, List.forall₂_map_right_iff, List.forall₂_same]
    exact fun path _ => Path.basedOn_join hdir (.ofText path)

/-- The paths of a configuration that was read from a file start in the directory of the file. -/
theorem places_of_loadFile {file : Path} (hhost : host.workingDirectory.isAbsolute)
    (h : loadFile host file = .ok config) :
    ∃ text document dir, host.readText file = .ok text ∧ Document.read? text = some document ∧
      IsDirectoryOf host.workingDirectory file dir ∧ Places dir document config := by
  obtain ⟨text, document, assets, dir, htext, hdocument, -, hdir, hplace, -⟩ :=
    exists_of_loadFile h
  have hdirectory := isDirectoryOf_of_absolute hhost htext hdir
  have hkeys := Document.nodup_modules hdocument
  have hplaces : Places dir { document with assets := assets } config :=
    places_of_place hdirectory.isAbsolute hkeys hplace
  -- the settings for assets have been expanded, and place nothing
  exact ⟨text, document, dir, htext, hdocument, hdirectory, hplaces.root, hplaces.paths,
    hplaces.modules⟩

theorem basedOn_override {root : Path} (hhost : host.workingDirectory.isAbsolute)
    (hroot : root.bytes ≠ []) :
    BasedOn host.workingDirectory root ((root.absolute? host.workingDirectory).getD root) := by
  cases hplaced : root.absolute? host.workingDirectory with
  | some placed => exact Path.basedOn_absolute? hhost hplaced
  | none =>
    rw [Path.absolute?, if_neg hroot] at hplaced
    exact absurd hplaced (Option.some_ne_none _)

/-- **Every path of a loaded configuration** starts at the root.  What a file says is meant in the
directory of that file, and the root that a call gives in the directory that the program works in;
where there is no file, this is the root itself.  There is one module for each name in the file. -/
theorem load_places {file : Option Path} {overrides : Overrides}
    (hhost : host.workingDirectory.isAbsolute)
    (hroot : ∀ root, overrides.applicationRoot = some root → root.bytes ≠ [])
    (h : load host file overrides = .ok config) :
    config.HasAbsolutePaths ∧
    (∀ root, overrides.applicationRoot = some root →
      BasedOn host.workingDirectory root config.applicationRoot) ∧
    match file.or (discover? host) with
    | some used => ∃ text document dir, host.readText used = .ok text ∧
        Document.read? text = some document ∧
        IsDirectoryOf host.workingDirectory used dir ∧
        (overrides.applicationRoot = none →
          BasedOn dir (document.applicationRoot.elim .empty .ofText) config.applicationRoot) ∧
        List.Forall₂ (BasedOn dir) (document.compiler.paths.map .ofText) config.compiler.paths ∧
        Registers dir document.modules config.modules
    | none =>
        (overrides.applicationRoot = none → config.applicationRoot = host.workingDirectory) ∧
        config.compiler.paths = [] ∧ config.modules.modules = [] := by
  obtain ⟨base, hbase, rfl⟩ := exists_of_load h
  have hgiven : ∀ root, overrides.applicationRoot = some root →
      BasedOn host.workingDirectory root (applyOverrides host overrides base).applicationRoot := by
    intro root hsome
    rw [applyOverrides, hsome]
    exact basedOn_override hhost (hroot root hsome)
  have hkept : overrides.applicationRoot = none →
      (applyOverrides host overrides base).applicationRoot = base.applicationRoot := by
    intro hnone
    rw [applyOverrides, hnone]
  have habsolute : base.HasAbsolutePaths →
      (applyOverrides host overrides base).HasAbsolutePaths := by
    intro habs
    refine ⟨?_, habs.paths, habs.modules⟩
    cases hoverride : overrides.applicationRoot with
    | some root => exact (hgiven root hoverride).isAbsolute
    | none => exact hkept hoverride ▸ habs.root
  rcases loadBase_cases hbase with ⟨used, hused, hfile⟩ | ⟨hused, rfl⟩
  · obtain ⟨text, document, dir, htext, hdocument, hdir, hplaces⟩ := places_of_loadFile hhost hfile
    rw [hused]
    exact ⟨habsolute hplaces.hasAbsolutePaths, hgiven, text, document, dir, htext, hdocument, hdir,
      fun hnone => hkept hnone ▸ hplaces.root, hplaces.paths, hplaces.modules⟩
  · rw [hused]
    exact ⟨habsolute ⟨hhost, nofun, nofun⟩, hgiven, hkept, rfl, rfl⟩

/-- A file that is asked for by a relative path, in a call that gives a relative root. -/
theorem load_places_relative :
    let text := "[compiler]\npaths = ['../lib', '/opt/./css']\n[modules.app]\npath = 'app'\n"
    let work := "work".toUTF8.toList
    let conf := "conf".toUTF8.toList
    let host : Host := ⟨((Disk.empty.put [work] .directory).put [work, conf] .directory).put
      [work, conf, "assetline.toml".toUTF8.toList] (.file text.toUTF8.toList),
      .ofString "/work", fun _ => none⟩
    let file := Path.ofString "conf/assetline.toml"
    let root := Path.ofString "build"
    let overrides : Overrides := ⟨none, some root⟩
    host.workingDirectory.isAbsolute ∧ root.bytes ≠ [] ∧
    ∃ config dir, load host (some file) overrides = .ok config ∧ config.HasAbsolutePaths ∧
      config.applicationRoot.components = (Path.ofString "/work/build").components ∧
      dir.components = (Path.ofString "/work/conf").components ∧
      List.Forall₂ (BasedOn dir) [.ofString "../lib", .ofString "/opt/./css"]
        config.compiler.paths ∧
      Registers dir [("app".toList, ⟨"app".toList, none, []⟩)] config.modules := by
  intro text work conf host file root overrides
  have hhost : host.workingDirectory.isAbsolute := by decide +kernel
  have hroot : root.bytes ≠ [] := by decide +kernel
  have hgiven : ∀ given, overrides.applicationRoot = some given → given.bytes ≠ [] :=
    fun given hsome => Option.some_inj.mp (hsome : some root = some given) ▸ hroot
  have hloaded : (load host (some file) overrides).toOption.any fun _ => true := by
    decide +kernel
  obtain ⟨config, hload, -⟩ := exists_of_toOption_any hloaded
  obtain ⟨habs, hplaces, text', document, dir, htext, hdocument, hdir, -, hpaths, hmodules⟩ :=
    load_places hhost hgiven hload
  -- the document is the one in the file, and its directory the one that the file lies in
  have hread : host.readText file = .ok text.toList := by decide +kernel
  obtain rfl := Except.ok.inj (htext.symm.trans hread)
  have hsettings : Document.read? text.toList = some ⟨false, true, .standard, none,
      ⟨["../lib".toList, "/opt/./css".toList], none, none⟩,
      [("app".toList, ⟨"app".toList, none, []⟩)]⟩ := by
    decide +kernel
  obtain rfl := Option.some_inj.mp (hdocument.symm.trans hsettings)
  obtain ⟨placed, last, hplaced, hlast⟩ := hdir.holds
  have hfile := hplaced.of_relative (by decide +kernel)
  have hdirectory := congrArg List.dropLast (hlast.symm.trans hfile)
  rw [List.dropLast_concat] at hdirectory
  refine ⟨hhost, hroot, config, dir, hload, habs, ?_, ?_, hpaths, hmodules⟩
  · rw [(hplaces root rfl).of_relative (by decide +kernel)]
    decide +kernel
  · rw [hdirectory]
    decide +kernel

end StylesheetBuild.Config
