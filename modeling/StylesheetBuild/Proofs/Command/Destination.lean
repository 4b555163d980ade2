/-
Where the CSS of a stylesheet goes.

The place of a stylesheet below its module is counted from the module's assets where it lies among
them, and otherwise from the module's root.  The destination has this place below the output
directory and the name of the module.  So it does not say where the place was counted from, and the
name of a module may be a path of several directories.

* **`components_outputPath`** — the components of a destination;
* **`outputPath_eq_iff`** — two stylesheets of different paths have the same destination exactly if
  they have the same place in a module's assets and in its root, or the names of their modules make
  up for the difference of their places;
* **`outputPath_collision`** — which happens both ways.
-/
import StylesheetBuild.Proofs.Command.Loading
import StylesheetBuild.Proofs.Config.Modules
import StylesheetBuild.Proofs.Path.Composition

namespace StylesheetBuild

/-! ### Extensions -/

namespace Path

/-- A component without the extension of a name. -/
def Component.bare : Component → Component
  | name bytes => name (stem bytes)
  | root => root
  | current => current
  | parent => parent

/-- Components without the extension of a name at their end. -/
def unextended (components : List Component) : List Component :=
  components.modifyLast Component.bare

/-- Another extension tells names apart that differ without their extensions, and no others. -/
theorem Component.titled_eq_titled_iff {extension : List UInt8} {c d : Component} :
    c.titled extension = d.titled extension ↔ c.bare = d.bare := by
  cases c <;> cases d <;> simp [titled, bare]

theorem modifyLast_eq_modifyLast_iff {α : Type} {f g : α → α} (h : ∀ a b, f a = f b ↔ g a = g b)
    (xs ys : List α) : xs.modifyLast f = ys.modifyLast f ↔ xs.modifyLast g = ys.modifyLast g := by
  have hnil : ∀ k : α → α, [].modifyLast k = [] := fun _ => rfl
  rcases List.eq_nil_or_concat xs with rfl | ⟨xs, a, rfl⟩
  · rcases List.eq_nil_or_concat ys with rfl | ⟨ys, b, rfl⟩
    · exact iff_of_true rfl rfl
    · simp [List.modifyLast_concat, hnil]
  · rcases List.eq_nil_or_concat ys with rfl | ⟨ys, b, rfl⟩
    · simp [List.modifyLast_concat, hnil]
    · simp [List.modifyLast_concat, h]

theorem unextended_append {front rest : List Component} (h : rest ≠ []) :
    unextended (front ++ rest) = front ++ unextended rest :=
  List.modifyLast_append_of_right_ne_nil Component.bare front rest h

theorem length_unextended (components : List Component) :
    (unextended components).length = components.length := by
  rcases List.eq_nil_or_concat components with rfl | ⟨front, c, rfl⟩
  · rfl
  · simp [unextended, List.modifyLast_concat]

end Path

namespace Command

open StylesheetBuild.Path
open Pipeline (Job)

variable {source source' : Path} {owner owner' : AssetModule}

/-! ### Places -/

/-- The directory that the place of a stylesheet below its module is counted from. -/
def placeRoot (owner : AssetModule) (source : Path) : Path :=
  if source.startsWith owner.assetDir then owner.assetDir else owner.root

/-- The place of a stylesheet below its module. -/
def place (owner : AssetModule) (source : Path) : List Component :=
  source.components.drop (placeRoot owner source).components.length

/-- The directory for the CSS of a module. -/
def moduleDir (outDir : Path) (owner : AssetModule) : List Component :=
  (outDir.join (.ofText owner.name)).components

/-- A name that is a single component of a path. -/
def IsPlain (name : Text) : Prop :=
  (Path.ofText name).components = [.name (Utf8.encode name)]

instance (name : Text) : Decidable (IsPlain name) :=
  inferInstanceAs (Decidable ((Path.ofText name).components = [.name (Utf8.encode name)]))

theorem mem_of_owner? {config : Config} (h : config.modules.owner? source = some owner) :
    owner ∈ config.modules.modules ∧ source.startsWith owner.root := by
  obtain ⟨hmem, hcontains, -, -⟩ := Registry.isInnermost_of_owner? h
  exact ⟨hmem, startsWith_iff.mpr hcontains⟩

/-- The place is what a stylesheet has below the directory that it is counted from. -/
theorem components_eq_placeRoot_append (h : source.startsWith owner.root) :
    source.components = (placeRoot owner source).components ++ place owner source := by
  have hroot : (placeRoot owner source).components <+: source.components := by
    rw [← startsWith_iff, placeRoot]
    split_ifs with hassets
    · exact hassets
    · exact h
  rw [place, ← List.prefix_iff_eq_append.mp hroot]
  simp

theorem assetDir_ne_nil (h : owner.root.bytes ≠ []) : owner.assetDir.bytes ≠ [] := by
  rw [AssetModule.assetDir]
  split_ifs with hassets
  · exact h
  · exact join_ne_nil hassets owner.root

/-- A destination has the place of the stylesheet below the directory for its module. -/
theorem components_outputPath (hne : owner.root.bytes ≠ []) (h : source.startsWith owner.root)
    (outDir : Path) : (outputPath outDir owner source).components =
      (moduleDir outDir owner ++ place owner source).modifyLast
        (Component.titled (ascii "css")) := by
  obtain ⟨relative, hrelative, hcut, hplace⟩ : ∃ relative,
      outputPath outDir owner source =
        ((outDir.join (.ofText owner.name)).join relative).withExtension (ascii "css") ∧
      relative.cut.1 = none ∧ relative.components = place owner source := by
    rw [outputPath, place, placeRoot]
    by_cases hassets : source.startsWith owner.assetDir
    · obtain ⟨relative, hbelow, hcut, hcomponents⟩ :=
        components_of_below? (components_ne_nil (assetDir_ne_nil hne)) hassets
      rw [hbelow, if_pos hassets]
      exact ⟨relative, rfl, hcut, hcomponents⟩
    · obtain ⟨relative, hbelow, hcut, hcomponents⟩ :=
        components_of_below? (components_ne_nil hne) h
      rw [below?_eq_none (Bool.eq_false_iff.mpr hassets), hbelow, if_neg hassets]
      exact ⟨relative, rfl, hcut, hcomponents⟩
  rw [hrelative, components_withExtension _ (by decide) (by decide), components_join hcut, hplace,
    moduleDir]

/-! ### Equal destinations -/

theorem outputPath_eq_iff_unextended (hne : owner.root.bytes ≠ []) (hne' : owner'.root.bytes ≠ [])
    (h : source.startsWith owner.root) (h' : source'.startsWith owner'.root) (outDir : Path) :
    (outputPath outDir owner source).components = (outputPath outDir owner' source').components ↔
      unextended (moduleDir outDir owner ++ place owner source) =
        unextended (moduleDir outDir owner' ++ place owner' source') := by
  rw [components_outputPath hne h, components_outputPath hne' h']
  exact modifyLast_eq_modifyLast_iff (fun _ _ => Component.titled_eq_titled_iff) _ _

/-- Behind the same directory, stylesheets are told apart by their places. -/
theorem unextended_append_eq_iff {front rest rest' : List Component} :
    unextended (front ++ rest) = unextended (front ++ rest') ↔
      unextended rest = unextended rest' := by
  by_cases hlength : rest.length = rest'.length
  · by_cases hnil : rest = []
    · subst hnil
      obtain rfl := List.eq_nil_of_length_eq_zero hlength.symm
      exact iff_of_true rfl rfl
    · have hnil' : rest' ≠ [] :=
        List.ne_nil_of_length_pos (hlength ▸ List.length_pos_of_ne_nil hnil)
      rw [unextended_append hnil, unextended_append hnil', List.append_cancel_left_eq]
  · refine iff_of_false (fun h => hlength ?_) fun h => hlength ?_
    all_goals simpa [length_unextended] using congrArg List.length h

theorem IsPlain.moduleDir_eq (h : IsPlain owner.name) (outDir : Path) :
    moduleDir outDir owner = outDir.components ++ [.name (Utf8.encode owner.name)] := by
  have hcut : (Path.ofText owner.name).cut.1 = none := by
    rw [IsPlain, components] at h
    rcases (Path.ofText owner.name).cut_cases with hcut | ⟨hcut, -⟩ | hcut
    · rw [hcut] at h
      exact absurd (List.head_eq_of_cons_eq h) (by simp)
    · rw [hcut] at h
      exact absurd (List.head_eq_of_cons_eq h) (by simp)
    · exact hcut
  rw [moduleDir, components_join hcut, h]

/-- The directories of modules with plain names have nothing in common, except that CSS without a
place in them takes the name of the module. -/
theorem unextended_moduleDir_eq_iff (h : IsPlain owner.name) (h' : IsPlain owner'.name)
    (hne : owner.name ≠ owner'.name) (outDir : Path) {rest rest' : List Component} :
    unextended (moduleDir outDir owner ++ rest) = unextended (moduleDir outDir owner' ++ rest') ↔
      rest = [] ∧ rest' = [] ∧ stem (Utf8.encode owner.name) = stem (Utf8.encode owner'.name) := by
  rw [h.moduleDir_eq, h'.moduleDir_eq, List.append_assoc, List.append_assoc,
    unextended_append_eq_iff, List.singleton_append, List.singleton_append]
  constructor
  · intro heq
    have hlength : rest.length = rest'.length := by
      simpa [length_unextended] using congrArg List.length heq
    by_cases hnil : rest = []
    · subst hnil
      obtain rfl := List.eq_nil_of_length_eq_zero hlength.symm
      exact ⟨rfl, rfl, Component.name.inj (List.head_eq_of_cons_eq heq)⟩
    · -- only the last component loses an extension
      have hnil' : rest' ≠ [] :=
        List.ne_nil_of_length_pos (hlength ▸ List.length_pos_of_ne_nil hnil)
      have hcons : ∀ c, ∀ cs : List Component, cs ≠ [] →
          unextended (c :: cs) = c :: unextended cs := fun c cs hcs =>
        (unextended_append hcs : unextended ([c] ++ cs) = [c] ++ unextended cs)
      rw [hcons _ _ hnil, hcons _ _ hnil'] at heq
      have hname := Component.name.inj (List.head_eq_of_cons_eq heq)
      exact absurd (Utf8.encode_injective hname) hne
  · rintro ⟨rfl, rfl, hstem⟩
    exact congrArg (fun name => [Component.name name]) hstem

/-- **Which stylesheets have the same destination**, of two whose paths differ without their
extensions.  In one module they have the same place, one of them among the assets of the module and
the other one in its root.  In two modules with plain names they are the roots of these, and the
names differ in their extensions only.  Other names lead somewhere, and may lead one module into the
directory of the other. -/
theorem outputPath_eq_iff {host : Host} {file : Option Path} {overrides : Config.Overrides}
    {config : Config} (hconfig : Config.load host file overrides = .ok config)
    {first second : Path} {job job' : Job} (hjob : loadJob host config first = .ok job)
    (hjob' : loadJob host config second = .ok job')
    (hne : unextended job.path.components ≠ unextended job'.path.components) (outDir : Path) :
    let destination (job : Job) := (outputPath outDir job.owner job.path).components
    (job.owner = job'.owner → (destination job = destination job' ↔
      job.path.startsWith job.owner.assetDir ≠ job'.path.startsWith job'.owner.assetDir ∧
        unextended (place job.owner job.path) = unextended (place job'.owner job'.path))) ∧
    (job.owner ≠ job'.owner → (destination job = destination job' ↔
      unextended (moduleDir outDir job.owner ++ place job.owner job.path) =
        unextended (moduleDir outDir job'.owner ++ place job'.owner job'.path))) ∧
    (job.owner ≠ job'.owner → IsPlain job.owner.name → IsPlain job'.owner.name →
      (destination job = destination job' ↔
        place job.owner job.path = [] ∧ place job'.owner job'.path = [] ∧
          stem (Utf8.encode job.owner.name) = stem (Utf8.encode job'.owner.name))) := by
  intro destination
  obtain ⟨hmem, hroot⟩ := mem_of_owner? (loads_of_loadJob hjob).owner
  obtain ⟨hmem', hroot'⟩ := mem_of_owner? (loads_of_loadJob hjob').owner
  have hiff : destination job = destination job' ↔
      unextended (moduleDir outDir job.owner ++ place job.owner job.path) =
        unextended (moduleDir outDir job'.owner ++ place job'.owner job'.path) :=
    outputPath_eq_iff_unextended (Config.root_ne_nil_of_load hconfig hmem)
      (Config.root_ne_nil_of_load hconfig hmem') hroot hroot' outDir
  refine ⟨fun howner => ?_, fun _ => hiff, fun howner hplain hplain' => ?_⟩
  · rw [hiff, ← howner, unextended_append_eq_iff]
    refine ⟨fun hplace => ⟨fun hassets => hne ?_, hplace⟩, And.right⟩
    -- counted from the same directory, the same place is the same path
    have hplaceRoot : placeRoot job.owner job.path = placeRoot job.owner job'.path := by
      rw [placeRoot, placeRoot, hassets]
    have hpath := components_eq_placeRoot_append hroot
    have hpath' := components_eq_placeRoot_append (howner.symm ▸ hroot')
    rw [hpath, hpath', hplaceRoot]
    exact unextended_append_eq_iff.mpr hplace
  · have hname : job.owner.name ≠ job'.owner.name := fun heq =>
      howner (Registry.eq_of_name_eq hmem hmem' heq)
    rw [hiff]
    exact unextended_moduleDir_eq_iff hplain hplain' hname outDir

/-- A host with a configuration and with stylesheets that have nothing in them. -/
def hostOf (config : String) (files : List String) : Host :=
  ⟨files.foldl (fun disk file => disk.withFile (ofString file).location [])
      (Disk.empty.withFile (ofString "/assetline.toml").location (Utf8.encode config.toList)),
    ofString "/", fun _ => none⟩

/-- Two stylesheets among the assets of a module. -/
theorem outputPath_eq_iff_assets :
    let host := hostOf "[modules.app]\npath = 'app'\nassets_root = 'assets'\n"
      ["/app/assets/x.css", "/app/assets/css/x.scss"]
    ∃ config job job', Config.load host none .none = .ok config ∧
      loadJob host config (ofString "app/assets/x.css") = .ok job ∧
      loadJob host config (ofString "app/assets/css/x.scss") = .ok job' ∧
      unextended job.path.components ≠ unextended job'.path.components ∧
      job.owner = job'.owner ∧
      (outputPath (ofString "out") job.owner job.path).components ≠
        (outputPath (ofString "out") job'.owner job'.path).components := by
  intro host
  have hloaded : (Config.load host none .none).toOption.any fun config =>
      (loadJob host config (ofString "app/assets/x.css")).toOption.any fun job =>
      (loadJob host config (ofString "app/assets/css/x.scss")).toOption.any fun job' =>
        decide (job.path = ofString "/app/assets/x.css" ∧
          job'.path = ofString "/app/assets/css/x.scss" ∧ job.owner = job'.owner ∧
          job.path.startsWith job.owner.assetDir = job'.path.startsWith job'.owner.assetDir) := by
    decide +kernel
  obtain ⟨config, hconfig, hloaded⟩ := exists_of_toOption_any hloaded
  obtain ⟨job, hjob, hloaded⟩ := exists_of_toOption_any hloaded
  obtain ⟨job', hjob', hloaded⟩ := exists_of_toOption_any hloaded
  obtain ⟨hpath, hpath', howner, hassets⟩ := of_decide_eq_true hloaded
  have hne : unextended job.path.components ≠ unextended job'.path.components := by
    rw [hpath, hpath']
    decide +kernel
  obtain ⟨hsame, -, -⟩ := outputPath_eq_iff hconfig hjob hjob' hne (ofString "out")
  exact ⟨config, job, job', hconfig, hjob, hjob', hne, howner,
    fun heq => ((hsame howner).mp heq).1 hassets⟩

/-- Two stylesheets of one build have the same destination, although their paths differ without
their extensions. -/
def Collide (host : Host) (outDir first second : Path) : Prop :=
  ∃ config job job', Config.load host none .none = .ok config ∧
    loadJob host config first = .ok job ∧ loadJob host config second = .ok job' ∧
    unextended job.path.components ≠ unextended job'.path.components ∧
    outputPath outDir job.owner job.path = outputPath outDir job'.owner job'.path

/-- The same place in the assets of a module and in its root, or a module whose name leads into the
directory of another one, makes a stylesheet take the place of another one. -/
theorem outputPath_collision :
    Collide (hostOf "[modules.app]\npath = 'app'\nassets_root = 'assets'\n"
        ["/app/assets/x.css", "/app/x.css"])
      (ofString "out") (ofString "/app/assets/x.css") (ofString "/app/x.css") ∧
    Collide (hostOf "[modules.a]\npath = 'a'\n[modules.'a/b']\npath = 'c'\n"
        ["/a/b/x.css", "/c/x.css"])
      (ofString "out") (ofString "/a/b/x.css") (ofString "/c/x.css") := by
  constructor
  · let host := hostOf "[modules.app]\npath = 'app'\nassets_root = 'assets'\n"
      ["/app/assets/x.css", "/app/x.css"]
    let app : AssetModule := ⟨"app".toList, none, ofString "/app", ofString "assets"⟩
    have hloaded : (Config.load host none .none).toOption.any fun config =>
        config.modules.modules = [app] := by
      decide +kernel
    obtain ⟨config, hconfig, hmodules⟩ := exists_of_toOption_any hloaded
    have hregistry : config.modules = Registry.ofList [app] :=
      Registry.eq_of_perm (.of_eq (of_decide_eq_true hmodules))
    refine ⟨config, ⟨ofString "/app/assets/x.css", [], app⟩, ⟨ofString "/app/x.css", [], app⟩,
      hconfig, Loads.loadJob ⟨?_, ?_, ?_⟩, Loads.loadJob ⟨?_, ?_, ?_⟩, ?_, ?_⟩
    case refine_2 | refine_5 => rw [hregistry]; decide +kernel
    all_goals decide +kernel
  · let text := "[modules.a]\npath = 'a'\n[modules.'a/b']\npath = 'c'\n"
    let host := hostOf text ["/a/b/x.css", "/c/x.css"]
    let outer : AssetModule := ⟨"a".toList, none, ofString "/a", Path.empty⟩
    let inner : AssetModule := ⟨"a/b".toList, none, ofString "/c", Path.empty⟩
    let document : Config.Document := ⟨false, true, .standard, none, ⟨[], none, none⟩,
      [("a".toList, ⟨"a".toList, none, []⟩), ("a/b".toList, ⟨"c".toList, none, []⟩)]⟩
    have hdiscover : Config.discover? host = some (ofString "/assetline.toml") := by decide +kernel
    have htext : host.readText (ofString "/assetline.toml") = .ok text.toList := by decide +kernel
    have hdocument : Config.Document.read? text.toList = some document := by decide +kernel
    have hassets : document.assets.expand host.lookup = .ok .standard := by decide +kernel
    have hdir : host.absolute (Config.directoryOf (ofString "/assetline.toml")) =
        .ok (ofString "/") := by
      decide +kernel
    have hloaded : ∃ config, Config.loadFile host (ofString "/assetline.toml") = .ok config ∧
        config.modules = Registry.ofList [outer, inner] :=
      Config.exists_loadFile_eq_ok htext hdocument hassets hdir (by decide +kernel)
        (by decide +kernel) (by decide +kernel)
    obtain ⟨config, hfile, hregistry⟩ := hloaded
    have hconfig : Config.load host none .none = .ok config := by
      rw [Config.load, Config.loadBase, hdiscover]
      dsimp only
      rw [hfile]
      rfl
    refine ⟨config, ⟨ofString "/a/b/x.css", [], outer⟩, ⟨ofString "/c/x.css", [], inner⟩,
      hconfig, Loads.loadJob ⟨?_, ?_, ?_⟩, Loads.loadJob ⟨?_, ?_, ?_⟩, ?_, ?_⟩
    case refine_2 | refine_5 => rw [hregistry]; decide +kernel
    all_goals decide +kernel

end Command

end StylesheetBuild
