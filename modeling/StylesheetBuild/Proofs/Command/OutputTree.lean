/-
Whether the CSS of a module stays in the module's own directory.

The path of a stylesheet is made absolute, but a `..` in it stays.  A module owns the stylesheet by
the beginning of that path, and what follows it leads on below the output directory.  There it may
lead out of the directory for the module.

* **`exists_name_of_loadJob`** — the path of a loaded stylesheet ends with a name;
* **`isBelow_iff_of_place_eq`** — so its CSS lies where the directories of its place lead to;
* **`outputPath_isBelow_iff`** — the CSS of a stylesheet lies below the directory for its module
  exactly if the stylesheet is not the directory that its place is counted from, and the directories
  of its place lead down again by the names that they led up from;
* **`outputPath_escapes`** — neither of which has to be so.
-/
import StylesheetBuild.Proofs.Command.Destination
import StylesheetBuild.Proofs.Disk.Reading
import StylesheetBuild.Proofs.Path.Detour

namespace StylesheetBuild

/-! ### Components -/

namespace Path

theorem Component.ofSegment?_ne_root (segment : List UInt8) : ofSegment? segment ≠ some root := by
  rw [ofSegment?]
  split_ifs <;> simp

/-- The root is only found in front. -/
theorem root_not_mem_drop (p : Path) {count : Nat} (h : count ≠ 0) :
    .root ∉ p.components.drop count := by
  have hnames : .root ∉ p.segments.filterMap Component.ofSegment? := by
    intro hmem
    obtain ⟨segment, -, hsegment⟩ := List.mem_filterMap.mp hmem
    exact Component.ofSegment?_ne_root segment hsegment
  have hfront : p.cut.1.toList.drop count = [] := by
    refine List.drop_eq_nil_of_le ?_
    have hone : p.cut.1.toList.length ≤ 1 := by cases p.cut.1 <;> simp
    omega
  rw [components, List.drop_append, hfront]
  exact fun hmem => hnames (List.mem_of_mem_drop hmem)

end Path

/-! ### Locations -/

namespace Location

theorem isAbsolute_path (location : Location) : location.path.isAbsolute := by
  rw [path]
  split_ifs with hroot
  · rfl
  · obtain ⟨name, rest, rfl⟩ := List.exists_cons_of_ne_nil hroot
    rfl

/-- A location lies below another one, and is not that one. -/
def IsBelow (location top : Location) : Prop :=
  top <+: location ∧ location ≠ top

instance (location top : Location) : Decidable (location.IsBelow top) :=
  inferInstanceAs (Decidable (top <+: location ∧ location ≠ top))

/-- A file lies below a directory exactly if its own directory does or is the same. -/
theorem isBelow_concat_iff {dir top : Location} {name : List UInt8} :
    IsBelow (dir ++ [name]) top ↔ top <+: dir := by
  rw [IsBelow, List.prefix_concat_iff]
  constructor
  · rintro ⟨heq | hdir, hne⟩
    · exact absurd heq.symm hne
    · exact hdir
  · intro hdir
    refine ⟨.inr hdir, fun heq => ?_⟩
    have hlength := hdir.length_le
    rw [← heq, List.length_append, List.length_singleton] at hlength
    omega

end Location

namespace Command

open StylesheetBuild.Path
open Pipeline (Job)

variable {host : Host} {config : Config} {source : Path} {owner : AssetModule} {job : Job}

/-! ### Loaded stylesheets -/

/-- A program works in a directory that it knows by an absolute path. -/
theorem isAbsolute_start (disk : Disk) (directory : Path) (lookup : Variables) :
    (Host.start disk directory lookup).workingDirectory.isAbsolute := by
  rw [Host.start]
  obtain ⟨made, result⟩ := disk.makeDirectories [] directory
  dsimp only
  cases made.locate [] directory with
  | ok location => exact location.isAbsolute_path
  | error error => exact directory.location.isAbsolute_path

theorem isAbsolute_of_loadJob (hhost : host.workingDirectory.isAbsolute)
    (h : loadJob host config source = .ok job) : job.path.isAbsolute :=
  isAbsolute_of_absolute? hhost (Host.absolute?_of_absolute (loads_of_loadJob h).absolute)

theorem exists_name_of_loadJob (hhost : host.workingDirectory.isAbsolute)
    (h : loadJob host config source = .ok job) :
    ∃ name, job.path.components.getLast? = some (.name name) := by
  obtain ⟨content, hread, -⟩ := exists_of_bind_eq_ok (loads_of_loadJob h).source
  exact Disk.exists_name_of_read (isAbsolute_of_loadJob hhost h) hread

/-! ### Directories -/

theorem components_placeRoot_ne_nil (h : owner.root.bytes ≠ []) :
    (placeRoot owner source).components ≠ [] := by
  rw [placeRoot]
  split_ifs
  · exact components_ne_nil (assetDir_ne_nil h)
  · exact components_ne_nil h

/-- A place has nothing but directories and a name. -/
theorem root_not_mem_place (h : owner.root.bytes ≠ []) : .root ∉ place owner source :=
  root_not_mem_drop source (List.length_pos_of_ne_nil (components_placeRoot_ne_nil h)).ne'

/-- The CSS of a stylesheet without a place stands beside the directory for its module. -/
theorem not_isBelow_of_place_eq_nil (hplain : IsPlain owner.name) (hne : owner.root.bytes ≠ [])
    (hroot : source.startsWith owner.root) (hplace : place owner source = []) (outDir : Path)
    (start : Location) :
    ¬ (start.enter (outputPath outDir owner source).components).IsBelow
      (start.enter (moduleDir outDir owner)) := by
  have htop : start.enter (moduleDir outDir owner) =
      start.enter outDir.components ++ [Utf8.encode owner.name] := by
    rw [hplain.moduleDir_eq, Location.enter_append]
    rfl
  have hcss : start.enter (outputPath outDir owner source).components =
      start.enter outDir.components ++ [stem (Utf8.encode owner.name) ++ dot :: ascii "css"] := by
    rw [components_outputPath hne hroot, hplace, List.append_nil, hplain.moduleDir_eq,
      List.modifyLast_concat, Location.enter_append]
    rfl
  rintro ⟨hbelow, hne'⟩
  refine hne' (hbelow.eq_of_length ?_).symm
  rw [htop, hcss, List.length_append, List.length_append]
  rfl

/-- With a place it lies where the directories of the place lead from there. -/
theorem isBelow_iff_of_place_eq (hne : owner.root.bytes ≠ []) (hroot : source.startsWith owner.root)
    {front : List Component} {name : List UInt8}
    (hplace : place owner source = front ++ [.name name]) (outDir : Path) (start : Location) :
    let top := start.enter (moduleDir outDir owner)
    (start.enter (outputPath outDir owner source).components).IsBelow top ↔
      top.drop (top.length - (Detour.of front).up) <+: (Detour.of front).down := by
  intro top
  have hfront : .root ∉ front := fun hmem =>
    root_not_mem_place hne (hplace ▸ List.mem_append_left _ hmem)
  have hcss : start.enter (outputPath outDir owner source).components =
      (Detour.of front).follow top ++ [stem name ++ dot :: ascii "css"] := by
    rw [components_outputPath hne hroot, hplace, ← List.append_assoc, List.modifyLast_concat,
      List.append_assoc, Location.enter_append, Location.enter_append,
      Detour.enter_eq_follow _ hfront]
    rfl
  rw [hcss, Location.isBelow_concat_iff, Detour.prefix_follow_iff]

/-- **The CSS of a stylesheet lies below the directory for its module** exactly if the stylesheet is
not the very directory that its place is counted from, and the directories of its place lead down
again by the names that they led up from.  Without a `..` they do not lead up. -/
theorem outputPath_isBelow_iff (hhost : host.workingDirectory.isAbsolute) {file : Option Path}
    {overrides : Config.Overrides} (hconfig : Config.load host file overrides = .ok config)
    (hplain : ∀ m ∈ config.modules.modules, IsPlain m.name)
    (hjob : loadJob host config source = .ok job)
    (hroot : job.owner.root.components ≠ job.path.components) (outDir : Path) (start : Location) :
    let top := start.enter (moduleDir outDir job.owner)
    let css := start.enter (outputPath outDir job.owner job.path).components
    let below := place job.owner job.path
    let detour := Detour.of below.dropLast
    (css.IsBelow top ↔ below ≠ [] ∧ top.drop (top.length - detour.up) <+: detour.down) ∧
      (job.owner.assetDir.components ≠ job.path.components → .parent ∉ below →
        css.IsBelow top) := by
  intro top css below detour
  obtain ⟨hmem, hstarts⟩ := mem_of_owner? (loads_of_loadJob hjob).owner
  have hne := Config.root_ne_nil_of_load hconfig hmem
  have hpath : job.path.components = (placeRoot job.owner job.path).components ++ below :=
    components_eq_placeRoot_append hstarts
  have hiff : css.IsBelow top ↔
      below ≠ [] ∧ top.drop (top.length - detour.up) <+: detour.down := by
    rcases List.eq_nil_or_concat below with hbelow | ⟨front, c, hbelow⟩
    · exact iff_of_false
        (not_isBelow_of_place_eq_nil (hplain job.owner hmem) hne hstarts hbelow outDir start)
        fun h => h.1 hbelow
    · obtain ⟨name, hname⟩ := exists_name_of_loadJob hhost hjob
      rw [List.concat_eq_append] at hbelow
      obtain rfl : c = .name name := by
        rw [hpath, hbelow, ← List.append_assoc, List.getLast?_concat] at hname
        exact Option.some_inj.mp hname
      have hdetour : detour = Detour.of front := by
        show Detour.of below.dropLast = _
        rw [hbelow, List.dropLast_concat]
      rw [hdetour, and_iff_right (hbelow ▸ List.concat_ne_nil _ _)]
      exact isBelow_iff_of_place_eq hne hstarts hbelow outDir start
  refine ⟨hiff, fun hassets hup => hiff.mpr ⟨fun hbelow => ?_, ?_⟩⟩
  · rw [hbelow, List.append_nil, placeRoot] at hpath
    split_ifs at hpath
    · exact hassets hpath.symm
    · exact hroot hpath.symm
  · have hzero : detour.up = 0 :=
      Detour.up_eq_zero fun hmem => hup (List.dropLast_subset below hmem)
    rw [hzero, Nat.sub_zero, List.drop_length]
    exact List.nil_prefix

/-- A stylesheet whose path leads into a directory of its module and out of it again. -/
theorem outputPath_isBelow_iff_detour :
    let host := hostOf "[modules.app]\npath = 'app'\n" ["/app/css/a.css", "/app/main.css"]
    ∃ config job, Config.load host none .none = .ok config ∧
      (∀ m ∈ config.modules.modules, IsPlain m.name) ∧
      loadJob host config (ofString "app/css/../main.css") = .ok job ∧
      job.owner.root.components ≠ job.path.components ∧
      Component.parent ∈ job.path.components ∧
      (host.here.enter (outputPath (ofString "out") job.owner job.path).components).IsBelow
        (host.here.enter (moduleDir (ofString "out") job.owner)) := by
  intro host
  let app : AssetModule := ⟨"app".toList, none, ofString "/app", Path.empty⟩
  have hloaded : (Config.load host none .none).toOption.any fun config =>
      config.modules.modules = [app] ∧
        (loadJob host config (ofString "app/css/../main.css")).toOption.any fun job =>
          decide (job.owner = app ∧ job.path = ofString "/app/css/../main.css") := by
    decide +kernel
  obtain ⟨config, hconfig, hloaded⟩ := exists_of_toOption_any hloaded
  obtain ⟨hmodules, hloaded⟩ := of_decide_eq_true hloaded
  obtain ⟨job, hjob, hloaded⟩ := exists_of_toOption_any hloaded
  obtain ⟨howner, hpath⟩ := of_decide_eq_true hloaded
  have hplain : ∀ m ∈ config.modules.modules, IsPlain m.name := by
    rw [hmodules]
    decide +kernel
  have hroot : job.owner.root.components ≠ job.path.components := by
    rw [howner, hpath]
    decide +kernel
  obtain ⟨hiff, -⟩ := outputPath_isBelow_iff (by decide +kernel) hconfig hplain hjob hroot
    (ofString "out") host.here
  refine ⟨config, job, hconfig, hplain, hjob, hroot, ?_, hiff.mpr ?_⟩
  · rw [hpath]
    decide +kernel
  · rw [howner, hpath]
    decide +kernel

/-- The CSS of a stylesheet inside its module does not lie below the directory for the module. -/
def Escapes (host : Host) (outDir source : Path) : Prop :=
  ∃ config job, Config.load host none .none = .ok config ∧
    (∀ m ∈ config.modules.modules, IsPlain m.name) ∧ loadJob host config source = .ok job ∧
    job.owner.root.components <+: job.path.components ∧
    job.owner.root.components ≠ job.path.components ∧ Component.parent ∉ outDir.components ∧
    ¬ (host.here.enter (outputPath outDir job.owner job.path).components).IsBelow
      (host.here.enter (moduleDir outDir job.owner))

/-- A `..` in the path of a stylesheet leads out of the directory for its module, and a stylesheet
that is said to be the directory of the assets has its CSS beside that. -/
theorem outputPath_escapes :
    Escapes (hostOf "[modules.app]\npath = 'app'\n" ["/app/main.css", "/other/x.css"])
      (ofString "out") (ofString "app/../other/x.css") ∧
    Escapes (hostOf "[modules.app]\npath = 'app'\nassets_root = 'main.css'\n" ["/app/main.css"])
      (ofString "out") (ofString "app/main.css") := by
  have hescapes : ∀ (host : Host) (source path : Path) (m : AssetModule),
      ((Config.load host none .none).toOption.any fun config => config.modules.modules = [m] ∧
        (loadJob host config source).toOption.any fun job =>
          decide (job.owner = m ∧ job.path = path)) →
      IsPlain m.name →
      (m.root.components <+: path.components ∧ m.root.components ≠ path.components ∧
        ¬ (host.here.enter (outputPath (ofString "out") m path).components).IsBelow
          (host.here.enter (moduleDir (ofString "out") m))) →
      Escapes host (ofString "out") source := by
    rintro host source path m hloaded hplain ⟨hcontains, hne, hbelow⟩
    obtain ⟨config, hconfig, hloaded⟩ := exists_of_toOption_any hloaded
    obtain ⟨hmodules, hloaded⟩ := of_decide_eq_true hloaded
    obtain ⟨job, hjob, hloaded⟩ := exists_of_toOption_any hloaded
    obtain ⟨rfl, rfl⟩ := of_decide_eq_true hloaded
    refine ⟨config, job, hconfig, ?_, hjob, hcontains, hne, by decide +kernel, hbelow⟩
    rw [hmodules]
    exact List.forall_mem_singleton.mpr hplain
  constructor
  · exact hescapes _ _ (ofString "/app/../other/x.css")
      ⟨"app".toList, none, ofString "/app", Path.empty⟩
      (by decide +kernel) (by decide +kernel) (by decide +kernel)
  · exact hescapes _ _ (ofString "/app/main.css")
      ⟨"app".toList, none, ofString "/app", ofString "main.css"⟩
      (by decide +kernel) (by decide +kernel) (by decide +kernel)

end Command

end StylesheetBuild
