/-
References to one asset, written in different ways.

An asset of a module can be named from any directory of the module, and from other modules by the
name of the module.  All of these lead to the same address, and what becomes of a reference only
depends on its address.

* **`Context.resolves_of_address?`** — what becomes of a reference that leads to an address;
* **`Context.address?_relative`**, **`Context.address?_inModule`** — relative references that are
  joined to the same path, and the reference to that path from another module, lead to one address;
* **`spellings_agree`** — so they have one URL and one file.
-/
import StylesheetBuild.Proofs.Rewrite.Probe

namespace StylesheetBuild.Rewrite

namespace Context

variable {context : Context} {raw : Text}

/-- A reference is replaced by a URL and looked for at a file, and it is reported exactly when there
is no such file. -/
structure Resolves (context : Context) (raw url : Text) (file : Path) : Prop where
  probes : context.Probes raw file
  replaced : ∃ rewritten, rewriteReference context raw = .ok rewritten ∧ rewritten.url = url ∧
    rewritten.missing = if context.files.holds file then none else some ⟨raw, file⟩

theorem resolves_of_address? {a : Address} (h : context.address? raw = some a) :
    context.Resolves raw (context.url a) a.file where
  probes := probes_of_address? h
  replaced := by
    obtain ⟨rewritten, hok, hurl, hmissing⟩ := rewriteReference_of_known (unknown?_of_address? h)
    rw [replacement, h] at hurl
    rw [missing?, h] at hmissing
    exact ⟨rewritten, hok, hurl, hmissing⟩

/-- The URL of an address does not depend on where it is referred to. -/
theorem url_eq {other : Context} (hfiles : other.files = context.files)
    (hoptions : other.options = context.options) (a : Address) : other.url a = context.url a := by
  rw [url, url, served, served, withDigest, withDigest, hfiles, hoptions]

/-- A relative reference leads to the path that it is joined to, in the module of its
stylesheet. -/
theorem address?_relative {path : Text} (hraw : Target.classify raw = .relative raw)
    (hpath : RelativePath.join context.sourceDir (splitSuffix raw).1 = path) :
    context.address? raw =
      some (Address.ofText context.owner (path ++ (splitSuffix raw).2)) := by
  rw [address?, hraw, ← hpath]
  rfl

/-- A reference into a module leads to the path behind the colon, in that module. -/
theorem address?_inModule {name text : Text} {owner : AssetModule}
    (hraw : Target.classify raw = .inModule name text)
    (howner : context.resolve name = some owner) :
    context.address? raw = some (Address.ofText owner text) := by
  rw [address?, hraw]
  simp only [howner, Option.map_some]

end Context

/-- **All spellings of a reference agree.**  In a build, the asset of a module at a path has one URL
and one file.  These belong to every relative reference with the suffix in question that is joined
to the path, from whichever stylesheet of the module, and to the reference by module name, from
whichever stylesheet of any module, where this is read as one. -/
theorem spellings_agree (options : Options) (files : AssetFiles)
    (resolve : Text → Option AssetModule) (m : AssetModule) (hm : resolve m.name = some m)
    (path suffix : Text) :
    ∃ url file,
      (∀ source raw, Target.classify raw = .relative raw →
        let context : Context := ⟨m, source, resolve, files, options⟩
        RelativePath.join context.sourceDir (splitSuffix raw).1 = path →
        (splitSuffix raw).2 = suffix → context.Resolves raw url file) ∧
      ∀ owner source, let qualified := m.name ++ ':' :: (path ++ suffix)
        Target.classify qualified = .inModule m.name (path ++ suffix) →
        Context.Resolves ⟨owner, source, resolve, files, options⟩ qualified url file := by
  let a := Address.ofText m (path ++ suffix)
  refine ⟨Context.url ⟨m, Path.empty, resolve, files, options⟩ a, a.file, ?_, ?_⟩
  · intro source raw hraw context hpath hsuffix
    have haddress := Context.address?_relative hraw hpath
    rw [hsuffix] at haddress
    exact Context.resolves_of_address? haddress
  · intro owner source qualified hqualified
    let context : Context := ⟨owner, source, resolve, files, options⟩
    have haddress : context.address? qualified = some a :=
      Context.address?_inModule hqualified hm
    have hurl : context.url a = Context.url ⟨m, Path.empty, resolve, files, options⟩ a :=
      Context.url_eq rfl rfl a
    rw [← hurl]
    exact Context.resolves_of_address? haddress

/-- An asset with a suffix, seen from two directories of its module and from another module. -/
theorem spellings_agree_icon :
    let m : AssetModule := ⟨"lib".toList, none, Path.ofString "/srv/lib", Path.ofString "public"⟩
    let app : AssetModule := ⟨"app".toList, none, Path.ofString "/srv/app", Path.empty⟩
    let resolve := fun name => if name = m.name then some m else none
    let files := AssetFiles.ofMemory [(Path.ofString "/srv/lib/public/img/a.svg", .ok [0x78])]
    let first : Context :=
      ⟨m, Path.ofString "/srv/lib/public/css/a/b.scss", resolve, files, .standard⟩
    let second : Context := ⟨m, Path.ofString "/srv/lib/public/c.scss", resolve, files, .standard⟩
    let third : Context := ⟨app, Path.ofString "/srv/app/main.scss", resolve, files, .standard⟩
    ∃ url file, first.Resolves "../../img\\a.svg#x".toList url file ∧
      second.Resolves "css/./..//img/a.svg#x".toList url file ∧
      third.Resolves (m.name ++ ':' :: ("img/a.svg".toList ++ "#x".toList)) url file := by
  intro m app resolve files first second third
  obtain ⟨url, file, hrelative, hqualified⟩ := spellings_agree .standard files resolve m
    (if_pos rfl) "img/a.svg".toList "#x".toList
  refine ⟨url, file, ?_, ?_, ?_⟩
  · exact hrelative (Path.ofString "/srv/lib/public/css/a/b.scss") "../../img\\a.svg#x".toList
      (by decide +kernel) (by decide +kernel) (by decide +kernel)
  · exact hrelative (Path.ofString "/srv/lib/public/c.scss") "css/./..//img/a.svg#x".toList
      (by decide +kernel) (by decide +kernel) (by decide +kernel)
  · exact hqualified app (Path.ofString "/srv/app/main.scss") (by decide +kernel)

end StylesheetBuild.Rewrite
