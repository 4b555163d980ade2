/-
The spelling of paths does not show in a stylesheet.

The directories of modules and the path of the stylesheet may be written with more slashes, or with
a `.` between them, and still mean the same.  Two worlds that differ in that only are compared, over
files that are known by the components of their paths:

* **`AssetFiles.byComponents_ofMemory`** — files in memory are;
* **`SameButSpellings.replacement_eq`** — a reference is replaced by the same text;
* **`SameButSpellings.missing?_rel`** — its file, if it does not exist, is the same file;
* **`spelling_irrelevant`** — so rewriting gives the same stylesheet, or fails for the same reason.

Design notes: what a reference becomes is said in terms of its address, so addresses are compared
(`SameButSpellings.address?_rel`); the stylesheet then follows from `Context.rewrite_eq`.
-/
import Mathlib.Data.List.Forall2
import Mathlib.Data.Option.Basic
import StylesheetBuild.Proofs.Path.Respelling
import StylesheetBuild.Proofs.Rewrite.Address

namespace StylesheetBuild

/-! ### Files -/

namespace AssetFiles

/-- Whether files are known by the components of their paths: what there is at a path, and what
reading it gives, is the same however the path is written.  The reason why a file cannot be read
may name the path. -/
structure ByComponents (files : AssetFiles) : Prop where
  holds : ∀ p q : Path, p.components = q.components → files.holds p = files.holds q
  read : ∀ p q : Path, p.components = q.components →
    (files.read p).toOption = (files.read q).toOption

/-- Files in memory are known by the components of their paths. -/
theorem byComponents_ofMemory (files : List (Path × Except FileError (List UInt8))) :
    (ofMemory files).ByComponents := by
  have hlookup : ∀ p q : Path, p.components = q.components → lookup files p = lookup files q := by
    intro p q h
    simp only [lookup, Path.same, h]
  constructor
  · intro p q h
    simp only [ofMemory, hlookup p q h]
  · intro p q h
    simp only [ofMemory, hlookup p q h]
    cases lookup files q <;> rfl

end AssetFiles

namespace Rewrite

/-! ### Worlds that differ in spellings -/

/-- Modules that differ only in how their directories are written. -/
structure SameButSpelling (m n : AssetModule) : Prop where
  name : m.name = n.name
  version : m.version = n.version
  root : m.root.components = n.root.components
  assetsRoot : m.assetsRoot.components = n.assetsRoot.components

/-- Contexts that differ only in how paths are written: those of the stylesheet, of its module and
of the modules that references lead into. -/
structure SameButSpellings (a b : Context) : Prop where
  owner : SameButSpelling a.owner b.owner
  resolve : ∀ name, Option.Rel SameButSpelling (a.resolve name) (b.resolve name)
  source : a.source.components = b.source.components
  files : a.files = b.files
  options : a.options = b.options

/-- Reports of the same reference and the same file. -/
structure SameMissing (m n : MissingAsset) : Prop where
  reference : m.reference = n.reference
  file : m.file.components = n.file.components

theorem SameButSpelling.assetDir {m n : AssetModule} (h : SameButSpelling m n) :
    m.assetDir.components = n.assetDir.components := by
  have hnil : m.assetsRoot.bytes = [] ↔ n.assetsRoot.bytes = [] := by
    rw [← Path.components_eq_nil_iff, ← Path.components_eq_nil_iff, h.assetsRoot]
  rw [AssetModule.assetDir, AssetModule.assetDir]
  by_cases hroot : n.assetsRoot.bytes = []
  · rw [if_pos (hnil.mpr hroot), if_pos hroot, h.root]
  · rw [if_neg (mt hnil.mp hroot), if_neg hroot]
    exact Path.components_join_congr h.root h.assetsRoot

/-! ### Addresses -/

/-- Addresses of one asset. -/
structure SameAddress (a b : Address) : Prop where
  owner : SameButSpelling a.owner b.owner
  path : a.path = b.path
  suffix : a.suffix = b.suffix

theorem SameAddress.ofText {m n : AssetModule} (h : SameButSpelling m n) (text : Text) :
    SameAddress (Address.ofText m text) (Address.ofText n text) :=
  ⟨h, rfl, rfl⟩

theorem SameAddress.file {x y : Address} (h : SameAddress x y) :
    x.file.components = y.file.components := by
  rw [Address.file, Address.file, assetFile, assetFile, h.path]
  exact Path.components_join_congr h.owner.assetDir rfl

namespace SameButSpellings

variable {a b : Context} (h : SameButSpellings a b)
include h

theorem sourceDir : a.sourceDir = b.sourceDir :=
  RelativePath.directory_congr h.owner.assetDir h.source

theorem joined (raw : Text) : a.joined raw = b.joined raw := by
  rw [Context.joined, Context.joined, h.sourceDir]

/-- A reference leads to the same address. -/
theorem address?_rel (raw : Text) : Option.Rel SameAddress (a.address? raw) (b.address? raw) := by
  rw [Context.address?, Context.address?]
  cases Target.classify raw with
  | external => exact .none
  | inModule name path =>
    have howner := h.resolve name
    dsimp only
    generalize a.resolve name = m, b.resolve name = n at howner
    cases howner with
    | none => exact .none
    | some hmn => exact .some (SameAddress.ofText hmn path)
  | relative path =>
    dsimp only
    rw [h.joined]
    exact .some (SameAddress.ofText h.owner _)

/-- And it leads into an unknown module in both. -/
theorem unknown?_eq (raw : Text) : a.unknown? raw = b.unknown? raw := by
  have hnone : ∀ name, (a.resolve name).isNone = (b.resolve name).isNone := by
    intro name
    have howner := h.resolve name
    generalize a.resolve name = m, b.resolve name = n at howner
    cases howner <;> rfl
  simp only [Context.unknown?, hnone]

theorem firstUnknown?_eq (refs : List Reference) :
    a.firstUnknown? refs = b.firstUnknown? refs := by
  simp only [Context.firstUnknown?, h.unknown?_eq]

/-! ### References -/

section Files

variable (hfiles : a.files.ByComponents)
include hfiles

theorem holds_eq {x y : Address} (hxy : SameAddress x y) :
    a.files.holds x.file = b.files.holds y.file := by
  rw [← h.files, hfiles.holds _ _ hxy.file]

theorem served_eq {x y : Address} (hxy : SameAddress x y) : a.served x = b.served y := by
  have hread := hfiles.read _ _ hxy.file
  have hdigest : (withDigest a x.file y.path).1 = (withDigest b y.file y.path).1 := by
    rw [withDigest, withDigest, ← h.options, ← h.files]
    split_ifs
    · generalize a.files.read x.file = r, a.files.read y.file = r' at hread
      cases r with
      | error _ =>
        cases r' with
        | error _ => rfl
        | ok _ => exact absurd hread nofun
      | ok bytes =>
        cases r' with
        | error _ => exact absurd hread nofun
        | ok bytes' => rw [Option.some_inj.mp hread]
    · rfl
  rw [Context.served, Context.served, h.holds_eq hfiles hxy, hxy.path, hdigest]

theorem url_eq {x y : Address} (hxy : SameAddress x y) : a.url x = b.url y := by
  rw [Context.url, Context.url, h.served_eq hfiles hxy, h.options, hxy.owner.name,
    hxy.owner.version, hxy.suffix]

/-- A reference is replaced by the same text. -/
theorem replacement_eq (raw : Text) : a.replacement raw = b.replacement raw := by
  have haddress := h.address?_rel raw
  rw [Context.replacement, Context.replacement]
  generalize a.address? raw = x, b.address? raw = y at haddress
  cases haddress with
  | none => rfl
  | some hxy => exact h.url_eq hfiles hxy

/-- A file that does not exist is the same file. -/
theorem missing?_rel (raw : Text) : Option.Rel SameMissing (a.missing? raw) (b.missing? raw) := by
  have haddress := h.address?_rel raw
  rw [Context.missing?, Context.missing?]
  generalize a.address? raw = x, b.address? raw = y at haddress
  cases haddress with
  | none => exact .none
  | some hxy =>
    rw [Option.bind_some, Option.bind_some, h.holds_eq hfiles hxy]
    split_ifs
    · exact .none
    · exact .some ⟨rfl, hxy.file⟩

theorem forall₂_missing (refs : List Reference) : List.Forall₂ SameMissing
    (refs.filterMap fun r => a.missing? r.argument)
    (refs.filterMap fun r => b.missing? r.argument) := by
  induction refs with
  | nil => exact .nil
  | cons r rest ih =>
    have hmissing := h.missing?_rel hfiles r.argument
    rw [List.filterMap_cons, List.filterMap_cons]
    generalize a.missing? r.argument = x, b.missing? r.argument = y at hmissing
    cases hmissing with
    | none => exact ih
    | some hmissing => exact .cons hmissing ih

end Files

end SameButSpellings

/-! ### Stylesheets -/

/-- **The spelling of paths does not show.**  In two worlds that differ only in how paths are
written, over files that are known by the components of their paths, a stylesheet is rewritten in
one exactly if it is in the other.  Then the text is the same, and the reports name the same
references and the same files, one after the other.  Otherwise the same module is not known. -/
theorem spelling_irrelevant {a b : Context} (h : SameButSpellings a b)
    (hfiles : a.files.ByComponents) (css : Text) :
    ((∃ sheet, (rewrite a css).2 = .ok sheet) ↔ ∃ sheet, (rewrite b css).2 = .ok sheet) ∧
    (∀ s t, (rewrite a css).2 = .ok s → (rewrite b css).2 = .ok t →
      s.css = t.css ∧ List.Forall₂ SameMissing s.missing t.missing) ∧
    ∀ name, (∃ source, (rewrite a css).2 = .error (.moduleNotFound name source)) ↔
      ∃ source, (rewrite b css).2 = .error (.moduleNotFound name source) := by
  rw [a.rewrite_eq css, b.rewrite_eq css, h.firstUnknown?_eq]
  cases b.firstUnknown? (Reference.scan css) with
  | some name =>
    refine ⟨by simp, nofun, fun name' => ?_⟩
    simp
  | none =>
    refine ⟨by simp, ?_, by simp⟩
    rintro s t ⟨⟩ ⟨⟩
    refine ⟨?_, h.forall₂_missing hfiles _⟩
    simp only [h.replacement_eq hfiles]

/-- A module, a library and a stylesheet whose paths are written with more slashes and dots. -/
theorem spelling_irrelevant_fillers :
    let files := AssetFiles.ofMemory [(Path.ofString "/srv/app/css/../a.png", .ok [0x78])]
    let context (root assets lib source : String) : Context :=
      ⟨⟨"app".toList, none, Path.ofString root, Path.ofString assets⟩, Path.ofString source,
        fun _ => some ⟨"lib".toList, none, Path.ofString lib, Path.empty⟩, files, .standard⟩
    let a := context "/srv/app" "css" "/srv/lib" "/srv/app/css/x/main.css"
    let b := context "/srv//./app/" "css/." "//srv/lib/" "/srv/app/./css//x/main.css/"
    let css := "p\x7bbackground:url(lib:b.png),url(../../a.png)\x7d".toList
    ∃ s t, (rewrite a css).2 = .ok s ∧ (rewrite b css).2 = .ok t ∧ s.css = t.css ∧
      s.missing = [⟨"lib:b.png".toList, Path.ofString "/srv/lib/b.png"⟩] ∧
      List.Forall₂ SameMissing s.missing t.missing := by
  intro files context a b css
  have h : SameButSpellings a b :=
    ⟨⟨rfl, rfl, by decide, by decide⟩, fun _ => .some ⟨rfl, rfl, by decide, rfl⟩, by decide, rfl,
      rfl⟩
  have hscan : Reference.scan css =
      [⟨.url, "lib:b.png".toList, 17⟩, ⟨.url, "../../a.png".toList, 32⟩] := by
    rw [Reference.scan_of_imports_eq_nil (by decide +kernel)]
    decide +kernel
  have hs : (rewrite a css).2 = .ok
      ⟨"p\x7bbackground:url(/g/lib/b.png),url(/g/app/../a-11f6ad8ec5.png)\x7d".toList,
        [⟨"lib:b.png".toList, Path.ofString "/srv/lib/b.png"⟩]⟩ :=
    Context.rewrite_of_scan hscan (by decide +kernel) (by decide +kernel) (by decide +kernel)
  obtain ⟨hok, hsame, -⟩ := spelling_irrelevant h (AssetFiles.byComponents_ofMemory _) css
  obtain ⟨t, ht⟩ := hok.mp ⟨_, hs⟩
  obtain ⟨hcss, hmissing⟩ := hsame _ t hs ht
  exact ⟨_, t, hs, ht, hcss, rfl, hmissing⟩

end Rewrite

end StylesheetBuild
