/-
Addresses: the asset that a reference leads to.

A reference that is not external leads to a path in the assets of some module, with a suffix
behind it.  Everything that rewriting does with the reference is said in terms of this address.

* **`Context.rewriteReference_of_unknown?`** — a reference into an unknown module fails;
* **`Context.rewriteReference_of_known`** — any other one is replaced by the URL of its address, or
  by itself if it is external, and its file is reported if there is none;
* **`Context.rewrite_eq`** — the same for a stylesheet: its first reference into an unknown module
  fails it, and otherwise all references are replaced in their places.
-/
import StylesheetBuild.Proofs.Text.Runs
import StylesheetBuild.Rewrite.Basic

namespace StylesheetBuild.Rewrite

/-- Whether a character starts the suffix of a reference. -/
def isMark (c : Char) : Bool :=
  c = '?' || c = '#'

theorem splitSuffix_eq (path : Text) :
    splitSuffix path = (path.takeWhile (!isMark ·), path.dropWhile (!isMark ·)) := rfl

theorem isMark_of_mem_splitSuffix {path : Text} {c : Char} (h : c ∈ (splitSuffix path).1) :
    isMark c = false := by
  have := List.all_eq_true.mp (List.all_takeWhile (p := (!isMark ·)) (l := path)) c h
  simpa using this

theorem isMark_of_head?_splitSuffix {path : Text} {c : Char}
    (h : (splitSuffix path).2.head? = some c) : isMark c := by
  simpa using Text.stops_dropWhile (!isMark ·) path c h

/-- A path in the assets of a module, which has no `?` and no `#`, and a suffix, which is empty or
starts with one of these. -/
structure Address where
  owner : AssetModule
  path : Text
  suffix : Text
  isMark_path : ∀ c ∈ path, isMark c = false
  isMark_suffix : ∀ c, suffix.head? = some c → isMark c

namespace Address

/-- The address that `text` means in the assets of `owner`. -/
def ofText (owner : AssetModule) (text : Text) : Address where
  owner := owner
  path := (splitSuffix text).1
  suffix := (splitSuffix text).2
  isMark_path _ h := isMark_of_mem_splitSuffix h
  isMark_suffix _ h := isMark_of_head?_splitSuffix h

/-- The file at an address, which is the one that is probed. -/
def file (a : Address) : Path :=
  assetFile a.owner a.path

end Address

namespace Context

/-- A relative reference as seen from the assets of the stylesheet's module. -/
def joined (context : Context) (raw : Text) : Text :=
  RelativePath.join context.sourceDir (splitSuffix raw).1 ++ (splitSuffix raw).2

/-- The address that a reference leads to; an external one leads to none. -/
def address? (context : Context) (raw : Text) : Option Address :=
  match Target.classify raw with
  | .external => none
  | .inModule name path => (context.resolve name).map (Address.ofText · path)
  | .relative path => some (Address.ofText context.owner (context.joined path))

/-- The name of the module that a reference leads into, if there is no such module. -/
def unknown? (context : Context) (raw : Text) : Option Text :=
  match Target.classify raw with
  | .inModule name _ => if (context.resolve name).isNone then some name else none
  | _ => none

/-- A reference that leads somewhere does not lead into an unknown module. -/
theorem unknown?_of_address? {context : Context} {raw : Text} {a : Address}
    (h : context.address? raw = some a) : context.unknown? raw = none := by
  rw [address?] at h
  rw [unknown?]
  cases hclass : Target.classify raw with
  | external => rfl
  | inModule name path =>
    rw [hclass] at h
    obtain ⟨owner, howner, -⟩ := Option.map_eq_some_iff.mp h
    simp [howner]
  | relative path => rfl

/-- One that does not, and is not external, leads somewhere. -/
theorem exists_address? {context : Context} {raw : Text}
    (hinternal : Target.classify raw ≠ .external) (h : context.unknown? raw = none) :
    ∃ a, context.address? raw = some a := by
  rw [unknown?] at h
  rw [address?]
  cases hclass : Target.classify raw with
  | external => exact absurd hclass hinternal
  | inModule name path =>
    simp only [hclass] at h
    cases howner : context.resolve name with
    | none =>
      rw [howner] at h
      exact absurd h (by simp)
    | some owner => exact ⟨Address.ofText owner path, by simp [howner]⟩
  | relative path => exact ⟨_, rfl⟩

/-- The path under which an asset is served. -/
def served (context : Context) (a : Address) : Text :=
  if context.files.holds a.file then (withDigest context a.file a.path).1 else a.path

/-- The URL of an address. -/
def url (context : Context) (a : Address) : Text :=
  context.options.pattern.render a.owner.name a.owner.version (context.served a ++ a.suffix)

/-- What takes the place of a reference. -/
def replacement (context : Context) (raw : Text) : Text :=
  (context.address? raw).elim raw context.url

/-- The report on a reference whose file does not exist. -/
def missing? (context : Context) (raw : Text) : Option MissingAsset :=
  (context.address? raw).bind fun a =>
    if context.files.holds a.file then none else some ⟨raw, a.file⟩

theorem rewritePath_spec (context : Context) (raw : Text) (owner : AssetModule) (text : Text) :
    (rewritePath context raw owner text).url = context.url (Address.ofText owner text) ∧
      (rewritePath context raw owner text).missing =
        if context.files.holds (Address.ofText owner text).file then none
        else some ⟨raw, (Address.ofText owner text).file⟩ := by
  rw [rewritePath, url, served]
  by_cases h : context.files.holds (Address.ofText owner text).file
  · have h' : context.files.holds (assetFile owner (splitSuffix text).1) := h
    simp only [h, h', if_true]
    exact ⟨rfl, trivial⟩
  · have h' : ¬ context.files.holds (assetFile owner (splitSuffix text).1) := h
    simp only [h, h']
    exact ⟨rfl, rfl⟩

/-- A reference into an unknown module fails. -/
theorem rewriteReference_of_unknown? {context : Context} {raw name : Text}
    (h : context.unknown? raw = some name) :
    rewriteReference context raw = .error (.moduleNotFound name context.source) := by
  rw [unknown?] at h
  rw [rewriteReference]
  split at h
  · rename_i name' path hclass
    split at h
    · rename_i hnone
      rw [Option.some_inj] at h
      subst h
      rw [hclass]
      simp only [Option.isNone_iff_eq_none.mp hnone]
    · exact absurd h (by simp)
  · exact absurd h (by simp)

/-- Any other reference is replaced, and its file reported if there is none. -/
theorem rewriteReference_of_known {context : Context} {raw : Text}
    (h : context.unknown? raw = none) :
    ∃ rewritten, rewriteReference context raw = .ok rewritten ∧
      rewritten.url = context.replacement raw ∧ rewritten.missing = context.missing? raw := by
  rw [rewriteReference, replacement, missing?, address?]
  rw [unknown?] at h
  cases hclass : Target.classify raw with
  | external => exact ⟨_, rfl, rfl, rfl⟩
  | inModule name path =>
    simp only [hclass] at h
    cases howner : context.resolve name with
    | none =>
      rw [howner] at h
      exact absurd h (by simp)
    | some owner =>
      obtain ⟨hurl, hmissing⟩ := rewritePath_spec context raw owner path
      simp only [howner]
      exact ⟨_, rfl, hurl, hmissing⟩
  | relative path =>
    obtain ⟨hurl, hmissing⟩ := rewritePath_spec context raw context.owner (context.joined path)
    exact ⟨_, rfl, hurl, hmissing⟩

/-- The module name that fails a list of references: the one of the first reference into an unknown
module. -/
def firstUnknown? (context : Context) (refs : List Reference) : Option Text :=
  refs.findSome? fun r => context.unknown? r.argument

theorem rewriteReferences_of_unknown {context : Context} {refs : List Reference} {name : Text}
    (h : context.firstUnknown? refs = some name) :
    (rewriteReferences context refs).2 = .error (.moduleNotFound name context.source) := by
  induction refs with
  | nil => exact absurd h (by simp [firstUnknown?])
  | cons r rest ih =>
    rw [firstUnknown?, List.findSome?_cons] at h
    cases hr : context.unknown? r.argument with
    | some name' =>
      rw [hr, Option.some_inj] at h
      subst h
      simp only [rewriteReferences, rewriteReference_of_unknown? hr]
    | none =>
      rw [hr] at h
      obtain ⟨rewritten, hok, -⟩ := rewriteReference_of_known hr
      simp only [rewriteReferences, hok, ih h]
      rfl

theorem rewriteReferences_of_known {context : Context} {refs : List Reference}
    (h : context.firstUnknown? refs = none) :
    ∃ rewritten, (rewriteReferences context refs).2 = .ok rewritten ∧
      rewritten.map (·.url) = refs.map (fun r => context.replacement r.argument) ∧
      rewritten.filterMap (·.missing) = refs.filterMap fun r => context.missing? r.argument := by
  induction refs with
  | nil => exact ⟨[], rfl, rfl, rfl⟩
  | cons r rest ih =>
    rw [firstUnknown?, List.findSome?_cons] at h
    cases hr : context.unknown? r.argument with
    | some name =>
      rw [hr] at h
      exact absurd h (by simp)
    | none =>
      rw [hr] at h
      obtain ⟨first, hok, hurl, hmissing⟩ := rewriteReference_of_known hr
      obtain ⟨others, hothers, hurls, hmissings⟩ := ih h
      refine ⟨first :: others, ?_, ?_, ?_⟩
      · simp only [rewriteReferences, hok, hothers]
        rfl
      · rw [List.map_cons, List.map_cons, hurl, hurls]
      · rw [List.filterMap_cons, List.filterMap_cons, hmissing, hmissings]

/-- The result of rewriting a stylesheet. -/
theorem rewrite_eq (context : Context) (css : Text) :
    (rewrite context css).2 =
      match context.firstUnknown? (Reference.scan css) with
      | some name => .error (.moduleNotFound name context.source)
      | none => .ok
          ⟨interleave (gapsFrom 0 css (Reference.scan css))
              ((Reference.scan css).map fun r => context.replacement r.argument),
            (Reference.scan css).filterMap fun r => context.missing? r.argument⟩ := by
  rw [rewrite]
  cases h : context.firstUnknown? (Reference.scan css) with
  | some name =>
    simp only [rewriteReferences_of_unknown h]
    rfl
  | none =>
    obtain ⟨rewritten, hok, hurls, hmissings⟩ := rewriteReferences_of_known h
    simp only [hok, ← hurls, ← hmissings]
    rfl

/-- A stylesheet with given references, all of them into known modules. -/
theorem rewrite_of_scan {context : Context} {css : Text} {rs : List Reference}
    {sheet : Stylesheet} (hscan : Reference.scan css = rs)
    (hknown : context.firstUnknown? rs = none)
    (hcss : interleave (gapsFrom 0 css rs) (rs.map fun r => context.replacement r.argument) =
      sheet.css)
    (hmissing : rs.filterMap (fun r => context.missing? r.argument) = sheet.missing) :
    (rewrite context css).2 = .ok sheet := by
  subst hscan
  rw [context.rewrite_eq css, hknown, hcss, hmissing]

end Context

end StylesheetBuild.Rewrite
