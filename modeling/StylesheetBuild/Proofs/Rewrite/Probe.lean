/-
Where a relative reference is looked for.

A relative reference names a file below the directory of the stylesheet.  Rewriting takes it to a
path in the assets of the module and looks for the file there, and both ways lead to the same place
unless a `?` or `#` in that path is taken for the beginning of a suffix.

* **`follow_takeWhile_iff`** — a path cut in front of its first `?` or `#` leads elsewhere;
* **`relative_probed_iff`** — so a relative reference is looked for at the file that it names
  exactly when its path in the assets has neither.

Design notes: the suffix of a reference is split off before the reference is joined to its
directory, but the joined path is split once more, when the names of directories are in it.
-/
import Mathlib.Data.List.TakeWhile
import StylesheetBuild.Proofs.Path.Directory
import StylesheetBuild.Proofs.Rewrite.Address

namespace StylesheetBuild.Rewrite

open Pieces RelativePath

/-! ### Cutting a path -/

/-- A name and what follows it lead elsewhere than another segment. -/
theorem follow_singleton_ne (location : Location) {segment name : Text} (hne : segment ≠ name)
    (names : List (List UInt8)) :
    location.follow [segment] ≠ location ++ Utf8.encode name :: names := by
  intro heq
  rw [Location.follow_singleton] at heq
  split_ifs at heq with hfiller hup
  · have := congrArg List.length heq
    rw [List.length_append, List.length_cons] at this
    omega
  · have := congrArg List.length heq
    rw [List.length_dropLast, List.length_append, List.length_cons] at this
    omega
  · rw [List.append_cancel_left_eq, List.cons.injEq] at heq
    exact hne (Utf8.encode_injective heq.1)

/-- The cut goes through a segment with a mark. -/
theorem exists_cut {path : Text} (h : ¬ ∀ c ∈ path, isMark c = false) :
    ∃ before last name after, split '/' (path.takeWhile (!isMark ·)) = before ++ [last] ∧
      split '/' path = before ++ name :: after ∧ last ≠ name ∧ ∃ c ∈ name, isMark c := by
  have hdrop : path.dropWhile (!isMark ·) ≠ [] := by
    rw [Ne, List.dropWhile_eq_nil_iff]
    simpa using h
  obtain ⟨mark, rest, hrest⟩ := List.exists_cons_of_ne_nil hdrop
  have hmark : isMark mark := by simpa using Text.of_dropWhile_eq_cons hrest
  obtain ⟨before, last, first, after, hfront, hback, hsplit⟩ :=
    exists_split_append '/' (path.takeWhile (!isMark ·)) (path.dropWhile (!isMark ·))
  rw [List.takeWhile_append_dropWhile] at hsplit
  obtain ⟨others, rfl⟩ : ∃ others, first = mark :: others := by
    obtain ⟨piece, pieces, hpieces⟩ := List.exists_cons_of_ne_nil (split_ne_nil '/' rest)
    have hslash : mark ≠ '/' := by
      rintro rfl
      exact absurd hmark (by decide)
    rw [hrest, split, if_neg hslash, hpieces, List.modifyHead_cons, List.cons.injEq] at hback
    exact ⟨piece, hback.1.symm⟩
  refine ⟨before, last, last ++ mark :: others, after, hfront, hsplit, fun hlast => ?_, mark,
    List.mem_append_right last List.mem_cons_self, hmark⟩
  exact absurd (List.self_eq_append_right.mp hlast) (List.cons_ne_nil _ _)

/-- A resolved path cut in front of its first `?` or `#` leads elsewhere. -/
theorem follow_takeWhile_iff {path : Text}
    (hpath : (split '/' path).Pairwise fun s t => t = up → s = up) (location : Location) :
    location.follow (split '/' (path.takeWhile (!isMark ·))) = location.follow (split '/' path) ↔
      ∀ c ∈ path, isMark c = false := by
  constructor
  · intro heq
    by_contra hmark
    obtain ⟨before, last, name, after, hcut, hsplit, hne, hname⟩ := exists_cut hmark
    have hplain : ∀ segment : Text, segment.all (!isMark ·) → name ≠ segment := by
      rintro segment hall rfl
      obtain ⟨c, hc, hmark⟩ := hname
      have := List.all_eq_true.mp hall c hc
      rw [hmark] at this
      exact absurd this (by decide)
    -- behind a name there is no `..`, so nothing takes the name away again
    have hup : up ∉ after := by
      intro hafter
      rw [hsplit, List.pairwise_append, List.pairwise_cons] at hpath
      exact hplain up (by decide) (hpath.2.1.1 up hafter rfl)
    rw [hcut, hsplit, Location.follow_append, Location.follow_append, Location.follow_cons _ name,
      Location.follow_name _ (hplain [] (by decide)) (hplain ['.'] (by decide))
        (hplain up (by decide))] at heq
    obtain ⟨names, hnames⟩ := Location.exists_follow_eq_append hup
      (location.follow before ++ [Utf8.encode name])
    rw [hnames, List.append_assoc, List.singleton_append] at heq
    exact follow_singleton_ne _ hne names heq
  · intro h
    have hall : ∀ c ∈ path, !isMark c := by
      intro c hc
      rw [h c hc]
      rfl
    rw [List.takeWhile_eq_self_iff.mpr hall]

/-! ### Both ways to the file -/

/-- Where the file of an asset path is, below the assets of its module. -/
theorem location_assetFile {owner : AssetModule} (h : owner.assetDir.isAbsolute) (path : Text) :
    (assetFile owner path).location = owner.assetDir.location.follow (split '/' path) := by
  have hhead : (path.dropWhile (· = '/')).head? ≠ some '/' := by
    intro hhead
    have := List.head?_dropWhile_not (· = '/') path
    rw [hhead] at this
    exact absurd this (by decide)
  rw [assetFile, Path.location_join_ofText h hhead]
  exact Location.follow_split_dropWhile _ path

namespace Context

/-- The path that a relative reference names, as it is written: below the directory of the
stylesheet, in front of its suffix, and with slashes for backslashes. -/
def named (context : Context) (raw : Text) : Path :=
  ⟨(context.source.parent?.getD Path.empty).bytes ++
    Path.slash :: Utf8.encode (withSlashes (splitSuffix raw).1)⟩

/-- A reference is looked for at a path: whatever the files are, it is reported with that path
exactly when there is nothing. -/
def Probes (context : Context) (raw : Text) (file : Path) : Prop :=
  ∀ files : AssetFiles, ∃ rewritten,
    rewriteReference { context with files := files } raw = .ok rewritten ∧
      rewritten.missing = if files.holds file then none else some ⟨raw, file⟩

theorem location_named {context : Context} {text : Text} (hdir : context.owner.assetDir.isAbsolute)
    (hup : .parent ∉ context.owner.assetDir.components) (htext : context.source = Path.ofText text)
    (hsource : context.source.isAbsolute) (raw : Text) :
    (context.named raw).location = context.owner.assetDir.location.follow
      (split '/' (RelativePath.join context.sourceDir (splitSuffix raw).1)) := by
  rw [named, Path.location_parent?_ofText hsource, Location.follow_split_join, sourceDir]
  rw [htext] at hsource ⊢
  rw [Location.follow_directory hdir hup hsource]

/-- The second split cuts the joined path in front of its first `?` or `#`. -/
theorem splitSuffix_joined (context : Context) (raw : Text) :
    (splitSuffix (context.joined raw)).1 =
      (RelativePath.join context.sourceDir (splitSuffix raw).1).takeWhile (!isMark ·) := by
  have hsuffix : (splitSuffix raw).2.takeWhile (!isMark ·) = [] := by
    cases hcases : (splitSuffix raw).2 with
    | nil => rfl
    | cons c rest =>
      have hhead : (splitSuffix raw).2.head? = some c := by
        rw [hcases]
        rfl
      have hmark : isMark c := isMark_of_head?_splitSuffix hhead
      exact List.takeWhile_cons_of_neg (by simpa using hmark)
  rw [joined, splitSuffix_eq, List.takeWhile_append]
  split_ifs with h
  · rw [hsuffix, List.append_nil, (List.takeWhile_prefix _).eq_of_length h]
  · rfl

/-- A reference is looked for at the file of its address. -/
theorem probes_of_address? {context : Context} {raw : Text} {a : Address}
    (h : context.address? raw = some a) : context.Probes raw a.file := by
  intro files
  have haddress : address? { context with files := files } raw = some a := h
  obtain ⟨rewritten, hok, -, hmissing⟩ := rewriteReference_of_known (unknown?_of_address? haddress)
  refine ⟨rewritten, hok, ?_⟩
  rw [hmissing, missing?, haddress]
  rfl

theorem reference_of_missing? {context : Context} {raw : Text} {asset : MissingAsset}
    (h : context.missing? raw = some asset) : asset.reference = raw := by
  obtain ⟨a, -, ha⟩ := Option.bind_eq_some_iff.mp h
  split_ifs at ha
  rw [← Option.some_inj.mp ha]

/-- What a stylesheet reports on one of its references. -/
theorem mem_missing_iff {context : Context} {css raw : Text} {sheet : Stylesheet}
    (hsheet : (rewrite context css).2 = .ok sheet)
    (hraw : raw ∈ (Reference.scan css).map (·.argument)) (file : Path) :
    ⟨raw, file⟩ ∈ sheet.missing ↔ context.missing? raw = some ⟨raw, file⟩ := by
  rw [context.rewrite_eq css] at hsheet
  cases hunknown : context.firstUnknown? (Reference.scan css) with
  | some name =>
    rw [hunknown] at hsheet
    exact absurd hsheet (by simp)
  | none =>
    rw [hunknown] at hsheet
    obtain rfl := Except.ok.inj hsheet
    show _ ∈ (Reference.scan css).filterMap (fun r => context.missing? r.argument) ↔ _
    rw [List.mem_filterMap]
    constructor
    · rintro ⟨r, -, hr⟩
      obtain rfl : raw = r.argument := reference_of_missing? hr
      exact hr
    · intro h
      obtain ⟨r, hr, rfl⟩ := List.mem_map.mp hraw
      exact ⟨r, hr, h⟩

end Context

/-- **Where a relative reference is looked for.**  There is one file at which it is looked for and
with which a stylesheet reports it; this is the file that it names exactly when its path in the
assets has no `?` and no `#`. -/
theorem relative_probed_iff (context : Context) (text raw : Text)
    (hdir : context.owner.assetDir.isAbsolute)
    (hup : .parent ∉ context.owner.assetDir.components)
    (htext : context.source = Path.ofText text) (hsource : context.source.isAbsolute)
    (hraw : Target.classify raw = .relative raw) :
    ∃ file, context.Probes raw file ∧
      (∀ css sheet, (rewrite context css).2 = .ok sheet →
        raw ∈ (Reference.scan css).map (·.argument) →
        ∀ f, ⟨raw, f⟩ ∈ sheet.missing ↔ f = file ∧ context.files.holds file = false) ∧
      (file.location = (context.named raw).location ↔
        ∀ c ∈ RelativePath.join context.sourceDir (splitSuffix raw).1, isMark c = false) := by
  have haddress : context.address? raw =
      some (Address.ofText context.owner (context.joined raw)) := by
    rw [Context.address?, hraw]
  refine ⟨_, Context.probes_of_address? haddress, ?_, ?_⟩
  · intro css sheet hsheet hmem f
    rw [Context.mem_missing_iff hsheet hmem, Context.missing?, haddress]
    show (if context.files.holds _ then none else some _) = _ ↔ _
    split_ifs with hholds
    · simp [hholds]
    · simp [hholds, eq_comm]
  · rw [Context.location_named hdir hup htext hsource, Address.file]
    show (assetFile context.owner (splitSuffix (context.joined raw)).1).location = _ ↔ _
    rw [location_assetFile hdir, Context.splitSuffix_joined]
    exact follow_takeWhile_iff (split_join_pairwise _ _) _

/-- A reference up and down again, with a suffix. -/
theorem relative_probed_iff_font :
    let context : Context :=
      ⟨⟨"app".toList, none, Path.ofString "/srv/app", Path.ofString "public"⟩,
        Path.ofString "/srv/app/styles/main.scss", fun _ => none, .ofMemory [], .standard⟩
    let raw := "..\\public/a.woff?v=1".toList
    ∃ file, context.Probes raw file ∧ file.location = (context.named raw).location ∧
      (context.named raw).location = (Path.ofString "/srv/app/public/a.woff").location := by
  intro context raw
  obtain ⟨file, hprobes, -, hiff⟩ := relative_probed_iff context
    "/srv/app/styles/main.scss".toList raw rfl (by decide +kernel) rfl rfl (by decide +kernel)
  have hall : (RelativePath.join context.sourceDir (splitSuffix raw).1).all (!isMark ·) := by
    decide +kernel
  have hplain : ∀ c ∈ RelativePath.join context.sourceDir (splitSuffix raw).1,
      isMark c = false := by
    intro c hc
    simpa using List.all_eq_true.mp hall c hc
  exact ⟨file, hprobes, hiff.mpr hplain, by decide +kernel⟩

/-- In a directory called `c#` a relative reference is looked for elsewhere, and an existing file
is reported. -/
theorem relative_probed_elsewhere :
    let css := ".a\x7bbackground:url(a.png)\x7d".toList
    let raw := "a.png".toList
    let file := Path.ofString "/srv/app/c#/a.png"
    let context : Context :=
      ⟨⟨"app".toList, none, Path.ofString "/srv/app", Path.empty⟩,
        Path.ofString "/srv/app/c#/main.scss", fun _ => none, .ofMemory [(file, .ok [0x78])],
        ⟨.development, UrlPattern.below UrlPattern.defaultRoot, .contentHash, by decide⟩⟩
    (context.owner.assetDir.isAbsolute ∧ .parent ∉ context.owner.assetDir.components ∧
        context.source.isAbsolute ∧ .parent ∉ context.source.components) ∧
      Target.classify raw = .relative raw ∧
      context.named raw = file ∧ context.files.holds file ∧
      (rewrite context css).2.toOption.map (·.missing) =
        some [⟨raw, Path.ofString "/srv/app/c"⟩] ∧
      (Path.ofString "/srv/app/c").location ≠ file.location := by
  intro css raw file context
  have hscan : Reference.scan css = [⟨.url, raw, 18⟩] := by
    have hurls : Reference.urls css = [⟨.url, raw, 18⟩] := by decide +kernel
    have himports : Reference.imports css = [] := by decide +kernel
    rw [Reference.scan, hurls, himports, List.merge_right]
    rfl
  have hmissing : (rewrite context css).2.toOption.map (·.missing) =
      some [⟨raw, Path.ofString "/srv/app/c"⟩] := by
    rw [rewrite, hscan]
    decide +kernel
  exact ⟨by decide +kernel, by decide +kernel, by decide +kernel, by decide +kernel, hmissing,
    by decide +kernel⟩

end StylesheetBuild.Rewrite
