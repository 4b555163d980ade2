/-
The stages of a build, and which one has the last word.

A stylesheet is skipped, or refused by the compiler, or fails for a reference into an unknown
module, or comes out compiled and rewritten; a stage is reached only if none before it has had the
last word.

* **`isPartial_iff`** — a partial has a name that starts with an underscore and is well-formed;
* **`skipReason?_spec`** — a stylesheet is skipped for the first reason that applies, if one does;
* **`build_spec`** — what a build leaves behind is what its last stage leaves;
* **`build_stages`** — so a build goes through its stages in order, and it takes every file whose
  name starts with an underscore for a partial exactly if the name is well-formed UTF-8.

Design notes: which files are partials is a parameter of the stages.  A name is looked at as a
text, so one that is no text passes for a name without an underscore, whatever its first byte is.
-/
import StylesheetBuild.Pipeline.Basic
import StylesheetBuild.Proofs.Text.Decoding

namespace StylesheetBuild.Pipeline

/-! ### Names of partials -/

/-- The byte of an underscore. -/
def underscore : UInt8 := 0x5F

/-- The file name of a path starts with an underscore, whatever bytes come behind it. -/
def StartsWithUnderscore (path : Path) : Prop :=
  ∃ rest, path.fileName? = some (underscore :: rest)

/-- The file name of a path is a text in well-formed UTF-8. -/
def HasTextName (path : Path) : Prop :=
  ∃ name text, path.fileName? = some name ∧ Utf8.decode? name = some text

/-- A partial has a name that starts with an underscore and is a text. -/
theorem isPartial_iff {path : Path} :
    isPartial path ↔ StartsWithUnderscore path ∧ HasTextName path := by
  have hread : ∀ name, (∃ text, Utf8.decode? name = some ('_' :: text)) ↔
      name.head? = some underscore ∧ ∃ text, Utf8.decode? name = some text :=
    fun name => Utf8.exists_decode?_cons_iff (by decide) (by decide)
  have htext : isPartial path ↔
      ∃ name, path.fileName? = some name ∧ ∃ text, Utf8.decode? name = some ('_' :: text) := by
    rw [isPartial]
    cases path.fileName? with
    | none => simp
    | some name =>
      cases hname : Utf8.decode? name <;> simp [hname, List.head?_eq_some_iff]
  rw [htext]
  constructor
  · rintro ⟨name, hname, hdecode⟩
    obtain ⟨hhead, text, htext⟩ := (hread name).mp hdecode
    obtain ⟨rest, rfl⟩ := List.head?_eq_some_iff.mp hhead
    exact ⟨⟨rest, hname⟩, _, text, hname, htext⟩
  · rintro ⟨⟨rest, hrest⟩, name, text, hname, htext⟩
    obtain rfl : name = underscore :: rest := Option.some_inj.mp (hname.symm.trans hrest)
    exact ⟨_, hname, (hread _).mpr ⟨rfl, text, htext⟩⟩

/-! ### Reasons to skip a stylesheet -/

/-- The reasons to skip a stylesheet, in the order in which they are looked at. -/
def SkipReason.inOrder : List SkipReason :=
  [.partialName, .compileDisabled, .legacyIgnore]

/-- A reason to skip the stylesheet of a job applies, where `isPartial` says whether it is a
partial. -/
def SkipReason.Applies (env : Environment) (job : Job) (isPartial : Prop) : SkipReason → Prop
  | partialName => isPartial
  | compileDisabled =>
    Directive.read job.source "compile".toList = some (.value "false".toList)
  | legacyIgnore => env.settings.legacyIgnore ∧
    ∃ directive, Directive.read job.source "ignore".toList = some directive ∧ directive.isTruthy

/-- A reason applies, and none that is looked at before it does. -/
def SkipReason.IsFirst (applies : SkipReason → Prop) (reason : SkipReason) : Prop :=
  applies reason ∧ ∃ before after, inOrder = before ++ reason :: after ∧ ∀ r ∈ before, ¬ applies r

theorem any_hasValue_iff {directive : Option Directive} {text : Text} :
    directive.any (·.hasValue text) ↔ directive = some (.value text) := by
  rcases directive with _ | _ | text' <;> simp [Directive.hasValue, Directive.text?]

/-- A stylesheet is skipped for the first reason that applies, if one does. -/
theorem skipReason?_spec (env : Environment) (job : Job) :
    match skipReason? env.settings.legacyIgnore job.path job.source with
    | some reason => SkipReason.IsFirst (SkipReason.Applies env job (isPartial job.path)) reason
    | none => ∀ reason, ¬ SkipReason.Applies env job (isPartial job.path) reason := by
  have hlegacy : (env.settings.legacyIgnore &&
      (Directive.read job.source "ignore".toList).any (·.isTruthy)) ↔
        SkipReason.Applies env job (isPartial job.path) .legacyIgnore := by
    rw [SkipReason.Applies, Bool.and_eq_true, Option.any_eq_true]
  rw [skipReason?]
  by_cases hpartial : isPartial job.path
  · rw [if_pos hpartial]
    exact ⟨hpartial, [], _, rfl, by simp⟩
  rw [if_neg hpartial]
  by_cases hcompile : (Directive.read job.source "compile".toList).any (·.hasValue "false".toList)
  · rw [if_pos hcompile]
    exact ⟨any_hasValue_iff.mp hcompile, [.partialName], _, rfl,
      List.forall_mem_singleton.mpr hpartial⟩
  rw [if_neg hcompile]
  rw [any_hasValue_iff] at hcompile
  split_ifs with hignore
  · exact ⟨hlegacy.mp hignore, [.partialName, .compileDisabled], [], rfl,
      List.forall_mem_cons.mpr ⟨hpartial, List.forall_mem_singleton.mpr hcompile⟩⟩
  · rintro (_ | _ | _)
    · exact hpartial
    · exact hcompile
    · exact fun h => hignore (hlegacy.mpr h)

/-! ### Stages -/

/-- The one use of the compiler for the stylesheet of a job. -/
def Environment.call (env : Environment) (job : Job) : Call :=
  ⟨job.source, env.settings.compileOptions job.path job.owner⟩

/-- What is noted when the compiler is called for the stylesheet of a job. -/
def Environment.started (env : Environment) (job : Job) : List Event :=
  [.building job.path job.owner.name, .compileOptions (env.call job).options]

/-- What is noted about a rewritten stylesheet besides what rewriting notes. -/
def missingNote (job : Job) (sheet : Rewrite.Stylesheet) : List Event :=
  if sheet.missing = [] then [] else [.missingAssets job.path sheet.missing.length]

/-- What the last stage of a build leaves behind, where `isPartial` says whether the stylesheet is a
partial: each stage is reached if the ones before it let the stylesheet through. -/
inductive Stages (env : Environment) (job : Job) (isPartial : Prop) : Run → Prop
  | skipped {reason : SkipReason}
      (hreason : SkipReason.IsFirst (SkipReason.Applies env job isPartial) reason) :
      Stages env job isPartial ⟨[], [.skipping job.path reason], .ok (.skipped reason)⟩
  | refused {noted : List Event} {error : CompileError}
      (hreason : ∀ reason, ¬ SkipReason.Applies env job isPartial reason)
      (hcompiled : env.compiler job.source (env.call job).options = (noted, .error error)) :
      Stages env job isPartial
        ⟨[env.call job], env.started job ++ noted, .error (.compile error)⟩
  | unresolved {noted : List Event} {css : Text} {events : List Rewrite.Event}
      {error : Rewrite.Error}
      (hreason : ∀ reason, ¬ SkipReason.Applies env job isPartial reason)
      (hcompiled : env.compiler job.source (env.call job).options = (noted, .ok css))
      (hrewritten : Rewrite.rewrite (env.rewriteContext job) css = (events, .error error)) :
      Stages env job isPartial
        ⟨[env.call job], env.started job ++ noted ++ events.map .rewriting,
          .error (.rewrite error)⟩
  | compiled {noted : List Event} {css : Text} {events : List Rewrite.Event}
      {sheet : Rewrite.Stylesheet}
      (hreason : ∀ reason, ¬ SkipReason.Applies env job isPartial reason)
      (hcompiled : env.compiler job.source (env.call job).options = (noted, .ok css))
      (hrewritten : Rewrite.rewrite (env.rewriteContext job) css = (events, .ok sheet)) :
      Stages env job isPartial
        ⟨[env.call job],
          env.started job ++ noted ++ (events.map .rewriting ++ missingNote job sheet),
          .ok (.compiled sheet.css)⟩

theorem build_of_error {env : Environment} {job : Job} {noted : List Event} {error : CompileError}
    (hskip : skipReason? env.settings.legacyIgnore job.path job.source = none)
    (hcompiled : env.compiler job.source (env.call job).options = (noted, .error error)) :
    build env job = ⟨[env.call job], env.started job ++ noted, .error (.compile error)⟩ := by
  rw [Environment.call] at hcompiled
  simp only [build, hskip, hcompiled]
  rfl

theorem build_of_ok {env : Environment} {job : Job} {noted : List Event} {css : Text}
    (hskip : skipReason? env.settings.legacyIgnore job.path job.source = none)
    (hcompiled : env.compiler job.source (env.call job).options = (noted, .ok css)) :
    build env job = ⟨[env.call job], env.started job ++ noted ++ (finish env job css).1,
      (finish env job css).2⟩ := by
  rw [Environment.call] at hcompiled
  simp only [build, hskip, hcompiled]
  rfl

/-- Without references, what the compiler makes of a stylesheet is what comes out. -/
theorem build_result_of_scan_eq_nil {env : Environment} {job : Job} {noted : List Event}
    {css : Text} (hskip : skipReason? env.settings.legacyIgnore job.path job.source = none)
    (hcompiled : env.compiler job.source (env.call job).options = (noted, .ok css))
    (hscan : Reference.scan css = []) : (build env job).result = .ok (.compiled css) := by
  rw [build_of_ok hskip hcompiled, finish, Rewrite.rewrite_of_scan_eq_nil _ hscan]

/-- A stylesheet that is not skipped goes to the compiler, and what comes out is rewritten. -/
theorem build_of_not_skipped {env : Environment} {job : Job} {isPartial : Prop}
    (hskip : skipReason? env.settings.legacyIgnore job.path job.source = none)
    (hreason : ∀ reason, ¬ SkipReason.Applies env job isPartial reason) :
    Stages env job isPartial (build env job) := by
  rcases hcompiled : env.compiler job.source (env.call job).options with ⟨noted, error | css⟩
  · rw [build_of_error hskip hcompiled]
    exact .refused hreason hcompiled
  · rw [build_of_ok hskip hcompiled, finish]
    rcases hrewritten : Rewrite.rewrite (env.rewriteContext job) css with ⟨events, error | sheet⟩
    · exact .unresolved hreason hcompiled hrewritten
    · exact .compiled hreason hcompiled hrewritten

/-- A build goes through its stages in order. -/
theorem build_spec (env : Environment) (job : Job) :
    Stages env job (isPartial job.path) (build env job) := by
  have hspec := skipReason?_spec env job
  cases hskip : skipReason? env.settings.legacyIgnore job.path job.source with
  | none =>
    rw [hskip] at hspec
    exact build_of_not_skipped hskip hspec
  | some reason =>
    rw [hskip] at hspec
    simp only [build, hskip]
    exact .skipped hspec

/-- A partial is skipped as one before anything else is looked at. -/
theorem Stages.eq_of_partial {env : Environment} {job : Job} {isPartial : Prop} {run : Run}
    (h : Stages env job isPartial run) (hpartial : isPartial) :
    run = ⟨[], [.skipping job.path .partialName], .ok (.skipped .partialName)⟩ := by
  cases h with
  | skipped hreason =>
    obtain ⟨-, before, after, horder, hbefore⟩ := hreason
    cases before with
    | nil =>
      obtain ⟨rfl, -⟩ := List.cons.inj horder
      rfl
    | cons first before =>
      obtain ⟨rfl, -⟩ := List.cons.inj horder
      exact absurd hpartial (hbefore _ List.mem_cons_self)
  | refused hreason => exact absurd hpartial (hreason .partialName)
  | unresolved hreason => exact absurd hpartial (hreason .partialName)
  | compiled hreason => exact absurd hpartial (hreason .partialName)

/-- What is skipped as a partial is one. -/
theorem Stages.isPartial_of_skipped {env : Environment} {job : Job} {isPartial : Prop} {run : Run}
    (h : Stages env job isPartial run) (hresult : run.result = .ok (.skipped .partialName)) :
    isPartial := by
  cases h with
  | skipped hreason =>
    obtain rfl := Outcome.skipped.inj (Except.ok.inj hresult)
    exact hreason.1
  | refused | unresolved | compiled => exact absurd hresult (by simp)

/-- With partials told by the first bytes of their names, a build goes through its stages unless
the name starts with an underscore and is no text. -/
theorem stages_startsWithUnderscore_iff (env : Environment) (job : Job) :
    Stages env job (StartsWithUnderscore job.path) (build env job) ↔
      (StartsWithUnderscore job.path → HasTextName job.path) := by
  have hbuild := build_spec env job
  constructor
  · intro h hunderscore
    have hskipped : (build env job).result = .ok (.skipped .partialName) := by
      rw [h.eq_of_partial hunderscore]
    exact (isPartial_iff.mp (hbuild.isPartial_of_skipped hskipped)).2
  · intro h
    have hiff : (isPartial job.path : Prop) = StartsWithUnderscore job.path :=
      propext (isPartial_iff.trans ⟨And.left, fun hunderscore => ⟨hunderscore, h hunderscore⟩⟩)
    rwa [hiff] at hbuild

/-- **A build goes through its stages in order.**  A stylesheet is skipped for the first reason that
applies, and then the compiler is not called.  Otherwise the compiler is called once; its error is
the result, without any rewriting, or else its output is rewritten, and that decides.  Partials are
the files whose names start with an underscore, as long as these are texts: the same holds with
first bytes in the place of texts exactly if the name is a text wherever it starts with an
underscore. -/
theorem build_stages (env : Environment) (job : Job) :
    Stages env job (StartsWithUnderscore job.path ∧ HasTextName job.path) (build env job) ∧
      (Stages env job (StartsWithUnderscore job.path) (build env job) ↔
        (StartsWithUnderscore job.path → HasTextName job.path)) := by
  refine ⟨?_, stages_startsWithUnderscore_iff env job⟩
  have hbuild := build_spec env job
  rwa [propext isPartial_iff] at hbuild

/-- A file with an underscore and a byte that begins no character in front of its extension is
compiled, although its name starts with an underscore. -/
theorem build_illFormed_partial :
    let path : Path := ⟨(Path.ofString "/srv/app/").bytes ++ underscore :: 0xFF ::
      (Path.ofString ".scss").bytes⟩
    let owner : AssetModule := ⟨"app".toList, none, Path.ofString "/srv/app", Path.empty⟩
    let echo : Compiler := fun source _ => ([], .ok source)
    let env : Environment :=
      ⟨echo, ⟨false, Path.empty, [], none, none, true, .standard⟩, fun _ => none, .ofMemory []⟩
    let job : Job := ⟨path, ".a\x7b\x7d".toList, owner⟩
    StartsWithUnderscore path ∧ (build env job).calls = [env.call job] ∧
      (build env job).result = .ok (.compiled ".a\x7b\x7d".toList) ∧
      ¬ Stages env job (StartsWithUnderscore path) (build env job) := by
  intro path owner echo env job
  have hname : path.fileName? = some (underscore :: 0xFF :: (Path.ofString ".scss").bytes) := by
    decide +kernel
  have hscan : Reference.scan job.source = [] := by
    rw [Reference.scan_of_imports_eq_nil (by decide +kernel)]
    decide +kernel
  have hskip : skipReason? env.settings.legacyIgnore job.path job.source = none := by
    decide +kernel
  have hcompiled : env.compiler job.source (env.call job).options = ([], .ok job.source) := rfl
  have hresult := build_result_of_scan_eq_nil hskip hcompiled hscan
  have hcalls : (build env job).calls = [env.call job] := build_calls hskip
  refine ⟨⟨_, hname⟩, hcalls, hresult, fun h => ?_⟩
  rw [h.eq_of_partial ⟨_, hname⟩] at hcalls
  exact absurd hcalls (by simp)

end StylesheetBuild.Pipeline
