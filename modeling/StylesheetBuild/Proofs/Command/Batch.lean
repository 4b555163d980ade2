/-
A batch of files is built as if each file were built alone.

* **`map_finished`** — the builds of a batch, in the order of the files;
* **`execute_of_plan`** — once all files are loaded, the command is a list of reports;
* **`execute_batch`** — the command fails for settings that conflict, or else with the first file
  that is not loaded, and otherwise reports what building each file alone gives, whatever the order
  in which builds finish;
* **`execute_batch_conflict`** — the settings may conflict although no file fails.
-/
import StylesheetBuild.Proofs.Command.Loading
import StylesheetBuild.Proofs.Command.Reporting
import StylesheetBuild.Proofs.Pipeline.Stages

namespace StylesheetBuild.Command

open Pipeline (Job)

variable {host : Host} {compiler : Pipeline.Compiler} {request : BuildRequest}

/-! ### Builds in the order of the files -/

theorem filterMap_range_getElem? {α β : Type} (f : α → β) (xs : List α) :
    (List.range xs.length).filterMap (fun i => xs[i]?.map f) = xs.map f := by
  induction xs with
  | nil => rfl
  | cons x xs ih =>
    rw [List.length_cons, List.range_succ_eq_map, List.filterMap_cons, List.filterMap_map]
    show f x :: (List.range xs.length).filterMap (fun i => xs[i]?.map f) = _
    rw [ih, List.map_cons]

/-- Whatever is asked of finished builds, the answers are in the order of the files. -/
theorem map_finished {β : Type} (f : Job → Pipeline.Run → β) (env : Pipeline.Environment)
    (jobs : List Job) {order : List Nat} (horder : order.Perm (List.range jobs.length)) :
    (inOrder (finished env jobs order)).map (fun build => f build.job build.run) =
      jobs.map fun job => f job (Pipeline.build env job) := by
  rw [inOrder_finished env jobs horder, finished, List.map_filterMap,
    ← filterMap_range_getElem? _ jobs]
  simp only [Option.map_map, Function.comp_def]

/-! ### The command -/

/-- The console before anything is done. -/
def Console.start (host : Host) : Console :=
  ⟨host, [], Colour.isForced host.lookup, [], 0, []⟩

/-- Announcing a batch only adds to the standard error output. -/
theorem announce_eq (request : BuildRequest) (plan : Plan) (console : Console) :
    announce request plan console =
      { console with status := (announce request plan console).status } := by
  rw [announce]
  cases request.outDir <;> rfl

/-- The console after a batch. -/
def Console.finished (host final : Host) (request : BuildRequest) (plan : Plan)
    (verdicts : List Verdict) : Console where
  host := final
  output := verdicts.flatMap Verdict.output
  coloured := Colour.isForced host.lookup
  status := (announce request plan (Console.start host)).status ++
    (List.zipWith (Verdict.status (Colour.isForced host.lookup)) plan.jobs verdicts).flatten
  failed := verdicts.countP Verdict.isFailed
  events := plan.jobs.flatMap fun job => (Pipeline.build plan.environment job).events

theorem execute_of_plan_error {error : Error}
    (hplan : Command.plan host compiler request = .error error) (order : Nat → List Nat) :
    execute host compiler request order = (Console.start host, .error error) := by
  rw [execute, hplan]
  rfl

/-- Once all files are loaded, their builds are reported. -/
theorem execute_of_plan {plan : Plan} {order : Nat → List Nat}
    (hplan : Command.plan host compiler request = .ok plan)
    (horder : (order plan.jobs.length).Perm (List.range plan.jobs.length)) :
    ∃ verdicts final,
      Reports request.outDir host
        (plan.jobs.map fun job => (job, (Pipeline.build plan.environment job).result)) verdicts
        final ∧
      execute host compiler request order =
        (Console.finished host final request plan verdicts,
          if verdicts.countP Verdict.isFailed = 0 then .ok ()
          else .error (.failures (verdicts.countP Verdict.isFailed) plan.jobs.length)) := by
  -- the builds in the order of the files, and the console when their reports begin
  let builds := inOrder (Command.finished plan.environment plan.jobs (order plan.jobs.length))
  have hmap {β : Type} (f : Job → Pipeline.Run → β) :
      builds.map (fun build => f build.job build.run) =
        plan.jobs.map fun job => f job (Pipeline.build plan.environment job) :=
    map_finished f plan.environment plan.jobs horder
  have hjobs : builds.map (·.job) = plan.jobs := by
    rw [hmap fun job _ => job]
    exact List.map_id' _
  have hlength : builds.length = plan.jobs.length := by
    rw [← hjobs, List.length_map]
  have hevents : builds.flatMap (·.run.events) =
      plan.jobs.flatMap fun job => (Pipeline.build plan.environment job).events := by
    rw [List.flatMap_def, List.flatMap_def, hmap fun _ run => run.events]
  let noted : Console := { Console.start host with
    status := (announce request plan (Console.start host)).status
    events := plan.jobs.flatMap fun job => (Pipeline.build plan.environment job).events }
  have hnoted : { announce request plan (Console.start host) with
      events := builds.flatMap (·.run.events) } = noted := by
    rw [hevents, announce_eq]
  obtain ⟨verdicts, final, hreports, hfold⟩ := exists_reports request.outDir noted builds
  rw [hmap fun job run => (job, run.result)] at hreports
  have hfinished : builds.foldl (Console.report request.outDir) noted =
      Console.finished host final request plan verdicts := by
    rw [hfold, hjobs]
    simp only [noted, Console.start, Console.finished, List.nil_append, Nat.zero_add]
  have hexecute : execute host compiler request order =
      if (builds.foldl (Console.report request.outDir) noted).failed = 0 then
        (builds.foldl (Console.report request.outDir) noted, .ok ())
      else (builds.foldl (Console.report request.outDir) noted,
        .error (.failures (builds.foldl (Console.report request.outDir) noted).failed
          builds.length)) := by
    rw [execute, hplan, ← hnoted]
    rfl
  refine ⟨verdicts, final, hreports, ?_⟩
  rw [hexecute, hfinished, hlength]
  show (if verdicts.countP Verdict.isFailed = 0 then _ else _) = _
  split_ifs <;> rfl

/-- A request for one file that is loaded has one report, on the host as it is. -/
theorem execute_of_plan_singleton {env : Pipeline.Environment} {job : Job} {order : Nat → List Nat}
    (hplan : plan host compiler request = .ok ⟨env, [job]⟩)
    (horder : (order 1).Perm (List.range 1)) :
    ∃ verdict final,
      Reported request.outDir host job (Pipeline.build env job).result verdict final ∧
      execute host compiler request order =
        (Console.finished host final request ⟨env, [job]⟩ [verdict],
          if verdict.isFailed then .error (.failures 1 1) else .ok ()) := by
  obtain ⟨verdicts, final, hreports, hexecute⟩ := execute_of_plan hplan horder
  obtain _ | ⟨hfirst, hrest⟩ := hreports
  obtain _ | _ := hrest
  rename_i verdict
  refine ⟨verdict, final, hfirst, ?_⟩
  rw [hexecute]
  cases hfailed : verdict.isFailed <;> simp [hfailed]

/-- **A batch is built as its files one by one.**  The builds may finish in any order, and the
compiler may be any; it is asked before anything is written, so what it makes of a source may
depend on the disk.  A configuration whose settings conflict is refused before any file is looked
at.  Otherwise the command fails with the first file that is not loaded, and then no compiler is
asked and nothing is printed or written.  Or else each file has the build that it has in a request
of its own, the builds are reported in the order of the files, one report for each, and the command
fails exactly if some of them failed.  At the end a destination has the content of the last report
that wrote to it, and a file that no report wrote to is as it was. -/
theorem execute_batch (host : Host) (compiler : Pipeline.Compiler) (request : BuildRequest)
    (order : Nat → List Nat) (config : Config)
    (hconfig : Config.load host request.config (overrides request) = .ok config)
    (horder : ∀ count, (order count).Perm (List.range count)) :
    (∃ error, Pipeline.Settings.ofConfig config = .error error ∧
      ∀ compiler', execute host compiler' request order =
        (Console.start host, .error (.config error))) ∨
    ∃ settings, Pipeline.Settings.ofConfig config = .ok settings ∧
    ((∃ before file after jobs error, request.files = before ++ file :: after ∧
      List.Forall₂ (Loads host config) before jobs ∧ LoadFails host config file error ∧
      ∀ compiler', execute host compiler' request order = (Console.start host, .error error)) ∨
    ∃ jobs verdicts final,
      List.Forall₂ (fun file job => Loads host config file job ∧ ∃ verdict final,
        Reported request.outDir host job
          (Pipeline.build (environment host compiler config settings) job).result verdict final ∧
        execute host compiler { request with files := [file] } order =
          (Console.finished host final { request with files := [file] }
              ⟨environment host compiler config settings, [job]⟩ [verdict],
            if verdict.isFailed then .error (.failures 1 1) else .ok ())) request.files jobs ∧
      Reports request.outDir host (jobs.map fun job =>
        (job, (Pipeline.build (environment host compiler config settings) job).result)) verdicts
        final ∧
      execute host compiler request order =
        (Console.finished host final request ⟨environment host compiler config settings, jobs⟩
            verdicts,
          if verdicts.countP Verdict.isFailed = 0 then .ok ()
          else .error (.failures (verdicts.countP Verdict.isFailed) request.files.length)) ∧
      (∀ before destination css after, verdicts = before ++ .written destination css :: after →
        (∀ other css', .written other css' ∈ after →
          final.disk.locate final.here other ≠ final.disk.locate final.here destination) →
        final.disk.read final.here destination = .ok (Utf8.encode css)) ∧
      ∀ location content, host.disk.find? location = some (.file content) →
        (∀ destination css, .written destination css ∈ verdicts →
          final.disk.locate final.here destination ≠ .ok location) →
        final.disk.find? location = some (.file content)) := by
  cases hsettings : Pipeline.Settings.ofConfig config with
  | error error =>
    exact .inl ⟨error, rfl, fun compiler' =>
      execute_of_plan_error (plan_of_conflict compiler' hconfig hsettings) order⟩
  | ok settings =>
    refine .inr ⟨settings, rfl, ?_⟩
    have hplan (compiler' : Pipeline.Compiler) (files : List Path) :=
      @plan_of_files host config compiler' { request with files := files } settings hconfig
        hsettings
    obtain ⟨jobs, hjobs, hall⟩ | ⟨before, file, after, jobs, error, hfiles, hall, hfails, herror⟩ :=
      mapM_loadJob_cases host config request.files
    · right
      have hbatch : plan host compiler request =
          .ok ⟨environment host compiler config settings, jobs⟩ := by
        rw [hplan compiler request.files, hjobs]
      -- a request for one file has the same configuration
      have halone : ∀ file job, Loads host config file job →
          plan host compiler { request with files := [file] } =
            .ok ⟨environment host compiler config settings, [job]⟩ := by
        intro file job hjob
        rw [hplan compiler [file], List.mapM_cons, hjob.loadJob]
        rfl
      obtain ⟨verdicts, final, hreports, hexecute⟩ := execute_of_plan hbatch (horder _)
      refine ⟨jobs, verdicts, final, hall.imp fun file job hjob =>
        ⟨hjob, execute_of_plan_singleton (halone file job hjob) (horder 1)⟩, hreports, ?_, ?_, ?_⟩
      · rw [hexecute, hall.length_eq]
      · rintro before destination css after rfl hlast
        exact hreports.read hlast
      · exact fun location content hfile hother => hreports.find?_file hfile hother
    · left
      refine ⟨before, file, after, jobs, error, hfiles, hall, hfails, fun compiler' => ?_⟩
      refine execute_of_plan_error ?_ order
      rw [hplan compiler' request.files, herror]

/-- Two files of a module, one of which the compiler refuses, whose builds finish in the opposite
order. -/
theorem execute_batch_reversed :
    let disk := ((Disk.empty.withFile (Path.ofString "/srv/assetline.toml").location
        (Utf8.encode "[modules.app]\npath = \"app\"\n".toList)).withFile
      (Path.ofString "/srv/app/a.css").location (Utf8.encode ".a\x7b".toList)).withFile
      (Path.ofString "/srv/app/b.css").location (Utf8.encode ".b\x7bcolor:red\x7d".toList)
    let host : Host := ⟨disk, Path.ofString "/srv", fun _ => none⟩
    let request : BuildRequest :=
      ⟨[Path.ofString "app/a.css", Path.ofString "app/b.css"], none, false, none,
        some (Path.ofString "out"), false⟩
    let order := fun count => (List.range count).reverse
    (∀ count, (order count).Perm (List.range count)) ∧
      ∃ config settings jobs verdicts final,
        Config.load host request.config (overrides request) = .ok config ∧
        Pipeline.Settings.ofConfig config = .ok settings ∧
        List.Forall₂ (Loads host config) request.files jobs ∧
        Reports request.outDir host (jobs.map fun job =>
          (job, (Pipeline.build (environment host .plain config settings) job).result)) verdicts
          final ∧
        execute host .plain request order =
          (Console.finished host final request ⟨environment host .plain config settings, jobs⟩
              verdicts,
            if verdicts.countP Verdict.isFailed = 0 then .ok ()
            else .error (.failures (verdicts.countP Verdict.isFailed) 2)) := by
  intro disk host request order
  have horder : ∀ count, (order count).Perm (List.range count) :=
    fun count => List.reverse_perm (List.range count)
  have hplan : (plan host .plain request).isOk := by decide +kernel
  -- with a plan the command can only fail with the number of failures
  have hfailure : ∀ error, (execute host .plain request order).2 = .error error →
      ∃ failed total, error = .failures failed total := by
    intro error herror
    cases hcases : plan host .plain request with
    | error error =>
      rw [hcases] at hplan
      exact absurd hplan (by simp [Except.isOk, Except.toBool])
    | ok plan =>
      obtain ⟨verdicts, final, -, hbatch⟩ := execute_of_plan hcases (horder _)
      rw [hbatch] at herror
      simp only at herror
      split_ifs at herror
      exact ⟨_, _, (Except.error.inj herror).symm⟩
  have hsome : (Config.load host request.config (overrides request)).toOption.isSome := by
    decide +kernel
  cases hconfig : Config.load host request.config (overrides request) with
  | error error =>
    rw [hconfig] at hsome
    exact absurd hsome (by simp [Except.toOption])
  | ok config =>
    obtain ⟨error, -, hexecute⟩ | ⟨settings, hsettings,
        ⟨before, file, after, jobs, error, -, -, hfails, hexecute⟩ |
        ⟨jobs, verdicts, final, hall, hreports, hexecute, -, -⟩⟩ :=
      execute_batch host .plain request order config hconfig horder
    · obtain ⟨failed, total, herror⟩ := hfailure _ (congrArg Prod.snd (hexecute .plain))
      nomatch herror
    · obtain ⟨failed, total, rfl⟩ := hfailure _ (congrArg Prod.snd (hexecute .plain))
      nomatch hfails
    · exact ⟨horder, config, settings, jobs, verdicts, final, rfl, hsettings,
        hall.imp fun file job h => h.1, hreports, hexecute⟩

/-- Settings that conflict fail a batch in which no file fails: its only file is loaded, and would
be built with any settings by a compiler that gives sources back as they are. -/
theorem execute_batch_conflict :
    let text := "[assets]\nprefix = '/g/\x7bversion\x7d'\nurl_pattern = '//cdn/\x7bpath\x7d'\n" ++
      "[modules.app]\npath = 'app'\n"
    let source := ".a \x7b\n  color: red;\n\x7d\n".toList
    let disk := (Disk.empty.withFile (Path.ofString "/srv/assetline.toml").location
        (Utf8.encode text.toList)).withFile
      (Path.ofString "/srv/app/a.css").location (Utf8.encode source)
    let host : Host := ⟨disk, Path.ofString "/srv", fun _ => none⟩
    let request : BuildRequest := ⟨[Path.ofString "app/a.css"], none, true, none, none, false⟩
    let echo : Pipeline.Compiler := fun source _ => ([], .ok source)
    ∃ config job error, Config.load host request.config (overrides request) = .ok config ∧
      Pipeline.Settings.ofConfig config = .error error ∧
      List.Forall₂ (Loads host config) request.files [job] ∧
      (∀ settings, (Pipeline.build (environment host echo config settings) job).result =
        .ok (.compiled source)) ∧
      ∀ order, execute host echo request order = (Console.start host, .error (.config error)) := by
  intro text source disk host request echo
  let path := Path.ofString "/srv/app/a.css"
  let owner : AssetModule := ⟨"app".toList, none, Path.ofString "/srv/app", Path.empty⟩
  let job : Job := ⟨path, source, owner⟩
  have hloaded : ((Config.load host request.config (overrides request)).toOption.any fun config =>
      decide (config.modules.owner? path = some owner) &&
        (Pipeline.Settings.ofConfig config).toOption.isNone) = true := by
    decide +kernel
  have habsolute : host.absolute (Path.ofString "app/a.css") = .ok path := by decide +kernel
  have hsource : host.readText path = .ok source := by decide +kernel
  have hskip : ∀ legacyIgnore, Pipeline.skipReason? legacyIgnore path source = none := by
    decide +kernel
  have hscan : Reference.scan source = [] := by
    rw [Reference.scan_of_imports_eq_nil (by decide +kernel)]
    decide +kernel
  cases hconfig : Config.load host request.config (overrides request) with
  | error error =>
    rw [hconfig] at hloaded
    exact absurd hloaded (by simp [Except.toOption])
  | ok config =>
    rw [hconfig] at hloaded
    obtain ⟨howner, hconflict⟩ : config.modules.owner? path = some owner ∧
        (Pipeline.Settings.ofConfig config).toOption = none := by
      simpa [Except.toOption] using hloaded
    cases hsettings : Pipeline.Settings.ofConfig config with
    | ok settings =>
      rw [hsettings] at hconflict
      exact absurd hconflict (by simp [Except.toOption])
    | error error =>
      have hbuild (settings : Pipeline.Settings) :
          (Pipeline.build (environment host echo config settings) job).result =
            .ok (.compiled source) :=
        @Pipeline.build_result_of_scan_eq_nil (environment host echo config settings) job [] source
          (hskip settings.legacyIgnore) rfl hscan
      exact ⟨config, job, error, rfl, hsettings, .cons ⟨habsolute, howner, hsource⟩ .nil, hbuild,
        execute_of_plan_error (plan_of_conflict echo hconfig hsettings)⟩

end StylesheetBuild.Command
