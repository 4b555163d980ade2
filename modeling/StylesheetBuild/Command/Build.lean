/-
The command that builds stylesheets.

All files are loaded before any is built, and all are built before any is written, so each build
sees the disk as it was.  Builds may finish in any order; they are reported in the order of the
files.

* **`inOrder_finished`**: whatever the order in which the builds finish, they are reported in the
  order of the files.
-/
import StylesheetBuild.Command.Arguments
import StylesheetBuild.Command.Colour
import StylesheetBuild.Config.Load
import StylesheetBuild.Pipeline.Configured

namespace StylesheetBuild.Command

open Pipeline (Job Run)

inductive Error where
  | config (error : Config.Error)
  | file (error : FileError)
  | unowned (path : Path)
  | pipeline (error : Pipeline.Error)
  | failures (failed total : Nat)
deriving Repr, DecidableEq

def Error.message : Error → Text
  | config error => error.message
  | file error => error.message
  | unowned path => "no module in [modules] owns ".toList ++ path.display
  | pipeline error => error.message
  | failures failed total =>
    Text.decimal failed ++ " of ".toList ++ Text.decimal total
      ++ " stylesheet(s) failed to build".toList

/-! ### Loading and building -/

/-- The result of a file operation as part of the command. -/
def ofFile {α : Type} : Except FileError α → Except Error α
  | .ok a => .ok a
  | .error error => .error (.file error)

/-- A result of the configuration as part of the command. -/
def ofConfig {α : Type} : Except Config.Error α → Except Error α
  | .ok a => .ok a
  | .error error => .error (.config error)

/-- Reads a file and finds the module that owns it. -/
def loadJob (host : Host) (config : Config) (file : Path) : Except Error Job := do
  let path ← ofFile (host.absolute file)
  let owner ← match config.modules.owner? path with
    | some owner => .ok owner
    | none => .error (.unowned path)
  let source ← ofFile (host.readText path)
  .ok ⟨path, source, owner⟩

/-- The destination of a stylesheet's CSS: below the output directory and the name of its module,
where the stylesheet lies below the module's assets, or else below the module's root, or else by
its bare name. -/
def outputPath (outDir : Path) (owner : AssetModule) (source : Path) : Path :=
  let relative := match source.below? owner.assetDir with
    | some relative => relative
    | none =>
      match source.below? owner.root with
      | some relative => relative
      | none => ⟨source.fileName?.getD []⟩
  ((outDir.join (.ofText owner.name)).join relative).withExtension (ascii "css")

/-- A stylesheet whose build is finished, with its place among the files. -/
structure Finished where
  -- the place of the stylesheet among the files
  index : Nat
  job : Job
  run : Run

/-- The builds of all stylesheets, in the order in which they finish. -/
def finished (env : Pipeline.Environment) (jobs : List Job) (order : List Nat) :
    List Finished :=
  order.filterMap fun index => jobs[index]?.map fun job => ⟨index, job, Pipeline.build env job⟩

/-- Finished builds in the order of the files. -/
def inOrder (builds : List Finished) : List Finished :=
  builds.mergeSort fun a b => a.index ≤ b.index

/-! ### Reports -/

/-- What the command has done so far. -/
structure Console where
  -- the host with the files written so far
  host : Host
  -- the text written to the standard output
  output : Text
  coloured : Bool
  -- the lines written to the standard error output
  status : Text
  failed : Nat
  events : List Pipeline.Event

/-- Writes a line to the standard error output. -/
def Console.say (console : Console) (line : Text) : Console :=
  { console with status := console.status ++ line ++ ['\n'] }

/-- Writes a line about success, something left out, or failure to the standard error output. -/
def Console.sayIn (console : Console) (colour : Colour) (line : Text) : Console :=
  console.say (colour.paint console.coloured line)

/-- Writes a text and the end of a line to the standard output. -/
def Console.print (console : Console) (text : Text) : Console :=
  { console with output := console.output ++ text ++ ['\n'] }

def Console.fail (console : Console) (job : Job) (error : Error) : Console :=
  let said := console.sayIn .red (job.path.display ++ ": ".toList ++ error.message)
  { said with failed := said.failed + 1 }

/-- Writes the CSS of a stylesheet to its destination. -/
def Console.write (console : Console) (outDir : Path) (job : Job) (css : Text) : Console :=
  let destination := outputPath outDir job.owner job.path
  let (host, written) := console.host.save destination (Utf8.encode css)
  let console := { console with host := host }
  match written with
  | .ok () =>
    console.sayIn .green
      ("Built ".toList ++ job.path.display ++ " -> ".toList ++ destination.display)
  | .error error => console.fail job (.file error)

/-- Reports a finished build: its CSS goes to its destination, or to the standard output where
there is no output directory. -/
def Console.report (outDir : Option Path) (console : Console) (build : Finished) : Console :=
  match build.run.result with
  | .error error => console.fail build.job (.pipeline error)
  | .ok (.skipped reason) =>
    console.sayIn .yellow
      ("Skipped ".toList ++ build.job.path.display ++ ": ".toList ++ reason.message)
  | .ok (.compiled css) =>
    match outDir with
    | some outDir => console.write outDir build.job css
    | none => console.print css

/-! ### The command -/

/-- What is needed to build the files of a request. -/
structure Plan where
  environment : Pipeline.Environment
  jobs : List Job

/-- Loads the configuration and all files of a request. -/
def plan (host : Host) (compiler : Pipeline.Compiler) (request : BuildRequest) :
    Except Error Plan := do
  let overrides : Config.Overrides :=
    ⟨if request.development then some true else none, request.applicationRoot⟩
  let config ← ofConfig (Config.load host request.config overrides)
  let settings ← ofConfig (Pipeline.Settings.ofConfig config)
  let jobs ← request.files.mapM (loadJob host config)
  .ok ⟨⟨compiler, settings, config.modules.get?, host.assetFiles⟩, jobs⟩

/-- Says what is about to be built. -/
def announce (request : BuildRequest) (plan : Plan) (console : Console) : Console :=
  let mode := if plan.environment.settings.development then "development" else "production"
  let console := console.say ("Building ".toList ++ Text.decimal plan.jobs.length
    ++ " stylesheet(s) (".toList ++ mode.toList ++ [')'])
  match request.outDir with
  | some outDir => console.say ("Output: ".toList ++ outDir.display)
  | none => console

/-- Builds the files of a request, where the builds finish in the given order, and answers
whether all went well. -/
def execute (host : Host) (compiler : Pipeline.Compiler) (request : BuildRequest)
    (order : Nat → List Nat) : Console × Except Error Unit :=
  let start : Console := ⟨host, [], Colour.isForced host.lookup, [], 0, []⟩
  match plan host compiler request with
  | .error error => (start, .error error)
  | .ok plan =>
    let builds := inOrder (finished plan.environment plan.jobs (order plan.jobs.length))
    let announced := announce request plan start
    let noted := { announced with events := builds.flatMap (·.run.events) }
    let console := builds.foldl (Console.report request.outDir) noted
    if console.failed = 0 then (console, .ok ())
    else (console, .error (.failures console.failed builds.length))

/-! ### The order of builds -/

/-- A finished build is the build of the stylesheet at its place. -/
theorem eq_of_mem_finished {env : Pipeline.Environment} {jobs : List Job} {order : List Nat}
    {build : Finished} (h : build ∈ finished env jobs order) :
    ∃ job, jobs[build.index]? = some job ∧
      build = ⟨build.index, job, Pipeline.build env job⟩ := by
  obtain ⟨index, -, h⟩ := List.mem_filterMap.mp h
  obtain ⟨job, hjob, rfl⟩ := Option.map_eq_some_iff.mp h
  exact ⟨job, hjob, rfl⟩

/-- Builds that finish in the order of the files are in that order. -/
theorem finished_range_ordered (env : Pipeline.Environment) (jobs : List Job) (count : Nat) :
    (finished env jobs (List.range count)).Pairwise fun a b => a.index ≤ b.index := by
  refine List.Pairwise.filterMap _ ?_ List.pairwise_lt_range
  intro i j hij a ha b hb
  obtain ⟨_, -, rfl⟩ := Option.map_eq_some_iff.mp ha
  obtain ⟨_, -, rfl⟩ := Option.map_eq_some_iff.mp hb
  exact Nat.le_of_lt hij

/-- Whatever the order in which the builds finish, they are reported in the order of the files. -/
theorem inOrder_finished (env : Pipeline.Environment) (jobs : List Job) {order : List Nat}
    (h : order.Perm (List.range jobs.length)) :
    inOrder (finished env jobs order) = finished env jobs (List.range jobs.length) := by
  have hperm : (inOrder (finished env jobs order)).Perm
      (finished env jobs (List.range jobs.length)) :=
    (List.mergeSort_perm _ _).trans (h.filterMap _)
  have hsorted : (inOrder (finished env jobs order)).Pairwise fun a b => a.index ≤ b.index := by
    have := @List.pairwise_mergeSort _ (fun a b : Finished => decide (a.index ≤ b.index))
      (fun a b c hab hbc => by simp only [decide_eq_true_eq] at *; omega)
      (fun a b => by simp only [Bool.or_eq_true, decide_eq_true_eq]; omega)
      (finished env jobs order)
    simpa only [inOrder, decide_eq_true_eq] using this
  refine hperm.eq_of_pairwise ?_ hsorted (finished_range_ordered env jobs _)
  intro a b ha hb hab hba
  obtain ⟨job, hjob, ha⟩ := eq_of_mem_finished (hperm.mem_iff.mp ha)
  obtain ⟨job', hjob', hb⟩ := eq_of_mem_finished hb
  have hindex : a.index = b.index := Nat.le_antisymm hab hba
  rw [hindex, hjob'] at hjob
  obtain rfl := Option.some.inj hjob
  rw [ha, hb, hindex]

end StylesheetBuild.Command
