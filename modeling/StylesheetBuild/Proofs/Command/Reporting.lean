/-
Reporting builds one after another.

A report does one of four things with the result of a build, and nothing but saving changes the
disk.  What a report does is its verdict.

* **`exists_reported`**, **`exists_reports`** — one report and a whole list of them, with all that
  the console shows afterwards;
* **`Reports.find?_file`** — a file stays as it is unless a later report writes to it;
* **`Reports.read`** — so a destination has the content of the last report that wrote to it.

Design notes: two destinations can be written differently and be one file.  Which of them are is
said by the disk at the end: saving takes nothing away, so a path that leads to a file when that is
written leads to it ever after.
-/
import StylesheetBuild.Command.Build
import StylesheetBuild.Proofs.Disk.Saving

namespace StylesheetBuild.Command

open Pipeline (Job Outcome)

variable {outDir : Option Path} {host host' : Host}

/-- What became of a stylesheet. -/
inductive Verdict where
  | skipped (reason : Pipeline.SkipReason)
  | printed (css : Text)
  | written (destination : Path) (css : Text)
  | failed (error : Error)

namespace Verdict

/-- What goes to the standard output. -/
def output : Verdict → Text
  | printed css => css ++ ['\n']
  | _ => []

/-- What goes to the standard error output. -/
def status (coloured : Bool) (job : Job) : Verdict → Text
  | skipped reason =>
    Colour.yellow.paint coloured
      ("Skipped ".toList ++ job.path.display ++ ": ".toList ++ reason.message) ++ ['\n']
  | printed _ => []
  | written destination _ =>
    Colour.green.paint coloured
      ("Built ".toList ++ job.path.display ++ " -> ".toList ++ destination.display) ++ ['\n']
  | failed error =>
    Colour.red.paint coloured (job.path.display ++ ": ".toList ++ error.message) ++ ['\n']

def isFailed : Verdict → Bool
  | failed _ => true
  | _ => false

end Verdict

/-! ### One report -/

/-- What a report does with the result of a build, and the host that it leaves behind. -/
inductive Reported (outDir : Option Path) (host : Host) (job : Job) :
    Except Pipeline.Error Outcome → Verdict → Host → Prop
  | failed (error : Pipeline.Error) :
      Reported outDir host job (.error error) (.failed (.pipeline error)) host
  | skipped (reason : Pipeline.SkipReason) :
      Reported outDir host job (.ok (.skipped reason)) (.skipped reason) host
  | printed (css : Text) (h : outDir = none) :
      Reported outDir host job (.ok (.compiled css)) (.printed css) host
  | written (css : Text) {dir : Path} {host' : Host} (h : outDir = some dir)
      (hsave : host.save (outputPath dir job.owner job.path) (Utf8.encode css) = (host', .ok ())) :
      Reported outDir host job (.ok (.compiled css))
        (.written (outputPath dir job.owner job.path) css) host'
  | unwritten (css : Text) {dir : Path} {host' : Host} {error : FileError} (h : outDir = some dir)
      (hsave : host.save (outputPath dir job.owner job.path) (Utf8.encode css) =
        (host', .error error)) :
      Reported outDir host job (.ok (.compiled css)) (.failed (.file error)) host'

/-- The console after a report. -/
def Console.after (console : Console) (host : Host) (job : Job) (verdict : Verdict) : Console :=
  { console with
    host := host
    output := console.output ++ verdict.output
    status := console.status ++ verdict.status console.coloured job
    failed := console.failed + if verdict.isFailed then 1 else 0 }

theorem Console.say_eq (console : Console) (line : Text) :
    console.say line = { console with status := console.status ++ (line ++ ['\n']) } := by
  rw [Console.say, List.append_assoc]

theorem Console.fail_eq (console : Console) (job : Job) (error : Error) :
    console.fail job error = console.after console.host job (.failed error) := by
  rw [Console.fail, Console.sayIn, Console.say_eq]
  simp only [Console.after, Verdict.output, Verdict.status, Verdict.isFailed, List.append_nil,
    if_true]

theorem Console.write_of_ok {console : Console} {dir : Path} {job : Job} {css : Text}
    (h : console.host.save (outputPath dir job.owner job.path) (Utf8.encode css) = (host, .ok ())) :
    console.write dir job css =
      console.after host job (.written (outputPath dir job.owner job.path) css) := by
  unfold Console.write
  simp only [h]
  rw [Console.sayIn, Console.say_eq]
  simp only [Console.after, Verdict.output, Verdict.status, Verdict.isFailed, List.append_nil,
    Bool.false_eq_true, if_false, Nat.add_zero]

theorem Console.write_of_error {console : Console} {dir : Path} {job : Job} {css : Text}
    {error : FileError}
    (h : console.host.save (outputPath dir job.owner job.path) (Utf8.encode css) =
      (host, .error error)) :
    console.write dir job css = console.after host job (.failed (.file error)) := by
  unfold Console.write
  simp only [h, Console.fail_eq]
  simp only [Console.after]

theorem exists_reported (outDir : Option Path) (console : Console) (build : Finished) :
    ∃ verdict host, Reported outDir console.host build.job build.run.result verdict host ∧
      Console.report outDir console build = console.after host build.job verdict := by
  rw [Console.report]
  cases hresult : build.run.result with
  | error error => exact ⟨_, _, .failed error, console.fail_eq build.job _⟩
  | ok outcome =>
    cases outcome with
    | skipped reason =>
      refine ⟨_, _, .skipped reason, ?_⟩
      simp only [Console.sayIn, Console.say_eq, Console.after, Verdict.output, Verdict.status,
        Verdict.isFailed, List.append_nil, Bool.false_eq_true, if_false, Nat.add_zero]
    | compiled css =>
      cases outDir with
      | none =>
        refine ⟨_, _, .printed css rfl, ?_⟩
        simp only [Console.print, Console.after, Verdict.output, Verdict.status, Verdict.isFailed,
          List.append_nil, List.append_assoc, Bool.false_eq_true, if_false, Nat.add_zero]
      | some dir =>
        cases hsave : console.host.save (outputPath dir build.job.owner build.job.path)
            (Utf8.encode css) with
        | mk host saved =>
          cases saved with
          | ok _ => exact ⟨_, _, .written css rfl hsave, Console.write_of_ok hsave⟩
          | error error => exact ⟨_, _, .unwritten css rfl hsave, Console.write_of_error hsave⟩

/-! ### All reports -/

/-- What reports do one after another, and the host that they leave behind. -/
inductive Reports (outDir : Option Path) : Host → List (Job × Except Pipeline.Error Outcome) →
    List Verdict → Host → Prop
  | nil (host : Host) : Reports outDir host [] [] host
  | cons {host host₁ final : Host} {job : Job} {result : Except Pipeline.Error Outcome}
      {rest : List (Job × Except Pipeline.Error Outcome)} {verdict : Verdict}
      {verdicts : List Verdict} (hfirst : Reported outDir host job result verdict host₁)
      (hrest : Reports outDir host₁ rest verdicts final) :
      Reports outDir host ((job, result) :: rest) (verdict :: verdicts) final

/-- The console after all reports. -/
theorem exists_reports (outDir : Option Path) (console : Console) (builds : List Finished) :
    ∃ verdicts final,
      Reports outDir console.host (builds.map fun build => (build.job, build.run.result)) verdicts
        final ∧
      builds.foldl (Console.report outDir) console =
        { console with
          host := final
          output := console.output ++ verdicts.flatMap Verdict.output
          status := console.status ++ (List.zipWith (Verdict.status console.coloured)
            (builds.map (·.job)) verdicts).flatten
          failed := console.failed + verdicts.countP Verdict.isFailed } := by
  induction builds generalizing console with
  | nil =>
    refine ⟨[], console.host, .nil _, ?_⟩
    simp
  | cons build rest ih =>
    obtain ⟨verdict, host, hfirst, hreport⟩ := exists_reported outDir console build
    obtain ⟨verdicts, final, hrest, hfold⟩ := ih (console.after host build.job verdict)
    refine ⟨verdict :: verdicts, final, .cons hfirst hrest, ?_⟩
    rw [List.foldl_cons, hreport, hfold]
    simp only [Console.after, List.flatMap_cons, List.map_cons, List.zipWith_cons_cons,
      List.flatten_cons, List.countP_cons, List.append_assoc, Nat.add_assoc]
    rw [Nat.add_comm (if verdict.isFailed then 1 else 0)]

/-! ### The disk after reports -/

theorem exists_of_save {path : Path} {content : List UInt8} {result : Except FileError Unit}
    (h : host.save path content = (host', result)) :
    host.disk.save host.here path content = (host'.disk, result) ∧ host'.here = host.here := by
  rw [Host.save] at h
  obtain ⟨rfl, rfl⟩ := Prod.mk.inj h
  exact ⟨rfl, rfl⟩

namespace Reported

variable {job : Job} {result : Except Pipeline.Error Outcome} {verdict : Verdict}

theorem here_eq (h : Reported outDir host job result verdict host') : host'.here = host.here := by
  cases h with
  | failed => rfl
  | skipped => rfl
  | printed => rfl
  | written css h hsave => exact (exists_of_save hsave).2
  | unwritten css h hsave => exact (exists_of_save hsave).2

theorem keeps (h : Reported outDir host job result verdict host') :
    host.disk.Keeps host'.disk := by
  cases h with
  | failed => exact Disk.Keeps.refl _
  | skipped => exact Disk.Keeps.refl _
  | printed => exact Disk.Keeps.refl _
  | written css h hsave =>
    obtain ⟨-, -, -, hkeeps, -⟩ := Disk.exists_of_save (exists_of_save hsave).1
    exact hkeeps
  | unwritten css h hsave => exact (Disk.extends_of_save_error (exists_of_save hsave).1).keeps

/-- A file stays as it is unless the report writes to it. -/
theorem find?_file (h : Reported outDir host job result verdict host') {location : Location}
    {content : List UInt8} (hfile : host.disk.find? location = some (.file content))
    (hother : ∀ destination css, verdict = .written destination css →
      host'.disk.locate host'.here destination ≠ .ok location) :
    host'.disk.find? location = some (.file content) := by
  cases h with
  | failed => exact hfile
  | skipped => exact hfile
  | printed => exact hfile
  | written css h hsave =>
    obtain ⟨hdisk, hhere⟩ := exists_of_save hsave
    obtain ⟨location', hlocate, -, -, hentries⟩ := Disk.exists_of_save hdisk
    refine hentries location _ (fun hsame => ?_) hfile
    rw [← hhere, ← hsame] at hlocate
    exact hother _ _ rfl hlocate
  | unwritten css h hsave =>
    exact Disk.extends_of_save_error (exists_of_save hsave).1 location _ hfile

end Reported

namespace Reports

variable {builds : List (Job × Except Pipeline.Error Outcome)} {verdicts : List Verdict}

theorem here_eq (h : Reports outDir host builds verdicts host') : host'.here = host.here := by
  induction h with
  | nil => rfl
  | cons hfirst _ ih => exact ih.trans hfirst.here_eq

theorem keeps (h : Reports outDir host builds verdicts host') : host.disk.Keeps host'.disk := by
  induction h with
  | nil => exact Disk.Keeps.refl _
  | cons hfirst _ ih => exact hfirst.keeps.trans ih

/-- A path leads where it led after any of the reports. -/
theorem locate (h : Reports outDir host builds verdicts host') {path : Path} {location : Location}
    (hlocate : host.disk.locate host.here path = .ok location) :
    host'.disk.locate host'.here path = .ok location := by
  rw [h.here_eq]
  exact h.keeps.locate hlocate

/-- A file stays as it is unless some report writes to it. -/
theorem find?_file (h : Reports outDir host builds verdicts host') {location : Location}
    {content : List UInt8} (hfile : host.disk.find? location = some (.file content))
    (hother : ∀ destination css, .written destination css ∈ verdicts →
      host'.disk.locate host'.here destination ≠ .ok location) :
    host'.disk.find? location = some (.file content) := by
  induction h with
  | nil => exact hfile
  | cons hfirst hrest ih =>
    refine ih (hfirst.find?_file hfile fun destination css hverdict hlocate => ?_) ?_
    · exact hother destination css (hverdict ▸ List.mem_cons_self) (hrest.locate hlocate)
    · exact fun destination css hmem => hother destination css (List.mem_cons_of_mem _ hmem)

/-- A destination has the content of the last report that wrote to it. -/
theorem read {before after : List Verdict} {destination : Path} {css : Text}
    (h : Reports outDir host builds (before ++ .written destination css :: after) host')
    (hlast : ∀ other css', .written other css' ∈ after →
      host'.disk.locate host'.here other ≠ host'.disk.locate host'.here destination) :
    host'.disk.read host'.here destination = .ok (Utf8.encode css) := by
  induction before generalizing host builds with
  | nil =>
    obtain _ | ⟨hfirst, hrest⟩ := h
    obtain _ | _ | _ | ⟨_, hdir, hsave⟩ | _ := hfirst
    obtain ⟨hdisk, hhere⟩ := exists_of_save hsave
    obtain ⟨location, hlocate, hfile, -, -⟩ := Disk.exists_of_save hdisk
    rw [← hhere] at hlocate
    have hfinal := hrest.locate hlocate
    have hcontent := hrest.find?_file hfile fun other css' hmem hother =>
      hlast other css' hmem (hother.trans hfinal.symm)
    simp only [Disk.read, hfinal, hcontent, bind, Except.bind]
  | cons verdict before ih =>
    obtain _ | ⟨_, hrest⟩ := h
    exact ih hrest

end Reports

end StylesheetBuild.Command
