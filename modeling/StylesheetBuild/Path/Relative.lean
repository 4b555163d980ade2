/-
Relative paths as texts.

Asset paths in URLs and in references are texts of segments between slashes.  Resolving them is
lexical: an empty segment and `.` vanish, and `..` takes the segment before it away, or stays
where there is none left.

* **`resolve_isNormal`**: resolved segments have all their `..` in front, and no filler.
-/
import StylesheetBuild.Path.Basic

namespace StylesheetBuild.RelativePath

/-- The segment that leads to the directory above. -/
def up : Text := ['.', '.']

/-- Adds a segment to resolved ones, of which the last one comes first. -/
def push (resolved : List Text) (segment : Text) : List Text :=
  if segment = [] || segment = ['.'] then resolved
  else if segment = up then
    match resolved with
    | [] => [up]
    | last :: before => if last = up then up :: last :: before else before
  else segment :: resolved

/-- The segments without fillers, each `..` having taken away the segment before it. -/
def resolve (segments : List Text) : List Text :=
  (segments.foldl push []).reverse

/-- A reference with its backslashes read as slashes. -/
def withSlashes (reference : Text) : Text :=
  reference.map fun c => if c = '\\' then '/' else c

/-- `reference` as seen from the directory `dir`; a slash at its end stays. -/
def join (dir reference : Text) : Text :=
  let reference := withSlashes reference
  let joined := Pieces.join '/' (resolve (Pieces.split '/' dir ++ Pieces.split '/' reference))
  if reference.getLast? = some '/' && joined != [] then joined ++ ['/'] else joined

/-- The components of a path that lead somewhere. -/
def steps (p : Path) : List Path.Component :=
  p.components.filter (· != .current)

/-- The number of components that two paths have in common at their beginning. -/
def commonLength : List Path.Component → List Path.Component → Nat
  | a :: as, b :: bs => if a = b then commonLength as bs + 1 else 0
  | _, _ => 0

/-- The directory of `file` as seen from the directory `base`. -/
def directory (base file : Path) : Text :=
  let base := steps base
  let dir := steps (file.parent?.getD Path.empty)
  let common := commonLength base dir
  Pieces.join '/' (List.replicate (base.length - common) up
    ++ (dir.drop common).map fun c => Utf8.decodeLossy c.bytes)

/-! ### Resolved segments -/

/-- Whether resolved segments, the last one first, have all their `..` in front and no filler. -/
def IsNormal (resolved : List Text) : Prop :=
  ∃ names climbs, resolved = names ++ List.replicate climbs up ∧
    ∀ name ∈ names, name ≠ [] ∧ name ≠ ['.'] ∧ name ≠ up

theorem push_isNormal {resolved : List Text} (h : IsNormal resolved) (segment : Text) :
    IsNormal (push resolved segment) := by
  obtain ⟨names, climbs, rfl, hnames⟩ := h
  unfold push
  split
  · exact ⟨names, climbs, rfl, hnames⟩
  rename_i hfiller
  simp only [Bool.or_eq_true, decide_eq_true_eq, not_or] at hfiller
  split
  · cases names with
    | nil =>
      refine ⟨[], climbs + 1, ?_, by simp⟩
      cases climbs <;> simp [List.replicate_succ]
    | cons name names =>
      refine ⟨names, climbs, ?_, fun n hn => hnames n (by simp [hn])⟩
      simp [(hnames name (by simp)).2.2]
  · rename_i hup
    refine ⟨segment :: names, climbs, rfl, ?_⟩
    intro name hname
    rcases List.mem_cons.mp hname with rfl | hname
    · exact ⟨hfiller.1, hfiller.2, hup⟩
    · exact hnames name hname

/-- Resolved segments have all their `..` in front, and no filler. -/
theorem resolve_isNormal (segments : List Text) : IsNormal (resolve segments).reverse := by
  have : ∀ resolved, IsNormal resolved → IsNormal (segments.foldl push resolved) := by
    induction segments with
    | nil => exact fun _ h => h
    | cons segment rest ih => exact fun resolved h => ih _ (push_isNormal h segment)
  simpa [resolve] using this [] ⟨[], 0, rfl, by simp⟩

end StylesheetBuild.RelativePath
