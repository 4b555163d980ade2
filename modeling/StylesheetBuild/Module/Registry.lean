/-
Registries of modules.

A registry has at most one module of each name, in the order of their names.  That is the order
of code points, which is also the order of the names' bytes in UTF-8.

* **`get?_insert_self`**, **`get?_insert_of_ne`**: inserting a module changes the answer for its
  name and for no other.
-/
import StylesheetBuild.Module.Basic

namespace StylesheetBuild

/-- Modules in strictly increasing order of their names. -/
structure Registry where
  modules : List AssetModule
  ordered : modules.Pairwise fun m n => m.name < n.name

namespace Registry

/-- Texts of which neither is below the other are equal. -/
theorem lt_of_not_lt_of_ne {s t : Text} (h : ¬ s < t) (hne : s ≠ t) : t < s := by
  rcases List.le_iff_lt_or_eq.mp (List.not_lt.mp h) with hlt | heq
  · exact hlt
  · exact absurd heq.symm hne

def empty : Registry := ⟨[], .nil⟩

/-- `m` at its place among `modules`, instead of a module of the same name. -/
def insertInto (m : AssetModule) : List AssetModule → List AssetModule
  | [] => [m]
  | n :: rest =>
    if m.name = n.name then m :: rest
    else if m.name < n.name then m :: n :: rest
    else n :: insertInto m rest

theorem mem_insertInto {m n : AssetModule} {modules : List AssetModule}
    (h : n ∈ insertInto m modules) : n = m ∨ n ∈ modules := by
  induction modules with
  | nil => simpa [insertInto] using h
  | cons o rest ih =>
    unfold insertInto at h
    split at h
    · rcases List.mem_cons.mp h with h | h
      · exact .inl h
      · exact .inr (List.mem_cons_of_mem o h)
    · split at h
      · rcases List.mem_cons.mp h with h | h
        · exact .inl h
        · exact .inr h
      · rcases List.mem_cons.mp h with h | h
        · exact .inr (h ▸ List.mem_cons_self)
        · exact (ih h).imp_right (List.mem_cons_of_mem o)

theorem insertInto_ordered (m : AssetModule) {modules : List AssetModule}
    (h : modules.Pairwise fun m n => m.name < n.name) :
    (insertInto m modules).Pairwise fun m n => m.name < n.name := by
  induction modules with
  | nil => simp [insertInto]
  | cons o rest ih =>
    obtain ⟨ho, hrest⟩ := List.pairwise_cons.mp h
    unfold insertInto
    split
    · rename_i heq
      exact List.pairwise_cons.mpr ⟨fun n hn => heq ▸ ho n hn, hrest⟩
    · rename_i hne
      split
      · rename_i hlt
        refine List.pairwise_cons.mpr ⟨fun n hn => ?_, h⟩
        rcases List.mem_cons.mp hn with rfl | hn
        · exact hlt
        · exact List.lt_trans hlt (ho n hn)
      · rename_i hnlt
        refine List.pairwise_cons.mpr ⟨fun n hn => ?_, ih hrest⟩
        rcases mem_insertInto hn with rfl | hn
        · exact lt_of_not_lt_of_ne hnlt hne
        · exact ho n hn

/-- The registry with `m` instead of the module of that name, if there was one. -/
def insert (r : Registry) (m : AssetModule) : Registry :=
  ⟨insertInto m r.modules, insertInto_ordered m r.ordered⟩

/-- The registry that `modules` make up, inserted one after another. -/
def ofList (modules : List AssetModule) : Registry :=
  modules.foldl insert empty

def get? (r : Registry) (name : Text) : Option AssetModule :=
  r.modules.find? (·.name = name)

def size (r : Registry) : Nat :=
  r.modules.length

def isEmpty (r : Registry) : Bool :=
  r.modules.isEmpty

/-- The module whose root directory contains `path`: the one with the longest root, and of those
with equal roots the one whose name comes last. -/
def owner? (r : Registry) (path : Path) : Option AssetModule :=
  (r.modules.filter fun m => path.startsWith m.root).foldl (fun best m =>
    match best with
    | none => some m
    | some b =>
      if b.root.components.length ≤ m.root.components.length then some m else some b) none

/-! ### Insertion -/

theorem find?_insertInto_self (m : AssetModule) (modules : List AssetModule) :
    (insertInto m modules).find? (·.name = m.name) = some m := by
  induction modules with
  | nil => simp [insertInto]
  | cons o rest ih =>
    unfold insertInto
    split
    · simp
    · split
      · simp
      · rename_i hne _
        simp [Ne.symm hne, ih]

theorem find?_insertInto_of_ne {m : AssetModule} {name : Text} (h : name ≠ m.name)
    (modules : List AssetModule) :
    (insertInto m modules).find? (·.name = name) = modules.find? (·.name = name) := by
  induction modules with
  | nil => simp [insertInto, Ne.symm h]
  | cons o rest ih =>
    unfold insertInto
    split
    · rename_i heq
      simp [Ne.symm h, ← heq]
    · split
      · simp [Ne.symm h]
      · simp [List.find?_cons, ih]

/-- An inserted module is found by its name. -/
theorem get?_insert_self (r : Registry) (m : AssetModule) : (r.insert m).get? m.name = some m :=
  find?_insertInto_self m r.modules

/-- Inserting a module leaves the answers for all other names as they were. -/
theorem get?_insert_of_ne (r : Registry) {m : AssetModule} {name : Text} (h : name ≠ m.name) :
    (r.insert m).get? name = r.get? name :=
  find?_insertInto_of_ne h r.modules

/-- A module that is found has the name that was asked for. -/
theorem name_of_get? {r : Registry} {name : Text} {m : AssetModule} (h : r.get? name = some m) :
    m.name = name := by
  simpa using List.find?_some h

end Registry

end StylesheetBuild
