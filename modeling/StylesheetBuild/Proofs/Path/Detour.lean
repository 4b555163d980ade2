/-
Detours: where relative components lead, whatever they start from.

Components lead some levels up and then down again by some names.  How far up and by which names
does not depend on the location that they start from.

* **`Detour.enter_eq_follow`** — from every location components lead where their detour leads;
* **`Detour.prefix_follow_iff`** — so they end at the start or below it exactly if they lead down
  again by the names that they led up from.
-/
import Mathlib.Data.List.Induction
import StylesheetBuild.Path.Location

namespace StylesheetBuild

open StylesheetBuild.Path (Component)

/-- A way up through a number of levels, and down from there by some names. -/
structure Detour where
  up : Nat
  down : Location
deriving Repr, DecidableEq

namespace Detour

/-- A detour and one component more.  The root is no part of a relative path. -/
def step (detour : Detour) : Component → Detour
  | .root => detour
  | .current => detour
  | .parent =>
    if detour.down = [] then ⟨detour.up + 1, []⟩ else ⟨detour.up, detour.down.dropLast⟩
  | .name name => ⟨detour.up, detour.down ++ [name]⟩

def of (components : List Component) : Detour :=
  components.foldl step ⟨0, []⟩

theorem of_concat (front : List Component) (c : Component) :
    of (front ++ [c]) = (of front).step c := List.foldl_append

/-- Where a detour leads from a location; at the root there is no way up. -/
def follow (detour : Detour) (location : Location) : Location :=
  location.take (location.length - detour.up) ++ detour.down

/-- A component leads on from where a detour led. -/
theorem follow_step (detour : Detour) (location : Location) {c : Component} (h : c ≠ .root) :
    (detour.step c).follow location = Location.step (detour.follow location) c := by
  cases c with
  | root => exact absurd rfl h
  | current => rfl
  | name name => exact (List.append_assoc _ _ _).symm
  | parent =>
    rw [step]
    split_ifs with hdown
    · show location.take (location.length - (detour.up + 1)) ++ [] =
        (location.take (location.length - detour.up) ++ detour.down).dropLast
      rw [hdown, List.append_nil, List.append_nil, List.dropLast_eq_take, List.take_take,
        List.length_take]
      congr 1
      omega
    · exact (List.dropLast_append_of_ne_nil hdown).symm

theorem enter_eq_follow (location : Location) {components : List Component}
    (h : .root ∉ components) : location.enter components = (of components).follow location := by
  induction components using List.reverseRecOn with
  | nil =>
    show location = location.take (location.length - 0) ++ []
    simp
  | append_singleton front c ih =>
    rw [List.mem_append, not_or, List.mem_singleton] at h
    rw [Location.enter_append, ih h.1, of_concat, follow_step _ _ (Ne.symm h.2)]
    rfl

/-- A detour ends at its start or below it exactly if it leads down again by the names that it led
up from. -/
theorem prefix_follow_iff (detour : Detour) (location : Location) :
    location <+: detour.follow location ↔
      location.drop (location.length - detour.up) <+: detour.down := by
  have hcommon : location.take (location.length - detour.up) ++
      location.drop (location.length - detour.up) <+: detour.follow location ↔
        location.drop (location.length - detour.up) <+: detour.down :=
    List.prefix_append_right_inj _
  rwa [List.take_append_drop] at hcommon

/-- Without a `..` there is no way up. -/
theorem up_eq_zero {components : List Component} (h : .parent ∉ components) :
    (of components).up = 0 := by
  induction components using List.reverseRecOn with
  | nil => rfl
  | append_singleton front c ih =>
    rw [List.mem_append, not_or, List.mem_singleton] at h
    rw [of_concat]
    cases c with
    | parent => exact absurd rfl h.2
    | root => exact ih h.1
    | current => exact ih h.1
    | name name => exact ih h.1

end Detour

end StylesheetBuild
