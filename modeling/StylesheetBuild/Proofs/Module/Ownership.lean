/-
Which module owns a path.

The roots that contain a path are all beginnings of it, so of two of them one contains the other,
and the one with more components is the inner one.

* **`Registry.ofList_eq_of_perm`** — modules of different names make up the same registry in
  whatever order they are inserted;
* **`Registry.exists_of_foldl_deeper`** — going through modules in the order of their names finds
  the last one of the deepest;
* **`Registry.owner?_eq_some_iff`** — so the owner of a path is the innermost module that contains
  it;
* **`Registry.owner?_innermost`** — and it is the same for every order of inserting.
-/
import Mathlib.Data.List.Induction
import StylesheetBuild.Module.Registry
import StylesheetBuild.Proofs.Text.Order

namespace StylesheetBuild.Registry

variable {path : Path} {m n : AssetModule} {modules modules' : List AssetModule} {r : Registry}

/-! ### Inserting modules -/

theorem mem_of_mem_foldl_insert (h : m ∈ (modules.foldl insert r).modules) :
    m ∈ r.modules ∨ m ∈ modules := by
  induction modules generalizing r with
  | nil => exact .inl h
  | cons n rest ih =>
    rcases ih h with hinsert | hrest
    · rcases mem_insertInto hinsert with rfl | hr
      · exact .inr List.mem_cons_self
      · exact .inl hr
    · exact .inr (List.mem_cons_of_mem n hrest)

/-- A registered module has been inserted. -/
theorem mem_of_mem_ofList (h : m ∈ (ofList modules).modules) : m ∈ modules :=
  (mem_of_mem_foldl_insert h).resolve_left List.not_mem_nil

/-- A module with a new name is added to the others. -/
theorem insertInto_perm_cons (h : ∀ n ∈ modules, m.name ≠ n.name) :
    (insertInto m modules).Perm (m :: modules) := by
  induction modules with
  | nil => exact .refl _
  | cons n rest ih =>
    obtain ⟨hn, hrest⟩ := List.forall_mem_cons.mp h
    rw [insertInto, if_neg hn]
    split_ifs
    · exact .refl _
    · exact ((ih hrest).cons n).trans (.swap m n rest)

theorem foldl_insert_perm (h : ((r.modules ++ modules).map (·.name)).Nodup) :
    (modules.foldl insert r).modules.Perm (r.modules ++ modules) := by
  induction modules generalizing r with
  | nil => exact .of_eq (List.append_nil _).symm
  | cons m rest ih =>
    have hcons : (m :: r.modules ++ rest).Perm (r.modules ++ m :: rest) := List.perm_middle.symm
    have hnew : ∀ n ∈ r.modules, m.name ≠ n.name := by
      intro n hn heq
      have hnodup := (hcons.map (·.name)).nodup_iff.mpr h
      rw [List.cons_append, List.map_cons, List.nodup_cons] at hnodup
      exact hnodup.1 (heq ▸ List.mem_map_of_mem (List.mem_append_left rest hn))
    have hinsert : ((r.insert m).modules ++ rest).Perm (r.modules ++ m :: rest) :=
      ((insertInto_perm_cons hnew).append_right rest).trans hcons
    exact (ih ((hinsert.map (·.name)).nodup_iff.mpr h)).trans hinsert

/-- Modules of different names are all registered. -/
theorem ofList_perm (h : (modules.map (·.name)).Nodup) : (ofList modules).modules.Perm modules :=
  foldl_insert_perm (r := empty) h

/-- A registry is given by its modules, whatever their order. -/
theorem eq_of_perm {r r' : Registry} (h : r.modules.Perm r'.modules) : r = r' := by
  have hmodules : r.modules = r'.modules := h.eq_of_pairwise
    (fun m n _ _ hmn hnm => absurd hnm (List.lt_asymm hmn)) r.ordered r'.ordered
  cases r
  cases r'
  congr

/-- The order of inserting makes no difference. -/
theorem ofList_eq_of_perm (hperm : modules'.Perm modules) (h : (modules.map (·.name)).Nodup) :
    ofList modules' = ofList modules := by
  have h' : (modules'.map (·.name)).Nodup := (hperm.map (·.name)).nodup_iff.mpr h
  exact eq_of_perm ((ofList_perm h').trans (hperm.trans (ofList_perm h).symm))

/-! ### The deepest module -/

def depth (m : AssetModule) : Nat :=
  m.root.components.length

/-- The deeper of the module found so far and the next one, and the next one if they are equally
deep. -/
def deeper (best : Option AssetModule) (m : AssetModule) : Option AssetModule :=
  match best with
  | none => some m
  | some b => if depth b ≤ depth m then some m else some b

theorem owner?_eq_foldl (r : Registry) (path : Path) :
    r.owner? path = (r.modules.filter fun m => path.startsWith m.root).foldl deeper none := rfl

theorem foldl_deeper_eq_none_iff : modules.foldl deeper none = none ↔ modules = [] := by
  induction modules using List.reverseRecOn with
  | nil => exact iff_of_true rfl rfl
  | append_singleton before n ih =>
    rw [List.foldl_append]
    refine iff_of_false ?_ (List.append_ne_nil_of_right_ne_nil _ (List.cons_ne_nil n []))
    cases hbest : before.foldl deeper none with
    | none => exact Option.some_ne_none n
    | some b =>
      show (if depth b ≤ depth n then some n else some b) ≠ none
      split_ifs <;> exact Option.some_ne_none _

/-- What is found is the last one of the deepest modules. -/
theorem exists_of_foldl_deeper (h : modules.foldl deeper none = some m) :
    ∃ before after, modules = before ++ m :: after ∧ (∀ n ∈ before, depth n ≤ depth m) ∧
      ∀ n ∈ after, depth n < depth m := by
  induction modules using List.reverseRecOn generalizing m with
  | nil => exact absurd h nofun
  | append_singleton front n ih =>
    rw [List.foldl_append] at h
    cases hbest : front.foldl deeper none with
    | none =>
      -- `n` is the first module
      obtain rfl := foldl_deeper_eq_none_iff.mp hbest
      obtain rfl : n = m := Option.some_inj.mp h
      exact ⟨[], [], rfl, nofun, nofun⟩
    | some b =>
      obtain ⟨before, after, rfl, hbefore, hafter⟩ := ih hbest
      rw [hbest] at h
      replace h : (if depth b ≤ depth n then some n else some b) = some m := h
      split_ifs at h with hle
      · obtain rfl : n = m := Option.some_inj.mp h
        refine ⟨before ++ b :: after, [], rfl, fun k hk => ?_, nofun⟩
        rcases List.mem_append.mp hk with hk | hk
        · exact Nat.le_trans (hbefore k hk) hle
        · rcases List.mem_cons.mp hk with rfl | hk
          · exact hle
          · exact Nat.le_trans (Nat.le_of_lt (hafter k hk)) hle
      · obtain rfl : b = m := Option.some_inj.mp h
        refine ⟨before, after ++ [n], by simp, hbefore, fun k hk => ?_⟩
        rcases List.mem_append.mp hk with hk | hk
        · exact hafter k hk
        · rw [List.mem_singleton.mp hk]
          exact Nat.not_le.mp hle

/-! ### The innermost module -/

/-- A module contains a path when its root is a beginning of it, component by component. -/
def Contains (m : AssetModule) (path : Path) : Prop :=
  m.root.components <+: path.components

/-- The innermost of the modules that contain a path, and of those with the same root the one whose
name has the greatest bytes. -/
structure IsInnermost (modules : List AssetModule) (path : Path) (m : AssetModule) : Prop where
  mem : m ∈ modules
  contains : Contains m path
  inside : ∀ n ∈ modules, Contains n path → Contains n m.root
  last : ∀ n ∈ modules, n.root.components = m.root.components → n ≠ m →
    Utf8.encode n.name < Utf8.encode m.name

/-- Two modules that contain the same path are one inside the other. -/
theorem contains_root_of_depth_le (hn : Contains n path) (hm : Contains m path)
    (h : depth n ≤ depth m) : Contains n m.root :=
  List.prefix_of_prefix_length_le hn hm h

theorem contains_root_or (hn : Contains n path) (hm : Contains m path) :
    Contains n m.root ∨ Contains m n.root :=
  List.prefix_or_prefix_of_prefix hn hm

theorem IsInnermost.unique (hm : IsInnermost modules path m) (hn : IsInnermost modules path n) :
    m = n := by
  by_contra hne
  have hroot : m.root.components = n.root.components :=
    (hn.inside m hm.mem hm.contains).eq_of_length_le (hm.inside n hn.mem hn.contains).length_le
  exact List.lt_asymm (hn.last m hm.mem hroot hne) (hm.last n hn.mem hroot.symm (Ne.symm hne))

theorem mem_containing : m ∈ r.modules.filter (fun m => path.startsWith m.root) ↔
    m ∈ r.modules ∧ Contains m path := by
  rw [List.mem_filter, Path.startsWith_iff, Contains]

theorem isInnermost_of_owner? (h : r.owner? path = some m) : IsInnermost r.modules path m := by
  rw [owner?_eq_foldl] at h
  obtain ⟨before, after, hcut, hbefore, hafter⟩ := exists_of_foldl_deeper h
  have hmem : ∀ n, n ∈ r.modules ∧ Contains n path ↔ n ∈ before ∨ n = m ∨ n ∈ after := by
    intro n
    rw [← mem_containing, hcut, List.mem_append, List.mem_cons]
  obtain ⟨hm, hcontains⟩ := (hmem m).mpr (.inr (.inl rfl))
  have hordered : (before ++ m :: after).Pairwise fun m n => m.name < n.name :=
    hcut ▸ r.ordered.filter _
  refine ⟨hm, hcontains, fun n hn hpath => ?_, fun n hn hroot hne => ?_⟩
  · refine contains_root_of_depth_le hpath hcontains ?_
    rcases (hmem n).mp ⟨hn, hpath⟩ with hn | rfl | hn
    · exact hbefore n hn
    · exact Nat.le_refl _
    · exact Nat.le_of_lt (hafter n hn)
  · have hpath : Contains n path := by
      rw [Contains, hroot]
      exact hcontains
    rcases (hmem n).mp ⟨hn, hpath⟩ with hn | rfl | hn
    · have hname : n.name < m.name :=
        (List.pairwise_append.mp hordered).2.2 n hn m List.mem_cons_self
      exact Utf8.encode_lt_encode_iff.mpr hname
    · exact absurd rfl hne
    · have hdepth := hafter n hn
      rw [depth, depth, hroot] at hdepth
      exact absurd hdepth (Nat.lt_irrefl _)

theorem owner?_eq_none_iff : r.owner? path = none ↔ ∀ n ∈ r.modules, ¬ Contains n path := by
  rw [owner?_eq_foldl, foldl_deeper_eq_none_iff, List.eq_nil_iff_forall_not_mem]
  simp only [mem_containing, not_and]

/-- The owner of a path is the innermost module that contains it. -/
theorem owner?_eq_some_iff : r.owner? path = some m ↔ IsInnermost r.modules path m := by
  refine ⟨isInnermost_of_owner?, fun h => ?_⟩
  cases howner : r.owner? path with
  | none => exact absurd h.contains (owner?_eq_none_iff.mp howner m h.mem)
  | some n => rw [(isInnermost_of_owner? howner).unique h]

/-- **The innermost module owns a path.**  After any insertions a path has an owner unless no
module contains it.  The modules that contain it lie one inside the other, the owner inside all of
them; of several with the same root it is the one whose name is the greatest in bytes.  Modules of
different names have the same owner among them in whatever order they are inserted. -/
theorem owner?_innermost (modules : List AssetModule) (path : Path) :
    let registry := ofList modules
    (registry.owner? path = none ↔ ∀ n ∈ registry.modules, ¬ Contains n path) ∧
    (∀ m, registry.owner? path = some m ↔ IsInnermost registry.modules path m) ∧
    (∀ m ∈ registry.modules, ∀ n ∈ registry.modules, Contains m path → Contains n path →
      Contains m n.root ∨ Contains n m.root) ∧
    ∀ modules', modules'.Perm modules → (modules.map (·.name)).Nodup →
      (ofList modules').owner? path = registry.owner? path := by
  intro registry
  refine ⟨owner?_eq_none_iff, fun m => owner?_eq_some_iff, ?_, fun modules' hperm hnodup => ?_⟩
  · exact fun m _ n _ hm hn => contains_root_or hm hn
  · rw [ofList_eq_of_perm hperm hnodup]

/-- Modules with one root, written in two ways, inside another one, and inserted backwards. -/
theorem owner?_innermost_same_root :
    let outer : AssetModule := ⟨"z".toList, none, Path.ofString "/srv/app", Path.empty⟩
    let first : AssetModule := ⟨"a".toList, none, Path.ofString "/srv//app/lib/", Path.empty⟩
    let second : AssetModule := ⟨"b".toList, none, Path.ofString "/srv/app/./lib", Path.empty⟩
    let path := Path.ofString "/srv/app/lib/css/main.scss"
    (ofList [first, second, outer]).owner? path = some second ∧
      (ofList [outer, second, first]).owner? path = some second := by
  intro outer first second path
  obtain ⟨-, -, -, hperm⟩ := owner?_innermost [first, second, outer] path
  have howner : (ofList [first, second, outer]).owner? path = some second := by decide +kernel
  refine ⟨howner, ?_⟩
  rw [hperm [outer, second, first] (List.reverse_perm [first, second, outer]) (by decide), howner]

end StylesheetBuild.Registry
