/-
Registries after any history of insertions.

Inserting gives one name a new module and leaves all others as they were, so after any history a
name has the module that was inserted last under it.  What is listed are these modules, in the order
of their names.

* **`get?_insert`** — what one insertion changes;
* **`get?_ofList`** — what has been inserted last is found;
* **`eq_of_name_eq`** — no two modules have the same name;
* **`get?_eq_some_iff`**, **`count_modules`** — what is found is what is listed, once;
* **`size_ofList`** — there are as many modules as there were names;
* **`ofList_last_wins`** — all of this together.
-/
import Mathlib.Data.Finset.Card
import Mathlib.Data.List.Induction
import StylesheetBuild.Module.Registry
import StylesheetBuild.Proofs.Text.Order

namespace StylesheetBuild.Registry

variable {r : Registry} {m n : AssetModule} {name : Text}

/-! ### Insertions -/

/-- An insertion changes the answer for the name of the module and for no other. -/
theorem get?_insert (r : Registry) (m : AssetModule) (name : Text) :
    (r.insert m).get? name = if name = m.name then some m else r.get? name := by
  split_ifs with h
  · rw [h, get?_insert_self]
  · exact get?_insert_of_ne r h

theorem ofList_concat (history : List AssetModule) (m : AssetModule) :
    ofList (history ++ [m]) = (ofList history).insert m := List.foldl_append

/-- After any history, a name has the module that was inserted last under it. -/
theorem get?_ofList (history : List AssetModule) (name : Text) :
    (ofList history).get? name = history.reverse.find? (·.name = name) := by
  induction history using List.reverseRecOn with
  | nil => rfl
  | append_singleton front m ih =>
    rw [ofList_concat, get?_insert, List.reverse_concat, List.find?_cons, ih]
    by_cases h : name = m.name
    · simp [h]
    · simp [h, Ne.symm h]

/-! ### Listing -/

theorem nodup_names (r : Registry) : (r.modules.map (·.name)).Nodup := by
  refine List.pairwise_map.mpr (r.ordered.imp fun {m n} h heq => ?_)
  rw [heq] at h
  exact List.lt_irrefl n.name h

/-- A registered module is known by its name. -/
theorem eq_of_name_eq (hm : m ∈ r.modules) (hn : n ∈ r.modules) (h : m.name = n.name) : m = n :=
  List.inj_on_of_nodup_map r.nodup_names hm hn h

/-- What is found under a name is what is listed with that name. -/
theorem get?_eq_some_iff : r.get? name = some m ↔ m ∈ r.modules ∧ m.name = name := by
  constructor
  · exact fun h => ⟨List.mem_of_find?_eq_some h, name_of_get? h⟩
  · rintro ⟨hm, rfl⟩
    obtain ⟨n, hn⟩ : ∃ n, r.get? m.name = some n :=
      Option.isSome_iff_exists.mp (List.find?_isSome.mpr ⟨m, hm, decide_eq_true rfl⟩)
    rw [hn, eq_of_name_eq (List.mem_of_find?_eq_some hn) hm (name_of_get? hn)]

theorem count_modules (r : Registry) (m : AssetModule) :
    r.modules.count m = if r.get? m.name = some m then 1 else 0 := by
  have hmem : r.get? m.name = some m ↔ m ∈ r.modules :=
    get?_eq_some_iff.trans (and_iff_left rfl)
  rw [r.nodup_names.of_map.count, if_congr hmem rfl rfl]

/-- The names of a registry are those that were inserted. -/
theorem mem_names_ofList (history : List AssetModule) :
    name ∈ (ofList history).modules.map (·.name) ↔ name ∈ history.map (·.name) := by
  have hfound : (∃ m, (ofList history).get? name = some m) ↔
      ∃ m ∈ history, m.name = name := by
    rw [← Option.isSome_iff_exists, get?_ofList, List.find?_isSome]
    simp only [List.mem_reverse, decide_eq_true_eq]
  simp only [get?_eq_some_iff] at hfound
  rw [List.mem_map, List.mem_map, hfound]

theorem size_ofList (history : List AssetModule) :
    (ofList history).size = (history.map (·.name)).toFinset.card := by
  have hnames : ((ofList history).modules.map (·.name)).toFinset =
      (history.map (·.name)).toFinset := by
    ext name
    rw [List.mem_toFinset, List.mem_toFinset, mem_names_ofList]
  rw [← hnames, List.toFinset_card_of_nodup (nodup_names _), List.length_map]
  rfl

theorem isEmpty_ofList (history : List AssetModule) :
    (ofList history).isEmpty ↔ history = [] := by
  have hsize := size_ofList history
  rw [isEmpty, List.isEmpty_iff, ← List.length_eq_zero_iff]
  rw [size] at hsize
  rw [hsize, Finset.card_eq_zero, List.toFinset_eq_empty_iff, List.map_eq_nil_iff]

/-- **The last insertion wins.**  After any history of insertions, a name has the module that was
inserted last under exactly that name, and no other name's insertions count.  The modules are listed
in strictly increasing order of the bytes of their names, each that can be found once; there are as
many as different names were inserted, and none only where nothing was. -/
theorem ofList_last_wins (history : List AssetModule) :
    let registry := ofList history
    (∀ name, registry.get? name = history.reverse.find? (·.name = name)) ∧
    (∀ name, ∀ m ∈ registry.get? name, m.name = name) ∧
    (registry.modules.Pairwise fun m n => Utf8.encode m.name < Utf8.encode n.name) ∧
    (∀ m, registry.modules.count m = if registry.get? m.name = some m then 1 else 0) ∧
    registry.size = (history.map (·.name)).toFinset.card ∧
    (registry.isEmpty ↔ history = []) ∧
    ∀ m name, (registry.insert m).get? name =
      if name = m.name then some m else registry.get? name := by
  intro registry
  refine ⟨get?_ofList history, fun name m h => name_of_get? h, ?_, count_modules registry,
    size_ofList history, isEmpty_ofList history, get?_insert registry⟩
  exact registry.ordered.imp fun h => Utf8.encode_lt_encode_iff.mpr h

/-- A name that is used again, and one that begins with it. -/
theorem ofList_last_wins_again :
    let first : AssetModule := ⟨"app".toList, none, Path.ofString "/old", Path.empty⟩
    let other : AssetModule := ⟨"app-2".toList, none, Path.ofString "/srv/app", Path.empty⟩
    let last : AssetModule := ⟨"app".toList, none, Path.ofString "/new", Path.empty⟩
    let registry := ofList [first, other, last]
    last ∈ registry.get? "app".toList ∧ last.name = "app".toList ∧ registry.size = 2 := by
  intro first other last registry
  obtain ⟨hget, hname, -, -, hsize, -⟩ := ofList_last_wins [first, other, last]
  have hlast : last ∈ registry.get? "app".toList := by
    rw [hget]
    decide +kernel
  exact ⟨hlast, hname "app".toList last hlast, hsize.trans (by decide +kernel)⟩

end StylesheetBuild.Registry
