/-
Keys of the tables in a document.

While a document is read, a key that is not there yet is added, and one that is there keeps its
place.  No table gets a key twice, however it is written: with a header, by dotted keys or in
braces, as the document or inside arrays and other tables.

* **`Entries.Distinct.set`** — giving a key a meaning adds it at most once;
* **`Entries.keeps_descend`** — a change of a table somewhere inside keeps keys apart everywhere;
* **`distinct_of_value?`** — the tables in a value have distinct keys;
* **`distinct_of_read?`** — so have those of a document.
-/
import Mathlib.Data.List.Nodup
import StylesheetBuild.Toml.Document

namespace StylesheetBuild.Toml

/-! ### Distinct keys -/

/-- No table in a value has a key twice. -/
inductive Value.Distinct : Value → Prop
  | string (text : Text) : Distinct (.string text)
  | boolean (b : Bool) : Distinct (.boolean b)
  | integer (n : Option Int) : Distinct (.integer n)
  | float (x : Float) : Distinct (.float x)
  | moment : Distinct .moment
  | array {values : List Value} (each : ∀ value ∈ values, Distinct value) :
    Distinct (.array values)
  | table {entries : List (Text × Value)} (keys : (entries.map (·.1)).Nodup)
    (each : ∀ entry ∈ entries, Distinct entry.2) : Distinct (.table entries)

/-- No table in what a key stands for has a key twice. -/
inductive Node.Distinct : Node → Prop
  | leaf {value : Value} (distinct : value.Distinct) : Distinct (.leaf value)
  | table {origin : Origin} {entries : Entries} (keys : (entries.map (·.1)).Nodup)
    (each : ∀ entry ∈ entries, Distinct entry.2) : Distinct (.table origin entries)
  | tables {elements : List Entries} (keys : ∀ entries ∈ elements, (entries.map (·.1)).Nodup)
    (each : ∀ entries ∈ elements, ∀ entry ∈ entries, Distinct entry.2) :
    Distinct (.tables elements)

/-- Neither a table nor one of those in it has a key twice. -/
structure Entries.Distinct (entries : Entries) : Prop where
  keys : (entries.map (·.1)).Nodup
  each : ∀ entry ∈ entries, entry.2.Distinct

namespace Node

theorem distinct_table_iff {origin : Origin} {entries : Entries} :
    (table origin entries).Distinct ↔ entries.Distinct :=
  ⟨fun | .table keys each => ⟨keys, each⟩, fun h => .table h.keys h.each⟩

theorem distinct_tables_iff {elements : List Entries} :
    (tables elements).Distinct ↔ ∀ entries ∈ elements, Entries.Distinct entries :=
  ⟨fun | .tables keys each => fun entries h => ⟨keys entries h, each entries h⟩,
    fun h => .tables (fun entries hentries => (h entries hentries).keys)
      fun entries hentries => (h entries hentries).each⟩

/-! ### Values of what was read -/

theorem entriesToValue_eq_map (entries : Entries) :
    entriesToValue entries = entries.map fun entry => (entry.1, entry.2.toValue) := by
  induction entries with
  | nil => rw [entriesToValue, List.map_nil]
  | cons entry rest ih => rw [entriesToValue, ih, List.map_cons]

theorem elementsToValue_eq_map (elements : List Entries) :
    elementsToValue elements = elements.map fun entries => .table (entriesToValue entries) := by
  induction elements with
  | nil => rw [elementsToValue, List.map_nil]
  | cons entries rest ih => rw [elementsToValue, ih, List.map_cons]

theorem keys_entriesToValue (entries : Entries) :
    (entriesToValue entries).map (·.1) = entries.map (·.1) := by
  rw [entriesToValue_eq_map, List.map_map]
  rfl

theorem distinct_entriesToValue {entries : Entries} (hkeys : (entries.map (·.1)).Nodup)
    (heach : ∀ entry ∈ entries, entry.2.toValue.Distinct) :
    (Value.table (entriesToValue entries)).Distinct := by
  refine .table (keys_entriesToValue entries ▸ hkeys) fun entry hentry => ?_
  rw [entriesToValue_eq_map] at hentry
  obtain ⟨read, hread, rfl⟩ := List.mem_map.mp hentry
  exact heach read hread

/-- What was read keeps its keys as a value. -/
theorem Distinct.toValue {node : Node} (h : node.Distinct) : node.toValue.Distinct := by
  induction h with
  | leaf distinct => rwa [Node.toValue]
  | table keys each ih =>
    rw [Node.toValue]
    exact distinct_entriesToValue keys ih
  | tables keys each ih =>
    rw [Node.toValue, elementsToValue_eq_map]
    refine .array fun value hvalue => ?_
    obtain ⟨entries, hentries, rfl⟩ := List.mem_map.mp hvalue
    exact distinct_entriesToValue (keys entries hentries) (ih entries hentries)

end Node

namespace Entries

theorem Distinct.toValue {entries : Entries} (h : entries.Distinct) :
    (Value.table (Node.entriesToValue entries)).Distinct :=
  Node.distinct_entriesToValue h.keys fun entry hentry => (h.each entry hentry).toValue

theorem Distinct.nil : Distinct [] :=
  ⟨List.nodup_nil, nofun⟩

/-! ### Changes -/

theorem Distinct.get? {entries : Entries} {key : Text} {node : Node} (h : entries.Distinct)
    (hget : entries.get? key = some node) : node.Distinct := by
  obtain ⟨entry, hentry, rfl⟩ := Option.map_eq_some_iff.mp hget
  exact h.each entry (List.mem_of_find?_eq_some hentry)

/-- Giving a key a meaning adds it at most once. -/
theorem Distinct.set {entries : Entries} {node : Node} (h : entries.Distinct)
    (hnode : node.Distinct) (key : Text) : (entries.set key node).Distinct := by
  rw [Entries.set]
  split_ifs with hany
  · constructor
    · have hkeys : (entries.map fun entry => if entry.1 = key then (key, node) else entry).map (·.1)
          = entries.map (·.1) := by
        rw [List.map_map]
        refine List.map_congr_left fun entry _ => ?_
        rw [Function.comp_apply]
        split_ifs with hkey
        · exact hkey.symm
        · rfl
      exact hkeys ▸ h.keys
    · intro entry hentry
      obtain ⟨old, hold, rfl⟩ := List.mem_map.mp hentry
      split_ifs
      · exact hnode
      · exact h.each old hold
  · constructor
    · have hfresh : key ∉ entries.map (·.1) := by
        intro hmem
        obtain ⟨entry, hentry, rfl⟩ := List.mem_map.mp hmem
        exact hany (List.any_eq_true.mpr ⟨entry, hentry, decide_eq_true rfl⟩)
      rw [List.map_append]
      exact List.concat_eq_append ▸ h.keys.concat hfresh
    · intro entry hentry
      rcases List.mem_append.mp hentry with hentry | hentry
      · exact h.each entry hentry
      · obtain rfl := List.mem_singleton.mp hentry
        exact hnode

/-- Whether a change keeps keys apart. -/
def Change.Keeps (change : Change) : Prop :=
  ∀ ⦃origin : Origin⦄ ⦃entries result : Entries⦄, entries.Distinct →
    change origin entries = some result → result.Distinct

/-- A change of a table somewhere inside keeps keys apart. -/
theorem keeps_descend {dotted : Bool} {change : Change} (hchange : change.Keeps)
    (path : List Text) : (descend dotted change path).Keeps := by
  induction path with
  | nil => exact hchange
  | cons key path ih =>
    intro origin entries result h hresult
    rw [descend] at hresult
    split at hresult
    · obtain ⟨inner, hinner, hresult⟩ := Option.bind_eq_some_iff.mp hresult
      obtain rfl := Option.some_inj.mp hresult
      exact h.set (Node.distinct_table_iff.mpr (ih .nil hinner)) key
    · next inner hget =>
      have hinner := Node.distinct_table_iff.mp (h.get? hget)
      split at hresult
      · exact absurd hresult nofun
      obtain ⟨inner', hinner', hresult⟩ := Option.bind_eq_some_iff.mp hresult
      obtain rfl := Option.some_inj.mp hresult
      exact h.set (Node.distinct_table_iff.mpr (ih hinner hinner')) key
    · next elements hget =>
      have helements := Node.distinct_tables_iff.mp (h.get? hget)
      obtain ⟨last, hlast, hresult⟩ := Option.bind_eq_some_iff.mp hresult
      obtain ⟨last', hlast', hresult⟩ := Option.bind_eq_some_iff.mp hresult
      obtain rfl := Option.some_inj.mp hresult
      refine h.set (Node.distinct_tables_iff.mpr fun entries hentries => ?_) key
      rcases List.mem_append.mp hentries with hentries | hentries
      · exact helements entries (List.dropLast_subset elements hentries)
      · obtain rfl := List.mem_singleton.mp hentries
        exact ih (helements last (List.mem_of_getLast? hlast)) hlast'
    · exact absurd hresult nofun

theorem keeps_assign {value : Value} (hvalue : value.Distinct) (path : List Text) (key : Text) :
    (assign path key value).Keeps := by
  refine keeps_descend (fun origin entries result h hresult => ?_) path
  split_ifs at hresult
  obtain rfl := Option.some_inj.mp hresult
  exact h.set (.leaf hvalue) key

theorem keeps_define (path : List Text) (key : Text) : (define path key).Keeps := by
  refine keeps_descend (fun origin entries result h hresult => ?_) path
  split at hresult
  · obtain rfl := Option.some_inj.mp hresult
    exact h.set (Node.distinct_table_iff.mpr .nil) key
  · next inner hget =>
    obtain rfl := Option.some_inj.mp hresult
    have hinner := Node.distinct_table_iff.mp (h.get? hget)
    exact h.set (Node.distinct_table_iff.mpr hinner) key
  · exact absurd hresult nofun

theorem keeps_extend (path : List Text) (key : Text) : (extend path key).Keeps := by
  refine keeps_descend (fun origin entries result h hresult => ?_) path
  split at hresult
  · obtain rfl := Option.some_inj.mp hresult
    refine h.set (Node.distinct_tables_iff.mpr fun entries hentries => ?_) key
    obtain rfl := List.mem_singleton.mp hentries
    exact .nil
  · next elements hget =>
    obtain rfl := Option.some_inj.mp hresult
    refine h.set (Node.distinct_tables_iff.mpr fun entries hentries => ?_) key
    rcases List.mem_append.mp hentries with hentries | hentries
    · exact Node.distinct_tables_iff.mp (h.get? hget) entries hentries
    · obtain rfl := List.mem_singleton.mp hentries
      exact .nil
  · exact absurd hresult nofun

end Entries

/-! ### Values -/

theorem distinct_of_number? {token : Text} {value : Value} (h : number? token = some value) :
    value.Distinct := by
  have hbased : ∀ {base : Nat} {text : Text}, basedInteger? base text = some value →
      value.Distinct := by
    intro base text h
    obtain ⟨digits, -, h⟩ := Option.bind_eq_some_iff.mp h
    split_ifs at h
    all_goals
      obtain rfl := Option.some_inj.mp h
      exact .integer _
  rw [number?.eq_def] at h
  split at h
  · exact hbased h
  · exact hbased h
  · exact hbased h
  · dsimp only at h
    split_ifs at h
    · obtain rfl := Option.some_inj.mp h
      exact .float _
    · obtain ⟨x, -, rfl⟩ := Option.map_eq_some_iff.mp h
      exact .float x
    · rw [decimalInteger?.eq_def] at h
      dsimp only at h
      split_ifs at h
      all_goals
        obtain rfl := Option.some_inj.mp h
        exact .integer _

theorem distinct_of_scalar? {token : Text} {value : Value} (h : scalar? token = some value) :
    value.Distinct := by
  rw [scalar?] at h
  split_ifs at h
  · obtain rfl := Option.some_inj.mp h
    exact .boolean true
  · obtain rfl := Option.some_inj.mp h
    exact .boolean false
  · obtain rfl := Option.some_inj.mp h
    exact .moment
  · exact distinct_of_number? h

/-- What is read with so much fuel has distinct keys: values, those in an array, and the entries
that are added to a table. -/
structure ReadsDistinct (fuel : Nat) : Prop where
  value : ∀ {depth text value rest}, valueAt? fuel depth text = some (value, rest) → value.Distinct
  elements : ∀ {depth text values rest}, elements? fuel depth text = some (values, rest) →
    ∀ value ∈ values, value.Distinct
  entries : ∀ {depth entries text result rest}, Entries.Distinct entries →
    inlineEntries? fuel depth entries text = some (result, rest) → Entries.Distinct result

namespace ReadsDistinct

variable {fuel depth : Nat} {text rest : Text}

theorem zero : ReadsDistinct 0 := by
  refine ⟨fun h => ?_, fun h => ?_, fun _ h => ?_⟩
  · rw [valueAt?] at h
    exact absurd h nofun
  · rw [elements?] at h
    exact absurd h nofun
  · rw [inlineEntries?] at h
    exact absurd h nofun

theorem value_succ (ih : ReadsDistinct fuel) {value : Value}
    (h : valueAt? (fuel + 1) depth text = some (value, rest)) : value.Distinct := by
  rw [valueAt?.eq_def] at h
  dsimp only at h
  split at h
  · exact absurd h nofun
  · split_ifs at h
    obtain ⟨⟨values, rest⟩, hvalues, h⟩ := Option.bind_eq_some_iff.mp h
    obtain ⟨rfl, rfl⟩ := Prod.mk.inj (Option.some_inj.mp h)
    exact .array (ih.elements hvalues)
  · split_ifs at h
    obtain ⟨⟨entries, rest⟩, hentries, h⟩ := Option.bind_eq_some_iff.mp h
    obtain ⟨rfl, rfl⟩ := Prod.mk.inj (Option.some_inj.mp h)
    exact (ih.entries .nil hentries).toValue
  · split_ifs at h
    · obtain ⟨⟨s, rest⟩, -, h⟩ := Option.map_eq_some_iff.mp h
      obtain ⟨rfl, rfl⟩ := Prod.mk.inj h
      exact .string s
    · obtain ⟨value, hvalue, h⟩ := Option.map_eq_some_iff.mp h
      obtain ⟨rfl, rfl⟩ := Prod.mk.inj h
      exact distinct_of_scalar? hvalue

theorem elements_succ (ih : ReadsDistinct fuel) {values : List Value}
    (h : elements? (fuel + 1) depth text = some (values, rest)) :
    ∀ value ∈ values, value.Distinct := by
  rw [elements?.eq_def] at h
  dsimp only at h
  obtain ⟨text, -, h⟩ := Option.bind_eq_some_iff.mp h
  split at h
  · obtain ⟨rfl, rfl⟩ := Prod.mk.inj (Option.some_inj.mp h)
    exact nofun
  obtain ⟨⟨first, rest⟩, hfirst, h⟩ := Option.bind_eq_some_iff.mp h
  obtain ⟨text, -, h⟩ := Option.bind_eq_some_iff.mp h
  split at h
  · obtain ⟨rfl, rfl⟩ := Prod.mk.inj (Option.some_inj.mp h)
    exact fun value hvalue => List.mem_singleton.mp hvalue ▸ ih.value hfirst
  · obtain ⟨⟨others, rest⟩, hothers, h⟩ := Option.bind_eq_some_iff.mp h
    obtain ⟨rfl, rfl⟩ := Prod.mk.inj (Option.some_inj.mp h)
    exact List.forall_mem_cons.mpr ⟨ih.value hfirst, ih.elements hothers⟩
  · exact absurd h nofun

theorem entries_succ (ih : ReadsDistinct fuel) {entries result : Entries}
    (hentries : entries.Distinct)
    (h : inlineEntries? (fuel + 1) depth entries text = some (result, rest)) :
    result.Distinct := by
  rw [inlineEntries?.eq_def] at h
  dsimp only at h
  obtain ⟨text, -, h⟩ := Option.bind_eq_some_iff.mp h
  split at h
  · obtain ⟨rfl, rfl⟩ := Prod.mk.inj (Option.some_inj.mp h)
    exact hentries
  obtain ⟨⟨⟨path, key⟩, rest⟩, -, h⟩ := Option.bind_eq_some_iff.mp h
  dsimp only at h
  split at h
  · obtain ⟨⟨value, rest⟩, hvalue, h⟩ := Option.bind_eq_some_iff.mp h
    obtain ⟨assigned, hassigned, h⟩ := Option.bind_eq_some_iff.mp h
    have hkept := Entries.keeps_assign (ih.value hvalue) path key hentries hassigned
    obtain ⟨text, -, h⟩ := Option.bind_eq_some_iff.mp h
    split at h
    · obtain ⟨rfl, rfl⟩ := Prod.mk.inj (Option.some_inj.mp h)
      exact hkept
    · exact ih.entries hkept h
    · exact absurd h nofun
  · exact absurd h nofun

end ReadsDistinct

theorem readsDistinct (fuel : Nat) : ReadsDistinct fuel := by
  induction fuel with
  | zero => exact .zero
  | succ fuel ih => exact ⟨ih.value_succ, ih.elements_succ, ih.entries_succ⟩

theorem distinct_of_value? {text rest : Text} {value : Value}
    (h : value? text = some (value, rest)) : value.Distinct :=
  (readsDistinct _).value h

/-! ### Documents -/

theorem distinct_of_header? {progress next : Progress} {array : Bool} {text rest : Text}
    (hprogress : Entries.Distinct progress.entries)
    (h : header? progress array text = some (next, rest)) : Entries.Distinct next.entries := by
  obtain ⟨⟨⟨path, key⟩, behind⟩, -, h⟩ := Option.bind_eq_some_iff.mp h
  have hdefined : ∀ {change : Entries.Change}, change.Keeps → ∀ behind : Text,
      ((change .header progress.entries).bind fun entries =>
        some (⟨entries, path ++ [key]⟩, behind)) = some (next, rest) →
      Entries.Distinct next.entries := by
    intro change hchange behind h
    obtain ⟨entries, hentries, h⟩ := Option.bind_eq_some_iff.mp h
    obtain ⟨rfl, -⟩ := Prod.mk.inj (Option.some_inj.mp h)
    exact hchange hprogress hentries
  dsimp only at h
  split at h
  · exact hdefined (Entries.keeps_extend path key) _ h
  · exact hdefined (Entries.keeps_define path key) _ h
  · exact absurd h nofun

theorem distinct_of_assignment? {progress next : Progress} {text rest : Text}
    (hprogress : Entries.Distinct progress.entries)
    (h : assignment? progress text = some (next, rest)) : Entries.Distinct next.entries := by
  obtain ⟨⟨⟨path, key⟩, behind⟩, -, h⟩ := Option.bind_eq_some_iff.mp h
  dsimp only at h
  split at h
  · obtain ⟨behind, -, h⟩ := Option.bind_eq_some_iff.mp h
    obtain ⟨⟨value, behind⟩, hvalue, h⟩ := Option.bind_eq_some_iff.mp h
    obtain ⟨entries, hentries, h⟩ := Option.bind_eq_some_iff.mp h
    obtain ⟨rfl, -⟩ := Prod.mk.inj (Option.some_inj.mp h)
    have hassign := Entries.keeps_assign (distinct_of_value? hvalue) path key
    exact Entries.keeps_descend hassign progress.current hprogress hentries
  · exact absurd h nofun

/-- What stands on a line keeps keys apart. -/
theorem distinct_of_statement? {progress next : Progress} {text rest : Text}
    (hprogress : Entries.Distinct progress.entries)
    (h : statement? progress text = some (next, rest)) : Entries.Distinct next.entries := by
  rw [statement?.eq_def] at h
  split at h
  · obtain ⟨rfl, rfl⟩ := Prod.mk.inj (Option.some_inj.mp h)
    exact hprogress
  · exact distinct_of_header? hprogress h
  · exact distinct_of_header? hprogress h
  · split_ifs at h
    · obtain ⟨rfl, rfl⟩ := Prod.mk.inj (Option.some_inj.mp h)
      exact hprogress
    · exact distinct_of_assignment? hprogress h

/-- So do all lines. -/
theorem distinct_of_lines? {fuel : Nat} {progress : Progress} {text : Text} {result : Entries}
    (hprogress : Entries.Distinct progress.entries)
    (h : lines? fuel progress text = some result) : Entries.Distinct result := by
  induction fuel generalizing progress text with
  | zero => exact absurd h nofun
  | succ fuel ih =>
    rw [lines?] at h
    split at h
    · obtain rfl := Option.some_inj.mp h
      exact hprogress
    · obtain ⟨⟨next, rest⟩, hnext, h⟩ := Option.bind_eq_some_iff.mp h
      obtain ⟨text, -, h⟩ := Option.bind_eq_some_iff.mp h
      exact ih (distinct_of_statement? hprogress hnext) h

/-- **No table of a document has a key twice.** -/
theorem distinct_of_read? {document : Text} {entries : List (Text × Value)}
    (h : read? document = some entries) : (Value.table entries).Distinct := by
  obtain ⟨result, hresult, rfl⟩ := Option.map_eq_some_iff.mp h
  exact (distinct_of_lines? .nil hresult).toValue

end StylesheetBuild.Toml
