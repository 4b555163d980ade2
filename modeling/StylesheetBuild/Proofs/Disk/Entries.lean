/-
The entries of a directory, as paths lead to them.

A name behind the path of a directory leads to the entry of that name, however the path ends.

* **`walk_segments_join`** — a name behind a path is followed from where the path leads;
* **`holds_join_iff`** — so there is something at the joined path exactly if the path leads to a
  directory, and the joined path to an entry of that name in it.

Design notes: a path of `pathLimit` bytes leads nowhere, and the joined path may be as long as that
although the path in front is not.  So an entry that is there is not enough; its path has to lead
to it.
-/
import StylesheetBuild.Disk.Host
import StylesheetBuild.Proofs.Disk.Saving
import StylesheetBuild.Proofs.Path.Composition

namespace StylesheetBuild.Disk

open StylesheetBuild.Path (Component slash)

variable {disk : Disk} {here location result : Location} {dir : Path} {name : List UInt8}

/-- A name of an entry that a directory can have. -/
structure IsEntryName (name : List UInt8) : Prop where
  slash_not_mem : slash ∉ name
  length_le : name.length ≤ nameLimit
  ofSegment? : Component.ofSegment? name = some (.name name)

theorem IsEntryName.isAbsolute_eq (h : IsEntryName name) : (⟨name⟩ : Path).isAbsolute = false := by
  rw [Bool.eq_false_iff]
  intro habs
  exact h.slash_not_mem (List.mem_of_head? (of_decide_eq_true habs))

/-! ### The last step -/

theorem walk_concat_eq_ok_iff {segments : List (List UInt8)} {segment : List UInt8} :
    disk.walk location (segments ++ [segment]) = .ok result ↔
      ∃ middle, disk.walk location segments = .ok middle ∧
        disk.step middle segment = .ok result := by
  rw [walk_append]
  constructor
  · intro h
    obtain ⟨middle, hmiddle, hstep⟩ := exists_of_bind_eq_ok h
    obtain ⟨last, hlast, hresult⟩ := exists_of_bind_eq_ok hstep
    obtain rfl := Except.ok.inj hresult
    exact ⟨middle, hmiddle, hlast⟩
  · rintro ⟨middle, hmiddle, hstep⟩
    rw [hmiddle]
    show (disk.step middle segment >>= pure) = .ok result
    rw [hstep]
    rfl

/-- The empty piece leads nowhere, but it needs a directory. -/
theorem step_nil_eq_ok_iff : disk.step location [] = .ok result ↔
    disk.find? location = some .directory ∧ location = result := by
  rw [step]
  cases disk.find? location with
  | none => simp
  | some entry => cases entry <;> simp [Component.ofSegment?]

theorem step_name_eq_ok_iff (h : IsEntryName name) : disk.step location name = .ok result ↔
    disk.find? location = some .directory ∧ (disk.find? (location ++ [name])).isSome ∧
      location ++ [name] = result := by
  rw [step]
  cases disk.find? location with
  | none => simp
  | some entry =>
    cases entry with
    | file => simp
    | directory => simp [h.ofSegment?, enter_eq_ok_iff, h.length_le]

/-! ### A name behind a path -/

theorem checkPath_eq_ok_iff {path : Path} : checkPath path = .ok () ↔
    0 ∉ path.bytes ∧ path.bytes ≠ [] ∧ path.bytes.length < pathLimit := by
  rw [checkPath]
  split_ifs with hzero hnil hlength
  · simp_all
  · simp_all
  · simp [Nat.not_lt.mpr hlength]
  · simp_all

theorem locate_eq_ok_iff {path : Path} (h : path.isAbsolute) :
    disk.locate here path = .ok result ↔
      checkPath path = .ok () ∧ disk.walk [] path.segments = .ok result := by
  rw [locate, origin, if_pos h]
  constructor
  · intro hlocate
    obtain ⟨⟨⟩, hcheck, hwalk⟩ := exists_of_bind_eq_ok hlocate
    exact ⟨hcheck, hwalk⟩
  · rintro ⟨hcheck, hwalk⟩
    rw [hcheck]
    exact hwalk

/-- The path of an entry begins with that of the directory. -/
theorem prefix_bytes_join (hdir : dir.isAbsolute) (hname : IsEntryName name) :
    dir.bytes <+: (dir.join ⟨name⟩).bytes := by
  obtain ⟨body, hbody⟩ := Path.exists_of_isAbsolute hdir
  rw [Path.join, hname.isAbsolute_eq, if_neg (by simp [hbody])]
  split_ifs
  · exact List.prefix_append dir.bytes name
  · exact List.prefix_append dir.bytes (slash :: name)

/-- Where the path of an entry may be looked up, so may that of the directory. -/
theorem checkPath_of_join (hdir : dir.isAbsolute) (hname : IsEntryName name)
    (h : checkPath (dir.join ⟨name⟩) = .ok ()) : checkPath dir = .ok () := by
  obtain ⟨body, hbody⟩ := Path.exists_of_isAbsolute hdir
  have hfront := prefix_bytes_join hdir hname
  obtain ⟨hzero, -, hlength⟩ := checkPath_eq_ok_iff.mp h
  exact checkPath_eq_ok_iff.mpr ⟨fun hmem => hzero (hfront.subset hmem),
    hbody ▸ List.cons_ne_nil slash body, Nat.lt_of_le_of_lt hfront.length_le hlength⟩

/-- Behind a slash, a path has one piece more. -/
theorem segments_append_slash {p : Path} (h : p.bytes ≠ []) (hname : slash ∉ name) :
    (⟨p.bytes ++ slash :: name⟩ : Path).segments = p.segments ++ [name] := by
  rw [Path.segments, Path.cut_append_slash h, Pieces.split_append_separator,
    Pieces.split_of_not_mem hname]
  rfl

/-- The name is the last piece of the path; in the path of the directory, its place may be taken by
an empty piece behind a slash at the end. -/
theorem exists_segments_join (hdir : dir.isAbsolute) (hname : IsEntryName name) :
    ∃ before, (dir.join ⟨name⟩).segments = before ++ [name] ∧
      (dir.segments = before ∨ dir.segments = before ++ [[]]) := by
  obtain ⟨body, hbody⟩ := Path.exists_of_isAbsolute hdir
  have hne : dir.bytes ≠ [] := hbody ▸ List.cons_ne_nil slash body
  rw [Path.join, hname.isAbsolute_eq, if_neg (by simp [hne])]
  split_ifs with hlast
  · obtain ⟨front, hfront⟩ := List.getLast?_eq_some_iff.mp hlast
    obtain rfl : dir = ⟨front ++ [slash]⟩ := congrArg Path.mk hfront
    by_cases hnil : front = []
    · -- the directory is the root
      subst hnil
      refine ⟨[], ?_, .inr rfl⟩
      show Pieces.split slash name = [name]
      exact Pieces.split_of_not_mem hname.slash_not_mem
    · refine ⟨(⟨front⟩ : Path).segments, ?_, .inr ?_⟩
      · rw [List.append_assoc, List.singleton_append]
        exact segments_append_slash (p := ⟨front⟩) hnil hname.slash_not_mem
      · exact segments_append_slash (p := ⟨front⟩) hnil List.not_mem_nil
  · exact ⟨dir.segments, segments_append_slash hne hname.slash_not_mem, .inl rfl⟩

/-- A name behind the path of a directory is followed from where that path leads. -/
theorem walk_segments_join (hdir : dir.isAbsolute) (hname : IsEntryName name) :
    disk.walk [] (dir.join ⟨name⟩).segments = .ok result ↔
      ∃ location, disk.walk [] dir.segments = .ok location ∧
        disk.find? location = some .directory ∧ (disk.find? (location ++ [name])).isSome ∧
        location ++ [name] = result := by
  obtain ⟨before, hjoin, hsegments⟩ := exists_segments_join hdir hname
  rw [hjoin, walk_concat_eq_ok_iff]
  simp only [step_name_eq_ok_iff hname]
  refine exists_congr fun location => and_congr_left fun hstep => ?_
  rcases hsegments with hsegments | hsegments
  · rw [hsegments]
  · rw [hsegments, walk_concat_eq_ok_iff]
    constructor
    · exact fun hwalk => ⟨location, hwalk, step_nil_eq_ok_iff.mpr ⟨hstep.1, rfl⟩⟩
    · rintro ⟨middle, hmiddle, hnil⟩
      rwa [← (step_nil_eq_ok_iff.mp hnil).2]

/-- There is something at a path with a name at its end exactly if the path in front leads to a
directory, and the whole path to an entry of that name in it. -/
theorem holds_join_iff (hdir : dir.isAbsolute) (hname : IsEntryName name) :
    disk.holds here (dir.join ⟨name⟩) ↔
      ∃ location, disk.locate here dir = .ok location ∧
        disk.find? location = some .directory ∧ (disk.find? (location ++ [name])).isSome ∧
        disk.locate here (dir.join ⟨name⟩) = .ok (location ++ [name]) := by
  have hjoin := Path.isAbsolute_join hdir ⟨name⟩
  have hholds : disk.holds here (dir.join ⟨name⟩) ↔
      ∃ result, disk.locate here (dir.join ⟨name⟩) = .ok result := by
    rw [holds]
    cases disk.locate here (dir.join ⟨name⟩) <;> simp [Except.isOk, Except.toBool]
  rw [hholds]
  constructor
  · rintro ⟨result, hlocate⟩
    obtain ⟨hcheck, hwalk⟩ := (locate_eq_ok_iff hjoin).mp hlocate
    obtain ⟨location, hbefore, hdirectory, hentry, rfl⟩ := (walk_segments_join hdir hname).mp hwalk
    exact ⟨location, (locate_eq_ok_iff hdir).mpr ⟨checkPath_of_join hdir hname hcheck, hbefore⟩,
      hdirectory, hentry, hlocate⟩
  · rintro ⟨location, -, -, -, hlocate⟩
    exact ⟨location ++ [name], hlocate⟩

end StylesheetBuild.Disk
