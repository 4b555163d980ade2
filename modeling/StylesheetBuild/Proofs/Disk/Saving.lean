/-
What saving a file does to a disk.

Saving makes the directories that are missing and gives one file a new content.  It takes nothing
away: directories stay, files stay files, and a path that led somewhere still leads there.

* **`Disk.Keeps.locate`** — a path still leads where it led;
* **`Disk.extends_makeDirectories`** — making directories changes no entry;
* **`Disk.exists_of_save`** — a file that is saved is at the location that its path leads to, and no
  other entry changes;
* **`Disk.extends_of_save_error`** — a file that cannot be saved changes no entry.
-/
import StylesheetBuild.Disk.Write
import StylesheetBuild.Proofs.Path.Characters

namespace StylesheetBuild.Disk

variable {disk disk' : Disk} {here location : Location} {path : Path}

/-! ### Following a path -/

theorem enter_eq_ok_iff {name : List UInt8} {result : Location} :
    disk.enter location name = .ok result ↔ name.length ≤ nameLimit ∧
      (disk.find? (location ++ [name])).isSome ∧ location ++ [name] = result := by
  rw [enter]
  by_cases hlength : nameLimit < name.length
  · rw [if_pos hlength]
    simp [Nat.not_le.mpr hlength]
  · rw [if_neg hlength]
    cases hentry : disk.find? (location ++ [name]) <;> simp [Nat.not_lt.mp hlength]

theorem find?_of_enter_noEntry {name : List UInt8}
    (h : disk.enter location name = .error .noEntry) : disk.find? (location ++ [name]) = none := by
  rw [enter] at h
  split at h
  · exact absurd h (by simp)
  · split at h
    · exact absurd h (by simp)
    · assumption

theorem find?_of_step {segment : List UInt8} {result : Location}
    (h : disk.step location segment = .ok result) : disk.find? location = some .directory := by
  rw [step] at h
  split at h
  · exact absurd h (by simp)
  · exact absurd h (by simp)
  · assumption

/-! ### Disks that grow -/

/-- Every entry stays as it is. -/
def Extends (disk disk' : Disk) : Prop :=
  ∀ location entry, disk.find? location = some entry → disk'.find? location = some entry

/-- Every directory stays one, and so does every file. -/
structure Keeps (disk disk' : Disk) : Prop where
  directory : ∀ location, disk.find? location = some .directory →
    disk'.find? location = some .directory
  file : ∀ location content, disk.find? location = some (.file content) →
    ∃ content', disk'.find? location = some (.file content')

theorem Extends.refl (disk : Disk) : Extends disk disk :=
  fun _ _ h => h

theorem Extends.trans {disk'' : Disk} (h : Extends disk disk') (h' : Extends disk' disk'') :
    Extends disk disk'' :=
  fun location entry hentry => h' location entry (h location entry hentry)

theorem Extends.keeps (h : Extends disk disk') : Keeps disk disk' where
  directory location := h location .directory
  file location content hfile := ⟨content, h location (.file content) hfile⟩

theorem Keeps.refl (disk : Disk) : Keeps disk disk :=
  (Extends.refl disk).keeps

theorem Keeps.trans {disk'' : Disk} (h : Keeps disk disk') (h' : Keeps disk' disk'') :
    Keeps disk disk'' where
  directory location hentry := h'.directory location (h.directory location hentry)
  file location content hentry := by
    obtain ⟨content', hentry'⟩ := h.file location content hentry
    exact h'.file location content' hentry'

namespace Keeps

theorem isSome (h : Keeps disk disk') (hentry : (disk.find? location).isSome) :
    (disk'.find? location).isSome := by
  obtain ⟨entry, hentry⟩ := Option.isSome_iff_exists.mp hentry
  cases entry with
  | directory => exact Option.isSome_iff_exists.mpr ⟨_, h.directory location hentry⟩
  | file content =>
    obtain ⟨content', hentry'⟩ := h.file location content hentry
    exact Option.isSome_iff_exists.mpr ⟨_, hentry'⟩

theorem enter (h : Keeps disk disk') {name : List UInt8} {result : Location}
    (hresult : disk.enter location name = .ok result) :
    disk'.enter location name = .ok result := by
  obtain ⟨hlength, hentry, rfl⟩ := enter_eq_ok_iff.mp hresult
  exact enter_eq_ok_iff.mpr ⟨hlength, h.isSome hentry, rfl⟩

theorem step (h : Keeps disk disk') {segment : List UInt8} {result : Location}
    (hresult : disk.step location segment = .ok result) :
    disk'.step location segment = .ok result := by
  have hdirectory := find?_of_step hresult
  rw [Disk.step, hdirectory] at hresult
  rw [Disk.step, h.directory location hdirectory]
  cases hsegment : Path.Component.ofSegment? segment with
  | none =>
    simp only [hsegment] at hresult ⊢
    exact hresult
  | some component =>
    simp only [hsegment] at hresult ⊢
    cases component with
    | name name => exact h.enter hresult
    | root => exact hresult
    | current => exact hresult
    | parent => exact hresult

theorem walk (h : Keeps disk disk') {segments : List (List UInt8)} {result : Location}
    (hresult : disk.walk location segments = .ok result) :
    disk'.walk location segments = .ok result := by
  induction segments generalizing location with
  | nil => exact hresult
  | cons segment rest ih =>
    rw [Disk.walk, List.foldlM_cons] at hresult ⊢
    obtain ⟨next, hstep, hrest⟩ := exists_of_bind_eq_ok hresult
    rw [h.step hstep]
    exact ih hrest

/-- A path still leads where it led. -/
theorem locate (h : Keeps disk disk') (hresult : disk.locate here path = .ok location) :
    disk'.locate here path = .ok location := by
  rw [Disk.locate] at hresult ⊢
  obtain ⟨_, hcheck, hwalk⟩ := exists_of_bind_eq_ok hresult
  rw [hcheck]
  exact h.walk hwalk

end Keeps

/-! ### Making directories -/

/-- A new entry where there was none. -/
theorem extends_put {entry : Entry} (h : disk.find? location = none) :
    Extends disk (disk.put location entry) := by
  intro other entry' hentry
  have hne : other ≠ location := by
    rintro rfl
    rw [h] at hentry
    exact absurd hentry (by simp)
  rw [find?_put_of_ne disk entry hne]
  exact hentry

theorem extends_makeDirectory (h : disk.makeDirectory here path = .ok disk') :
    Extends disk disk' := by
  rw [makeDirectory] at h
  obtain ⟨⟨above, last⟩, -, h⟩ := exists_of_bind_eq_ok h
  simp only at h
  split at h
  · split at h
    · exact absurd h (by simp)
    · rename_i henter
      obtain rfl := Except.ok.inj h
      exact extends_put (find?_of_enter_noEntry henter)
    · exact absurd h (by simp)
  · exact absurd h (by simp)

theorem extends_makeEach (disk : Disk) (here : Location) (paths : List Path) :
    Extends disk (disk.makeEach here paths).1 := by
  induction paths generalizing disk with
  | nil => exact Extends.refl disk
  | cons path rest ih =>
    rw [makeEach]
    cases hmake : disk.makeDirectory here path with
    | ok made => exact (extends_makeDirectory hmake).trans (ih made)
    | error error =>
      by_cases hthere : (error = .alreadyExists && disk.holdsDirectory here path) = true
      · simp only [hthere, if_true]
        exact ih disk
      · simp only [hthere]
        exact Extends.refl disk

theorem extends_makeFrom (disk : Disk) (here : Location) (inner outer : List Path) :
    Extends disk (disk.makeFrom here inner outer).1 := by
  induction outer generalizing inner with
  | nil => exact extends_makeEach disk here inner
  | cons path outer ih =>
    rw [makeFrom]
    split
    · exact extends_makeEach disk here inner
    · split
      · rename_i made hmake
        exact (extends_makeDirectory hmake).trans (extends_makeEach made here inner)
      · exact ih (path :: inner)
      · split
        · exact extends_makeEach disk here inner
        · exact Extends.refl disk

/-- Making directories changes no entry. -/
theorem extends_makeDirectories (disk : Disk) (here : Location) (path : Path) :
    Extends disk (disk.makeDirectories here path).1 :=
  extends_makeFrom disk here [] path.ancestors

/-! ### Writing and saving -/

/-- The directory and the name that a path ends in. -/
theorem exists_of_place {last : List UInt8} (h : disk.place here path true = .ok (location, last))
    (hlast : last ≠ []) :
    checkPath path = .ok () ∧ ∃ before, path.segments = before ++ [last] ∧
      disk.walk (origin here path) before = .ok location ∧
      disk.find? location = some .directory := by
  rw [place] at h
  obtain ⟨_, hcheck, h⟩ := exists_of_bind_eq_ok h
  refine ⟨hcheck, ?_⟩
  have hreverse := path.segments.reverse_reverse
  cases hsegments : path.segments.reverse with
  | nil =>
    simp only [hsegments, if_true, Except.ok.injEq, Prod.mk.injEq] at h
    exact absurd h.2.symm hlast
  | cons name before =>
    rw [hsegments, List.reverse_cons] at hreverse
    simp only [hsegments, if_true] at h
    obtain ⟨above, hwalk, h⟩ := exists_of_bind_eq_ok h
    split at h
    · rename_i hdirectory
      obtain ⟨rfl, rfl⟩ := Prod.mk.inj (Except.ok.inj h)
      exact ⟨before.reverse, hreverse.symm, hwalk, hdirectory⟩
    · exact absurd h (by simp)
    · exact absurd h (by simp)

/-- A file in the place of no directory. -/
theorem keeps_put_file (content : List UInt8) (hne : location ≠ [])
    (h : disk.find? location ≠ some .directory) :
    Keeps disk (disk.put location (.file content)) where
  directory other hother := by
    have hother' : other ≠ location := by
      rintro rfl
      exact h hother
    rw [find?_put_of_ne disk _ hother']
    exact hother
  file other content' hother := by
    by_cases hsame : other = location
    · exact ⟨content, by rw [hsame, find?_put disk _ hne]⟩
    · exact ⟨content', by rw [find?_put_of_ne disk _ hsame, hother]⟩

/-- A file that is written is at the location that its path leads to. -/
theorem exists_of_write {content : List UInt8} (h : disk.write here path content = .ok disk') :
    ∃ location, disk' = disk.put location (.file content) ∧ location ≠ [] ∧
      disk.find? location ≠ some .directory ∧ disk'.locate here path = .ok location := by
  rw [write] at h
  obtain ⟨⟨above, last⟩, hplace, h⟩ := exists_of_bind_eq_ok h
  simp only at h
  split at h
  · rename_i name hname
    obtain rfl : name = last := Path.Component.bytes_of_ofSegment? hname
    have hnonempty : name ≠ [] := by
      rintro rfl
      exact absurd hname (by decide)
    obtain ⟨hcheck, before, hsegments, hwalk, hdirectory⟩ := exists_of_place hplace hnonempty
    split at h
    · exact absurd h (by simp)
    rename_i hlength
    split at h
    · exact absurd h (by simp)
    rename_i hfree
    obtain rfl := Except.ok.inj h
    have hne : above ++ [name] ≠ [] := by simp
    have hkeeps := keeps_put_file content hne hfree
    refine ⟨above ++ [name], rfl, hne, hfree, ?_⟩
    have henter : (disk.put (above ++ [name]) (.file content)).enter above name =
        .ok (above ++ [name]) := by
      refine enter_eq_ok_iff.mpr ⟨Nat.not_lt.mp hlength, ?_, rfl⟩
      rw [find?_put disk _ hne]
      rfl
    have hstep : (disk.put (above ++ [name]) (.file content)).step above name =
        .ok (above ++ [name]) := by
      simp only [step, hkeeps.directory above hdirectory, hname]
      exact henter
    rw [locate, hcheck, hsegments]
    show (disk.put (above ++ [name]) (.file content)).walk _ (before ++ [name]) = _
    rw [walk_append, hkeeps.walk hwalk]
    show (disk.put (above ++ [name]) (.file content)).walk above [name] = _
    simp [walk, hstep]
  · exact absurd h (by simp)

/-- Saving makes directories, and then it fails or writes. -/
theorem save_cases (disk : Disk) (here : Location) (path : Path) (content : List UInt8) :
    ∃ made, Extends disk made ∧
      ((∃ error, disk.save here path content = (made, .error error)) ∨
        ∃ written, made.write here path content = .ok written ∧
          disk.save here path content = (written, .ok ())) := by
  cases hparent : path.parent? with
  | none =>
    refine ⟨disk, Extends.refl disk, ?_⟩
    cases hwrite : disk.write here path content with
    | error error => exact .inl ⟨error, by simp only [save, hparent, hwrite]⟩
    | ok written => exact .inr ⟨written, rfl, by simp only [save, hparent, hwrite]⟩
  | some parent =>
    refine ⟨(disk.makeDirectories here parent).1, extends_makeDirectories disk here parent, ?_⟩
    cases hmade : (disk.makeDirectories here parent).2 with
    | error error => exact .inl ⟨error, by simp only [save, hparent, hmade]⟩
    | ok _ =>
      cases hwrite : (disk.makeDirectories here parent).1.write here path content with
      | error error => exact .inl ⟨error, by simp only [save, hparent, hmade, hwrite]⟩
      | ok written => exact .inr ⟨written, rfl, by simp only [save, hparent, hmade, hwrite]⟩

/-- A file that is saved is at the location that its path leads to, and no other entry changes. -/
theorem exists_of_save {content : List UInt8} (h : disk.save here path content = (disk', .ok ())) :
    ∃ location, disk'.locate here path = .ok location ∧
      disk'.find? location = some (.file content) ∧ Keeps disk disk' ∧
      ∀ other entry, other ≠ location → disk.find? other = some entry →
        disk'.find? other = some entry := by
  obtain ⟨made, hmade, ⟨error, hsave⟩ | ⟨written, hwrite, hsave⟩⟩ :=
    save_cases disk here path content
  · rw [h] at hsave
    exact absurd (Prod.mk.inj hsave).2 (by simp)
  · obtain ⟨rfl, -⟩ := Prod.mk.inj (h.symm.trans hsave)
    obtain ⟨location, rfl, hne, hfree, hlocate⟩ := exists_of_write hwrite
    refine ⟨location, hlocate, find?_put made _ hne,
      hmade.keeps.trans (keeps_put_file content hne hfree), fun other entry hother hentry => ?_⟩
    rw [find?_put_of_ne made _ hother]
    exact hmade other entry hentry

/-- A file that cannot be saved changes no entry. -/
theorem extends_of_save_error {content : List UInt8} {error : FileError}
    (h : disk.save here path content = (disk', .error error)) : Extends disk disk' := by
  obtain ⟨made, hmade, ⟨error', hsave⟩ | ⟨written, -, hsave⟩⟩ :=
    save_cases disk here path content
  · obtain ⟨rfl, -⟩ := Prod.mk.inj (h.symm.trans hsave)
    exact hmade
  · rw [h] at hsave
    exact absurd (Prod.mk.inj hsave).2 (by simp)

end StylesheetBuild.Disk
