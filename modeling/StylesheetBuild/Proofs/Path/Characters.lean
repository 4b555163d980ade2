/-
The characters of relative paths.

* **`Path.mem_bytes_of_mem_components`** — components have their bytes from the path;
* **`RelativePath.mem_join`** — joining brings in nothing but slashes;
* **`RelativePath.mem_directory`** — a directory as seen from another one brings in nothing but
  slashes and dots;
* **`RelativePath.byte_mem_of_mem_directory`** — so any other ASCII character in it is a byte of the
  directory.
-/
import StylesheetBuild.Proofs.Path.Resolution
import StylesheetBuild.Proofs.Text.Decoding

namespace StylesheetBuild

/-! ### Bytes of components -/

namespace Path

theorem Component.bytes_of_ofSegment? {segment : List UInt8} {component : Component}
    (h : ofSegment? segment = some component) : component.bytes = segment := by
  rw [ofSegment?] at h
  split_ifs at h with hfiller hup
  · rw [← Option.some_inj.mp h, hup]
    rfl
  · rw [← Option.some_inj.mp h]
    rfl

/-- A path is what is cut off in front and its body. -/
theorem cut_append (p : Path) : p.cut.1.elim [] Component.bytes ++ p.cut.2 = p.bytes := by
  rw [cut]
  split
  · rename_i hbytes
    rw [hbytes]
    rfl
  · rename_i a rest hbytes
    rw [hbytes]
    split_ifs with hslash hdot
    · rw [hslash]
      rfl
    · rw [Bool.and_eq_true, decide_eq_true_eq] at hdot
      rw [hdot.1]
      rfl
    · rfl

/-- The bytes of a component are bytes of the path. -/
theorem mem_bytes_of_mem_components {p : Path} {component : Component}
    (hcomponent : component ∈ p.components) {b : UInt8} (h : b ∈ component.bytes) :
    b ∈ p.bytes := by
  rw [← p.cut_append]
  rcases List.mem_append.mp hcomponent with hfront | hbody
  · rw [Option.mem_toList] at hfront
    rw [hfront]
    exact List.mem_append_left _ h
  · obtain ⟨segment, hsegment, hsome⟩ := List.mem_filterMap.mp hbody
    rw [Component.bytes_of_ofSegment? hsome] at h
    exact List.mem_append_right _ (Pieces.mem_of_mem_split hsegment h)

end Path

/-! ### Characters of joined texts -/

namespace RelativePath

/-- Joining brings in nothing but slashes. -/
theorem mem_join {dir reference : Text} {c : Char} (h : c ∈ join dir reference) :
    c ∈ dir ∨ c ∈ reference ∨ c = '/' := by
  have hjoined : c = '/' ∨ c ∈ Pieces.join '/' (resolve (Pieces.split '/' dir ++
      Pieces.split '/' (withSlashes reference))) := by
    rw [join] at h
    split_ifs at h
    · exact (List.mem_append.mp h).symm.imp_left List.mem_singleton.mp
    · exact .inr h
  rcases hjoined with hslash | hjoined
  · exact .inr (.inr hslash)
  rcases Pieces.mem_join hjoined with hslash | ⟨segment, hsegment, hc⟩
  · exact .inr (.inr hslash)
  rcases List.mem_append.mp (mem_resolve hsegment) with hdir | hreference
  · exact .inl (Pieces.mem_of_mem_split hdir hc)
  · obtain ⟨d, hd, hdc⟩ := List.mem_map.mp (Pieces.mem_of_mem_split hreference hc)
    split_ifs at hdc
    · exact .inr (.inr hdc.symm)
    · exact .inr (.inl (hdc ▸ hd))

/-- A directory as seen from another one brings in nothing but slashes and dots. -/
theorem mem_directory {base file : Path} {c : Char} (h : c ∈ directory base file) :
    c = '/' ∨ c = '.' ∨ ∃ component ∈ (file.parent?.getD Path.empty).components,
      c ∈ Utf8.decodeLossy component.bytes := by
  rcases Pieces.mem_join h with hslash | ⟨segment, hsegment, hc⟩
  · exact .inl hslash
  rcases List.mem_append.mp hsegment with hup | hdown
  · rw [List.eq_of_mem_replicate hup] at hc
    exact .inr (.inl (by simpa [up] using hc))
  · obtain ⟨component, hcomponent, rfl⟩ := List.mem_map.mp hdown
    exact .inr (.inr ⟨component, List.mem_of_mem_filter (List.mem_of_mem_drop hcomponent), hc⟩)

/-- An ASCII character of a directory, other than slashes and dots, is a byte of it. -/
theorem byte_mem_of_mem_directory {base file : Path} {c : Char} (hpos : 0 < c.toNat)
    (hc : c.toNat < 0x80) (hslash : c ≠ '/') (hdot : c ≠ '.') (h : c ∈ directory base file) :
    UInt8.ofNat c.toNat ∈ (file.parent?.getD Path.empty).bytes := by
  rcases mem_directory h with rfl | rfl | ⟨component, hcomponent, hmem⟩
  · exact absurd rfl hslash
  · exact absurd rfl hdot
  · exact Path.mem_bytes_of_mem_components hcomponent (Utf8.mem_of_mem_decodeLossy hpos hc hmem)

end RelativePath

end StylesheetBuild
