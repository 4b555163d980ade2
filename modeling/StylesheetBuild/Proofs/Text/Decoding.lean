/-
ASCII characters of decoded bytes.

* **`mem_of_mem_units`** — a unit that is an ASCII character is a byte of its own, in well-formed
  bytes as in others;
* **`mem_of_mem_decodeLossy`** — so decoding brings no ASCII character into a text;
* **`exists_decode?_cons_iff`** — and well-formed bytes stand for a text that begins with an ASCII
  character exactly if they begin with its byte.

Design notes: a longer sequence never stands for an ASCII character, since the first bytes that
would make it too long are left out.  Sequences for what is no character are left out as well, but
nothing here depends on it: `Char.ofNat` would make them the character 0, which is excluded.
-/
import Mathlib.Tactic.SplitIfs
import StylesheetBuild.Text.Utf8

namespace StylesheetBuild.Utf8

theorem le_isSecondOfThree {a b : UInt8} (ha : 0xE0 ≤ a.toNat) (h : isSecondOfThree a b) :
    0x80 ≤ (a.toNat - 0xE0) * 0x1000 + payload b * 0x40 := by
  unfold isSecondOfThree at h
  unfold payload
  split_ifs at h
  · simp only [Bool.and_eq_true, decide_eq_true_eq] at h
    omega
  · omega
  · omega

theorem le_isSecondOfFour {a b : UInt8} (ha : 0xF0 ≤ a.toNat) (h : isSecondOfFour a b) :
    0x80 ≤ (a.toNat - 0xF0) * 0x40000 + payload b * 0x1000 := by
  unfold isSecondOfFour at h
  unfold payload
  split_ifs at h
  · simp only [Bool.and_eq_true, decide_eq_true_eq] at h
    omega
  · omega
  · omega

theorem toNat_ofNat_of_isValidChar {n : Nat} (h : n.isValidChar) : (Char.ofNat n).toNat = n := by
  rw [Char.ofNat, dif_pos h]
  rfl

/-- A code point beyond ASCII is no ASCII character, also if it is not a valid one. -/
theorem some_ne_of_lt {c : Char} {n : Nat} (hpos : 0 < c.toNat) (hn : c.toNat < n) :
    some c ≠ some (Char.ofNat n) := by
  intro h
  rw [Option.some_inj.mp h] at hpos hn
  by_cases hvalid : n.isValidChar
  · rw [toNat_ofNat_of_isValidChar hvalid] at hn
    exact absurd hn (Nat.lt_irrefl n)
  · rw [Char.ofNat, dif_neg hvalid] at hpos
    exact absurd hpos (Nat.lt_irrefl 0)

/-- A unit that is an ASCII character is a byte. -/
theorem mem_of_mem_units {c : Char} (hpos : 0 < c.toNat) (hc : c.toNat < 0x80)
    {bytes : List UInt8} (h : some c ∈ units bytes) : UInt8.ofNat c.toNat ∈ bytes := by
  have hskip : ∀ {unit : Option Char} {rest bytes' : List UInt8}, some c ≠ unit →
      (some c ∈ units rest → UInt8.ofNat c.toNat ∈ rest) → rest <:+ bytes' →
      some c ∈ unit :: units rest → UInt8.ofNat c.toNat ∈ bytes' := by
    intro unit rest bytes' hne ih hsuffix hmem
    exact hsuffix.subset (ih ((List.mem_cons.mp hmem).resolve_left hne))
  fun_induction units bytes with
  | case1 => exact absurd h List.not_mem_nil
  | case2 a rest lead hlead ih =>
    by_cases hbyte : some c = some (Char.ofNat lead)
    · have hvalid : lead.isValidChar := .inl (by omega)
      have hlead' : c.toNat = lead := by
        rw [Option.some_inj.mp hbyte, toNat_ofNat_of_isValidChar hvalid]
      rw [hlead', UInt8.ofNat_toNat]
      exact List.mem_cons_self
    · exact hskip hbyte ih (List.suffix_append [_] _) h
  | case4 a lead hlead htwo b rest hb ih =>
    simp only [Bool.and_eq_true, decide_eq_true_eq] at htwo
    exact hskip (some_ne_of_lt hpos (by omega)) ih (List.suffix_append [_, _] _) h
  | case8 a lead _ _ hthree b hb c rest hc ih =>
    simp only [Bool.and_eq_true, decide_eq_true_eq] at hthree
    have := le_isSecondOfThree hthree.1 hb
    exact hskip (some_ne_of_lt hpos (by omega)) ih (List.suffix_append [_, _, _] _) h
  | case14 a lead _ _ _ hfour b hb c hc d rest hd ih =>
    simp only [Bool.and_eq_true, decide_eq_true_eq] at hfour
    have := le_isSecondOfFour hfour.1 hb
    exact hskip (some_ne_of_lt hpos (by omega)) ih (List.suffix_append [_, _, _, _] _) h
  | case3 | case6 | case7 | case11 | case12 | case13 => simp at h
  | case5 | case9 | case10 | case15 | case16 | case17 | case18 =>
    exact hskip (by simp) (by assumption) (by simp [List.suffix_cons_iff]) h

/-- Decoding brings no ASCII character into a text. -/
theorem mem_of_mem_decodeLossy {c : Char} (hpos : 0 < c.toNat) (hc : c.toNat < 0x80)
    {bytes : List UInt8} (h : c ∈ decodeLossy bytes) : UInt8.ofNat c.toNat ∈ bytes := by
  obtain ⟨unit, hunit, hchar⟩ := List.mem_map.mp h
  cases unit with
  | none =>
    have : c = '\uFFFD' := hchar.symm
    rw [this] at hc
    exact absurd hc (by decide)
  | some d =>
    obtain rfl : d = c := hchar
    exact mem_of_mem_units hpos hc hunit

/-! ### The first character -/

/-- A first unit that is an ASCII character is the first byte. -/
theorem head?_of_head?_units {c : Char} (hpos : 0 < c.toNat) (hc : c.toNat < 0x80)
    {bytes : List UInt8} (h : (units bytes).head? = some (some c)) :
    bytes.head? = some (UInt8.ofNat c.toNat) := by
  fun_induction units bytes with
  | case2 a rest lead hlead ih =>
    have hvalid : lead.isValidChar := .inl (by omega)
    have hchar : Char.ofNat lead = c := Option.some_inj.mp (Option.some_inj.mp h)
    have hlead : c.toNat = a.toNat := by rw [← hchar, toNat_ofNat_of_isValidChar hvalid]
    rw [hlead, UInt8.ofNat_toNat]
    rfl
  | case4 a lead hlead htwo b rest hb ih =>
    simp only [Bool.and_eq_true, decide_eq_true_eq] at htwo
    exact absurd (Option.some_inj.mp h).symm (some_ne_of_lt hpos (by omega))
  | case8 a lead _ _ hthree b hb d rest hd ih =>
    simp only [Bool.and_eq_true, decide_eq_true_eq] at hthree
    have := le_isSecondOfThree hthree.1 hb
    exact absurd (Option.some_inj.mp h).symm (some_ne_of_lt hpos (by omega))
  | case14 a lead _ _ _ hfour b hb d hd e rest he ih =>
    simp only [Bool.and_eq_true, decide_eq_true_eq] at hfour
    have := le_isSecondOfFour hfour.1 hb
    exact absurd (Option.some_inj.mp h).symm (some_ne_of_lt hpos (by omega))
  | case1 | case3 | case5 | case6 | case7 | case9 | case10 | case11 | case12 | case13 | case15
  | case16 | case17 | case18 => simp at h

theorem decode?_cons_of_ascii {a : UInt8} (ha : a.toNat < 0x80) (rest : List UInt8) :
    decode? (a :: rest) = (decode? rest).map (Char.ofNat a.toNat :: ·) := by
  have hunits : units (a :: rest) = some (Char.ofNat a.toNat) :: units rest := by
    rw [units.eq_def]
    exact if_pos ha
  rw [decode?, decode?, hunits, List.mapM_cons]
  cases (units rest).mapM id <;> rfl

/-- Well-formed bytes stand for a text that begins with an ASCII character exactly if they begin
with its byte. -/
theorem exists_decode?_cons_iff {c : Char} (hpos : 0 < c.toNat) (hc : c.toNat < 0x80)
    {bytes : List UInt8} : (∃ text, decode? bytes = some (c :: text)) ↔
      bytes.head? = some (UInt8.ofNat c.toNat) ∧ ∃ text, decode? bytes = some text := by
  constructor
  · rintro ⟨text, h⟩
    refine ⟨head?_of_head?_units hpos hc ?_, c :: text, h⟩
    rw [decode?] at h
    cases hunits : units bytes with
    | nil =>
      rw [hunits] at h
      exact absurd h (by simp)
    | cons unit rest =>
      rw [hunits, List.mapM_cons] at h
      cases unit with
      | none => exact absurd h (by simp)
      | some d =>
        cases hrest : rest.mapM id with
        | none => exact absurd (hrest ▸ h) (by simp)
        | some others =>
          have h : some (d :: others) = some (c :: text) := by simpa [hrest] using h
          rw [(List.cons.inj (Option.some_inj.mp h)).1]
          rfl
  · rintro ⟨hhead, text, h⟩
    obtain ⟨rest, rfl⟩ := List.head?_eq_some_iff.mp hhead
    have hbyte : (UInt8.ofNat c.toNat).toNat = c.toNat := toNat_ofNat (by omega)
    rw [decode?_cons_of_ascii (by omega), hbyte, Char.ofNat_toNat] at h ⊢
    obtain ⟨others, hothers, -⟩ := Option.map_eq_some_iff.mp h
    exact ⟨others, by rw [hothers]; rfl⟩

end StylesheetBuild.Utf8
