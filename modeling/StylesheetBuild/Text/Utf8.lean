/-
UTF-8.

Bytes are read as a list of units: a well-formed sequence is the character it encodes, and a
longest beginning of an ill-formed sequence is one ill-formed unit.

* **`units_encode`**: what was encoded is read back.
* **`decode?_encode`**, **`decodeLossy_encode`**: so both ways to decode give the text back.
-/
import StylesheetBuild.Text.Basic

namespace StylesheetBuild.Utf8

/-- The numbers of the bytes that encode the code point `n`. -/
def codes (n : Nat) : List Nat :=
  if n < 0x80 then [n]
  else if n < 0x800 then [0xC0 + n / 0x40, 0x80 + n % 0x40]
  else if n < 0x10000 then [0xE0 + n / 0x1000, 0x80 + n / 0x40 % 0x40, 0x80 + n % 0x40]
  else
    [0xF0 + n / 0x40000, 0x80 + n / 0x1000 % 0x40, 0x80 + n / 0x40 % 0x40, 0x80 + n % 0x40]

def encodeChar (c : Char) : List UInt8 :=
  (codes c.toNat).map UInt8.ofNat

def encode (text : Text) : List UInt8 :=
  text.flatMap encodeChar

def isContinuation (b : UInt8) : Bool :=
  0x80 ≤ b.toNat && b.toNat ≤ 0xBF

/-- Whether `second` may follow `first` in a sequence of three bytes. -/
def isSecondOfThree (first second : UInt8) : Bool :=
  if first.toNat = 0xE0 then 0xA0 ≤ second.toNat && second.toNat ≤ 0xBF
  else if first.toNat = 0xED then 0x80 ≤ second.toNat && second.toNat ≤ 0x9F
  else isContinuation second

/-- Whether `second` may follow `first` in a sequence of four bytes. -/
def isSecondOfFour (first second : UInt8) : Bool :=
  if first.toNat = 0xF0 then 0x90 ≤ second.toNat && second.toNat ≤ 0xBF
  else if first.toNat = 0xF4 then 0x80 ≤ second.toNat && second.toNat ≤ 0x8F
  else isContinuation second

/-- The six bits that a continuing byte carries. -/
def payload (b : UInt8) : Nat :=
  b.toNat - 0x80

/-- The units of a list of bytes: characters, and `none` for each ill-formed one. -/
def units : List UInt8 → List (Option Char)
  | [] => []
  | a :: rest =>
    let lead := a.toNat
    if lead < 0x80 then some (Char.ofNat lead) :: units rest
    else if 0xC2 ≤ lead && lead ≤ 0xDF then
      match rest with
      | [] => [none]
      | b :: rest' =>
        if isContinuation b then
          some (Char.ofNat ((lead - 0xC0) * 0x40 + payload b)) :: units rest'
        else none :: units (b :: rest')
    else if 0xE0 ≤ lead && lead ≤ 0xEF then
      match rest with
      | [] => [none]
      | b :: rest' =>
        if isSecondOfThree a b then
          match rest' with
          | [] => [none]
          | c :: rest'' =>
            if isContinuation c then
              some (Char.ofNat ((lead - 0xE0) * 0x1000 + payload b * 0x40 + payload c)) ::
                units rest''
            else none :: units (c :: rest'')
        else none :: units (b :: rest')
    else if 0xF0 ≤ lead && lead ≤ 0xF4 then
      match rest with
      | [] => [none]
      | b :: rest' =>
        if isSecondOfFour a b then
          match rest' with
          | [] => [none]
          | c :: rest'' =>
            if isContinuation c then
              match rest'' with
              | [] => [none]
              | d :: rest''' =>
                if isContinuation d then
                  some (Char.ofNat ((lead - 0xF0) * 0x40000 + payload b * 0x1000
                    + payload c * 0x40 + payload d)) :: units rest'''
                else none :: units (d :: rest''')
            else none :: units (c :: rest'')
        else none :: units (b :: rest')
    else none :: units rest
termination_by structural bytes => bytes

/-- The text that `bytes` encode, if they are well formed throughout. -/
def decode? (bytes : List UInt8) : Option Text :=
  (units bytes).mapM id

/-- The text that `bytes` encode, with U+FFFD for each ill-formed unit. -/
def decodeLossy (bytes : List UInt8) : Text :=
  (units bytes).map (·.getD '\uFFFD')

/-! ### Reading back what was encoded -/

theorem toNat_ofNat {n : Nat} (h : n < 256) : (UInt8.ofNat n).toNat = n := by
  simp [Nat.mod_eq_of_lt h]

theorem ofNat_eq {c : Char} {n : Nat} (h : n = c.toNat) : Char.ofNat n = c := by
  rw [h, Char.ofNat_toNat]

/-- The code points of characters leave out the surrogates. -/
theorem toNat_bounds (c : Char) : c.toNat < 0xD800 ∨ 0xDFFF < c.toNat ∧ c.toNat < 0x110000 :=
  c.valid

theorem units_two {a b : UInt8} {rest : List UInt8} (ha : 0xC2 ≤ a.toNat ∧ a.toNat ≤ 0xDF)
    (hb : isContinuation b) :
    units (a :: b :: rest) =
      some (Char.ofNat ((a.toNat - 0xC0) * 0x40 + payload b)) :: units rest := by
  rw [units.eq_def]
  simp only [hb, Bool.and_eq_true, decide_eq_true_eq]
  rw [if_neg (by omega), if_pos ha, if_pos trivial]

theorem units_three {a b c : UInt8} {rest : List UInt8}
    (ha : 0xE0 ≤ a.toNat ∧ a.toNat ≤ 0xEF) (hb : isSecondOfThree a b) (hc : isContinuation c) :
    units (a :: b :: c :: rest) =
      some (Char.ofNat ((a.toNat - 0xE0) * 0x1000 + payload b * 0x40 + payload c)) ::
        units rest := by
  rw [units.eq_def]
  simp only [hb, hc, Bool.and_eq_true, decide_eq_true_eq]
  rw [if_neg (by omega), if_neg (by omega), if_pos ha, if_pos trivial, if_pos trivial]

theorem units_four {a b c d : UInt8} {rest : List UInt8}
    (ha : 0xF0 ≤ a.toNat ∧ a.toNat ≤ 0xF4) (hb : isSecondOfFour a b) (hc : isContinuation c)
    (hd : isContinuation d) :
    units (a :: b :: c :: d :: rest) =
      some (Char.ofNat ((a.toNat - 0xF0) * 0x40000 + payload b * 0x1000 + payload c * 0x40
        + payload d)) :: units rest := by
  rw [units.eq_def]
  simp only [hb, hc, hd, Bool.and_eq_true, decide_eq_true_eq]
  rw [if_neg (by omega), if_neg (by omega), if_neg (by omega), if_pos ha, if_pos trivial,
    if_pos trivial, if_pos trivial]

/-- A continuing byte made of six bits. -/
theorem isContinuation_ofNat {n : Nat} (h : n < 0x40) :
    isContinuation (UInt8.ofNat (0x80 + n)) ∧ payload (UInt8.ofNat (0x80 + n)) = n := by
  unfold isContinuation payload
  rw [toNat_ofNat (by omega), Bool.and_eq_true, decide_eq_true_eq, decide_eq_true_eq]
  omega

/-- A character is read back from its bytes, whatever follows them. -/
theorem units_encodeChar_append (c : Char) (rest : List UInt8) :
    units (encodeChar c ++ rest) = some c :: units rest := by
  have hc := toNat_bounds c
  have hback : ∀ m, m = c.toNat → Char.ofNat m = c := fun m hm => ofNat_eq hm
  unfold encodeChar codes
  generalize c.toNat = n at hc hback
  have hlow : isContinuation (UInt8.ofNat (0x80 + n % 0x40)) ∧ _ :=
    isContinuation_ofNat (by omega)
  have hmid : isContinuation (UInt8.ofNat (0x80 + n / 0x40 % 0x40)) ∧ _ :=
    isContinuation_ofNat (by omega)
  have hhigh : isContinuation (UInt8.ofNat (0x80 + n / 0x1000 % 0x40)) ∧ _ :=
    isContinuation_ofNat (by omega)
  split
  · rename_i h
    have ha := toNat_ofNat (show n < 256 by omega)
    simp only [List.map_cons, List.map_nil, List.cons_append, List.nil_append]
    rw [units.eq_def]
    simp only [ha, h, if_true, hback]
  split
  · rename_i h₁ h₂
    have ha := toNat_ofNat (show 0xC0 + n / 0x40 < 256 by omega)
    simp only [List.map_cons, List.map_nil, List.cons_append, List.nil_append]
    rw [units_two (by omega) hlow.1, ha, hlow.2, hback _ (by omega)]
  split
  · rename_i h₁ h₂ h₃
    have ha := toNat_ofNat (show 0xE0 + n / 0x1000 < 256 by omega)
    have hb := toNat_ofNat (show 0x80 + n / 0x40 % 0x40 < 256 by omega)
    have hs : isSecondOfThree (UInt8.ofNat (0xE0 + n / 0x1000))
        (UInt8.ofNat (0x80 + n / 0x40 % 0x40)) := by
      simp only [isSecondOfThree, isContinuation, ha, hb]
      split
      · simp only [Bool.and_eq_true, decide_eq_true_eq]; omega
      · split <;> simp only [Bool.and_eq_true, decide_eq_true_eq] <;> omega
    simp only [List.map_cons, List.map_nil, List.cons_append, List.nil_append]
    rw [units_three (by omega) hs hlow.1, ha, hmid.2, hlow.2, hback _ (by omega)]
  · rename_i h₁ h₂ h₃
    have ha := toNat_ofNat (show 0xF0 + n / 0x40000 < 256 by omega)
    have hb := toNat_ofNat (show 0x80 + n / 0x1000 % 0x40 < 256 by omega)
    have hs : isSecondOfFour (UInt8.ofNat (0xF0 + n / 0x40000))
        (UInt8.ofNat (0x80 + n / 0x1000 % 0x40)) := by
      simp only [isSecondOfFour, isContinuation, ha, hb]
      split
      · simp only [Bool.and_eq_true, decide_eq_true_eq]; omega
      · split <;> simp only [Bool.and_eq_true, decide_eq_true_eq] <;> omega
    simp only [List.map_cons, List.map_nil, List.cons_append, List.nil_append]
    rw [units_four (by omega) hs hmid.1 hlow.1, ha, hhigh.2, hmid.2, hlow.2,
      hback _ (by omega)]

/-- What was encoded is read back. -/
theorem units_encode (text : Text) : units (encode text) = text.map some := by
  induction text with
  | nil => rfl
  | cons c rest ih =>
    rw [encode, List.flatMap_cons, units_encodeChar_append, List.map_cons]
    exact congrArg _ ih

@[simp] theorem decode?_encode (text : Text) : decode? (encode text) = some text := by
  rw [decode?, units_encode]
  induction text with
  | nil => rfl
  | cons c rest ih => simp_all

@[simp] theorem decodeLossy_encode (text : Text) : decodeLossy (encode text) = text := by
  simp [decodeLossy, units_encode, Function.comp_def]

end StylesheetBuild.Utf8
