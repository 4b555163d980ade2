/-
Values of a TOML document.
-/
import StylesheetBuild.Text.Basic

namespace StylesheetBuild.Toml

/-- A number with a decimal point or an exponent, or one of the special ones. -/
inductive Float where
  -- `digits · 10 ^ exponent`, up to the sign
  | decimal (digits : Nat) (exponent : Int)
  -- infinity or not a number
  | special
deriving Repr, DecidableEq

inductive Value where
  | string (text : Text)
  | boolean (b : Bool)
  -- a whole number; nothing if it has no digits or other characters among them
  | integer (n : Option Int)
  | float (x : Float)
  -- a date, a time, or both
  | moment
  | array (values : List Value)
  -- a table, with its keys in the order of the document
  | table (entries : List (Text × Value))
deriving Repr

namespace Float

/-- Numbers from here on are rounded to infinity in double precision. -/
def overflowLimit : Nat := Nat.pow 2 1024 - Nat.pow 2 970

/-- The number of decimal digits of `n`, zero for zero. -/
def decimalLength (n : Nat) : Nat :=
  if n = 0 then 0 else (Nat.toDigits 10 n).length

/-- Whether a number has no finite value in double precision although it is written as a
decimal. -/
def overflows : Float → Bool
  | special => false
  | decimal digits exponent =>
    let magnitude : Int := decimalLength digits + exponent
    if digits = 0 || magnitude < 309 then false
    else if 309 < magnitude then true
    else if 0 ≤ exponent then overflowLimit ≤ digits * Nat.pow 10 exponent.toNat
    else overflowLimit * Nat.pow 10 (-exponent).toNat ≤ digits

end Float

namespace Value

/-- Whether a whole number fits into 128 bits, with a sign or without. -/
def integerFits : Int → Bool
  | .ofNat n => n < Nat.pow 2 128
  | .negSucc n => n < Nat.pow 2 127

mutual

/-- Whether all numbers in a value can be represented. -/
def isRepresentable : Value → Bool
  | string _ | boolean _ | moment => true
  | integer n => n.any integerFits
  | float x => !x.overflows
  | array values => areRepresentable values
  | table entries => areEntriesRepresentable entries

/-- Whether all numbers in a list of values can be represented. -/
def areRepresentable : List Value → Bool
  | [] => true
  | value :: rest => value.isRepresentable && areRepresentable rest

/-- Whether all numbers in the entries of a table can be represented. -/
def areEntriesRepresentable : List (Text × Value) → Bool
  | [] => true
  | (_, value) :: rest => value.isRepresentable && areEntriesRepresentable rest

end

end Value

end StylesheetBuild.Toml
