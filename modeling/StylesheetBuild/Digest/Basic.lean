/-
Content digests of assets and where they go in a path.

* **`length_content`**: a content digest has ten characters.
-/
import StylesheetBuild.Digest.Sha1
import StylesheetBuild.Text.Basic

namespace StylesheetBuild.Digest

/-- The hexadecimal digit of a number below sixteen. -/
def hexDigit (n : Nat) : Char :=
  if n < 10 then Char.ofNat (0x30 + n) else Char.ofNat (0x57 + n)

/-- Bytes in hexadecimal, two lower-case digits each. -/
def hex (bytes : List UInt8) : Text :=
  bytes.flatMap fun b => [hexDigit (b.toNat / 16), hexDigit (b.toNat % 16)]

/-- The number of characters of a content digest. -/
def contentLength : Nat := 10

/-- The digest of an asset's content: the beginning of its SHA-1 in hexadecimal. -/
def content (bytes : List UInt8) : Text :=
  (hex (Sha1.digest bytes)).take contentLength

/-- `path` with a hyphen and `digest` in front of its extension, which is what follows its last
dot if that is a word; a path without an extension stays as it is. -/
def insert (path digest : Text) : Text :=
  let extension := path.reverse.takeWhile Text.isWordChar
  match path.reverse.dropWhile Text.isWordChar with
  | c :: before =>
    if c = '.' && extension != [] then
      before.reverse ++ ['-'] ++ digest ++ ['.'] ++ extension.reverse
    else path
  | [] => path

theorem length_hex (bytes : List UInt8) : (hex bytes).length = 2 * bytes.length := by
  induction bytes with
  | nil => rfl
  | cons b bytes ih =>
    have : (hex (b :: bytes)).length = 2 + (hex bytes).length := by simp [hex]; omega
    rw [this, ih, List.length_cons]
    omega

theorem length_content (bytes : List UInt8) : (content bytes).length = contentLength := by
  simp [content, length_hex, Sha1.length_digest, contentLength]

end StylesheetBuild.Digest
