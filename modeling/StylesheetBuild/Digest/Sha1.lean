/-
The hash function SHA-1.

* **`length_digest`**: a digest has twenty bytes.
-/
namespace StylesheetBuild.Sha1

/-- The five words that the hash works on. -/
structure State where
  a : UInt32
  b : UInt32
  c : UInt32
  d : UInt32
  e : UInt32
deriving Repr, DecidableEq

def State.start : State :=
  ⟨0x67452301, 0xEFCDAB89, 0x98BADCFE, 0x10325476, 0xC3D2E1F0⟩

/-- The sum of two states, word by word. -/
def State.add (s t : State) : State :=
  ⟨s.a + t.a, s.b + t.b, s.c + t.c, s.d + t.d, s.e + t.e⟩

/-- `x` rotated to the left by `n` bits, with `n` between 1 and 31. -/
def rotate (n : UInt32) (x : UInt32) : UInt32 :=
  (x <<< n) ||| (x >>> (32 - n))

/-- The four bytes of a word, the highest first. -/
def bytesOfWord (w : UInt32) : List UInt8 :=
  [(w >>> 24).toUInt8, (w >>> 16).toUInt8, (w >>> 8).toUInt8, w.toUInt8]

/-- The words made of each four bytes, the highest first. -/
def words : List UInt8 → List UInt32
  | a :: b :: c :: d :: rest =>
    ((a.toUInt32 <<< 24) ||| (b.toUInt32 <<< 16) ||| (c.toUInt32 <<< 8) ||| d.toUInt32) ::
      words rest
  | _ => []

/-- The message with a one bit, zeros and its length in bits, a multiple of 64 bytes long. -/
def padded (message : List UInt8) : List UInt8 :=
  let bits := (8 * message.length).toUInt64
  message ++ [(0x80 : UInt8)] ++ List.replicate ((119 - message.length % 64) % 64) (0 : UInt8)
    ++ bytesOfWord (bits >>> 32).toUInt32 ++ bytesOfWord bits.toUInt32

/-- The first `count` blocks of sixteen words. -/
def blocks : Nat → List UInt32 → List (List UInt32)
  | 0, _ => []
  | count + 1, ws => ws.take 16 :: blocks count (ws.drop 16)

/-- `count` more words of a schedule, whose words so far are given from the last to the first. -/
def extend : Nat → List UInt32 → List UInt32
  | 0, ws => ws
  | count + 1, ws =>
    extend count (rotate 1 (ws.getD 2 0 ^^^ ws.getD 7 0 ^^^ ws.getD 13 0 ^^^ ws.getD 15 0) :: ws)

/-- The eighty words that a block contributes. -/
def schedule (block : List UInt32) : List UInt32 :=
  (extend 64 block.reverse).reverse

/-- The mixing function and the constant of a round. -/
def mix (round : Nat) (b c d : UInt32) : UInt32 × UInt32 :=
  if round < 20 then ((b &&& c) ||| (~~~b &&& d), 0x5A827999)
  else if round < 40 then (b ^^^ c ^^^ d, 0x6ED9EBA1)
  else if round < 60 then ((b &&& c) ||| (b &&& d) ||| (c &&& d), 0x8F1BBCDC)
  else (b ^^^ c ^^^ d, 0xCA62C1D6)

def step (s : State) (round : Nat) (word : UInt32) : State :=
  let (f, k) := mix round s.b s.c s.d
  ⟨rotate 5 s.a + f + s.e + k + word, s.a, rotate 30 s.b, s.c, s.d⟩

/-- The rounds from `round` on, one for each word. -/
def rounds (s : State) : Nat → List UInt32 → State
  | _, [] => s
  | round, word :: rest => rounds (step s round word) (round + 1) rest

def absorb (s : State) (block : List UInt32) : State :=
  s.add (rounds s 0 (schedule block))

def digest (message : List UInt8) : List UInt8 :=
  let ws := words (padded message)
  let s := (blocks (ws.length / 16) ws).foldl absorb State.start
  [s.a, s.b, s.c, s.d, s.e].flatMap bytesOfWord

theorem length_digest (message : List UInt8) : (digest message).length = 20 := by
  simp [digest, bytesOfWord]

end StylesheetBuild.Sha1
