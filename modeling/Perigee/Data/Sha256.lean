import Mathlib

/-!
# SHA-256

The hash function of FIPS 180-4 over lists of bytes, as a function that can be evaluated.
-/

namespace Sha256

/-- A hash value of 32 bytes. -/
abbrev Digest := {bytes : List UInt8 // bytes.length = 32}

theorem length_zeros : (List.replicate 32 (0 : UInt8)).length = 32 := rfl

theorem length_ones : (List.replicate 32 (1 : UInt8)).length = 32 := rfl

abbrev Word := BitVec 32

/-! ## Functions on words -/

def ch (x y z : Word) : Word := (x &&& y) ^^^ (~~~x &&& z)

def maj (x y z : Word) : Word := (x &&& y) ^^^ (x &&& z) ^^^ (y &&& z)

def bigSigma0 (x : Word) : Word := x.rotateRight 2 ^^^ x.rotateRight 13 ^^^ x.rotateRight 22

def bigSigma1 (x : Word) : Word := x.rotateRight 6 ^^^ x.rotateRight 11 ^^^ x.rotateRight 25

def smallSigma0 (x : Word) : Word := x.rotateRight 7 ^^^ x.rotateRight 18 ^^^ (x >>> 3)

def smallSigma1 (x : Word) : Word := x.rotateRight 17 ^^^ x.rotateRight 19 ^^^ (x >>> 10)

/-! ## Blocks -/

/-- The message, a one bit, zeros and the length in bits, in whole blocks. -/
def pad (message : List UInt8) : List UInt8 :=
  let zeros : List UInt8 := List.replicate ((119 - message.length % 64) % 64) 0
  let length := (List.range 8).reverse.map fun i => UInt8.ofNat ((8 * message.length) >>> (8 * i))
  message ++ [0x80] ++ zeros ++ length

def words : List UInt8 → List Word
  | a :: b :: c :: d :: rest =>
    BitVec.ofNat 32 (((a.toNat * 256 + b.toNat) * 256 + c.toNat) * 256 + d.toNat) :: words rest
  | _ => []

/-- The next `n` words of a schedule, of which the last words are given, latest first. -/
def extend : ℕ → List Word → List Word
  | 0, schedule => schedule
  | n + 1, schedule =>
    extend n ((smallSigma1 (schedule.getD 1 0) + schedule.getD 6 0 +
      smallSigma0 (schedule.getD 14 0) + schedule.getD 15 0) :: schedule)

/-- The sixty-four words that a block is expanded to. -/
def schedule (block : List Word) : List Word := (extend 48 block.reverse).reverse

/-! ## Rounds -/

structure State where
  a : Word
  b : Word
  c : Word
  d : Word
  e : Word
  f : Word
  g : Word
  h : Word

def initial : State :=
  ⟨0x6a09e667, 0xbb67ae85, 0x3c6ef372, 0xa54ff53a, 0x510e527f, 0x9b05688c, 0x1f83d9ab, 0x5be0cd19⟩

def constants : List Word :=
  [0x428a2f98, 0x71374491, 0xb5c0fbcf, 0xe9b5dba5, 0x3956c25b, 0x59f111f1, 0x923f82a4, 0xab1c5ed5,
    0xd807aa98, 0x12835b01, 0x243185be, 0x550c7dc3, 0x72be5d74, 0x80deb1fe, 0x9bdc06a7, 0xc19bf174,
    0xe49b69c1, 0xefbe4786, 0x0fc19dc6, 0x240ca1cc, 0x2de92c6f, 0x4a7484aa, 0x5cb0a9dc, 0x76f988da,
    0x983e5152, 0xa831c66d, 0xb00327c8, 0xbf597fc7, 0xc6e00bf3, 0xd5a79147, 0x06ca6351, 0x14292967,
    0x27b70a85, 0x2e1b2138, 0x4d2c6dfc, 0x53380d13, 0x650a7354, 0x766a0abb, 0x81c2c92e, 0x92722c85,
    0xa2bfe8a1, 0xa81a664b, 0xc24b8b70, 0xc76c51a3, 0xd192e819, 0xd6990624, 0xf40e3585, 0x106aa070,
    0x19a4c116, 0x1e376c08, 0x2748774c, 0x34b0bcb5, 0x391c0cb3, 0x4ed8aa4a, 0x5b9cca4f, 0x682e6ff3,
    0x748f82ee, 0x78a5636f, 0x84c87814, 0x8cc70208, 0x90befffa, 0xa4506ceb, 0xbef9a3f7, 0xc67178f2]

def round (s : State) (input : Word × Word) : State :=
  let t₁ := s.h + bigSigma1 s.e + ch s.e s.f s.g + input.1 + input.2
  let t₂ := bigSigma0 s.a + maj s.a s.b s.c
  ⟨t₁ + t₂, s.a, s.b, s.c, s.d + t₁, s.e, s.f, s.g⟩

def compress (s : State) (block : List Word) : State :=
  let t := (constants.zip (schedule block)).foldl round s
  ⟨s.a + t.a, s.b + t.b, s.c + t.c, s.d + t.d, s.e + t.e, s.f + t.f, s.g + t.g, s.h + t.h⟩

def compressAll : ℕ → State → List Word → State
  | 0, s, _ => s
  | n + 1, s, message => compressAll n (compress s (message.take 16)) (message.drop 16)

def wordBytes (w : Word) : List UInt8 :=
  [UInt8.ofNat (w.toNat >>> 24), UInt8.ofNat (w.toNat >>> 16), UInt8.ofNat (w.toNat >>> 8),
    UInt8.ofNat w.toNat]

def digest (message : List UInt8) : Digest :=
  let padded := pad message
  let s := compressAll (padded.length / 64) initial (words padded)
  ⟨[s.a, s.b, s.c, s.d, s.e, s.f, s.g, s.h].flatMap wordBytes, by simp [wordBytes]⟩

end Sha256
