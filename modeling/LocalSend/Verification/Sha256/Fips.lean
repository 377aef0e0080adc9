import LocalSend.Library.Blocks
import Mathlib.Data.BitVec
import Mathlib.Data.Nat.NthRoot.Defs
import Mathlib.Data.Nat.Sqrt

/-! # SHA-256 as FIPS 180-4 defines it

The standard's own formulation: words as bit vectors, the message schedule as a
recurrence, constants as digits of roots of primes, and padding of the whole message.
It shares no definition with the code.
-/

namespace LocalSend.Fips

open Blocks

abbrev Word := BitVec 32

/-! ## Functions and constants -/

def ch (x y z : Word) : Word := (x &&& y) ^^^ (~~~x &&& z)

def maj (x y z : Word) : Word := (x &&& y) ^^^ (x &&& z) ^^^ (y &&& z)

def bigSigma0 (x : Word) : Word := x.rotateRight 2 ^^^ x.rotateRight 13 ^^^ x.rotateRight 22

def bigSigma1 (x : Word) : Word := x.rotateRight 6 ^^^ x.rotateRight 11 ^^^ x.rotateRight 25

def smallSigma0 (x : Word) : Word := x.rotateRight 7 ^^^ x.rotateRight 18 ^^^ x >>> 3

def smallSigma1 (x : Word) : Word := x.rotateRight 17 ^^^ x.rotateRight 19 ^^^ x >>> 10

/-- The first sixty-four prime numbers. -/
def primes : List ℕ := [
  2, 3, 5, 7, 11, 13, 17, 19, 23, 29, 31, 37, 41, 43, 47, 53,
  59, 61, 67, 71, 73, 79, 83, 89, 97, 101, 103, 107, 109, 113, 127, 131,
  137, 139, 149, 151, 157, 163, 167, 173, 179, 181, 191, 193, 197, 199, 211, 223,
  227, 229, 233, 239, 241, 251, 257, 263, 269, 271, 277, 281, 283, 293, 307, 311]

/-- The first thirty-two bits of the fractional part of a cube root. -/
def cubeRootBits (p : ℕ) : Word := BitVec.ofNat 32 (Nat.nthRoot 3 (p * 2 ^ 96))

/-- The first thirty-two bits of the fractional part of a square root. -/
def squareRootBits (p : ℕ) : Word := BitVec.ofNat 32 (Nat.sqrt (p * 2 ^ 64))

def k (t : ℕ) : Word := cubeRootBits (primes.getD t 0)

def initialHash : Vector Word 8 := Vector.ofFn fun i => squareRootBits (primes.getD i 0)

/-! ## Padding -/

/-- The number of zero bytes behind the marker: the least that leaves eight bytes
to the end of a block. -/
def zeroBytes (length : ℕ) : ℕ := (119 - length % 64) % 64

/-- A bit length as a 64-bit block, most significant byte first. -/
def lengthBlock (bits : ℕ) : List UInt8 :=
  (List.range 8).map fun i => UInt8.ofBitVec ((BitVec.ofNat 64 bits).extractLsb' (8 * (7 - i)) 8)

/-- The padded message. The standard takes messages shorter than `2 ^ 64` bits, whose
length the last block holds. -/
def pad (message : List UInt8) : List UInt8 :=
  message ++ [0x80] ++ .replicate (zeroBytes message.length) 0 ++ lengthBlock (8 * message.length)

/-! ## Hash computation -/

/-- The `t`-th word of a 512-bit block. -/
def messageWord (block : List UInt8) (t : ℕ) : Word :=
  (block.getD (4 * t) 0).toBitVec ++ (block.getD (4 * t + 1) 0).toBitVec ++
    (block.getD (4 * t + 2) 0).toBitVec ++ (block.getD (4 * t + 3) 0).toBitVec

/-- The message schedule. -/
def schedule (block : List UInt8) (t : ℕ) : Word :=
  if t < 16 then
    messageWord block t
  else
    smallSigma1 (schedule block (t - 2)) + schedule block (t - 7) +
      smallSigma0 (schedule block (t - 15)) + schedule block (t - 16)
termination_by t

/-- The eight working variables. -/
structure Variables where
  a : Word
  b : Word
  c : Word
  d : Word
  e : Word
  f : Word
  g : Word
  h : Word

def round (block : List UInt8) (v : Variables) (t : ℕ) : Variables :=
  let t₁ := v.h + bigSigma1 v.e + ch v.e v.f v.g + k t + schedule block t
  let t₂ := bigSigma0 v.a + maj v.a v.b v.c
  ⟨t₁ + t₂, v.a, v.b, v.c, v.d + t₁, v.e, v.f, v.g⟩

/-- The next hash value from the previous one and a block. -/
def compress (hash : Vector Word 8) (block : List UInt8) : Vector Word 8 :=
  let v := (List.range 64).foldl (round block)
    ⟨hash.get 0, hash.get 1, hash.get 2, hash.get 3,
      hash.get 4, hash.get 5, hash.get 6, hash.get 7⟩
  #v[v.a + hash.get 0, v.b + hash.get 1, v.c + hash.get 2, v.d + hash.get 3,
    v.e + hash.get 4, v.f + hash.get 5, v.g + hash.get 6, v.h + hash.get 7]

/-- A word of the digest, most significant byte first. -/
def wordBytes (word : Word) : List UInt8 :=
  [UInt8.ofBitVec (word.extractLsb' 24 8), UInt8.ofBitVec (word.extractLsb' 16 8),
    UInt8.ofBitVec (word.extractLsb' 8 8), UInt8.ofBitVec (word.extractLsb' 0 8)]

/-- The SHA-256 digest of a message. -/
def sha256 (message : List UInt8) : List UInt8 :=
  (absorb 64 compress initialHash (pad message)).toList.flatMap wordBytes

end LocalSend.Fips
