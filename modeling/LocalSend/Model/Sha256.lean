import LocalSend.Library.Buffer
import LocalSend.Model.Basic
import Mathlib.Data.Vector.Basic

/-! # The incremental hash

The functions of `sha256.c`, over 32-bit words and byte lists.
-/

namespace LocalSend.Sha256

open Buffer

/-- `sha256_context_t`. -/
structure Context where
  state : Vector UInt32 8
  bitCount : UInt64
  block : List UInt8
  blockSize : ℕ
  deriving DecidableEq

def rotateRight (value : UInt32) (count : UInt32) : UInt32 :=
  value >>> count ||| value <<< (32 - count)

def constants : List UInt32 := [
  0x428a2f98, 0x71374491, 0xb5c0fbcf, 0xe9b5dba5,
  0x3956c25b, 0x59f111f1, 0x923f82a4, 0xab1c5ed5,
  0xd807aa98, 0x12835b01, 0x243185be, 0x550c7dc3,
  0x72be5d74, 0x80deb1fe, 0x9bdc06a7, 0xc19bf174,
  0xe49b69c1, 0xefbe4786, 0x0fc19dc6, 0x240ca1cc,
  0x2de92c6f, 0x4a7484aa, 0x5cb0a9dc, 0x76f988da,
  0x983e5152, 0xa831c66d, 0xb00327c8, 0xbf597fc7,
  0xc6e00bf3, 0xd5a79147, 0x06ca6351, 0x14292967,
  0x27b70a85, 0x2e1b2138, 0x4d2c6dfc, 0x53380d13,
  0x650a7354, 0x766a0abb, 0x81c2c92e, 0x92722c85,
  0xa2bfe8a1, 0xa81a664b, 0xc24b8b70, 0xc76c51a3,
  0xd192e819, 0xd6990624, 0xf40e3585, 0x106aa070,
  0x19a4c116, 0x1e376c08, 0x2748774c, 0x34b0bcb5,
  0x391c0cb3, 0x4ed8aa4a, 0x5b9cca4f, 0x682e6ff3,
  0x748f82ee, 0x78a5636f, 0x84c87814, 0x8cc70208,
  0x90befffa, 0xa4506ceb, 0xbef9a3f7, 0xc67178f2]

def initial : Vector UInt32 8 :=
  #v[0x6a09e667, 0xbb67ae85, 0x3c6ef372, 0xa54ff53a,
    0x510e527f, 0x9b05688c, 0x1f83d9ab, 0x5be0cd19]

/-! ## `transform` -/

/-- The big-endian word at `block[index * 4]`. -/
def blockWord (block : List UInt8) (index : ℕ) : UInt32 :=
  (block.getD (index * 4) 0).toUInt32 <<< 24 |||
    (block.getD (index * 4 + 1) 0).toUInt32 <<< 16 |||
    (block.getD (index * 4 + 2) 0).toUInt32 <<< 8 |||
    (block.getD (index * 4 + 3) 0).toUInt32

/-- One turn of the second loop over `words`, which fills `words[index]`. -/
def extendWords (words : List UInt32) (index : ℕ) : List UInt32 :=
  let x := words.getD (index - 15) 0
  let y := words.getD (index - 2) 0
  let s0 := rotateRight x 7 ^^^ rotateRight x 18 ^^^ x >>> 3
  let s1 := rotateRight y 17 ^^^ rotateRight y 19 ^^^ y >>> 10
  words ++ [words.getD (index - 16) 0 + s0 + words.getD (index - 7) 0 + s1]

/-- The array `words` once both loops are done. -/
def words (block : List UInt8) : List UInt32 :=
  (List.range' 16 48).foldl extendWords ((List.range 16).map (blockWord block))

/-- The local variables `a` to `h`. -/
structure Working where
  a : UInt32
  b : UInt32
  c : UInt32
  d : UInt32
  e : UInt32
  f : UInt32
  g : UInt32
  h : UInt32
  deriving DecidableEq

/-- One turn of the round loop. -/
def round (words : List UInt32) (v : Working) (index : ℕ) : Working :=
  let s1 := rotateRight v.e 6 ^^^ rotateRight v.e 11 ^^^ rotateRight v.e 25
  let choice := v.e &&& v.f ^^^ ~~~v.e &&& v.g
  let t1 := v.h + s1 + choice + constants.getD index 0 + words.getD index 0
  let s0 := rotateRight v.a 2 ^^^ rotateRight v.a 13 ^^^ rotateRight v.a 22
  let majority := v.a &&& v.b ^^^ v.a &&& v.c ^^^ v.b &&& v.c
  let t2 := s0 + majority
  { h := v.g, g := v.f, f := v.e, e := v.d + t1, d := v.c, c := v.b, b := v.a, a := t1 + t2 }

/-- The effect of `transform` on `context->state`. -/
def transformState (state : Vector UInt32 8) (block : List UInt8) : Vector UInt32 8 :=
  let v := (List.range 64).foldl (round (words block))
    ⟨state[0], state[1], state[2], state[3], state[4], state[5], state[6], state[7]⟩
  #v[state[0] + v.a, state[1] + v.b, state[2] + v.c, state[3] + v.d,
    state[4] + v.e, state[5] + v.f, state[6] + v.g, state[7] + v.h]

def transform (context : Context) (block : List UInt8) : Context :=
  { context with state := transformState context.state block }

/-! ## `sha256_init`, `sha256_update`, `sha256_final` -/

/-- A context after `memset(context, 0, sizeof(*context))`. -/
def Context.zero : Context :=
  ⟨.replicate 8 0, 0, .replicate 64 0, 0⟩

def sha256Init : Context :=
  { Context.zero with state := initial }

/-- The `memcpy` of `sha256_update` into the pending block. -/
def fillBlock (context : Context) (data : List UInt8) : Context :=
  { context with
    block := splice context.block context.blockSize data
    blockSize := context.blockSize + data.length }

/-- The loop of `sha256_update`, with the rest of the input as its cursor. A position
beyond the block, which no call produces, is undefined in the source and ends the loop. -/
def updateLoop (context : Context) (input : List UInt8) : Context :=
  if hstop : input = [] ∨ 64 < context.blockSize then
    context
  else if hwhole : context.blockSize = 0 ∧ 64 ≤ input.length then
    updateLoop (transform context (input.take 64)) (input.drop 64)
  else
    let take := min (64 - context.blockSize) input.length
    let filled := fillBlock context (input.take take)
    if filled.blockSize = 64 then
      updateLoop { transform filled filled.block with blockSize := 0 } (input.drop take)
    else
      updateLoop filled (input.drop take)
termination_by 2 * input.length + context.blockSize / 64
decreasing_by
  all_goals
    have hne : input.length ≠ 0 := fun h => hstop (.inl (List.length_eq_zero_iff.mp h))
    have : context.blockSize ≤ 64 := Nat.le_of_not_gt fun h => hstop (.inr h)
    simp +zetaDelta only [fillBlock, transform, List.length_drop, List.length_take] at *
    omega

def sha256Update (context : Context) (data : List UInt8) : Context :=
  updateLoop { context with bitCount := context.bitCount + UInt64.ofNat data.length * 8 } data

/-- The first part of `sha256_final`: the `0x80` byte, and a block of its own for it
when the length no longer fits behind it. -/
def finalMarker (context : Context) : Context :=
  let context := { context with
    block := splice context.block context.blockSize [0x80]
    blockSize := context.blockSize + 1 }
  if 56 < context.blockSize then
    let context := { context with
      block := splice context.block context.blockSize (.replicate (64 - context.blockSize) 0) }
    { transform context context.block with blockSize := 0 }
  else
    context

/-- The eight bytes the length loop of `sha256_final` writes at `block[56]`. -/
def lengthBytes (bits : UInt64) : List UInt8 :=
  (List.range 8).map fun index => (bits >>> UInt64.ofNat ((7 - index) * 8)).toUInt8

/-- The big-endian bytes of one word of the digest. -/
def wordBytes (word : UInt32) : List UInt8 :=
  [(word >>> 24).toUInt8, (word >>> 16).toUInt8, (word >>> 8).toUInt8, word.toUInt8]

/-- The digest; the context is zeroed afterwards. -/
def sha256Final (context : Context) : List UInt8 × Context :=
  let bits := context.bitCount
  let context := finalMarker context
  let context := { context with
    block := splice context.block context.blockSize (.replicate (56 - context.blockSize) 0) }
  let context := { context with block := splice context.block 56 (lengthBytes bits) }
  let context := transform context context.block
  (context.state.toList.flatMap wordBytes, Context.zero)

def sha256Hex (digest : Bytes) : CString := hexBytes digest

end LocalSend.Sha256
