import LocalSend.Model.Sha256
import LocalSend.Verification.Sha256.Fips
import Mathlib.Data.List.GetD

/-! # Correctness of the incremental hash

The context after any sequence of updates represents the concatenation of the pieces,
and closing it gives the digest of FIPS 180-4.
-/

namespace LocalSend.Sha256

open Blocks Buffer

/-! ## Words -/

theorem rotateRight_toBitVec (value : UInt32) (count : ℕ) (h : 0 < count) (h' : count < 32) :
    (rotateRight value (UInt32.ofNat count)).toBitVec = value.toBitVec.rotateRight count := by
  have hright : (UInt32.ofNat count).toBitVec % 32 = BitVec.ofNat 32 count := by
    apply BitVec.eq_of_toNat_eq
    simp
    omega
  have hleft : (32 - UInt32.ofNat count).toBitVec % 32 = BitVec.ofNat 32 (32 - count) := by
    apply BitVec.eq_of_toNat_eq
    simp
    omega
  rw [rotateRight, UInt32.toBitVec_or, UInt32.toBitVec_shiftRight, UInt32.toBitVec_shiftLeft,
    hright, hleft, BitVec.rotateRight_def, Nat.mod_eq_of_lt h', BitVec.ushiftRight_eq',
    BitVec.shiftLeft_eq', BitVec.toNat_ofNat, BitVec.toNat_ofNat, Nat.mod_eq_of_lt (by omega),
    Nat.mod_eq_of_lt (by omega)]

/-- A combination of two rotations and a shift, as both message-schedule functions are. -/
theorem smallSigma_toBitVec (x : UInt32) (r₁ r₂ s : ℕ) (h₁ : 0 < r₁ ∧ r₁ < 32)
    (h₂ : 0 < r₂ ∧ r₂ < 32) (hs : s < 32) :
    (rotateRight x (UInt32.ofNat r₁) ^^^ rotateRight x (UInt32.ofNat r₂) ^^^
        x >>> UInt32.ofNat s).toBitVec =
      x.toBitVec.rotateRight r₁ ^^^ x.toBitVec.rotateRight r₂ ^^^ x.toBitVec >>> s := by
  have hshift : (UInt32.ofNat s).toBitVec % 32 = BitVec.ofNat 32 s := by
    apply BitVec.eq_of_toNat_eq
    simp
    omega
  rw [UInt32.toBitVec_xor, UInt32.toBitVec_xor, rotateRight_toBitVec x r₁ h₁.1 h₁.2,
    rotateRight_toBitVec x r₂ h₂.1 h₂.2, UInt32.toBitVec_shiftRight, hshift, BitVec.ushiftRight_eq',
    BitVec.toNat_ofNat, Nat.mod_eq_of_lt (by omega)]

/-- A combination of three rotations, as both functions of the rounds are. -/
theorem bigSigma_toBitVec (x : UInt32) (r₁ r₂ r₃ : ℕ) (h₁ : 0 < r₁ ∧ r₁ < 32)
    (h₂ : 0 < r₂ ∧ r₂ < 32) (h₃ : 0 < r₃ ∧ r₃ < 32) :
    (rotateRight x (UInt32.ofNat r₁) ^^^ rotateRight x (UInt32.ofNat r₂) ^^^
        rotateRight x (UInt32.ofNat r₃)).toBitVec =
      x.toBitVec.rotateRight r₁ ^^^ x.toBitVec.rotateRight r₂ ^^^ x.toBitVec.rotateRight r₃ := by
  rw [UInt32.toBitVec_xor, UInt32.toBitVec_xor, rotateRight_toBitVec x r₁ h₁.1 h₁.2,
    rotateRight_toBitVec x r₂ h₂.1 h₂.2, rotateRight_toBitVec x r₃ h₃.1 h₃.2]

theorem blockWord_toBitVec (block : List UInt8) (t : ℕ) :
    (blockWord block t).toBitVec = Fips.messageWord block t := by
  have happend := @BitVec.setWidth_append_append_append_eq_shiftLeft_setWidth_or 8 8 8 8 32
    (block.getD (4 * t) 0).toBitVec (block.getD (4 * t + 1) 0).toBitVec
    (block.getD (4 * t + 2) 0).toBitVec (block.getD (4 * t + 3) 0).toBitVec
  rw [BitVec.setWidth_eq] at happend
  rw [Fips.messageWord, happend, blockWord, Nat.mul_comm t 4]
  rfl

private theorem extractLsb'_eq_setWidth {w : ℕ} (x : BitVec w) (start len : ℕ) :
    x.extractLsb' start len = (x >>> start).setWidth len := by
  apply BitVec.eq_of_toNat_eq
  simp

theorem wordBytes_eq (word : UInt32) : wordBytes word = Fips.wordBytes word.toBitVec := by
  simp only [wordBytes, Fips.wordBytes, extractLsb'_eq_setWidth]
  rfl

theorem lengthBytes_eq (bits : ℕ) : lengthBytes (UInt64.ofNat bits) = Fips.lengthBlock bits := by
  apply List.map_congr_left
  intro i hi
  rw [List.mem_range] at hi
  apply UInt8.toBitVec_inj.mp
  have hshift : (UInt64.ofNat ((7 - i) * 8)).toBitVec % 64 = BitVec.ofNat 64 (8 * (7 - i)) := by
    apply BitVec.eq_of_toNat_eq
    simp
    omega
  rw [UInt64.toBitVec_toUInt8, UInt64.toBitVec_shiftRight, hshift,
    extractLsb'_eq_setWidth, BitVec.ushiftRight_eq', BitVec.toNat_ofNat,
    Nat.mod_eq_of_lt (by omega)]
  rfl

/-! ## Tables -/

theorem constants_eq : constants.map UInt32.toBitVec = Fips.primes.map Fips.cubeRootBits := by
  decide +kernel

theorem constants_getD {t : ℕ} (h : t < 64) : (constants.getD t 0).toBitVec = Fips.k t := by
  have hconstants : constants.length = 64 := by decide
  have hprimes : Fips.primes.length = 64 := by decide
  have hget : (constants.map UInt32.toBitVec)[t]? = (Fips.primes.map Fips.cubeRootBits)[t]? := by
    rw [constants_eq]
  rw [List.getElem?_map, List.getElem?_map, List.getElem?_eq_getElem (by omega),
    List.getElem?_eq_getElem (by omega), Option.map_some, Option.map_some,
    Option.some.injEq] at hget
  rw [Fips.k, List.getD_eq_getElem _ _ (by omega), List.getD_eq_getElem _ _ (by omega), hget]

/-- The chaining value of the code as the standard's hash value. -/
def hashValue (state : Vector UInt32 8) : Vector Fips.Word 8 :=
  state.map UInt32.toBitVec

theorem hashValue_initial : hashValue initial = Fips.initialHash := by
  decide +kernel

/-! ## The message schedule -/

/-- What the second loop over `words` has computed after `count` turns: every word so
far is the standard's. -/
theorem extendWords_spec (block : List UInt8) (count : ℕ) :
    let ws := (List.range' 16 count).foldl extendWords ((List.range 16).map (blockWord block))
    ws.length = 16 + count ∧
      ∀ t < 16 + count, (ws.getD t 0).toBitVec = Fips.schedule block t := by
  induction count with
  | zero =>
      refine ⟨by simp, fun t ht => ?_⟩
      rw [Fips.schedule, if_pos (by omega), ← blockWord_toBitVec]
      simp only [List.range'_zero, List.foldl_nil]
      rw [List.getD_eq_getElem _ _ (by simpa using ht)]
      simp
  | succ count ih =>
      obtain ⟨hlen, hget⟩ := ih
      rw [List.range'_concat, List.foldl_append]
      generalize (List.range' 16 count).foldl extendWords _ = ws at hlen hget
      simp only [List.foldl_cons, List.foldl_nil, Nat.one_mul]
      refine ⟨by simp [extendWords, hlen]; omega, fun t ht => ?_⟩
      rw [extendWords]
      by_cases hlast : t = 16 + count
      · -- the word just appended satisfies the recurrence
        subst hlast
        rw [List.getD_append_right _ _ _ _ (by omega), hlen, Nat.sub_self, List.getD_cons_zero]
        rw [Fips.schedule, if_neg (by omega)]
        rw [← hget (16 + count - 2) (by omega), ← hget (16 + count - 7) (by omega),
          ← hget (16 + count - 15) (by omega), ← hget (16 + count - 16) (by omega)]
        have hs0 := smallSigma_toBitVec (ws.getD (16 + count - 15) 0) 7 18 3
          (by omega) (by omega) (by omega)
        have hs1 := smallSigma_toBitVec (ws.getD (16 + count - 2) 0) 17 19 10
          (by omega) (by omega) (by omega)
        rw [Fips.smallSigma0, Fips.smallSigma1, ← hs0, ← hs1]
        simp only [UInt32.toBitVec_add]
        ac_rfl
      · rw [List.getD_append _ _ _ _ (by omega)]
        exact hget t (by omega)

theorem words_getD (block : List UInt8) {t : ℕ} (h : t < 64) :
    ((words block).getD t 0).toBitVec = Fips.schedule block t :=
  (extendWords_spec block 48).2 t (by omega)

/-! ## One block -/

/-- The working variables of the code as the standard's. -/
def Working.toFips (v : Working) : Fips.Variables :=
  ⟨v.a.toBitVec, v.b.toBitVec, v.c.toBitVec, v.d.toBitVec,
    v.e.toBitVec, v.f.toBitVec, v.g.toBitVec, v.h.toBitVec⟩

theorem round_toFips (block : List UInt8) (v : Working) {t : ℕ} (h : t < 64) :
    (round (words block) v t).toFips = Fips.round block v.toFips t := by
  have hs1 := bigSigma_toBitVec v.e 6 11 25 (by omega) (by omega) (by omega)
  have hs0 := bigSigma_toBitVec v.a 2 13 22 (by omega) (by omega) (by omega)
  simp only [Fips.round, Working.toFips, Fips.bigSigma0, Fips.bigSigma1, ← hs0, ← hs1,
    ← words_getD block h, ← constants_getD h]
  rfl

theorem rounds_toFips (block : List UInt8) (v : Working) {count : ℕ} (h : count ≤ 64) :
    ((List.range count).foldl (round (words block)) v).toFips =
      (List.range count).foldl (Fips.round block) v.toFips := by
  induction count with
  | zero => rfl
  | succ count ih =>
      simp only [List.range_succ, List.foldl_append, List.foldl_cons, List.foldl_nil]
      rw [round_toFips block _ (by omega), ih (by omega)]

@[simp] theorem get_hashValue (state : Vector UInt32 8) (i : Fin 8) :
    (hashValue state).get i = (state.get i).toBitVec :=
  Vector.getElem_map ..

/-- The closing additions of `transform` are those of the standard. -/
theorem hashValue_add (state : Vector UInt32 8) (v : Working) :
    hashValue #v[state.get 0 + v.a, state.get 1 + v.b, state.get 2 + v.c, state.get 3 + v.d,
        state.get 4 + v.e, state.get 5 + v.f, state.get 6 + v.g, state.get 7 + v.h] =
      #v[v.toFips.a + (hashValue state).get 0, v.toFips.b + (hashValue state).get 1,
        v.toFips.c + (hashValue state).get 2, v.toFips.d + (hashValue state).get 3,
        v.toFips.e + (hashValue state).get 4, v.toFips.f + (hashValue state).get 5,
        v.toFips.g + (hashValue state).get 6, v.toFips.h + (hashValue state).get 7] := by
  simp only [get_hashValue]
  simp [hashValue, Working.toFips, BitVec.add_comm]

/-- The working variables start from the chaining state. -/
theorem toFips_start (state : Vector UInt32 8) :
    Working.toFips ⟨state.get 0, state.get 1, state.get 2, state.get 3,
        state.get 4, state.get 5, state.get 6, state.get 7⟩ =
      ⟨(hashValue state).get 0, (hashValue state).get 1, (hashValue state).get 2,
        (hashValue state).get 3, (hashValue state).get 4, (hashValue state).get 5,
        (hashValue state).get 6, (hashValue state).get 7⟩ := by
  simp only [get_hashValue, Working.toFips]

/-- `transform` is the compression function of the standard. -/
theorem hashValue_transformState (state : Vector UInt32 8) (block : List UInt8) :
    hashValue (transformState state block) = Fips.compress (hashValue state) block := by
  have hrounds := rounds_toFips block ⟨state.get 0, state.get 1, state.get 2, state.get 3,
    state.get 4, state.get 5, state.get 6, state.get 7⟩ le_rfl
  have hadd := hashValue_add state ((List.range 64).foldl (round (words block))
    ⟨state.get 0, state.get 1, state.get 2, state.get 3,
      state.get 4, state.get 5, state.get 6, state.get 7⟩)
  rw [hrounds, toFips_start] at hadd
  rw [Fips.compress]
  exact hadd

/-- Chaining commutes with the change of representation. -/
theorem hashValue_absorb (state : Vector UInt32 8) (message : List UInt8) :
    hashValue (absorb 64 transformState state message) =
      absorb 64 Fips.compress (hashValue state) message := by
  rw [absorb, absorb]
  induction blocks 64 message generalizing state with
  | nil => rfl
  | cons block rest ih =>
      rw [List.foldl_cons, List.foldl_cons, ih, hashValue_transformState]

/-! ## Updates

A context carries the chaining state over the complete blocks and, as a prefix of its
block, the bytes behind them. -/

/-- The chaining state and the pending bytes of a context. -/
structure Holds (context : Context) (state : Vector UInt32 8) (pending : List UInt8) : Prop where
  state_eq : context.state = state
  block_length : context.block.length = 64
  blockSize_eq : context.blockSize = pending.length
  pending_lt : pending.length < 64
  pending_prefix : pending <+: context.block

@[simp] theorem transform_block (context : Context) (block : List UInt8) :
    (transform context block).block = context.block := rfl

@[simp] theorem transform_state (context : Context) (block : List UInt8) :
    (transform context block).state = transformState context.state block := rfl

@[simp] theorem transform_bitCount (context : Context) (block : List UInt8) :
    (transform context block).bitCount = context.bitCount := rfl

@[simp] theorem updateLoop_bitCount (context : Context) (input : List UInt8) :
    (updateLoop context input).bitCount = context.bitCount := by
  fun_induction updateLoop context input with
  | case1 => rfl
  | case2 context input _ _ ih => rw [ih, transform_bitCount]
  | case3 context input _ _ take filled _ ih => rw [ih]; rfl
  | case4 context input _ _ take filled _ ih => rw [ih]; rfl

/-- Whatever path the loop takes, in place or through the pending block, it absorbs the
pending bytes followed by the input. -/
theorem updateLoop_holds {context : Context} {state : Vector UInt32 8} {pending : List UInt8}
    (input : List UInt8) (h : Holds context state pending) :
    Holds (updateLoop context input) (absorb 64 transformState state (pending ++ input))
      (remainder 64 (pending ++ input)) := by
  fun_induction updateLoop context input generalizing state pending with
  | case1 context input hstop =>
      obtain rfl | hbeyond := hstop
      · rw [List.append_nil, absorb_of_lt h.pending_lt, remainder_of_lt h.pending_lt]
        exact h
      · have := h.blockSize_eq
        have := h.pending_lt
        omega
  | case2 context input _ hwhole ih =>
      -- nothing is pending and a whole block is at hand
      have hnil : pending = [] := List.length_eq_zero_iff.mp (h.blockSize_eq ▸ hwhole.1)
      subst hnil
      rw [List.nil_append, absorb_of_le (by omega) hwhole.2, remainder_of_le (by omega) hwhole.2]
      exact @ih _ [] ⟨by rw [transform_state, h.state_eq], h.block_length, hwhole.1, by simp,
        List.nil_prefix⟩
  | case3 context input hstop _ take filled =>
      rename_i hfull ih
      -- the copy completes the pending block, which is then absorbed
      have hsize := h.blockSize_eq
      have htake : (pending ++ input.take take).length = 64 := by
        rw [List.length_append, ← hsize]
        exact hfull
      have hlen : filled.block.length = 64 := by
        rw [← h.block_length]
        exact splice_length (by rw [h.block_length, hsize, ← List.length_append, htake])
      have hblock : filled.block = pending ++ input.take take := by
        apply eq_of_prefix_of_length _ (by rw [htake, hlen])
        simpa only [filled, fillBlock, hsize] using prefix_splice h.pending_prefix (input.take take)
      have hsplit : pending ++ input = (pending ++ input.take take) ++ input.drop take := by
        rw [List.append_assoc, List.take_append_drop]
      have habsorb : absorb 64 transformState state (pending ++ input) =
          absorb 64 transformState (transformState filled.state filled.block)
            (input.drop take) := by
        rw [hsplit, absorb_of_le (by omega) (by simp only [List.length_append] at htake ⊢; omega),
          List.take_left' htake, List.drop_left' htake, hblock, ← h.state_eq]
        rfl
      have hremainder : remainder 64 (pending ++ input) = remainder 64 (input.drop take) := by
        rw [hsplit,
          remainder_of_le (by omega) (by simp only [List.length_append] at htake ⊢; omega),
          List.drop_left' htake]
      rw [habsorb, hremainder]
      exact @ih _ [] ⟨rfl, hlen, rfl, by simp, List.nil_prefix⟩
  | case4 context input hstop _ take filled =>
      rename_i hfull ih
      -- the block stays unfinished, so the input is used up
      have hsize := h.blockSize_eq
      have hpending := h.pending_lt
      have hlength : (input.take take).length = take := by
        rw [List.length_take]
        omega
      have hfilled : filled.blockSize = pending.length + take := by
        simp only [filled, fillBlock, hsize, hlength]
      have hsplit : pending ++ input = (pending ++ input.take take) ++ input.drop take := by
        rw [List.append_assoc, List.take_append_drop]
      rw [hsplit]
      refine ih ⟨h.state_eq, ?_, ?_, ?_, ?_⟩
      · rw [← h.block_length]
        exact splice_length (by rw [h.block_length, hlength]; omega)
      · rw [hfilled, List.length_append, hlength]
      · rw [List.length_append, hlength]
        omega
      · simpa only [filled, fillBlock, hsize] using prefix_splice h.pending_prefix (input.take take)

/-- The context represents the message whose bytes have been given to it so far. -/
structure Absorbed (context : Context) (message : List UInt8) : Prop where
  holds : Holds context (absorb 64 transformState initial message) (remainder 64 message)
  bitCount_eq : context.bitCount = UInt64.ofNat (8 * message.length)

theorem absorbed_init : Absorbed sha256Init [] := by
  refine ⟨⟨?_, by decide, ?_, by simp [remainder], by simp [remainder]⟩,
    by simp [sha256Init, Context.zero]⟩
  · rw [absorb_of_lt (by simp)]
    rfl
  · simp [remainder, sha256Init, Context.zero]

/-- An update appends its data to the message the context represents. -/
theorem absorbed_update {context : Context} {message : List UInt8}
    (h : Absorbed context message) (data : List UInt8) :
    Absorbed (sha256Update context data) (message ++ data) := by
  have hstart : Holds { context with bitCount := context.bitCount + UInt64.ofNat data.length * 8 }
      (absorb 64 transformState initial message) (remainder 64 message) :=
    ⟨h.holds.state_eq, h.holds.block_length, h.holds.blockSize_eq, h.holds.pending_lt,
      h.holds.pending_prefix⟩
  refine ⟨?_, ?_⟩
  · rw [absorb_append (by omega), remainder_append (by omega)]
    exact updateLoop_holds data hstart
  · rw [sha256Update, updateLoop_bitCount, h.bitCount_eq, List.length_append, Nat.mul_add,
      UInt64.ofNat_add, Nat.mul_comm 8 data.length, UInt64.ofNat_mul data.length]
    rfl

theorem absorbed_foldl {context : Context} {message : List UInt8} (h : Absorbed context message)
    (pieces : List (List UInt8)) :
    Absorbed (pieces.foldl sha256Update context) (message ++ pieces.flatten) := by
  induction pieces generalizing context message with
  | nil => simpa using h
  | cons piece rest ih =>
      simpa only [List.foldl_cons, List.flatten_cons, List.append_assoc] using
        ih (absorbed_update h piece)

/-! ## Closing the hash -/

/-- The zero bytes the standard puts behind `pending` bytes and the marker, in the same
block when the length still fits behind them. -/
theorem zeroBytes_of_remainder (message : List UInt8) :
    Fips.zeroBytes message.length =
      if (remainder 64 message).length < 56 then 55 - (remainder 64 message).length
      else 119 - (remainder 64 message).length := by
  rw [remainder_length, Fips.zeroBytes]
  split_ifs <;> omega

/-- The last two copies of `sha256_final` close a block behind at most 56 bytes. -/
theorem closingBlock {block front : List UInt8} (bits : UInt64) (hlen : block.length = 64)
    (hfront : front <+: block) (hfit : front.length ≤ 56) :
    splice (splice block front.length (.replicate (56 - front.length) 0)) 56 (lengthBytes bits) =
      front ++ .replicate (56 - front.length) 0 ++ lengthBytes bits := by
  have hbytes : (lengthBytes bits).length = 8 := by simp [lengthBytes]
  have hzeros := prefix_splice hfront (.replicate (56 - front.length) 0)
  have hlen' : (splice block front.length (.replicate (56 - front.length) 0)).length = 64 := by
    rw [splice_length (by simp; omega), hlen]
  have hclose := prefix_splice hzeros (lengthBytes bits)
  have h56 : (front ++ List.replicate (56 - front.length) 0).length = 56 := by
    rw [List.length_append, List.length_replicate]
    omega
  rw [h56] at hclose
  refine eq_of_prefix_of_length hclose ?_
  rw [splice_length (by omega), List.length_append, h56, hbytes, hlen']

theorem digest_eq (state : Vector UInt32 8) :
    state.toList.flatMap wordBytes = (hashValue state).toList.flatMap Fips.wordBytes := by
  rw [hashValue, Vector.toList_map, List.flatMap_map]
  exact List.flatMap_congr fun word _ => wordBytes_eq word

/-- What `sha256_final` leaves in the chaining state is what the standard computes over
the pending bytes and the padding. -/
theorem final_state {context : Context} {state : Vector UInt32 8} {pending : List UInt8}
    (h : Holds context state pending) :
    (sha256Final context).1 =
      (absorb 64 transformState state (pending ++ [0x80] ++
        .replicate (if pending.length < 56 then 55 - pending.length else 119 - pending.length) 0 ++
          lengthBytes context.bitCount)).toList.flatMap wordBytes := by
  have hlt := h.pending_lt
  have hbytes : (lengthBytes context.bitCount).length = 8 := by simp [lengthBytes]
  have hmarked := prefix_splice h.pending_prefix [0x80]
  have hmarkedLength : (splice context.block pending.length [0x80]).length = 64 := by
    rw [splice_length (by rw [h.block_length, List.length_singleton]; omega), h.block_length]
  simp only [sha256Final, finalMarker, h.blockSize_eq]
  by_cases hroom : pending.length < 56
  · -- the length fits behind the marker: one block
    have hclose := closingBlock context.bitCount hmarkedLength hmarked (by simp; omega)
    have hfill : 56 - (pending ++ [(0x80 : UInt8)]).length = 55 - pending.length := by
      simp
    rw [hfill, List.length_append, List.length_singleton] at hclose
    rw [if_neg (by omega), if_pos hroom,
      show 56 - (pending.length + 1) = 55 - pending.length by omega, hclose,
      absorb_of_length_eq (by omega) (by simp [hbytes]; omega), transform_state, h.state_eq]
  · -- the marker's block is filled with zeros, and the length gets one of its own
    have hzeros := prefix_splice hmarked (.replicate (63 - pending.length) 0)
    rw [List.length_append, List.length_singleton] at hzeros
    have hlength : (splice (splice context.block pending.length [0x80]) (pending.length + 1)
        (.replicate (63 - pending.length) 0)).length = 64 := by
      rw [splice_length (by simp; omega), hmarkedLength]
    have hfirst := eq_of_prefix_of_length hzeros (by simp [hlength]; omega)
    have hclose := closingBlock context.bitCount hlength List.nil_prefix (by simp)
    simp only [List.length_nil, Nat.sub_zero, List.nil_append] at hclose
    have hsplit : pending ++ [(0x80 : UInt8)] ++ List.replicate (119 - pending.length) 0 ++
          lengthBytes context.bitCount =
        (pending ++ [(0x80 : UInt8)] ++ List.replicate (63 - pending.length) 0) ++
          (List.replicate 56 0 ++ lengthBytes context.bitCount) := by
      rw [show 119 - pending.length = (63 - pending.length) + 56 by omega, List.replicate_add]
      simp only [List.append_assoc]
    have hblock : (pending ++ [(0x80 : UInt8)] ++
        List.replicate (63 - pending.length) 0).length = 64 := by
      simp
      omega
    rw [if_pos (by omega), if_neg hroom,
      show 64 - (pending.length + 1) = 63 - pending.length by omega]
    simp only [transform_block, transform_state, Nat.sub_zero]
    rw [hclose, hsplit, absorb_of_le (by omega) (by rw [List.length_append, hblock]; omega),
      List.take_left' hblock, List.drop_left' hblock,
      absorb_of_length_eq (by omega) (by simp [hbytes]), hfirst, h.state_eq]

/-- Closing a context gives the standard's digest of the message it represents. -/
theorem final_of_absorbed {context : Context} {message : List UInt8}
    (h : Absorbed context message) : (sha256Final context).1 = Fips.sha256 message := by
  rw [final_state h.holds, digest_eq, hashValue_absorb, hashValue_absorb, hashValue_initial,
    Fips.sha256, Fips.pad, h.bitCount_eq, lengthBytes_eq, zeroBytes_of_remainder]
  simp only [List.append_assoc]
  rw [← absorb_append (by omega)]

/-- Initialising, updating with the pieces in order and closing gives the SHA-256 digest
of their concatenation, however the message is split. The bit counter and the standard's
length block agree on every length; below `2 ^ 61` bytes both are the length itself. -/
theorem sha256_pieces (pieces : List (List UInt8)) :
    (sha256Final (pieces.foldl sha256Update sha256Init)).1 = Fips.sha256 pieces.flatten := by
  have h := absorbed_foldl absorbed_init pieces
  rw [List.nil_append] at h
  exact final_of_absorbed h

end LocalSend.Sha256
