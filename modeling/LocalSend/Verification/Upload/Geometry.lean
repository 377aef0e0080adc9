import LocalSend.Model.Router.Stream
import LocalSend.Model.Web
import LocalSend.Verification.Decimal
import LocalSend.Verification.Upload.Frame

/-! # The extents of chunks

The page cuts a file into chunks, the router reads their extents from a header, and
`upload_chunk_begin` compares them with the chunks `upload_prepare` has counted. All agree on
the chunks, for every size a page can send, and no 64-bit operation of the checks wraps around.
-/

namespace LocalSend.Upload

open Routing SafePath Web
open Config (ascii digitsValue)

/-! ## The checks with 64-bit operations -/

def checkedAdd (a b : ℕ) : Option ℕ := if a + b < 2 ^ 64 then some (a + b) else none

def checkedSub (a b : ℕ) : Option ℕ := if b ≤ a then some (a - b) else none

def checkedMul (a b : ℕ) : Option ℕ := if a * b < 2 ^ 64 then some (a * b) else none

/-- `chunk_length_for`; `none` where an operation wraps around. -/
def chunkLengthForChecked (expectedSize index : ℕ) : Option ℕ :=
  (checkedMul index UPLOAD_CHUNK_BYTES).bind fun offset =>
    if expectedSize ≤ offset then some 0
    else
      (checkedSub expectedSize offset).map fun remaining =>
        if remaining < UPLOAD_CHUNK_BYTES then remaining else UPLOAD_CHUNK_BYTES

/-- The checks of `upload_chunk_begin` on an extent, in the order they are made, and whether
it passes them; `none` where an operation wraps around. -/
def chunkGeometry (expectedSize chunkCount total offset length : ℕ) : Option Bool :=
  if total ≠ expectedSize ∨ total ≤ offset then some false
  else
    (checkedSub total offset).bind fun rest =>
      if rest < length ∨ offset % UPLOAD_CHUNK_BYTES ≠ 0 then some false
      else
        -- the sum is only looked at for the last chunk
        (if length = UPLOAD_CHUNK_BYTES then some total else checkedAdd offset length).bind
            fun stop =>
          if stop ≠ total then some false
          else if chunkCount ≤ offset / UPLOAD_CHUNK_BYTES then some false
          else
            (chunkLengthForChecked expectedSize (offset / UPLOAD_CHUNK_BYTES)).map
              fun expected => decide (expected = length)

theorem chunkLengthForChecked_eq {expectedSize index : ℕ}
    (h : index * UPLOAD_CHUNK_BYTES < 2 ^ 64) :
    chunkLengthForChecked expectedSize index = some (chunkLengthFor expectedSize index) := by
  simp only [chunkLengthForChecked, checkedMul, h, if_true, Option.bind_some, chunkLengthFor,
    checkedSub]
  split
  · rfl
  · rename_i hlt
    rw [if_pos (by omega), Option.map_some]

/-- No operation of the checks wraps around. -/
theorem chunkGeometry_eq {expectedSize chunkCount total offset length : ℕ}
    (htotal : total < 2 ^ 64) :
    chunkGeometry expectedSize chunkCount total offset length =
      some (decide (¬chunkRangeRefused expectedSize total offset length ∧
        offset / UPLOAD_CHUNK_BYTES < chunkCount ∧
        chunkLengthFor expectedSize (offset / UPLOAD_CHUNK_BYTES) = length)) := by
  simp only [chunkGeometry, chunkRangeRefused, decide_eq_true_eq]
  split
  · rename_i hrefused
    rw [decide_eq_false (by tauto)]
  rename_i hrange
  rw [not_or, not_not, Nat.not_le] at hrange
  rw [checkedSub, if_pos hrange.2.le, Option.bind_some]
  split
  · rename_i hrefused
    rw [decide_eq_false (by tauto)]
  rename_i hlength
  rw [not_or, Nat.not_lt, not_not] at hlength
  obtain ⟨stop, hsum, hstop⟩ : ∃ stop,
      (if length = UPLOAD_CHUNK_BYTES then some total else checkedAdd offset length) =
        some stop ∧ (stop ≠ total ↔ length ≠ UPLOAD_CHUNK_BYTES ∧ offset + length ≠ total) := by
    by_cases hfull : length = UPLOAD_CHUNK_BYTES
    · exact ⟨total, if_pos hfull, by simp [hfull]⟩
    · have hfits : offset + length < 2 ^ 64 := by omega
      exact ⟨offset + length, by rw [if_neg hfull, checkedAdd, if_pos hfits], by simp [hfull]⟩
  rw [hsum, Option.bind_some]
  split
  · rename_i hlast
    rw [decide_eq_false (by tauto)]
  rename_i hlast
  rw [hstop] at hlast
  split
  · rename_i hcount
    rw [decide_eq_false (by omega)]
  rename_i hcount
  have hindex : offset / UPLOAD_CHUNK_BYTES * UPLOAD_CHUNK_BYTES < 2 ^ 64 :=
    lt_of_le_of_lt (Nat.div_mul_le_self ..) (by omega)
  rw [chunkLengthForChecked_eq hindex, Option.map_some]
  congr 1
  rw [decide_eq_decide]
  have hrest : ¬(total ≠ expectedSize ∨ total ≤ offset ∨ total - offset < length ∨
      offset % UPLOAD_CHUNK_BYTES ≠ 0 ∨
        (length ≠ UPLOAD_CHUNK_BYTES ∧ offset + length ≠ total)) := by
    simp only [not_or]
    exact ⟨not_not.mpr hrange.1, by omega, by omega, not_not.mpr hlength.2, hlast⟩
  simp only [hrest, not_false_eq_true, true_and]
  exact ⟨fun h => ⟨by omega, h⟩, fun h => h.2⟩

/-! ## The chunks of a size -/

/-- A chunk is counted when it begins inside the file. -/
theorem lt_chunkCountFor {size index : ℕ} :
    index < chunkCountFor size ↔ index * UPLOAD_CHUNK_BYTES < size := by
  simp only [chunkCountFor, UPLOAD_CHUNK_BYTES]
  split <;> omega

/-- A chunk is as long as what is left of the file, or full. -/
theorem chunkLengthFor_eq (size index : ℕ) :
    chunkLengthFor size index = min UPLOAD_CHUNK_BYTES (size - index * UPLOAD_CHUNK_BYTES) := by
  unfold chunkLengthFor
  dsimp only
  by_cases hbehind : size ≤ index * UPLOAD_CHUNK_BYTES
  · rw [if_pos hbehind]
    omega
  · rw [if_neg hbehind]
    split <;> omega

/-- An extent passes the checks exactly when it is one of the chunks. -/
theorem chunkGeometry_iff {expectedSize total offset length : ℕ} (htotal : total < 2 ^ 64) :
    chunkGeometry expectedSize (chunkCountFor expectedSize) total offset length = some true ↔
      total = expectedSize ∧ ∃ index < chunkCountFor expectedSize,
        offset = index * UPLOAD_CHUNK_BYTES ∧ length = chunkLengthFor expectedSize index := by
  rw [chunkGeometry_eq htotal, Option.some.injEq, decide_eq_true_eq]
  constructor
  · rintro ⟨hrange, hindex, hlength⟩
    simp only [chunkRangeRefused, decide_eq_true_eq, not_or, not_not] at hrange
    obtain ⟨hsize, -, -, hmultiple, -⟩ := hrange
    refine ⟨hsize, _, hindex, ?_, hlength.symm⟩
    have hdivision := Nat.div_add_mod offset UPLOAD_CHUNK_BYTES
    rw [hmultiple, Nat.add_zero, Nat.mul_comm] at hdivision
    exact hdivision.symm
  · rintro ⟨rfl, index, hindex, rfl, rfl⟩
    have hlength := chunkLengthFor_eq total index
    have hdivision : index * UPLOAD_CHUNK_BYTES / UPLOAD_CHUNK_BYTES = index :=
      Nat.mul_div_cancel _ (by decide)
    rw [hdivision]
    refine ⟨?_, hindex, rfl⟩
    rw [lt_chunkCountFor] at hindex
    simp only [chunkRangeRefused, decide_eq_true_eq, not_or, not_not, hlength]
    refine ⟨trivial, by omega, by omega, Nat.mul_mod_left .., ?_⟩
    omega

/-! ## The chunks of the page -/

theorem numberText_natCast (number : ℕ) : numberText number = decimal number := by
  simp [numberText]

theorem subtract_natCast {a b : ℕ} (hle : b ≤ a) (h : a < 2 ^ 53) :
    subtract a b = ((a - b : ℕ) : ℚ) := by
  rw [subtract, ← Nat.cast_sub hle]
  exact Double.round_eq (Double.isDouble_natCast (by omega))

/-- The header for the extent of a chunk. -/
def rangeText (offset length total : ℕ) : CString :=
  rangeUnit ++ decimal offset ++ [45] ++ decimal (offset + length - 1) ++ [47] ++ decimal total

/-- Up to `2 ^ 53` the page's numbers are exact. -/
theorem startChunk_eq {total index : ℕ} (hbound : total < 2 ^ 53)
    (hindex : index < chunkCountFor total) :
    startChunk total UPLOAD_CHUNK_BYTES index =
      ⟨(index * UPLOAD_CHUNK_BYTES : ℕ), chunkLengthFor total index,
        rangeText (index * UPLOAD_CHUNK_BYTES) (chunkLengthFor total index) total⟩ := by
  have hlength := chunkLengthFor_eq total index
  rw [lt_chunkCountFor] at hindex
  have hstart : multiply index UPLOAD_CHUNK_BYTES = (index * UPLOAD_CHUNK_BYTES : ℕ) := by
    rw [multiply, ← Nat.cast_mul]
    exact Double.round_eq (Double.isDouble_natCast (by omega))
  have hnext : add (index * UPLOAD_CHUNK_BYTES : ℕ) UPLOAD_CHUNK_BYTES =
      ((index + 1) * UPLOAD_CHUNK_BYTES : ℕ) := by
    rw [add, ← Nat.cast_add, ← Nat.succ_mul]
    refine Double.round_eq ⟨index + 1, 23, ?_, by norm_num, ?_⟩
    · have hsmall : index + 1 < 2 ^ 53 := by
        simp only [UPLOAD_CHUNK_BYTES] at hindex
        omega
      rw [abs_of_nonneg (by positivity)]
      exact_mod_cast hsmall
    · norm_num [UPLOAD_CHUNK_BYTES]
  have hstop : min (total : ℚ) ((index + 1) * UPLOAD_CHUNK_BYTES : ℕ) =
      (index * UPLOAD_CHUNK_BYTES + chunkLengthFor total index : ℕ) := by
    have hstop : min total ((index + 1) * UPLOAD_CHUNK_BYTES) =
        index * UPLOAD_CHUNK_BYTES + chunkLengthFor total index := by
      rw [hlength, Nat.succ_mul]
      omega
    rw [← Nat.cast_min, hstop]
  have hpositive : 0 < chunkLengthFor total index := by
    rw [hlength]
    have hchunk : 0 < UPLOAD_CHUNK_BYTES := by decide
    omega
  have hinside : index * UPLOAD_CHUNK_BYTES + chunkLengthFor total index < 2 ^ 53 := by omega
  have hlast : subtract (index * UPLOAD_CHUNK_BYTES + chunkLengthFor total index : ℕ) 1 =
      (index * UPLOAD_CHUNK_BYTES + chunkLengthFor total index - 1 : ℕ) := by
    have hone := subtract_natCast (b := 1) (show 1 ≤ index * UPLOAD_CHUNK_BYTES +
      chunkLengthFor total index by omega) hinside
    simpa using hone
  simp only [startChunk, hstart, hnext, hstop, hlast, numberText_natCast,
    subtract_natCast (Nat.le_add_right ..) hinside, Nat.add_sub_cancel_left, rangeText]
  rfl

/-- The page counts the chunks as `upload_prepare` does. -/
theorem uploadChunks_eq {total : ℕ} (hpositive : 1 ≤ total) (hbound : total < 2 ^ 53) :
    uploadChunks total UPLOAD_CHUNK_BYTES = (List.range (chunkCountFor total)).map fun index =>
      ⟨(index * UPLOAD_CHUNK_BYTES : ℕ), chunkLengthFor total index,
        rangeText (index * UPLOAD_CHUNK_BYTES) (chunkLengthFor total index) total⟩ := by
  have hexact : divide total UPLOAD_CHUNK_BYTES = (total : ℚ) / UPLOAD_CHUNK_BYTES := by
    refine Double.round_eq ⟨total, -23, ?_, by norm_num, ?_⟩
    · rw [Nat.abs_cast]
      exact_mod_cast hbound
    · norm_num [UPLOAD_CHUNK_BYTES]
      ring
  have hcount : ⌈divide total UPLOAD_CHUNK_BYTES⌉₊ = chunkCountFor total := by
    have hchunk : (0 : ℚ) < UPLOAD_CHUNK_BYTES := by norm_num [UPLOAD_CHUNK_BYTES]
    have hone : chunkCountFor total = (total - 1) / UPLOAD_CHUNK_BYTES + 1 := by
      rw [chunkCountFor, if_neg (by omega)]
    rw [hexact, hone, Nat.ceil_eq_iff (Nat.succ_ne_zero _), Nat.succ_sub_one,
      lt_div_iff₀ hchunk, div_le_iff₀ hchunk]
    have hlow : (total - 1) / UPLOAD_CHUNK_BYTES * UPLOAD_CHUNK_BYTES < total := by
      simp only [UPLOAD_CHUNK_BYTES]
      omega
    have hhigh : total ≤ ((total - 1) / UPLOAD_CHUNK_BYTES + 1) * UPLOAD_CHUNK_BYTES := by
      simp only [UPLOAD_CHUNK_BYTES]
      omega
    exact ⟨by exact_mod_cast hlow, by exact_mod_cast hhigh⟩
  rw [uploadChunks, hcount]
  refine List.map_congr_left fun index hindex => ?_
  exact startChunk_eq hbound (List.mem_range.mp hindex)

/-! ## The header -/

/-- A number is read up to what is behind it. -/
theorem parseRangeNumber_decimal {number : ℕ} (h : number < 2 ^ 64) {rest : CString}
    (hrest : isDigit (peek rest) = false) :
    parseRangeNumber (decimal number ++ rest) = some (number, rest) := by
  have hdigits := decimal_digits number
  have hstop : rest.takeWhile isDigit = [] ∧ rest.dropWhile isDigit = rest := by
    cases rest with
    | nil => exact ⟨rfl, rfl⟩
    | cons byte rest =>
        have hbyte : isDigit byte = false := hrest
        simp [hbyte]
  have htake : (decimal number ++ rest).takeWhile isDigit = decimal number := by
    rw [List.takeWhile_append_of_pos hdigits, hstop.1, List.append_nil]
  have hdrop : (decimal number ++ rest).dropWhile isDigit = rest := by
    rw [List.dropWhile_append_of_pos hdigits, hstop.2]
  have hfirst : isDigit (peek (decimal number ++ rest)) = true := by
    cases htext : decimal number with
    | nil => exact absurd htext (decimal_ne_nil number)
    | cons byte text => exact hdigits byte (by simp [htext])
  rw [parseRangeNumber, if_neg (by simp [hfirst]), htake, hdrop, digitsValue_decimal]
  dsimp only
  rw [if_neg (Nat.not_le.mpr h)]

/-- The header for an extent is read back as the extent. -/
theorem parseContentRange_rangeText {offset length total : ℕ} (hlength : 0 < length)
    (hinside : offset + length ≤ total) (htotal : total < 2 ^ 64) :
    parseContentRange (rangeText offset length total) = some ⟨offset, length, total⟩ := by
  have hunit : ∀ rest, (rangeUnit ++ rest).take rangeUnit.length = rangeUnit ∧
      (rangeUnit ++ rest).drop rangeUnit.length = rest :=
    fun rest => ⟨List.take_left, List.drop_left⟩
  have htext : rangeText offset length total = rangeUnit ++ (decimal offset ++ 45 ::
      (decimal (offset + length - 1) ++ 47 :: (decimal total ++ []))) := by
    simp [rangeText]
  have hminus : ∀ rest, isDigit (peek (45 :: rest)) = false := fun _ => by simp [peek, isDigit]
  have hslash : ∀ rest, isDigit (peek (47 :: rest)) = false := fun _ => by simp [peek, isDigit]
  have hnone : isDigit (peek []) = false := by decide
  rw [htext, parseContentRange, (hunit _).1, (hunit _).2, if_neg (by simp),
    parseRangeNumber_decimal (by omega) (hminus _)]
  simp only [peek, List.tail_cons, ne_eq, not_true_eq_false, if_false]
  rw [parseRangeNumber_decimal (by omega) (hslash _)]
  simp only [List.tail_cons, not_true_eq_false, if_false]
  rw [parseRangeNumber_decimal htotal hnone]
  simp only [not_true_eq_false, false_or]
  rw [if_neg (by omega), show offset + length - 1 - offset + 1 = length by omega]

/-! ## All four agree -/

/-- The router reads these extents from the requests of the page, and they are the chunks of a
file of this size: each passes the checks, each chunk occurs once, and every byte of the file is
in exactly one of them. -/
structure ExtentsFit (total : ℕ) (requests : List ChunkRequest) (extents : List ContentRange) :
    Prop where
  parsed : requests.map (fun request => parseContentRange request.contentRange) =
    extents.map some
  sent : requests.map (fun request => (request.start, request.chunkLength)) =
    extents.map fun extent => ((extent.offset : ℚ), (extent.length : ℚ))
  passes : ∀ extent ∈ extents, extent.total = total ∧
    chunkGeometry total (chunkCountFor total) extent.total extent.offset extent.length = some true
  indices : extents.map (fun extent => extent.offset / UPLOAD_CHUNK_BYTES) =
    List.range (chunkCountFor total)
  inside : ∀ extent ∈ extents, 0 < extent.length ∧ extent.offset + extent.length ≤ total
  covers : ∀ byte < total, ∃! index : ℕ, ∃ extent, extents[index]? = some extent ∧
    extent.offset ≤ byte ∧ byte < extent.offset + extent.length

/-- The call reaches the checks on its extent. -/
structure ReachesGeometry (world : World) (id client authorization : CString) : Prop where
  occupied : world.mgr.slot.occupied = true
  names : world.mgr.slot.uploadId = id
  bound : bindingMatches world.mgr.slot client authorization = true
  receiving : world.mgr.chunks.finalizingChunks = false
  transport : world.mgr.slot.started = true → world.mgr.chunks.chunkTransport = true

/-- These checks are what `upload_chunk_begin` answers `UPLOAD_SIZE_MISMATCH` on. -/
theorem uploadChunkBegin_sizeMismatch {world : World} {id client authorization : CString}
    {total offset length : ℕ} (htotal : total < 2 ^ 64)
    (h : ReachesGeometry world id client authorization) (env : Env) :
    uploadChunkBegin world id client authorization total offset length env =
        (world, .of .sizeMismatch) ↔
      chunkGeometry world.mgr.slot.expectedSize world.mgr.chunks.chunkCount total offset length =
        some false := by
  have hmismatch : ∀ (next : World) (result : UploadResult), result ≠ .sizeMismatch →
      (next, Outcome.of result) ≠ (world, Outcome.of .sizeMismatch) := by
    intro next result hresult heq
    cases (Prod.mk.inj heq).2
    exact hresult rfl
  have hstarted : ¬(world.mgr.slot.started = true ∧ ¬world.mgr.chunks.chunkTransport = true) :=
    fun hstream => hstream.2 (h.transport hstream.1)
  rw [chunkGeometry_eq htotal, Option.some.injEq, decide_eq_false_iff_not, uploadChunkBegin]
  simp only [h.occupied, h.names, h.bound, h.receiving, hstarted, not_true_eq_false, ne_eq,
    or_self, if_false, Bool.false_eq_true]
  split
  · rename_i hrefused
    simp [hrefused]
  rename_i hrange
  split
  · rename_i hindex
    refine iff_of_true rfl ?_
    rintro ⟨-, hcount, hlength⟩
    omega
  rename_i hindex
  rw [not_or, Nat.not_le, not_not] at hindex
  refine iff_of_false ?_ (not_not.mpr ⟨hrange, hindex⟩)
  repeat' split
  all_goals exact hmismatch _ _ (by simp)

/-- The extent of a chunk. -/
def chunkExtent (total index : ℕ) : ContentRange :=
  ⟨index * UPLOAD_CHUNK_BYTES, chunkLengthFor total index, total⟩

theorem chunkExtent_inside {total index : ℕ} (hindex : index < chunkCountFor total) :
    0 < chunkLengthFor total index ∧
      index * UPLOAD_CHUNK_BYTES + chunkLengthFor total index ≤ total := by
  have hlength := chunkLengthFor_eq total index
  have hchunk : 0 < UPLOAD_CHUNK_BYTES := by decide
  rw [lt_chunkCountFor] at hindex
  omega

/-- A byte of the file is in the chunk its position is divided into. -/
theorem mem_chunkExtent_iff {total byte index : ℕ} (hbyte : byte < total) :
    (∃ extent, ((List.range (chunkCountFor total)).map (chunkExtent total))[index]? =
        some extent ∧ extent.offset ≤ byte ∧ byte < extent.offset + extent.length) ↔
      index = byte / UPLOAD_CHUNK_BYTES := by
  have hlow := Nat.div_mul_le_self byte UPLOAD_CHUNK_BYTES
  have hhigh := Nat.lt_div_mul_add (a := byte) (b := UPLOAD_CHUNK_BYTES) (by decide)
  constructor
  · rintro ⟨extent, hextent, hbefore, hbehind⟩
    rw [List.getElem?_map, Option.map_eq_some_iff] at hextent
    obtain ⟨other, hother, rfl⟩ := hextent
    obtain ⟨hlt, rfl⟩ := List.getElem?_eq_some_iff.mp hother
    rw [List.length_range] at hlt
    simp only [List.getElem_range, chunkExtent] at hbefore hbehind
    have hlength := chunkLengthFor_eq total index
    refine (Nat.div_eq_of_lt_le hbefore ?_).symm
    rw [Nat.succ_mul]
    omega
  · rintro rfl
    have hindex : byte / UPLOAD_CHUNK_BYTES < chunkCountFor total :=
      lt_chunkCountFor.mpr (lt_of_le_of_lt hlow hbyte)
    have hlength := chunkLengthFor_eq total (byte / UPLOAD_CHUNK_BYTES)
    refine ⟨chunkExtent total (byte / UPLOAD_CHUNK_BYTES), ?_, ?_, ?_⟩
    · rw [List.getElem?_map, List.getElem?_range hindex, Option.map_some]
    · simp only [chunkExtent]
      exact hlow
    · simp only [chunkExtent]
      omega

theorem extentsFit_uploadChunks {total : ℕ} (hpositive : 1 ≤ total) (hbound : total < 2 ^ 53) :
    ExtentsFit total (uploadChunks total UPLOAD_CHUNK_BYTES)
      ((List.range (chunkCountFor total)).map (chunkExtent total)) := by
  have hwide : total < 2 ^ 64 := by omega
  refine ⟨?_, ?_, ?_, ?_, ?_, ?_⟩
  · rw [uploadChunks_eq hpositive hbound, List.map_map, List.map_map]
    refine List.map_congr_left fun index hindex => ?_
    obtain ⟨hlength, hend⟩ := chunkExtent_inside (List.mem_range.mp hindex)
    rw [Function.comp_apply, Function.comp_apply]
    exact parseContentRange_rangeText hlength hend hwide
  · rw [uploadChunks_eq hpositive hbound, List.map_map, List.map_map]
    refine List.map_congr_left fun index _ => ?_
    rw [Function.comp_apply, Function.comp_apply]
    rfl
  · intro extent hextent
    obtain ⟨index, hindex, rfl⟩ := List.mem_map.mp hextent
    simp only [chunkExtent]
    refine ⟨trivial, (chunkGeometry_iff hwide).mpr ?_⟩
    exact ⟨rfl, index, List.mem_range.mp hindex, rfl, rfl⟩
  · rw [List.map_map]
    refine (List.map_congr_left fun index _ => ?_).trans (List.map_id _)
    rw [Function.comp_apply, id_eq]
    exact Nat.mul_div_cancel _ (by decide)
  · intro extent hextent
    obtain ⟨index, hindex, rfl⟩ := List.mem_map.mp hextent
    simp only [chunkExtent]
    exact chunkExtent_inside (List.mem_range.mp hindex)
  · intro byte hbyte
    exact ⟨byte / UPLOAD_CHUNK_BYTES, (mem_chunkExtent_iff hbyte).mpr rfl,
      fun _ hother => (mem_chunkExtent_iff hbyte).mp hother⟩

/-- The chunks the page sends are the chunks the manager takes, for every size a page can send;
and the manager takes no other extent, whatever a 64-bit header says. -/
theorem chunkExtents_agree :
    (∀ total, 1 ≤ total → total < 2 ^ 53 →
      ∃ extents, ExtentsFit total (uploadChunks total UPLOAD_CHUNK_BYTES) extents) ∧
    (∀ expectedSize total offset length, total < 2 ^ 64 →
      ∃ passes, chunkGeometry expectedSize (chunkCountFor expectedSize) total offset length =
          some passes ∧
        (passes = true → ∃ index < chunkCountFor expectedSize,
          offset = index * UPLOAD_CHUNK_BYTES ∧ length = chunkLengthFor expectedSize index)) ∧
    ∀ world id client authorization total offset length env, total < 2 ^ 64 →
      ReachesGeometry world id client authorization →
      (uploadChunkBegin world id client authorization total offset length env =
          (world, .of .sizeMismatch) ↔
        chunkGeometry world.mgr.slot.expectedSize world.mgr.chunks.chunkCount total offset
          length = some false) := by
  refine ⟨fun total hpositive hbound => ⟨_, extentsFit_uploadChunks hpositive hbound⟩, ?_, ?_⟩
  · intro expectedSize total offset length htotal
    refine ⟨_, chunkGeometry_eq htotal, fun hpasses => ?_⟩
    have haccepted : chunkGeometry expectedSize (chunkCountFor expectedSize) total offset length =
        some true := by
      rw [chunkGeometry_eq htotal, hpasses]
    exact ((chunkGeometry_iff htotal).mp haccepted).2
  · intro world id client authorization total offset length env htotal h
    exact uploadChunkBegin_sizeMismatch htotal h env

open Sample Transition in
/-- One byte more than a whole chunk: the page's two chunks fit, and of the upload prepared for
them no tail of two bytes is taken. -/
theorem chunkExtents_tail :
    (∃ extents, ExtentsFit 8388609 (uploadChunks (8388609 : ℕ) UPLOAD_CHUNK_BYTES) extents) ∧
    ∃ sys, exec step (start 60) [prepare 0 1 8388609] = some sys ∧
      ReachesGeometry sys.world (uploadId 1) client authorization ∧
      uploadChunkBegin sys.world (uploadId 1) client authorization 8388609 8388608 2 (env 0) =
        (sys.world, .of .sizeMismatch) := by
  have hprepared : ∃ sys, exec step (start 60) [prepare 0 1 8388609] = some sys ∧
      sys.world.mgr.slot.occupied = true ∧ sys.world.mgr.slot.uploadId = uploadId 1 ∧
      bindingMatches sys.world.mgr.slot client authorization = true ∧
      sys.world.mgr.chunks.finalizingChunks = false ∧ sys.world.mgr.slot.started = false ∧
      chunkGeometry sys.world.mgr.slot.expectedSize sys.world.mgr.chunks.chunkCount 8388609
        8388608 2 = some false := exists_of_exec (by decide +kernel)
  obtain ⟨sys, hexec, hoccupied, hnames, hbound, hreceiving, hstarted, hgeometry⟩ := hprepared
  have hreaches : ReachesGeometry sys.world (uploadId 1) client authorization :=
    ⟨hoccupied, hnames, hbound, hreceiving, by simp [hstarted]⟩
  have htotal : 8388609 < 2 ^ 64 := by norm_num
  exact ⟨chunkExtents_agree.1 8388609 (by norm_num) (by norm_num), sys, hexec, hreaches,
    (chunkExtents_agree.2.2 _ _ _ _ _ _ _ _ htotal hreaches).mpr hgeometry⟩

end LocalSend.Upload
