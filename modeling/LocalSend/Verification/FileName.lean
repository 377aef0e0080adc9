import LocalSend.Model.SafePath
import Mathlib.Tactic.Common

/-! # Accepted file names

What `safe_path_validate_filename` accepts, in the terms of Unicode and of path components.
-/

namespace LocalSend.SafePath

/-- Encoded characters, one after the other. -/
def Utf8 (text : CString) : Prop := ∃ characters : List Char,
  text = characters.flatMap String.utf8EncodeChar

/-- A single component of a path, without a byte that a reader could take for another. -/
structure ProperName (name : CString) : Prop where
  utf8 : Utf8 name
  length : 1 ≤ name.length ∧ name.length ≤ 255
  bytes : ∀ byte ∈ name, 0x20 ≤ byte ∧ byte ≠ 0x7f ∧ byte ≠ 47 ∧ byte ≠ 92 ∧ byte ≠ 37
  dots : name ≠ [46] ∧ name ≠ [46, 46]

theorem ProperName.ne_slash {name : CString} {byte : UInt8} (h : ProperName name)
    (hbyte : byte ∈ name) : byte ≠ 47 :=
  (h.bytes byte hbyte).2.2.1

/-! ## Bytes of a sequence -/

/-- A byte whose upper bits are `mark` is the mark and its lower bits. -/
theorem byte_split (byte : UInt8) :
    (byte &&& 0xc0 = 0x80 → byte.toNat = 128 + (byte &&& 0x3f).toNat) ∧
      (byte &&& 0xe0 = 0xc0 → byte.toNat = 192 + (byte &&& 0x1f).toNat) ∧
      (byte &&& 0xf0 = 0xe0 → byte.toNat = 224 + (byte &&& 0x0f).toNat) ∧
      (byte &&& 0xf8 = 0xf0 → byte.toNat = 240 + (byte &&& 0x07).toNat) := by
  have hsplit : ∀ value < 256, (value &&& 192 = 128 → value = 128 + (value &&& 63)) ∧
      (value &&& 224 = 192 → value = 192 + (value &&& 31)) ∧
      (value &&& 240 = 224 → value = 224 + (value &&& 15)) ∧
      (value &&& 248 = 240 → value = 240 + (value &&& 7)) := by
    decide +kernel
  simpa [← UInt8.toNat_inj] using hsplit byte.toNat byte.toNat_lt

theorem low_lt (byte : UInt8) : (byte &&& 0x3f).toNat < 64 ∧ (byte &&& 0x1f).toNat < 32 ∧
    (byte &&& 0x0f).toNat < 16 ∧ (byte &&& 0x07).toNat < 8 := by
  simp only [UInt8.toNat_and, UInt8.reduceToNat]
  exact ⟨Nat.lt_succ_of_le Nat.and_le_right, Nat.lt_succ_of_le Nat.and_le_right,
    Nat.lt_succ_of_le Nat.and_le_right, Nat.lt_succ_of_le Nat.and_le_right⟩

theorem peek_cons {text : CString} (h : peek text ≠ 0) :
    text = peek text :: text.tail := by
  cases text with
  | nil => exact absurd rfl h
  | cons byte text => rfl

/-- The bytes a continuation loop has taken, and the code they add up to. -/
theorem continuation_one {code : ℕ} {remaining : ℕ} {text rest : CString} {result : ℕ}
    (h : continuation (remaining + 1) code text = some (result, rest)) :
    ∃ byte after, text = byte :: after ∧ byte &&& 0xc0 = 0x80 ∧
      continuation remaining (code * 64 + (byte &&& 0x3f).toNat) after = some (result, rest) := by
  rw [continuation] at h
  split at h
  · cases h
  rename_i hmark
  rw [not_not] at hmark
  have hne : peek text ≠ 0 := by
    intro hzero
    rw [hzero] at hmark
    revert hmark
    decide
  exact ⟨peek text, text.tail, peek_cons hne, hmark, h⟩

/-- A first byte by its form: what it announces and the bits it carries. -/
theorem leadByte_some {byte : UInt8} {remaining code : ℕ}
    (h : leadByte byte = some (remaining, code)) :
    (remaining = 1 ∧ 2 ≤ code ∧ code < 32 ∧ byte.toNat = 192 + code) ∨
      (remaining = 2 ∧ code < 16 ∧ byte.toNat = 224 + code) ∨
        (remaining = 3 ∧ code < 5 ∧ byte.toNat = 240 + code) := by
  have hlow := low_lt byte
  have hsplit := byte_split byte
  rw [leadByte] at h
  split at h
  · rename_i hmark
    have hbyte := hsplit.2.1 hmark
    dsimp only at h
    split at h
    · cases h
    · cases h
      exact .inl ⟨rfl, by omega, hlow.2.1, hbyte⟩
  split at h
  · rename_i hmark
    cases h
    exact .inr (.inl ⟨rfl, hlow.2.2.1, hsplit.2.2.1 hmark⟩)
  split at h
  · rename_i hmark
    have hbyte := hsplit.2.2.2 hmark
    dsimp only at h
    split at h
    · cases h
    · cases h
      exact .inr (.inr ⟨rfl, by omega, hbyte⟩)
  · cases h

/-! ## Characters -/

/-- The character of a code in the range of Unicode scalar values. -/
theorem exists_char (code : ℕ) (h : code.isValidChar) :
    ∃ character : Char, character.val.toNat = code :=
  ⟨Char.ofNat code, by rw [Char.ofNat, dif_pos h]; rfl⟩

theorem encode_one {byte : UInt8} (h : byte < 0x80) :
    ∃ character : Char, [byte] = String.utf8EncodeChar character := by
  have hbyte : byte.toNat < 128 := by simpa [UInt8.lt_iff_toNat_lt] using h
  obtain ⟨character, hcharacter⟩ := exists_char byte.toNat (by
    simp only [Nat.isValidChar]
    omega)
  refine ⟨character, ?_⟩
  simp only [String.utf8EncodeChar, hcharacter]
  rw [if_pos (by omega)]
  simp

/-- Bytes below `0x80` are a character each. -/
theorem utf8_ascii {text : CString} (h : ∀ byte ∈ text, byte < 0x80) : Utf8 text := by
  induction text with
  | nil => exact ⟨[], rfl⟩
  | cons byte text ih =>
      obtain ⟨character, hcharacter⟩ := encode_one (h byte (List.mem_cons_self ..))
      obtain ⟨characters, rfl⟩ := ih fun other hother => h other (List.mem_cons_of_mem _ hother)
      exact ⟨character :: characters, by rw [List.flatMap_cons, ← hcharacter]; rfl⟩

/-- One sequence of more than one byte that passes the checks is one encoded character. -/
theorem encode_sequence {byte : UInt8} {text rest : CString} {remaining lead code : ℕ}
    (hlead : leadByte byte = some (remaining, lead))
    (hcontinuation : continuation remaining lead text = some (code, rest))
    (hrange : codeRefused (remaining + 1) code = false) :
    ∃ character : Char, byte :: text = String.utf8EncodeChar character ++ rest := by
  simp only [codeRefused, decide_eq_false_iff_not, not_or] at hrange
  obtain ⟨hone, htwo, hthree, hsurrogate, hmax⟩ := hrange
  obtain ⟨character, hcharacter⟩ := exists_char code (by
    simp only [Nat.isValidChar]
    omega)
  refine ⟨character, ?_⟩
  simp only [String.utf8EncodeChar, hcharacter]
  obtain ⟨rfl, hlow, hhigh, hbyte⟩ | ⟨rfl, hhigh, hbyte⟩ | ⟨rfl, hhigh, hbyte⟩ :=
    leadByte_some hlead
  · obtain ⟨first, text, rfl, hfirst, hcontinuation⟩ := continuation_one hcontinuation
    cases hcontinuation
    have hfirst := (byte_split _).1 hfirst
    have hfirstLow := (low_lt first).1
    rw [if_neg (by omega), if_pos (by omega)]
    simp only [List.cons_append, List.nil_append, List.cons.injEq, and_true,
      ← UInt8.toNat_inj, UInt8.toNat_ofNat']
    omega
  · obtain ⟨first, text, rfl, hfirst, hcontinuation⟩ := continuation_one hcontinuation
    obtain ⟨second, text, rfl, hsecond, hcontinuation⟩ := continuation_one hcontinuation
    cases hcontinuation
    have hfirst := (byte_split _).1 hfirst
    have hfirstLow := (low_lt first).1
    have hsecond := (byte_split _).1 hsecond
    have hsecondLow := (low_lt second).1
    rw [if_neg (by omega), if_neg (by omega), if_pos (by omega)]
    simp only [List.cons_append, List.nil_append, List.cons.injEq, and_true,
      ← UInt8.toNat_inj, UInt8.toNat_ofNat']
    omega
  · obtain ⟨first, text, rfl, hfirst, hcontinuation⟩ := continuation_one hcontinuation
    obtain ⟨second, text, rfl, hsecond, hcontinuation⟩ := continuation_one hcontinuation
    obtain ⟨third, text, rfl, hthird, hcontinuation⟩ := continuation_one hcontinuation
    cases hcontinuation
    have hfirst := (byte_split _).1 hfirst
    have hfirstLow := (low_lt first).1
    have hsecond := (byte_split _).1 hsecond
    have hsecondLow := (low_lt second).1
    have hthird := (byte_split _).1 hthird
    have hthirdLow := (low_lt third).1
    rw [if_neg (by omega), if_neg (by omega), if_neg (by omega)]
    simp only [List.cons_append, List.nil_append, List.cons.injEq, and_true,
      ← UInt8.toNat_inj, UInt8.toNat_ofNat']
    omega

theorem validUtf8Loop_sound (fuel : ℕ) (text : CString) (h : validUtf8Loop fuel text = true) :
    Utf8 text := by
  induction fuel generalizing text with
  | zero =>
    rw [validUtf8Loop, List.isEmpty_iff] at h
    exact ⟨[], h⟩
  | succ fuel ih =>
    cases text with
    | nil => exact ⟨[], rfl⟩
    | cons byte text =>
      rw [validUtf8Loop] at h
      split at h
      · rename_i hbyte
        obtain ⟨characters, rfl⟩ := ih text h
        obtain ⟨character, hcharacter⟩ := encode_one hbyte
        exact ⟨character :: characters, by rw [List.flatMap_cons, ← hcharacter]; rfl⟩
      split at h
      · cases h
      rename_i remaining lead hlead
      split at h
      · cases h
      rename_i code rest hcontinuation
      split at h
      · cases h
      rename_i hrange
      obtain ⟨characters, rfl⟩ := ih rest h
      obtain ⟨character, hcharacter⟩ :=
        encode_sequence hlead hcontinuation (Bool.not_eq_true _ ▸ hrange)
      exact ⟨character :: characters, by rw [List.flatMap_cons, ← hcharacter]⟩

/-! ## Encoded characters are accepted -/

/-- A continuation byte shows its mark and gives back its six bits. -/
theorem continuation_byte (low : ℕ) (h : low < 64) :
    UInt8.ofNat (low + 0x80) &&& 0xc0 = 0x80 ∧ (UInt8.ofNat (low + 0x80) &&& 0x3f).toNat = low := by
  have hmark : ∀ low < 64, UInt8.ofNat (low + 0x80) &&& 0xc0 = 0x80 ∧
      (UInt8.ofNat (low + 0x80) &&& 0x3f).toNat = low := by
    decide +kernel
  exact hmark low h

theorem continuation_cons (remaining code low : ℕ) (rest : CString) (h : low < 64) :
    continuation (remaining + 1) code (UInt8.ofNat (low + 0x80) :: rest) =
      continuation remaining (code * 64 + low) rest := by
  have hbyte := continuation_byte low h
  rw [continuation, peek, if_neg (by simpa using hbyte.1), hbyte.2, List.tail_cons]

/-- A first byte above `0x7f` gives back how many bytes follow and the bits it carries. -/
theorem leadByte_encoded :
    (∀ code < 32, 2 ≤ code → ¬UInt8.ofNat (code + 0xc0) < 0x80 ∧
      leadByte (UInt8.ofNat (code + 0xc0)) = some (1, code)) ∧
      (∀ code < 16, ¬UInt8.ofNat (code + 0xe0) < 0x80 ∧
        leadByte (UInt8.ofNat (code + 0xe0)) = some (2, code)) ∧
        ∀ code < 5, ¬UInt8.ofNat (code + 0xf0) < 0x80 ∧
          leadByte (UInt8.ofNat (code + 0xf0)) = some (3, code) := by
  decide +kernel

/-- What the loop makes of one encoded character in front of `rest`. -/
theorem validUtf8Loop_encoded (fuel : ℕ) (character : Char) (rest : CString) :
    validUtf8Loop (fuel + 1) (String.utf8EncodeChar character ++ rest) =
      validUtf8Loop fuel rest := by
  have hvalid : character.val.toNat.isValidChar := character.valid
  generalize hcode : character.val.toNat = code at hvalid
  obtain ⟨htwo, hthree, hfour⟩ := leadByte_encoded
  have hsix : 0 < 0x40 := by decide
  simp only [String.utf8EncodeChar, hcode]
  by_cases hascii : code ≤ 0x7f
  · have hbyte : UInt8.ofNat code < 0x80 := by
      rw [UInt8.lt_iff_toNat_lt, UInt8.toNat_ofNat']
      simp only [UInt8.reduceToNat]
      omega
    rw [if_pos hascii, List.singleton_append, validUtf8Loop, if_pos hbyte]
  rw [if_neg hascii]
  by_cases hshort : code ≤ 0x7ff
  · obtain ⟨hbyte, hlead⟩ := htwo (code / 64 % 0x20) (by omega) (by omega)
    have hsum : code / 64 % 0x20 * 64 + code % 0x40 = code := by omega
    have hrange : codeRefused (1 + 1) code = false := by
      simp only [codeRefused, decide_eq_false_iff_not]
      omega
    rw [if_pos hshort, List.cons_append, List.singleton_append, validUtf8Loop, if_neg hbyte]
    simp only [hlead]
    rw [continuation_cons _ _ _ _ (Nat.mod_lt _ hsix), continuation, hsum]
    simp only [hrange, Bool.false_eq_true, if_false]
  rw [if_neg hshort]
  by_cases hbasic : code ≤ 0xffff
  · obtain ⟨hbyte, hlead⟩ := hthree (code / 4096 % 0x10) (by omega)
    have hsum : (code / 4096 % 0x10 * 64 + code / 64 % 0x40) * 64 + code % 0x40 = code := by
      omega
    have hrange : codeRefused (2 + 1) code = false := by
      simp only [Nat.isValidChar] at hvalid
      simp only [codeRefused, decide_eq_false_iff_not]
      omega
    rw [if_pos hbasic, List.cons_append, List.cons_append, List.singleton_append, validUtf8Loop,
      if_neg hbyte]
    simp only [hlead]
    rw [continuation_cons _ _ _ _ (Nat.mod_lt _ hsix),
      continuation_cons _ _ _ _ (Nat.mod_lt _ hsix), continuation, hsum]
    simp only [hrange, Bool.false_eq_true, if_false]
  · obtain ⟨hbyte, hlead⟩ := hfour (code / 262144 % 8) (by
      simp only [Nat.isValidChar] at hvalid
      omega)
    have hsum : ((code / 262144 % 8 * 64 + code / 4096 % 0x40) * 64 + code / 64 % 0x40) * 64 +
        code % 0x40 = code := by
      simp only [Nat.isValidChar] at hvalid
      omega
    have hrange : codeRefused (3 + 1) code = false := by
      simp only [Nat.isValidChar] at hvalid
      simp only [codeRefused, decide_eq_false_iff_not]
      omega
    rw [if_neg hbasic, List.cons_append, List.cons_append, List.cons_append,
      List.singleton_append, validUtf8Loop, if_neg hbyte]
    simp only [hlead]
    rw [continuation_cons _ _ _ _ (Nat.mod_lt _ hsix),
      continuation_cons _ _ _ _ (Nat.mod_lt _ hsix),
      continuation_cons _ _ _ _ (Nat.mod_lt _ hsix), continuation, hsum]
    simp only [hrange, Bool.false_eq_true, if_false]

theorem validUtf8Loop_nil (fuel : ℕ) : validUtf8Loop fuel [] = true := by
  cases fuel <;> rfl

theorem validUtf8Loop_complete (characters : List Char) (fuel : ℕ)
    (h : characters.length ≤ fuel) :
    validUtf8Loop fuel (characters.flatMap String.utf8EncodeChar) = true := by
  induction characters generalizing fuel with
  | nil => exact validUtf8Loop_nil fuel
  | cons character characters ih =>
      cases fuel with
      | zero => simp at h
      | succ fuel =>
          rw [List.flatMap_cons, validUtf8Loop_encoded]
          exact ih fuel (by simpa using h)

/-- Every character takes a byte at least. -/
theorem length_le_flatMap (characters : List Char) :
    characters.length ≤ (characters.flatMap String.utf8EncodeChar).length := by
  induction characters with
  | nil => simp
  | cons character characters ih =>
      have hsize := character.utf8Size_pos
      simp only [List.flatMap_cons, List.length_append, List.length_cons,
        String.length_utf8EncodeChar]
      omega

theorem validUtf8_iff (text : CString) : validUtf8 text = true ↔ Utf8 text := by
  refine ⟨validUtf8Loop_sound _ _, ?_⟩
  rintro ⟨characters, rfl⟩
  exact validUtf8Loop_complete characters _ (length_le_flatMap characters)

/-! ## Reading up to the terminator -/

/-- The inner loop stops at the terminator, whatever lies behind it. -/
theorem continuationIn_eq (remaining code : ℕ) (text beyond : CString)
    (htext : ∀ byte ∈ text, byte ≠ 0) :
    continuationIn remaining code (text ++ 0 :: beyond) =
      some ((continuation remaining code text).map fun result =>
        (result.1, result.2 ++ 0 :: beyond)) := by
  induction remaining generalizing code text with
  | zero => rfl
  | succ remaining ih =>
      cases text with
      | nil => rfl
      | cons byte text =>
          rw [List.cons_append, continuationIn, continuation, peek, List.tail_cons]
          by_cases hmark : byte &&& 0xc0 ≠ 0x80
          · rw [if_pos hmark, if_pos hmark, Option.map_none]
          · rw [if_neg hmark, if_neg hmark]
            exact ih _ text fun other hother => htext other (List.mem_cons_of_mem _ hother)

/-- What the inner loop leaves of the text is a part of it. -/
theorem continuation_suffix {remaining code result : ℕ} {text rest : CString}
    (h : continuation remaining code text = some (result, rest)) : rest <:+ text := by
  induction remaining generalizing code text with
  | zero =>
      cases h
      exact List.suffix_rfl
  | succ remaining ih =>
      obtain ⟨byte, after, rfl, _, hafter⟩ := continuation_one h
      exact (ih hafter).trans (List.suffix_cons byte after)

theorem validUtf8In_eq (fuel : ℕ) (text beyond : CString) (hfuel : text.length < fuel)
    (htext : ∀ byte ∈ text, byte ≠ 0) :
    validUtf8In fuel (text ++ 0 :: beyond) = some (validUtf8Loop fuel text) := by
  induction fuel generalizing text with
  | zero => simp at hfuel
  | succ fuel ih =>
      cases text with
      | nil => rfl
      | cons byte text =>
          have hrest : ∀ other ∈ text, other ≠ 0 := fun other hother =>
            htext other (List.mem_cons_of_mem _ hother)
          have hlength : text.length < fuel := by simpa using hfuel
          rw [List.cons_append, validUtf8In, validUtf8Loop,
            if_neg (htext byte (List.mem_cons_self ..))]
          by_cases hascii : byte < 0x80
          · rw [if_pos hascii, if_pos hascii]
            exact ih text hlength hrest
          rw [if_neg hascii, if_neg hascii]
          cases leadByte byte with
          | none => rfl
          | some lead =>
              simp only [continuationIn_eq _ _ text beyond hrest]
              cases hcontinuation : continuation lead.1 lead.2 text with
              | none => rfl
              | some result =>
                  have hsuffix := continuation_suffix hcontinuation
                  simp only [Option.map_some]
                  by_cases hrange : codeRefused (lead.1 + 1) result.1 = true
                  · rw [if_pos hrange, if_pos hrange]
                  · rw [if_neg hrange, if_neg hrange]
                    have hshorter := Nat.lt_of_le_of_lt hsuffix.length_le hlength
                    exact ih result.2 hshorter fun other hother =>
                      hrest other (hsuffix.subset hother)

/-- Fuel beyond the length of the text changes nothing. -/
theorem validUtf8Loop_fuel (fuel : ℕ) (text : CString) (h : text.length ≤ fuel) :
    validUtf8Loop fuel text = validUtf8 text := by
  rw [Bool.eq_iff_iff, validUtf8_iff]
  refine ⟨validUtf8Loop_sound fuel text, ?_⟩
  rintro ⟨characters, rfl⟩
  exact validUtf8Loop_complete characters fuel (Nat.le_trans (length_le_flatMap characters) h)

/-! ## Names -/

/-- A name the check accepts is a proper component. -/
theorem proper_of_validateFilename {name : CString} (h : safePathValidateFilename name = true) :
    ProperName name := by
  simp only [safePathValidateFilename, decide_eq_true_eq, not_or, List.all_eq_true,
    forbiddenByte, SAFE_PATH_NAME_BYTES] at h
  obtain ⟨⟨hempty, hlong, hdot, hdots⟩, hutf8, hbytes⟩ := h
  refine ⟨validUtf8Loop_sound _ _ hutf8, ⟨by omega, by omega⟩, fun byte hbyte => ?_, hdot, hdots⟩
  simpa using hbytes byte hbyte

theorem validateFilename_of_proper {name : CString} (h : ProperName name) :
    safePathValidateFilename name = true := by
  have hlength := h.length
  simp only [safePathValidateFilename, decide_eq_true_eq, not_or, List.all_eq_true,
    forbiddenByte, SAFE_PATH_NAME_BYTES]
  refine ⟨⟨by omega, by omega, h.dots⟩, (validUtf8_iff name).2 h.utf8, ?_⟩
  intro byte hbyte
  simpa using h.bytes byte hbyte

/-- `valid_utf8` answers whether the text is the encoding of Unicode characters, from the bytes
up to the terminator, and the file name check accepts the proper components. -/
theorem validateFilename_iff (text beyond : CString) (htext : ∀ byte ∈ text, byte ≠ 0) :
    validUtf8In (text.length + 1) (text ++ [0]) = some (validUtf8 text) ∧
      validUtf8In (text.length + 1) (text ++ 0 :: beyond) = some (validUtf8 text) ∧
        (validUtf8 text = true ↔ Utf8 text) ∧
          (safePathValidateFilename text = true ↔ ProperName text) := by
  have hread : ∀ after : CString,
      validUtf8In (text.length + 1) (text ++ 0 :: after) = some (validUtf8 text) := by
    intro after
    rw [validUtf8In_eq _ text after (Nat.lt_succ_self _) htext,
      validUtf8Loop_fuel _ text (Nat.le_succ _)]
  exact ⟨hread [], hread beyond, validUtf8_iff text, proper_of_validateFilename,
    validateFilename_of_proper⟩

/-- A snowman and a file type. -/
theorem validateFilename_snowman :
    let text : CString := [0xe2, 0x98, 0x83, 46, 116]
    (∀ byte ∈ text, byte ≠ 0) ∧ validUtf8In 6 (text ++ [0]) = some (validUtf8 text) ∧
      Utf8 text ∧ ProperName text := by
  intro text
  have htext : ∀ byte ∈ text, byte ≠ 0 := by simp [text]
  obtain ⟨hread, -, hutf8, hname⟩ := validateFilename_iff text [0x80] htext
  exact ⟨htext, hread, hutf8.1 (by decide +kernel), hname.1 (by decide +kernel)⟩

end LocalSend.SafePath
