import LocalSend.Verification.Decimal
import LocalSend.Verification.FileName
import Mathlib.Data.List.GetD

/-! # Names that are not taken

What `safe_path_unique_name` chooses when the requested name exists: the first numbered name
that does not, with as much of the stem as fits and ends with a character.
-/

namespace LocalSend.SafePath

open Upload (isDigit)

variable {text rest requested stem extension front name : CString} {size keep number : ℕ}

/-! ## Boundaries of characters -/

/-- A continuation byte. -/
def Continues (byte : UInt8) : Prop := byte &&& 0xc0 = 0x80

instance (byte : UInt8) : Decidable (Continues byte) :=
  inferInstanceAs (Decidable (byte &&& 0xc0 = 0x80))

/-- One encoded character: a first byte that says how many continuation bytes follow. -/
inductive Encoded : CString → Prop where
  | one {byte} (hbyte : byte < 0x80) : Encoded [byte]
  | more {byte rest lead} (hbyte : ¬byte < 0x80)
      (hlead : leadByte byte = some (rest.length, lead)) (hfirst : ¬Continues byte)
      (hrest : ∀ other ∈ rest, Continues other) : Encoded (byte :: rest)

theorem continues_low (codes : List ℕ) :
    ∀ byte ∈ codes.map fun code => UInt8.ofNat (code % 0x40 + 0x80), Continues byte := by
  intro byte hbyte
  obtain ⟨code, -, rfl⟩ := List.mem_map.mp hbyte
  exact (continuation_byte _ (Nat.mod_lt _ (by decide))).1

/-- No first byte continues a character. -/
theorem lead_continues :
    (∀ code < 32, ¬Continues (UInt8.ofNat (code + 0xc0))) ∧
      (∀ code < 16, ¬Continues (UInt8.ofNat (code + 0xe0))) ∧
        ∀ code < 8, ¬Continues (UInt8.ofNat (code + 0xf0)) := by
  decide +kernel

theorem encoded_char (character : Char) : Encoded (String.utf8EncodeChar character) := by
  have hvalid : character.val.toNat.isValidChar := character.valid
  generalize hcode : character.val.toNat = code at hvalid
  obtain ⟨htwo, hthree, hfour⟩ := leadByte_encoded
  obtain ⟨hctwo, hcthree, hcfour⟩ := lead_continues
  simp only [String.utf8EncodeChar, hcode]
  split
  · apply Encoded.one
    rw [UInt8.lt_iff_toNat_lt, UInt8.toNat_ofNat']
    simp only [UInt8.reduceToNat]
    omega
  split
  · obtain ⟨hbyte, hlead⟩ := htwo (code / 64 % 0x20) (by omega) (by omega)
    exact .more hbyte hlead (hctwo _ (by omega)) (continues_low [code])
  split
  · obtain ⟨hbyte, hlead⟩ := hthree (code / 4096 % 0x10) (by omega)
    exact .more hbyte hlead (hcthree _ (by omega)) (continues_low [code / 64, code])
  · obtain ⟨hbyte, hlead⟩ := hfour (code / 262144 % 8) (by
      simp only [Nat.isValidChar] at hvalid
      omega)
    exact .more hbyte hlead (hcfour _ (by omega)) (continues_low [code / 4096, code / 64, code])

/-- A loop that has taken its continuation bytes had them. -/
theorem continuation_length {remaining code result : ℕ}
    (h : continuation remaining code text = some (result, rest)) :
    text.length = remaining + rest.length := by
  induction remaining generalizing code text with
  | zero =>
      cases h
      simp
  | succ remaining ih =>
      obtain ⟨byte, after, rfl, -, hafter⟩ := continuation_one h
      have hlength := ih hafter
      rw [List.length_cons]
      omega

/-- A part of a character is no text. -/
theorem Encoded.not_utf8 (h : Encoded text) (hpos : 0 < keep) (hkeep : keep < text.length) :
    ¬Utf8 (text.take keep) := by
  cases h with
  | one hbyte =>
      simp only [List.length_singleton] at hkeep
      omega
  | @more byte rest lead hbyte hlead hfirst hrest =>
      obtain ⟨keep, rfl⟩ := Nat.exists_eq_succ_of_ne_zero (n := keep) (by omega)
      rw [← validUtf8_iff, List.take_succ_cons, validUtf8, List.length_cons, validUtf8Loop,
        if_neg hbyte]
      simp only [hlead]
      cases hcontinuation : continuation rest.length lead (rest.take keep) with
      | none => simp
      | some result =>
          have hlength := continuation_length hcontinuation
          simp only [List.length_take, List.length_cons] at hlength hkeep
          omega

/-- Text behind a character is text if both are. -/
theorem utf8_append_char (character : Char) (text : CString) :
    Utf8 (String.utf8EncodeChar character ++ text) ↔ Utf8 text := by
  rw [← validUtf8_iff, ← validUtf8_iff,
    ← validUtf8Loop_fuel ((String.utf8EncodeChar character ++ text).length + 1) _ (Nat.le_succ _),
    validUtf8Loop_encoded, validUtf8Loop_fuel _ text]
  rw [List.length_append]
  omega

/-- Text behind text is text if both are. -/
theorem utf8_append (hfront : Utf8 front) : Utf8 (front ++ text) ↔ Utf8 text := by
  obtain ⟨characters, rfl⟩ := hfront
  induction characters with
  | nil => simp
  | cons character characters ih =>
      rw [List.flatMap_cons, List.append_assoc, utf8_append_char, ih]

theorem Encoded.getD_zero (h : Encoded text) : ¬Continues (text.getD 0 0) := by
  cases h with
  | @one byte hbyte =>
      have hascii : ∀ value < 128, ¬Continues (UInt8.ofNat value) := by decide +kernel
      have hvalue := hascii byte.toNat (by simpa [UInt8.lt_iff_toNat_lt] using hbyte)
      simpa using hvalue
  | more hbyte hlead hfirst hrest => exact hfirst

theorem Encoded.getD_pos (h : Encoded text) (hpos : 0 < keep) (hkeep : keep < text.length) :
    Continues (text.getD keep 0) := by
  cases h with
  | one hbyte =>
      simp only [List.length_singleton] at hkeep
      omega
  | @more byte rest lead hbyte hlead hfirst hrest =>
      obtain ⟨keep, rfl⟩ := Nat.exists_eq_succ_of_ne_zero (n := keep) (by omega)
      have hinside : keep < rest.length := by simpa using hkeep
      rw [List.getD_cons_succ, List.getD_eq_getElem _ _ hinside]
      exact hrest _ (List.getElem_mem hinside)

/-- A text may be cut exactly where no continuation byte follows. -/
theorem utf8_take (h : Utf8 text) (hkeep : keep < text.length) :
    Utf8 (text.take keep) ↔ ¬Continues (text.getD keep 0) := by
  obtain ⟨characters, rfl⟩ := h
  induction characters generalizing keep with
  | nil => simp at hkeep
  | cons character characters ih =>
      have hencoded := encoded_char character
      rw [List.flatMap_cons] at hkeep ⊢
      generalize hchar : String.utf8EncodeChar character = bytes at hencoded hkeep ⊢
      by_cases hinside : keep < bytes.length
      · rw [List.take_append_of_le_length hinside.le, List.getD_append _ _ _ _ hinside]
        rcases Nat.eq_zero_or_pos keep with rfl | hpos
        · simp only [List.take_zero, hencoded.getD_zero, not_false_eq_true, iff_true]
          exact ⟨[], rfl⟩
        · exact iff_of_false (hencoded.not_utf8 hpos hinside)
            (not_not.mpr (hencoded.getD_pos hpos hinside))
      · rw [List.getD_append_right _ _ _ _ (Nat.le_of_not_lt hinside), List.take_append,
          List.take_of_length_le (Nat.le_of_not_lt hinside), ← hchar, utf8_append_char, hchar]
        apply ih
        rw [List.length_append] at hkeep
        omega

/-! ## Stem and extension -/

/-- The extension starts at the last dot that does not lead the name, if there is one. -/
structure Extension (requested stem extension : CString) : Prop where
  split : requested = stem ++ extension
  stem_ne : stem ≠ []
  dotted : (extension = [] ∧ 46 ∉ requested.tail) ∨
    ∃ rest, extension = 46 :: rest ∧ 46 ∉ rest

theorem splitExtension_dot {before after : CString} (h : 46 ∉ after) :
    splitExtension (before ++ 46 :: after) =
      if before = [] then (46 :: after, []) else (before, 46 :: after) := by
  have hreverse : 46 ∉ after.reverse := by simpa using h
  have hposition : (before ++ 46 :: after).reverse.idxOf 46 = after.length := by
    rw [List.reverse_append, List.reverse_cons, List.append_assoc,
      List.idxOf_append_of_notMem hreverse]
    simp
  have hstem : (before ++ 46 :: after).length - 1 - after.length = before.length := by
    simp only [List.length_append, List.length_cons]
    omega
  have hsome : ¬after.length = (before ++ 46 :: after).length := by
    simp only [List.length_append, List.length_cons]
    omega
  simp only [splitExtension, hposition, hstem, hsome, false_or, List.take_left, List.drop_left]
  by_cases hempty : before = []
  · simp [hempty]
  · simp [hempty]

theorem splitExtension_plain (h : 46 ∉ requested) : splitExtension requested = (requested, []) := by
  have hposition : requested.reverse.idxOf 46 = requested.length := by
    rw [List.idxOf_eq_length (by simpa using h), List.length_reverse]
  simp only [splitExtension, hposition, true_or, if_true]

theorem extension_splitExtension (h : requested ≠ []) :
    Extension requested (splitExtension requested).1 (splitExtension requested).2 := by
  by_cases hdot : 46 ∈ requested.reverse
  · obtain ⟨after, before, hsplit, hafter⟩ := List.eq_append_cons_of_mem hdot
    obtain rfl : requested = before.reverse ++ 46 :: after.reverse := by
      rw [← List.reverse_reverse requested, hsplit]
      simp
    have hafter : 46 ∉ after.reverse := by simpa using hafter
    rw [splitExtension_dot hafter]
    by_cases hempty : before.reverse = []
    · rw [if_pos hempty, hempty]
      exact ⟨by simp, by simp, .inl ⟨rfl, hafter⟩⟩
    · rw [if_neg hempty]
      exact ⟨rfl, hempty, .inr ⟨_, rfl, hafter⟩⟩
  · have hplain : 46 ∉ requested := by simpa using hdot
    rw [splitExtension_plain hplain]
    exact ⟨by simp, h, .inl ⟨rfl, fun hmem => hplain (List.mem_of_mem_tail hmem)⟩⟩

/-- There is one way to split a name. -/
theorem Extension.eq (h : Extension requested stem extension) :
    splitExtension requested = (stem, extension) := by
  obtain ⟨rfl, hne, ⟨rfl, htail⟩ | ⟨rest, rfl, hrest⟩⟩ := h
  · rw [List.append_nil] at htail ⊢
    cases stem with
    | nil => exact absurd rfl hne
    | cons first rest =>
        by_cases hdot : first = 46
        · subst hdot
          exact @splitExtension_dot [] rest htail
        · exact splitExtension_plain (by simpa [Ne.symm hdot] using htail)
  · rw [splitExtension_dot hrest, if_neg hne]

/-! ## Candidates -/

/-- The numbered name: a prefix of the stem, the number, the extension. The prefix is the longest
that ends with a character and leaves the name no longer than a file name may be. -/
structure Candidate (requested : CString) (number : ℕ) (name : CString) : Prop where
  parts : ∃ stem extension front, Extension requested stem extension ∧
    name = front ++ suffixText number ++ extension ∧ front <+: stem ∧ Utf8 front ∧
      name.length ≤ SAFE_PATH_NAME_BYTES ∧
        ∀ longer, longer <+: stem → Utf8 longer →
          (longer ++ suffixText number ++ extension).length ≤ SAFE_PATH_NAME_BYTES →
            longer.length ≤ front.length

/-- Number and extension leave room for a byte of the stem. -/
def Roomy (requested : CString) (number : ℕ) : Prop :=
  (suffixText number).length + (splitExtension requested).2.length < SAFE_PATH_NAME_BYTES

theorem Candidate.unique {other : CString} (h : Candidate requested number name)
    (hother : Candidate requested number other) : name = other := by
  obtain ⟨stem, extension, front, hextension, rfl, hfront, hutf8, hlength, hlongest⟩ := h.parts
  obtain ⟨stem', extension', front', hextension', rfl, hfront', hutf8', hlength', hlongest'⟩ :=
    hother.parts
  obtain ⟨rfl, rfl⟩ := Prod.mk.inj (hextension.eq.symm.trans hextension'.eq)
  have hsame : front = front' := by
    apply (List.prefix_of_prefix_length_le hfront hfront'
      (hlongest' front hfront hutf8 hlength)).eq_of_length
    exact Nat.le_antisymm (hlongest' front hfront hutf8 hlength)
      (hlongest front' hfront' hutf8' hlength')
  rw [hsame]

/-- What the loop that looks for a boundary has passed over. -/
theorem boundary_spec (requested : CString) (stemSize keep : ℕ) :
    boundary requested stemSize keep ≤ keep ∧
      (0 < boundary requested stemSize keep → boundary requested stemSize keep < stemSize →
        ¬Continues (requested.getD (boundary requested stemSize keep) 0)) ∧
      ∀ longer, boundary requested stemSize keep < longer → longer ≤ keep →
        longer < stemSize ∧ Continues (requested.getD longer 0) := by
  induction keep with
  | zero =>
      refine ⟨Nat.le_refl 0, fun hpos => absurd hpos (Nat.lt_irrefl 0), fun longer hlow hhigh => ?_⟩
      omega
  | succ keep ih =>
      rw [boundary]
      split
      · rename_i hcut
        refine ⟨by omega, ih.2.1, fun longer hlow hhigh => ?_⟩
        by_cases hlast : longer = keep + 1
        · subst hlast
          exact hcut
        · exact ih.2.2 longer hlow (by omega)
      · rename_i hcut
        refine ⟨Nat.le_refl _, fun _ hinside hcontinues => hcut ⟨hinside, hcontinues⟩,
          fun longer hlow hhigh => ?_⟩
        omega

/-! ## The parts are text -/

/-- The stem ends with a character, and the extension starts with one. -/
theorem Extension.utf8 (h : Extension requested stem extension) (hutf8 : Utf8 requested) :
    Utf8 stem ∧ Utf8 extension := by
  have hstem : Utf8 stem := by
    obtain ⟨rfl, -, ⟨rfl, -⟩ | ⟨rest, rfl, -⟩⟩ := h
    · rwa [List.append_nil] at hutf8
    · have hinside : stem.length < (stem ++ 46 :: rest).length := by
        rw [List.length_append, List.length_cons]
        omega
      have hdot : ¬Continues ((stem ++ 46 :: rest).getD stem.length 0) := by
        rw [List.getD_append_right _ _ _ _ (Nat.le_refl _), Nat.sub_self, List.getD_cons_zero]
        decide
      simpa using (utf8_take hutf8 hinside).mpr hdot
  exact ⟨hstem, (utf8_append hstem).mp (h.split ▸ hutf8)⟩

theorem suffixText_bytes (number : ℕ) : ∀ byte ∈ suffixText number,
    0x20 ≤ byte ∧ byte < 0x7f ∧ byte ≠ 47 ∧ byte ≠ 92 ∧ byte ≠ 37 := by
  have hdigit : ∀ value < 10, 0x20 ≤ UInt8.ofNat (48 + value) ∧ UInt8.ofNat (48 + value) < 0x7f ∧
      UInt8.ofNat (48 + value) ≠ 47 ∧ UInt8.ofNat (48 + value) ≠ 92 ∧
        UInt8.ofNat (48 + value) ≠ 37 := by
    decide +kernel
  intro byte hbyte
  simp only [suffixText, List.mem_append, List.mem_cons, List.not_mem_nil, or_false] at hbyte
  rcases hbyte with ((rfl | rfl) | hbyte) | rfl
  · decide
  · decide
  · obtain ⟨hvalue, hbyte, -⟩ := isDigit_iff.mp (decimal_digits number byte hbyte)
    rw [hbyte]
    exact hdigit _ hvalue
  · decide

theorem suffixText_utf8 (number : ℕ) : Utf8 (suffixText number) := by
  apply utf8_ascii
  intro byte hbyte
  have hhigh := (suffixText_bytes number byte hbyte).2.1
  rw [UInt8.lt_iff_toNat_lt] at hhigh ⊢
  exact Nat.lt_trans hhigh (by decide)

/-- What is put together from parts of a proper name and a number is one, if it is short. -/
theorem proper_numbered (h : ProperName requested) (hextension : Extension requested stem extension)
    (hfront : front <+: stem) (hutf8 : Utf8 front)
    (hlength : (front ++ suffixText number ++ extension).length ≤ SAFE_PATH_NAME_BYTES) :
    ProperName (front ++ suffixText number ++ extension) := by
  have hspace : 32 ∈ front ++ suffixText number ++ extension := by simp [suffixText]
  refine ⟨?_, ⟨List.length_pos_of_mem hspace, hlength⟩, ?_, ?_, ?_⟩
  · rw [List.append_assoc, utf8_append hutf8, utf8_append (suffixText_utf8 number)]
    exact (hextension.utf8 h.utf8).2
  · intro byte hbyte
    simp only [List.mem_append] at hbyte
    rcases hbyte with (hbyte | hbyte) | hbyte
    · apply h.bytes
      rw [hextension.split]
      exact List.mem_append_left _ (hfront.subset hbyte)
    · obtain ⟨hlow, hhigh, hmarks⟩ := suffixText_bytes number byte hbyte
      refine ⟨hlow, ?_, hmarks⟩
      rintro rfl
      exact absurd hhigh (by decide)
    · apply h.bytes
      rw [hextension.split]
      exact List.mem_append_right _ hbyte
  · intro hdot
    rw [hdot] at hspace
    exact absurd hspace (by decide)
  · intro hdots
    rw [hdots] at hspace
    exact absurd hspace (by decide)

/-- With room for a byte of the stem the candidate is the one the rule describes. -/
theorem candidate_roomy (h : ProperName requested) (hroomy : Roomy requested number) :
    ∃ name, candidate requested number = some name ∧ Candidate requested number name ∧
      ProperName name := by
  have hne : requested ≠ [] := List.ne_nil_of_length_pos h.length.1
  have hextension := extension_splitExtension hne
  rw [Roomy] at hroomy
  cases hsplit : splitExtension requested with
  | mk stem extension =>
      rw [hsplit] at hextension hroomy
      dsimp only at hextension hroomy
      obtain ⟨hstemText, -⟩ := hextension.utf8 h.utf8
      have htake : ∀ count ≤ stem.length, requested.take count = stem.take count := by
        intro count hcount
        rw [hextension.split, List.take_append_of_le_length hcount]
      have hbyte : ∀ place < stem.length, requested.getD place 0 = stem.getD place 0 := by
        intro place hplace
        rw [hextension.split, List.getD_append _ _ _ _ hplace]
      generalize hkeep : min (SAFE_PATH_NAME_BYTES - (suffixText number).length -
        extension.length) stem.length = keep
      obtain ⟨hle, hstop, hpassed⟩ := boundary_spec requested stem.length keep
      generalize hcut : boundary requested stem.length keep = cut at hle hstop hpassed
      have hinside : cut ≤ stem.length := by omega
      have hfront : Utf8 (stem.take cut) := by
        rcases Nat.eq_zero_or_pos cut with rfl | hpos
        · exact ⟨[], rfl⟩
        rcases Nat.lt_or_eq_of_le hinside with hless | heq
        · rw [utf8_take hstemText hless, ← hbyte cut hless]
          exact hstop hpos hless
        · rwa [heq, List.take_length]
      have hlength : (stem.take cut ++ suffixText number ++ extension).length ≤
          SAFE_PATH_NAME_BYTES := by
        simp only [List.length_append, List.length_take]
        omega
      refine ⟨stem.take cut ++ suffixText number ++ extension, ?_, ⟨stem, extension,
        stem.take cut, hextension, rfl, List.take_prefix _ _, hfront, hlength, ?_⟩,
        proper_numbered h hextension (List.take_prefix _ _) hfront hlength⟩
      · simp only [candidate, hsplit]
        rw [if_neg (by omega), hkeep, hcut, htake cut hinside]
      · intro longer hlonger hutf8 hfits
        simp only [List.length_append] at hfits
        rw [List.length_take, Nat.min_eq_left hinside]
        apply Nat.le_of_not_lt
        intro hlow
        have hshort := hlonger.length_le
        obtain ⟨hless, hcontinues⟩ := hpassed longer.length hlow (by omega)
        rw [hbyte _ hless] at hcontinues
        rw [List.prefix_iff_eq_take.mp hlonger, utf8_take hstemText hless] at hutf8
        exact hutf8 hcontinues

/-! ## The search -/

/-- A longer number leaves no more room. -/
theorem Roomy.mono {larger : ℕ} (h : Roomy requested larger) (hle : number ≤ larger) :
    Roomy requested number := by
  have hdigits : (decimal number).length ≤ (decimal larger).length := by
    simp only [decimal, List.length_map]
    rw [Nat.length_toDigits_le_iff (by decide) Nat.length_toDigits_pos]
    exact Nat.lt_of_le_of_lt hle
      ((Nat.length_toDigits_le_iff (by decide) Nat.length_toDigits_pos).mp (Nat.le_refl _))
  simp only [Roomy, suffixText, List.length_append] at h ⊢
  omega

variable {directory output : CString} {absent : CString → Bool} {existing : Set CString}

theorem safePathJoin_proper (hdirectory : directory.length + 1 + SAFE_PATH_NAME_BYTES <
    SAFE_PATH_FULL_BYTES) (h : ProperName name) :
    safePathJoin directory name [] SAFE_PATH_FULL_BYTES = (directory ++ 47 :: name, true) := by
  have hlength : (directory ++ 47 :: name).length < SAFE_PATH_FULL_BYTES := by
    have hname := h.length.2
    simp only [List.length_append, List.length_cons]
    simp only [SAFE_PATH_NAME_BYTES] at hdirectory
    omega
  rw [safePathJoin, if_neg (by simp [validateFilename_of_proper h]), printInto,
    List.take_of_length_le (by omega)]
  simpa using hlength

/-- The numbers from `first` on, `count` of them, are tried in turn up to one that is absent. -/
theorem uniqueSuffix_spec (h : ProperName requested)
    (hdirectory : directory.length + 1 + SAFE_PATH_NAME_BYTES < SAFE_PATH_FULL_BYTES)
    (habsent : ∀ name, absent (directory ++ 47 :: name) = true ↔ name ∉ existing)
    (count first : ℕ) (output : CString) :
    ((uniqueSuffix directory requested absent count first output).2 = true →
      ∃ number, first ≤ number ∧ number < first + count ∧
        Candidate requested number (uniqueSuffix directory requested absent count first output).1 ∧
        ProperName (uniqueSuffix directory requested absent count first output).1 ∧
        (uniqueSuffix directory requested absent count first output).1 ∉ existing ∧
        ∀ earlier, first ≤ earlier → earlier < number →
          ∀ name, Candidate requested earlier name → name ∈ existing) ∧
    ((uniqueSuffix directory requested absent count first output).2 = false →
      ∀ number, first ≤ number → number < first + count → Roomy requested number →
        ∀ name, Candidate requested number name → name ∈ existing) := by
  induction count generalizing first output with
  | zero =>
      refine ⟨fun hfound => Bool.noConfusion hfound, fun _ number hlow hhigh => ?_⟩
      omega
  | succ count ih =>
      by_cases hroomy : Roomy requested first
      · obtain ⟨name, hcandidate, hname, hproper⟩ := candidate_roomy h hroomy
        have hvalid := validateFilename_of_proper hproper
        rw [uniqueSuffix, hcandidate]
        simp only [hvalid, not_true_eq_false, if_false, safePathJoin_proper hdirectory hproper]
        by_cases hfree : absent (directory ++ 47 :: name) = true
        · rw [if_pos hfree]
          refine ⟨fun _ => ⟨first, Nat.le_refl _, by omega, hname, hproper,
            (habsent name).mp hfree, fun earlier hlow hhigh => ?_⟩,
            fun hfound => Bool.noConfusion hfound⟩
          omega
        · rw [if_neg hfree]
          have htaken : name ∈ existing := by
            by_contra hnot
            exact hfree ((habsent name).mpr hnot)
          have hfirst : ∀ other, Candidate requested first other → other ∈ existing := by
            intro other hother
            rwa [hother.unique hname]
          obtain ⟨hfound, hnone⟩ := ih (first + 1) name
          constructor
          · intro hresult
            obtain ⟨number, hlow, hhigh, hspec, hrest, hnew, hearlier⟩ := hfound hresult
            refine ⟨number, by omega, by omega, hspec, hrest, hnew, fun earlier hle hless => ?_⟩
            rcases Nat.eq_or_lt_of_le hle with rfl | hlater
            · exact hfirst
            · exact hearlier earlier hlater hless
          · intro hresult number hle hless hroom
            rcases Nat.eq_or_lt_of_le hle with rfl | hlater
            · exact hfirst
            · exact hnone hresult number hlater (by omega) hroom
      · have hcandidate : candidate requested first = none := by
          rw [Roomy] at hroomy
          cases hsplit : splitExtension requested with
          | mk stem extension =>
              rw [hsplit] at hroomy
              simp only [candidate, hsplit]
              rw [if_pos (Nat.le_of_not_lt hroomy)]
        rw [uniqueSuffix, hcandidate]
        refine ⟨fun hfound => Bool.noConfusion hfound, fun _ number hlow _ hroom => ?_⟩
        exact absurd (hroom.mono hlow) hroomy

/-- The chosen name is the requested one if that is free, or else the first numbered one that is;
none is chosen only if each numbered one with room for a byte of the stem is taken. -/
theorem safePathUniqueName_spec (directory requested output : CString)
    (absent : CString → Bool) (existing : Set CString)
    (hrequested : safePathValidateFilename requested = true)
    (hdirectory : directory.length + 1 + SAFE_PATH_NAME_BYTES < SAFE_PATH_FULL_BYTES)
    (habsent : ∀ name, absent (directory ++ 47 :: name) = true ↔ name ∉ existing) :
    let result := safePathUniqueName directory requested output absent
    (result.2 = true → ProperName result.1 ∧ result.1 ∉ existing ∧
      (requested ∉ existing → result.1 = requested) ∧
      (requested ∈ existing → ∃ number, 1 ≤ number ∧ number ≤ 9999 ∧
        Candidate requested number result.1 ∧
          ∀ earlier, 1 ≤ earlier → earlier < number →
            ∀ name, Candidate requested earlier name → name ∈ existing)) ∧
    (result.2 = false → requested ∈ existing ∧
      ∀ number, 1 ≤ number → number ≤ 9999 → Roomy requested number →
        ∀ name, Candidate requested number name → name ∈ existing) := by
  have h := proper_of_validateFilename hrequested
  dsimp only
  rw [safePathUniqueName, if_neg (by simp [hrequested]), safePathJoin_proper hdirectory h]
  simp only [not_true_eq_false, if_false]
  by_cases hfree : absent (directory ++ 47 :: requested) = true
  · have hnew := (habsent requested).mp hfree
    rw [if_pos hfree]
    exact ⟨fun _ => ⟨h, hnew, fun _ => rfl, fun htaken => absurd htaken hnew⟩,
      fun hnone => Bool.noConfusion hnone⟩
  · have htaken : requested ∈ existing := by
      by_contra hnot
      exact hfree ((habsent requested).mpr hnot)
    rw [if_neg hfree]
    obtain ⟨hfound, hnone⟩ := uniqueSuffix_spec h hdirectory habsent 9999 1 output
    constructor
    · intro hresult
      obtain ⟨number, hlow, hhigh, hspec, hproper, hnew, hearlier⟩ := hfound hresult
      exact ⟨hproper, hnew, fun hnot => absurd htaken hnot,
        fun _ => ⟨number, hlow, by omega, hspec, hearlier⟩⟩
    · intro hresult
      exact ⟨htaken, fun number hlow hhigh => hnone hresult number hlow (by omega)⟩

/-! A folder with one file in it, whose extension may take up all of the name but one byte. -/
namespace Sample

def folder : CString := [47, 100]

/-- Only this file exists. -/
def allBut (taken path : CString) : Bool := path ≠ folder ++ 47 :: taken

theorem allBut_iff (taken name : CString) :
    allBut taken (folder ++ 47 :: name) = true ↔ name ∉ ({taken} : Set CString) := by
  simp [allBut]

def shortName : CString := [97, 46, 120]
def longType : CString := 46 :: List.replicate 250 120
def longName : CString := 97 :: longType

end Sample

open Sample in
theorem safePathUniqueName_numbered : ∃ number name, Candidate shortName number name ∧
    ProperName name ∧ name ≠ shortName ∧
      safePathUniqueName folder shortName [] (allBut shortName) = (name, true) := by
  have hspec := safePathUniqueName_spec folder shortName [] (allBut shortName) {shortName}
    (by decide +kernel) (by decide) (allBut_iff shortName)
  have hfound : (safePathUniqueName folder shortName [] (allBut shortName)).2 = true := by
    decide +kernel
  obtain ⟨hproper, hnew, -, hnumbered⟩ := hspec.1 hfound
  obtain ⟨number, -, -, hcandidate, -⟩ := hnumbered rfl
  exact ⟨number, _, hcandidate, hproper, hnew, Prod.ext rfl hfound⟩

open Sample in
/-- The number and a long extension fill the name: it would fit without a stem, and is not
tried. -/
theorem safePathUniqueName_long :
    (safePathUniqueName folder longName [] (allBut longName)).2 = false ∧
      ∃ name, Candidate longName 1 name ∧ name ∉ ({longName} : Set CString) := by
  refine ⟨by decide +kernel, suffixText 1 ++ longType, ⟨[97], longType, [], ?_, rfl,
    List.nil_prefix, ⟨[], rfl⟩, by decide +kernel, ?_⟩, by decide +kernel⟩
  · exact ⟨rfl, by decide, .inr ⟨_, rfl, by decide +kernel⟩⟩
  · intro longer _ _ hfits
    have hfull : (suffixText 1).length + longType.length = SAFE_PATH_NAME_BYTES := by
      decide +kernel
    simp only [List.length_append] at hfits
    rw [List.length_nil]
    omega

end LocalSend.SafePath
