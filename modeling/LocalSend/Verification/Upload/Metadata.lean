import LocalSend.Library.Json
import LocalSend.Verification.Decimal

/-! # The prepare request's grammar

A body is accepted exactly when it is one object with a name, a size, a type and perhaps a
hash, each given once, and then these are what is read.
-/

namespace LocalSend.Upload

open Braced Json SafePath
open Config (digitsValue)

variable {capacity number : ℕ} {input text rest : Bytes} {output value : CString}

/-! ## Strings -/

/-- How a string is written between its quotes: a byte for itself, or one of the three
escapes. -/
inductive Escaped : CString → Bytes → Prop where
  | nil : Escaped [] []
  | plain {byte value text} (hcontrol : 0x20 ≤ byte) (hquote : byte ≠ 34)
      (hbackslash : byte ≠ 92) (htext : Escaped value text) :
      Escaped (byte :: value) (byte :: text)
  | escape {byte value text} (hbyte : byte = 34 ∨ byte = 92 ∨ byte = 47)
      (htext : Escaped value text) : Escaped (byte :: value) (92 :: byte :: text)

theorem length_reverse_cons {byte : UInt8} (hroom : ¬capacity ≤ output.length + 1)
    (hlength : value ≠ [] → ((byte :: output).reverse ++ value).length < capacity) :
    ((byte :: output).reverse ++ value).length < capacity := by
  by_cases hempty : value = []
  · simp only [hempty, List.append_nil, List.length_reverse, List.length_cons]
    omega
  · exact hlength hempty

theorem jsonStringLoop_sound {read : CString}
    (h : jsonStringLoop capacity output input = some (read, rest)) :
    ∃ value text, read = output.reverse ++ value ∧ Escaped value text ∧
      input = text ++ 34 :: rest ∧ (value ≠ [] → read.length < capacity) := by
  fun_induction jsonStringLoop capacity output input with
  | case1 => cases h
  | case2 output rest =>
      cases h
      exact ⟨[], [], by simp, .nil, rfl, by simp⟩
  | case3 => cases h
  | case4 => cases h
  | case5 output byte rest hbyte ih =>
      simp only [not_or, not_and, not_le] at hbyte
      obtain ⟨value, text, rfl, htext, rfl, hlength⟩ := ih h
      refine ⟨byte :: value, 92 :: byte :: text, by simp, .escape ?_ htext, rfl, fun _ => ?_⟩
      · by_contra hnone
        simp only [not_or] at hnone
        exact hbyte.1 hnone.1 hnone.2.1 hnone.2.2
      · exact length_reverse_cons (not_le.mpr hbyte.2) hlength
  | case6 => cases h
  | case7 output byte rest hquote hend hescape hbyte ih =>
      simp only [not_or, UInt8.not_lt] at hbyte
      obtain ⟨value, text, rfl, htext, rfl, hlength⟩ := ih h
      refine ⟨byte :: value, byte :: text, by simp, .plain hbyte.1 ?_ ?_ htext, rfl, fun _ => ?_⟩
      · exact hquote
      · intro hbackslash
        obtain ⟨first, behind, hfirst⟩ := List.exists_cons_of_ne_nil (hend hbackslash)
        exact hescape first behind hbackslash hfirst
      · exact length_reverse_cons hbyte.2 hlength

theorem jsonStringLoop_complete (h : Escaped value text)
    (hlength : output.length + value.length < capacity) (rest : Bytes) :
    jsonStringLoop capacity output (text ++ 34 :: rest) =
      some (output.reverse ++ value, rest) := by
  induction h generalizing output with
  | nil => simp [jsonStringLoop]
  | @plain byte value text hcontrol hquote hbackslash htext ih =>
      simp only [List.length_cons] at hlength
      have hrest : jsonStringLoop capacity (byte :: output) (text ++ 34 :: rest) =
          some ((byte :: output).reverse ++ value, rest) := by
        apply ih
        simp only [List.length_cons]
        omega
      have hroom : ¬capacity ≤ output.length + 1 := by omega
      rw [List.cons_append, jsonStringLoop, if_neg, hrest]
      · simp
      · simp [hcontrol, hroom]
      all_goals simp [hquote, hbackslash]
  | @escape byte value text hbyte htext ih =>
      simp only [List.length_cons] at hlength
      have hrest : jsonStringLoop capacity (byte :: output) (text ++ 34 :: rest) =
          some ((byte :: output).reverse ++ value, rest) := by
        apply ih
        simp only [List.length_cons]
        omega
      have hroom : ¬capacity ≤ output.length + 1 := by omega
      rw [List.cons_append, List.cons_append, jsonStringLoop, if_neg, hrest]
      · simp
      · simp only [hroom, or_false]
        tauto

/-- The strings that are read: those that leave room for the terminator. -/
theorem jsonString_iff (hcapacity : 0 < capacity) :
    jsonString capacity input = some (value, rest) ↔
      ∃ text, Escaped value text ∧ value.length < capacity ∧ input = quoted text ++ rest := by
  constructor
  · intro h
    simp only [jsonString] at h
    split at h
    · obtain ⟨string, text, hvalue, htext, rfl, hlength⟩ := jsonStringLoop_sound h
      obtain rfl : value = string := by simpa using hvalue
      refine ⟨text, htext, ?_, by simp [quoted]⟩
      by_cases hempty : value = []
      · simpa [hempty] using hcapacity
      · exact hlength hempty
    · cases h
  · rintro ⟨text, htext, hlength, rfl⟩
    have hloop : jsonStringLoop capacity [] (text ++ 34 :: rest) = some ([] ++ value, rest) :=
      jsonStringLoop_complete htext (by simpa using hlength) rest
    simpa [quoted, jsonString] using hloop

/-! ## Numbers -/

/-- The value of digits read behind a number. -/
def digitsFrom (number : ℕ) (digits : CString) : ℕ :=
  digits.foldl (fun number byte => 10 * number + (byte.toNat - 48)) number

theorem le_digitsFrom (number : ℕ) (digits : CString) : number ≤ digitsFrom number digits := by
  induction digits generalizing number with
  | nil => exact le_rfl
  | cons byte digits ih =>
      have hrest := ih (10 * number + (byte.toNat - 48))
      simp only [digitsFrom, List.foldl_cons] at hrest ⊢
      omega

theorem jsonDigits_sound (h : jsonDigits number input = some (capacity, rest)) :
    ∃ digits, (∀ byte ∈ digits, isDigit byte = true) ∧ input = digits ++ rest ∧
      capacity = digitsFrom number digits ∧ (number < 2 ^ 64 → capacity < 2 ^ 64) := by
  induction input generalizing number with
  | nil =>
      cases h
      exact ⟨[], by simp, rfl, rfl, id⟩
  | cons byte input ih =>
      simp only [jsonDigits] at h
      split at h
      · rename_i hdigit
        split at h
        · cases h
        rename_i hroom
        obtain ⟨digits, hdigits, rfl, hvalue, hbound⟩ := ih h
        have hbyte := (isDigit_iff.mp hdigit).1
        refine ⟨byte :: digits, ?_, rfl, ?_, fun _ => hbound (by omega)⟩
        · simpa [hdigit] using hdigits
        · rw [hvalue, Nat.mul_comm]
          rfl
      · cases h
        exact ⟨[], by simp, rfl, rfl, id⟩

theorem jsonDigits_complete {digits : CString} (h : ∀ byte ∈ digits, isDigit byte = true)
    (hbound : digitsFrom number digits < 2 ^ 64)
    (hrest : ∀ byte ∈ rest.head?, isDigit byte = false) :
    jsonDigits number (digits ++ rest) = some (digitsFrom number digits, rest) := by
  induction digits generalizing number with
  | nil =>
      cases rest with
      | nil => rfl
      | cons byte rest => simp [jsonDigits, hrest byte rfl, digitsFrom]
  | cons byte digits ih =>
      have hdigit := h byte (List.mem_cons_self ..)
      have hle := le_digitsFrom (10 * number + (byte.toNat - 48)) digits
      have hread : jsonDigits (10 * number + (byte.toNat - 48)) (digits ++ rest) =
          some (digitsFrom (10 * number + (byte.toNat - 48)) digits, rest) :=
        ih (fun other hmem => h other (List.mem_cons_of_mem _ hmem)) hbound
      have hroom : ¬(2 ^ 64 - 1 - (byte.toNat - 48)) / 10 < number := by
        have hbyte := (isDigit_iff.mp hdigit).1
        have hlt := lt_of_le_of_lt hle hbound
        omega
      rw [List.cons_append, jsonDigits, if_pos hdigit, if_neg hroom, Nat.mul_comm, hread]
      rfl

/-- The numbers that are read: 64-bit values without a leading zero. -/
theorem jsonU64_sound (h : jsonU64 input = some (number, rest)) :
    input = decimal number ++ rest ∧ number < 2 ^ 64 := by
  simp only [jsonU64] at h
  split at h
  · cases h
  rename_i read left hread
  obtain ⟨digits, hdigits, rfl, hvalue, hbound⟩ := jsonDigits_sound hread
  rw [List.length_append, Nat.add_sub_cancel] at h
  split at h
  · cases h
  split at h
  · cases h
  rename_i hne hleading
  cases h
  have hnumeral : Numeral digits := by
    refine ⟨hdigits, fun hnil => hne (by simp [hnil]), fun hlength hhead => ?_⟩
    obtain ⟨after, rfl⟩ := List.head?_eq_some_iff.mp hhead
    exact hleading ⟨hlength, rfl⟩
  have hprinted : decimal (digitsFrom 0 digits) = digits := decimal_digitsValue hnumeral
  rw [hvalue, hprinted]
  exact ⟨rfl, hvalue ▸ hbound (by decide)⟩

theorem jsonU64_complete (h : number < 2 ^ 64)
    (hrest : ∀ byte ∈ rest.head?, isDigit byte = false) :
    jsonU64 (decimal number ++ rest) = some (number, rest) := by
  have hnumeral := numeral_decimal number
  have hvalue : digitsFrom 0 (decimal number) = number := digitsValue_decimal number
  have hread : jsonDigits 0 (decimal number ++ rest) =
      some (digitsFrom 0 (decimal number), rest) :=
    jsonDigits_complete hnumeral.digits (by rwa [hvalue]) hrest
  rw [hvalue] at hread
  have hpeek : 1 < (decimal number).length → peek (decimal number ++ rest) ≠ 48 := by
    intro hlength
    have hhead := hnumeral.leading hlength
    cases hdigits : decimal number with
    | nil => exact absurd hdigits hnumeral.ne_nil
    | cons first digits => simpa [hdigits, peek] using hhead
  have hlength := List.length_pos_of_ne_nil hnumeral.ne_nil
  simp only [jsonU64, hread, List.length_append, Nat.add_sub_cancel]
  rw [if_neg (by omega), if_neg fun hzero => hpeek hzero.1 hzero.2]

/-! ## Members -/

/-- A member of the object. -/
inductive Member where
  | name (value : CString)
  | size (value : ℕ)
  | type (value : CString)
  | sha256 (value : CString)
  deriving DecidableEq

def Member.key : Member → CString
  | .name _ => nameKey
  | .size _ => sizeKey
  | .type _ => typeKey
  | .sha256 _ => sha256Key

/-- How a member's value is written: a string, or the digits of a number. -/
def Member.Value : Member → Bytes → Prop
  | .size value, text => text = decimal value
  | .name value, text => ∃ string, Escaped value string ∧ text = quoted string
  | .type value, text => ∃ string, Escaped value string ∧ text = quoted string
  | .sha256 value, text => ∃ string, Escaped value string ∧ text = quoted string

/-- The text of a member: its key, a colon and its value. -/
def Member.Text (member : Member) (text : Bytes) : Prop :=
  ∃ key value, Escaped member.key key ∧ member.Value value ∧ Entry (quoted key) value text

/-- What the scanners of the values take. -/
def Member.allowed : Member → Bool
  | .name value => value.length ≤ SAFE_PATH_NAME_BYTES
  | .size value => value < 2 ^ 64
  | .type value => value.length < 128
  | .sha256 value => value.length = SHA256_HEX_BYTES ∧ value.all isLowerHex

/-- The member held under a key. -/
def Members.get (members : Members) (key : CString) : Option Member :=
  if key = nameKey then members.name.map .name
  else if key = sizeKey then members.size.map .size
  else if key = typeKey then members.type.map .type
  else if key = sha256Key then members.sha256.map .sha256
  else none

def Members.put (members : Members) : Member → Members
  | .name value => { members with name := some value }
  | .size value => { members with size := some value }
  | .type value => { members with type := some value }
  | .sha256 value => { members with sha256 := some value }

/-- A member is taken when it is allowed and the first of its key. -/
def Members.store (members : Members) (member : Member) : Option Members :=
  if member.allowed ∧ (members.get member.key).isNone then some (members.put member) else none

variable {members next : Members} {member : Member} {key : CString}

/-- The members by their keys. -/
@[simp] theorem get_keys :
    members.get nameKey = members.name.map .name ∧ members.get sizeKey = members.size.map .size ∧
      members.get typeKey = members.type.map .type ∧
      members.get sha256Key = members.sha256.map .sha256 := ⟨rfl, rfl, rfl, rfl⟩

theorem store_once :
    Once Member.key Members.get Members.put (·.allowed = true) Members.store := by
  constructor
  · intro members next member
    rw [Members.store]
    split
    · rename_i htaken
      constructor
      · intro h
        exact ⟨htaken.1, by simpa using htaken.2, (Option.some.inj h).symm⟩
      · rintro ⟨-, -, rfl⟩
        rfl
    · rename_i hrefused
      constructor
      · intro h
        cases h
      · rintro ⟨hallowed, hfree, -⟩
        exact absurd ⟨hallowed, by simp [hfree]⟩ hrefused
  · intro members member place
    cases member <;> simp only [Members.get, Members.put, Member.key] <;> split_ifs <;>
      simp_all [nameKey, sizeKey, typeKey, sha256Key]

/-- A value is read under the key of a member that can still be stored. -/
theorem parseValue_sound (h : parseValue members key input = some (next, rest)) :
    ∃ member value, key = member.key ∧ member.Value value ∧ input = value ++ rest ∧
      members.store member = some next := by
  simp only [parseValue] at h
  split at h
  · rename_i hkey
    obtain ⟨⟨value, left⟩, hread, hresult⟩ := Option.map_eq_some_iff.mp h
    cases hresult
    obtain ⟨string, hstring, hlength, hinput⟩ := (jsonString_iff (by decide)).mp hread
    refine ⟨.name value, quoted string, hkey.1, ⟨string, hstring, rfl⟩, hinput, ?_⟩
    have hallowed : value.length ≤ SAFE_PATH_NAME_BYTES := by omega
    simpa [Members.store, Member.allowed, Member.key, Members.put, hallowed] using hkey.2
  split at h
  · rename_i hkey
    obtain ⟨⟨value, left⟩, hread, hresult⟩ := Option.map_eq_some_iff.mp h
    cases hresult
    obtain ⟨hinput, hbound⟩ := jsonU64_sound hread
    refine ⟨.size value, decimal value, hkey.1, rfl, hinput, ?_⟩
    have hallowed : (Member.size value).allowed = true := by simpa [Member.allowed] using hbound
    simpa [Members.store, hallowed, Member.key, Members.put] using hkey.2
  split at h
  · rename_i hkey
    obtain ⟨⟨value, left⟩, hread, hresult⟩ := Option.map_eq_some_iff.mp h
    cases hresult
    obtain ⟨string, hstring, hlength, hinput⟩ := (jsonString_iff (by decide)).mp hread
    refine ⟨.type value, quoted string, hkey.1, ⟨string, hstring, rfl⟩, hinput, ?_⟩
    simpa [Members.store, Member.allowed, Member.key, Members.put, hlength] using hkey.2
  split at h
  · rename_i hkey
    split at h
    · cases h
    rename_i value left hread
    split at h
    · cases h
    rename_i hhash
    cases h
    obtain ⟨string, hstring, -, hinput⟩ := (jsonString_iff (by decide)).mp hread
    refine ⟨.sha256 value, quoted string, hkey.1, ⟨string, hstring, rfl⟩, hinput, ?_⟩
    simp only [not_or, not_not] at hhash
    simpa [Members.store, Member.allowed, Member.key, Members.put, hhash] using hkey.2
  · cases h

theorem parseValue_complete {text : Bytes} (hvalue : member.Value text)
    (hstore : members.store member = some next)
    (hrest : ∀ byte ∈ rest.head?, isDigit byte = false) :
    parseValue members member.key (text ++ rest) = some (next, rest) := by
  obtain ⟨hallowed, hfree, rfl⟩ := store_once.store_iff.mp hstore
  cases member with
  | name value =>
      obtain ⟨string, hstring, rfl⟩ := hvalue
      have hlength : value.length < SAFE_PATH_NAME_BYTES + 1 := by
        simpa [Member.allowed, Nat.lt_succ_iff] using hallowed
      have hread := (jsonString_iff (by decide)).mpr
        ⟨string, hstring, hlength, (rfl : quoted string ++ rest = _)⟩
      have hnone : members.name = none := by simpa [Member.key] using hfree
      simp [parseValue, Member.key, hnone, hread, Members.put]
  | size value =>
      cases hvalue
      have hbound : value < 2 ^ 64 := by simpa [Member.allowed] using hallowed
      have hread := jsonU64_complete hbound hrest
      have hnone : members.size = none := by simpa [Member.key] using hfree
      simp [parseValue, Member.key, nameKey, sizeKey, hnone, hread, Members.put]
  | type value =>
      obtain ⟨string, hstring, rfl⟩ := hvalue
      have hlength : value.length < 128 := by simpa [Member.allowed] using hallowed
      have hread := (jsonString_iff (by decide)).mpr
        ⟨string, hstring, hlength, (rfl : quoted string ++ rest = _)⟩
      have hnone : members.type = none := by simpa [Member.key] using hfree
      simp [parseValue, Member.key, nameKey, sizeKey, typeKey, hnone, hread, Members.put]
  | sha256 value =>
      obtain ⟨string, hstring, rfl⟩ := hvalue
      have hhash : value.length = SHA256_HEX_BYTES ∧ value.all isLowerHex = true := by
        simpa [Member.allowed] using hallowed
      have hread := (jsonString_iff (by decide)).mpr ⟨string, hstring,
        (by omega : value.length < SHA256_HEX_BYTES + 1), (rfl : quoted string ++ rest = _)⟩
      have hnone : members.sha256 = none := by simpa [Member.key] using hfree
      simp [parseValue, Member.key, nameKey, sizeKey, typeKey, sha256Key, hnone, hread,
        Members.put, hhash]

theorem skipWs_eq (input : Bytes) : skipWs input = marks.skip input := by
  induction input with
  | nil => rfl
  | cons byte input ih =>
      by_cases hblank : byte = 32 ∨ byte = 9 ∨ byte = 10 ∨ byte = 13
      · have hmark : marks.blank byte = true := by simpa [marks, isBlank] using hblank
        simp [skipWs, hblank, ih, Marks.skip, hmark]
      · have hmark : marks.blank byte = false := by simpa [marks, isBlank] using hblank
        simp [skipWs, hblank, skip_symbol hmark]

theorem Member.Value.first {text : Bytes} (h : member.Value text) :
    ∃ byte after, text = byte :: after ∧ marks.blank byte = false := by
  have hstring : (∃ string, text = quoted string) → ∃ byte after, text = byte :: after ∧
      marks.blank byte = false := by
    rintro ⟨string, rfl⟩
    exact ⟨34, _, rfl, rfl⟩
  cases member with
  | name value =>
      obtain ⟨string, -, htext⟩ := h
      exact hstring ⟨string, htext⟩
  | size value =>
      cases h
      obtain ⟨byte, after, hdigits⟩ := List.exists_cons_of_ne_nil (decimal_ne_nil value)
      refine ⟨byte, after, hdigits, ?_⟩
      have hdigit := decimal_digits value byte (by simp [hdigits])
      revert hdigit
      simp only [isDigit, marks, isBlank, decide_eq_true_eq, decide_eq_false_iff_not]
      rintro ⟨hlow, -⟩ (rfl | rfl | rfl | rfl)
      all_goals exact absurd hlow (by decide)
  | type value =>
      obtain ⟨string, -, htext⟩ := h
      exact hstring ⟨string, htext⟩
  | sha256 value =>
      obtain ⟨string, -, htext⟩ := h
      exact hstring ⟨string, htext⟩

theorem Member.key_length (member : Member) : member.key.length < 16 := by
  cases member <;> simp [Member.key, nameKey, sizeKey, typeKey, sha256Key]

/-- No digit follows a value, whose end is the end of its text. -/
theorem stops_digit (h : marks.Stops rest) : ∀ byte ∈ rest.head?, isDigit byte = false := by
  obtain ⟨symbol, after, rfl, hsymbol⟩ := stops_head h
  intro byte hbyte
  obtain rfl : symbol = byte := by simpa using hbyte
  rcases hsymbol with rfl | rfl | rfl | rfl | rfl | rfl <;> decide

theorem parseMember_reads : Reads marks Member.Text Members.store parseMember := by
  constructor
  · intro members next input rest h
    simp only [parseMember, skipWs_eq] at h
    split at h
    · cases h
    rename_i key behind hread
    obtain ⟨string, hstring, -, rfl⟩ := (jsonString_iff (by decide)).mp hread
    split at h
    · rename_i after hcolon
      obtain ⟨member, value, rfl, hvalue, hafter, hstore⟩ := parseValue_sound h
      obtain ⟨before, hbefore, hbehind⟩ := skip_split marks behind
      obtain ⟨blanks, hblanks, hskip⟩ := skip_split marks after
      refine ⟨member, _, ⟨string, value, hstring, hvalue, .mk hbefore hblanks⟩, ?_, hstore⟩
      rw [hbehind, hcolon, hskip, hafter]
      simp
    · cases h
  · rintro members next member text rest ⟨string, value, hstring, hvalue, hentry⟩ hstore hstop
    cases hentry with
    | @mk before after hbefore hafter =>
        have hkey : jsonString 16 (quoted string ++ (before ++ 58 :: (after ++ (value ++ rest)))) =
            some (member.key, before ++ 58 :: (after ++ (value ++ rest))) :=
          (jsonString_iff (by decide)).mpr ⟨string, hstring, member.key_length, rfl⟩
        obtain ⟨hcolon, hblanks⟩ := skip_colon hbefore hafter (value ++ rest)
        have hskip : marks.skip (value ++ rest) = value ++ rest := by
          obtain ⟨byte, behind, rfl, hbyte⟩ := hvalue.first
          exact skip_symbol hbyte _
        have hread := parseValue_complete hvalue hstore (stops_digit hstop)
        simp only [List.append_assoc, List.cons_append, parseMember, skipWs_eq, hkey, hcolon,
          hblanks, hskip, hread]
  · rintro member text ⟨string, value, -, -, hentry⟩
    exact hentry.first

/-! ## The object -/

theorem head?_ne {symbol : UInt8} (h : ∀ rest, input ≠ symbol :: rest) :
    input.head? ≠ some symbol := by
  intro hhead
  obtain ⟨rest, hrest⟩ := List.head?_eq_some_iff.mp hhead
  exact h rest hrest

theorem parseMembers_eq (fuel : ℕ) (members : Members) (input : Bytes) :
    parseMembers fuel members input = readMembers marks parseMember fuel members input := by
  have hcomma : marks.comma = 44 := rfl
  have hclosing : marks.closing = 125 := rfl
  induction fuel generalizing members input with
  | zero => rfl
  | succ fuel ih =>
      simp only [parseMembers, readMembers, skipWs_eq, ih, hcomma, hclosing]
      split
      · rename_i rest hend
        simp [hend]
      rename_i hend
      rw [if_neg (head?_ne fun rest => hend rest)]
      split
      · rename_i hmember
        rw [hmember]
      rename_i stored left hmember
      rw [hmember]
      simp only
      split
      · rename_i rest hleft
        simp only [hleft, List.head?_cons, if_true, List.tail_cons]
        split
        · rename_i hempty
          simp [hempty]
        · rename_i after hbrace
          simp [hbrace]
        · rename_i hempty hbrace
          rw [if_neg]
          rintro (hnil | hhead)
          · exact hempty hnil
          · exact head?_ne (fun rest => hbrace rest) hhead
      · rename_i rest hleft
        simp [hleft]
      · rename_i hnone hbrace
        rw [if_neg (head?_ne fun rest => hnone rest), if_neg (head?_ne fun rest => hbrace rest)]

/-- The checks behind the loop, on the members it read. -/
def Members.metadata : Members → Option Metadata
  | ⟨some name, some size, some type, sha256⟩ =>
      if safePathValidateFilename name ∧ ¬managedPartName name ∧ type ≠ [] then
        some ⟨name, size, sha256.getD []⟩
      else none
  | _ => none

theorem metadata_iff {metadata : Metadata} : members.metadata = some metadata ↔
    members.name = some metadata.name ∧ members.size = some metadata.size ∧
      (∃ type, members.type = some type ∧ type ≠ []) ∧
      metadata.expectedHash = members.sha256.getD [] ∧
      safePathValidateFilename metadata.name = true ∧ managedPartName metadata.name = false := by
  constructor
  · intro h
    unfold Members.metadata at h
    split at h
    · split at h
      · rename_i hchecks
        cases h
        exact ⟨rfl, rfl, ⟨_, rfl, hchecks.2.2⟩, rfl, hchecks.1, by simpa using hchecks.2.1⟩
      · cases h
    · cases h
  · obtain ⟨name, size, type, sha256⟩ := members
    rintro ⟨hname, hsize, ⟨text, htype, hne⟩, hhash, hvalid, hmanaged⟩
    dsimp only at hname hsize htype hhash
    subst hname hsize htype
    simp [Members.metadata, hvalid, hmanaged, hne, ← hhash]

theorem parseMetadata_eq (json : Bytes) : parseMetadata json =
    (readObject marks parseMember ⟨none, none, none, none⟩ json).bind Members.metadata := by
  have hopening : marks.opening = 123 := rfl
  simp only [parseMetadata, readObject, skipWs_eq, hopening]
  split
  · rename_i rest hrest
    simp only [hrest, List.head?_cons, if_true, List.tail_cons, List.length_cons,
      parseMembers_eq]
    cases readMembers marks parseMember (rest.length + 1) ⟨none, none, none, none⟩ rest with
    | none => rfl
    | some result =>
        obtain ⟨⟨name, size, type, sha256⟩, after⟩ := result
        by_cases hend : marks.skip after = []
        · cases name <;> cases size <;> cases type <;> simp [hend, Members.metadata]
        · cases name <;> cases size <;> cases type <;> simp [hend]
  · rename_i hnone
    rw [if_neg (head?_ne fun rest => hnone rest)]
    rfl

/-- The members a body may have, and what is read from them: each key once, a name that may
be stored, a size of 64 bits, a type of 1 to 127 bytes, and perhaps a hash. -/
structure Accepts (members : List Member) (metadata : Metadata) : Prop where
  distinct : (members.map Member.key).Nodup
  name : .name metadata.name ∈ members
  size : .size metadata.size ∈ members
  size_lt : metadata.size < 2 ^ 64
  type : ∃ type, .type type ∈ members ∧ 1 ≤ type.length ∧ type.length ≤ 127
  hash : ∀ hash, .sha256 hash ∈ members →
    hash.length = SHA256_HEX_BYTES ∧ hash.all isLowerHex = true ∧ metadata.expectedHash = hash
  noHash : (∀ hash, .sha256 hash ∉ members) → metadata.expectedHash = []
  valid : safePathValidateFilename metadata.name = true
  unmanaged : managedPartName metadata.name = false

section Accepted

variable {items : List Member} {metadata : Metadata}

theorem get_none (place : CString) : Members.get ⟨none, none, none, none⟩ place = none := by
  simp [Members.get]

/-- The fields hold what the members say. -/
theorem held (hfold : items.foldlM Members.store ⟨none, none, none, none⟩ = some members)
    (member : Member) : members.get member.key = some member ↔ member ∈ items := by
  have hget : members.get member.key = some member ↔ member ∈ items ∧ member.key = member.key :=
    store_once.get_iff get_none hfold
  simpa using hget

theorem accepts_of_store
    (hfold : items.foldlM Members.store ⟨none, none, none, none⟩ = some members)
    (hmetadata : members.metadata = some metadata) : Accepts items metadata := by
  obtain ⟨hallowed, hkeys, -⟩ := store_once.foldlM_iff.mp hfold
  have hget := held hfold
  obtain ⟨hname, hsize, ⟨type, htype, hne⟩, hhash, hvalid, hmanaged⟩ :=
    metadata_iff.mp hmetadata
  have hnameMem : .name metadata.name ∈ items := (hget _).mp (by simp [Member.key, hname])
  have hsizeMem : .size metadata.size ∈ items := (hget _).mp (by simp [Member.key, hsize])
  have htypeMem : .type type ∈ items := (hget _).mp (by simp [Member.key, htype])
  refine ⟨hkeys, hnameMem, hsizeMem, by simpa [Member.allowed] using (hallowed _ hsizeMem).1,
    ⟨type, htypeMem, List.length_pos_of_ne_nil hne, ?_⟩, ?_, ?_, hvalid, hmanaged⟩
  · have hlength := (hallowed _ htypeMem).1
    simp only [Member.allowed, decide_eq_true_eq] at hlength
    omega
  · intro hash hmem
    have hstored : members.sha256 = some hash := by simpa [Member.key] using (hget _).mpr hmem
    have hform : hash.length = SHA256_HEX_BYTES ∧ hash.all isLowerHex = true := by
      simpa [Member.allowed] using (hallowed _ hmem).1
    exact ⟨hform.1, hform.2, by rw [hhash, hstored, Option.getD_some]⟩
  · intro habsent
    cases hstored : members.sha256 with
    | none => rw [hhash, hstored, Option.getD_none]
    | some hash =>
        exact absurd ((hget (.sha256 hash)).mp (by simp [Member.key, hstored])) (habsent hash)

theorem Accepts.allowed (h : Accepts items metadata) {member : Member} (hmem : member ∈ items) :
    member.allowed = true := by
  have hsame : ∀ {other}, other ∈ items → member.key = other.key → member = other :=
    fun hother hkey => List.inj_on_of_nodup_map h.distinct hmem hother hkey
  cases member with
  | name value =>
      cases hsame h.name rfl
      have hvalid := h.valid
      simp only [safePathValidateFilename, decide_eq_true_eq] at hvalid
      have hlength : metadata.name.length ≤ SAFE_PATH_NAME_BYTES := by
        by_contra hlong
        exact hvalid.1 (.inr (.inl (by omega)))
      simpa [Member.allowed] using hlength
  | size value =>
      cases hsame h.size rfl
      simpa [Member.allowed] using h.size_lt
  | type value =>
      obtain ⟨type, htype, -, hlength⟩ := h.type
      cases hsame htype rfl
      simp only [Member.allowed, decide_eq_true_eq]
      omega
  | sha256 value =>
      obtain ⟨hlength, hhex, -⟩ := h.hash value hmem
      simp [Member.allowed, hlength, hhex]

theorem Accepts.store (h : Accepts items metadata) : ∃ members,
    items.foldlM Members.store ⟨none, none, none, none⟩ = some members ∧
      members.metadata = some metadata := by
  have hfold : items.foldlM Members.store ⟨none, none, none, none⟩ =
      some (items.foldl Members.put ⟨none, none, none, none⟩) :=
    store_once.foldlM_iff.mpr
      ⟨fun member hmem => ⟨h.allowed hmem, get_none _⟩, h.distinct, rfl⟩
  refine ⟨_, hfold, ?_⟩
  generalize items.foldl Members.put ⟨none, none, none, none⟩ = members at hfold
  have hget := held hfold
  obtain ⟨type, htype, hpos, -⟩ := h.type
  refine metadata_iff.mpr ⟨?_, ?_, ⟨type, ?_, List.ne_nil_of_length_pos hpos⟩, ?_, h.valid,
    h.unmanaged⟩
  · simpa [Member.key] using (hget _).mpr h.name
  · simpa [Member.key] using (hget _).mpr h.size
  · simpa [Member.key] using (hget _).mpr htype
  · cases hstored : members.sha256 with
    | none =>
        refine h.noHash fun hash hmem => ?_
        have hfound := (hget _).mpr hmem
        simp [Member.key, hstored] at hfound
    | some hash =>
        have hmem : .sha256 hash ∈ items := (hget _).mp (by simp [Member.key, hstored])
        exact (h.hash hash hmem).2.2

/-- The bodies that are accepted, and what is read from each. -/
theorem parseMetadata_iff (json : Bytes) (metadata : Metadata) :
    parseMetadata json = some metadata ↔
      ∃ members, Object marks Member.Text members json ∧ Accepts members metadata := by
  rw [parseMetadata_eq, Option.bind_eq_some_iff]
  constructor
  · rintro ⟨fields, hread, hmetadata⟩
    obtain ⟨members, hobject, hfold⟩ := (readObject_iff parseMember_reads).mp hread
    exact ⟨members, hobject, accepts_of_store hfold hmetadata⟩
  · rintro ⟨members, hobject, haccepts⟩
    obtain ⟨fields, hfold, hmetadata⟩ := haccepts.store
    exact ⟨fields, (readObject_iff parseMember_reads).mpr ⟨members, hobject, hfold⟩, hmetadata⟩

end Accepted

end LocalSend.Upload
