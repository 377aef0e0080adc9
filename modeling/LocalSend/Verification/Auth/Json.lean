import LocalSend.Model.AuthJson

/-! # The verify request's grammar

A body is accepted exactly when it is one object of a challenge id and a PIN, in either
order, both plain strings.
-/

namespace LocalSend.Auth

open Braced Json
open Upload (isDigit)

variable {capacity : ℕ} {input text rest : Bytes} {output key value : CString}
  {fields next : VerifyFields}

/-! ## Strings -/

theorem literalLoop_sound (h : literalLoop capacity output input = some (value, rest)) :
    ∃ text, value = output.reverse ++ text ∧ Plain text ∧ input = text ++ 34 :: rest ∧
      (text ≠ [] → value.length < capacity) := by
  induction input generalizing output with
  | nil => cases h
  | cons byte input ih =>
      simp only [literalLoop] at h
      split at h
      · rename_i hquote
        cases h
        exact ⟨[], by simp, by simp [Plain], by simp [hquote], by simp⟩
      split at h
      · cases h
      rename_i hquote hbyte
      simp only [not_or, not_le, UInt8.not_lt] at hbyte
      obtain ⟨text, rfl, hplain, rfl, hlength⟩ := ih h
      refine ⟨byte :: text, by simp, ?_, rfl, fun _ => ?_⟩
      · intro symbol hmem
        rcases List.mem_cons.mp hmem with rfl | hmem
        · exact ⟨hbyte.1, hquote, hbyte.2.1⟩
        · exact hplain symbol hmem
      · cases text with
        | nil =>
            have hroom := hbyte.2.2
            simp only [List.reverse_cons, List.append_nil, List.length_append,
              List.length_reverse, List.length_singleton]
            omega
        | cons symbol text => exact hlength (by simp)

theorem literalLoop_complete (h : Plain text)
    (hlength : output.length + text.length < capacity) (rest : Bytes) :
    literalLoop capacity output (text ++ 34 :: rest) = some (output.reverse ++ text, rest) := by
  induction text generalizing output with
  | nil => simp [literalLoop]
  | cons byte text ih =>
      obtain ⟨hcontrol, hquote, hbackslash⟩ := h byte (List.mem_cons_self ..)
      have hroom : ¬capacity ≤ output.length + 1 := by
        simp only [List.length_cons] at hlength
        omega
      have hrest : literalLoop capacity (byte :: output) (text ++ 34 :: rest) =
          some ((byte :: output).reverse ++ text, rest) := by
        apply ih fun symbol hmem => h symbol (List.mem_cons_of_mem _ hmem)
        simp only [List.length_cons] at hlength ⊢
        omega
      rw [List.cons_append, literalLoop, if_neg hquote, if_neg, hrest]
      · simp
      · simp [hcontrol, hbackslash, hroom]

/-- The strings the parser reads: plain ones that leave room for the terminator. -/
theorem parseLiteralString_iff (hcapacity : 0 < capacity) :
    parseLiteralString capacity input = some (value, rest) ↔
      Plain value ∧ value.length < capacity ∧ input = quoted value ++ rest := by
  constructor
  · intro h
    cases input with
    | nil => cases h
    | cons byte input =>
        simp only [parseLiteralString] at h
        split at h
        · rename_i hquote
          obtain ⟨text, rfl, hplain, rfl, hlength⟩ := literalLoop_sound h
          refine ⟨hplain, ?_, by simp [quoted, hquote]⟩
          by_cases hempty : value = []
          · simpa [hempty] using hcapacity
          · exact hlength hempty
        · cases h
  · rintro ⟨hplain, hlength, rfl⟩
    have hloop : literalLoop capacity [] (value ++ 34 :: rest) = some ([] ++ value, rest) :=
      literalLoop_complete hplain (by simpa using hlength) rest
    simpa [quoted, parseLiteralString] using hloop

/-! ## Members -/

/-- A member of the object. -/
inductive VerifyMember where
  | challengeId (value : CString)
  | pin (value : CString)
  deriving DecidableEq

/-- The text of a member: its key and its value, both plain strings. -/
def VerifyMember.Text : VerifyMember → Bytes → Prop
  | .challengeId value, text => Plain value ∧ Entry (quoted challengeIdKey) (quoted value) text
  | .pin value, text => Plain value ∧ Entry (quoted pinKey) (quoted value) text

/-- Which values are taken, each once. -/
def VerifyFields.store (fields : VerifyFields) : VerifyMember → Option VerifyFields
  | .challengeId value => storeMember fields challengeIdKey value
  | .pin value => storeMember fields pinKey value

theorem storeMember_key (h : storeMember fields key value = some next) :
    key = challengeIdKey ∨ key = pinKey := by
  simp only [storeMember] at h
  split at h
  · rename_i hchallenge
    exact .inl hchallenge.1
  split at h
  · rename_i hpin
    exact .inr hpin.1
  · cases h

theorem storeMember_length (h : storeMember fields key value = some next) :
    value.length < AUTH_CHALLENGE_ID_HEX_BYTES + 1 := by
  simp only [storeMember] at h
  split at h
  · rename_i hchallenge
    omega
  split at h
  · rename_i hpin
    rw [hpin.2.2]
    decide
  · cases h

/-- A member's text is read up to the end of its value. -/
theorem verifyMember_iff : verifyMember fields input = some (next, rest) ↔
    ∃ key value text, Plain key ∧ Plain value ∧ key.length < 16 ∧
      Entry (quoted key) (quoted value) text ∧ input = text ++ rest ∧
      storeMember fields key value = some next := by
  constructor
  · intro h
    simp only [verifyMember, skipSpace] at h
    split at h
    · cases h
    rename_i key behind hkey
    obtain ⟨hplainKey, hlengthKey, rfl⟩ := (parseLiteralString_iff (by decide)).mp hkey
    split at h
    · rename_i after hcolon
      split at h
      · cases h
      rename_i value left hvalue
      obtain ⟨hplain, hlength, hafter⟩ := (parseLiteralString_iff (by decide)).mp hvalue
      obtain ⟨stored, hstore, hresult⟩ := Option.map_eq_some_iff.mp h
      cases hresult
      obtain ⟨before, hbefore, hbehind⟩ := skip_split marks behind
      obtain ⟨blanks, hblanks, hskip⟩ := skip_split marks after
      refine ⟨key, value, _, hplainKey, hplain, hlengthKey, .mk hbefore hblanks, ?_, hstore⟩
      rw [hbehind, hcolon, hskip, hafter]
      simp
    · cases h
  · rintro ⟨key, value, text, hplainKey, hplain, hlengthKey, hentry, rfl, hstore⟩
    cases hentry with
    | @mk before after hbefore hafter =>
        have hkey : parseLiteralString 16 (quoted key ++ (before ++ 58 :: (after ++
            (quoted value ++ rest)))) = some (key, before ++ 58 :: (after ++
              (quoted value ++ rest))) :=
          (parseLiteralString_iff (by decide)).mpr ⟨hplainKey, hlengthKey, rfl⟩
        have hvalue : parseLiteralString (AUTH_CHALLENGE_ID_HEX_BYTES + 1)
            (quoted value ++ rest) = some (value, rest) :=
          (parseLiteralString_iff (by decide)).mpr ⟨hplain, storeMember_length hstore, rfl⟩
        obtain ⟨hcolon, hblanks⟩ := skip_colon hbefore hafter (quoted value ++ rest)
        simp only [List.append_assoc, List.cons_append, verifyMember, skipSpace, hkey, hcolon,
          hblanks, skip_quoted, hvalue, hstore, Option.map_some]

theorem plain_challengeIdKey : Plain challengeIdKey := by
  simp only [Plain, challengeIdKey]
  decide +kernel

theorem plain_pinKey : Plain pinKey := by
  simp only [Plain, pinKey]
  decide +kernel

theorem verifyMember_reads :
    Reads marks VerifyMember.Text VerifyFields.store verifyMember := by
  constructor
  · intro fields next input rest h
    obtain ⟨key, value, text, -, hplain, -, hentry, hinput, hstore⟩ := verifyMember_iff.mp h
    rcases storeMember_key hstore with rfl | rfl
    · exact ⟨.challengeId value, text, ⟨hplain, hentry⟩, hinput, hstore⟩
    · exact ⟨.pin value, text, ⟨hplain, hentry⟩, hinput, hstore⟩
  · intro fields next item text rest htext hstore _
    cases item with
    | challengeId value =>
        exact verifyMember_iff.mpr
          ⟨_, _, text, plain_challengeIdKey, htext.1, by decide, htext.2, rfl, hstore⟩
    | pin value =>
        exact verifyMember_iff.mpr
          ⟨_, _, text, plain_pinKey, htext.1, by decide, htext.2, rfl, hstore⟩
  · intro item text htext
    cases item with
    | challengeId value => exact htext.2.first
    | pin value => exact htext.2.first

/-! ## The object -/

/-- The values that may be stored: 32 bytes, or six digits. -/
def VerifyMember.Allowed : VerifyMember → Prop
  | .challengeId value => value.length = AUTH_CHALLENGE_ID_HEX_BYTES
  | .pin value => value.length = AUTH_PIN_DIGITS ∧ ∀ byte ∈ value, isDigit byte = true

/-- What one member does: it needs its own field to be empty, and fills it. -/
theorem store_iff {item : VerifyMember} : fields.store item = some next ↔ item.Allowed ∧
    ((∃ value, item = .challengeId value ∧ fields.challengeId = none ∧
        next = { fields with challengeId := some value }) ∨
      ∃ value, item = .pin value ∧ fields.pin = none ∧
        next = { fields with pin := some value }) := by
  cases item with
  | challengeId value =>
      simp [VerifyFields.store, storeMember, VerifyMember.Allowed, challengeIdKey, pinKey]
      tauto
  | pin value =>
      simp [VerifyFields.store, storeMember, VerifyMember.Allowed, challengeIdKey, pinKey]
      tauto

/-- Once both fields are filled nothing more is taken. -/
theorem store_full {challengeId pin : CString} (item : VerifyMember) :
    VerifyFields.store ⟨some challengeId, some pin⟩ item = none := by
  cases hstore : VerifyFields.store ⟨some challengeId, some pin⟩ item with
  | none => rfl
  | some next =>
      obtain ⟨-, ⟨_, -, hempty, -⟩ | ⟨_, -, hempty, -⟩⟩ := store_iff.mp hstore
      · cases hempty
      · cases hempty

theorem foldlM_full {challengeId pin : CString} {items : List VerifyMember}
    (h : items.foldlM VerifyFields.store ⟨some challengeId, some pin⟩ = some next) :
    items = [] ∧ next = ⟨some challengeId, some pin⟩ := by
  cases items with
  | nil => exact ⟨rfl, (Option.some.inj h).symm⟩
  | cons item items => simp [store_full] at h

/-- The members that fill both fields, in the order they come in. -/
theorem foldlM_store_iff {challengeId pin : CString} {items : List VerifyMember} :
    items.foldlM VerifyFields.store ⟨none, none⟩ = some ⟨some challengeId, some pin⟩ ↔
      (items = [.challengeId challengeId, .pin pin] ∨
        items = [.pin pin, .challengeId challengeId]) ∧
      (VerifyMember.challengeId challengeId).Allowed ∧ (VerifyMember.pin pin).Allowed := by
  constructor
  · intro h
    cases items with
    | nil => cases h
    | cons first items =>
        rw [List.foldlM_cons] at h
        obtain ⟨one, hone, h⟩ := Option.bind_eq_some_iff.mp h
        cases items with
        | nil =>
            cases h
            obtain ⟨-, ⟨_, -, -, hnext⟩ | ⟨_, -, -, hnext⟩⟩ := store_iff.mp hone
            · cases hnext
            · cases hnext
        | cons second items =>
            rw [List.foldlM_cons] at h
            obtain ⟨two, htwo, h⟩ := Option.bind_eq_some_iff.mp h
            obtain ⟨hfirst, ⟨_, rfl, -, rfl⟩ | ⟨_, rfl, -, rfl⟩⟩ := store_iff.mp hone
            · obtain ⟨hsecond, ⟨_, -, hempty, -⟩ | ⟨_, rfl, -, rfl⟩⟩ := store_iff.mp htwo
              · cases hempty
              · obtain ⟨rfl, hnext⟩ := foldlM_full h
                cases hnext
                exact ⟨.inl rfl, hfirst, hsecond⟩
            · obtain ⟨hsecond, ⟨_, rfl, -, rfl⟩ | ⟨_, -, hempty, -⟩⟩ := store_iff.mp htwo
              · obtain ⟨rfl, hnext⟩ := foldlM_full h
                cases hnext
                exact ⟨.inr rfl, hsecond, hfirst⟩
              · cases hempty
  · rintro ⟨rfl | rfl, hchallenge, hpin⟩
    · have hone : VerifyFields.store ⟨none, none⟩ (.challengeId challengeId) =
          some ⟨some challengeId, none⟩ := store_iff.mpr ⟨hchallenge, .inl ⟨_, rfl, rfl, rfl⟩⟩
      have htwo : VerifyFields.store ⟨some challengeId, none⟩ (.pin pin) =
          some ⟨some challengeId, some pin⟩ := store_iff.mpr ⟨hpin, .inr ⟨_, rfl, rfl, rfl⟩⟩
      simp [hone, htwo]
    · have hone : VerifyFields.store ⟨none, none⟩ (.pin pin) = some ⟨none, some pin⟩ :=
        store_iff.mpr ⟨hpin, .inr ⟨_, rfl, rfl, rfl⟩⟩
      have htwo : VerifyFields.store ⟨none, some pin⟩ (.challengeId challengeId) =
          some ⟨some challengeId, some pin⟩ :=
        store_iff.mpr ⟨hchallenge, .inl ⟨_, rfl, rfl, rfl⟩⟩
      simp [hone, htwo]

/-- A body is accepted exactly when it is an object of one challenge id of 32 bytes and one
PIN of six digits. -/
theorem authParseVerifyJson_iff (body : Bytes) (challengeId pin : CString) :
    authParseVerifyJson body = some (challengeId, pin) ↔
      ∃ items, Object marks VerifyMember.Text items body ∧
        (items = [.challengeId challengeId, .pin pin] ∨
          items = [.pin pin, .challengeId challengeId]) ∧
        challengeId.length = AUTH_CHALLENGE_ID_HEX_BYTES ∧ pin.length = AUTH_PIN_DIGITS ∧
        ∀ byte ∈ pin, isDigit byte = true := by
  have hparse : authParseVerifyJson body = some (challengeId, pin) ↔
      readObject marks verifyMember ⟨none, none⟩ body = some ⟨some challengeId, some pin⟩ := by
    simp only [authParseVerifyJson]
    split
    · rename_i hread
      simp [hread]
    · rename_i hread
      constructor
      · intro h
        cases h
      · intro h
        exact absurd h (hread _ _)
  rw [hparse, readObject_iff verifyMember_reads]
  simp only [foldlM_store_iff, VerifyMember.Allowed]

end LocalSend.Auth
