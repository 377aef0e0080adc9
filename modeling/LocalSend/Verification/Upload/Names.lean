import LocalSend.Model.Upload.System

/-! # The names of part files

A part file's name has a form no requested name and no numbered variant of one can have, so
the part file of an upload is never its final file.
-/

namespace LocalSend.Upload

open SafePath

/-- The random source fills the bytes asked for. -/
def Env.Fills (env : Env) : Prop :=
  ∀ bytes, env.random = some bytes → UPLOAD_ID_HEX_BYTES / 2 ≤ bytes.length

theorem isLowerHex_hexDigit {value : UInt8} (h : value.toNat ≤ 15) :
    isLowerHex (hexDigit value) = true := by
  simp only [isLowerHex, isDigit, hexDigit, UInt8.le_iff_toNat_le, decide_eq_true_eq]
  split
  · rename_i hlow
    rw [UInt8.lt_iff_toNat_lt] at hlow
    simp only [UInt8.toNat_add, UInt8.reduceToNat] at hlow ⊢
    omega
  · rename_i hhigh
    rw [UInt8.lt_iff_toNat_lt] at hhigh
    simp only [UInt8.toNat_add, UInt8.reduceToNat] at hhigh ⊢
    omega

theorem hexBytes_lowerHex (bytes : Bytes) : (hexBytes bytes).all isLowerHex = true := by
  simp only [hexBytes, List.all_flatMap, List.all_eq_true]
  intro byte _
  have hhigh : (byte >>> 4).toNat ≤ 15 := by
    have hlt := byte.toNat_lt
    simp only [UInt8.toNat_shiftRight, UInt8.reduceToNat, Nat.shiftRight_eq_div_pow,
      Nat.reduceMod, Nat.reducePow]
    omega
  have hlow : (byte &&& 15).toNat ≤ 15 := by
    rw [UInt8.toNat_and]
    exact Nat.and_le_right
  simp [isLowerHex_hexDigit hhigh, isLowerHex_hexDigit hlow]

theorem randomId_length {env : Env} {id : CString} (hfills : env.Fills)
    (h : randomId env.random = some id) : id.length = UPLOAD_ID_HEX_BYTES := by
  obtain ⟨bytes, hbytes, rfl⟩ := Option.map_eq_some_iff.mp h
  have hle := hfills bytes hbytes
  rw [hexBytes_length, List.length_take, Nat.min_eq_left hle]
  rfl

theorem randomId_lowerHex {random : Option Bytes} {id : CString}
    (h : randomId random = some id) : id.all isLowerHex = true := by
  obtain ⟨bytes, -, rfl⟩ := Option.map_eq_some_iff.mp h
  exact hexBytes_lowerHex _

/-- The name `upload_prepare` gives a part file. -/
theorem managedPartName_part {id : CString} (hlength : id.length = UPLOAD_ID_HEX_BYTES)
    (hhex : id.all isLowerHex = true) :
    managedPartName (partMarker ++ id ++ partSuffix) = true := by
  have htake : (partMarker ++ id ++ partSuffix).take partMarker.length = partMarker := by
    rw [List.append_assoc, List.take_left]
  have hdrop : (partMarker ++ id ++ partSuffix).drop partMarker.length = id ++ partSuffix := by
    rw [List.append_assoc, List.drop_left]
  have hend : (partMarker ++ id ++ partSuffix).drop (partMarker.length + UPLOAD_ID_HEX_BYTES) =
      partSuffix := by
    rw [← hlength, ← List.length_append, List.drop_left]
  simp only [managedPartName, decide_eq_true_eq]
  refine ⟨?_, htake, ?_, hend⟩
  · simp only [List.length_append, hlength]
  · rw [hdrop, ← hlength, List.take_left]
    exact hhex

/-- No part file has a blank in its name. -/
theorem managedPartName_blank {name : CString} (h : managedPartName name = true) :
    (32 : UInt8) ∉ name := by
  simp only [managedPartName, decide_eq_true_eq] at h
  obtain ⟨-, hmarker, hhex, hsuffix⟩ := h
  have hsplit : name = name.take partMarker.length ++
      ((name.drop partMarker.length).take UPLOAD_ID_HEX_BYTES ++
        name.drop (partMarker.length + UPLOAD_ID_HEX_BYTES)) := by
    rw [← List.drop_drop, List.take_append_drop, List.take_append_drop]
  rw [hsplit, hmarker, hsuffix]
  simp only [List.mem_append, not_or]
  refine ⟨by decide, fun hmem => ?_, by decide⟩
  have hblank := List.all_eq_true.mp hhex 32 hmem
  revert hblank
  decide

theorem candidate_blank {requested name : CString} {suffix : ℕ}
    (h : candidate requested suffix = some name) : (32 : UInt8) ∈ name := by
  simp only [candidate] at h
  split at h
  · cases h
  · obtain rfl := Option.some.inj h
    simp [suffixText]

theorem uniqueSuffix_blank {directory requested : CString} {absent : CString → Bool}
    {count suffix : ℕ} {output name : CString}
    (h : uniqueSuffix directory requested absent count suffix output = (name, true)) :
    (32 : UInt8) ∈ name := by
  induction count generalizing suffix output with
  | zero => cases h
  | succ count ih =>
      simp only [uniqueSuffix] at h
      split at h
      · cases h
      · rename_i chosen hchosen
        split at h
        · cases h
        split at h
        · cases h
        split at h
        · cases h
          exact candidate_blank hchosen
        · exact ih h

/-- The name chosen for a requested name that is no part file's is none either. -/
theorem safePathUniqueName_unmanaged {directory requested output name : CString}
    {absent : CString → Bool} (hrequested : managedPartName requested = false)
    (h : safePathUniqueName directory requested output absent = (name, true)) :
    managedPartName name = false := by
  simp only [safePathUniqueName] at h
  split at h
  · cases h
  split at h
  · cases h
  split at h
  · cases h
    exact hrequested
  · cases hmanaged : managedPartName name with
    | false => rfl
    | true => exact absurd (uniqueSuffix_blank h) (managedPartName_blank hmanaged)

theorem uniqueSuffix_valid {directory requested : CString} {absent : CString → Bool}
    {count suffix : ℕ} {output name : CString}
    (h : uniqueSuffix directory requested absent count suffix output = (name, true)) :
    safePathValidateFilename name = true ∧
      (safePathJoin directory name [] SAFE_PATH_FULL_BYTES).2 = true := by
  induction count generalizing suffix output with
  | zero => cases h
  | succ count ih =>
      simp only [uniqueSuffix] at h
      split at h
      · cases h
      · split at h
        · cases h
        rename_i hvalid
        split at h
        · cases h
        rename_i hfits
        split at h
        · cases h
          exact ⟨by simpa using hvalid, by simpa using hfits⟩
        · exact ih h

/-- The name chosen has passed the check, and its path has been tried. -/
theorem safePathUniqueName_valid {directory requested output name : CString}
    {absent : CString → Bool}
    (h : safePathUniqueName directory requested output absent = (name, true)) :
    safePathValidateFilename name = true ∧
      (safePathJoin directory name [] SAFE_PATH_FULL_BYTES).2 = true := by
  simp only [safePathUniqueName] at h
  split at h
  · cases h
  rename_i hvalid
  split at h
  · cases h
  rename_i hfits
  split at h
  · cases h
    exact ⟨by simpa using hvalid, by simpa using hfits⟩
  · exact uniqueSuffix_valid h

theorem parseMetadata_unmanaged {json : Bytes} {metadata : Metadata}
    (h : parseMetadata json = some metadata) : managedPartName metadata.name = false := by
  simp only [parseMetadata] at h
  split at h
  · split at h
    · split at h
      · rename_i hchecks
        cases h
        simpa using hchecks.2.2.1
      · cases h
    · cases h
  · cases h

/-- A text that fits is stored as it is. -/
theorem printInto_eq {size : ℕ} {text path : CString} (h : printInto size text = (path, true)) :
    path = text := by
  simp only [printInto, Prod.mk.injEq, decide_eq_true_eq] at h
  rw [← h.1]
  exact List.take_of_length_le (by omega)

theorem safePathJoin_eq {directory name output path : CString} {size : ℕ}
    (h : safePathJoin directory name output size = (path, true)) :
    path = directory ++ 47 :: name := by
  simp only [safePathJoin] at h
  split at h
  · cases h
  · exact printInto_eq h

end LocalSend.Upload
