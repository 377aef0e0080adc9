import LocalSend.Verification.Upload.Names

/-! # What a prepare does

The inversions of the stretches of `upload_prepare`: which fields the choice of names
touches, and how the opening of the part file can end.
-/

namespace LocalSend.Upload

open SafePath

/-- The world with the fields `upload_prepare` chooses before it opens the part file. -/
def World.named (world : World) (settings : Settings)
    (finalName finalPath uploadId partPath : CString) : World :=
  { world with
    mgr.settings := settings
    mgr.slot := { world.mgr.slot with finalName, finalPath, uploadId, partPath } }

theorem chooseNames_eq (world : World) (metadata : Metadata) (env : Env) :
    ∃ finalName finalPath, (chooseNames world metadata env).1 =
      world.named world.mgr.settings finalName finalPath world.mgr.slot.uploadId
        world.mgr.slot.partPath := by
  simp only [chooseNames]
  split <;> exact ⟨_, _, rfl⟩

theorem prepareNames_eq (world : World) (authorization : CString) (metadata : Metadata)
    (env : Env) :
    ∃ finalName finalPath uploadId partPath,
      (prepareNames world authorization metadata env).1 =
        world.named (world.mgr.settings.forAuthorization authorization) finalName finalPath
          uploadId partPath := by
  simp only [prepareNames]
  split
  · exact ⟨_, _, _, _, rfl⟩
  split
  · exact ⟨_, _, _, _, rfl⟩
  obtain ⟨finalName, finalPath, hnames⟩ := chooseNames_eq
    { world with mgr.settings := world.mgr.settings.forAuthorization authorization } metadata env
  split
  · rename_i next heq
    rw [heq] at hnames
    exact ⟨_, _, _, _, hnames⟩
  · rename_i next heq
    rw [heq] at hnames
    obtain rfl : next = _ := hnames
    split
    · exact ⟨_, _, _, _, rfl⟩
    · rename_i uploadId _
      have hpart : ∀ final,
          (choosePart (final : World) uploadId).1 = final.named final.mgr.settings
            final.mgr.slot.finalName final.mgr.slot.finalPath uploadId
            (choosePart final uploadId).1.mgr.slot.partPath := fun _ => rfl
      split <;> rename_i heq' <;> rw [← show _ = _ from congrArg Prod.fst heq'] <;>
        exact ⟨_, _, _, _, hpart _⟩

/-- The final path is that of the final name, a valid one, in the directory, and the name is
no part file's. -/
structure Slot.Named (slot : Slot) (directory : CString) (metadata : Metadata) : Prop where
  finalPath_eq : slot.finalPath = directory ++ 47 :: slot.finalName
  valid : safePathValidateFilename slot.finalName = true
  unmanaged : managedPartName metadata.name = false → managedPartName slot.finalName = false

/-- Where the names are chosen the final path can be joined: that has been tried before. -/
theorem chooseNames_spec (world : World) (metadata : Metadata) (env : Env) :
    (chooseNames world metadata env).1.mgr.settings = world.mgr.settings ∧
      (((chooseNames world metadata env).2 = true ∧
          (chooseNames world metadata env).1.mgr.slot.Named world.mgr.settings.destination
            metadata) ∨
        ((chooseNames world metadata env).2 = false ∧
          (chooseNames world metadata env).1.mgr.slot.finalPath =
            world.mgr.slot.finalPath)) := by
  simp only [chooseNames]
  cases hunique : safePathUniqueName world.mgr.settings.destination metadata.name
    world.mgr.slot.finalName
    (fun path => world.fs.lookup path (env.accessError path) = some .enoent) with
  | mk finalName named =>
      cases named with
      | false => exact ⟨rfl, .inr ⟨rfl, rfl⟩⟩
      | true =>
          obtain ⟨hvalid, hfits⟩ := safePathUniqueName_valid hunique
          refine ⟨rfl, .inl ⟨?_, ?_, hvalid, fun hrequested => ?_⟩⟩
          · simpa [safePathJoin, hvalid] using hfits
          · refine safePathJoin_eq (Prod.ext rfl ?_)
            simpa [safePathJoin, hvalid] using hfits
          · exact safePathUniqueName_unmanaged hrequested hunique

theorem chooseNames_ok {world next : World} {metadata : Metadata} {env : Env}
    (h : chooseNames world metadata env = (next, true)) :
    next.mgr.settings = world.mgr.settings ∧
      next.mgr.slot.Named world.mgr.settings.destination metadata := by
  obtain ⟨hsettings, ⟨-, hnamed⟩ | ⟨hfailed, -⟩⟩ := chooseNames_spec world metadata env
  · rw [h] at hsettings hnamed
    exact ⟨hsettings, hnamed⟩
  · rw [h] at hfailed
    cases hfailed

/-- The part file's name has the upload's identifier, and lies next to the final one. -/
structure Slot.Located (slot : Slot) (directory : CString) (metadata : Metadata) : Prop where
  named : slot.Named directory metadata
  partPath_eq : slot.partPath = directory ++ 47 :: (partMarker ++ slot.uploadId ++ partSuffix)

theorem choosePart_ok {world next : World} {uploadId : CString} {metadata : Metadata}
    (hnamed : world.mgr.slot.Named world.mgr.settings.destination metadata)
    (h : choosePart world uploadId = (next, true)) :
    next.mgr.slot.uploadId = uploadId ∧ next.mgr.settings = world.mgr.settings ∧
      next.mgr.slot.Located world.mgr.settings.destination metadata := by
  simp only [choosePart, Prod.mk.injEq] at h
  obtain ⟨rfl, hfits⟩ := h
  refine ⟨rfl, rfl, ⟨hnamed.finalPath_eq, hnamed.valid, hnamed.unmanaged⟩, ?_⟩
  have hpath := printInto_eq (Prod.ext rfl hfits)
  simpa using hpath

/-- One more file may be published for this authorization. -/
structure Settings.Admits (settings : Settings) (authorization : CString) : Prop where
  session : settings.completedAuthorization = authorization
  room : settings.completedFiles < settings.maxFiles

theorem Settings.forAuthorization_session (settings : Settings) (authorization : CString) :
    (settings.forAuthorization authorization).completedAuthorization = authorization := by
  unfold Settings.forAuthorization
  split
  · rfl
  · rename_i hsame
    exact not_not.mp hsame

/-- Once the names are chosen the slot has the identifier drawn and its two paths. -/
theorem prepareNames_ok {world next : World} {authorization : CString} {metadata : Metadata}
    {env : Env} (h : prepareNames world authorization metadata env = (next, .ok)) :
    randomId env.random = some next.mgr.slot.uploadId ∧
      next.mgr.slot.Located next.mgr.settings.destination metadata ∧
      next.mgr.settings.Admits authorization := by
  simp only [prepareNames] at h
  split at h
  · cases h
  rename_i hroom
  split at h
  · cases h
  split at h
  · cases h
  rename_i chosen hchosen
  obtain ⟨hsettings, hnamed⟩ := chooseNames_ok hchosen
  rw [← hsettings] at hnamed
  split at h
  · cases h
  rename_i uploadId hid
  split at h
  · cases h
  · rename_i hpart
    cases h
    obtain ⟨huploadId, hsame, hlocated⟩ := choosePart_ok hnamed hpart
    rw [hsame]
    refine ⟨hid.trans (congrArg some huploadId.symm), hlocated, ?_⟩
    rw [hsettings]
    exact ⟨world.mgr.settings.forAuthorization_session authorization, not_le.mp hroom⟩

/-- Until all names are chosen the final path is the old one or one in the directory. -/
theorem prepareNames_finalPath (world : World) (authorization : CString) (metadata : Metadata)
    (env : Env) :
    let next := (prepareNames world authorization metadata env).1
    next.mgr.slot.finalPath = world.mgr.slot.finalPath ∨
      ∃ name, safePathValidateFilename name = true ∧
        (managedPartName metadata.name = false → managedPartName name = false) ∧
        next.mgr.slot.finalPath = next.mgr.settings.destination ++ 47 :: name := by
  simp only [prepareNames]
  split
  · exact .inl rfl
  split
  · exact .inl rfl
  have hspec := chooseNames_spec
    { world with mgr.settings := world.mgr.settings.forAuthorization authorization } metadata env
  split
  · rename_i chosen hchosen
    rw [hchosen] at hspec
    obtain ⟨-, ⟨hnamed, -⟩ | ⟨-, hsame⟩⟩ := hspec
    · cases hnamed
    · exact .inl hsame
  · rename_i chosen hchosen
    obtain ⟨hsettings, hnamed⟩ := chooseNames_ok hchosen
    have hpath := hnamed.finalPath_eq
    rw [← hsettings] at hpath
    split
    · exact .inr ⟨_, hnamed.valid, hnamed.unmanaged, hpath⟩
    · split <;> rename_i heq <;> rw [← show _ = _ from congrArg Prod.fst heq] <;>
        exact .inr ⟨_, hnamed.valid, hnamed.unmanaged, hpath⟩

/-- The three ways the opening of the part file ends: it fails, a later step fails with the
file open, or the upload occupies the slot. -/
inductive PrepareOpened (world : World) (client authorization : CString) (metadata : Metadata)
    (env : Env) : World × UploadResult → Prop
  | refused {result : UploadResult} (hresult : result ≠ .ok) :
      PrepareOpened world client authorization metadata env
        (closeFd (startPreparation world env), result)
  | failed {result : UploadResult} {file : ℕ} {fs fs' : Fs} (hresult : result ≠ .ok)
      (hopen : openPartFile (startPreparation world env) world.mgr.slot.partPath env =
        .ok (file, fs))
      (hentries : fs'.entries = fs.entries)
      (hwritten : ∀ other, (fs'.files other).written = (fs.files other).written) :
      PrepareOpened world client authorization metadata env
        ({ openedPart (startPreparation world env) file fs with fs := fs' }, result)
  | occupied {file : ℕ} {fs fs' : Fs}
      (hopen : openPartFile (startPreparation world env) world.mgr.slot.partPath env =
        .ok (file, fs))
      (hreserve : reserveUploadSpace (openedPart (startPreparation world env) file fs) file
        metadata.size env.reserveError = .ok fs') :
      PrepareOpened world client authorization metadata env
        (occupySlot { openedPart (startPreparation world env) file fs with fs := fs' } client
          authorization metadata env, .ok)

theorem Errno.result_ne_ok (error : Errno) : error.result ≠ .ok := by
  unfold Errno.result
  split <;> simp

theorem reserveUploadSpace_entries {world : World} {file size : ℕ} {error : Option Errno}
    {fs : Fs} (h : reserveUploadSpace world file size error = .ok fs) :
    fs.entries = world.fs.entries := by
  unfold reserveUploadSpace at h
  repeat' split at h
  all_goals first
    | cases h
      rfl
    | cases h

/-- Space is reserved up to the size of the upload, and nothing is written. -/
theorem reserveUploadSpace_file {world : World} {file size : ℕ} {error : Option Errno} {fs : Fs}
    (h : reserveUploadSpace world file size error = .ok fs) :
    (fs.files file).written = (world.fs.files file).written ∧
      (fs.files file).reserved ≤ max (world.fs.files file).reserved size := by
  unfold reserveUploadSpace at h
  repeat' split at h
  all_goals first
    | cases h
      simp [Fs.reserve]
    | cases h

theorem reserveUploadSpace_written {world : World} {file size : ℕ} {error : Option Errno}
    {fs : Fs} (h : reserveUploadSpace world file size error = .ok fs) (other : ℕ) :
    (fs.files other).written = (world.fs.files other).written := by
  by_cases hother : other = file
  · subst hother
    exact (reserveUploadSpace_file h).1
  · unfold reserveUploadSpace at h
    repeat' split at h
    all_goals first
      | cases h
        simp [Fs.reserve, hother]
      | cases h

theorem create_spec {fs fs' : Fs} {path : CString} {exclusive : Bool} {error : Option Errno}
    {file : ℕ} (h : fs.create path exclusive error = .ok (file, fs')) :
    fs'.entries path = some file ∧ fs'.files file = ⟨[], 0⟩ := by
  unfold Fs.create at h
  split at h
  · cases h
  · cases h
    exact ⟨Function.update_self .., Function.update_self ..⟩
  · rename_i hentry
    split at h
    · cases h
    · cases h
      exact ⟨hentry, Function.update_self ..⟩

/-- The part file is empty when it has just been opened. -/
theorem openPartFile_spec {world : World} {path : CString} {env : Env} {file : ℕ} {fs : Fs}
    (h : openPartFile world path env = .ok (file, fs)) :
    fs.entries path = some file ∧ fs.files file = ⟨[], 0⟩ := by
  unfold openPartFile at h
  split at h
  · rename_i hcreate
    cases h
    exact create_spec hcreate
  · split at h
    · exact create_spec h
    · cases h

theorem prepareOpen_spec (world : World) (client authorization : CString) (metadata : Metadata)
    (env : Env) :
    PrepareOpened world client authorization metadata env
      (prepareOpen world client authorization metadata env) := by
  unfold prepareOpen
  dsimp only
  split
  · exact .refused (Errno.result_ne_ok _)
  · rename_i file fs hopen
    split
    · exact .failed (Errno.result_ne_ok _) hopen rfl fun _ => rfl
    · rename_i fs' hreserve
      split
      · exact .failed (by simp) hopen (reserveUploadSpace_entries hreserve)
          (reserveUploadSpace_written hreserve)
      · exact .occupied hopen hreserve

end LocalSend.Upload
