import LocalSend.Verification.Upload.Prepare

/-! # What a publication does

The ways `publishSlot` can end, and what the final path leads to when it has succeeded.
-/

namespace LocalSend.Upload

/-- The final path leads to the file the part file's path led to. -/
def LeadsTo (fs : Fs) (path : CString) (file : ℕ) (files : ℕ → File) : Prop :=
  fs.entries path = some file ∧ fs.files = files

theorem renamePart_spec {fs fs' : Fs} {partPath finalPath : CString} {env : Env} {linked : Bool}
    {file : ℕ} (hentry : fs.entries partPath = some file)
    (h : renamePart fs partPath finalPath env = .ok (linked, fs')) :
    LeadsTo fs' finalPath file fs.files := by
  unfold renamePart at h
  split at h
  · cases h
  · split at h
    · rename_i renamed hrename
      cases h
      cases herror : env.renameError with
      | some error => simp [Fs.rename, herror] at hrename
      | none =>
          simp only [Fs.rename, herror, hentry, Prod.mk.injEq, true_and] at hrename
          subst hrename
          exact ⟨Function.update_self .., rfl⟩
    · cases h
  · cases h

theorem publishPart_spec {host : Bool} {fs fs' : Fs} {partPath finalPath : CString} {env : Env}
    {linked : Bool} {file : ℕ} (hentry : fs.entries partPath = some file)
    (h : publishPart host fs partPath finalPath env = .ok (linked, fs')) :
    LeadsTo fs' finalPath file fs.files := by
  unfold publishPart at h
  split at h
  · split at h
    · rename_i linkedFs hlink
      cases h
      cases herror : env.linkError with
      | some error => simp [Fs.link, herror] at hlink
      | none =>
          cases htarget : fs.entries finalPath with
          | some other => simp [Fs.link, herror, hentry, htarget] at hlink
          | none =>
              simp only [Fs.link, herror, hentry, htarget, Prod.mk.injEq, true_and] at hlink
              subst hlink
              exact ⟨Function.update_self .., rfl⟩
    · split at h
      · cases h
      · exact renamePart_spec hentry h
  · exact renamePart_spec hentry h

/-- The world in which `publish_part` is reached: the descriptor is closed. -/
def publishReached (world : World) (id digest : CString) : World :=
  (closeFd world).note (.publishing (publishRecord world id digest))

/-- A publication is refused before the descriptor is closed, or `close` fails, or
`publish_part` fails, or the file is published. -/
inductive Publication (world : World) (id digest : CString) (transferElapsedNs : ℕ) (env : Env) :
    World × Except UploadResult Metrics → Prop
  | refused {result : UploadResult} (hresult : result ≠ .ok) (hrefused :
      (world.mgr.slot.expectedHash ≠ [] ∧ world.mgr.slot.expectedHash ≠ digest) ∨
        syncForPublication world.host world.mgr.slot.fd env.syncErrors ≠ none) :
      Publication world id digest transferElapsedNs env (world, .error result)
  | unclosed (hclose : world.mgr.slot.fd = none ∨ env.closeFails = true) :
      Publication world id digest transferElapsedNs env (closeFd world, .error .ioError)
  | failed {error : Errno} {result : UploadResult} (hresult : result ≠ .ok)
      (hpublish : publishPart world.host world.fs world.mgr.slot.partPath
        world.mgr.slot.finalPath env = .error error) :
      Publication world id digest transferElapsedNs env
        (publishReached world id digest, .error result)
  | published {file : ℕ} {linked : Bool} {fs : Fs} (hfd : world.mgr.slot.fd = some file)
      (hhash : world.mgr.slot.expectedHash = [] ∨ world.mgr.slot.expectedHash = digest)
      (hpublish : publishPart world.host world.fs world.mgr.slot.partPath
        world.mgr.slot.finalPath env = .ok (linked, fs)) :
      Publication world id digest transferElapsedNs env
        (recordPublished (publishReached world id digest) id digest
          (completedMetrics world.mgr.slot transferElapsedNs) linked fs env,
          .ok (completedMetrics world.mgr.slot transferElapsedNs))

theorem publishSlot_spec (world : World) (id digest : CString) (transferElapsedNs : ℕ)
    (env : Env) :
    Publication world id digest transferElapsedNs env
      (publishSlot world id digest transferElapsedNs env) := by
  unfold publishSlot
  dsimp only
  split
  · rename_i hhash
    exact .refused (by simp) (.inl hhash)
  rename_i hhash
  split
  · rename_i error hsync
    exact .refused (Errno.result_ne_ok _) (.inr (by simp [hsync]))
  split
  · rename_i hclose
    exact .unclosed (by simpa using hclose)
  rename_i hclose
  obtain ⟨file, hfd⟩ : ∃ file, world.mgr.slot.fd = some file := by
    rw [← Option.isSome_iff_exists, Option.isSome_iff_ne_none]
    exact fun hnone => hclose (.inl (by simp [hnone]))
  split
  · rename_i error hpublish
    exact .failed (by split <;> simp) hpublish
  · rename_i linked fs hpublish
    refine .published hfd ?_ hpublish
    by_cases hnone : world.mgr.slot.expectedHash = []
    · exact .inl hnone
    · exact .inr (by simpa [hnone] using hhash)

/-- A publication leaves the ring, the writer's flags and the chunks alone. -/
theorem Publication.queue_eq {world : World} {id digest : CString} {transferElapsedNs : ℕ}
    {env : Env} {published : World × Except UploadResult Metrics}
    (h : Publication world id digest transferElapsedNs env published) :
    published.1.mgr.queue = world.mgr.queue := by
  cases h <;> rfl

end LocalSend.Upload
