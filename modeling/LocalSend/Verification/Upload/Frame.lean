import LocalSend.Model.Upload.System

/-! # Calls that name another upload

A call whose identifier is not the slot's, or whose client or authorization is not, must
leave the upload in the slot alone. Each call is followed through its argument checks and
`reap_locked` to the branch that refuses it.
-/

namespace LocalSend.Upload

open Transition

/-- The identifier a call names. -/
def Call.uploadId : Call → Option CString
  | .begin id _ _ _ => some id
  | .write id _ => some id
  | .enableDirectStream id => some id
  | .writeDirect id _ => some id
  | .chunkBegin id _ _ _ _ _ => some id
  | .chunkWrite id _ _ => some id
  | .chunkFinish id _ _ => some id
  | .chunkAbort id _ _ => some id
  | .finish id => some id
  | .finishChunks id _ _ => some id
  | .cancel id _ _ => some id
  | .abort id => some id
  | _ => none

/-- The identifier, client and authorization of a call that checks them. -/
def Call.binding : Call → Option (CString × CString × CString)
  | .begin id client authorization _ => some (id, client, authorization)
  | .chunkBegin id client authorization _ _ _ => some (id, client, authorization)
  | .finishChunks id client authorization => some (id, client, authorization)
  | .cancel id client authorization => some (id, client, authorization)
  | _ => none

/-- The stretch has left everything as it was and is not about to clear the slot. -/
def Untouched (world : World) (stretch : World × Outcome) : Prop :=
  stretch.1 = world ∧ ∀ closing target, stretch.2 ≠ .park (.clearing closing target)

/-- The call has answered `UPLOAD_FORBIDDEN`, or still waits for a direct write to end. -/
def Forbids : Outcome → Prop
  | .done reply => reply.result = .forbidden
  | .park (.waitingWrites _) => True
  | .park _ => False

/-- A stretch of the call leaves the slot alone when the call names another upload, and
when it names this one with the wrong client or authorization. -/
structure StretchKeeps (world : World) (call : Call) (stretch : World × Outcome) : Prop where
  foreign : ∀ id, call.uploadId = some id → id ≠ world.mgr.slot.uploadId → Untouched world stretch
  unbound : ∀ client authorization,
    call.binding = some (world.mgr.slot.uploadId, client, authorization) →
    bindingMatches world.mgr.slot client authorization = false →
    Untouched world stretch ∧ Forbids stretch.2

/-- The call keeps the slot from others in its first stretch and when it wakes up from
waiting for a direct write. -/
structure KeepsOthers (world : World) (call : Call) (env : Env) : Prop where
  entered : StretchKeeps world call (enterCall world call env)
  woken : (∃ id client authorization, call = .cancel id client authorization) ∨
    (∃ id, call = .abort id) → StretchKeeps world call (awaitWrites world call env)

/-- The call is no finish of another upload, and no chunk begin of length zero. -/
structure Harmless (world : World) (call : Call) : Prop where
  finish : ∀ id, call = .finish id → id = world.mgr.slot.uploadId
  length : ∀ client authorization total offset,
    call = .chunkBegin world.mgr.slot.uploadId client authorization total offset 0 →
    bindingMatches world.mgr.slot client authorization = true

/-! ## Stretches that change nothing -/

theorem untouched_of (world : World) (result : UploadResult) :
    Untouched world (world, Outcome.of result) :=
  ⟨rfl, fun _ _ h => by cases h⟩

theorem untouched_wait (world : World) (call : Call) :
    Untouched world (world, .park (.waitingWrites call)) :=
  ⟨rfl, fun _ _ h => by cases h⟩

/-- A refused call keeps the slot from others. -/
theorem stretchKeeps_of (world : World) (call : Call) {result : UploadResult}
    (hresult : ∀ client authorization,
      call.binding = some (world.mgr.slot.uploadId, client, authorization) →
      bindingMatches world.mgr.slot client authorization = false → result = .forbidden) :
    StretchKeeps world call (world, Outcome.of result) :=
  ⟨fun _ _ _ => untouched_of world result, fun client authorization hbinding hunbound =>
    ⟨untouched_of world result, hresult client authorization hbinding hunbound⟩⟩

theorem stretchKeeps_wait (world : World) (call : Call) :
    StretchKeeps world call (world, .park (.waitingWrites call)) :=
  ⟨fun _ _ _ => untouched_wait world call, fun _ _ _ _ => ⟨untouched_wait world call, trivial⟩⟩

/-! ## The calls behind `reap_locked` -/

/-- No call but a finish touches the slot of another upload. -/
theorem afterReap_foreign {world : World} {call : Call} {id : CString}
    (hid : call.uploadId = some id) (hne : id ≠ world.mgr.slot.uploadId)
    (hfinish : call ≠ .finish id) (env : Env) : Untouched world (afterReap world call env) := by
  have hother : world.mgr.slot.uploadId ≠ id := hne.symm
  cases call <;> cases hid <;>
    first
    | exact absurd rfl hfinish
    | simp [afterReap, uploadBegin, uploadWrite, uploadEnableDirectStream, uploadWriteDirect,
        uploadChunkBegin, uploadChunkWrite, uploadChunkFinish, uploadChunkAbort,
        uploadFinishChunksWithMetrics, uploadCancel, uploadAbort, hother, untouched_of]

/-- The wrong client or authorization is answered `UPLOAD_FORBIDDEN`. -/
theorem afterReap_unbound {world : World} {call : Call} {client authorization : CString}
    (hoccupied : world.mgr.slot.occupied = true)
    (hbinding : call.binding = some (world.mgr.slot.uploadId, client, authorization))
    (hunbound : bindingMatches world.mgr.slot client authorization = false) (env : Env) :
    afterReap world call env = (world, .of .forbidden) := by
  cases call <;> cases hbinding <;>
    simp [afterReap, uploadBegin, uploadChunkBegin, uploadFinishChunksWithMetrics, uploadCancel,
      hoccupied, hunbound]

theorem afterReap_keeps {world : World} {call : Call} (hoccupied : world.mgr.slot.occupied = true)
    (hfinish : ∀ id, call = .finish id → id = world.mgr.slot.uploadId) (env : Env) :
    StretchKeeps world call (afterReap world call env) := by
  refine ⟨?_, ?_⟩
  · intro id hid hne
    exact afterReap_foreign hid hne (fun h => hne (hfinish id h)) env
  · intro client authorization hbinding hunbound
    rw [afterReap_unbound hoccupied hbinding hunbound env]
    exact ⟨untouched_of world _, rfl⟩

/-- A finish that names another upload clears the slot, or waits to do so. -/
theorem finish_foreign_touches {world : World} {id : CString} {env : Env}
    (hne : id ≠ world.mgr.slot.uploadId) :
    ¬Untouched world (uploadFinishWithMetrics world id env) := by
  have hother : world.mgr.slot.uploadId ≠ id := hne.symm
  rintro ⟨hsame, hpark⟩
  simp only [uploadFinishWithMetrics, hother, ne_eq, not_false_eq_true, or_true, if_true,
    finishFailed, closeSlot, awaitClosing] at hsame hpark
  split at hpark
  · exact hpark _ _ rfl
  · rename_i hidle
    rw [if_neg hidle] at hsame
    have htrace := congrArg (fun w : World => w.trace.length) hsame
    simp [finishClosing, clearRest, clearStart] at htrace

/-! ## From the entry to the refusal -/

theorem reapLocked_of_lease {world : World} {call : Call} {now : ℕ} {env : Env}
    (hlease : leaseExpired world.mgr now = false) :
    reapLocked world call now env = afterReap world call env := by
  simp [reapLocked, hlease]

theorem awaitWrites_keeps {world : World} {call : Call} {env : Env}
    (hoccupied : world.mgr.slot.occupied = true)
    (hlease : leaseExpired world.mgr env.now = false)
    (hfinish : ∀ id, call = .finish id → id = world.mgr.slot.uploadId) :
    StretchKeeps world call (awaitWrites world call env) := by
  unfold awaitWrites
  split
  · exact stretchKeeps_wait world call
  split
  · exact afterReap_keeps hoccupied hfinish env
  · rw [reapLocked_of_lease hlease]
    exact afterReap_keeps hoccupied hfinish env

theorem enterCall_keeps {world : World} {call : Call} {env : Env}
    (hoccupied : world.mgr.slot.occupied = true)
    (hlease : leaseExpired world.mgr env.now = false) (hharmless : Harmless world call) :
    StretchKeeps world call (enterCall world call env) := by
  unfold enterCall
  split
  · rename_i result hrefused
    apply stretchKeeps_of
    intro client authorization hbinding hunbound
    -- of the calls with a binding only a chunk begin can be refused on its arguments
    cases call <;> cases hbinding <;> simp [Call.refused] at hrefused
    rw [hrefused.1] at hharmless
    simp [hharmless.length _ _ _ _ rfl] at hunbound
  · rename_i hrefused
    split
    · exact afterReap_keeps hoccupied hharmless.finish env
    · exact afterReap_keeps hoccupied hharmless.finish env
    · exact awaitWrites_keeps hoccupied hlease hharmless.finish
    · exact awaitWrites_keeps hoccupied hlease hharmless.finish
    · refine ⟨?_, ?_⟩
      · intro id hid
        cases hid
      · intro client authorization hbinding
        cases hbinding
    · rw [reapLocked_of_lease hlease]
      exact afterReap_keeps hoccupied hharmless.finish env

/-- A call keeps the slot from others exactly when it is no finish of another upload; a
chunk begin of length zero is refused before its binding is looked at. -/
theorem keepsOthers_iff {world : World} {call : Call} {env : Env}
    (hoccupied : world.mgr.slot.occupied = true)
    (hlease : leaseExpired world.mgr env.now = false) :
    KeepsOthers world call env ↔ Harmless world call := by
  constructor
  · intro hkeeps
    refine ⟨?_, ?_⟩
    · rintro id rfl
      by_contra hne
      have huntouched := hkeeps.entered.foreign id rfl hne
      rw [show enterCall world (.finish id) env = uploadFinishWithMetrics world id env by
        simp [enterCall, Call.refused, reapLocked_of_lease hlease, afterReap]] at huntouched
      exact finish_foreign_touches hne huntouched
    · rintro client authorization total offset rfl
      by_contra hunbound
      have hforbids := (hkeeps.entered.unbound client authorization rfl (by simpa using hunbound)).2
      simp [enterCall, Call.refused, Forbids, Outcome.of, Reply.of] at hforbids
  · intro hharmless
    exact ⟨enterCall_keeps hoccupied hlease hharmless, fun _ =>
      awaitWrites_keeps hoccupied hlease hharmless.finish⟩

/-! ## A late finish of a cancelled upload -/

namespace Sample

/-- The destination `/d` on an empty file system, files of up to 1000 bytes. -/
def start (leaseSeconds : ℕ) : Sys :=
  .initial true [47, 100] (2 ^ 30) 10 leaseSeconds none ⟨fun _ => none, fun _ => ⟨[], 0⟩, 0⟩

def client : CString := [99]

def authorization : CString := [97]

/-- Calm surroundings at time 5 whose random bytes are all `seed`. -/
def env (seed : UInt8) : Env := .calm 5 (.replicate 16 seed)

/-- The identifier of an upload prepared with `seed`. -/
def uploadId (seed : UInt8) : CString := hexBytes (.replicate 16 seed)

/-- The body that asks for a file `f` of the given size. -/
def body (size : ℕ) : Bytes :=
  [123, 34] ++ nameKey ++ [34, 58, 34, 102, 34, 44, 34] ++ sizeKey ++ [34, 58] ++
    SafePath.decimal size ++ [44, 34] ++ typeKey ++ [34, 58, 34, 120, 34, 125]

def prepare (tid : ℕ) (seed : UInt8) (size : ℕ) : Action :=
  .call tid (.prepare client authorization (body size)) (env seed)

def cancel (tid : ℕ) (seed : UInt8) : Action :=
  .call tid (.cancel (uploadId seed) client authorization) (env 0)

end Sample

open Sample in
/-- Upload 1 is cancelled and upload 2 prepared; a late cancel of upload 1 leaves it alone. -/
theorem keepsOthers_cancel :
    ∃ sys, exec step (start 60) [prepare 0 1 5, cancel 0 1, prepare 0 2 7] = some sys ∧
      sys.world.mgr.slot.uploadId = uploadId 2 ∧
      KeepsOthers sys.world (.cancel (uploadId 1) client authorization) (env 0) := by
  have hprepared : ∃ sys, exec step (start 60) [prepare 0 1 5, cancel 0 1, prepare 0 2 7] =
      some sys ∧ sys.world.mgr.slot.occupied = true ∧
      sys.world.mgr.slot.uploadId = uploadId 2 ∧ leaseExpired sys.world.mgr (env 0).now = false :=
    exists_of_exec (by decide +kernel)
  obtain ⟨sys, hexec, hoccupied, hsecond, hlease⟩ := hprepared
  refine ⟨sys, hexec, hsecond, (keepsOthers_iff hoccupied hlease).mpr ⟨?_, ?_⟩⟩
  · intro id h
    cases h
  · intro client authorization total offset h
    cases h

open Sample in
/-- Upload 1 is cancelled and upload 2 prepared; a late finish of upload 1 empties the slot
and removes the part file of upload 2. -/
theorem finish_foreign_clears :
    ∃ sys, exec step (start 60) [prepare 0 1 5, cancel 0 1, prepare 0 2 7] = some sys ∧
      let world := sys.world
      let after := (enterCall world (.finish (uploadId 1)) (env 0)).1
      world.mgr.slot.occupied = true ∧ world.mgr.slot.uploadId = uploadId 2 ∧
      leaseExpired world.mgr (env 0).now = false ∧ uploadId 1 ≠ world.mgr.slot.uploadId ∧
      (world.fs.entries world.mgr.slot.partPath).isSome = true ∧
      after.mgr.slot.occupied = false ∧ after.fs.entries world.mgr.slot.partPath = none :=
  exists_of_exec (by decide +kernel)

end LocalSend.Upload
