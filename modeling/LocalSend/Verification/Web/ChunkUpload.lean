import LocalSend.Model.Web.ChunkUpload
import Mathlib.Data.Finset.Card
import Mathlib.Data.List.Nodup

/-! # The order of the requests of a chunked upload

The state of each chunk is read off the log of what has happened. While the promise is pending the
variables of the call agree with it; from then on the log stays as it is.
-/

namespace LocalSend.Web

open Config SafePath Transition

/-! ## The log -/

inductive ChunkStatus where
  | unsent
  | inFlight
  | waiting
  | stuck
  | received
  | failed
  deriving DecidableEq

/-- What an answer makes of a chunk. -/
def answerStatus (status : ℕ) (code : CString) : ChunkStatus :=
  if 200 ≤ status ∧ status < 300 then .received
  else if code = ChunkUpload.uploadBackpressure then .waiting
  else .failed

/-- What an entry makes of a chunk. -/
def Entry.statusOf (index : ℕ) : Entry → Option ChunkStatus
  | .put other _ => if other = index then some .inFlight else none
  | .loaded other status code => if other = index then some (answerStatus status code) else none
  | .errored other => if other = index then some .failed else none
  | .aborted other => if other = index then some .failed else none
  | .threw other => if other = index then some .stuck else none
  | _ => none

/-- A chunk as the newest entry about it leaves it. -/
def chunkStatus (index : ℕ) : List Entry → ChunkStatus
  | [] => .unsent
  | entry :: log => (entry.statusOf index).getD (chunkStatus index log)

/-- In flight, or waiting to be sent again; also behind a timer that has thrown, where nothing
sends it again. -/
def ChunkStatus.active : ChunkStatus → Bool
  | .inFlight => true
  | .waiting => true
  | .stuck => true
  | _ => false

/-- The chunks that are active. -/
def activeChunks (count : ℕ) (log : List Entry) : Finset ℕ :=
  (Finset.range count).filter fun index => (chunkStatus index log).active = true

/-- The promise is settled. -/
def Entry.settles : Entry → Bool
  | .resolved => true
  | .rejected _ => true
  | _ => false

/-- A request ended without an answer to go on from, or the promise is rejected. -/
def Entry.fails : Entry → Bool
  | .loaded _ status code => answerStatus status code = .failed
  | .errored _ => true
  | .aborted _ => true
  | .rejected _ => true
  | _ => false

def Entry.isRequest : Entry → Bool
  | .put .. => true
  | .complete => true
  | _ => false

variable {settings : Settings} {upload next : ChunkUpload} {log past : List Entry} {entry : Entry}
  {index other status : ℕ} {code : CString} {failure : Failure}

/-- What may be written to the log. -/
inductive Entry.Allowed (settings : Settings) (log : List Entry) : Entry → Prop
  | put {index : ℕ} (hquiet : ∀ earlier ∈ log, earlier.fails = false)
      (hindex : index < settings.count)
      (hturn : ∀ other, chunkStatus other log ≠ .unsent ↔ other < index)
      (hactive : (activeChunks settings.count (.put index
        (startChunk settings.total settings.chunkSize index) :: log)).card ≤
          settings.parallelism) :
      Allowed settings log (.put index (startChunk settings.total settings.chunkSize index))
  | loaded {index status : ℕ} {code : CString} (h : chunkStatus index log = .inFlight) :
      Allowed settings log (.loaded index status code)
  | errored {index : ℕ} (h : chunkStatus index log = .inFlight) :
      Allowed settings log (.errored index)
  | aborted {index : ℕ} (h : chunkStatus index log = .inFlight) :
      Allowed settings log (.aborted index)
  | backoff {index delay : ℕ} : Allowed settings log (.backoff index delay)
  | threw {index : ℕ} (h : chunkStatus index log = .waiting) :
      Allowed settings log (.threw index)
  | complete (hquiet : ∀ earlier ∈ log, earlier.fails = false) (hfirst : .complete ∉ log)
      (hreceived : ∀ index < settings.count, chunkStatus index log = .received) :
      Allowed settings log .complete
  | resolved (hfirst : ∀ earlier ∈ log, earlier.settles = false) : Allowed settings log .resolved
  | rejected {failure : Failure} (hfirst : ∀ earlier ∈ log, earlier.settles = false) :
      Allowed settings log (.rejected failure)

/-- A log written entry by entry. -/
inductive Orderly (settings : Settings) : List Entry → Prop
  | nil : Orderly settings []
  | cons {log : List Entry} {entry : Entry} (h : Orderly settings log)
      (hentry : entry.Allowed settings log) : Orderly settings (entry :: log)

theorem chunkStatus_cons_of_none (h : entry.statusOf index = none) :
    chunkStatus index (entry :: log) = chunkStatus index log := by
  rw [chunkStatus, h, Option.getD_none]

theorem chunkStatus_put {request : ChunkRequest} :
    chunkStatus other (.put index request :: log) =
      if index = other then .inFlight else chunkStatus other log := by
  simp only [chunkStatus, Entry.statusOf]
  split <;> rfl

theorem chunkStatus_loaded : chunkStatus other (.loaded index status code :: log) =
    if index = other then answerStatus status code else chunkStatus other log := by
  simp only [chunkStatus, Entry.statusOf]
  split <;> rfl

theorem chunkStatus_errored : chunkStatus other (.errored index :: log) =
    if index = other then .failed else chunkStatus other log := by
  simp only [chunkStatus, Entry.statusOf]
  split <;> rfl

theorem chunkStatus_aborted : chunkStatus other (.aborted index :: log) =
    if index = other then .failed else chunkStatus other log := by
  simp only [chunkStatus, Entry.statusOf]
  split <;> rfl

theorem chunkStatus_threw : chunkStatus other (.threw index :: log) =
    if index = other then .stuck else chunkStatus other log := by
  simp only [chunkStatus, Entry.statusOf]
  split <;> rfl

/-- The chunks whose timer has thrown. -/
def thrown : List Entry → List ℕ
  | [] => []
  | .threw index :: log => index :: thrown log
  | _ :: log => thrown log

theorem Orderly.of_suffix (h : Orderly settings log) (hpast : past <:+ log) :
    Orderly settings past := by
  induction h with
  | nil =>
      rw [List.suffix_nil.mp hpast]
      exact .nil
  | cons hlog hentry ih =>
      rcases List.suffix_cons_iff.mp hpast with rfl | hpast
      · exact .cons hlog hentry
      · exact ih hpast

/-- An entry other than a request activates no chunk. -/
theorem Entry.Allowed.activeChunks_le (h : entry.Allowed settings log)
    (hlog : (activeChunks settings.count log).card ≤ settings.parallelism) :
    (activeChunks settings.count (entry :: log)).card ≤ settings.parallelism := by
  have hless : (∀ other, (chunkStatus other (entry :: log)).active = true →
      (chunkStatus other log).active = true) →
      (activeChunks settings.count (entry :: log)).card ≤ settings.parallelism := by
    intro hactive
    refine le_trans (Finset.card_le_card fun other hmem => ?_) hlog
    simp only [activeChunks, Finset.mem_filter] at hmem ⊢
    exact ⟨hmem.1, hactive other hmem.2⟩
  cases h with
  | put hquiet hindex hturn hactive => exact hactive
  | @loaded index status code hflying =>
      refine hless fun other hactive => ?_
      rw [chunkStatus_loaded] at hactive
      by_cases heq : index = other
      · rw [← heq, hflying]
        rfl
      · rwa [if_neg heq] at hactive
  | @errored index hflying =>
      refine hless fun other hactive => ?_
      rw [chunkStatus_errored] at hactive
      by_cases heq : index = other
      · rw [if_pos heq] at hactive
        cases hactive
      · rwa [if_neg heq] at hactive
  | @aborted index hflying =>
      refine hless fun other hactive => ?_
      rw [chunkStatus_aborted] at hactive
      by_cases heq : index = other
      · rw [if_pos heq] at hactive
        cases hactive
      · rwa [if_neg heq] at hactive
  | @threw index hwaiting =>
      refine hless fun other hactive => ?_
      rw [chunkStatus_threw] at hactive
      by_cases heq : index = other
      · rw [← heq, hwaiting]
        rfl
      · rwa [if_neg heq] at hactive
  | backoff => exact hless fun other hactive => hactive
  | complete => exact hless fun other hactive => hactive
  | resolved => exact hless fun other hactive => hactive
  | rejected => exact hless fun other hactive => hactive

theorem Orderly.activeChunks_le (h : Orderly settings log) :
    (activeChunks settings.count log).card ≤ settings.parallelism := by
  induction h with
  | nil => simp [activeChunks, chunkStatus, ChunkStatus.active]
  | cons _ hentry ih => exact hentry.activeChunks_le ih

theorem Orderly.settles_le (h : Orderly settings log) : log.countP Entry.settles ≤ 1 := by
  induction h with
  | nil => exact Nat.zero_le _
  | @cons log entry _ hentry ih =>
      by_cases hsettles : entry.settles = true
      · have hnone : log.countP Entry.settles = 0 := by
          rw [List.countP_eq_zero]
          intro earlier hmem
          cases hentry with
          | resolved hfirst => simp [hfirst earlier hmem]
          | rejected hfirst => simp [hfirst earlier hmem]
          | _ => cases hsettles
        rw [List.countP_cons_of_pos hsettles, hnone]
      · rwa [List.countP_cons_of_neg hsettles]

/-! ## A pending promise -/

/-- How many chunks take a place of the parallelism. -/
def ChunkUpload.places (upload : ChunkUpload) : ℕ :=
  upload.activeXhrs.length + upload.timers.length + (thrown upload.log).length

/-- The variables of the call agree with the log. -/
structure Pending (settings : Settings) (upload : ChunkUpload) : Prop where
  unsettled : upload.settled = false
  orderly : Orderly settings upload.log
  quiet : ∀ entry ∈ upload.log, entry.fails = false
  promise : ∀ entry ∈ upload.log, entry.settles = false
  flying : ∀ index, chunkStatus index upload.log = .inFlight ↔ index ∈ upload.activeXhrs
  waiting : ∀ index, chunkStatus index upload.log = .waiting ↔ index ∈ upload.timers
  stuck : ∀ index, chunkStatus index upload.log = .stuck ↔ index ∈ thrown upload.log
  nodupXhrs : upload.activeXhrs.Nodup
  nodupTimers : upload.timers.Nodup
  active : upload.active = upload.places
  bound : upload.places ≤ settings.parallelism
  started : ∀ index, chunkStatus index upload.log ≠ .unsent ↔ index < upload.nextIndex
  within : upload.nextIndex ≤ settings.count
  completed : upload.completed + upload.places = upload.nextIndex
  completing : upload.completing = 0 ∧ .complete ∉ upload.log ∨
    upload.completing = 1 ∧ upload.places = 0

/-- What `fail` needs. -/
structure Failing (settings : Settings) (upload : ChunkUpload) : Prop where
  orderly : Orderly settings upload.log
  promise : ∀ entry ∈ upload.log, entry.settles = false
  flying : ∀ index ∈ upload.activeXhrs, chunkStatus index upload.log = .inFlight
  nodupXhrs : upload.activeXhrs.Nodup
  completing : upload.completing = 0

/-- Nothing is left that could write to the log. -/
structure Ended (settings : Settings) (upload : ChunkUpload) : Prop where
  settled : upload.settled = true
  orderly : Orderly settings upload.log
  activeXhrs : upload.activeXhrs = []
  completing : upload.completing = 0

theorem Pending.completing_of_xhr (h : Pending settings upload)
    (hindex : index ∈ upload.activeXhrs) : upload.completing = 0 ∧ .complete ∉ upload.log := by
  rcases h.completing with hnone | ⟨-, hplaces⟩
  · exact hnone
  · have hpos := List.length_pos_of_mem hindex
    rw [ChunkUpload.places] at hplaces
    omega

theorem Pending.completing_of_timer (h : Pending settings upload)
    (hindex : index ∈ upload.timers) : upload.completing = 0 ∧ .complete ∉ upload.log := by
  rcases h.completing with hnone | ⟨-, hplaces⟩
  · exact hnone
  · have hpos := List.length_pos_of_mem hindex
    rw [ChunkUpload.places] at hplaces
    omega

/-- A request in flight fails. -/
theorem Pending.failing (h : Pending settings upload) (hindex : index ∈ upload.activeXhrs)
    (hentry : entry.Allowed settings upload.log) (hsettles : entry.settles = false)
    (hothers : ∀ other, other ≠ index → entry.statusOf other = none)
    (hlog : next.log = entry :: upload.log)
    (hxhrs : next.activeXhrs = upload.activeXhrs.erase index)
    (hcompleting : next.completing = upload.completing) : Failing settings next := by
  refine ⟨?_, ?_, ?_, ?_, ?_⟩
  · rw [hlog]
    exact .cons h.orderly hentry
  · rw [hlog]
    exact List.forall_mem_cons.mpr ⟨hsettles, h.promise⟩
  · intro other hother
    rw [hxhrs, h.nodupXhrs.mem_erase_iff] at hother
    rw [hlog, chunkStatus_cons_of_none (hothers other hother.1)]
    exact (h.flying other).mpr hother.2
  · rw [hxhrs]
    exact h.nodupXhrs.erase index
  · rw [hcompleting]
    exact (h.completing_of_xhr hindex).1

/-- `abort` on a request, with its `onabort` up to the `fail` that finds `settled`. -/
theorem Failing.aborted (h : Failing settings upload) (hindex : index ∈ upload.activeXhrs) :
    Failing settings ((upload.record (.aborted index)).aborted index) := by
  refine ⟨.cons h.orderly (.aborted (h.flying index hindex)),
    List.forall_mem_cons.mpr ⟨rfl, h.promise⟩, ?_, h.nodupXhrs.erase index, h.completing⟩
  intro other hother
  obtain ⟨hne, hmem⟩ := h.nodupXhrs.mem_erase_iff.mp hother
  have hother : chunkStatus other ((upload.record (.aborted index)).aborted index).log =
      chunkStatus other upload.log := chunkStatus_cons_of_none (if_neg hne.symm)
  rw [hother]
  exact h.flying other hmem

/-- The aborts of `fail`. -/
def ChunkUpload.abortAll (upload : ChunkUpload) : ChunkUpload :=
  upload.activeXhrs.foldl (fun upload index => (upload.record (.aborted index)).aborted index)
    upload

theorem Failing.abortAll (h : Failing settings upload) :
    Failing settings upload.abortAll ∧ upload.abortAll.activeXhrs = [] ∧
      upload.abortAll.settled = upload.settled := by
  unfold ChunkUpload.abortAll
  generalize hxhrs : upload.activeXhrs = xhrs
  induction xhrs generalizing upload with
  | nil => exact ⟨h, hxhrs, rfl⟩
  | cons index xhrs ih =>
      have hindex : index ∈ upload.activeXhrs := hxhrs ▸ List.mem_cons_self ..
      have hrest : ((upload.record (.aborted index)).aborted index).activeXhrs = xhrs := by
        change upload.activeXhrs.erase index = xhrs
        rw [hxhrs, List.erase_cons_head]
      exact ih (h.aborted hindex) hrest

theorem Failing.fail (h : Failing settings upload) (hunsettled : upload.settled = false)
    (failure : Failure) : Ended settings (upload.fail failure) := by
  rw [ChunkUpload.fail, if_neg (by simp [hunsettled])]
  dsimp only
  have hmarked : Failing settings { upload with settled := true } :=
    ⟨h.orderly, h.promise, h.flying, h.nodupXhrs, h.completing⟩
  obtain ⟨hfailing, hxhrs, hsettled⟩ := hmarked.abortAll
  exact ⟨hsettled, .cons hfailing.orderly (.rejected hfailing.promise), hxhrs,
    hfailing.completing⟩

/-! ## Requests -/

theorem Pending.activeChunks_le (h : Pending settings upload) :
    (activeChunks settings.count upload.log).card ≤ upload.places := by
  have hsubset : activeChunks settings.count upload.log ⊆
      (upload.activeXhrs ++ upload.timers ++ thrown upload.log).toFinset := by
    intro index hmem
    have hactive := (Finset.mem_filter.mp hmem).2
    rw [List.mem_toFinset, List.mem_append, List.mem_append]
    cases hstatus : chunkStatus index upload.log with
    | inFlight => exact .inl (.inl ((h.flying index).mp hstatus))
    | waiting => exact .inl (.inr ((h.waiting index).mp hstatus))
    | stuck => exact .inr ((h.stuck index).mp hstatus)
    | _ =>
        rw [hstatus] at hactive
        cases hactive
  calc (activeChunks settings.count upload.log).card
      ≤ (upload.activeXhrs ++ upload.timers ++ thrown upload.log).toFinset.card :=
        Finset.card_le_card hsubset
    _ ≤ (upload.activeXhrs ++ upload.timers ++ thrown upload.log).length :=
        List.toFinset_card_le _
    _ = upload.places := by rw [List.length_append, List.length_append, ChunkUpload.places]

/-- `/complete` has not been posted. -/
def Unposted (upload : ChunkUpload) : Prop := upload.completing = 0 ∧ .complete ∉ upload.log

theorem card_insert_le (hlog : ∀ other, chunkStatus other (entry :: log) =
    if index = other then .inFlight else chunkStatus other log) (count : ℕ) :
    (activeChunks count (entry :: log)).card ≤ (activeChunks count log).card + 1 := by
  refine le_trans (Finset.card_le_card (t := insert index (activeChunks count log)) ?_)
    (Finset.card_insert_le _ _)
  intro other hmem
  simp only [activeChunks, Finset.mem_filter, Finset.mem_insert] at hmem ⊢
  by_cases heq : index = other
  · exact .inl heq.symm
  · rw [hlog, if_neg heq] at hmem
    exact .inr hmem

/-- The round of `schedule` that starts the next chunk. -/
theorem Pending.start (h : Pending settings upload) (hunposted : Unposted upload)
    (hroom : upload.active < settings.parallelism) (hmore : upload.nextIndex < settings.count) :
    Pending settings
      { upload.start settings upload.nextIndex false with nextIndex := upload.nextIndex + 1 } := by
  have hunsent : chunkStatus upload.nextIndex upload.log = .unsent := by
    by_contra hsent
    exact Nat.lt_irrefl _ ((h.started _).mp hsent)
  have hnew : upload.nextIndex ∉ upload.activeXhrs := by
    rw [← h.flying, hunsent]
    simp
  have hcount := h.active
  have hput : Orderly settings (.put upload.nextIndex
      (startChunk settings.total settings.chunkSize upload.nextIndex) :: upload.log) := by
    refine .cons h.orderly (.put h.quiet hmore h.started ?_)
    have hinsert := @card_insert_le upload.log _ upload.nextIndex
      (fun other => @chunkStatus_put upload.log upload.nextIndex other
        (startChunk settings.total settings.chunkSize upload.nextIndex)) settings.count
    have hbefore := h.activeChunks_le
    omega
  have hplaces : ({ upload.start settings upload.nextIndex false with
      nextIndex := upload.nextIndex + 1 } : ChunkUpload).places = upload.places + 1 := by
    simp only [ChunkUpload.places, ChunkUpload.start, ChunkUpload.record, Bool.false_eq_true,
      if_false, thrown, List.length_append, List.length_singleton]
    omega
  -- no chunk but the new one changes its place
  have hother : ∀ index (status : ChunkStatus), status ≠ .unsent → status ≠ .inFlight →
      ((if upload.nextIndex = index then .inFlight else chunkStatus index upload.log) = status ↔
        chunkStatus index upload.log = status) := by
    intro index status hsent hquiet
    by_cases heq : upload.nextIndex = index
    · rw [if_pos heq, ← heq, hunsent]
      exact iff_of_false hquiet.symm hsent.symm
    · rw [if_neg heq]
  constructor
  · exact h.unsettled
  · exact hput
  · exact List.forall_mem_cons.mpr ⟨rfl, h.quiet⟩
  · exact List.forall_mem_cons.mpr ⟨rfl, h.promise⟩
  · intro index
    simp only [ChunkUpload.start, ChunkUpload.record, Bool.false_eq_true, if_false]
    rw [chunkStatus_put, List.mem_append, List.mem_singleton, ← h.flying]
    by_cases heq : upload.nextIndex = index
    · simp [heq]
    · simp [heq, Ne.symm heq]
  · intro index
    simp only [ChunkUpload.start, ChunkUpload.record, Bool.false_eq_true, if_false]
    rw [chunkStatus_put, hother index _ (by decide) (by decide)]
    exact h.waiting index
  · intro index
    simp only [ChunkUpload.start, ChunkUpload.record, Bool.false_eq_true, if_false]
    rw [chunkStatus_put, hother index _ (by decide) (by decide)]
    exact h.stuck index
  · exact List.nodup_append.mpr ⟨h.nodupXhrs, List.nodup_singleton _, by
      rintro index hmem other hother rfl
      exact hnew (List.mem_singleton.mp hother ▸ hmem)⟩
  · exact h.nodupTimers
  · rw [hplaces]
    simp only [ChunkUpload.start, ChunkUpload.record, Bool.false_eq_true, if_false]
    omega
  · rw [hplaces]
    omega
  · intro index
    simp only [ChunkUpload.start, ChunkUpload.record, Bool.false_eq_true, if_false]
    rw [chunkStatus_put, Nat.lt_succ_iff_lt_or_eq, ← h.started]
    by_cases heq : upload.nextIndex = index
    · simp [heq]
    · simp [heq, Ne.symm heq]
  · exact hmore
  · have hbefore := h.completed
    rw [hplaces]
    simp only [ChunkUpload.start, ChunkUpload.record, Bool.false_eq_true, if_false]
    omega
  · exact .inl ⟨hunposted.1, by simpa [ChunkUpload.start, ChunkUpload.record] using hunposted.2⟩

theorem Pending.startAll (h : Pending settings upload) (hunposted : Unposted upload) (fuel : ℕ) :
    Pending settings (ChunkUpload.startAll settings fuel upload) ∧
      Unposted (ChunkUpload.startAll settings fuel upload) := by
  induction fuel generalizing upload with
  | zero => exact ⟨h, hunposted⟩
  | succ fuel ih =>
      rw [ChunkUpload.startAll]
      by_cases hnext : upload.active < settings.parallelism ∧ upload.nextIndex < settings.count
      · rw [if_pos hnext]
        refine ih (h.start hunposted hnext.1 hnext.2) ⟨hunposted.1, ?_⟩
        have hposted := hunposted.2
        simpa [ChunkUpload.start, ChunkUpload.record] using hposted
      · rw [if_neg hnext]
        exact ⟨h, hunposted⟩

theorem chunkStatus_ne_failed (hquiet : ∀ entry ∈ log, entry.fails = false) (index : ℕ) :
    chunkStatus index log ≠ .failed := by
  induction log with
  | nil => simp [chunkStatus]
  | cons entry log ih =>
      obtain ⟨hentry, hlog⟩ := List.forall_mem_cons.mp hquiet
      have hbefore := ih hlog
      cases entry with
      | put other request =>
          rw [chunkStatus_put]
          split
          · simp
          · exact hbefore
      | loaded other status code =>
          rw [chunkStatus_loaded]
          split
          · simpa [Entry.fails] using hentry
          · exact hbefore
      | threw other =>
          rw [chunkStatus_threw]
          split
          · simp
          · exact hbefore
      | errored other => cases hentry
      | aborted other => cases hentry
      | _ => exact hbefore

/-- With all chunks answered, every one of them has been received. -/
theorem Pending.received (h : Pending settings upload)
    (hcompleted : upload.completed = settings.count) (hactive : upload.active = 0)
    (hindex : index < settings.count) : chunkStatus index upload.log = .received := by
  have hcount := h.active
  have hlength := h.completed
  have hnone : upload.places = 0 := by omega
  have hplaced : ∀ places : List ℕ, places.length ≤ upload.places → index ∉ places := by
    intro places hle hmem
    have hpos := List.length_pos_of_mem hmem
    omega
  cases hstatus : chunkStatus index upload.log with
  | received => rfl
  | unsent =>
      have hstarted : index < upload.nextIndex := by omega
      exact absurd hstatus ((h.started index).mpr hstarted)
  | inFlight =>
      exact absurd ((h.flying index).mp hstatus) (hplaced _ (by rw [ChunkUpload.places]; omega))
  | waiting =>
      exact absurd ((h.waiting index).mp hstatus) (hplaced _ (by rw [ChunkUpload.places]; omega))
  | stuck =>
      exact absurd ((h.stuck index).mp hstatus) (hplaced _ (by rw [ChunkUpload.places]; omega))
  | failed => exact absurd hstatus (chunkStatus_ne_failed h.quiet index)

theorem Pending.finish (h : Pending settings upload) (hunposted : Unposted upload)
    (hcompleted : upload.completed = settings.count) (hactive : upload.active = 0) :
    Pending settings upload.finish := by
  have hcount := h.active
  have hnone : upload.places = 0 := by omega
  rw [ChunkUpload.finish, if_neg (by simp [h.unsettled])]
  have hcomplete : Entry.Allowed settings upload.log .complete :=
    .complete h.quiet hunposted.2 fun index hindex => h.received hcompleted hactive hindex
  constructor
  · exact h.unsettled
  · exact .cons h.orderly hcomplete
  · exact List.forall_mem_cons.mpr ⟨rfl, h.quiet⟩
  · exact List.forall_mem_cons.mpr ⟨rfl, h.promise⟩
  · exact h.flying
  · exact h.waiting
  · exact h.stuck
  · exact h.nodupXhrs
  · exact h.nodupTimers
  · exact h.active
  · exact h.bound
  · exact h.started
  · exact h.within
  · exact h.completed
  · exact .inr ⟨congrArg (· + 1) hunposted.1, hnone⟩

theorem Pending.schedule (h : Pending settings upload) (hunposted : Unposted upload) :
    Pending settings (upload.schedule settings) := by
  rw [ChunkUpload.schedule, if_neg (by simp [h.unsettled])]
  dsimp only
  obtain ⟨hall, hstill⟩ := h.startAll hunposted (settings.count - upload.nextIndex)
  generalize ChunkUpload.startAll settings (settings.count - upload.nextIndex) upload = started
    at hall hstill ⊢
  by_cases hdone : started.completed = settings.count ∧ started.active = 0
  · rw [if_pos hdone]
    exact hall.finish hstill hdone.1 hdone.2
  · rw [if_neg hdone]
    exact hall

/-! ## Events -/

/-- A chunk has been received. -/
theorem Pending.load (h : Pending settings upload) (hindex : index ∈ upload.activeXhrs)
    (hstatus : answerStatus status code = .received) :
    Pending settings { upload with
      log := .loaded index status code :: upload.log
      activeXhrs := upload.activeXhrs.erase index
      active := upload.active - 1
      completed := upload.completed + 1 } := by
  have hflying := (h.flying index).mpr hindex
  obtain ⟨hcompleting, hposted⟩ := h.completing_of_xhr hindex
  have hplaces : ({ upload with
      log := .loaded index status code :: upload.log
      activeXhrs := upload.activeXhrs.erase index
      active := upload.active - 1
      completed := upload.completed + 1 } : ChunkUpload).places + 1 = upload.places := by
    have hlength := List.length_erase_of_mem hindex
    have hpos := List.length_pos_of_mem hindex
    simp only [ChunkUpload.places, thrown]
    omega
  have hother : ∀ other (status' : ChunkStatus), status' ≠ .inFlight → status' ≠ .received →
      ((if index = other then answerStatus status code else chunkStatus other upload.log) =
        status' ↔ chunkStatus other upload.log = status') := by
    intro other status' hsent hanswered
    by_cases heq : index = other
    · rw [if_pos heq, hstatus, ← heq, hflying]
      exact iff_of_false hanswered.symm hsent.symm
    · rw [if_neg heq]
  constructor
  · exact h.unsettled
  · exact .cons h.orderly (.loaded hflying)
  · exact List.forall_mem_cons.mpr ⟨by simp [Entry.fails, hstatus], h.quiet⟩
  · exact List.forall_mem_cons.mpr ⟨rfl, h.promise⟩
  · intro other
    rw [chunkStatus_loaded, h.nodupXhrs.mem_erase_iff, ← h.flying]
    by_cases heq : index = other
    · simp [heq, hstatus]
    · simp [heq, Ne.symm heq]
  · intro other
    rw [chunkStatus_loaded, hother other _ (by decide) (by decide)]
    exact h.waiting other
  · intro other
    rw [chunkStatus_loaded, hother other _ (by decide) (by decide)]
    exact h.stuck other
  · exact h.nodupXhrs.erase index
  · exact h.nodupTimers
  · have hcount := h.active
    dsimp only
    omega
  · have hbound := h.bound
    omega
  · intro other
    rw [chunkStatus_loaded, ne_eq, hother other _ (by decide) (by decide)]
    exact h.started other
  · exact h.within
  · have hcount := h.completed
    dsimp only
    omega
  · exact .inl ⟨hcompleting, by simpa using hposted⟩

/-- A chunk is to be sent again. -/
theorem Pending.backpressure (h : Pending settings upload) (hindex : index ∈ upload.activeXhrs)
    (hstatus : answerStatus status code = .waiting) (delay : ℕ) (retries : ℕ → ℕ) :
    Pending settings { upload with
      log := .backoff index delay :: .loaded index status code :: upload.log
      activeXhrs := upload.activeXhrs.erase index
      retries
      timers := index :: upload.timers } := by
  have hflying := (h.flying index).mpr hindex
  obtain ⟨hcompleting, hposted⟩ := h.completing_of_xhr hindex
  have hplaces : ({ upload with
      log := .backoff index delay :: .loaded index status code :: upload.log
      activeXhrs := upload.activeXhrs.erase index
      retries
      timers := index :: upload.timers } : ChunkUpload).places = upload.places := by
    have hlength := List.length_erase_of_mem hindex
    have hpos := List.length_pos_of_mem hindex
    simp only [ChunkUpload.places, thrown, List.length_cons]
    omega
  have hbackoff : ∀ other, chunkStatus other
      (.backoff index delay :: .loaded index status code :: upload.log) =
        if index = other then .waiting else chunkStatus other upload.log := by
    intro other
    rw [chunkStatus_cons_of_none rfl, chunkStatus_loaded, hstatus]
  have hother : ∀ other (status' : ChunkStatus), status' ≠ .inFlight → status' ≠ .waiting →
      ((if index = other then .waiting else chunkStatus other upload.log) = status' ↔
        chunkStatus other upload.log = status') := by
    intro other status' hsent hwaiting
    by_cases heq : index = other
    · rw [if_pos heq, ← heq, hflying]
      exact iff_of_false hwaiting.symm hsent.symm
    · rw [if_neg heq]
  constructor
  · exact h.unsettled
  · exact .cons (.cons h.orderly (.loaded hflying)) .backoff
  · refine List.forall_mem_cons.mpr ⟨rfl, List.forall_mem_cons.mpr ⟨?_, h.quiet⟩⟩
    simp [Entry.fails, hstatus]
  · exact List.forall_mem_cons.mpr ⟨rfl, List.forall_mem_cons.mpr ⟨rfl, h.promise⟩⟩
  · intro other
    rw [hbackoff, h.nodupXhrs.mem_erase_iff, ← h.flying]
    by_cases heq : index = other
    · simp [heq]
    · simp [heq, Ne.symm heq]
  · intro other
    rw [hbackoff, List.mem_cons, ← h.waiting]
    by_cases heq : index = other
    · simp [heq]
    · simp [heq, Ne.symm heq]
  · intro other
    rw [hbackoff, hother other _ (by decide) (by decide)]
    exact h.stuck other
  · exact h.nodupXhrs.erase index
  · refine List.nodup_cons.mpr ⟨?_, h.nodupTimers⟩
    rw [← h.waiting, hflying]
    simp
  · rw [hplaces]
    exact h.active
  · rw [hplaces]
    exact h.bound
  · intro other
    rw [hbackoff, ne_eq, hother other _ (by decide) (by decide)]
    exact h.started other
  · exact h.within
  · rw [hplaces]
    exact h.completed
  · exact .inl ⟨hcompleting, by simpa using hposted⟩

/-- The timer of a chunk throws: the chunk keeps its place, and nothing sends it again. -/
theorem Pending.threw (h : Pending settings upload) (hindex : index ∈ upload.timers) :
    Pending settings { upload with
      log := .threw index :: upload.log
      timers := upload.timers.erase index } := by
  have hwaiting := (h.waiting index).mpr hindex
  obtain ⟨hcompleting, hposted⟩ := h.completing_of_timer hindex
  have hplaces : ({ upload with
      log := .threw index :: upload.log
      timers := upload.timers.erase index } : ChunkUpload).places = upload.places := by
    have hlength := List.length_erase_of_mem hindex
    have hpos := List.length_pos_of_mem hindex
    simp only [ChunkUpload.places, thrown, List.length_cons]
    omega
  have hother : ∀ other (status : ChunkStatus), status ≠ .waiting → status ≠ .stuck →
      ((if index = other then .stuck else chunkStatus other upload.log) = status ↔
        chunkStatus other upload.log = status) := by
    intro other status hwaits hstuck
    by_cases heq : index = other
    · rw [if_pos heq, ← heq, hwaiting]
      exact iff_of_false hstuck.symm hwaits.symm
    · rw [if_neg heq]
  constructor
  · exact h.unsettled
  · exact .cons h.orderly (.threw hwaiting)
  · exact List.forall_mem_cons.mpr ⟨rfl, h.quiet⟩
  · exact List.forall_mem_cons.mpr ⟨rfl, h.promise⟩
  · intro other
    rw [chunkStatus_threw, hother other _ (by decide) (by decide)]
    exact h.flying other
  · intro other
    rw [chunkStatus_threw, h.nodupTimers.mem_erase_iff, ← h.waiting]
    by_cases heq : index = other
    · simp [heq]
    · simp [heq, Ne.symm heq]
  · intro other
    rw [chunkStatus_threw, thrown, List.mem_cons, ← h.stuck]
    by_cases heq : index = other
    · simp [heq]
    · simp [heq, Ne.symm heq]
  · exact h.nodupXhrs
  · exact h.nodupTimers.erase index
  · rw [hplaces]
    exact h.active
  · rw [hplaces]
    exact h.bound
  · intro other
    rw [chunkStatus_threw, ne_eq, hother other _ (by decide) (by decide)]
    exact h.started other
  · exact h.within
  · rw [hplaces]
    exact h.completed
  · exact .inl ⟨hcompleting, by simpa using hposted⟩

/-- The promise is pending, or the call has ended. -/
def Reachable (settings : Settings) (upload : ChunkUpload) : Prop :=
  Pending settings upload ∨ Ended settings upload

/-- The requests of the call so far. -/
def ChunkUpload.requests (upload : ChunkUpload) : List Entry :=
  upload.log.filter Entry.isRequest

theorem requests_eq (h : next.log = upload.log) : next.requests = upload.requests :=
  congrArg (List.filter Entry.isRequest) h

/-- An event that is a failure: an answer or an end of a request after which its chunk is not to
be sent again, the timer of a cancelled upload, anything but a payload from `/complete`, or the
cancel of requests in flight. -/
def ChunkUpload.fails (upload : ChunkUpload) : Event → Bool
  | .load _ status code _ =>
      (status < 200 ∨ 300 ≤ status) ∧
        ¬(codeOf code = uploadBackpressure ∧ upload.cancelRequested = false)
  | .error _ => true
  | .abort _ => true
  | .timer _ => upload.cancelRequested
  | .answer .payload => false
  | .answer _ => true
  | .cancel => upload.cancelRequested = false ∧ upload.activeXhrs ≠ []

/-- Behind the event the call goes on, or has ended; behind a failure it has ended, with no
further request. -/
structure Handles (settings : Settings) (upload : ChunkUpload) (event : Event)
    (next : ChunkUpload) : Prop where
  reachable : Reachable settings next
  ends : upload.fails event = true → Ended settings next ∧ next.requests = upload.requests

variable {event : Event}

theorem Handles.of_reachable (hreachable : Reachable settings next)
    (hfails : upload.fails event = false) : Handles settings upload event next :=
  ⟨hreachable, fun h => absurd (hfails.symm.trans h) (by decide)⟩

theorem requests_fail (upload : ChunkUpload) (failure : Failure) :
    (upload.fail failure).requests = upload.requests := by
  have habort : ∀ (xhrs : List ℕ) (upload : ChunkUpload),
      (xhrs.foldl (fun upload index => (upload.record (.aborted index)).aborted index)
        upload).requests = upload.requests := by
    intro xhrs
    induction xhrs with
    | nil => exact fun _ => rfl
    | cons index xhrs ih => exact fun upload => (ih _).trans rfl
  rw [ChunkUpload.fail]
  split
  · rfl
  · exact habort upload.activeXhrs { upload with settled := true }

/-- What has to be so for a handler that ends in `fail`. -/
theorem Failing.handles {failing : ChunkUpload} (h : Failing settings failing)
    (hunsettled : failing.settled = false) (hrequests : failing.requests = upload.requests)
    (failure : Failure) : Handles settings upload event (failing.fail failure) := by
  have hended := h.fail hunsettled failure
  exact ⟨.inr hended, fun _ => ⟨hended, (requests_fail failing failure).trans hrequests⟩⟩

theorem Pending.onload (h : Pending settings upload) (hindex : index ∈ upload.activeXhrs)
    (answer apiMessage : Option CString) :
    Handles settings upload (.load index status answer apiMessage)
      ((upload.record (.loaded index status (ChunkUpload.codeOf answer))).onload settings index
        status answer apiMessage) := by
  have hflying := (h.flying index).mpr hindex
  obtain ⟨hcompleting, hposted⟩ := h.completing_of_xhr hindex
  rw [ChunkUpload.onload]
  by_cases hrefused : status < 200 ∨ 300 ≤ status
  · rw [if_pos hrefused]
    by_cases hback : ChunkUpload.codeOf answer = ChunkUpload.uploadBackpressure ∧
        upload.cancelRequested = false
    · have hstatus : answerStatus status (ChunkUpload.codeOf answer) = .waiting := by
        rw [answerStatus, if_neg (by omega), if_pos hback.1]
      refine (if_pos hback).symm ▸ .of_reachable (.inl (h.backpressure hindex hstatus _ _)) ?_
      simp [ChunkUpload.fails, hback]
    · refine (if_neg hback).symm ▸ Failing.handles ?_ ?_ ?_ _
      · exact h.failing hindex (.loaded hflying) rfl (fun other hne => if_neg hne.symm) rfl rfl
          rfl
      · exact h.unsettled
      · rfl
  · have hstatus : answerStatus status (ChunkUpload.codeOf answer) = .received := by
      rw [answerStatus, if_pos (by omega)]
    rw [if_neg hrefused]
    refine .of_reachable (.inl ((h.load hindex hstatus).schedule ⟨hcompleting, ?_⟩)) ?_
    · simpa using hposted
    · simp [ChunkUpload.fails, hrefused]

theorem Pending.onerror (h : Pending settings upload) (hindex : index ∈ upload.activeXhrs) :
    Handles settings upload (.error index) ((upload.record (.errored index)).onerror index) := by
  have hflying := (h.flying index).mpr hindex
  rw [ChunkUpload.onerror]
  refine Failing.handles ?_ ?_ ?_ _
  · have hentry : Entry.Allowed settings upload.log (.errored index) := .errored hflying
    exact h.failing hindex hentry rfl (fun other hne => if_neg hne.symm) rfl rfl rfl
  · exact h.unsettled
  · rfl

theorem Pending.onabort (h : Pending settings upload) (hindex : index ∈ upload.activeXhrs)
    (event : Event) :
    Handles settings upload event ((upload.record (.aborted index)).onabort index) := by
  have hflying := (h.flying index).mpr hindex
  rw [ChunkUpload.onabort]
  refine Failing.handles ?_ ?_ ?_ _
  · have hentry : Entry.Allowed settings upload.log (.aborted index) := .aborted hflying
    exact h.failing hindex hentry rfl (fun other hne => if_neg hne.symm) rfl rfl rfl
  · exact h.unsettled
  · rfl

theorem Pending.ontimer (h : Pending settings upload) (hindex : index ∈ upload.timers) :
    Handles settings upload (.timer index) (upload.ontimer index) := by
  rw [ChunkUpload.ontimer]
  dsimp only
  rw [if_neg (by simp [h.unsettled])]
  by_cases hcancel : upload.cancelRequested = true
  · rw [if_pos hcancel]
    have hfailing : Failing settings { upload with
        timers := upload.timers.erase index
        active := max 0 (upload.active - 1) } :=
      ⟨h.orderly, h.promise, fun other hother => (h.flying other).mpr hother, h.nodupXhrs,
        (h.completing_of_timer hindex).1⟩
    have hrequests : ({ upload with
        timers := upload.timers.erase index
        active := max 0 (upload.active - 1) } : ChunkUpload).requests = upload.requests := rfl
    exact Failing.handles hfailing h.unsettled hrequests _
  · rw [if_neg hcancel]
    exact .of_reachable (.inl (h.threw hindex)) (by simpa [ChunkUpload.fails] using hcancel)

theorem Pending.answered (h : Pending settings upload) (hcompleting : 0 < upload.completing)
    (reply : Reply) : Handles settings upload (.answer reply)
      ({ upload with completing := upload.completing - 1 }.answered reply) := by
  obtain ⟨hone, hplaces⟩ : upload.completing = 1 ∧ upload.places = 0 :=
    h.completing.resolve_left fun hnone => by omega
  have hnone : upload.completing - 1 = 0 := by omega
  have hxhrs : upload.activeXhrs = [] := by
    rw [ChunkUpload.places] at hplaces
    exact List.eq_nil_of_length_eq_zero (by omega)
  have hfailing : Failing settings { upload with completing := upload.completing - 1 } :=
    ⟨h.orderly, h.promise, fun other hother => (h.flying other).mpr hother, h.nodupXhrs, hnone⟩
  have hrequests : ({ upload with completing := upload.completing - 1 } : ChunkUpload).requests =
      upload.requests := rfl
  cases reply with
  | payload =>
      have hended : Ended settings
          ({ upload with completing := upload.completing - 1 }.answered .payload) :=
        ⟨rfl, .cons h.orderly (.resolved h.promise), hxhrs, hnone⟩
      exact .of_reachable (.inr hended) rfl
  | notObject => exact Failing.handles hfailing h.unsettled hrequests _
  | failed failure => exact Failing.handles hfailing h.unsettled hrequests _

/-- Where no request is in flight, none is aborted. -/
theorem foldl_onabort (h : upload.activeXhrs = []) (xhrs : List ℕ) :
    xhrs.foldl (fun upload index =>
      if index ∈ upload.activeXhrs then (upload.record (.aborted index)).onabort index
      else upload) upload = upload := by
  induction xhrs with
  | nil => rfl
  | cons index xhrs ih => rw [List.foldl_cons, if_neg (by simp [h]), ih]

theorem Pending.cancelUpload (h : Pending settings upload) :
    Handles settings upload .cancel upload.cancelUpload := by
  rw [ChunkUpload.cancelUpload]
  by_cases hcancel : upload.cancelRequested = true
  · rw [if_pos hcancel]
    exact .of_reachable (.inl h) (by simp [ChunkUpload.fails, hcancel])
  rw [if_neg hcancel]
  have hmarked : Pending settings { upload with cancelRequested := true } := { h with }
  dsimp only
  cases hxhrs : upload.activeXhrs with
  | nil =>
      refine .of_reachable (.inl ?_) (by simp [ChunkUpload.fails, hxhrs])
      simp only [List.foldl_nil]
      rw [← hxhrs]
      exact hmarked
  | cons index xhrs =>
      have hindex : index ∈ upload.activeXhrs := hxhrs ▸ List.mem_cons_self ..
      have hfirst := hmarked.onabort hindex (.abort index)
      obtain ⟨hended, hrequests⟩ := hfirst.ends rfl
      rw [List.foldl_cons, ← hxhrs, if_pos hindex, foldl_onabort hended.activeXhrs]
      exact ⟨.inr hended, fun _ => ⟨hended, hrequests⟩⟩

/-- A call that has ended writes nothing to its log any more. -/
theorem Ended.step (h : Ended settings upload)
    (hstep : ChunkUpload.step settings upload event = some next) :
    Ended settings next ∧ next.log = upload.log := by
  cases event with
  | load index status code apiMessage => simp [ChunkUpload.step, h.activeXhrs] at hstep
  | error index => simp [ChunkUpload.step, h.activeXhrs] at hstep
  | abort index => simp [ChunkUpload.step, h.activeXhrs] at hstep
  | timer index =>
      rw [ChunkUpload.step] at hstep
      split at hstep
      · obtain rfl := Option.some.inj hstep
        rw [ChunkUpload.ontimer]
        dsimp only
        rw [if_pos h.settled]
        exact ⟨{ h with }, rfl⟩
      · cases hstep
  | answer reply => simp [ChunkUpload.step, h.completing] at hstep
  | cancel =>
      obtain rfl := Option.some.inj hstep
      rw [ChunkUpload.cancelUpload]
      split
      · exact ⟨h, rfl⟩
      dsimp only
      rw [h.activeXhrs, List.foldl_nil]
      exact ⟨⟨h.settled, h.orderly, rfl, h.completing⟩, rfl⟩

theorem Pending.step (h : Pending settings upload)
    (hstep : ChunkUpload.step settings upload event = some next) :
    Handles settings upload event next := by
  cases event with
  | load index status code apiMessage =>
      rw [ChunkUpload.step] at hstep
      split at hstep
      · obtain rfl := Option.some.inj hstep
        exact h.onload ‹_› code apiMessage
      · cases hstep
  | error index =>
      rw [ChunkUpload.step] at hstep
      split at hstep
      · obtain rfl := Option.some.inj hstep
        exact h.onerror ‹_›
      · cases hstep
  | abort index =>
      rw [ChunkUpload.step] at hstep
      split at hstep
      · obtain rfl := Option.some.inj hstep
        exact h.onabort ‹_› _
      · cases hstep
  | timer index =>
      rw [ChunkUpload.step] at hstep
      split at hstep
      · obtain rfl := Option.some.inj hstep
        exact h.ontimer ‹_›
      · cases hstep
  | answer reply =>
      rw [ChunkUpload.step] at hstep
      split at hstep
      · obtain rfl := Option.some.inj hstep
        exact h.answered ‹_› reply
      · cases hstep
  | cancel =>
      obtain rfl := Option.some.inj hstep
      exact h.cancelUpload

theorem Reachable.step (h : Reachable settings upload)
    (hstep : ChunkUpload.step settings upload event = some next) :
    Handles settings upload event next := by
  rcases h with hpending | hended
  · exact hpending.step hstep
  · obtain ⟨hnext, hlog⟩ := hended.step hstep
    exact ⟨.inr hnext, fun _ => ⟨hnext, requests_eq hlog⟩⟩

theorem Ended.run {events : List Event} (h : Ended settings upload)
    (hrun : Run (ChunkUpload.step settings) anyStep upload events next) :
    Ended settings next ∧ next.log = upload.log := by
  refine hrun.invariant (I := fun last => Ended settings last ∧ last.log = upload.log) ?_ ⟨h, rfl⟩
  rintro before event after ⟨hended, hlog⟩ - hstep
  obtain ⟨hafter, hsame⟩ := hended.step hstep
  exact ⟨hafter, hsame.trans hlog⟩

theorem reachable_begin (settings : Settings) (cancelRequested : Bool) :
    Reachable settings (ChunkUpload.begin settings cancelRequested) := by
  rw [ChunkUpload.begin]
  split
  · exact .inr ⟨rfl, .cons .nil (.rejected (by simp [ChunkUpload.initial])), rfl, rfl⟩
  split
  · refine .inr (Failing.fail ⟨.nil, ?_, ?_, List.nodup_nil, rfl⟩ rfl _)
    · simp [ChunkUpload.initial]
    · simp [ChunkUpload.initial]
  · refine .inl (Pending.schedule ?_ ⟨rfl, by simp [ChunkUpload.initial]⟩)
    constructor
    · rfl
    · exact .nil
    all_goals simp [ChunkUpload.initial, ChunkUpload.places, thrown, chunkStatus]

theorem reachable_run {cancelRequested : Bool} {events : List Event}
    (hrun : Run (ChunkUpload.step settings) anyStep (ChunkUpload.begin settings cancelRequested)
      events upload) : Reachable settings upload :=
  hrun.invariant (fun _ _ _ h _ hstep => (h.step hstep).reachable) (reachable_begin _ _)

theorem Reachable.orderly (h : Reachable settings upload) : Orderly settings upload.log := by
  rcases h with hpending | hended
  · exact hpending.orderly
  · exact hended.orderly

/-- In every run: no more chunks are active than the parallelism; the chunks are sent once, in the
order of their indices, and none is sent again, since the timer behind a backpressure answer
throws; `/complete` is posted at most once, after every chunk has been received; the promise is
settled at most once; and no request follows a failure, whatever comes. -/
theorem uploadChunks_orderly {cancelRequested : Bool} {events : List Event}
    (hrun : Run (ChunkUpload.step settings) anyStep (ChunkUpload.begin settings cancelRequested)
      events upload) :
    (∀ past, past <:+ upload.log →
      (activeChunks settings.count past).card ≤ settings.parallelism) ∧
    (∀ index request past, .put index request :: past <:+ upload.log →
      index < settings.count ∧
      request = startChunk settings.total settings.chunkSize index ∧
      ∀ other, chunkStatus other past ≠ .unsent ↔ other < index) ∧
    (∀ past, .complete :: past <:+ upload.log →
      .complete ∉ past ∧ ∀ index < settings.count, chunkStatus index past = .received) ∧
    upload.log.countP Entry.settles ≤ 1 ∧
    (∀ entry past, entry :: past <:+ upload.log → entry.isRequest = true →
      ∀ earlier ∈ past, earlier.fails = false) ∧
    ∀ event next later last, upload.fails event = true →
      ChunkUpload.step settings upload event = some next →
      Run (ChunkUpload.step settings) anyStep next later last →
        last.requests = upload.requests := by
  have hreachable := reachable_run hrun
  have horderly := hreachable.orderly
  have hallowed : ∀ entry past, entry :: past <:+ upload.log → entry.Allowed settings past := by
    intro entry past hpast
    cases horderly.of_suffix hpast with
    | cons _ hentry => exact hentry
  refine ⟨fun past hpast => (horderly.of_suffix hpast).activeChunks_le, ?_, ?_,
    horderly.settles_le, ?_, ?_⟩
  · intro index request past hpast
    cases hallowed _ _ hpast with
    | put hquiet hindex hturn hactive => exact ⟨hindex, rfl, hturn⟩
  · intro past hpast
    cases hallowed _ _ hpast with
    | complete hquiet hfirst hreceived => exact ⟨hfirst, hreceived⟩
  · intro entry past hpast hrequest
    cases hallowed _ _ hpast with
    | put hquiet hindex hturn hactive => exact hquiet
    | complete hquiet hfirst hreceived => exact hquiet
    | _ => cases hrequest
  · intro event next later last hfails hstep hlater
    obtain ⟨hended, hrequests⟩ := (hreachable.step hstep).ends hfails
    exact (requests_eq (hended.run hlater).2).trans hrequests

namespace Sample

/-- Three chunks, two at a time. -/
def threeChunks : Settings := ⟨10, 4, 2⟩

/-- The first chunk meets backpressure and is not sent again; the other two are received. -/
def backpressured : List Event :=
  [.load 0 503 (some ChunkUpload.uploadBackpressure) none, .load 1 200 none none, .timer 0]

def answersInTurn : List Event :=
  [.load 1 200 none none, .load 0 201 none none, .load 2 200 none none, .answer .payload]

end Sample

open Sample in
/-- All chunks are received and completed; or the timer of the first one throws, and the error of
the last one ends the call with `/complete` never posted. -/
theorem uploadChunks_threeChunks :
    (∃ upload, exec (ChunkUpload.step threeChunks) (ChunkUpload.begin threeChunks false)
      answersInTurn = some upload ∧ .complete ∈ upload.log ∧ upload.settled = true ∧
        upload.log.countP Entry.settles ≤ 1) ∧
    ∃ upload, exec (ChunkUpload.step threeChunks) (ChunkUpload.begin threeChunks false)
      backpressured = some upload ∧ .threw 0 ∈ upload.log ∧ upload.fails (.error 2) = true ∧
        ∀ next later last, ChunkUpload.step threeChunks upload (.error 2) = some next →
          Run (ChunkUpload.step threeChunks) anyStep next later last →
            last.requests = upload.requests := by
  have hanswered : ∃ upload, exec (ChunkUpload.step threeChunks)
      (ChunkUpload.begin threeChunks false) answersInTurn = some upload ∧
        .complete ∈ upload.log ∧ upload.settled = true :=
    exists_of_exec (by decide +kernel)
  have hback : ∃ upload, exec (ChunkUpload.step threeChunks)
      (ChunkUpload.begin threeChunks false) backpressured = some upload ∧
        .threw 0 ∈ upload.log ∧ upload.fails (.error 2) = true :=
    exists_of_exec (by decide +kernel)
  obtain ⟨answered, hexec, hcomplete, hsettled⟩ := hanswered
  obtain ⟨stuck, hexec', hthrew, hfails⟩ := hback
  obtain ⟨-, -, -, honce, -, -⟩ :=
    uploadChunks_orderly (Run.of_exec (fun _ _ _ => trivial) hexec)
  obtain ⟨-, -, -, -, -, hends⟩ :=
    uploadChunks_orderly (Run.of_exec (fun _ _ _ => trivial) hexec')
  exact ⟨⟨answered, hexec, hcomplete, hsettled, honce⟩, stuck, hexec', hthrew, hfails,
    fun next later last => hends (.error 2) next later last hfails⟩

end LocalSend.Web
