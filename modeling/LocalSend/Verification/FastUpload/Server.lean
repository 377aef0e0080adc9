import Mathlib.Data.List.Perm.Subperm
import LocalSend.Model.FastUpload.Server

/-! # Slots, descriptors and the end of the fast upload server

In every interleaving of the accept thread, the workers, the stop and the rest of the process.
-/

namespace LocalSend.FastUpload.Server

open Transition

/-! ## Who holds what -/

/-- The connection `accept_main` has a slot for. -/
def AcceptPc.holder : AcceptPc → Option Connection
  | .reserved connection => some connection
  | .allocated connection => some connection
  | .releasing connection => some connection
  | _ => none

/-- The connections that have a slot. -/
def Sys.holders (sys : Sys) : List Connection :=
  sys.accept.holder.toList ++ sys.workers.map Worker.connection

/-- The number and the descriptor of a connection. -/
def Connection.key (connection : Connection) : ℕ × ℕ := (connection.serial, connection.descriptor)

/-- The connection `accept_main` has open. -/
def AcceptPc.opened : AcceptPc → Option (ℕ × ℕ)
  | .accepted serial descriptor => some (serial, descriptor)
  | .reserved connection => some connection.key
  | .allocated connection => some connection.key
  | .releasing connection => some connection.key
  | .closing serial descriptor => some (serial, descriptor)
  | _ => none

/-- The connection the worker has open. -/
def Worker.served (worker : Worker) : Option Connection :=
  match worker.pc with
  | .unregistering => none
  | _ => some worker.connection

def Worker.opened (worker : Worker) : Option (ℕ × ℕ) := worker.served.map Connection.key

/-- The connections that have a slot and are open. -/
def Sys.served (sys : Sys) : List Connection :=
  sys.accept.holder.toList ++ sys.workers.filterMap Worker.served

/-- All connections that are open. -/
def Sys.opened (sys : Sys) : List (ℕ × ℕ) :=
  sys.accept.opened.toList ++ sys.workers.filterMap Worker.opened

/-- Every entry of `client_fds` is that of one holder, and the holders are counted. -/
structure Slots (shared : Shared) (holders : List Connection) : Prop where
  entry : ∀ slot descriptor, shared.clientFds slot = some descriptor ↔
    ∃ connection ∈ holders, connection.slot = slot ∧ connection.descriptor = descriptor
  slot_lt : ∀ connection ∈ holders, connection.slot < FAST_UPLOAD_CONNECTION_LIMIT
  apart : (holders.map Connection.slot).Nodup
  active : shared.activeWorkers = holders.length

/-- The open connections are those the table of descriptors has. -/
structure Sockets (serials : ℕ) (sockets : ℕ → Option Socket) (opened : List (ℕ × ℕ)) :
    Prop where
  entry : ∀ serial descriptor, (serial, descriptor) ∈ opened ↔
    ∃ shut, sockets descriptor = some ⟨.connection serial, shut⟩
  fresh : ∀ key ∈ opened, key.1 < serials
  apart : opened.Nodup

/-- The stop goes through its stages in order, and sleeps only with workers left. -/
structure Stages (sys : Sys) : Prop where
  called : sys.shared.stopping = true ↔ sys.stop ≠ .uncalled
  deaf : sys.stop ≠ .uncalled → sys.stop ≠ .flagged → sys.listening = false
  joined : sys.stop = .checking ∨ sys.stop = .sleeping ∨ sys.stop = .freed →
    sys.accept = .finished
  asleep : sys.stop = .sleeping → sys.shared.activeWorkers ≠ 0
  freed : sys.stop = .freed → sys.shared.activeWorkers = 0

/-- The open connections with a slot have been shut down. -/
def Shut (sys : Sys) : Prop :=
  ∀ connection ∈ sys.served,
    sys.sockets connection.descriptor = some ⟨.connection connection.serial, true⟩

/-- What holds between any two steps. -/
structure Inv (sys : Sys) : Prop where
  slots : Slots sys.shared sys.holders
  sockets : Sockets sys.serials sys.sockets sys.opened
  stages : Stages sys
  shut : sys.shared.stopping = true → Shut sys

/-! ## Slots -/

variable {shared shared' : Shared} {holders holders' : List Connection}

theorem Slots.perm (h : Slots shared holders) (hperm : holders'.Perm holders) :
    Slots shared holders' := by
  refine ⟨?_, ?_, ?_, ?_⟩
  · intro slot descriptor
    rw [h.entry]
    simp only [hperm.mem_iff]
  · intro connection hmem
    exact h.slot_lt connection (hperm.mem_iff.mp hmem)
  · exact (hperm.map _).nodup_iff.mpr h.apart
  · rw [h.active, hperm.length_eq]

/-- The flag of the stop is no part of the slots. -/
theorem Slots.setStopping (h : Slots shared holders) (stopping : Bool) :
    Slots { shared with stopping } holders :=
  ⟨h.entry, h.slot_lt, h.apart, h.active⟩

/-- A slot that is reserved was free. -/
theorem reserveSlot_eq {descriptor slot : ℕ}
    (h : reserveSlot shared descriptor = some (slot, shared')) :
    shared.stopping = false ∧ slot < FAST_UPLOAD_CONNECTION_LIMIT ∧
      shared.clientFds slot = none ∧
      shared' = { shared with
        clientFds := Function.update shared.clientFds slot (some descriptor)
        activeWorkers := shared.activeWorkers + 1 } := by
  unfold reserveSlot at h
  split at h
  · cases h
  rename_i hstopping
  obtain ⟨index, hfind, heq⟩ := Option.map_eq_some_iff.mp h
  obtain ⟨rfl, rfl⟩ := Prod.mk.inj heq
  have hmem := List.mem_of_find?_eq_some hfind
  have hfree := List.find?_some hfind
  exact ⟨by simpa using hstopping, List.mem_range.mp hmem, by simpa using hfree, rfl⟩

theorem Slots.reserve (h : Slots shared holders) {serial descriptor slot : ℕ}
    (hreserve : reserveSlot shared descriptor = some (slot, shared')) :
    Slots shared' (⟨serial, descriptor, slot⟩ :: holders) := by
  obtain ⟨-, hlt, hfree, rfl⟩ := reserveSlot_eq hreserve
  have hne : ∀ connection ∈ holders, connection.slot ≠ slot := by
    intro connection hmem heq
    have hentry := (h.entry slot connection.descriptor).mpr ⟨connection, hmem, heq, rfl⟩
    rw [hfree] at hentry
    cases hentry
  refine ⟨?_, ?_, ?_, ?_⟩
  · intro other descriptor'
    simp only [Function.update_apply, List.mem_cons, exists_eq_or_imp]
    split
    · rename_i heq
      subst heq
      constructor
      · intro hsome
        exact .inl ⟨rfl, Option.some.inj hsome⟩
      · rintro (⟨-, rfl⟩ | ⟨connection, hmem, heq, -⟩)
        · rfl
        · exact absurd heq (hne connection hmem)
    · rename_i hother
      rw [h.entry]
      constructor
      · exact .inr
      · rintro (⟨heq, -⟩ | hheld)
        · exact absurd heq.symm hother
        · exact hheld
  · intro connection hmem
    rcases List.mem_cons.mp hmem with rfl | hmem
    · exact hlt
    · exact h.slot_lt connection hmem
  · refine List.nodup_cons.mpr ⟨?_, h.apart⟩
    intro hmem
    obtain ⟨connection, hheld, heq⟩ := List.mem_map.mp hmem
    exact hne connection hheld heq
  · simp [h.active]

/-- A holder gives its slot back; the count is never found at zero. -/
theorem Slots.release {connection : Connection} (h : Slots shared (connection :: holders)) :
    Slots (releaseSlot shared connection.slot) holders := by
  obtain ⟨hnotMem, hapart⟩ := List.nodup_cons.mp h.apart
  have hne : ∀ other ∈ holders, other.slot ≠ connection.slot := by
    intro other hmem heq
    exact hnotMem (List.mem_map.mpr ⟨other, hmem, heq⟩)
  refine ⟨?_, ?_, hapart, ?_⟩
  · intro slot descriptor
    simp only [releaseSlot, Function.update_apply]
    split
    · rename_i heq
      subst heq
      constructor
      · intro hsome
        cases hsome
      · rintro ⟨other, hmem, heq, -⟩
        exact absurd heq (hne other hmem)
    · rename_i hother
      rw [h.entry]
      simp only [List.mem_cons, exists_eq_or_imp]
      constructor
      · rintro (⟨heq, -⟩ | hheld)
        · exact absurd heq.symm hother
        · exact hheld
      · exact .inr
  · intro other hmem
    exact h.slot_lt other (List.mem_cons_of_mem _ hmem)
  · have hactive := h.active
    simp only [List.length_cons] at hactive
    simp only [releaseSlot, if_pos (Nat.lt_of_lt_of_eq (Nat.succ_pos _) hactive.symm)]
    omega

/-- There are no more holders than slots. -/
theorem Slots.length_le (h : Slots shared holders) :
    holders.length ≤ FAST_UPLOAD_CONNECTION_LIMIT := by
  have hsubset : holders.map Connection.slot ⊆ List.range FAST_UPLOAD_CONNECTION_LIMIT := by
    intro slot hmem
    obtain ⟨connection, hheld, rfl⟩ := List.mem_map.mp hmem
    exact List.mem_range.mpr (h.slot_lt connection hheld)
  simpa using (h.apart.subperm hsubset).length_le

/-- Every descriptor of a holder is in `client_fds`. -/
theorem Slots.lists (h : Slots shared holders) {connection : Connection}
    (hmem : connection ∈ holders) : shared.lists connection.descriptor = true := by
  refine List.any_eq_true.mpr ⟨connection.slot, List.mem_range.mpr (h.slot_lt _ hmem), ?_⟩
  exact decide_eq_true ((h.entry _ _).mpr ⟨connection, hmem, rfl, rfl⟩)

/-! ## Descriptors -/

variable {serials serial descriptor : ℕ} {sockets : ℕ → Option Socket}
  {opened opened' : List (ℕ × ℕ)}

theorem Sockets.perm (h : Sockets serials sockets opened) (hperm : opened'.Perm opened) :
    Sockets serials sockets opened' := by
  refine ⟨?_, ?_, hperm.nodup_iff.mpr h.apart⟩
  · intro serial descriptor
    rw [hperm.mem_iff, h.entry]
  · intro key hmem
    exact h.fresh key (hperm.mem_iff.mp hmem)

/-- A connection is accepted under a number nobody has had. -/
theorem Sockets.connect (h : Sockets serials sockets opened) (hfree : sockets descriptor = none) :
    Sockets (serials + 1)
      (Function.update sockets descriptor (some ⟨.connection serials, false⟩))
      ((serials, descriptor) :: opened) := by
  have hnew : (serials, descriptor) ∉ opened := by
    intro hmem
    exact absurd (h.fresh _ hmem) (Nat.lt_irrefl _)
  have hne : ∀ serial other, (serial, other) ∈ opened → other ≠ descriptor := by
    rintro serial _ hmem rfl
    obtain ⟨shut, hentry⟩ := (h.entry ..).mp hmem
    rw [hfree] at hentry
    cases hentry
  refine ⟨?_, ?_, List.nodup_cons.mpr ⟨hnew, h.apart⟩⟩
  · intro serial other
    by_cases hother : other = descriptor
    · subst hother
      rw [Function.update_self, List.mem_cons]
      constructor
      · rintro (heq | hmem)
        · obtain ⟨rfl, -⟩ := Prod.mk.inj heq
          exact ⟨false, rfl⟩
        · exact absurd rfl (hne serial other hmem)
      · rintro ⟨shut, heq⟩
        obtain ⟨rfl, -⟩ := Owner.connection.inj (congrArg Socket.owner (Option.some.inj heq))
        exact .inl rfl
    · rw [Function.update_of_ne hother, List.mem_cons, h.entry]
      simp [hother]
  · intro key hmem
    rcases List.mem_cons.mp hmem with rfl | hmem
    · exact Nat.lt_succ_self _
    · exact Nat.lt_succ_of_lt (h.fresh key hmem)

/-- No two open connections have one descriptor. -/
theorem Sockets.descriptor_ne (h : Sockets serials sockets ((serial, descriptor) :: opened))
    {key : ℕ × ℕ} (hmem : key ∈ opened) : key.2 ≠ descriptor := by
  obtain ⟨other, descriptor'⟩ := key
  rintro rfl
  obtain ⟨shut, hown⟩ := (h.entry serial descriptor').mp (List.mem_cons_self ..)
  obtain ⟨shut', hother⟩ := (h.entry other descriptor').mp (List.mem_cons_of_mem _ hmem)
  rw [hown] at hother
  obtain rfl := Owner.connection.inj (congrArg Socket.owner (Option.some.inj hother))
  exact (List.nodup_cons.mp h.apart).1 hmem

/-- Who closes a connection has it open, and nobody else has its descriptor. -/
theorem Sockets.disconnect (h : Sockets serials sockets ((serial, descriptor) :: opened)) :
    Sockets serials (Function.update sockets descriptor none) opened := by
  obtain ⟨hnotMem, hapart⟩ := List.nodup_cons.mp h.apart
  refine ⟨?_, fun key hmem => h.fresh key (List.mem_cons_of_mem _ hmem), hapart⟩
  intro other descriptor'
  by_cases heq : descriptor' = descriptor
  · subst heq
    rw [Function.update_self]
    constructor
    · intro hmem
      exact absurd rfl (h.descriptor_ne hmem)
    · rintro ⟨shut, hnone⟩
      cases hnone
  · rw [Function.update_of_ne heq, ← h.entry, List.mem_cons]
    simp [heq]

/-- What others open and close is no connection. -/
theorem Sockets.elsewhere (h : Sockets serials sockets opened)
    (hother : ∀ serial shut, sockets descriptor ≠ some ⟨.connection serial, shut⟩)
    {socket : Option Socket}
    (hsocket : ∀ serial shut, socket ≠ some ⟨.connection serial, shut⟩) :
    Sockets serials (Function.update sockets descriptor socket) opened := by
  refine ⟨?_, h.fresh, h.apart⟩
  intro serial other
  rw [h.entry]
  by_cases heq : other = descriptor
  · subst heq
    rw [Function.update_self]
    constructor
    · rintro ⟨shut, hown⟩
      exact absurd hown (hother serial shut)
    · rintro ⟨shut, hown⟩
      exact absurd hown (hsocket serial shut)
  · rw [Function.update_of_ne heq]

theorem shutdownClients_eq {socket : Socket} (hsocket : sockets descriptor = some socket) :
    ∃ shut, shutdownClients shared sockets descriptor = some { socket with shut } := by
  unfold shutdownClients
  split
  · exact ⟨true, by rw [hsocket, Option.map_some]⟩
  · exact ⟨socket.shut, hsocket⟩

theorem shutdownClients_none (hsocket : sockets descriptor = none) :
    shutdownClients shared sockets descriptor = none := by
  unfold shutdownClients
  split
  · rw [hsocket, Option.map_none]
  · exact hsocket

/-- A `shutdown` closes nothing. -/
theorem Sockets.shutdown (h : Sockets serials sockets opened) (shared : Shared) :
    Sockets serials (shutdownClients shared sockets) opened := by
  refine ⟨?_, h.fresh, h.apart⟩
  intro serial descriptor
  rw [h.entry]
  cases hsocket : sockets descriptor with
  | none => rw [shutdownClients_none hsocket]
  | some socket =>
      have hshut : ∃ shut, shutdownClients shared sockets descriptor =
          some { socket with shut } := shutdownClients_eq hsocket
      obtain ⟨shut, heq⟩ := hshut
      obtain ⟨owner, shut'⟩ := socket
      rw [heq]
      simp

/-! ## Steps -/

variable {sys next : Sys}

/-- What a step does, and where it may be taken. -/
inductive Stepped (sys : Sys) : Action → Sys → Prop
  | accept {descriptor : ℕ} (haccept : sys.accept = .accepting)
      (hlistening : sys.listening = true) (hfree : sys.sockets descriptor = none) :
      Stepped sys (.accept descriptor)
        { sys.setSocket descriptor (some ⟨.connection sys.serials, false⟩) with
          accept := .accepted sys.serials descriptor
          serials := sys.serials + 1 }
  | interrupted (haccept : sys.accept = .accepting) : Stepped sys (.acceptFails true) sys
  | failed (haccept : sys.accept = .accepting) :
      Stepped sys (.acceptFails false) { sys with accept := .failed }
  | finished (haccept : sys.accept = .failed) (hstopping : sys.shared.stopping = true) :
      Stepped sys .checkStopping { sys with accept := .finished }
  | goesOn (haccept : sys.accept = .failed) (hstopping : sys.shared.stopping = false) :
      Stepped sys .checkStopping { sys with accept := .accepting }
  | refused {serial descriptor : ℕ} (haccept : sys.accept = .accepted serial descriptor) :
      Stepped sys .reserve { sys with accept := .closing serial descriptor }
  | reserved {serial descriptor slot : ℕ} {shared : Shared}
      (haccept : sys.accept = .accepted serial descriptor)
      (hreserve : reserveSlot sys.shared descriptor = some (slot, shared)) :
      Stepped sys .reserve { sys with shared, accept := .reserved ⟨serial, descriptor, slot⟩ }
  | allocate {connection : Connection} (succeeds : Bool)
      (haccept : sys.accept = .reserved connection) :
      Stepped sys (.allocate succeeds)
        { sys with accept := if succeeds then .allocated connection else .releasing connection }
  | created {connection : Connection} (haccept : sys.accept = .allocated connection) :
      Stepped sys (.create true)
        { sys with accept := .accepting, workers := ⟨connection, .serving⟩ :: sys.workers }
  | uncreated {connection : Connection} (haccept : sys.accept = .allocated connection) :
      Stepped sys (.create false) { sys with accept := .releasing connection }
  | release {connection : Connection} (haccept : sys.accept = .releasing connection) :
      Stepped sys .release { sys.free connection.slot with
        accept := .closing connection.serial connection.descriptor }
  | closeUnserved {serial descriptor : ℕ} (haccept : sys.accept = .closing serial descriptor) :
      Stepped sys .closeUnserved { sys.setSocket descriptor none with accept := .accepting }
  | serve {index : ℕ} {connection : Connection}
      (hworker : sys.workers[index]? = some ⟨connection, .serving⟩) :
      Stepped sys (.serve index)
        { sys with workers := sys.workers.set index ⟨connection, .closing⟩ }
  | close {index : ℕ} {connection : Connection}
      (hworker : sys.workers[index]? = some ⟨connection, .closing⟩) :
      Stepped sys (.close index) { sys.setSocket connection.descriptor none with
        workers := sys.workers.set index ⟨connection, .unregistering⟩ }
  | unregister {index : ℕ} {connection : Connection}
      (hworker : sys.workers[index]? = some ⟨connection, .unregistering⟩) :
      Stepped sys (.unregister index)
        { sys.free connection.slot with workers := sys.workers.eraseIdx index }
  | stop (hstop : sys.stop = .uncalled) :
      Stepped sys .stop { sys with
        shared := { sys.shared with stopping := true }
        sockets := shutdownClients sys.shared sys.sockets
        stop := .flagged }
  | closeListener (hstop : sys.stop = .flagged) :
      Stepped sys .closeListener { sys with listening := false, stop := .joining }
  | join (hstop : sys.stop = .joining) (haccept : sys.accept = .finished) :
      Stepped sys .join { sys with stop := .checking }
  | freed (hstop : sys.stop = .checking) (hactive : sys.shared.activeWorkers = 0) :
      Stepped sys .check { sys with stop := .freed }
  | sleeps (hstop : sys.stop = .checking) (hactive : sys.shared.activeWorkers ≠ 0) :
      Stepped sys .check { sys with stop := .sleeping }
  | wake (hstop : sys.stop = .sleeping) : Stepped sys .wake { sys with stop := .checking }
  | openElsewhere {descriptor : ℕ} (hfree : sys.sockets descriptor = none) :
      Stepped sys (.openElsewhere descriptor)
        (sys.setSocket descriptor (some ⟨.elsewhere, false⟩))
  | closeElsewhere {descriptor : ℕ} {shut : Bool}
      (hother : sys.sockets descriptor = some ⟨.elsewhere, shut⟩) :
      Stepped sys (.closeElsewhere descriptor) (sys.setSocket descriptor none)

theorem acceptStep_stepped {action : Action}
    (h : acceptStep sys action sys.accept = some next) : Stepped sys action next := by
  cases haccept : sys.accept <;> rw [haccept] at h <;> cases action <;>
    simp only [acceptStep, reduceCtorEq] at h
  case accepting.accept descriptor =>
    split at h
    · rename_i hfree
      cases h
      exact .accept haccept hfree.1 hfree.2
    · cases h
  case accepting.acceptFails interrupted =>
    cases interrupted <;> cases h
    · exact .failed haccept
    · have hsame : { sys with accept := .accepting } = sys := by rw [← haccept]
      rw [if_pos rfl, hsame]
      exact .interrupted haccept
  case failed.checkStopping =>
    cases h
    split
    · rename_i hstopping
      exact .finished haccept hstopping
    · rename_i hstopping
      exact .goesOn haccept (by simpa using hstopping)
  case accepted.reserve serial descriptor =>
    split at h
    · cases h
      exact .refused haccept
    · rename_i slot shared hreserve
      cases h
      exact .reserved haccept hreserve
  case reserved.allocate connection succeeds =>
    cases h
    exact .allocate succeeds haccept
  case allocated.create connection succeeds =>
    cases succeeds <;> cases h
    · exact .uncreated haccept
    · exact .created haccept
  case releasing.release connection =>
    cases h
    exact .release haccept
  case closing.closeUnserved serial descriptor =>
    cases h
    exact .closeUnserved haccept

theorem stopStep_stepped {action : Action} (h : stopStep sys action sys.stop = some next) :
    Stepped sys action next := by
  cases hstop : sys.stop <;> rw [hstop] at h <;> cases action <;>
    simp only [stopStep, reduceCtorEq] at h
  case uncalled.stop =>
    cases h
    exact .stop hstop
  case flagged.closeListener =>
    cases h
    exact .closeListener hstop
  case joining.join =>
    split at h
    · rename_i haccept
      cases h
      exact .join hstop haccept
    · cases h
  case checking.check =>
    cases h
    split
    · rename_i hactive
      exact .freed hstop hactive
    · rename_i hactive
      exact .sleeps hstop hactive
  case sleeping.wake =>
    cases h
    exact .wake hstop

theorem step_stepped {action : Action} (h : step sys action = some next) :
    Stepped sys action next := by
  cases action with
  | serve index =>
      obtain ⟨⟨connection, pc⟩, hworker, hstep⟩ := Option.bind_eq_some_iff.mp h
      cases pc <;> cases hstep
      exact .serve hworker
  | close index =>
      obtain ⟨⟨connection, pc⟩, hworker, hstep⟩ := Option.bind_eq_some_iff.mp h
      cases pc <;> cases hstep
      exact .close hworker
  | unregister index =>
      obtain ⟨⟨connection, pc⟩, hworker, hstep⟩ := Option.bind_eq_some_iff.mp h
      cases pc <;> cases hstep
      exact .unregister hworker
  | openElsewhere descriptor =>
      simp only [step] at h
      split at h
      · rename_i hfree
        cases h
        exact .openElsewhere hfree
      · cases h
  | closeElsewhere descriptor =>
      simp only [step] at h
      split at h
      · rename_i shut hother
        cases h
        exact .closeElsewhere hother
      · cases h
  | stop => exact stopStep_stepped h
  | closeListener => exact stopStep_stepped h
  | join => exact stopStep_stepped h
  | check => exact stopStep_stepped h
  | wake => exact stopStep_stepped h
  | _ => exact acceptStep_stepped h

/-! ## What every step keeps -/

/-- The other workers. -/
def Sys.others (sys : Sys) (index : ℕ) : List Worker := sys.workers.eraseIdx index

theorem workers_perm {index : ℕ} {worker : Worker} (h : sys.workers[index]? = some worker) :
    sys.workers.Perm (worker :: sys.others index) := by
  obtain ⟨hlt, rfl⟩ := List.getElem?_eq_some_iff.mp h
  exact (List.getElem_cons_eraseIdx_perm hlt).symm

theorem set_perm {index : ℕ} {worker : Worker} (h : sys.workers[index]? = some worker)
    (worker' : Worker) : (sys.workers.set index worker').Perm (worker' :: sys.others index) := by
  obtain ⟨hlt, -⟩ := List.getElem?_eq_some_iff.mp h
  exact List.set_perm_cons_eraseIdx hlt worker'

/-- The holders, that of one worker first. -/
theorem holders_perm (accept : AcceptPc) {workers others : List Worker} {worker : Worker}
    (h : workers.Perm (worker :: others)) :
    (accept.holder.toList ++ workers.map Worker.connection).Perm
      (worker.connection :: (accept.holder.toList ++ others.map Worker.connection)) :=
  ((h.map _).append_left _).trans List.perm_middle

/-- What the accept thread and the workers have open, that of one worker first. -/
theorem filterMap_perm {β : Type} (front : List β) (f : Worker → Option β)
    {workers others : List Worker} {worker : Worker} (h : workers.Perm (worker :: others)) :
    (front ++ workers.filterMap f).Perm
      ((f worker).toList ++ (front ++ others.filterMap f)) := by
  refine ((h.filterMap f).append_left front).trans ?_
  cases hworker : f worker <;> simp [hworker]

theorem slots_step {action : Action} (h : Slots sys.shared sys.holders)
    (hstep : Stepped sys action next) : Slots next.shared next.holders := by
  cases hstep with
  | accept haccept | failed haccept | finished haccept | goesOn haccept | refused haccept
  | closeUnserved haccept =>
      simpa [Sys.holders, Sys.setSocket, haccept, AcceptPc.holder] using h
  | interrupted => exact h
  | @reserved serial descriptor slot shared haccept hreserve =>
      have hnone : sys.accept.holder = none := by rw [haccept]; rfl
      simp only [Sys.holders, hnone, Option.toList_none, List.nil_append] at h
      exact h.reserve hreserve
  | allocate succeeds haccept =>
      cases succeeds <;> simpa [Sys.holders, haccept, AcceptPc.holder] using h
  | created haccept | uncreated haccept =>
      simpa [Sys.holders, haccept, AcceptPc.holder] using h
  | @release connection haccept =>
      have hholder : sys.accept.holder = some connection := by rw [haccept]; rfl
      simp only [Sys.holders, hholder, Option.toList_some] at h
      exact h.release
  | serve hworker =>
      exact h.perm ((holders_perm _ (set_perm hworker _)).trans
        (holders_perm sys.accept (workers_perm hworker)).symm)
  | close hworker =>
      exact h.perm ((holders_perm _ (set_perm hworker _)).trans
        (holders_perm sys.accept (workers_perm hworker)).symm)
  | unregister hworker => exact (h.perm (holders_perm _ (workers_perm hworker)).symm).release
  | stop => exact h.setStopping true
  | closeListener => exact h
  | join => exact h
  | freed => exact h
  | sleeps => exact h
  | wake => exact h
  | openElsewhere => exact h
  | closeElsewhere => exact h

theorem sockets_step {action : Action} (h : Sockets sys.serials sys.sockets sys.opened)
    (hstep : Stepped sys action next) : Sockets next.serials next.sockets next.opened := by
  cases hstep with
  | @accept descriptor haccept hlistening hfree =>
      have hnone : sys.accept.opened = none := by rw [haccept]; rfl
      simp only [Sys.opened, hnone, Option.toList_none, List.nil_append] at h
      exact h.connect hfree
  | interrupted => exact h
  | failed haccept | finished haccept | goesOn haccept | refused haccept | reserved haccept
  | uncreated haccept | release haccept =>
      simpa [Sys.opened, Sys.free, haccept, AcceptPc.opened, Connection.key] using h
  | allocate succeeds haccept =>
      cases succeeds <;> simpa [Sys.opened, haccept, AcceptPc.opened] using h
  | created haccept =>
      simpa [Sys.opened, haccept, AcceptPc.opened, Worker.opened, Worker.served] using h
  | @closeUnserved serial descriptor haccept =>
      have hopened : sys.accept.opened = some (serial, descriptor) := by rw [haccept]; rfl
      simp only [Sys.opened, hopened, Option.toList_some] at h
      exact h.disconnect
  | serve hworker =>
      exact h.perm ((filterMap_perm _ _ (set_perm hworker _)).trans
        (filterMap_perm sys.accept.opened.toList Worker.opened (workers_perm hworker)).symm)
  | close hworker =>
      have hopen := (h.perm (filterMap_perm _ _ (workers_perm hworker)).symm).disconnect
      exact hopen.perm (filterMap_perm _ _ (set_perm hworker _))
  | unregister hworker =>
      exact h.perm (filterMap_perm sys.accept.opened.toList Worker.opened
        (workers_perm hworker)).symm
  | stop => exact h.shutdown sys.shared
  | closeListener => exact h
  | join => exact h
  | freed => exact h
  | sleeps => exact h
  | wake => exact h
  | openElsewhere hfree =>
      refine h.elsewhere ?_ ?_
      · intro serial shut howned
        rw [hfree] at howned
        cases howned
      · intro serial shut howned
        cases howned
  | closeElsewhere hother =>
      refine h.elsewhere ?_ ?_
      · intro serial shut howned
        rw [hother] at howned
        cases howned
      · intro serial shut howned
        cases howned

theorem mem_holders_of_served {connection : Connection} (h : connection ∈ sys.served) :
    connection ∈ sys.holders := by
  rcases List.mem_append.mp h with hmem | hmem
  · exact List.mem_append_left _ hmem
  · obtain ⟨⟨connection', pc⟩, hworker, hserved⟩ := List.mem_filterMap.mp hmem
    refine List.mem_append_right _ (List.mem_map.mpr ⟨_, hworker, ?_⟩)
    cases pc <;> cases hserved <;> rfl

theorem mem_opened_of_served {connection : Connection} (h : connection ∈ sys.served) :
    connection.key ∈ sys.opened := by
  rcases List.mem_append.mp h with hmem | hmem
  · refine List.mem_append_left _ ?_
    cases haccept : sys.accept <;> simp_all [AcceptPc.holder, AcceptPc.opened]
  · obtain ⟨worker, hworker, hserved⟩ := List.mem_filterMap.mp hmem
    refine List.mem_append_right _ (List.mem_filterMap.mpr ⟨worker, hworker, ?_⟩)
    rw [Worker.opened, hserved, Option.map_some]

/-- What happens at a descriptor no connection served has leaves these shut down. -/
theorem Shut.update (h : Shut sys) {descriptor : ℕ} {socket : Option Socket}
    (hserved : ∀ connection ∈ next.served,
      connection ∈ sys.served ∧ connection.descriptor ≠ descriptor)
    (hsockets : next.sockets = Function.update sys.sockets descriptor socket) : Shut next := by
  intro connection hmem
  obtain ⟨hmem', hne⟩ := hserved connection hmem
  rw [hsockets, Function.update_of_ne hne]
  exact h connection hmem'

theorem Shut.mono (h : Shut sys) (hserved : ∀ connection ∈ next.served, connection ∈ sys.served)
    (hsockets : next.sockets = sys.sockets) : Shut next := by
  intro connection hmem
  rw [hsockets]
  exact h connection (hserved connection hmem)

theorem woken_ne_uncalled (pc : StopPc) : pc.woken ≠ .uncalled ↔ pc ≠ .uncalled := by
  cases pc <;> simp [StopPc.woken]

/-- A broadcast leaves nobody asleep. -/
theorem woken_ne_sleeping (pc : StopPc) : pc.woken ≠ .sleeping := by
  cases pc <;> simp [StopPc.woken]

theorem woken_checking {pc : StopPc} (h : pc.woken = .checking) :
    pc = .checking ∨ pc = .sleeping := by
  cases pc <;> simp_all [StopPc.woken]

theorem woken_freed {pc : StopPc} (h : pc.woken = .freed) : pc = .freed := by
  cases pc <;> first | rfl | cases h

/-- With the accept thread gone nothing is accepted any more. -/
theorem Stages.accept_ne (h : Stages sys) (haccept : sys.accept ≠ .finished) :
    sys.stop ≠ .checking ∧ sys.stop ≠ .sleeping ∧ sys.stop ≠ .freed :=
  ⟨fun heq => haccept (h.joined (.inl heq)), fun heq => haccept (h.joined (.inr (.inl heq))),
    fun heq => haccept (h.joined (.inr (.inr heq)))⟩

theorem Stages.same (h : Stages sys) (hshared : next.shared = sys.shared)
    (hlistening : next.listening = sys.listening) (haccept : next.accept = sys.accept)
    (hstop : next.stop = sys.stop) : Stages next := by
  refine ⟨?_, ?_, ?_, ?_, ?_⟩ <;> rw [hstop]
  · rw [hshared]
    exact h.called
  · rw [hlistening]
    exact h.deaf
  · rw [haccept]
    exact h.joined
  · rw [hshared]
    exact h.asleep
  · rw [hshared]
    exact h.freed

/-- Behind the join the stop goes on by itself. -/
theorem Stages.later (h : Stages sys) (hstop : sys.stop ≠ .uncalled ∧ sys.stop ≠ .flagged)
    (haccept : sys.accept = .finished) {pc : StopPc} (hpc : pc ≠ .uncalled)
    (hasleep : pc = .sleeping → sys.shared.activeWorkers ≠ 0)
    (hfreed : pc = .freed → sys.shared.activeWorkers = 0) : Stages { sys with stop := pc } :=
  ⟨⟨fun _ => hpc, fun _ => h.called.mpr hstop.1⟩, fun _ _ => h.deaf hstop.1 hstop.2,
    fun _ => haccept, hasleep, hfreed⟩

/-- A step of the accept thread, which is not finished, leaves the stop where it is. -/
theorem Stages.of_accept (h : Stages sys) (haccept : sys.accept ≠ .finished)
    (hstopping : next.shared.stopping = sys.shared.stopping)
    (hlistening : next.listening = sys.listening) (hstop : next.stop = sys.stop) :
    Stages next := by
  obtain ⟨hchecking, hsleeping, hfreed⟩ := h.accept_ne haccept
  refine ⟨?_, ?_, ?_, ?_, ?_⟩ <;> rw [hstop]
  · rw [hstopping]
    exact h.called
  · rw [hlistening]
    exact h.deaf
  · rintro (heq | heq | heq)
    · exact absurd heq hchecking
    · exact absurd heq hsleeping
    · exact absurd heq hfreed
  · exact fun heq => absurd heq hsleeping
  · exact fun heq => absurd heq hfreed

/-- A slot is given back, and a stop that sleeps is woken up. -/
theorem Stages.free (h : Stages sys) (slot : ℕ)
    (haccept : sys.stop.woken = .checking ∨ sys.stop.woken = .freed → next.accept = .finished)
    (hactive : sys.shared.activeWorkers ≠ 0) (hshared : next.shared = releaseSlot sys.shared slot)
    (hlistening : next.listening = sys.listening) (hstop : next.stop = sys.stop.woken) :
    Stages next := by
  refine ⟨?_, ?_, ?_, ?_, ?_⟩ <;> rw [hstop]
  · rw [hshared, woken_ne_uncalled]
    exact h.called
  · intro huncalled hflagged
    rw [hlistening]
    refine h.deaf ((woken_ne_uncalled _).mp huncalled) ?_
    intro heq
    rw [heq] at hflagged
    exact hflagged rfl
  · rintro (heq | heq | heq)
    · exact haccept (.inl heq)
    · exact absurd heq (woken_ne_sleeping _)
    · exact haccept (.inr heq)
  · exact fun heq => absurd heq (woken_ne_sleeping _)
  · exact fun heq => absurd (h.freed (woken_freed heq)) hactive

theorem stages_step {action : Action} (h : Stages sys) (hslots : Slots sys.shared sys.holders)
    (hstep : Stepped sys action next) : Stages next := by
  cases hstep with
  | accept haccept | failed haccept | finished haccept | goesOn haccept | refused haccept
  | uncreated haccept | created haccept | closeUnserved haccept =>
      exact h.of_accept (by simp [haccept]) rfl rfl rfl
  | interrupted => exact h
  | reserved haccept hreserve =>
      obtain ⟨-, -, -, rfl⟩ := reserveSlot_eq hreserve
      exact h.of_accept (by simp [haccept]) rfl rfl rfl
  | allocate succeeds haccept => exact h.of_accept (by simp [haccept]) rfl rfl rfl
  | @release connection haccept =>
      obtain ⟨hchecking, hsleeping, hfreed⟩ := h.accept_ne (by simp [haccept])
      have hwoken : sys.stop.woken = sys.stop := by
        cases hstop : sys.stop <;> first | rfl | exact absurd hstop hsleeping
      have hactive : sys.shared.activeWorkers ≠ 0 := by
        rw [hslots.active]
        simp [Sys.holders, haccept, AcceptPc.holder]
      refine h.free connection.slot ?_ hactive rfl rfl rfl
      rw [hwoken]
      rintro (heq | heq)
      · exact absurd heq hchecking
      · exact absurd heq hfreed
  | serve => exact h.same rfl rfl rfl rfl
  | close => exact h.same rfl rfl rfl rfl
  | @unregister index connection hworker =>
      have hactive : sys.shared.activeWorkers ≠ 0 := by
        have hlength := (holders_perm sys.accept (workers_perm hworker)).length_eq
        rw [hslots.active, Sys.holders, hlength]
        exact Nat.succ_ne_zero _
      refine h.free connection.slot ?_ hactive rfl rfl rfl
      rintro (heq | heq)
      · rcases woken_checking heq with hstop | hstop
        · exact h.joined (.inl hstop)
        · exact h.joined (.inr (.inl hstop))
      · exact h.joined (.inr (.inr (woken_freed heq)))
  | stop hstop => exact ⟨by simp, by simp, by simp, by simp, by simp⟩
  | closeListener hstop =>
      have hcalled : sys.shared.stopping = true := h.called.mpr (by simp [hstop])
      exact ⟨by simp [hcalled], by simp, by simp, by simp, by simp⟩
  | join hstop haccept => exact h.later (by simp [hstop]) haccept (by simp) (by simp) (by simp)
  | freed hstop hactive =>
      exact h.later (by simp [hstop]) (h.joined (.inl hstop)) (by simp) (by simp) fun _ => hactive
  | sleeps hstop hactive =>
      exact h.later (by simp [hstop]) (h.joined (.inl hstop)) (by simp) (fun _ => hactive)
        (by simp)
  | wake hstop =>
      exact h.later (by simp [hstop]) (h.joined (.inr (.inl hstop))) (by simp) (by simp) (by simp)
  | openElsewhere => exact h.same rfl rfl rfl rfl
  | closeElsewhere => exact h.same rfl rfl rfl rfl

/-- Once the stop has shut down its clients, they stay shut down. -/
theorem shut_step {action : Action} (hinv : Inv sys) (hstep : Stepped sys action next)
    (hstopping : next.shared.stopping = true) : Shut next := by
  have hfree : ∀ {descriptor : ℕ},
      (∀ serial, sys.sockets descriptor ≠ some ⟨.connection serial, true⟩) →
      sys.shared.stopping = true → ∀ connection ∈ sys.served,
        connection.descriptor ≠ descriptor := by
    rintro _ hne hstopping connection hmem rfl
    exact hne _ (hinv.shut hstopping connection hmem)
  cases hstep with
  | @accept descriptor haccept hlistening hnone =>
      have hsame : ∀ connection, connection ∈ sys.served ↔
          connection ∈ sys.workers.filterMap Worker.served := by
        simp [Sys.served, haccept, AcceptPc.holder]
      refine (hinv.shut hstopping).update ?_ rfl
      intro connection hmem
      have hmem' := (hsame connection).mpr hmem
      exact ⟨hmem', hfree (by simp [hnone]) hstopping connection hmem'⟩
  | interrupted => exact hinv.shut hstopping
  | failed haccept | finished haccept | goesOn haccept | refused haccept | uncreated haccept =>
      refine (hinv.shut hstopping).mono ?_ rfl
      simp [Sys.served, haccept, AcceptPc.holder]
  | reserved haccept hreserve =>
      obtain ⟨huncalled, -, -, rfl⟩ := reserveSlot_eq hreserve
      cases huncalled.symm.trans hstopping
  | allocate succeeds haccept =>
      refine (hinv.shut hstopping).mono ?_ rfl
      cases succeeds <;> simp [Sys.served, haccept, AcceptPc.holder]
  | created haccept =>
      refine (hinv.shut hstopping).mono ?_ rfl
      simp [Sys.served, haccept, AcceptPc.holder, Worker.served]
  | release haccept =>
      refine (hinv.shut hstopping).mono ?_ rfl
      intro connection hmem
      exact List.mem_append_right _ hmem
  | @closeUnserved serial descriptor haccept =>
      have hopened : sys.accept.opened = some (serial, descriptor) := by rw [haccept]; rfl
      have hsockets := hinv.sockets
      simp only [Sys.opened, hopened, Option.toList_some] at hsockets
      refine (hinv.shut hstopping).update ?_ rfl
      intro connection hmem
      refine ⟨List.mem_append_right _ hmem, ?_⟩
      obtain ⟨worker, hworker, hserved⟩ := List.mem_filterMap.mp hmem
      have hkey : connection.key ∈ sys.workers.filterMap Worker.opened :=
        List.mem_filterMap.mpr ⟨worker, hworker, by rw [Worker.opened, hserved, Option.map_some]⟩
      exact hsockets.descriptor_ne hkey
  | @serve index connection hworker =>
      refine (hinv.shut hstopping).mono ?_ rfl
      intro other hmem
      have hbefore := filterMap_perm sys.accept.holder.toList Worker.served (workers_perm hworker)
      have hafter := filterMap_perm sys.accept.holder.toList Worker.served
        (set_perm hworker ⟨connection, .closing⟩)
      exact hbefore.mem_iff.mpr (hafter.mem_iff.mp hmem)
  | @close index connection hworker =>
      have hbefore := filterMap_perm sys.accept.holder.toList Worker.served (workers_perm hworker)
      have hafter := filterMap_perm sys.accept.holder.toList Worker.served
        (set_perm hworker ⟨connection, .unregistering⟩)
      have hopened := hinv.sockets.perm
        (filterMap_perm sys.accept.opened.toList Worker.opened (workers_perm hworker)).symm
      refine (hinv.shut hstopping).update ?_ rfl
      intro other hmem
      have hothers := hafter.mem_iff.mp hmem
      refine ⟨hbefore.mem_iff.mpr (List.mem_cons_of_mem _ hothers), ?_⟩
      have hserved : other ∈
          ({ sys with workers := sys.others index } : Sys).served := hothers
      exact hopened.descriptor_ne (mem_opened_of_served hserved)
  | @unregister index connection hworker =>
      refine (hinv.shut hstopping).mono ?_ rfl
      intro other hmem
      have hbefore := filterMap_perm sys.accept.holder.toList Worker.served (workers_perm hworker)
      exact hbefore.mem_iff.mpr hmem
  | stop hstop =>
      intro connection hmem
      have hlists := hinv.slots.lists (mem_holders_of_served hmem)
      obtain ⟨shut, hsocket⟩ := (hinv.sockets.entry ..).mp (mem_opened_of_served hmem)
      show shutdownClients sys.shared sys.sockets connection.descriptor = _
      rw [shutdownClients, if_pos hlists, hsocket, Option.map_some]
  | closeListener => exact hinv.shut hstopping
  | join => exact hinv.shut hstopping
  | freed => exact hinv.shut hstopping
  | sleeps => exact hinv.shut hstopping
  | wake => exact hinv.shut hstopping
  | openElsewhere hnone =>
      refine (hinv.shut hstopping).update (fun connection hmem => ⟨hmem, ?_⟩) rfl
      exact hfree (by simp [hnone]) hstopping connection hmem
  | closeElsewhere hother =>
      refine (hinv.shut hstopping).update (fun connection hmem => ⟨hmem, ?_⟩) rfl
      exact hfree (by simp [hother]) hstopping connection hmem

theorem inv_step {action : Action} (h : Inv sys) (hstep : step sys action = some next) :
    Inv next := by
  have hstepped := step_stepped hstep
  exact ⟨slots_step h.slots hstepped, sockets_step h.sockets hstepped,
    stages_step h.stages h.slots hstepped, shut_step h hstepped⟩

theorem inv_started (opened : ℕ → Bool) : Inv (.started opened) := by
  refine ⟨⟨by simp [Sys.started, Sys.holders, AcceptPc.holder], ?_, ?_, rfl⟩, ⟨?_, ?_, ?_⟩,
    ⟨by simp [Sys.started], by simp [Sys.started], by simp [Sys.started], by simp [Sys.started],
      by simp [Sys.started]⟩, ?_⟩
  · intro connection hmem
    cases hmem
  · exact List.nodup_nil
  · intro serial descriptor
    simp only [Sys.started]
    split <;> simp [Sys.opened, AcceptPc.opened]
  · intro key hmem
    cases hmem
  · exact List.nodup_nil
  · intro hstopping
    cases hstopping

theorem inv_run {opened : ℕ → Bool} {actions : List Action}
    (hrun : Run step anyStep (.started opened) actions sys) : Inv sys :=
  hrun.invariant (fun _ _ _ h _ => inv_step h) (inv_started opened)

/-! ## What is left to do -/

/-- The socket the worker at `index` serves has been shut down. -/
def Sys.isShut (sys : Sys) (index : ℕ) : Bool :=
  match sys.workers[index]? with
  | some worker => (sys.sockets worker.connection.descriptor).any Socket.shut
  | none => false

/-- The steps the server takes whatever the outside does. As long as a socket is open its
`recv` may wait for the peer, and the `accept` of a listener that is open for the next one;
nothing here rests on a signal, a spurious wake-up or what others do with descriptors. -/
def Sys.own (sys : Sys) : Action → Bool
  | .accept _ => false
  | .acceptFails interrupted => !interrupted && !sys.listening
  | .serve index => sys.isShut index
  | .wake => false
  | .openElsewhere _ => false
  | .closeElsewhere _ => false
  | _ => true

def AcceptPc.work : AcceptPc → ℕ
  | .finished => 0
  | .failed => 1
  | .accepting => 2
  | .closing _ _ => 3
  | .accepted _ _ => 4
  | .releasing _ => 5
  | .allocated _ => 7
  | .reserved _ => 8

/-- A worker that leaves may wake up the stop. -/
def Worker.work (worker : Worker) : ℕ :=
  match worker.pc with
  | .serving => 4
  | .closing => 3
  | .unregistering => 2

/-- The same of all workers. -/
def workOf : List Worker → ℕ
  | [] => 0
  | worker :: workers => worker.work + workOf workers

def StopPc.work : StopPc → ℕ
  | .freed => 0
  | .sleeping => 1
  | .checking => 2
  | .joining => 3
  | .flagged => 4
  | .uncalled => 5

/-- How many steps of its own the server has left at most once it is to stop. -/
def Sys.work (sys : Sys) : ℕ :=
  sys.accept.work + workOf sys.workers + sys.stop.work

theorem workOf_perm {workers workers' : List Worker} (h : workers.Perm workers') :
    workOf workers = workOf workers' := by
  induction h with
  | nil => rfl
  | cons worker _ ih => rw [workOf, workOf, ih]
  | swap worker worker' workers =>
      simp only [workOf]
      omega
  | trans _ _ ih ih' => exact ih.trans ih'

theorem woken_work_le (pc : StopPc) : pc.woken.work ≤ pc.work + 1 := by
  cases pc <;> simp [StopPc.woken, StopPc.work]

/-- Once the server is to stop, a step of its own is one less to take. -/
theorem work_step {action : Action} (hstopping : sys.shared.stopping = true)
    (hown : sys.own action = true) (hstep : Stepped sys action next) : next.work < sys.work := by
  cases hstep with
  | accept => cases hown
  | interrupted => cases hown
  | failed haccept => simp [Sys.work, haccept, AcceptPc.work]
  | finished haccept => simp [Sys.work, haccept, AcceptPc.work]
  | goesOn haccept hgoesOn => cases hgoesOn.symm.trans hstopping
  | refused haccept => simp [Sys.work, haccept, AcceptPc.work]
  | reserved haccept hreserve =>
      obtain ⟨hgoesOn, -⟩ := reserveSlot_eq hreserve
      cases hgoesOn.symm.trans hstopping
  | allocate succeeds haccept => cases succeeds <;> simp [Sys.work, haccept, AcceptPc.work]
  | created haccept =>
      simp only [Sys.work, haccept, AcceptPc.work, workOf, Worker.work]
      omega
  | uncreated haccept => simp [Sys.work, haccept, AcceptPc.work]
  | release haccept =>
      have hwoken := woken_work_le sys.stop
      simp only [Sys.work, Sys.free, haccept, AcceptPc.work]
      omega
  | closeUnserved haccept => simp [Sys.work, Sys.setSocket, haccept, AcceptPc.work]
  | @serve index connection hworker =>
      have hbefore := workOf_perm (workers_perm hworker)
      have hafter := workOf_perm (set_perm hworker ⟨connection, .closing⟩)
      simp only [workOf, Worker.work] at hbefore hafter
      simp only [Sys.work, hbefore, hafter]
      omega
  | @close index connection hworker =>
      have hbefore := workOf_perm (workers_perm hworker)
      have hafter := workOf_perm (set_perm hworker ⟨connection, .unregistering⟩)
      simp only [workOf, Worker.work] at hbefore hafter
      simp only [Sys.work, Sys.setSocket, hbefore, hafter]
      omega
  | @unregister index connection hworker =>
      have hbefore := workOf_perm (workers_perm hworker)
      have hwoken := woken_work_le sys.stop
      simp only [workOf, Worker.work, Sys.others] at hbefore
      simp only [Sys.work, Sys.free, hbefore]
      omega
  | stop hstop => simp [Sys.work, hstop, StopPc.work]
  | closeListener hstop => simp [Sys.work, hstop, StopPc.work]
  | join hstop => simp [Sys.work, hstop, StopPc.work]
  | freed hstop => simp [Sys.work, hstop, StopPc.work]
  | sleeps hstop => simp [Sys.work, hstop, StopPc.work]
  | wake => cases hown
  | openElsewhere => cases hown
  | closeElsewhere => cases hown

/-- Once the listener is closed the accept thread can go on by itself until it has finished. -/
theorem acceptStep_isSome (h : sys.accept ≠ .finished) (hdeaf : sys.listening = false) :
    ∃ action, sys.own action = true ∧ (step sys action).isSome = true := by
  cases haccept : sys.accept with
  | accepting =>
      exact ⟨.acceptFails false, by simp [Sys.own, hdeaf], by simp [step, acceptStep, haccept]⟩
  | failed => exact ⟨.checkStopping, rfl, by simp [step, acceptStep, haccept]⟩
  | accepted serial descriptor =>
      refine ⟨.reserve, rfl, ?_⟩
      simp only [step, haccept, acceptStep]
      split <;> rfl
  | reserved connection => exact ⟨.allocate true, rfl, by simp [step, acceptStep, haccept]⟩
  | allocated connection => exact ⟨.create true, rfl, by simp [step, acceptStep, haccept]⟩
  | releasing connection => exact ⟨.release, rfl, by simp [step, acceptStep, haccept]⟩
  | closing serial descriptor =>
      exact ⟨.closeUnserved, rfl, by simp [step, acceptStep, haccept]⟩
  | finished => exact absurd haccept h

/-- So can a worker once its socket has been shut down. -/
theorem workerStep_isSome (h : sys.workers ≠ []) (hshut : Shut sys) :
    ∃ action, sys.own action = true ∧ (step sys action).isSome = true := by
  obtain ⟨⟨connection, pc⟩, workers, hworkers⟩ := List.exists_cons_of_ne_nil h
  cases pc with
  | serving =>
      have hserved : connection ∈ sys.served := by
        simp [Sys.served, hworkers, Worker.served]
      refine ⟨.serve 0, ?_, by simp [step, hworkers, workerStep]⟩
      simp [Sys.own, Sys.isShut, hworkers, hshut connection hserved]
  | closing => exact ⟨.close 0, rfl, by simp [step, hworkers, workerStep]⟩
  | unregistering => exact ⟨.unregister 0, rfl, by simp [step, hworkers, workerStep]⟩

/-- A stop that has not returned is never stuck: while it joins, the closed listener lets the
accept thread end, and while it sleeps there is a worker left whose socket is shut down and
that will wake it up. -/
theorem Inv.isSome (h : Inv sys) (hcalled : sys.stop ≠ .uncalled) (hfreed : sys.stop ≠ .freed) :
    ∃ action, sys.own action = true ∧ (step sys action).isSome = true := by
  cases hstop : sys.stop with
  | uncalled => exact absurd hstop hcalled
  | flagged => exact ⟨.closeListener, rfl, by simp [step, stopStep, hstop]⟩
  | joining =>
      by_cases haccept : sys.accept = .finished
      · exact ⟨.join, rfl, by simp [step, stopStep, hstop, haccept]⟩
      · exact acceptStep_isSome haccept (h.stages.deaf hcalled (by simp [hstop]))
  | checking => exact ⟨.check, rfl, by simp [step, stopStep, hstop]⟩
  | sleeping =>
      have haccept := h.stages.joined (.inr (.inl hstop))
      have hactive := h.stages.asleep hstop
      refine workerStep_isSome ?_ (h.shut (h.stages.called.mpr hcalled))
      intro hworkers
      rw [h.slots.active] at hactive
      simp [Sys.holders, haccept, hworkers, AcceptPc.holder] at hactive
  | freed => exact absurd hstop hfreed

theorem stop_step {action : Action} (h : sys.stop ≠ .uncalled) (hstep : Stepped sys action next) :
    next.stop ≠ .uncalled := by
  cases hstep with
  | release => exact (woken_ne_uncalled _).mpr h
  | unregister => exact (woken_ne_uncalled _).mpr h
  | stop => simp
  | closeListener => simp
  | join => simp
  | freed => simp
  | sleeps => simp
  | wake => simp
  | _ => exact h

/-- Each step of its own uses up some of the work left. -/
theorem work_run {actions : List Action} (hinv : Inv sys) (hcalled : sys.stop ≠ .uncalled)
    (hrun : Run step (fun state action => state.own action = true) sys actions next) :
    Inv next ∧ next.stop ≠ .uncalled ∧ actions.length + next.work ≤ sys.work := by
  induction hrun with
  | nil => exact ⟨hinv, hcalled, by simp⟩
  | snoc hrun hown hstep ih =>
      obtain ⟨hinv', hcalled', hwork⟩ := ih
      have hstepped := step_stepped hstep
      have hless := work_step (hinv'.stages.called.mpr hcalled') hown hstepped
      refine ⟨inv_step hinv' hstep, stop_step hcalled' hstepped, ?_⟩
      simp only [List.length_append, List.length_singleton]
      omega

/-! ## In every interleaving -/

namespace ServerSample

/-- Three descriptors are open from the start. -/
def idle : Sys := .started fun descriptor => descriptor < 3

/-- A peer connects and gets a worker. -/
def connect (descriptor : ℕ) : List Action :=
  [.accept descriptor, .reserve, .allocate true, .create true]

/-- Of two connections the later one ends; its descriptor is given to somebody else before its
slot is free. -/
def twoPeers : List Action :=
  connect 3 ++ connect 4 ++ [.serve 0, .close 0, .openElsewhere 4]

/-- The stop finds a connection that is served and one that has no worker yet. -/
def stopped : List Action :=
  connect 3 ++ [.accept 4, .reserve, .stop, .closeListener]

/-- From there: the connection without a worker is given up, the stop sleeps, and the worker
that leaves wakes it up. -/
def drained : List Action :=
  [.allocate false, .release, .closeUnserved, .acceptFails false, .checkStopping, .join, .check,
    .serve 0, .close 0, .unregister 0, .check]

end ServerSample

/-- Workers and slots are one to one, within the limit, and every connection that is open is
open once, for the thread that will close it. A `shutdown` of `client_fds` meets what is not
the server's only where a worker has closed its descriptor and not left yet. -/
structure InOrder (sys : Sys) : Prop where
  counted : sys.shared.activeWorkers = sys.accept.holder.toList.length + sys.workers.length
  taken : sys.shared.activeWorkers = ((List.range FAST_UPLOAD_CONNECTION_LIMIT).filter
    fun slot => (sys.shared.clientFds slot).isSome).length
  limit : sys.shared.activeWorkers ≤ FAST_UPLOAD_CONNECTION_LIMIT
  apart : (sys.workers.map fun worker => worker.connection.slot).Nodup
  listed : ∀ worker ∈ sys.workers,
    sys.shared.clientFds worker.connection.slot = some worker.connection.descriptor
  own : ∀ worker ∈ sys.workers, worker.pc ≠ .unregistering → ∃ shut,
    sys.sockets worker.connection.descriptor = some ⟨.connection worker.connection.serial, shut⟩
  accepted : ∀ serial descriptor, sys.accept.opened = some (serial, descriptor) → ∃ shut,
    sys.sockets descriptor = some ⟨.connection serial, shut⟩
  once : sys.opened.Nodup
  unleaked : ∀ descriptor serial shut,
    sys.sockets descriptor = some ⟨.connection serial, shut⟩ →
      sys.accept.opened = some (serial, descriptor) ∨
        ∃ worker ∈ sys.workers, worker.opened = some (serial, descriptor)
  strays : ∀ descriptor shut, sys.sockets descriptor = some ⟨.elsewhere, shut⟩ →
    sys.shared.lists descriptor = true →
      ∃ worker ∈ sys.workers, worker.pc = .unregistering ∧
        worker.connection.descriptor = descriptor

theorem mem_served {worker : Worker} (hmem : worker ∈ sys.workers)
    (hpc : worker.pc ≠ .unregistering) : worker.connection ∈ sys.served := by
  refine List.mem_append_right _ (List.mem_filterMap.mpr ⟨worker, hmem, ?_⟩)
  obtain ⟨connection, pc⟩ := worker
  cases pc <;> first | rfl | exact absurd rfl hpc

/-- As many entries of `client_fds` are taken as there are holders. -/
theorem Slots.length_taken (h : Slots shared holders) :
    ((List.range FAST_UPLOAD_CONNECTION_LIMIT).filter fun slot =>
      (shared.clientFds slot).isSome).length = holders.length := by
  have hperm : ((List.range FAST_UPLOAD_CONNECTION_LIMIT).filter fun slot =>
      (shared.clientFds slot).isSome).Perm (holders.map Connection.slot) := by
    refine (List.perm_ext_iff_of_nodup (List.nodup_range.filter _) h.apart).mpr fun slot => ?_
    rw [List.mem_filter, List.mem_range, Option.isSome_iff_exists, List.mem_map]
    simp only [h.entry]
    constructor
    · rintro ⟨-, -, connection, hmem, heq, -⟩
      exact ⟨connection, hmem, heq⟩
    · rintro ⟨connection, hmem, rfl⟩
      exact ⟨h.slot_lt connection hmem, connection.descriptor, connection, hmem, rfl, rfl⟩
  simpa using hperm.length_eq

theorem inOrder_run {opened : ℕ → Bool} {actions : List Action}
    (hrun : Run step anyStep (.started opened) actions sys) : InOrder sys := by
  have hinv := inv_run hrun
  have hholder : ∀ worker ∈ sys.workers, worker.connection ∈ sys.holders := by
    intro worker hmem
    exact List.mem_append_right _ (List.mem_map_of_mem hmem)
  refine ⟨?_, ?_, ?_, ?_, ?_, ?_, ?_, hinv.sockets.apart, ?_, ?_⟩
  · rw [hinv.slots.active, Sys.holders, List.length_append, List.length_map]
  · rw [hinv.slots.length_taken, hinv.slots.active]
  · rw [hinv.slots.active]
    exact hinv.slots.length_le
  · have hapart := hinv.slots.apart
    rw [Sys.holders, List.map_append, List.map_map] at hapart
    exact (List.nodup_append.mp hapart).2.1
  · intro worker hmem
    exact (hinv.slots.entry ..).mpr ⟨_, hholder worker hmem, rfl, rfl⟩
  · intro worker hmem hpc
    exact (hinv.sockets.entry ..).mp (mem_opened_of_served (mem_served hmem hpc))
  · intro serial descriptor hopened
    exact (hinv.sockets.entry ..).mp
      (List.mem_append_left _ (Option.mem_toList.mpr hopened))
  · intro descriptor serial shut hsocket
    have hmem := (hinv.sockets.entry serial descriptor).mpr ⟨shut, hsocket⟩
    rcases List.mem_append.mp hmem with haccept | hworker
    · exact .inl (Option.mem_toList.mp haccept)
    · exact .inr (List.mem_filterMap.mp hworker)
  · intro descriptor shut hsocket hlists
    obtain ⟨slot, -, hentry⟩ := List.any_eq_true.mp hlists
    obtain ⟨connection, hmem, -, rfl⟩ :=
      (hinv.slots.entry ..).mp (of_decide_eq_true hentry)
    have hunserved : connection ∉ sys.served := by
      intro hserved
      obtain ⟨shut', howned⟩ := (hinv.sockets.entry ..).mp (mem_opened_of_served hserved)
      rw [hsocket] at howned
      cases howned
    rcases List.mem_append.mp hmem with haccept | hworker
    · exact absurd (List.mem_append_left _ haccept) hunserved
    · obtain ⟨worker, hmem', rfl⟩ := List.mem_map.mp hworker
      refine ⟨worker, hmem', ?_, rfl⟩
      by_contra hpc
      exact hunserved (mem_served hmem' hpc)

open ServerSample in
/-- The slot of a connection that has been closed stays taken until its worker leaves, and
lists a descriptor that is somebody else's by then. -/
theorem inOrder_twoPeers :
    ∃ sys, exec step idle twoPeers = some sys ∧ sys.shared.activeWorkers = 2 ∧
      sys.sockets 4 = some ⟨.elsewhere, false⟩ ∧ sys.shared.lists 4 = true ∧ InOrder sys := by
  have hrun : ∃ sys, exec step idle twoPeers = some sys ∧ sys.shared.activeWorkers = 2 ∧
      sys.sockets 4 = some ⟨.elsewhere, false⟩ ∧ sys.shared.lists 4 = true :=
    exists_of_exec (by decide)
  obtain ⟨sys, hexec, hactive, hsocket, hlists⟩ := hrun
  exact ⟨sys, hexec, hactive, hsocket, hlists,
    inOrder_run (Run.of_exec (fun _ _ _ => trivial) hexec)⟩

/-- Once the server is to stop no slot is given out and every open connection that has one,
with a worker or still without, has been shut down; when it is freed nobody is left who would
use it, and nothing of its is open. -/
structure Stops (sys : Sys) : Prop where
  refuses : sys.stop ≠ .uncalled → ∀ descriptor, reserveSlot sys.shared descriptor = none
  shut : sys.stop ≠ .uncalled → ∀ connection ∈ sys.served,
    sys.sockets connection.descriptor = some ⟨.connection connection.serial, true⟩
  gone : sys.stop = .freed → sys.accept = .finished ∧ sys.workers = [] ∧
    (∀ slot, sys.shared.clientFds slot = none) ∧
    ∀ descriptor socket, sys.sockets descriptor = some socket → socket.owner = .elsewhere

theorem stops_run {opened : ℕ → Bool} {actions : List Action}
    (hrun : Run step anyStep (.started opened) actions sys) : Stops sys := by
  have hinv := inv_run hrun
  refine ⟨?_, ?_, ?_⟩
  · intro hcalled descriptor
    rw [reserveSlot, if_pos (hinv.stages.called.mpr hcalled)]
  · intro hcalled
    exact hinv.shut (hinv.stages.called.mpr hcalled)
  · intro hfreed
    have haccept := hinv.stages.joined (.inr (.inr hfreed))
    have hholders : sys.holders = [] := by
      rw [← List.length_eq_zero_iff, ← hinv.slots.active]
      exact hinv.stages.freed hfreed
    have hworkers : sys.workers = [] := by
      simpa [Sys.holders, haccept, AcceptPc.holder] using hholders
    refine ⟨haccept, hworkers, ?_, ?_⟩
    · intro slot
      cases hentry : sys.shared.clientFds slot with
      | none => rfl
      | some descriptor =>
          obtain ⟨connection, hmem, -⟩ := (hinv.slots.entry ..).mp hentry
          rw [hholders] at hmem
          cases hmem
    · rintro descriptor ⟨owner, shut⟩ hsocket
      cases owner with
      | elsewhere => rfl
      | connection serial =>
          have hmem := (hinv.sockets.entry serial descriptor).mpr ⟨shut, hsocket⟩
          rw [Sys.opened, haccept, hworkers] at hmem
          cases hmem

open ServerSample in
/-- Both connections are shut down, the one without a worker as well, and given up before the
server is freed. -/
theorem stops_drained :
    (∃ sys, exec step idle stopped = some sys ∧ sys.served.length = 2 ∧ Stops sys) ∧
      ∃ sys, exec step idle (stopped ++ drained) = some sys ∧ sys.stop = .freed ∧ Stops sys := by
  have hstopped : ∃ sys, exec step idle stopped = some sys ∧ sys.served.length = 2 :=
    exists_of_exec (by decide)
  have hdrained : ∃ sys, exec step idle (stopped ++ drained) = some sys ∧ sys.stop = .freed :=
    exists_of_exec (by decide)
  obtain ⟨sys, hexec, hserved⟩ := hstopped
  obtain ⟨sys', hexec', hfreed⟩ := hdrained
  exact ⟨⟨sys, hexec, hserved, stops_run (Run.of_exec (fun _ _ _ => trivial) hexec)⟩,
    sys', hexec', hfreed, stops_run (Run.of_exec (fun _ _ _ => trivial) hexec')⟩

/-- A stop that has been called ends: by its own steps the server can only go on for so long,
and it is not stuck before it is freed, whatever the peers do. -/
theorem stop_ends {opened : ℕ → Bool} {actions : List Action}
    (hrun : Run step anyStep (.started opened) actions sys) (hcalled : sys.stop ≠ .uncalled) :
    ∀ later next, Run step (fun state action => state.own action = true) sys later next →
      later.length ≤ sys.work ∧
        (next.stop ≠ .freed →
          ∃ action, next.own action = true ∧ (step next action).isSome = true) := by
  intro later next hlater
  obtain ⟨hinv, hcalled', hwork⟩ := work_run (inv_run hrun) hcalled hlater
  exact ⟨by omega, hinv.isSome hcalled'⟩

open ServerSample in
/-- With one connection served and one without a worker there are 15 steps left at most. -/
theorem stop_ends_stopped :
    ∃ sys, exec step idle stopped = some sys ∧ sys.work = 15 ∧
      ∀ later next, Run step (fun state action => state.own action = true) sys later next →
        later.length ≤ sys.work ∧
          (next.stop ≠ .freed →
            ∃ action, next.own action = true ∧ (step next action).isSome = true) := by
  have hrun : ∃ sys, exec step idle stopped = some sys ∧
      sys.work = 15 ∧ sys.stop ≠ .uncalled := exists_of_exec (by decide)
  obtain ⟨sys, hexec, hwork, hcalled⟩ := hrun
  exact ⟨sys, hexec, hwork,
    stop_ends (Run.of_exec (fun _ _ _ => trivial) hexec) hcalled⟩

end LocalSend.FastUpload.Server
