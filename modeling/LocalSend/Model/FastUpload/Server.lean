import Mathlib.Logic.Function.Basic
import LocalSend.Library.Transition

/-! # The threads of the fast upload server

`accept_main`, the life of a worker around the body of `connection_main`, and
`fast_upload_server_stop`. A step is one stretch under the server's mutex, one system call, or
the body of a connection. The process has one table of descriptors, in which others open and
close as well.
-/

namespace LocalSend.FastUpload.Server

def FAST_UPLOAD_CONNECTION_LIMIT : ℕ := 8

/-- The fields of `struct fast_upload_server` under its mutex; a free entry of `client_fds` is
`none`. -/
structure Shared where
  stopping : Bool
  clientFds : ℕ → Option ℕ
  activeWorkers : ℕ

/-- `fast_connection_t`, with the number the connection was accepted under. -/
structure Connection where
  serial : ℕ
  descriptor : ℕ
  slot : ℕ
  deriving DecidableEq

/-- Who has a descriptor open. -/
inductive Owner where
  | connection (serial : ℕ)
  | elsewhere
  deriving DecidableEq

/-- What an open descriptor stands for, and whether it has been shut down. -/
structure Socket where
  owner : Owner
  shut : Bool
  deriving DecidableEq

/-- Where `accept_main` is. -/
inductive AcceptPc where
  | accepting
  | failed
  | accepted (serial descriptor : ℕ)
  | reserved (connection : Connection)
  | allocated (connection : Connection)
  | releasing (connection : Connection)
  | closing (serial descriptor : ℕ)
  | finished
  deriving DecidableEq

/-- Where `connection_main` is: in front of its label `done`, or behind it with the descriptor
still open, or closed. -/
inductive WorkerPc where
  | serving
  | closing
  | unregistering
  deriving DecidableEq

structure Worker where
  connection : Connection
  pc : WorkerPc
  deriving DecidableEq

/-- Where `fast_upload_server_stop` is. -/
inductive StopPc where
  | uncalled
  | flagged
  | joining
  | checking
  | sleeping
  | freed
  deriving DecidableEq

structure Sys where
  shared : Shared
  listening : Bool
  accept : AcceptPc
  workers : List Worker
  stop : StopPc
  serials : ℕ
  sockets : ℕ → Option Socket

/-! ## Under the mutex -/

/-- `reserve_slot`. -/
def reserveSlot (shared : Shared) (descriptor : ℕ) : Option (ℕ × Shared) :=
  if shared.stopping then none
  else
    ((List.range FAST_UPLOAD_CONNECTION_LIMIT).find? fun index =>
      (shared.clientFds index).isNone).map fun index =>
        (index, { shared with
          clientFds := Function.update shared.clientFds index (some descriptor)
          activeWorkers := shared.activeWorkers + 1 })

/-- `release_reserved_slot` and `unregister_worker`. -/
def releaseSlot (shared : Shared) (slot : ℕ) : Shared :=
  { shared with
    clientFds := Function.update shared.clientFds slot none
    activeWorkers :=
      if 0 < shared.activeWorkers then shared.activeWorkers - 1 else shared.activeWorkers }

/-- The descriptor is an entry of `client_fds`. -/
def Shared.lists (shared : Shared) (descriptor : ℕ) : Bool :=
  (List.range FAST_UPLOAD_CONNECTION_LIMIT).any fun index =>
    shared.clientFds index = some descriptor

/-- The `shutdown` of every descriptor in `client_fds`: it meets whatever has that number. -/
def shutdownClients (shared : Shared) (sockets : ℕ → Option Socket) : ℕ → Option Socket :=
  fun descriptor =>
    if shared.lists descriptor then
      (sockets descriptor).map fun socket => { socket with shut := true }
    else sockets descriptor

/-- `pthread_cond_broadcast`: only `fast_upload_server_stop` ever sleeps. -/
def StopPc.woken : StopPc → StopPc
  | .sleeping => .checking
  | pc => pc

/-! ## Steps -/

/-- `acceptFails true` is `EINTR`; `serve` is the body of a connection up to its label `done`;
`wake` is a spurious one. -/
inductive Action where
  | accept (descriptor : ℕ)
  | acceptFails (interrupted : Bool)
  | checkStopping
  | reserve
  | allocate (succeeds : Bool)
  | create (succeeds : Bool)
  | release
  | closeUnserved
  | serve (index : ℕ)
  | close (index : ℕ)
  | unregister (index : ℕ)
  | stop
  | closeListener
  | join
  | check
  | wake
  | openElsewhere (descriptor : ℕ)
  | closeElsewhere (descriptor : ℕ)
  deriving DecidableEq

def Sys.free (sys : Sys) (slot : ℕ) : Sys :=
  { sys with shared := releaseSlot sys.shared slot, stop := sys.stop.woken }

def Sys.setSocket (sys : Sys) (descriptor : ℕ) (socket : Option Socket) : Sys :=
  { sys with sockets := Function.update sys.sockets descriptor socket }

/-- The steps of `accept_main`. -/
def acceptStep (sys : Sys) : Action → AcceptPc → Option Sys
  | .accept descriptor, .accepting =>
      if sys.listening ∧ sys.sockets descriptor = none then
        some { sys.setSocket descriptor (some ⟨.connection sys.serials, false⟩) with
          accept := .accepted sys.serials descriptor
          serials := sys.serials + 1 }
      else none
  | .acceptFails interrupted, .accepting =>
      some { sys with accept := if interrupted then .accepting else .failed }
  | .checkStopping, .failed =>
      some { sys with accept := if sys.shared.stopping then .finished else .accepting }
  | .reserve, .accepted serial descriptor =>
      match reserveSlot sys.shared descriptor with
      | none => some { sys with accept := .closing serial descriptor }
      | some (slot, shared) =>
          some { sys with shared, accept := .reserved ⟨serial, descriptor, slot⟩ }
  | .allocate succeeds, .reserved connection =>
      some { sys with
        accept := if succeeds then .allocated connection else .releasing connection }
  | .create true, .allocated connection =>
      some { sys with accept := .accepting, workers := ⟨connection, .serving⟩ :: sys.workers }
  | .create false, .allocated connection =>
      some { sys with accept := .releasing connection }
  | .release, .releasing connection =>
      some { sys.free connection.slot with
        accept := .closing connection.serial connection.descriptor }
  | .closeUnserved, .closing _ descriptor =>
      some { sys.setSocket descriptor none with accept := .accepting }
  | _, _ => none

/-- The steps of the worker at `index`. -/
def workerStep (sys : Sys) (index : ℕ) : Action → Worker → Option Sys
  | .serve _, ⟨connection, .serving⟩ =>
      some { sys with workers := sys.workers.set index ⟨connection, .closing⟩ }
  | .close _, ⟨connection, .closing⟩ =>
      some { sys.setSocket connection.descriptor none with
        workers := sys.workers.set index ⟨connection, .unregistering⟩ }
  | .unregister _, ⟨connection, .unregistering⟩ =>
      some { sys.free connection.slot with workers := sys.workers.eraseIdx index }
  | _, _ => none

/-- The steps of `fast_upload_server_stop`. -/
def stopStep (sys : Sys) : Action → StopPc → Option Sys
  | .stop, .uncalled =>
      some { sys with
        shared := { sys.shared with stopping := true }
        sockets := shutdownClients sys.shared sys.sockets
        stop := .flagged }
  | .closeListener, .flagged => some { sys with listening := false, stop := .joining }
  | .join, .joining => if sys.accept = .finished then some { sys with stop := .checking } else none
  | .check, .checking =>
      some { sys with stop := if sys.shared.activeWorkers = 0 then .freed else .sleeping }
  | .wake, .sleeping => some { sys with stop := .checking }
  | _, _ => none

def step (sys : Sys) (action : Action) : Option Sys :=
  match action with
  | .serve index | .close index | .unregister index =>
      sys.workers[index]?.bind (workerStep sys index action)
  | .stop | .closeListener | .join | .check | .wake => stopStep sys action sys.stop
  | .openElsewhere descriptor =>
      if sys.sockets descriptor = none then
        some (sys.setSocket descriptor (some ⟨.elsewhere, false⟩))
      else none
  | .closeElsewhere descriptor =>
      match sys.sockets descriptor with
      | some ⟨.elsewhere, _⟩ => some (sys.setSocket descriptor none)
      | _ => none
  | _ => acceptStep sys action sys.accept

/-- The server as started, among the descriptors others have open. -/
def Sys.started (opened : ℕ → Bool) : Sys :=
  ⟨⟨false, fun _ => none, 0⟩, true, .accepting, [], .uncalled, 0,
    fun descriptor => if opened descriptor then some ⟨.elsewhere, false⟩ else none⟩

end LocalSend.FastUpload.Server
