import Mathlib.Tactic.Common

/-! # Programs that make calls

A program is done, or makes a call and goes on with the reply; the type of the reply depends on
the call. What a program may do is said by a protocol, an automaton over the calls and their
replies, and proved by one rule for each way to build a program.
-/

namespace LocalSend

/-- A program with calls in `C`, replies in `R` and results in `A`. -/
inductive Program {C : Type} (R : C → Type) (A : Type) where
  | done (result : A)
  | call (request : C) (next : R request → Program R A)

namespace Program

variable {C : Type} {R : C → Type} {A B D S : Type}

def bind (program : Program R A) (next : A → Program R B) : Program R B :=
  match program with
  | .done result => next result
  | .call request rest => .call request fun reply => (rest reply).bind next

/-! ## Traces -/

/-- A call with its reply. -/
abbrev Exchange (R : C → Type) : Type := (request : C) × R request

/-- The program makes these calls, gets these replies and is done. -/
inductive Path : Program R A → List (Exchange R) → A → Prop
  | done (result : A) : Path (.done result) [] result
  | call {request : C} {next : R request → Program R A} {reply : R request}
      {trace : List (Exchange R)} {result : A} (h : Path (next reply) trace result) :
      Path (.call request next) (⟨request, reply⟩ :: trace) result

/-- A path through a composition is a path through the first part and one through the rest. -/
theorem path_bind {program : Program R A} {next : A → Program R B} {trace : List (Exchange R)}
    {result : B} (h : Path (program.bind next) trace result) :
    ∃ first middle second, trace = first ++ second ∧ Path program first middle ∧
      Path (next middle) second result := by
  induction program generalizing trace with
  | done middle => exact ⟨[], middle, trace, rfl, .done middle, h⟩
  | call request rest ih =>
      cases h with
      | @call _ _ reply trace _ h =>
          obtain ⟨first, middle, second, rfl, hfirst, hsecond⟩ := ih reply h
          exact ⟨_, middle, second, rfl, .call hfirst, hsecond⟩

/-- The program on the front of a trace, with what it leaves of the trace. -/
def consume [DecidableEq C] : Program R A → List (Exchange R) → Option (A × List (Exchange R))
  | .done result, trace => some (result, trace)
  | .call request next, ⟨request', reply⟩ :: trace =>
      if h : request' = request then (next (h ▸ reply)).consume trace else none
  | .call _ _, [] => none

theorem Path.consume [DecidableEq C] {program : Program R A} {trace : List (Exchange R)}
    {result : A} (h : Path program trace result) (rest : List (Exchange R)) :
    program.consume (trace ++ rest) = some (result, rest) := by
  induction h with
  | done result => rfl
  | call h ih => rw [List.cons_append, Program.consume, dif_pos rfl, ih]

theorem consume_bind [DecidableEq C] (program : Program R A) (next : A → Program R B)
    (trace : List (Exchange R)) :
    (program.bind next).consume trace =
      (program.consume trace).bind fun (result, rest) => (next result).consume rest := by
  induction program generalizing trace with
  | done result => rfl
  | call request rest ih =>
      cases trace with
      | nil => rfl
      | cons exchange trace =>
          obtain ⟨request', reply⟩ := exchange
          simp only [Program.bind, Program.consume]
          split
          · exact ih _ trace
          · rfl

/-- The program on the replies of a trace, as long as it makes the calls of the trace. -/
def replay [DecidableEq C] : Program R A → List (Exchange R) → Option A
  | .done result, [] => some result
  | .call request next, ⟨request', reply⟩ :: trace =>
      if h : request' = request then (next (h ▸ reply)).replay trace else none
  | _, _ => none

theorem path_of_replay [DecidableEq C] {program : Program R A} {trace : List (Exchange R)}
    {result : A} (h : program.replay trace = some result) : Path program trace result := by
  induction program generalizing trace with
  | done result' =>
      cases trace with
      | nil =>
          cases h
          exact .done result
      | cons exchange trace => cases h
  | call request next ih =>
      cases trace with
      | nil => cases h
      | cons exchange trace =>
          obtain ⟨request', reply⟩ := exchange
          simp only [replay] at h
          split at h
          · rename_i heq
            subst heq
            exact .call (ih reply h)
          · cases h

/-! ## Protocols -/

/-- Which calls may be made in a state, and the state behind a call and its reply. -/
structure Protocol (R : C → Type) (S : Type) where
  may : S → C → Prop
  after : S → (request : C) → R request → S

variable {protocol : Protocol R S} {state : S}

/-- Whatever the replies are, the program makes only calls it may make, and ends in a state that
fits its result. -/
def Obeys (protocol : Protocol R S) (ends : A → S → Prop) : Program R A → S → Prop
  | .done result, state => ends result state
  | .call request next, state =>
      protocol.may state request ∧
        ∀ reply, Obeys protocol ends (next reply) (protocol.after state request reply)

theorem Obeys.bind {ends : A → S → Prop} {ends' : B → S → Prop} {program : Program R A}
    {next : A → Program R B} (h : Obeys protocol ends program state)
    (hnext : ∀ result state, ends result state → Obeys protocol ends' (next result) state) :
    Obeys protocol ends' (program.bind next) state := by
  induction program generalizing state with
  | done result => exact hnext result state h
  | call request rest ih => exact ⟨h.1, fun reply => ih reply (h.2 reply)⟩

/-- The calls of a trace, in the order of a protocol. -/
inductive Permitted (protocol : Protocol R S) : S → List (Exchange R) → S → Prop
  | nil (state : S) : Permitted protocol state [] state
  | cons {state last : S} {request : C} {reply : R request} {trace : List (Exchange R)}
      (hmay : protocol.may state request)
      (h : Permitted protocol (protocol.after state request reply) trace last) :
      Permitted protocol state (⟨request, reply⟩ :: trace) last

/-- Every path of a program that obeys a protocol is permitted by it. -/
theorem Obeys.path {ends : A → S → Prop} {program : Program R A} {trace : List (Exchange R)}
    {result : A} (h : Obeys protocol ends program state) (hpath : Path program trace result) :
    ∃ last, Permitted protocol state trace last ∧ ends result last := by
  induction hpath generalizing state with
  | done result => exact ⟨state, .nil state, h⟩
  | @call request next reply trace result hpath ih =>
      obtain ⟨last, htrace, hends⟩ := ih (h.2 reply)
      exact ⟨last, .cons h.1 htrace, hends⟩

end Program

end LocalSend
