import Mathlib.Data.List.Basic
import Mathlib.Tactic.Common

/-! # Runs of partial step functions

A system is a step function from a state and an action; `none` means the action is not
enabled. A run may be limited to steps that meet a condition on the state before them
and the action, which is how schedules and callers are constrained.
-/

namespace LocalSend.Transition

variable {σ α : Type*}

/-- A finite run from `s`, all of whose steps meet `ok`. -/
inductive Run (step : σ → α → Option σ) (ok : σ → α → Prop) (s : σ) : List α → σ → Prop
  | nil : Run step ok s [] s
  | snoc {as : List α} {t u : σ} {a : α} :
      Run step ok s as t → ok t a → step t a = some u → Run step ok s (as ++ [a]) u

/-- The condition every step meets. -/
def anyStep : σ → α → Prop := fun _ _ => True

/-- Execute a list of actions. -/
def exec (step : σ → α → Option σ) (s : σ) : List α → Option σ
  | [] => some s
  | a :: as => (step s a).bind (exec step · as)

variable {step : σ → α → Option σ} {ok : σ → α → Prop} {s t u : σ} {as bs : List α}

/-- An invariant kept by every admitted step holds wherever a run leads. -/
theorem Run.invariant {I : σ → Prop}
    (hstep : ∀ t a u, I t → ok t a → step t a = some u → I u)
    (hrun : Run step ok s as u) (h : I s) : I u := by
  induction hrun with
  | nil => exact h
  | snoc _ hok hs ih => exact hstep _ _ _ ih hok hs

theorem Run.append (hfirst : Run step ok s as t) (hsecond : Run step ok t bs u) :
    Run step ok s (as ++ bs) u := by
  induction hsecond with
  | nil => simpa using hfirst
  | snoc _ h hs ih =>
      rw [← List.append_assoc]
      exact .snoc ih h hs

/-- The last step of a run. -/
theorem Run.last {a : α} (h : Run step ok s (as ++ [a]) u) :
    ∃ t, Run step ok s as t ∧ ok t a ∧ step t a = some u := by
  generalize hall : as ++ [a] = all at h
  cases h with
  | nil => simp at hall
  | snoc hrun hok hs =>
      obtain ⟨rfl, hlast⟩ := List.append_inj' hall rfl
      obtain rfl := List.singleton_inj.mp hlast
      exact ⟨_, hrun, hok, hs⟩

theorem Run.cons {a : α} (hok : ok s a) (hs : step s a = some t) (hrun : Run step ok t bs u) :
    Run step ok s (a :: bs) u :=
  Run.append (.snoc .nil hok hs) hrun

theorem exec_cons {a : α} (hs : step s a = some t) : exec step s (a :: as) = exec step t as := by
  rw [exec, hs, Option.bind_some]

theorem exec_append (s : σ) (as bs : List α) :
    exec step s (as ++ bs) = (exec step s as).bind (exec step · bs) := by
  induction as generalizing s with
  | nil => rfl
  | cons a as ih =>
      simp only [List.cons_append, exec, Option.bind_assoc]
      exact congrArg _ (funext ih)

theorem exec_of_run (h : Run step ok s as t) : exec step s as = some t := by
  induction h with
  | nil => rfl
  | snoc _ _ hs ih =>
      rw [exec_append, ih, Option.bind_some, exec, hs]
      rfl

/-- Executing actions that may be taken in any state is a run through them. -/
theorem Run.of_exec (hok : ∀ a ∈ as, ∀ s, ok s a) (h : exec step s as = some u) :
    Run step ok s as u := by
  induction as generalizing s with
  | nil =>
      obtain rfl := Option.some.inj h
      exact .nil
  | cons a as ih =>
      obtain ⟨t, hs, hrest⟩ := Option.bind_eq_some_iff.mp h
      exact .cons (hok a (List.mem_cons_self ..) s) hs
        (ih (fun b hb => hok b (List.mem_cons_of_mem _ hb)) hrest)

/-- The steps whose action passes a check in the state it is taken in. -/
def checked (check : σ → α → Bool) (step : σ → α → Option σ) (s : σ) (a : α) : Option σ :=
  if check s a then step s a else none

/-- Executing checked actions is a run, where an invariant makes the check imply the condition. -/
theorem Run.of_exec_checked {check : σ → α → Bool} {I : σ → Prop}
    (hstep : ∀ t a u, I t → check t a = true → step t a = some u → I u)
    (hok : ∀ t a, I t → check t a = true → ok t a) (hs : I s)
    (h : exec (checked check step) s as = some u) : Run step ok s as u := by
  induction as generalizing s with
  | nil =>
      obtain rfl := Option.some.inj h
      exact .nil
  | cons a as ih =>
      obtain ⟨t, hnext, hrest⟩ := Option.bind_eq_some_iff.mp h
      rw [checked] at hnext
      split at hnext
      · exact .cons (hok s a hs ‹_›) hnext (ih (hstep s a t hs ‹_› hnext) hrest)
      · cases hnext

/-- A run found by evaluation, with a property evaluated of its last state. -/
theorem exists_of_exec {P : σ → Prop} [DecidablePred P]
    (h : (exec step s as).any (fun u => decide (P u)) = true) :
    ∃ u, exec step s as = some u ∧ P u := by
  cases hexec : exec step s as with
  | none => simp [hexec] at h
  | some u => exact ⟨u, rfl, by simpa [hexec] using h⟩

end LocalSend.Transition
