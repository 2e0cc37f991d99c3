/-
Tunstile/Traces.lean

Runs of a system whose steps write to a log.

A step leads from one state to another and may log something; a trace is a
sequence of steps with everything that they log.  What every step keeps, of
the state together with the log so far, every trace keeps (`Trace.keeps`).

Nothing here mentions a protocol.
-/
import Mathlib.Data.List.Basic

namespace Tunstile

variable {σ l : Type*} {Step : σ → List l → σ → Prop}

/-- Steps from one state to another, and what they log. -/
inductive Trace (Step : σ → List l → σ → Prop) : σ → List l → σ → Prop where
  | refl (s : σ) : Trace Step s [] s
  | tail {s s' s'' : σ} {log new : List l} :
      Trace Step s log s' → Step s' new s'' → Trace Step s (log ++ new) s''

namespace Trace

theorem single {s s' : σ} {log : List l} (h : Step s log s') : Trace Step s log s' :=
  (refl s).tail h

theorem trans {s s' s'' : σ} {log log' : List l} (h : Trace Step s log s')
    (h' : Trace Step s' log' s'') : Trace Step s (log ++ log') s'' := by
  induction h' with
  | refl => rwa [List.append_nil]
  | tail _ hstep ih =>
      rw [← List.append_assoc]
      exact ih.tail hstep

theorem mono {Step' : σ → List l → σ → Prop} (hstep : ∀ s log s', Step s log s' → Step' s log s')
    {s s' : σ} {log : List l} (h : Trace Step s log s') : Trace Step' s log s' := by
  induction h with
  | refl => exact refl _
  | tail _ hlast ih => exact ih.tail (hstep _ _ _ hlast)

/-- What each step keeps of the state and the log so far. -/
theorem keeps {I : σ → List l → Prop}
    (hstep : ∀ s log new s', I s log → Step s new s' → I s' (log ++ new)) {s s' : σ}
    {log before : List l} (h : Trace Step s log s') (hs : I s before) : I s' (before ++ log) := by
  induction h with
  | refl => rwa [List.append_nil]
  | tail _ hlast ih =>
      rw [← List.append_assoc]
      exact hstep _ _ _ _ ih hlast

/-- What each step keeps of the state. -/
theorem keeps_state {I : σ → Prop} (hstep : ∀ s new s', I s → Step s new s' → I s') {s s' : σ}
    {log : List l} (h : Trace Step s log s') (hs : I s) : I s' := by
  induction h with
  | refl => exact hs
  | tail _ hlast ih => exact hstep _ _ _ ih hlast

/-- A relation that is closed under one thing after the other holds over a
trace if it holds over each step. -/
theorem relates {R : σ → List l → σ → Prop} (hrefl : ∀ s, R s [] s)
    (htrans : ∀ {s s' s'' : σ} {log log' : List l}, R s log s' → R s' log' s'' →
      R s (log ++ log') s'')
    (hstep : ∀ {s s' : σ} {log : List l}, Step s log s' → R s log s') {s s' : σ} {log : List l}
    (h : Trace Step s log s') : R s log s' := by
  induction h with
  | refl => exact hrefl _
  | tail _ hlast ih => exact htrans ih (hstep hlast)

end Trace

end Tunstile
