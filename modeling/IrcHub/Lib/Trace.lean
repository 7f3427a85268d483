import Mathlib.Data.List.Induction

/-!
# `IrcHub.Lib.Trace`: machines that report what they do

A step takes an event to the next state and to the outputs it makes. `run` is the state after a
list of events, with the outputs of all of them in order. A claim about what a machine reports,
and in which order, is a claim about these outputs beside the events.

- `more`: one more event, added to a run
- `run_append`: a run goes on from where it stopped
- `run_concat`: the case of one more event at the end
- `run_induction`: what a step keeps of the events, the state and the outputs so far, a run keeps

The induction is on the events from the left, with the events so far as an argument of the
invariant. So an invariant may speak about the history: an output that answers an event long past,
or a state that sums up all of them.
-/

set_option autoImplicit false

namespace Trace

variable {S E O : Type} (step : S → E → S × List O)

/-- One more event. -/
def more (p : S × List O) (e : E) : S × List O := ((step p.1 e).1, p.2 ++ (step p.1 e).2)

/-- The state after the events, and all outputs. -/
def run (s : S) (evs : List E) : S × List O := evs.foldl (more step) (s, [])

/-- One more event at the end of a run. -/
theorem run_concat (s : S) (evs : List E) (e : E) :
    run step s (evs ++ [e]) = more step (run step s evs) e := by
  rw [run, run, List.foldl_append, List.foldl_cons, List.foldl_nil]

/-- What a step keeps of the events, the state and the outputs so far, a run keeps. The invariant
has three arguments, so it may compare the outputs with the events they answer. -/
theorem run_induction {s : S} {P : List E → S × List O → Prop} (h0 : P [] (s, []))
    (hstep : ∀ evs p e, P evs p → P (evs ++ [e]) (more step p e)) (evs : List E) :
    P evs (run step s evs) := by
  induction evs using List.reverseRecOn with
  | nil => exact h0
  | append_singleton evs e ih =>
    rw [run_concat]
    exact hstep evs _ e ih

/-- A run goes on from where it stopped. -/
theorem run_append (s : S) (pre suf : List E) :
    run step s (pre ++ suf) =
      ((run step (run step s pre).1 suf).1,
        (run step s pre).2 ++ (run step (run step s pre).1 suf).2) := by
  induction suf using List.reverseRecOn with
  | nil => simp [run]
  | append_singleton suf e ih =>
    rw [← List.append_assoc, run_concat, run_concat, ih]
    simp [more]

end Trace
