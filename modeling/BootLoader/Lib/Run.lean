/-
Runs of a transition function that takes a choice at each step.

# What a run is

`step : ι → σ → σ` moves a state under a choice the environment makes
(here: a bit the hardware leaves undefined). `Reaches step ok s₀` collects
the states a run from `s₀` passes through while `ok` holds of every state
it steps from, and `run step z s₀` is the run along one infinite sequence
of choices.

# The two rules

- `Reaches.invariant`: what holds at the start and survives one step from
  an `ok` state holds of every state reached;
- `run_terminates`: a measure that drops at each step from a state that
  is not final forces every run to a final state, whatever the choices.
-/
import Mathlib.Tactic.Common

namespace Run

variable {ι σ : Type _}

-- ========================================================= reachability

/-- The states reached from `s₀` by steps taken from `ok` states. -/
inductive Reaches (step : ι → σ → σ) (ok : σ → Prop) (s₀ : σ) : σ → Prop
  | start : Reaches step ok s₀ s₀
  | step {s : σ} (i : ι) :
      Reaches step ok s₀ s → ok s → Reaches step ok s₀ (step i s)

variable {step : ι → σ → σ} {ok : σ → Prop} {s₀ s s' : σ}

/-- The invariant rule. -/
theorem Reaches.invariant {I : σ → Prop} (hstart : I s₀)
    (hstep : ∀ s i, I s → ok s → I (step i s))
    (h : Reaches step ok s₀ s) : I s := by
  induction h with
  | start => exact hstart
  | step i _ hok ih => exact hstep _ i ih hok

/-- The invariant rule where a step may also use that its source is
itself reached. -/
theorem Reaches.invariant_of_reached {I : σ → Prop} (hstart : I s₀)
    (hstep : ∀ s i, Reaches step ok s₀ s → I s → ok s → I (step i s))
    (h : Reaches step ok s₀ s) : I s := by
  induction h with
  | start => exact hstart
  | step i hr hok ih => exact hstep _ i hr ih hok

theorem Reaches.trans (h : Reaches step ok s₀ s)
    (h' : Reaches step ok s s') : Reaches step ok s₀ s' := by
  induction h' with
  | start => exact h
  | step i _ hok ih => exact Reaches.step i ih hok

/-- A weaker condition on the steps reaches at least as much. -/
theorem Reaches.mono {ok' : σ → Prop} (himp : ∀ s, ok s → ok' s)
    (h : Reaches step ok s₀ s) : Reaches step ok' s₀ s := by
  induction h with
  | start => exact Reaches.start
  | step i _ hok ih => exact Reaches.step i ih (himp _ hok)

/-- A condition that holds of every state reached may be added to the
condition on the steps. -/
theorem Reaches.strengthen {ok' : σ → Prop}
    (hall : ∀ s, Reaches step ok s₀ s → ok' s)
    (h : Reaches step ok s₀ s) : Reaches step ok' s₀ s := by
  induction h with
  | start => exact Reaches.start
  | step i hr _ ih => exact Reaches.step i ih (hall _ hr)

-- ====================================================== infinite runs

/-- The run from `s₀` along the choices `z`. -/
def run (step : ι → σ → σ) (z : Nat → ι) (s₀ : σ) : Nat → σ
  | 0 => s₀
  | n + 1 => step (z n) (run step z s₀ n)

/-- A run goes on from where it has come to. -/
theorem run_add (step : ι → σ → σ) (z : Nat → ι) (s₀ : σ) (n k : Nat) :
    run step z s₀ (n + k)
      = run step (fun i => z (n + i)) (run step z s₀ n) k := by
  induction k with
  | zero => rfl
  | succ k ih => exact congrArg (step (z (n + k))) ih

theorem reaches_run (step : ι → σ → σ) (z : Nat → ι) (s₀ : σ) (n : Nat) :
    Reaches step (fun _ => True) s₀ (run step z s₀ n) := by
  induction n with
  | zero => exact Reaches.start
  | succ n ih => exact Reaches.step (z n) ih trivial

/-- The termination rule: a measure that drops at every step from a state
that is not final (`F`) brings every run to a final state. -/
theorem run_terminates {F : σ → Prop} (μ : σ → Nat)
    (hdrop : ∀ s i, Reaches step (fun _ => True) s₀ s → ¬ F s →
      μ (step i s) < μ s)
    (z : Nat → ι) : ∃ n, F (run step z s₀ n) := by
  by_contra hnot
  have hnever : ∀ n, ¬ F (run step z s₀ n) :=
    fun n hn => hnot ⟨n, hn⟩
  have hbound : ∀ n, μ (run step z s₀ n) + n ≤ μ s₀ := by
    intro n
    induction n with
    | zero => exact Nat.le_refl _
    | succ n ih =>
        have hd := hdrop _ (z n) (reaches_run step z s₀ n) (hnever n)
        show μ (step (z n) (run step z s₀ n)) + (n + 1) ≤ μ s₀
        omega
  have := hbound (μ s₀ + 1)
  omega

end Run
