import Mathlib.Data.List.Induction

/-!
# Runs of a machine that answers

A machine takes an input, answers, and moves to its next state : `step`. `trace` lists the
calls of a run with the states around them. What every call keeps that meets a condition holds
before and after every call of a run whose calls all meet it (`run_induction`).
-/

namespace Runs

/-- A call, with the states around it. -/
structure Taken (σ ι ρ : Type*) where
  before : σ
  input : ι
  reply : ρ
  after : σ

variable {σ ι ρ : Type*} (step : σ → ι → ρ × σ)

/-- The state after some calls. -/
def run (s : σ) (inputs : List ι) : σ := inputs.foldl (fun s i => (step s i).2) s

/-- The calls of a run. -/
def trace (s : σ) : List ι → List (Taken σ ι ρ)
  | [] => []
  | i :: inputs => ⟨s, i, (step s i).1, (step s i).2⟩ :: trace (step s i).2 inputs

@[simp] theorem run_nil (s : σ) : run step s [] = s := rfl

@[simp] theorem run_cons (s : σ) (i : ι) (inputs : List ι) :
    run step s (i :: inputs) = run step (step s i).2 inputs := rfl

variable {step}

/-- A call of a run is a step of the machine. -/
theorem reply_eq_of_mem_trace {s : σ} {inputs : List ι} {t : Taken σ ι ρ}
    (h : t ∈ trace step s inputs) : (t.reply, t.after) = step t.before t.input := by
  induction inputs generalizing s with
  | nil => cases h
  | cons i inputs ih =>
    rcases List.mem_cons.mp h with rfl | h
    · rfl
    · exact ih h

/-- What every call keeps that meets a condition. -/
theorem run_induction {P : σ → Prop} {C : σ → ι → Prop}
    (hstep : ∀ s i, P s → C s i → P (step s i).2) {s : σ} {inputs : List ι} (hs : P s)
    (h : ∀ t ∈ trace step s inputs, C t.before t.input) : P (run step s inputs) := by
  induction inputs generalizing s with
  | nil => exact hs
  | cons i inputs ih =>
    rw [trace, List.forall_mem_cons] at h
    exact ih (hstep s i hs h.1) h.2

/-- What every call keeps. -/
theorem run_invariant {P : σ → Prop} (hstep : ∀ s i, P s → P (step s i).2) {s : σ}
    (inputs : List ι) (hs : P s) : P (run step s inputs) :=
  run_induction (C := fun _ _ => True) (fun s i hs _ => hstep s i hs) hs fun _ _ => trivial

end Runs
