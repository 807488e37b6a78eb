/-
# Theory.Transducer -- step functions, their runs, and what carries over a run

A transducer is a step function `step : σ → ι → σ × ο`: from a state and an input
it gives the next state and an output.  `runState` and `runOutputs` are its runs
over a list of inputs.  `runOutputs_simulation` carries a fact about one step to a whole
run: two transducers whose related states answer every input alike, and stay related, have
the same outputs on every run.

`emitted` flattens the outputs of a transducer that answers each input with a
list, so that an input may produce no output or several.
-/
import Mathlib.Data.List.Basic

namespace Stm32Robot.Theory.Transducer

set_option autoImplicit false

variable {σ τ ι κ ο : Type*}

/-- The state after a list of inputs. -/
def runState (step : σ → ι → σ × ο) (s : σ) : List ι → σ
  | [] => s
  | i :: is => runState step (step s i).1 is

/-- The outputs of a list of inputs, one for each. -/
def runOutputs (step : σ → ι → σ × ο) (s : σ) : List ι → List ο
  | [] => []
  | i :: is => (step s i).2 :: runOutputs step (step s i).1 is

section Runs

variable (step : σ → ι → σ × ο)

@[simp] theorem runState_nil (s : σ) : runState step s [] = s := rfl

@[simp] theorem runState_cons (s : σ) (i : ι) (is : List ι) :
    runState step s (i :: is) = runState step (step s i).1 is := rfl

@[simp] theorem runOutputs_nil (s : σ) : runOutputs step s [] = [] := rfl

@[simp] theorem runOutputs_cons (s : σ) (i : ι) (is : List ι) :
    runOutputs step s (i :: is) = (step s i).2 :: runOutputs step (step s i).1 is := rfl

theorem runState_append (s : σ) (is js : List ι) :
    runState step s (is ++ js) = runState step (runState step s is) js := by
  induction is generalizing s with
  | nil => rfl
  | cons i is ih => exact ih (step s i).1

theorem runOutputs_append (s : σ) (is js : List ι) :
    runOutputs step s (is ++ js) =
      runOutputs step s is ++ runOutputs step (runState step s is) js := by
  induction is generalizing s with
  | nil => rfl
  | cons i is ih =>
      simp only [List.cons_append, runOutputs_cons, runState_cons]
      rw [ih]

end Runs

/-- Related states that answer every input alike, and stay related, have related
runs with the same outputs. -/
theorem runOutputs_simulation {step : σ → ι → σ × ο} {step' : τ → ι → τ × ο}
    {R : σ → τ → Prop}
    (kept : ∀ s t i, R s t → R (step s i).1 (step' t i).1 ∧ (step s i).2 = (step' t i).2)
    {s : σ} {t : τ} (start : R s t) (is : List ι) :
    R (runState step s is) (runState step' t is) ∧
      runOutputs step s is = runOutputs step' t is := by
  induction is generalizing s t with
  | nil => exact ⟨start, rfl⟩
  | cons i is ih =>
      obtain ⟨related, same⟩ := kept s t i start
      obtain ⟨relatedRun, sameRun⟩ := ih related
      exact ⟨relatedRun, by rw [runOutputs_cons, runOutputs_cons, same, sameRun]⟩

/-! ## Transducers that answer with a list -/

/-- The outputs of a run, joined: an input may emit nothing or several items. -/
def emitted (step : σ → ι → σ × List ο) (s : σ) (is : List ι) : List ο :=
  (runOutputs step s is).flatten

section Emitted

variable (step : σ → ι → σ × List ο)

@[simp] theorem emitted_nil (s : σ) : emitted step s [] = [] := rfl

@[simp] theorem emitted_cons (s : σ) (i : ι) (is : List ι) :
    emitted step s (i :: is) = (step s i).2 ++ emitted step (step s i).1 is := rfl

theorem emitted_append (s : σ) (is js : List ι) :
    emitted step s (is ++ js) =
      emitted step s is ++ emitted step (runState step s is) js := by
  unfold emitted
  rw [runOutputs_append, List.flatten_append]

end Emitted

end Stm32Robot.Theory.Transducer
