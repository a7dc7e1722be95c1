import Mathlib.Data.List.Induction

/- Machines that read inputs one by one and write some outputs for each. -/
namespace Mealy

variable {σ ι ο : Type} (step : σ → ι → σ × List ο)

/-- The state behind the inputs, and all that has been written. -/
def run : σ → List ι → σ × List ο
  | s, [] => (s, [])
  | s, input :: rest => ((run (step s input).1 rest).1,
    (step s input).2 ++ (run (step s input).1 rest).2)

@[simp] theorem run_nil (s : σ) : run step s [] = (s, []) := rfl

theorem run_append (s : σ) (first second : List ι) :
    run step s (first ++ second) =
      ((run step (run step s first).1 second).1,
      (run step s first).2 ++ (run step (run step s first).1 second).2) := by
  induction first generalizing s with
  | nil => simp
  | cons input rest ih => simp [run, ih]

theorem run_concat (s : σ) (inputs : List ι) (input : ι) :
    run step s (inputs ++ [input]) =
      ((step (run step s inputs).1 input).1, (run step s inputs).2 ++
      (step (run step s inputs).1 input).2) := by
  simp [run_append, run]

/-- What every step keeps holds behind every run whose inputs are admitted one after the other. -/
theorem run_invariant {admitted : List ι → Prop} {holds : List ι → List ο → σ → Prop} {s : σ}
    (closed : ∀ inputs input, admitted (inputs ++ [input]) → admitted inputs)
    (start : holds [] [] s)
    (keeps : ∀ inputs input written state, admitted (inputs ++ [input]) →
      holds inputs written state → holds (inputs ++ [input]) (written ++ (step state input).2)
      (step state input).1)
    (inputs : List ι) (all : admitted inputs) :
    holds inputs (run step s inputs).2 (run step s inputs).1 := by
  induction inputs using List.reverseRecOn with
  | nil => exact start
  | append_singleton inputs input ih =>
    rw [run_concat]
    exact keeps inputs input _ _ all (ih (closed inputs input all))

end Mealy
