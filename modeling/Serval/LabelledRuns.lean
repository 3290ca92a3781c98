import Mathlib.Tactic.TypeStar

/-! # Labelled runs

The label of a step is what it shows to the outside.
-/
namespace LabelledRuns

variable {σ ℓ : Type*}

inductive Run (step : σ → ℓ → σ → Prop) : σ → List ℓ → σ → Prop where
  | nil {s} : Run step s [] s
  | cons {s l t ls u} : step s l t → Run step t ls u → Run step s (l :: ls) u

end LabelledRuns
