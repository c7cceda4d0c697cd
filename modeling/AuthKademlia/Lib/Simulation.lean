import Mathlib.Order.Basic
import Mathlib.Data.List.Pairwise

/-!
# Machines that answer, and simulations between them

A machine answers every call and moves on: `step : σ → ι → ω × σ`.  `answersTo` collects
what a list of calls is answered.

Calls carry a time.  A timed simulation relates the states of two machines from some time
on; if one call, not before that time, gives the same answer on related states and leaves
them related from its own time on, then every list of calls in the order of time is
answered alike.

## Main definitions

* `answersTo step s calls` — what the calls are answered, in order.
* `TimedSimulation` — a relation that one call preserves.
-/

namespace AuthKademlia.Lib

variable {σ τ ι ω κ : Type*}

/-- What a list of calls is answered. -/
def answersTo (step : σ → ι → ω × σ) : σ → List ι → List ω
  | _, [] => []
  | s, i :: is => (step s i).1 :: answersTo step (step s i).2 is

/-- `R t s u`: from time `t` on the states `s` and `u` answer alike. -/
structure TimedSimulation [Preorder κ] (time : ι → κ) (step : σ → ι → ω × σ)
    (step' : τ → ι → ω × τ) (R : κ → σ → τ → Prop) : Prop where
  answer : ∀ {t s u i}, R t s u → t ≤ time i → (step s i).1 = (step' u i).1
  next : ∀ {t s u i}, R t s u → t ≤ time i → R (time i) (step s i).2 (step' u i).2

/-- **Related states answer every ordered list of calls alike.** -/
theorem TimedSimulation.answersTo_eq [Preorder κ] {time : ι → κ} {step : σ → ι → ω × σ}
    {step' : τ → ι → ω × τ} {R : κ → σ → τ → Prop} (h : TimedSimulation time step step' R) {t : κ}
    {s : σ} {u : τ} (hR : R t s u) {calls : List ι} (hstart : ∀ i ∈ calls, t ≤ time i)
    (horder : calls.Pairwise fun i j => time i ≤ time j) :
    answersTo step s calls = answersTo step' u calls := by
  induction calls generalizing t s u with
  | nil => rfl
  | cons i calls ih =>
      obtain ⟨hlater, horder⟩ := List.pairwise_cons.mp horder
      have hi := hstart i List.mem_cons_self
      simp only [answersTo, h.answer hR hi, ih (h.next hR hi) hlater horder]

end AuthKademlia.Lib
