import Mathlib.Data.List.Basic

/-!
# How long a condition holds from the start

`leading p n` counts the indices from `0` on, below `n`, up to the first one at which `p`
fails.  It is the value of a loop over `0..n` that counts and breaks.

## Main definitions

* `leading p n` — the count.
* `of_lt_leading`, `not_of_leading_lt` — it is the largest one with `p` below it.
* `le_leading_iff` — when the condition holds at least so long.
-/

namespace AuthKademlia.Lib

variable {p q : ℕ → Bool} {n i : ℕ}

/-- The number of indices below `n` before the first one at which `p` fails. -/
def leading (p : ℕ → Bool) (n : ℕ) : ℕ := ((List.range n).takeWhile p).length

theorem leading_eq_findIdx (p : ℕ → Bool) (n : ℕ) :
    leading p n = (List.range n).findIdx fun i => !p i := by
  have hle : (List.range n).findIdx (fun i => !p i) ≤ (List.range n).length :=
    List.findIdx_le_length
  rw [leading, List.takeWhile_eq_take_findIdx_not, List.length_take, Nat.min_eq_left hle]

theorem leading_le (p : ℕ → Bool) (n : ℕ) : leading p n ≤ n := by
  simpa [leading] using (List.takeWhile_sublist (l := List.range n) p).length_le

theorem of_lt_leading (h : i < leading p n) : p i = true := by
  rw [leading_eq_findIdx] at h
  simpa using List.not_of_lt_findIdx h

theorem not_of_leading_lt (h : leading p n < n) : p (leading p n) = false := by
  have hlt : (List.range n).findIdx (fun i => !p i) < (List.range n).length := by
    simpa [← leading_eq_findIdx] using h
  have hfail := List.findIdx_getElem (w := hlt)
  simpa [← leading_eq_findIdx] using hfail

/-- It is at least `d` when the condition holds below `d`. -/
theorem le_leading_iff {d : ℕ} (hd : d ≤ n) : d ≤ leading p n ↔ ∀ i < d, p i = true := by
  constructor
  · intro hle i hi
    exact of_lt_leading (Nat.lt_of_lt_of_le hi hle)
  · intro h
    by_contra hlt
    have hlt : leading p n < d := Nat.lt_of_not_le hlt
    simpa [not_of_leading_lt (Nat.lt_of_lt_of_le hlt hd)] using h _ hlt

/-- A weaker condition holds at least as long. -/
theorem leading_mono (h : ∀ i < n, p i = true → q i = true) : leading p n ≤ leading q n := by
  rw [le_leading_iff (leading_le p n)]
  intro i hi
  exact h i (Nat.lt_of_lt_of_le hi (leading_le p n)) (of_lt_leading hi)

/-- Conditions that agree below `n` have the same count. -/
theorem leading_congr (h : ∀ i < n, p i = q i) : leading p n = leading q n :=
  Nat.le_antisymm (leading_mono fun i hi hp => h i hi ▸ hp)
    (leading_mono fun i hi hq => (h i hi).symm ▸ hq)

/-- A condition that never fails holds all the way. -/
theorem leading_eq_of_forall (h : ∀ i < n, p i = true) : leading p n = n :=
  Nat.le_antisymm (leading_le p n) ((le_leading_iff (Nat.le_refl n)).mpr h)

end AuthKademlia.Lib
