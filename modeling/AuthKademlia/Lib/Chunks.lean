import Mathlib.Data.List.Basic

/-!
# Cutting a list into chunks and filling numbered slots

`chunks n l` cuts `l` into consecutive pieces of length `n`, the last one possibly
shorter.  `slotsAfter n f is` is the other end of the story: `n` numbered slots into
which the pieces `f i` have been put for the indices `i` of `is`, in any order and
with any repetitions.  Its content depends only on which indices occur, so putting a
piece twice changes nothing and the slots are full exactly when every index has
occurred.

## Main definitions

* `chunks n l` — the pieces of `l`.
* `slotsAfter n f is` — the slots after the pieces `is` have arrived.
* `arrived n is` — how many different slots that is.
-/

namespace AuthKademlia.Lib

variable {α : Type*}

/-! ## Chunks -/

/-- The `i`-th piece of length `n`. -/
def chunkAt (n : ℕ) (l : List α) (i : ℕ) : List α := (l.drop (i * n)).take n

/-- `l` cut into pieces of length `n`, the last one possibly shorter. -/
def chunks (n : ℕ) (l : List α) : List (List α) :=
  (List.range ((l.length + n - 1) / n)).map (chunkAt n l)

/-- The first `m` pieces are a prefix of the list. -/
theorem flatMap_chunkAt (n m : ℕ) (l : List α) :
    (List.range m).flatMap (chunkAt n l) = l.take (m * n) := by
  induction m with
  | zero => simp
  | succ m ih =>
      rw [List.range_succ, List.flatMap_append, ih, List.flatMap_singleton, chunkAt,
        Nat.succ_mul, List.take_add]

/-! ## Slots -/

/-- `n` slots after the pieces with indices `is` have arrived. -/
def slotsAfter (n : ℕ) (f : ℕ → α) (is : List ℕ) : List (Option α) :=
  (List.range n).map fun j => if j ∈ is then some (f j) else none

/-- How many of the `n` slots the indices `is` fill. -/
def arrived (n : ℕ) (is : List ℕ) : ℕ := ((List.range n).filter fun j => j ∈ is).length

variable {n : ℕ} {f : ℕ → α} {is : List ℕ} {i : ℕ}

@[simp] theorem length_slotsAfter : (slotsAfter n f is).length = n := by simp [slotsAfter]

theorem slotsAfter_nil (n : ℕ) (f : ℕ → α) : slotsAfter n f [] = List.replicate n none := by
  simp [slotsAfter]

theorem getElem?_slotsAfter (hi : i < n) :
    (slotsAfter n f is)[i]? = some (if i ∈ is then some (f i) else none) := by
  simp [slotsAfter, hi]

/-- A piece that has already arrived changes nothing. -/
theorem slotsAfter_concat_of_mem (h : i ∈ is) :
    slotsAfter n f (is ++ [i]) = slotsAfter n f is := by
  apply List.map_congr_left
  intro j _
  by_cases hj : j = i
  · simp [hj, h]
  · simp [hj]

/-- A new piece fills its slot. -/
theorem slotsAfter_concat :
    slotsAfter n f (is ++ [i]) = (slotsAfter n f is).set i (some (f i)) := by
  apply List.ext_getElem
  · simp
  · intro j h1 h2
    rw [List.getElem_set]
    by_cases hj : i = j
    · simp [slotsAfter, hj]
    · simp [slotsAfter, hj, Ne.symm hj]

@[simp] theorem arrived_nil : arrived n [] = 0 := by simp [arrived]

theorem arrived_le (n : ℕ) (is : List ℕ) : arrived n is ≤ n := by
  simpa [arrived] using List.length_filter_le (fun j => decide (j ∈ is)) (List.range n)

theorem arrived_concat_of_mem (h : i ∈ is) : arrived n (is ++ [i]) = arrived n is := by
  have : ∀ j, j ∈ is ++ [i] ↔ j ∈ is := by
    intro j
    simp only [List.mem_append, List.mem_singleton, or_iff_left_iff_imp]
    rintro rfl
    exact h
  simp only [arrived, this]

theorem arrived_concat (h : i ∉ is) (hi : i < n) : arrived n (is ++ [i]) = arrived n is + 1 := by
  have hnodup := List.nodup_range (n := n)
  have hperm : ((List.range n).filter fun j => j ∈ is ++ [i]).Perm
      (i :: (List.range n).filter fun j => j ∈ is) := by
    rw [List.perm_ext_iff_of_nodup (hnodup.filter _)
      (List.nodup_cons.mpr ⟨by simp [h], hnodup.filter _⟩)]
    intro j
    have hmem : j ∈ is ++ [i] ↔ j ∈ is ∨ j = i := by simp
    simp only [List.mem_filter, List.mem_range, hmem, decide_eq_true_eq, List.mem_cons]
    constructor
    · rintro ⟨hj, hj' | rfl⟩
      · exact Or.inr ⟨hj, hj'⟩
      · exact Or.inl rfl
    · rintro (rfl | ⟨hj, hj'⟩)
      · exact ⟨hi, Or.inr rfl⟩
      · exact ⟨hj, Or.inl hj'⟩
  simpa [arrived] using hperm.length_eq

/-- All slots are filled exactly when every index has arrived. -/
theorem arrived_eq_iff : arrived n is = n ↔ ∀ j < n, j ∈ is := by
  have h := List.length_filter_eq_length_iff (l := List.range n) (p := fun j => decide (j ∈ is))
  rw [List.length_range] at h
  simpa [arrived] using h

theorem slotsAfter_of_full (h : ∀ j < n, j ∈ is) :
    slotsAfter n f is = (List.range n).map fun j => some (f j) := by
  apply List.map_congr_left
  intro j hj
  simp [h j (List.mem_range.mp hj)]

end AuthKademlia.Lib
