import Mathlib.Data.List.Sort
import Mathlib.Data.List.Nodup
import Mathlib.Order.Defs.LinearOrder

/-!
# Association lists in the order of their keys

`sortByKey` puts the entries of an association list in order, as collecting them into a
`BTreeMap` does.  If no key occurs twice, an entry is determined by its key: then the result
does not depend on the order of the entries (`sortByKey_eq_of_perm`), and looking a key up in
it is looking it up before (`lookup_sortByKey`).  Entries that are in order are left as they are
(`sortByKey_eq_self_iff`).
-/

namespace AuthKademlia.Lib

variable {κ β : Type*} [LinearOrder κ] {l l' : List (κ × β)}

/-- The entries in the order of their keys. -/
def sortByKey (l : List (κ × β)) : List (κ × β) := l.insertionSort fun e e' => e.1 ≤ e'.1

theorem sortByKey_perm (l : List (κ × β)) : (sortByKey l).Perm l := List.perm_insertionSort _ l

theorem sortByKey_pairwise (l : List (κ × β)) :
    (sortByKey l).Pairwise fun e e' => e.1 ≤ e'.1 := by
  have : Std.Total fun e e' : κ × β => e.1 ≤ e'.1 := ⟨fun e e' => le_total e.1 e'.1⟩
  have : IsTrans (κ × β) fun e e' => e.1 ≤ e'.1 := ⟨fun _ _ _ h h' => le_trans h h'⟩
  exact List.pairwise_insertionSort _ l

theorem sortByKey_eq_self_iff : sortByKey l = l ↔ l.Pairwise fun e e' => e.1 ≤ e'.1 := by
  constructor
  · intro h
    have hsorted := sortByKey_pairwise l
    rwa [h] at hsorted
  · exact List.Pairwise.insertionSort_eq

/-- **The order of the entries does not matter.** -/
theorem sortByKey_eq_of_perm (hl : (l.map Prod.fst).Nodup) (h : l.Perm l') :
    sortByKey l = sortByKey l' := by
  have hperm : (sortByKey l).Perm (sortByKey l') :=
    (sortByKey_perm l).trans (h.trans (sortByKey_perm l').symm)
  refine hperm.eq_of_pairwise ?_ (sortByKey_pairwise l) (sortByKey_pairwise l')
  intro e e' he he' hle hge
  have hmem : e ∈ l := (sortByKey_perm l).mem_iff.mp he
  have hmem' : e' ∈ l := h.mem_iff.mpr ((sortByKey_perm l').mem_iff.mp he')
  exact List.inj_on_of_nodup_map hl hmem hmem' (le_antisymm hle hge)

/-- With distinct keys, a key is looked up to the value it has in the list. -/
theorem lookup_eq_some_iff_mem (hl : (l.map Prod.fst).Nodup) {k : κ} {v : β} :
    l.lookup k = some v ↔ (k, v) ∈ l := by
  induction l with
  | nil => simp
  | cons e l ih =>
      obtain ⟨k', v'⟩ := e
      rw [List.map_cons, List.nodup_cons] at hl
      by_cases hk : k = k'
      · subst hk
        have hnot : (k, v) ∉ l := fun hmem => hl.1 (List.mem_map.mpr ⟨(k, v), hmem, rfl⟩)
        simp [hnot, eq_comm]
      · rw [List.lookup_cons, beq_false_of_ne hk]
        simp [ih hl.2, hk]

theorem lookup_eq_of_perm (hl : (l.map Prod.fst).Nodup) (h : l.Perm l') (k : κ) :
    l.lookup k = l'.lookup k := by
  apply Option.ext
  intro v
  rw [lookup_eq_some_iff_mem hl, lookup_eq_some_iff_mem ((h.map _).nodup_iff.mp hl), h.mem_iff]

/-- **Sorting does not move a value away from its key.** -/
theorem lookup_sortByKey (hl : (l.map Prod.fst).Nodup) (k : κ) :
    (sortByKey l).lookup k = l.lookup k :=
  (lookup_eq_of_perm hl (sortByKey_perm l).symm k).symm

end AuthKademlia.Lib
