import Mathlib.Data.List.AList

/-!
# Dropping entries of an association map

`retain` keeps the entries that satisfy a predicate, as `HashMap::retain` does.  Looking
a key up afterwards is looking it up before and testing the entry (`lookup_retain`).
-/

namespace AuthKademlia.Lib

variable {κ β : Type*}

/-- Keep the entries that satisfy `p`. -/
def retain (p : κ → β → Bool) (m : AList fun _ : κ => β) : AList fun _ : κ => β :=
  ⟨m.entries.filter fun e => p e.1 e.2, m.nodupKeys.sublist List.filter_sublist⟩

variable [DecidableEq κ]

theorem dlookup_filter (p : κ → β → Bool) {l : List (Sigma fun _ : κ => β)} (h : l.NodupKeys)
    (k : κ) : (l.filter fun e => p e.1 e.2).dlookup k = (l.dlookup k).filter (p k) := by
  induction l with
  | nil => rfl
  | cons e l ih =>
      obtain ⟨k', v⟩ := e
      obtain ⟨hk', hl⟩ := List.nodupKeys_cons.mp h
      by_cases hk : k = k'
      · subst hk
        -- the key occurs nowhere else, so a dropped head is a missing key
        have hnone : (l.filter fun e => p e.1 e.2).dlookup k = none := by
          rw [ih hl, List.dlookup_eq_none.mpr hk', Option.filter_none]
        rw [List.dlookup_cons_eq]
        by_cases hp : p k v <;> simp [hp, hnone, Option.filter]
      · have hne : k ≠ (⟨k', v⟩ : Sigma fun _ : κ => β).1 := hk
        rw [List.dlookup_cons_ne _ _ hne, ← ih hl]
        by_cases hp : p k' v
        · rw [List.filter_cons, if_pos hp, List.dlookup_cons_ne _ _ hne]
        · rw [List.filter_cons, if_neg hp]

@[simp] theorem lookup_retain (p : κ → β → Bool) (m : AList fun _ : κ => β) (k : κ) :
    (retain p m).lookup k = (m.lookup k).filter (p k) :=
  dlookup_filter p m.nodupKeys k

end AuthKademlia.Lib
