import AuthKademlia.Lib.Iteration

/-!
# Traversals to both sides

A traversal drains a current group of items and then goes on to the groups that wait on
its left and on its right, in turn and beginning with the left, until both sides are used
up.  All lists are stacks that are popped at the end.

What it gives is the current group followed by the waiting groups in the order
`groupOrder`, each from its last item to its first (`TwoSided.yields_contents`).

## Main definitions

* `TwoSided` — the state of a traversal; `TwoSided.next` — its next item.
* `TwoSided.groupOrder`, `TwoSided.contents` — the groups and the items still to come.
-/

namespace AuthKademlia.Lib

/-- The items of the current group and the groups waiting on both sides. -/
structure TwoSided (α β : Type) where
  current : List α
  left : List β
  right : List β
  takeLeft : Bool

namespace TwoSided

variable {α β : Type} {items : β → List α} {s s' : TwoSided α β} {a : α}

/-- Move to the next group: left if it is its turn, else right, else whatever is left on
the left. -/
def advance (items : β → List α) (s : TwoSided α β) : Option (TwoSided α β) :=
  match s.takeLeft, s.left.getLast? with
  | true, some b => some { s with current := items b, left := s.left.dropLast, takeLeft := false }
  | _, left =>
      match s.right.getLast? with
      | some b => some { s with current := items b, right := s.right.dropLast, takeLeft := true }
      | none => left.map fun b => { s with current := items b, left := s.left.dropLast }

/-- Drain the current group, then advance; every advance uses up one group. -/
def nextWithin (items : β → List α) : ℕ → TwoSided α β → Option (α × TwoSided α β)
  | fuel, s =>
      match s.current.getLast? with
      | some a => some (a, { s with current := s.current.dropLast })
      | none =>
          match fuel with
          | 0 => none
          | fuel + 1 => (s.advance items).bind (nextWithin items fuel)

/-- The next item. -/
def next (items : β → List α) (s : TwoSided α β) : Option (α × TwoSided α β) :=
  nextWithin items (s.left.length + s.right.length) s

/-- The groups still to be visited, in order. -/
def groupOrder (s : TwoSided α β) : List β :=
  if s.takeLeft then alternate s.left.reverse s.right.reverse
  else alternate s.right.reverse s.left.reverse

/-- The items still to come, in order. -/
def contents (items : β → List α) (s : TwoSided α β) : List α :=
  s.current.reverse ++ s.groupOrder.flatMap fun b => (items b).reverse

theorem groupOrder_perm (s : TwoSided α β) : s.groupOrder.Perm (s.left ++ s.right) := by
  have hsides : (s.left.reverse ++ s.right.reverse).Perm (s.left ++ s.right) :=
    (List.reverse_perm _).append (List.reverse_perm _)
  simp only [groupOrder]
  split
  · exact (alternate_perm _ _).trans hsides
  · exact ((alternate_perm _ _).trans List.perm_append_comm).trans hsides

/-- `advance` takes the first group of the order. -/
theorem groupOrder_of_advance_eq_none (h : s.advance items = none) : s.groupOrder = [] := by
  rcases s with ⟨current, left, right, takeLeft⟩
  rcases left.eq_nil_or_concat with rfl | ⟨left, a, rfl⟩ <;>
    rcases right.eq_nil_or_concat with rfl | ⟨right, b, rfl⟩ <;>
    cases takeLeft <;> simp_all [advance, groupOrder]

theorem groupOrder_of_advance_eq_some (h : s.advance items = some s') :
    ∃ b, s'.current = items b ∧ s.groupOrder = b :: s'.groupOrder := by
  rcases s with ⟨current, left, right, takeLeft⟩
  rcases left.eq_nil_or_concat with rfl | ⟨left, a, rfl⟩ <;>
    rcases right.eq_nil_or_concat with rfl | ⟨right, b, rfl⟩ <;>
    cases takeLeft <;> simp [advance] at h <;> simp [← h, groupOrder]

theorem nextWithin_of_nil (hcur : s.current = []) (fuel : ℕ) :
    nextWithin items (fuel + 1) s = (s.advance items).bind (nextWithin items fuel) := by
  simp [nextWithin, hcur]

theorem nextWithin_of_concat {rest : List α} (hcur : s.current = rest.concat a) (fuel : ℕ) :
    nextWithin items fuel s = some (a, { s with current := rest }) := by
  cases fuel <;> simp [nextWithin, hcur]

theorem nextWithin_eq_none {fuel : ℕ} (hfuel : s.groupOrder.length ≤ fuel)
    (h : nextWithin items fuel s = none) : s.contents items = [] := by
  induction fuel generalizing s with
  | zero =>
      have horder : s.groupOrder = [] := List.eq_nil_of_length_eq_zero (by omega)
      rcases s.current.eq_nil_or_concat with hcur | ⟨rest, last, hcur⟩
      · simp [contents, hcur, horder]
      · simp [nextWithin_of_concat hcur] at h
  | succ fuel ih =>
      rcases s.current.eq_nil_or_concat with hcur | ⟨rest, last, hcur⟩
      · cases hnext : s.advance items with
        | none => simp [contents, hcur, groupOrder_of_advance_eq_none hnext]
        | some s' =>
            rcases groupOrder_of_advance_eq_some hnext with ⟨b, hb, horder⟩
            have hlen : s'.groupOrder.length ≤ fuel := by simpa [horder] using hfuel
            have hnil := ih hlen (by simpa [nextWithin_of_nil hcur, hnext] using h)
            simpa [contents, hcur, horder, hb] using hnil
      · simp [nextWithin_of_concat hcur] at h

theorem nextWithin_eq_some {fuel : ℕ} (h : nextWithin items fuel s = some (a, s')) :
    s.contents items = a :: s'.contents items := by
  induction fuel generalizing s with
  | zero =>
      rcases s.current.eq_nil_or_concat with hcur | ⟨rest, last, hcur⟩
      · simp [nextWithin, hcur] at h
      · cases (nextWithin_of_concat hcur 0).symm.trans h
        simp [contents, hcur, groupOrder]
  | succ fuel ih =>
      rcases s.current.eq_nil_or_concat with hcur | ⟨rest, last, hcur⟩
      · cases hnext : s.advance items with
        | none => simp [nextWithin_of_nil hcur, hnext] at h
        | some s₁ =>
            rcases groupOrder_of_advance_eq_some hnext with ⟨b, hb, horder⟩
            rw [← ih (by simpa [nextWithin_of_nil hcur, hnext] using h)]
            simp [contents, hcur, horder, hb]
      · cases (nextWithin_of_concat hcur _).symm.trans h
        simp [contents, hcur, groupOrder]

/-- **The traversal visits everything once**, in the order of `contents`. -/
theorem yields_contents (items : β → List α) (s : TwoSided α β) :
    Yields (next items) s (s.contents items) := by
  refine yields_of_contents ?_ (fun s a s' h => nextWithin_eq_some h) s
  intro s h
  refine nextWithin_eq_none ?_ h
  have := s.groupOrder_perm.length_eq
  simp only [List.length_append] at this
  omega

end TwoSided

end AuthKademlia.Lib
