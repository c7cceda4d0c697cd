import Mathlib.Data.Nat.Notation

/-!
# Loops that run a body until a test succeeds

`loopUntil body done fuel s` is `loop { s = body(s); if done(s) { return s } }`, cut off
after `fuel` passes.  Its rules speak of the loop and never of the fuel: an invariant of
the body holds of the result (`loopUntil_invariant`), a potential that falls with every
pass that does not end the loop bounds the fuel it needs (`loopUntil_isSome`), and two
loops whose bodies keep a relation under which the tests agree run in lockstep
(`loopUntil_lockstep`).

## Main definitions

* `loopUntil body done fuel s` — the state the loop returns, if it does within `fuel`.
-/

namespace AuthKademlia.Lib

universe u v
variable {σ : Type u} {τ : Type v}

/-- Run `body` until `done` holds, at most `fuel` times. -/
def loopUntil (body : σ → σ) (done : σ → Bool) : ℕ → σ → Option σ
  | 0, _ => none
  | fuel + 1, s => if done (body s) then some (body s) else loopUntil body done fuel (body s)

variable {body : σ → σ} {done : σ → Bool} {fuel : ℕ} {s t : σ}

/-- The loop ends in a state that passes the test. -/
theorem done_of_loopUntil (h : loopUntil body done fuel s = some t) : done t = true := by
  induction fuel generalizing s with
  | zero => cases h
  | succ fuel ih =>
      rw [loopUntil] at h
      split at h
      · rename_i hdone
        exact Option.some.inj h ▸ hdone
      · exact ih h

/-- **The invariant rule.**  The body has to keep `I` only where the loop goes on, and to
establish `J` where it ends. -/
theorem loopUntil_invariant (I J : σ → Prop)
    (hgo : ∀ s, I s → done (body s) = false → I (body s))
    (hend : ∀ s, I s → done (body s) = true → J (body s)) (hs : I s)
    (h : loopUntil body done fuel s = some t) : J t := by
  induction fuel generalizing s with
  | zero => cases h
  | succ fuel ih =>
      rw [loopUntil] at h
      split at h
      · rename_i hdone
        exact Option.some.inj h ▸ hend s hs hdone
      · rename_i hdone
        exact ih (hgo s hs (by simpa using hdone)) h

/-- **The potential rule.** -/
theorem loopUntil_isSome (Φ : σ → ℕ) (hfall : ∀ s, done (body s) = false → Φ (body s) < Φ s)
    (hfuel : Φ s < fuel) : (loopUntil body done fuel s).isSome := by
  induction fuel generalizing s with
  | zero => omega
  | succ fuel ih =>
      rw [loopUntil]
      split
      · rfl
      · rename_i hdone
        have hlt := hfall s (by simpa using hdone)
        exact ih (by omega)

/-- More fuel does not change the result. -/
theorem loopUntil_unique {fuel' : ℕ} {t' : σ} (h : loopUntil body done fuel s = some t)
    (h' : loopUntil body done fuel' s = some t') : t = t' := by
  induction fuel generalizing fuel' s with
  | zero => cases h
  | succ fuel ih =>
      cases fuel' with
      | zero => cases h'
      | succ fuel' =>
          rw [loopUntil] at h h'
          split at h
          · rename_i hdone
            rw [if_pos hdone] at h'
            exact Option.some.inj (h.symm.trans h')
          · rename_i hdone
            rw [if_neg hdone] at h'
            exact ih h h'

/-- A property that a pass cannot introduce held all along if it holds at the end. -/
theorem of_loopUntil {P : σ → Prop} (hback : ∀ s, P (body s) → P s)
    (h : loopUntil body done fuel s = some t) (ht : P t) : P (body s) := by
  induction fuel generalizing s with
  | zero => cases h
  | succ fuel ih =>
      rw [loopUntil] at h
      split at h
      · exact Option.some.inj h ▸ ht
      · exact hback _ (ih h)

/-- **Two loops in lockstep.**  If the first returns, so does the second, in a related
state.  The bodies keep the relation in states with a property `P` that a pass cannot
introduce, so it is enough that the first loop ends in such a state. -/
theorem loopUntil_lockstep {body' : τ → τ} {done' : τ → Bool} {P : σ → Prop} (R : σ → τ → Prop)
    (hback : ∀ s, P (body s) → P s)
    (hbody : ∀ s s', P (body s) → R s s' → R (body s) (body' s'))
    (hdone : ∀ s s', P s → R s s' → done' s' = done s) {s' : τ} (hs : R s s')
    (h : loopUntil body done fuel s = some t) (ht : P t) :
    ∃ t', loopUntil body' done' fuel s' = some t' ∧ R t t' := by
  induction fuel generalizing s s' with
  | zero => cases h
  | succ fuel ih =>
      have hP : P (body s) := of_loopUntil hback h ht
      have hR : R (body s) (body' s') := hbody s s' hP hs
      rw [loopUntil] at h ⊢
      rw [hdone _ _ hP hR]
      split at h
      · rename_i hend
        rw [if_pos hend]
        exact ⟨body' s', rfl, Option.some.inj h ▸ hR⟩
      · rename_i hend
        rw [if_neg hend]
        exact ih hR h

end AuthKademlia.Lib
