import Mathlib.Data.List.Forall2
import Mathlib.Data.List.Induction

/-!
# Executions of a partial step function

A system is a step function `σ → ε → Option σ`: given a state and an event it
either produces the next state or does not return.  `exec` folds it along a list
of events and `trace` records every state on the way, so a statement about a
whole run is a statement about one of the two.

The proof rules are the same for every system and are stated once.
`exec_history` is the general one: a predicate on the events so far and the
current state that holds at the start and survives one step holds at the end.
`exec_invariant` is the case where the events do not matter.

## Main definitions

* `exec step s es` — the state after the events `es`, if every step returned.
* `trace step s es` — each event paired with the state right after it.
* `EachStep step P s es` — every event of the run meets `P` in the state it occurs in.
-/

namespace AuthKademlia.Lib

universe u v
variable {σ : Type u} {ε : Type v}

/-- The state after the events `es`; `none` as soon as one step does not return. -/
def exec (step : σ → ε → Option σ) : σ → List ε → Option σ
  | s, [] => some s
  | s, e :: es => (step s e).bind fun s' => exec step s' es

/-- Every event of a run together with the state right after it. -/
def trace (step : σ → ε → Option σ) : σ → List ε → List (ε × σ)
  | _, [] => []
  | s, e :: es =>
      match step s e with
      | none => []
      | some s' => (e, s') :: trace step s' es

@[simp] theorem exec_nil (step : σ → ε → Option σ) (s : σ) : exec step s [] = some s := rfl

theorem exec_append (step : σ → ε → Option σ) (s : σ) (es fs : List ε) :
    exec step s (es ++ fs) = (exec step s es).bind fun t => exec step t fs := by
  induction es generalizing s with
  | nil => rfl
  | cons e es ih =>
      simp only [List.cons_append, exec]
      cases step s e with
      | none => rfl
      | some s' => exact ih s'

theorem exec_concat (step : σ → ε → Option σ) (s : σ) (es : List ε) (e : ε) :
    exec step s (es ++ [e]) = (exec step s es).bind fun t => step t e := by
  rw [exec_append]
  cases exec step s es with
  | none => rfl
  | some t => simp [exec]

/-- A run that returned splits at its last event. -/
theorem exec_concat_eq_some {step : σ → ε → Option σ} {s t : σ} {es : List ε} {e : ε}
    (h : exec step s (es ++ [e]) = some t) :
    ∃ r, exec step s es = some r ∧ step r e = some t := by
  rw [exec_concat] at h
  exact Option.bind_eq_some_iff.mp h

/-- **Induction along a run, with its history.**  A predicate on the events so
far and the current state that holds at the start and survives one step holds
when the run ends. -/
theorem exec_history {step : σ → ε → Option σ} {s : σ} (P : List ε → σ → Prop)
    (h0 : P [] s)
    (hstep : ∀ es r e t, exec step s es = some r → P es r → step r e = some t →
      P (es ++ [e]) t)
    {es : List ε} {t : σ} (h : exec step s es = some t) : P es t := by
  induction es using List.reverseRecOn generalizing t with
  | nil =>
      obtain rfl : s = t := by simpa using h
      exact h0
  | append_singleton es e ih =>
      obtain ⟨r, hr, he⟩ := exec_concat_eq_some h
      exact hstep es r e t hr (ih hr) he

/-- **Induction along a run.**  The invariant rule: what holds at the start and
survives one step holds at the end. -/
theorem exec_invariant {step : σ → ε → Option σ} {s : σ} (I : σ → Prop) (h0 : I s)
    (hstep : ∀ r e t, I r → step r e = some t → I t)
    {es : List ε} {t : σ} (h : exec step s es = some t) : I t :=
  exec_history (fun _ r => I r) h0 (fun _ r e t _ hr he => hstep r e t hr he) h

/-- Every event of the run meets the condition `P` on the state before it. -/
def EachStep (step : σ → ε → Option σ) (P : σ → ε → Prop) (s : σ) (es : List ε) : Prop :=
  ∀ pre e post t, es = pre ++ e :: post → exec step s pre = some t → P t e

theorem EachStep.of_forall_mem {step : σ → ε → Option σ} {P : σ → ε → Prop} {s : σ} {es : List ε}
    (h : ∀ e ∈ es, ∀ t, P t e) : EachStep step P s es := by
  intro pre e post t hsplit _
  exact h e (by simp [hsplit]) t

theorem eachStep_nil {step : σ → ε → Option σ} {P : σ → ε → Prop} {s : σ} :
    EachStep step P s [] := by
  intro pre e post t hsplit
  simp at hsplit

theorem eachStep_cons {step : σ → ε → Option σ} {P : σ → ε → Prop} {s : σ} {e : ε} {es : List ε} :
    EachStep step P s (e :: es) ↔ P s e ∧ ∀ t, step s e = some t → EachStep step P t es := by
  constructor
  · intro h
    refine ⟨h [] e es s rfl rfl, ?_⟩
    intro t ht pre e' post r hsplit hpre
    refine h (e :: pre) e' post r (by rw [hsplit]; rfl) ?_
    rw [exec, ht]
    exact hpre
  · rintro ⟨he, hrest⟩ pre e' post r hsplit hpre
    cases pre with
    | nil =>
        cases hsplit
        cases hpre
        exact he
    | cons d pre =>
        cases hsplit
        rcases Option.bind_eq_some_iff.mp hpre with ⟨t, ht, hpre⟩
        exact hrest t ht pre e' post r rfl hpre

/-- A run can be checked step by step. -/
instance decidableEachStep {step : σ → ε → Option σ} {P : σ → ε → Prop}
    [∀ s e, Decidable (P s e)] : ∀ s es, Decidable (EachStep step P s es)
  | _, [] => .isTrue eachStep_nil
  | s, e :: es =>
      match hstep : step s e with
      | none => decidable_of_iff (P s e) (by simp [eachStep_cons, hstep])
      | some t =>
          have : Decidable (EachStep step P t es) := decidableEachStep t es
          decidable_of_iff (P s e ∧ EachStep step P t es) (by simp [eachStep_cons, hstep])

/-- The first part of a run. -/
theorem EachStep.of_append {step : σ → ε → Option σ} {P : σ → ε → Prop} {s : σ} {es fs : List ε}
    (h : EachStep step P s (es ++ fs)) : EachStep step P s es := by
  intro pre e post t hsplit hpre
  exact h pre e (post ++ fs) t (by simp [hsplit]) hpre

/-- The rest of a run. -/
theorem EachStep.drop {step : σ → ε → Option σ} {P : σ → ε → Prop} {s t : σ} {es fs : List ε}
    (h : EachStep step P s (es ++ fs)) (hexec : exec step s es = some t) :
    EachStep step P t fs := by
  intro pre e post r hsplit hpre
  refine h (es ++ pre) e post r (by simp [hsplit]) ?_
  rw [exec_append, hexec]
  exact hpre

/-- The last event of a run that returned up to it. -/
theorem EachStep.concat {step : σ → ε → Option σ} {P : σ → ε → Prop} {s t : σ} {es : List ε} {e : ε}
    (h : EachStep step P s es) (hexec : exec step s es = some t) (he : P t e) :
    EachStep step P s (es ++ [e]) := by
  intro pre e' post t' hsplit hpre
  rcases List.eq_nil_or_concat post with rfl | ⟨post, last, rfl⟩
  · rcases List.append_inj' hsplit rfl with ⟨rfl, hlast⟩
    cases hlast
    cases hexec.symm.trans hpre
    exact he
  · have happend : es ++ [e] = (pre ++ e' :: post) ++ [last] := by simpa using hsplit
    exact h pre e' post t' (List.append_inj' happend rfl).1 hpre

/-- **Induction along one given run**, of which every event is known with those before and
after it. -/
theorem exec_along {step : σ → ε → Option σ} {s : σ} {run : List ε} (P : List ε → σ → Prop)
    (h0 : P [] s)
    (hstep : ∀ pre e post r t, run = pre ++ e :: post → exec step s pre = some r → P pre r →
      step r e = some t → P (pre ++ [e]) t)
    {t : σ} (h : exec step s run = some t) : P run t := by
  refine exec_history (fun pre r => (∃ post, run = pre ++ post) → P pre r) (fun _ => h0) ?_ h
    ⟨[], (List.append_nil run).symm⟩
  intro pre r e t hpre hP he hsplit
  rcases hsplit with ⟨post, hsplit⟩
  rw [List.append_assoc] at hsplit
  exact hstep pre e post r t hsplit hpre (hP ⟨_, hsplit⟩) he

/-- **Induction along a run whose steps meet a condition.** -/
theorem exec_eachStep {step : σ → ε → Option σ} {P : σ → ε → Prop} {s : σ} (I : σ → Prop)
    (h0 : I s) (hstep : ∀ r e t, I r → P r e → step r e = some t → I t) {es : List ε} {t : σ}
    (hP : EachStep step P s es) (h : exec step s es = some t) : I t :=
  exec_along (fun _ r => I r) h0
    (fun pre e post r t hsplit hpre hI he => hstep r e t hI (hP pre e post r hsplit hpre) he) h

/-- **Simulation along one given run.**  If every event of the run is shown by events of another
machine, the whole run is. -/
theorem exec_shown {τ : Type*} {δ : Type*} {step : σ → ε → Option σ} {step' : τ → δ → Option τ}
    {s : σ} {run : List ε} (f : σ → τ) (Shows : ε → List δ → Prop)
    (hstep : ∀ pre e post r t, run = pre ++ e :: post → exec step s pre = some r →
      step r e = some t → ∃ ds, Shows e ds ∧ exec step' (f r) ds = some (f t))
    {t : σ} (h : exec step s run = some t) :
    ∃ shown, List.Forall₂ Shows run shown ∧ exec step' (f s) shown.flatten = some (f t) := by
  refine exec_along (fun pre r => ∃ shown, List.Forall₂ Shows pre shown ∧
    exec step' (f s) shown.flatten = some (f r)) ⟨[], .nil, rfl⟩ ?_ h
  rintro pre e post r t hsplit hpre ⟨shown, hshown, hexec⟩ he
  obtain ⟨ds, hds, hlast⟩ := hstep pre e post r t hsplit hpre he
  refine ⟨shown ++ [ds], List.rel_append hshown (.cons hds .nil), ?_⟩
  rw [List.flatten_append, List.flatten_singleton, exec_append, hexec]
  exact hlast

/-- A run that returned extends its trace by exactly one entry per step. -/
theorem trace_concat {step : σ → ε → Option σ} {s r t : σ} {es : List ε} {e : ε}
    (h : exec step s es = some r) (he : step r e = some t) :
    trace step s (es ++ [e]) = trace step s es ++ [(e, t)] := by
  induction es generalizing s with
  | nil =>
      obtain rfl : s = r := by simpa using h
      simp [trace, he]
  | cons d ds ih =>
      simp only [exec] at h
      obtain ⟨s', hs, h'⟩ := Option.bind_eq_some_iff.mp h
      simp only [List.cons_append, trace, hs, ih h']

end AuthKademlia.Lib
