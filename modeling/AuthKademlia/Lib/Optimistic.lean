import AuthKademlia.Lib.Execution
import Mathlib.Data.List.Nodup
import Mathlib.Logic.Function.Basic

/-!
# Read–check–commit transactions

A transaction reads the shared state, checks what it read without holding any lock, and
then commits.  Run on its own it is one atomic step (`Transaction.run`); run concurrently
its three phases interleave with those of others.

Nothing makes the commit depend on the read still being current, so in general an
interleaving is not equivalent to any sequential order.  It is if every commit happens in
a state in which the transaction would still pass: `exists_sequential` then gives the
order, namely that of the commits, with a transaction that gives up placed where it read.

## Main definitions

* `Transaction`, `Transaction.run` — a transaction and its atomic execution.
* `Config`, `Config.step` — the interleaving semantics.
* `runAll` — the sequential semantics.
-/

namespace AuthKademlia.Lib

/-- A transaction on states `σ` with clock readings `κ`; `ρ` is what it reads.  A failed
read gives up. -/
structure Transaction (κ σ ρ : Type*) where
  read : κ → σ → Option ρ
  check : ρ → Bool
  commit : κ → σ → Bool × σ

namespace Transaction

variable {κ σ ρ : Type*}

/-- The transaction as one atomic step: its answer and the new state. -/
def run (t : Transaction κ σ ρ) (c : κ) (s : σ) : Bool × σ :=
  match t.read c s with
  | none => (false, s)
  | some r => if t.check r then t.commit c s else (false, s)

/-- Reading and checking again would succeed. -/
def Passes (t : Transaction κ σ ρ) (c : κ) (s : σ) : Prop :=
  ∃ r, t.read c s = some r ∧ t.check r = true

variable {t : Transaction κ σ ρ} {c : κ} {s : σ} {r : ρ}

theorem run_of_passes (h : t.Passes c s) : t.run c s = t.commit c s := by
  obtain ⟨r, hr, hcheck⟩ := h
  simp [run, hr, hcheck]

theorem run_of_read_none (h : t.read c s = none) : t.run c s = (false, s) := by
  simp [run, h]

theorem run_of_check_false (h : t.read c s = some r) (hcheck : t.check r = false) :
    t.run c s = (false, s) := by
  simp [run, h, hcheck]

end Transaction

/-- How far a transaction has come. -/
inductive Phase (ρ : Type*) where
  | ready
  | hasRead (r : ρ)
  | checked (r : ρ)
  | done (ok : Bool)
  deriving DecidableEq

/-- The shared state and the phase of every transaction. -/
structure Config (ι σ ρ : Type*) where
  state : σ
  phase : ι → Phase ρ

variable {ι κ σ ρ : Type*} [DecidableEq ι]

namespace Config

/-- Transaction `i` moves to another phase and leaves the shared state `s`. -/
def advance (cfg : Config ι σ ρ) (i : ι) (next : Phase ρ) (s : σ) : Config ι σ ρ :=
  ⟨s, Function.update cfg.phase i next⟩

@[simp] theorem phase_advance_self (cfg : Config ι σ ρ) (i : ι) (next : Phase ρ) (s : σ) :
    (cfg.advance i next s).phase i = next :=
  Function.update_self ..

theorem phase_advance_ne (cfg : Config ι σ ρ) {i j : ι} (h : j ≠ i) (next : Phase ρ) (s : σ) :
    (cfg.advance i next s).phase j = cfg.phase j :=
  Function.update_of_ne h ..

/-- Let transaction `i` do its next step; a finished one has none. -/
def step (txn : ι → Transaction κ σ ρ) (cfg : Config ι σ ρ) (e : ι × κ) :
    Option (Config ι σ ρ) :=
  let (i, c) := e
  match cfg.phase i with
  | .ready =>
      match (txn i).read c cfg.state with
      | none => some (cfg.advance i (.done false) cfg.state)
      | some r => some (cfg.advance i (.hasRead r) cfg.state)
  | .hasRead r =>
      if (txn i).check r then some (cfg.advance i (.checked r) cfg.state)
      else some (cfg.advance i (.done false) cfg.state)
  | .checked _ =>
      let (ok, s) := (txn i).commit c cfg.state
      some (cfg.advance i (.done ok) s)
  | .done _ => none

/-- No transaction has started. -/
def start (s : σ) : Config ι σ ρ := ⟨s, fun _ => .ready⟩

variable {txn : ι → Transaction κ σ ρ} {cfg : Config ι σ ρ} {i : ι} {c : κ} {r : ρ}

theorem step_of_ready (h : cfg.phase i = .ready) :
    cfg.step txn (i, c) = some (cfg.advance i
      (((txn i).read c cfg.state).elim (.done false) .hasRead) cfg.state) := by
  simp only [step, h]
  cases (txn i).read c cfg.state <;> rfl

theorem step_of_hasRead (h : cfg.phase i = .hasRead r) :
    cfg.step txn (i, c) = some (cfg.advance i
      (if (txn i).check r then .checked r else .done false) cfg.state) := by
  simp only [step, h]
  split <;> rfl

theorem step_of_checked (h : cfg.phase i = .checked r) :
    cfg.step txn (i, c) = some (cfg.advance i (.done ((txn i).commit c cfg.state).1)
      ((txn i).commit c cfg.state).2) := by
  simp only [step, h]

/-- Transaction `i` is between its read and its commit, and its check succeeds. -/
def Waiting (txn : ι → Transaction κ σ ρ) (cfg : Config ι σ ρ) (i : ι) (r : ρ) : Prop :=
  cfg.phase i = .checked r ∨ cfg.phase i = .hasRead r ∧ (txn i).check r = true

/-- **What waiting transactions rely on.**  A fact about what was read that holds when it
is read, and that the commits of the others keep, holds as long as the transaction
waits. -/
theorem waiting_step (Q : ι → ρ → σ → Prop) {cfg' : Config ι σ ρ}
    (hread : ∀ r, (txn i).read c cfg.state = some r → Q i r cfg.state)
    (hcommit : ∀ r', cfg.phase i = .checked r' → ∀ j ≠ i, ∀ r, cfg.Waiting txn j r →
      Q j r ((txn i).commit c cfg.state).2)
    (h : ∀ j r, cfg.Waiting txn j r → Q j r cfg.state)
    (hstep : cfg.step txn (i, c) = some cfg') {j : ι} {r : ρ} (hwait : cfg'.Waiting txn j r) :
    Q j r cfg'.state := by
  have hother : ∀ next s, j ≠ i → (cfg.advance i next s).Waiting txn j r →
      cfg.Waiting txn j r := by
    intro next s hj hwait
    rwa [Waiting, phase_advance_ne cfg hj] at hwait
  cases hphase : cfg.phase i with
  | ready =>
      rw [step_of_ready hphase] at hstep
      obtain rfl := Option.some.inj hstep
      by_cases hj : j = i
      · subst hj
        cases hr : (txn j).read c cfg.state with
        | none => simp [Waiting, hr] at hwait
        | some r' =>
            obtain ⟨rfl, -⟩ : r' = r ∧ (txn j).check r = true := by
              simpa [Waiting, hr] using hwait
            exact hread r' hr
      · exact h j r (hother _ _ hj hwait)
  | hasRead r' =>
      rw [step_of_hasRead hphase] at hstep
      obtain rfl := Option.some.inj hstep
      by_cases hj : j = i
      · subst hj
        by_cases hcheck : (txn j).check r' = true
        · obtain rfl : r' = r := by simpa [Waiting, hcheck] using hwait
          exact h j r' (Or.inr ⟨hphase, hcheck⟩)
        · simp [Waiting, hcheck] at hwait
      · exact h j r (hother _ _ hj hwait)
  | checked r' =>
      rw [step_of_checked hphase] at hstep
      obtain rfl := Option.some.inj hstep
      by_cases hj : j = i
      · subst hj
        simp [Waiting] at hwait
      · exact hcommit r' hphase j hj r (hother _ _ hj hwait)
  | done ok => simp [step, hphase] at hstep

end Config

/-! ## Sequential execution -/

/-- Run transactions one at a time; the answers come with the names of the transactions. -/
def runAll (txn : ι → Transaction κ σ ρ) : List (ι × κ) → σ → List (ι × Bool) × σ
  | [], s => ([], s)
  | (i, c) :: order, s =>
      let (ok, s') := (txn i).run c s
      let (answers, s'') := runAll txn order s'
      ((i, ok) :: answers, s'')

variable {txn : ι → Transaction κ σ ρ}

omit [DecidableEq ι] in
theorem runAll_concat (order : List (ι × κ)) (i : ι) (c : κ) (s : σ) :
    runAll txn (order ++ [(i, c)]) s =
      ((runAll txn order s).1 ++ [(i, ((txn i).run c (runAll txn order s).2).1)],
        ((txn i).run c (runAll txn order s).2).2) := by
  induction order generalizing s with
  | nil => simp [runAll]
  | cons e order ih => simp [runAll, ih]

omit [DecidableEq ι] in
theorem map_fst_runAll (order : List (ι × κ)) (s : σ) :
    (runAll txn order s).1.map Prod.fst = order.map Prod.fst := by
  induction order generalizing s with
  | nil => rfl
  | cons e order ih => simp [runAll, ih]

/-! ## Linearisation -/

/-- What a partial order of the transactions accounts for: a transaction that has
committed or is bound to give up has its answer in it, and no other one is in it. -/
def Accounted (t : Transaction κ σ ρ) (i : ι) (order : List (ι × κ))
    (answers : List (ι × Bool)) : Phase ρ → Prop
  | .ready => i ∉ order.map Prod.fst
  | .hasRead r => if t.check r then i ∉ order.map Prod.fst else (i, false) ∈ answers
  | .checked r => t.check r = true ∧ i ∉ order.map Prod.fst
  | .done ok => (i, ok) ∈ answers

/-- The order explains the configuration: it is made of steps taken, names no
transaction twice, leads to the shared state and accounts for every transaction. -/
structure Explains (txn : ι → Transaction κ σ ρ) (s : σ) (steps order : List (ι × κ))
    (cfg : Config ι σ ρ) : Prop where
  sublist : order.Sublist steps
  nodup : (order.map Prod.fst).Nodup
  state_eq : (runAll txn order s).2 = cfg.state
  accounted : ∀ i, Accounted (txn i) i order (runAll txn order s).1 (cfg.phase i)

omit [DecidableEq ι] in
/-- Another transaction joining the order changes nothing for `i`. -/
theorem Accounted.concat {t : Transaction κ σ ρ} {i j : ι} {order : List (ι × κ)}
    {answers : List (ι × Bool)} {ph : Phase ρ} (h : Accounted t i order answers ph)
    (hij : i ≠ j) (c : κ) (ok : Bool) :
    Accounted t i (order ++ [(j, c)]) (answers ++ [(j, ok)]) ph := by
  have hmem : i ∉ order.map Prod.fst → i ∉ (order ++ [(j, c)]).map Prod.fst := by
    intro hnot
    simpa [hij] using hnot
  cases ph with
  | ready => exact hmem h
  | hasRead r =>
      simp only [Accounted] at h ⊢
      split at h
      · rw [if_pos ‹_›]
        exact hmem h
      · rw [if_neg ‹_›]
        exact List.mem_append_left _ h
  | checked r => exact ⟨h.1, hmem h.2⟩
  | done ok' => exact List.mem_append_left _ h

/-- **A step outside the order**: transaction `i` moves on, the shared state stays. -/
theorem Explains.move {s : σ} {steps order : List (ι × κ)} {cfg : Config ι σ ρ} {i : ι}
    (h : Explains txn s steps order cfg) (c : κ) {next : Phase ρ}
    (hi : Accounted (txn i) i order (runAll txn order s).1 next) :
    Explains txn s (steps ++ [(i, c)]) order (cfg.advance i next cfg.state) where
  sublist := h.sublist.trans (List.sublist_append_left _ _)
  nodup := h.nodup
  state_eq := h.state_eq
  accounted j := by
    by_cases hj : j = i
    · subst hj
      rw [Config.phase_advance_self]
      exact hi
    · rw [Config.phase_advance_ne cfg hj]
      exact h.accounted j

/-- **A step that joins the order**: transaction `i` takes effect here. -/
theorem Explains.join {s s' : σ} {steps order : List (ι × κ)} {cfg : Config ι σ ρ} {i : ι}
    {c : κ} {ok : Bool} (h : Explains txn s steps order cfg) (hnew : i ∉ order.map Prod.fst)
    (hrun : (txn i).run c cfg.state = (ok, s')) {next : Phase ρ}
    (hi : Accounted (txn i) i (order ++ [(i, c)]) ((runAll txn order s).1 ++ [(i, ok)]) next) :
    Explains txn s (steps ++ [(i, c)]) (order ++ [(i, c)]) (cfg.advance i next s') where
  sublist := h.sublist.append (List.Sublist.refl _)
  nodup := by
    rw [List.map_append, List.map_singleton, ← List.concat_eq_append]
    exact h.nodup.concat hnew
  state_eq := by
    rw [runAll_concat, h.state_eq, hrun]
    rfl
  accounted j := by
    rw [runAll_concat, h.state_eq, hrun]
    by_cases hj : j = i
    · subst hj
      rw [Config.phase_advance_self]
      exact hi
    · rw [Config.phase_advance_ne cfg hj]
      exact (h.accounted j).concat hj c _

/-- **One step keeps the configuration explained**, provided a commit happens in a state
in which the transaction passes. -/
theorem Explains.step {s : σ} {steps order : List (ι × κ)} {cfg cfg' : Config ι σ ρ} {i : ι}
    {c : κ} (h : Explains txn s steps order cfg) (hstep : cfg.step txn (i, c) = some cfg')
    (hcommit : ∀ r, cfg.phase i = .checked r → (txn i).check r = true →
      (txn i).Passes c cfg.state) :
    ∃ order', Explains txn s (steps ++ [(i, c)]) order' cfg' := by
  have hacc := h.accounted i
  cases hphase : cfg.phase i with
  | ready =>
      rw [hphase] at hacc
      rw [Config.step_of_ready hphase] at hstep
      obtain rfl := Option.some.inj hstep
      cases hread : (txn i).read c cfg.state with
      | none =>
          exact ⟨order ++ [(i, c)], h.join hacc (Transaction.run_of_read_none hread)
            (by simp [Accounted])⟩
      | some r =>
          -- the check is a function of what was read: a transaction that will give up does so now
          by_cases hcheck : (txn i).check r = true
          · exact ⟨order, h.move c (by simpa [Accounted, hcheck] using hacc)⟩
          · have hrun := Transaction.run_of_check_false hread (by simpa using hcheck)
            exact ⟨order ++ [(i, c)], h.join hacc hrun (by simp [Accounted, hcheck])⟩
  | hasRead r =>
      rw [hphase] at hacc
      rw [Config.step_of_hasRead hphase] at hstep
      obtain rfl := Option.some.inj hstep
      refine ⟨order, h.move c ?_⟩
      by_cases hcheck : (txn i).check r = true <;> simpa [Accounted, hcheck] using hacc
  | checked r =>
      rw [hphase] at hacc
      rw [Config.step_of_checked hphase] at hstep
      obtain rfl := Option.some.inj hstep
      have hrun := Transaction.run_of_passes (hcommit r hphase hacc.1)
      exact ⟨order ++ [(i, c)], h.join hacc.2 hrun (by simp [Accounted])⟩
  | done ok => simp [Config.step, hphase] at hstep

/-- **Linearisation.**  If every commit of an interleaving happens in a state in which
its transaction passes, then some order of steps of the interleaving, with no transaction
twice, explains the configuration it ends in. -/
theorem exists_sequential {s : σ} {steps : List (ι × κ)} {cfg : Config ι σ ρ}
    (h : exec (Config.step txn) (Config.start s) steps = some cfg)
    (hcommit : ∀ pre i c cfg' r, (pre ++ [(i, c)]).IsPrefix steps →
      exec (Config.step txn) (Config.start s) pre = some cfg' → cfg'.phase i = .checked r →
      (txn i).check r = true → (txn i).Passes c cfg'.state) :
    ∃ order, Explains txn s steps order cfg := by
  refine exec_history (fun steps cfg => (∀ pre i c cfg' r, (pre ++ [(i, c)]).IsPrefix steps →
      exec (Config.step txn) (Config.start s) pre = some cfg' → cfg'.phase i = .checked r →
      (txn i).check r = true → (txn i).Passes c cfg'.state) →
      ∃ order, Explains txn s steps order cfg) ?_ ?_ h hcommit
  · intro _
    exact ⟨[], List.Sublist.refl _, List.nodup_nil, rfl, fun i => List.not_mem_nil⟩
  · rintro steps cfg ⟨i, c⟩ cfg' hexec ih hstep hcommit
    obtain ⟨order, horder⟩ := ih fun pre j d cfg'' r hpre =>
      hcommit pre j d cfg'' r (hpre.trans (List.prefix_append _ _))
    exact horder.step hstep fun r hphase hcheck =>
      hcommit steps i c cfg r (List.prefix_refl _) hexec hphase hcheck

omit [DecidableEq ι] in
/-- A transaction that is done has its answer in the sequential execution. -/
theorem Explains.mem_answers {s : σ} {steps order : List (ι × κ)} {cfg : Config ι σ ρ}
    (h : Explains txn s steps order cfg) {i : ι} {ok : Bool} (hi : cfg.phase i = .done ok) :
    (i, ok) ∈ (runAll txn order s).1 := by
  have hacc := h.accounted i
  rwa [hi] at hacc

end AuthKademlia.Lib
