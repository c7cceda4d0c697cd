import Mathlib.Logic.Basic
import Mathlib.Data.Nat.Notation

/-!
# Processes that wait

A process works on a shared state `σ` until it needs something from outside: it asks a
question `q : Q` and waits.  Whoever answers resumes it, on whatever the shared state has
become by then.  Between two questions a process is not interrupted.

`Process` is a monad, so that a process is written as the sequential program it is.  The
same program has two semantics: `run` answers its questions one after the other with
nothing in between, and a `Pool` interleaves any number of processes with each other and
with other changes of the shared state.

`Process.Keeps` is the proof rule for the second: what every process keeps between its
questions is kept by every interleaving.  It is compositional (`Keeps.bind`), and it hands
facts that do not depend on the shared state from one part of a process to the next.

An invariant may come about only while processes are under way.  So besides an invariant `I`
there is a second property `J`, which need not hold to begin with: the parts of a process
keep it from then on, as long as the answers are good, whatever they were before
(`Keeps.and`).

## Main definitions

* `Suspended`, `Process`, `Process.ask`, `Process.lift` — processes.
* `Process.run` — a process alone.
* `Process.runAmid` — a process in surroundings that change while it waits.
* `Pool`, `Pool.spawn`, `Pool.resume` — processes side by side.
* `Process.Keeps` — an invariant and a property that stays, with conditions on the answers and
  one on the result.
* `Process.Leaves` — a part of the state that is only changed from certain points.
-/

namespace AuthKademlia.Lib

/-- A process that is over, or waits for the answer to a question.  The answer and the
shared state at that time give the new shared state and what the process waits for
next. -/
inductive Suspended (σ Q : Type) (A : Q → Type) (α : Type) where
  | done (result : α)
  | wait (q : Q) (next : A q → σ → σ) (cont : A q → σ → Suspended σ Q A α)

/-- A process that has not started. -/
def Process (σ Q : Type) (A : Q → Type) (α : Type) : Type := σ → σ × Suspended σ Q A α

variable {σ Q : Type} {A : Q → Type} {α β : Type}

namespace Suspended

/-- What the process waits for. -/
def question : Suspended σ Q A α → Option Q
  | done _ => none
  | wait q _ _ => some q

/-- Go on with `f` when the process is over. -/
def andThen (f : α → Process σ Q A β) : Suspended σ Q A α → Process σ Q A β
  | done a => f a
  | wait q next cont => fun s =>
      (s, wait q (fun a s => (andThen f (cont a s) (next a s)).1)
        (fun a s => (andThen f (cont a s) (next a s)).2))

/-- Answer every question at once. -/
def run (answers : ∀ q, A q) : Suspended σ Q A α → σ → σ × α
  | done a, s => (s, a)
  | wait q next cont, s => (cont (answers q) s).run answers (next (answers q) s)

/-- Answer every question; `env` is what happens to the shared state in the meantime. -/
def runAmid (env : Q → σ → σ) (answers : ∀ q, A q) : Suspended σ Q A α → σ → σ × α
  | done a, s => (s, a)
  | wait q next cont, s =>
      (cont (answers q) (env q s)).runAmid env answers (next (answers q) (env q s))

/-- Every part of the process keeps `I` if the answers meet `ok`, and its result meets
`post`; and a part that follows a good answer keeps `J` as well. -/
def Keeps (I J : σ → Prop) (ok good : ∀ q, A q → Prop) (post : α → Prop) :
    Suspended σ Q A α → Prop
  | done a => post a
  | wait q next cont => ∀ a s, ok q a → I s →
      I (next a s) ∧ (good q a → J s → J (next a s)) ∧ (cont a s).Keeps I J ok good post

/-- Every part of the process leaves what `obs` sees of the shared state as it is, unless it
starts from a point with `P`; and the result meets `post`. -/
def Leaves {τ : Type} (obs : σ → τ) (P : Suspended σ Q A α → Prop) (post : α → Prop) :
    Suspended σ Q A α → Prop
  | done a => post a
  | wait q next cont =>
      (P (wait q next cont) ∨ ∀ a s, obs (next a s) = obs s) ∧
        ∀ a s, (cont a s).Leaves obs P post

theorem andThen_andThen {γ : Type} (f : α → Process σ Q A β) (g : β → Process σ Q A γ)
    (p : Suspended σ Q A α) (s : σ) :
    (p.andThen f s).2.andThen g (p.andThen f s).1 =
      p.andThen (fun a s => (f a s).2.andThen g (f a s).1) s := by
  induction p generalizing s with
  | done a => rfl
  | wait q next cont ih =>
      refine congrArg (Prod.mk s) ?_
      congr 1
      · funext a s'
        exact congrArg Prod.fst (ih a s' (next a s'))
      · funext a s'
        exact congrArg Prod.snd (ih a s' (next a s'))

theorem run_andThen (answers : ∀ q, A q) (f : α → Process σ Q A β) (p : Suspended σ Q A α)
    (s : σ) :
    (p.andThen f s).2.run answers (p.andThen f s).1 =
      (f (p.run answers s).2 (p.run answers s).1).2.run answers
        (f (p.run answers s).2 (p.run answers s).1).1 := by
  induction p generalizing s with
  | done a => rfl
  | wait q next cont ih => exact ih (answers q) s (next (answers q) s)

theorem runAmid_andThen (env : Q → σ → σ) (answers : ∀ q, A q) (f : α → Process σ Q A β)
    (p : Suspended σ Q A α) (s : σ) :
    (p.andThen f s).2.runAmid env answers (p.andThen f s).1 =
      (f (p.runAmid env answers s).2 (p.runAmid env answers s).1).2.runAmid env answers
        (f (p.runAmid env answers s).2 (p.runAmid env answers s).1).1 := by
  induction p generalizing s with
  | done a => rfl
  | wait q next cont ih => exact ih (answers q) (env q s) (next (answers q) (env q s))

end Suspended

namespace Process

instance : Monad (Process σ Q A) where
  pure a s := (s, .done a)
  bind m f s := (m s).2.andThen f (m s).1

/-- Ask a question and wait. -/
def ask (q : Q) : Process σ Q A (A q) := fun s => (s, .wait q (fun _ s => s) fun a _ => .done a)

/-- Work on the shared state. -/
def lift (f : σ → α × σ) : Process σ Q A α := fun s => ((f s).2, .done (f s).1)

/-- Run the process alone. -/
def run (answers : ∀ q, A q) (m : Process σ Q A α) (s : σ) : σ × α :=
  (m s).2.run answers (m s).1

section Run

variable (answers : ∀ q, A q) (s : σ)

@[simp] theorem run_pure (a : α) : (pure a : Process σ Q A α).run answers s = (s, a) := rfl

@[simp] theorem run_ask (q : Q) :
    (ask q : Process σ Q A (A q)).run answers s = (s, answers q) := rfl

@[simp] theorem run_lift (f : σ → α × σ) :
    (lift f : Process σ Q A α).run answers s = ((f s).2, (f s).1) := rfl

@[simp] theorem run_bind (m : Process σ Q A α) (f : α → Process σ Q A β) :
    (m >>= f).run answers s = (f (m.run answers s).2).run answers (m.run answers s).1 :=
  Suspended.run_andThen answers f (m s).2 (m s).1

end Run

/-- Run the process; `env` is what happens to the shared state while it waits. -/
def runAmid (env : Q → σ → σ) (answers : ∀ q, A q) (m : Process σ Q A α) (s : σ) : σ × α :=
  (m s).2.runAmid env answers (m s).1

section RunAmid

variable (env : Q → σ → σ) (answers : ∀ q, A q) (s : σ)

@[simp] theorem runAmid_pure (a : α) :
    (pure a : Process σ Q A α).runAmid env answers s = (s, a) := rfl

@[simp] theorem runAmid_ask (q : Q) :
    (ask q : Process σ Q A (A q)).runAmid env answers s = (env q s, answers q) := rfl

@[simp] theorem runAmid_lift (f : σ → α × σ) :
    (lift f : Process σ Q A α).runAmid env answers s = ((f s).2, (f s).1) := rfl

@[simp] theorem runAmid_bind (m : Process σ Q A α) (f : α → Process σ Q A β) :
    (m >>= f).runAmid env answers s =
      (f (m.runAmid env answers s).2).runAmid env answers (m.runAmid env answers s).1 :=
  Suspended.runAmid_andThen env answers f (m s).2 (m s).1

end RunAmid

/-! ## Invariants -/

/-- Started on any state with `I`, the process keeps `I` at every point at which others
may see the shared state, and `J` if it is there. -/
def Keeps (I J : σ → Prop) (ok good : ∀ q, A q → Prop) (post : α → Prop) (m : Process σ Q A α) :
    Prop :=
  ∀ s, I s → I (m s).1 ∧ (J s → J (m s).1) ∧ (m s).2.Keeps I J ok good post

variable {I J : σ → Prop} {ok good : ∀ q, A q → Prop} {post : α → Prop} {post' : β → Prop}

theorem keeps_pure {a : α} (h : post a) : (pure a : Process σ Q A α).Keeps I J ok good post :=
  fun _ hs => ⟨hs, id, h⟩

theorem keeps_ask {q : Q} {post : A q → Prop} (h : ∀ a, ok q a → post a) :
    (ask q : Process σ Q A (A q)).Keeps I J ok good post :=
  fun _ hs => ⟨hs, id, fun a _ ha hs' => ⟨hs', fun _ => id, h a ha⟩⟩

theorem keeps_lift {f : σ → α × σ}
    (h : ∀ s, I s → I (f s).2 ∧ (J s → J (f s).2) ∧ post (f s).1) :
    (lift f : Process σ Q A α).Keeps I J ok good post :=
  fun s hs => h s hs

theorem keeps_andThen {f : α → Process σ Q A β}
    (hf : ∀ a, post a → (f a).Keeps I J ok good post') {p : Suspended σ Q A α}
    (hp : p.Keeps I J ok good post) : (p.andThen f).Keeps I J ok good post' := by
  induction p with
  | done a => exact hf a hp
  | wait q next cont ih =>
      intro s hs
      refine ⟨hs, id, ?_⟩
      intro a s' ha hs'
      obtain ⟨hnext, hstays, hcont⟩ := hp a s' ha hs'
      obtain ⟨hI, hJ, hrest⟩ := ih a s' hcont _ hnext
      exact ⟨hI, fun hgood hs' => hJ (hstays hgood hs'), hrest⟩

/-- **Sequencing.**  What the first part says about its result is known to the second. -/
theorem Keeps.bind {m : Process σ Q A α} {f : α → Process σ Q A β}
    (hm : m.Keeps I J ok good post) (hf : ∀ a, post a → (f a).Keeps I J ok good post') :
    (m >>= f).Keeps I J ok good post' := by
  intro s hs
  obtain ⟨hnext, hstays, hp⟩ := hm s hs
  obtain ⟨hI, hJ, hrest⟩ := keeps_andThen hf hp _ hnext
  exact ⟨hI, hJ ∘ hstays, hrest⟩

/-- Sequencing when nothing need be known about the first result. -/
theorem Keeps.seq {m : Process σ Q A α} {f : α → Process σ Q A β}
    (hm : m.Keeps I J ok good fun _ => True) (hf : ∀ a, (f a).Keeps I J ok good post') :
    (m >>= f).Keeps I J ok good post' :=
  hm.bind fun a _ => hf a

/-- An answer is worked on at once, and only a good one has to keep `J`. -/
theorem keeps_ask_lift {q : Q} {f : A q → σ → α × σ} {g : A q → α → Process σ Q A β}
    (hf : ∀ a s, ok q a → I s → I (f a s).2 ∧ (good q a → J s → J (f a s).2))
    (hg : ∀ a, ok q a → ∀ r, (g a r).Keeps I J ok good post') :
    (ask q >>= fun a => lift (f a) >>= g a).Keeps I J ok good post' := by
  refine fun s hs => ⟨hs, id, fun a s' ha hs' => ?_⟩
  obtain ⟨hI, hJ⟩ := hf a s' ha hs'
  obtain ⟨hI', hJ', hrest⟩ := hg a ha (f a s').1 (f a s').2 hI
  exact ⟨hI', fun hgood hs' => hJ' (hJ hgood hs'), hrest⟩

/-- An answer is worked on at once, and that is all. -/
theorem keeps_ask_act {q : Q} {f : A q → σ → α × σ}
    (hf : ∀ a s, ok q a → I s → I (f a s).2 ∧ (good q a → J s → J (f a s).2)) :
    (ask q >>= fun a => lift (f a)).Keeps I J ok good fun _ => True :=
  keeps_ask_lift (g := fun _ r => pure r) hf fun _ _ _ => keeps_pure trivial

/-- What is kept holds at the end of a run, if every answer meets the condition. -/
theorem Keeps.run {m : Process σ Q A α} {answers : ∀ q, A q} {s : σ}
    (hm : m.Keeps I J ok good post) (hok : ∀ q, ok q (answers q)) (hs : I s) :
    I (m.run answers s).1 ∧ post (m.run answers s).2 := by
  have hsuspended : ∀ (p : Suspended σ Q A α) (s : σ), p.Keeps I J ok good post → I s →
      I (p.run answers s).1 ∧ post (p.run answers s).2 := by
    intro p
    induction p with
    | done a => exact fun s hp hs => ⟨hs, hp⟩
    | wait q next cont ih =>
        intro s hp hs
        obtain ⟨hnext, -, hcont⟩ := hp (answers q) s (hok q) hs
        exact ih (answers q) s _ hcont hnext
  obtain ⟨hnext, -, hp⟩ := hm s hs
  exact hsuspended _ _ hp hnext

/-! ## What a process leaves alone -/

theorem pure_bind (a : α) (f : α → Process σ Q A β) : pure a >>= f = f a := rfl

/-- A process that begins with a question waits for its answer. -/
theorem ask_bind_apply (q : Q) (f : A q → Process σ Q A β) (s : σ) :
    (ask q >>= f) s = (s, .wait q (fun a s => (f a s).1) fun a s => (f a s).2) := rfl

theorem bind_assoc {γ : Type} (m : Process σ Q A α) (f : α → Process σ Q A β)
    (g : β → Process σ Q A γ) : (m >>= f) >>= g = m >>= fun a => f a >>= g := by
  funext s
  exact Suspended.andThen_andThen f g (m s).2 (m s).1

section Leaves

variable {τ : Type} {obs : σ → τ} {P : Suspended σ Q A β → Prop}

/-- The process leaves what `obs` sees as it is, unless it continues from a point with `P`;
and its result meets `post`. -/
def Leaves (obs : σ → τ) (P : Suspended σ Q A α → Prop) (post : α → Prop)
    (m : Process σ Q A α) : Prop :=
  ∀ s, obs (m s).1 = obs s ∧ (m s).2.Leaves obs P post

theorem leaves_pure {P : Suspended σ Q A α → Prop} {a : α} (h : post a) :
    (pure a : Process σ Q A α).Leaves obs P post :=
  fun _ => ⟨rfl, h⟩

theorem leaves_ask (q : Q) :
    (ask q : Process σ Q A (A q)).Leaves obs (fun _ => False) fun _ => True :=
  fun _ => ⟨rfl, .inr fun _ _ => rfl, fun _ _ => trivial⟩

theorem leaves_lift {P : Suspended σ Q A α → Prop} {f : σ → α × σ}
    (h : ∀ s, obs (f s).2 = obs s ∧ post (f s).1) :
    (lift f : Process σ Q A α).Leaves obs P post :=
  h

theorem leaves_andThen {f : α → Process σ Q A β} (hf : ∀ a, post a → (f a).Leaves obs P post')
    {p : Suspended σ Q A α} (hp : p.Leaves obs (fun _ => False) post) :
    (p.andThen f).Leaves obs P post' := by
  induction p with
  | done a => exact hf a hp
  | wait q next cont ih =>
      intro s
      rcases hp with ⟨hnext, hcont⟩
      have hsame := hnext.resolve_left id
      refine ⟨rfl, .inr fun a s' => ?_, fun a s' => ?_⟩
      · exact (ih a s' (hcont a s') (next a s')).1.trans (hsame a s')
      · exact (ih a s' (hcont a s') (next a s')).2

/-- Sequencing; the exceptions are in the second part. -/
theorem Leaves.bind {m : Process σ Q A α} {f : α → Process σ Q A β}
    (hm : m.Leaves obs (fun _ => False) post) (hf : ∀ a, post a → (f a).Leaves obs P post') :
    (m >>= f).Leaves obs P post' := by
  intro s
  rcases hm s with ⟨hsame, hp⟩
  rcases leaves_andThen hf hp (m s).1 with ⟨hnext, hrest⟩
  exact ⟨hnext.trans hsame, hrest⟩

theorem Leaves.seq {m : Process σ Q A α} {f : α → Process σ Q A β}
    (hm : m.Leaves obs (fun _ => False) fun _ => True) (hf : ∀ a, (f a).Leaves obs P post') :
    (m >>= f).Leaves obs P post' :=
  hm.bind fun a _ => hf a

theorem leaves_mono {P' : Suspended σ Q A β → Prop} (hP : ∀ p, P p → P' p)
    {p : Suspended σ Q A β} (hp : p.Leaves obs P post') : p.Leaves obs P' post' := by
  induction p with
  | done b => exact hp
  | wait q next cont ih => exact ⟨hp.1.imp_left (hP _), fun a s => ih a s (hp.2 a s)⟩

/-- A process without exceptions has all of them. -/
theorem Leaves.weaken {m : Process σ Q A β} (hm : m.Leaves obs (fun _ => False) post') :
    m.Leaves obs P post' :=
  fun s => ⟨(hm s).1, leaves_mono (fun _ => False.elim) (hm s).2⟩

end Leaves

end Process

/-! ## Processes side by side -/

/-- A shared state and the processes that were started on it. -/
structure Pool (σ Q : Type) (A : Q → Type) (α : Type) where
  shared : σ
  processes : List (Suspended σ Q A α)

namespace Pool

/-- Start a process; it runs up to its first question. -/
def spawn (m : Process σ Q A α) (pool : Pool σ Q A α) : Pool σ Q A α :=
  ⟨(m pool.shared).1, pool.processes ++ [(m pool.shared).2]⟩

/-- Answer the question of process `i`, if there is one; it runs up to its next
question. -/
def resume (i : ℕ) (answers : ∀ q, A q) (pool : Pool σ Q A α) : Pool σ Q A α :=
  match pool.processes[i]? with
  | some (.wait q next cont) =>
      ⟨next (answers q) pool.shared,
        pool.processes.set i (cont (answers q) pool.shared)⟩
  | _ => pool

/-- The shared state has `I`, and so it will after every part of every process. -/
structure Keeps (I J : σ → Prop) (ok good : ∀ q, A q → Prop) (pool : Pool σ Q A α) : Prop where
  shared : I pool.shared
  processes : ∀ p ∈ pool.processes, p.Keeps I J ok good fun _ => True

variable {I J : σ → Prop} {ok good : ∀ q, A q → Prop} {pool : Pool σ Q A α}

theorem Keeps.spawn (h : pool.Keeps I J ok good) {m : Process σ Q A α}
    (hm : m.Keeps I J ok good fun _ => True) : (pool.spawn m).Keeps I J ok good := by
  obtain ⟨hshared, -, hp⟩ := hm pool.shared h.shared
  refine ⟨hshared, ?_⟩
  intro p hmem
  rcases List.mem_append.mp hmem with hmem | hmem
  · exact h.processes p hmem
  · rw [List.mem_singleton.mp hmem]
    exact hp

theorem Keeps.resume (h : pool.Keeps I J ok good) {i : ℕ} {answers : ∀ q, A q}
    (hok : ∀ q next cont, pool.processes[i]? = some (.wait q next cont) → ok q (answers q)) :
    (pool.resume i answers).Keeps I J ok good := by
  unfold Pool.resume
  split
  · rename_i q next cont hi
    have hp := h.processes _ (List.mem_of_getElem? hi)
    obtain ⟨hnext, -, hcont⟩ := hp (answers q) pool.shared (hok q next cont hi) h.shared
    refine ⟨hnext, ?_⟩
    intro p hmem
    rcases List.mem_or_eq_of_mem_set hmem with hmem | rfl
    · exact h.processes p hmem
    · exact hcont
  · exact h

/-- **Once `J` holds it is an invariant**, if the answers are good from then on. -/
theorem Keeps.and (h : pool.Keeps I J ok good) (hJ : J pool.shared)
    (hok : ∀ q a, good q a → ok q a) (good' : ∀ q, A q → Prop) :
    pool.Keeps (fun s => I s ∧ J s) (fun _ => True) good good' := by
  have hsuspended : ∀ (p : Suspended σ Q A α), p.Keeps I J ok good (fun _ => True) →
      p.Keeps (fun s => I s ∧ J s) (fun _ => True) good good' fun _ => True := by
    intro p
    induction p with
    | done a => exact id
    | wait q next cont ih =>
        intro hp a s ha hs
        obtain ⟨hnext, hstays, hcont⟩ := hp a s (hok q a ha) hs.1
        exact ⟨⟨hnext, hstays ha hs.2⟩, fun _ _ => trivial, ih a s hcont⟩
  exact ⟨⟨h.shared, hJ⟩, fun p hp => hsuspended p (h.processes p hp)⟩

section Leaves

variable {τ : Type} {obs : σ → τ} {P : Suspended σ Q A α → Prop}

/-- Every process leaves what `obs` sees as it is, unless it continues from a point
with `P`. -/
def Leaves (obs : σ → τ) (P : Suspended σ Q A α → Prop) (pool : Pool σ Q A α) : Prop :=
  ∀ p ∈ pool.processes, p.Leaves obs P fun _ => True

theorem Leaves.spawn (h : pool.Leaves obs P) {m : Process σ Q A α}
    (hm : m.Leaves obs P fun _ => True) :
    (pool.spawn m).Leaves obs P ∧ obs (pool.spawn m).shared = obs pool.shared := by
  rcases hm pool.shared with ⟨hsame, hp⟩
  refine ⟨?_, hsame⟩
  intro p hmem
  rcases List.mem_append.mp hmem with hmem | hmem
  · exact h p hmem
  · rw [List.mem_singleton.mp hmem]
    exact hp

/-- A resumed process continues from a point with `P`, or leaves what `obs` sees. -/
theorem Leaves.resume (h : pool.Leaves obs P) (i : ℕ) (answers : ∀ q, A q) :
    (pool.resume i answers).Leaves obs P ∧
      ((∃ p, pool.processes[i]? = some p ∧ P p) ∨
        obs (pool.resume i answers).shared = obs pool.shared) := by
  unfold Pool.resume
  split
  · rename_i q next cont hi
    rcases h _ (List.mem_of_getElem? hi) with ⟨hnext, hcont⟩
    refine ⟨?_, ?_⟩
    · intro p hmem
      rcases List.mem_or_eq_of_mem_set hmem with hmem | rfl
      · exact h p hmem
      · exact hcont _ _
    · rcases hnext with hpoint | hsame
      · exact .inl ⟨_, hi, hpoint⟩
      · exact .inr (hsame _ _)
  · exact ⟨h, .inr rfl⟩

end Leaves

/-- The shared state changes from outside. -/
theorem Keeps.change (h : pool.Keeps I J ok good) {s : σ} (hs : I s) :
    Keeps I J ok good { pool with shared := s } :=
  ⟨hs, h.processes⟩

end Pool

end AuthKademlia.Lib
