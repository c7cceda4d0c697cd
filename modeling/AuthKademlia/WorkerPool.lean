import AuthKademlia.Lib.Execution
import AuthKademlia.Reassembly

/-!
# The worker pool of `listen`

The receive loop hands every datagram to one of the workers, each behind a channel of
`WORKER_QUEUE_DEPTH` places.  It tries the workers one after the other, beginning with the
next in turn, and if none has room it waits for a place at the first of them.  Meanwhile the
workers take datagrams off their channels.

The loop and the workers are separate tasks, so a run is any interleaving of their steps:
`recv_from` returning, one `try_send`, the waiting `send` getting its place, and one `recv`
of a worker.  Only the loop sends, so a place that is free when `try_send` looks is not
taken by anybody else.

Two fields are history and never read: the datagrams that `recv_from` has returned
(`arrived`) and those a worker has taken (`taken`).  Every datagram carries its number in the
order of arrival, so that two datagrams of the same content are told apart.

## Main definitions

* `WorkerPool`, `WorkerPool.step` — the loop with its channels, and one step of a run.
* `WorkerPool.inFlight` — the datagram that has been received and is not in a channel yet.
* `WorkerPool.Invariant` — what every run keeps.
-/

namespace AuthKademlia

open Lib

/-- Places in the channel of a worker. -/
def workerQueueDepth : ℕ := 256

/-- A datagram on its way to a worker, with the number of datagrams that arrived before. -/
structure Datagram where
  number : ℕ
  data : Bytes
  peer : SocketAddr
  deriving DecidableEq

/-- A worker: its channel, oldest datagram first, and what it has taken so far. -/
structure Worker where
  queue : List Datagram
  taken : List Datagram
  deriving DecidableEq

namespace Worker

/-- Everything that was ever put into the channel. -/
def history (w : Worker) : List Datagram := w.taken ++ w.queue

/-- `try_send`: put the datagram into the channel if it has room. -/
def trySend (w : Worker) (d : Datagram) : Option Worker :=
  if w.queue.length < workerQueueDepth then some { w with queue := w.queue ++ [d] } else none

/-- `recv`: take the oldest datagram, if there is one. -/
def recv (w : Worker) : Option Worker :=
  match w.queue with
  | [] => none
  | d :: rest => some ⟨rest, w.taken ++ [d]⟩

theorem trySend_eq_some {w w' : Worker} {d : Datagram} (h : w.trySend d = some w') :
    w'.history = w.history ++ [d] ∧ w'.queue.length ≤ workerQueueDepth := by
  simp only [trySend] at h
  split at h
  · next hroom =>
      cases h
      simp only [history, List.append_assoc, List.length_append, List.length_singleton]
      exact ⟨trivial, hroom⟩
  · cases h

/-- A worker with a full channel takes a datagram and has room then. -/
theorem exists_recv_trySend {w : Worker} {d : Datagram} (hle : w.queue.length ≤ workerQueueDepth)
    (h : w.trySend d = none) : ∃ w' w'', w.recv = some w' ∧ w'.trySend d = some w'' := by
  rcases w with ⟨queue, taken⟩
  cases queue with
  | nil => simp [trySend, workerQueueDepth] at h
  | cons c rest =>
      have hroom : rest.length < workerQueueDepth := hle
      exact ⟨⟨rest, taken ++ [c]⟩, ⟨rest ++ [d], taken ++ [c]⟩, rfl, by simp [trySend, hroom]⟩

theorem recv_eq_some {w w' : Worker} (h : w.recv = some w') :
    w'.history = w.history ∧ w'.queue.length < w.queue.length := by
  rcases w with ⟨queue, taken⟩
  cases queue with
  | nil => simp [recv] at h
  | cons d rest =>
      cases h
      simp [history]

end Worker

/-- Where the receive loop is. -/
inductive ListenPoint
  /-- At `recv_from`. -/
  | receiving
  /-- At iteration `i` of the loop over the workers, which began at `base`. -/
  | trying (d : Datagram) (base i : ℕ)
  /-- Waiting for a place at worker `w`. -/
  | sending (d : Datagram) (w : ℕ)
  deriving DecidableEq

/-- The receive loop with its workers. -/
structure WorkerPool where
  workers : List Worker
  /-- The worker next in turn. -/
  idx : ℕ
  point : ListenPoint
  /-- What `recv_from` has returned, in order. -/
  arrived : List (Bytes × SocketAddr)
  deriving DecidableEq

/-- One step of the loop or of a worker. -/
inductive PoolEvent
  /-- `recv_from` returns a datagram ... -/
  | recvFrom (data : Bytes) (peer : SocketAddr)
  /-- ... or an error, which is logged. -/
  | recvError
  /-- One iteration of the loop over the workers. -/
  | trySend
  /-- The waiting `send` gets its place. -/
  | sendReady
  /-- Worker `w` takes a datagram. -/
  | workerRecv (w : ℕ)
  deriving DecidableEq

namespace WorkerPool

/-- The pool with `numWorkers` workers and empty channels. -/
def new (numWorkers : ℕ) : WorkerPool := ⟨List.replicate numWorkers ⟨[], []⟩, 0, .receiving, []⟩

/-- Worker `w` got the datagram: it is the turn of the one after it. -/
def placed (s : WorkerPool) (w : ℕ) (worker : Worker) : WorkerPool :=
  { s with
    workers := s.workers.set w worker, idx := (w + 1) % s.workers.length, point := .receiving }

/-- One step; `none` if it is not possible in this state. -/
def step (s : WorkerPool) : PoolEvent → Option WorkerPool
  | .recvFrom data peer =>
      match s.point with
      | .receiving =>
          some { s with
            point := .trying ⟨s.arrived.length, data, peer⟩ s.idx 0
            arrived := s.arrived ++ [(data, peer)] }
      | _ => none
  | .recvError =>
      match s.point with
      | .receiving => some s
      | _ => none
  | .trySend =>
      match s.point with
      | .trying d base i =>
          let w := (base + i) % s.workers.length
          match (s.workers[w]?).bind fun worker => worker.trySend d with
          | some worker => some (s.placed w worker)
          | none =>
              if i + 1 < s.workers.length then some { s with point := .trying d base (i + 1) }
              else some { s with point := .sending d (base % s.workers.length) }
      | _ => none
  | .sendReady =>
      match s.point with
      | .sending d w =>
          ((s.workers[w]?).bind fun worker => worker.trySend d).map fun worker => s.placed w worker
      | _ => none
  | .workerRecv w =>
      ((s.workers[w]?).bind Worker.recv).map fun worker =>
        { s with workers := s.workers.set w worker }

/-- The datagram that has been received and is in no channel yet, if any. -/
def inFlight (s : WorkerPool) : List Datagram :=
  match s.point with
  | .receiving => []
  | .trying d _ _ => [d]
  | .sending d _ => [d]

theorem tail_inFlight (s : WorkerPool) {d : Datagram} {rest : List Datagram}
    (h : s.inFlight = d :: rest) : rest = [] := by
  simp only [inFlight] at h
  split at h <;> cases h <;> rfl

/-- The datagrams that arrived, numbered. -/
def numbered (l : List (Bytes × SocketAddr)) : List Datagram :=
  l.mapIdx fun k p => ⟨k, p.1, p.2⟩

/-- Everything that was ever put into a channel, worker by worker. -/
def histories (s : WorkerPool) : List Datagram := s.workers.flatMap Worker.history

variable {n : ℕ} {s t : WorkerPool} {d : Datagram}

theorem numbered_concat (l : List (Bytes × SocketAddr)) (p : Bytes × SocketAddr) :
    numbered (l ++ [p]) = numbered l ++ [⟨l.length, p.1, p.2⟩] := by
  simp [numbered, List.mapIdx_append]

theorem number_lt {l : List (Bytes × SocketAddr)} (h : d ∈ numbered l) : d.number < l.length := by
  rcases List.mem_mapIdx.mp h with ⟨k, hk, rfl⟩
  exact hk

/-! ## What a step can do -/

/-- **One step**: a datagram arrives, the loop moves on to another worker, the datagram in
flight is placed, or a worker takes one; and `recv_from` may fail. -/
inductive StepCase (s : WorkerPool) : WorkerPool → Prop
  | arrives (data : Bytes) (peer : SocketAddr) (hpoint : s.inFlight = []) :
      StepCase s { s with
        point := .trying ⟨s.arrived.length, data, peer⟩ s.idx 0
        arrived := s.arrived ++ [(data, peer)] }
  | fails : StepCase s s
  | tries (d : Datagram) (base i : ℕ) (hpoint : s.inFlight = [d]) (hi : i < s.workers.length) :
      StepCase s { s with point := .trying d base i }
  | waits (d : Datagram) (base : ℕ) (hpoint : s.inFlight = [d]) :
      StepCase s { s with point := .sending d (base % s.workers.length) }
  | places (d : Datagram) (w : ℕ) (old worker : Worker) (hpoint : s.inFlight = [d])
      (hw : s.workers[w]? = some old) (hsend : old.trySend d = some worker) :
      StepCase s (s.placed w worker)
  | takes (w : ℕ) (old worker : Worker) (hw : s.workers[w]? = some old)
      (hrecv : old.recv = some worker) : StepCase s { s with workers := s.workers.set w worker }

theorem step_cases {e : PoolEvent} (h : s.step e = some t) : StepCase s t := by
  cases e with
  | recvFrom data peer =>
      simp only [step] at h
      split at h
      · next hpoint =>
          cases h
          exact .arrives data peer (by simp [inFlight, hpoint])
      · cases h
  | recvError =>
      simp only [step] at h
      split at h
      · cases h
        exact .fails
      · cases h
  | trySend =>
      simp only [step] at h
      split at h
      · next d base i hpoint =>
          have hflight : s.inFlight = [d] := by simp [inFlight, hpoint]
          split at h
          · next worker hworker =>
              cases h
              rcases Option.bind_eq_some_iff.mp hworker with ⟨old, hold, hsend⟩
              exact .places d _ old worker hflight hold hsend
          · split at h
            · next hi =>
                cases h
                exact .tries d base (i + 1) hflight hi
            · cases h
              exact .waits d base hflight
      · cases h
  | sendReady =>
      simp only [step] at h
      split at h
      · next d w hpoint =>
          rcases Option.map_eq_some_iff.mp h with ⟨worker, hworker, rfl⟩
          rcases Option.bind_eq_some_iff.mp hworker with ⟨old, hold, hsend⟩
          exact .places d w old worker (by simp [inFlight, hpoint]) hold hsend
      · cases h
  | workerRecv w =>
      rcases Option.map_eq_some_iff.mp h with ⟨worker, hworker, rfl⟩
      rcases Option.bind_eq_some_iff.mp hworker with ⟨old, hold, hrecv⟩
      exact .takes w old worker hold hrecv

/-! ## The invariant -/

/-- The positions a point refers to are those of workers. -/
def PointInRange (n : ℕ) : ListenPoint → Prop
  | .receiving => True
  | .trying _ _ i => i < n
  | .sending _ w => w < n

/-- What every run keeps.  `settled` are the datagrams that are in a channel or were taken. -/
structure Invariant (n : ℕ) (s : WorkerPool) : Prop where
  length_eq : s.workers.length = n
  idx_lt : s.idx < n
  in_range : PointInRange n s.point
  queue_le : ∀ w ∈ s.workers, w.queue.length ≤ workerQueueDepth
  in_order : ∀ w ∈ s.workers, w.history.Pairwise fun c d => c.number < d.number
  conserved : ∃ settled, s.histories.Perm (numbered settled) ∧
    s.arrived = settled ++ s.inFlight.map (fun d => (d.data, d.peer)) ∧
    ∀ d ∈ s.inFlight, d.number = settled.length

theorem invariant_new (hn : 1 ≤ n) : (new n).Invariant n where
  length_eq := by simp [new]
  idx_lt := hn
  in_range := trivial
  queue_le := by simp [new, workerQueueDepth]
  in_order := by simp [new, Worker.history]
  conserved := ⟨[], by simp [histories, new, Worker.history, numbered], by simp [new, inFlight],
    by simp [new, inFlight]⟩

/-- The workers around worker `w`. -/
theorem exists_split {w : ℕ} {old : Worker} (hw : s.workers[w]? = some old) :
    ∃ pre post, s.workers = pre ++ old :: post ∧
      ∀ worker, s.workers.set w worker = pre ++ worker :: post := by
  rcases List.getElem?_eq_some_iff.mp hw with ⟨hlt, rfl⟩
  refine ⟨s.workers.take w, s.workers.drop (w + 1), by simp, ?_⟩
  intro worker
  rw [List.set_eq_take_append_cons_drop, if_pos hlt]

/-- A condition on all workers survives the change of one of them. -/
theorem forall_mem_set {P : Worker → Prop} {w : ℕ} {worker : Worker}
    (h : ∀ v ∈ s.workers, P v) (hworker : P worker) : ∀ v ∈ s.workers.set w worker, P v := by
  intro v hv
  rcases List.mem_or_eq_of_mem_set hv with hv | rfl
  · exact h v hv
  · exact hworker

/-- **Placing the datagram in flight** settles it: it is the last to arrive, so it comes
after everything its worker ever got. -/
theorem Invariant.placed (h : s.Invariant n) {w : ℕ} {old worker : Worker}
    (hflight : s.inFlight = [d]) (hw : s.workers[w]? = some old)
    (hsend : old.trySend d = some worker) : (s.placed w worker).Invariant n := by
  have hlen := h.length_eq
  have hpos : 0 < n := Nat.zero_lt_of_lt h.idx_lt
  have hmem : old ∈ s.workers := List.mem_of_getElem? hw
  rcases h.conserved with ⟨settled, hperm, harrived, hnumber⟩
  have hd : d.number = settled.length := hnumber d (by simp [hflight])
  rcases Worker.trySend_eq_some hsend with ⟨hhistory, hroom⟩
  refine ⟨?_, ?_, trivial, forall_mem_set h.queue_le hroom, forall_mem_set h.in_order ?_, ?_⟩
  · simpa [WorkerPool.placed] using hlen
  · simpa [WorkerPool.placed, hlen] using Nat.mod_lt (w + 1) hpos
  · rw [hhistory, List.pairwise_append]
    refine ⟨h.in_order old hmem, by simp, ?_⟩
    intro c hc e he
    obtain rfl : e = d := by simpa using he
    rw [hd]
    exact number_lt (hperm.mem_iff.mp (List.mem_flatMap.mpr ⟨old, hmem, hc⟩))
  · refine ⟨settled ++ [(d.data, d.peer)], ?_, ?_, by simp [WorkerPool.placed, inFlight]⟩
    · rcases exists_split hw with ⟨pre, post, hworkers, hset⟩
      have hall : (s.placed w worker).histories.Perm (s.histories ++ [d]) := by
        simp only [histories, WorkerPool.placed, hset]
        simp only [hworkers, List.flatMap_append, List.flatMap_cons, hhistory, List.append_assoc]
        refine List.Perm.append_left _ (List.Perm.append_left _ ?_)
        exact List.perm_append_comm
      rw [numbered_concat, ← hd]
      exact hall.trans (hperm.append_right _)
    · rw [hflight] at harrived
      simpa [WorkerPool.placed, inFlight] using harrived

/-- **One step keeps the invariant.** -/
theorem Invariant.step (h : s.Invariant n) {e : PoolEvent} (hstep : s.step e = some t) :
    t.Invariant n := by
  have hpos : 0 < n := Nat.zero_lt_of_lt h.idx_lt
  have hlen := h.length_eq
  rcases h.conserved with ⟨settled, hperm, harrived, hnumber⟩
  cases step_cases hstep with
  | arrives data peer hflight =>
      have hall : settled = s.arrived := by simpa [hflight] using harrived.symm
      rw [hall] at hperm
      exact ⟨hlen, h.idx_lt, hpos, h.queue_le, h.in_order, s.arrived, hperm, rfl,
        by simp [inFlight]⟩
  | fails => exact h
  | tries d base i hflight hi =>
      rw [hflight] at harrived hnumber
      exact ⟨hlen, h.idx_lt, hlen ▸ hi, h.queue_le, h.in_order, settled, hperm, harrived, hnumber⟩
  | waits d base hflight =>
      rw [hflight] at harrived hnumber
      have hrange : base % s.workers.length < n := hlen ▸ Nat.mod_lt base (hlen ▸ hpos)
      exact ⟨hlen, h.idx_lt, hrange, h.queue_le, h.in_order, settled, hperm, harrived, hnumber⟩
  | places d w old worker hflight hw hsend => exact h.placed hflight hw hsend
  | takes w old worker hw hrecv =>
      rcases Worker.recv_eq_some hrecv with ⟨hhistory, hshorter⟩
      have hmem : old ∈ s.workers := List.mem_of_getElem? hw
      refine ⟨by simpa using hlen, h.idx_lt, h.in_range,
        forall_mem_set h.queue_le (hshorter.le.trans (h.queue_le old hmem)),
        forall_mem_set h.in_order (hhistory ▸ h.in_order old hmem), settled, ?_, harrived, hnumber⟩
      rcases exists_split hw with ⟨pre, post, hworkers, hset⟩
      have hsame : ({ s with workers := s.workers.set w worker } : WorkerPool).histories =
          s.histories := by
        simp only [histories, hset]
        simp only [hworkers, List.flatMap_append, List.flatMap_cons, hhistory]
      rw [hsame]
      exact hperm

/-! ## Progress -/

/-- The waiting datagram gets its place, once the worker has taken one if need be. -/
theorem Invariant.settles_sending (h : s.Invariant n) {w : ℕ} (hpoint : s.point = .sending d w) :
    ∃ es t, exec WorkerPool.step s es = some t ∧ t.inFlight = [] ∧ t.arrived = s.arrived := by
  have hw : w < s.workers.length := by
    have hrange := h.in_range
    rw [hpoint] at hrange
    exact h.length_eq ▸ hrange
  have hget : s.workers[w]? = some s.workers[w] := List.getElem?_eq_getElem hw
  cases hsend : s.workers[w].trySend d with
  | some worker =>
      refine ⟨[.sendReady], s.placed w worker, ?_, rfl, rfl⟩
      simp [exec, WorkerPool.step, hpoint, hget, hsend]
  | none =>
      have hle := h.queue_le _ (List.getElem_mem hw)
      rcases Worker.exists_recv_trySend hle hsend with ⟨taker, worker, hrecv, hplace⟩
      refine ⟨[.workerRecv w, .sendReady],
        { s with workers := s.workers.set w taker }.placed w worker, ?_, rfl, rfl⟩
      simp [exec, WorkerPool.step, hpoint, hrecv, hplace, hw]

/-- **The loop can always settle the datagram in flight.**  By induction on the workers not
tried yet: one of them has room, or the loop ends up waiting. -/
theorem Invariant.settles (h : s.Invariant n) :
    ∃ es t, exec WorkerPool.step s es = some t ∧ t.inFlight = [] ∧ t.arrived = s.arrived := by
  cases hpoint : s.point with
  | receiving => exact ⟨[], s, rfl, by simp [inFlight, hpoint], rfl⟩
  | sending d w => exact h.settles_sending hpoint
  | trying d base i =>
      generalize hk : n - i = k
      induction k using Nat.strong_induction_on generalizing s i with
      | _ k ih =>
          have hi : i < n := by
            have hrange := h.in_range
            rwa [hpoint] at hrange
          obtain ⟨t, hstep⟩ : ∃ t, s.step .trySend = some t := by
            simp only [WorkerPool.step, hpoint]
            split
            · exact ⟨_, rfl⟩
            · split <;> exact ⟨_, rfl⟩
          have hnext := h.step hstep
          have hrest : ∃ es u, exec WorkerPool.step t es = some u ∧ u.inFlight = [] ∧
              u.arrived = s.arrived := by
            simp only [WorkerPool.step, hpoint] at hstep
            split at hstep
            · cases hstep
              exact ⟨[], _, rfl, rfl, rfl⟩
            · split at hstep
              · cases hstep
                exact ih (n - (i + 1)) (by omega) hnext (i + 1) rfl rfl
              · cases hstep
                exact hnext.settles_sending rfl
          rcases hrest with ⟨es, u, hexec, hflight, harrived⟩
          exact ⟨.trySend :: es, u, by simp [exec, hstep, hexec], hflight, harrived⟩

/-! ## Runs -/

/-- The datagrams that arrive in a run. -/
def received (es : List PoolEvent) : List (Bytes × SocketAddr) :=
  es.filterMap fun e =>
    match e with
    | .recvFrom data peer => some (data, peer)
    | _ => none

theorem arrived_step {e : PoolEvent} (h : s.step e = some t) :
    t.arrived = s.arrived ++ received [e] := by
  cases e with
  | recvFrom data peer =>
      simp only [step] at h
      split at h <;> cases h
      rfl
  | recvError =>
      simp only [step] at h
      split at h <;> cases h
      simp [received]
  | trySend =>
      simp only [step] at h
      split at h
      · split at h
        · cases h
          simp [received, placed]
        · split at h <;> cases h <;> simp [received]
      · cases h
  | sendReady =>
      simp only [step] at h
      split at h
      · rcases Option.map_eq_some_iff.mp h with ⟨worker, -, rfl⟩
        simp [received, placed]
      · cases h
  | workerRecv w =>
      rcases Option.map_eq_some_iff.mp h with ⟨worker, -, rfl⟩
      simp [received]

theorem nodup_numbered (l : List (Bytes × SocketAddr)) : (numbered l).Nodup := by
  induction l using List.reverseRecOn with
  | nil => simp [numbered]
  | append_singleton l p ih =>
      rw [numbered_concat, List.nodup_append]
      refine ⟨ih, by simp, ?_⟩
      rintro d hd e he rfl
      obtain rfl : d = ⟨l.length, p.1, p.2⟩ := by simpa using he
      exact Nat.lt_irrefl _ (number_lt hd)

/-- **Dispatch neither drops nor duplicates.**  In every run of the loop and its workers,
from empty channels and with at least one worker: the datagrams received are those that were
put into some channel, each exactly once, and the one in flight, if there is one; no channel
holds more than 256; every worker gets its datagrams in the order of arrival; the index stays
in range.  And the one in flight can always be placed before anything else is received. -/
theorem dispatch_conserves (numWorkers : ℕ) (hn : 1 ≤ numWorkers) (es : List PoolEvent)
    (s : WorkerPool) (hrun : exec step (new numWorkers) es = some s) :
    s.arrived = received es ∧
      (s.histories ++ s.inFlight).Perm (numbered s.arrived) ∧ (s.histories ++ s.inFlight).Nodup ∧
      s.inFlight.length ≤ 1 ∧
      (∀ w ∈ s.workers, w.queue.length ≤ 256 ∧
        (w.taken ++ w.queue).Pairwise fun c d => c.number < d.number) ∧
      s.workers.length = numWorkers ∧ s.idx < numWorkers ∧
      ∃ fs t, exec step s fs = some t ∧ t.inFlight = [] ∧ t.arrived = s.arrived := by
  have h : s.Invariant numWorkers :=
    exec_invariant (Invariant numWorkers) (invariant_new hn) (fun _ _ _ h hstep => h.step hstep)
      hrun
  have harrived : s.arrived = received es := by
    refine exec_history (fun es s => s.arrived = received es) rfl ?_ hrun
    intro es r e t _ hr hstep
    rw [arrived_step hstep, hr, received, received, received, List.filterMap_append]
  have hperm : (s.histories ++ s.inFlight).Perm (numbered s.arrived) := by
    rcases h.conserved with ⟨settled, hperm, hsettled, hnumber⟩
    rw [hsettled]
    cases hflight : s.inFlight with
    | nil => simpa using hperm
    | cons d rest =>
        obtain rfl : rest = [] := s.tail_inFlight hflight
        have hd : d.number = settled.length := hnumber d (by simp [hflight])
        simp only [List.map_cons, List.map_nil, numbered_concat, ← hd]
        exact hperm.append_right [d]
  refine ⟨harrived, hperm, hperm.nodup_iff.mpr (nodup_numbered _), ?_, ?_, h.length_eq, h.idx_lt,
    h.settles⟩
  · cases hflight : s.inFlight with
    | nil => simp
    | cons d rest => simp [s.tail_inFlight hflight]
  · intro w hw
    exact ⟨h.queue_le w hw, h.in_order w hw⟩

/-- Two datagrams of the same content, to two workers; the first is taken. -/
def twoDatagrams : List PoolEvent :=
  [.recvFrom [1] ⟨"10.0.0.1", 7⟩, .trySend, .recvFrom [1] ⟨"10.0.0.1", 7⟩, .trySend, .workerRecv 0]

theorem dispatch_twoDatagrams :
    ∃ s, exec step (new 2) twoDatagrams = some s ∧ s.idx < 2 ∧ s.arrived.length = 2 ∧
      (s.histories ++ s.inFlight).Perm (numbered s.arrived) := by
  have hsome : (exec step (new 2) twoDatagrams).isSome = true := by decide
  rcases Option.isSome_iff_exists.mp hsome with ⟨s, hs⟩
  have hall := dispatch_conserves 2 (by decide) twoDatagrams s hs
  exact ⟨s, hs, hall.2.2.2.2.2.2.1, by rw [hall.1]; rfl, hall.2.1⟩

end WorkerPool

end AuthKademlia
