import AuthKademlia.Correlation
import AuthKademlia.WorkerPool
import Mathlib.Algebra.Group.Action.Defs
import Mathlib.Algebra.Order.BigOperators.Group.List

/-!
# Hosts behind their receive loops

In `Cluster` a datagram arrives and is handled at once.  In the source it goes through the
receive loop of `listen` and the channel of a worker, and the worker handles it to the end
before it takes the next one: a suspended handler keeps its worker busy.

The loops and the workers are not visible in what the hosts do: every run of stations is a run
of the cluster, in which a datagram arrives when a worker takes it (`workers_invisible`).  So
what is shown of all runs of clusters is true of stations as well.  They have fewer runs: a
host never has more handlers in progress than it has workers (`handlers_le_workers`).

## Main definitions

* `Station`, `Stations`, `StationEvent`, `Stations.step` — hosts with loops and workers.
* `Shows` — what an event of a station is in the cluster.
-/

namespace AuthKademlia

open Lib

/-! ## Stations -/

/-- The datagrams in the channels. -/
def WorkerPool.queued (s : WorkerPool) : ℕ := (s.workers.map fun w => w.queue.length).sum

/-- A host with its receive loop; `busy` are the workers of its suspended handlers, in the order
of `Host.serving`. -/
structure Station (sv : Server) where
  host : Host sv
  loop : WorkerPool
  busy : List ℕ

namespace Station

variable {sv : Server}

/-- A station with `numWorkers` workers, before its first event. -/
def start (numWorkers : ℕ) (pool : ServerPool sv) : Station sv :=
  ⟨.start pool, .new numWorkers, []⟩

/-- The worker whose handler is resumed stays busy if the handler is suspended again. -/
def busyAfter (st : Station sv) (host : Host sv) : HostEvent sv → List ℕ
  | .serve _ _ i _ =>
      st.busy.eraseIdx i ++
        if host.serving.length = st.host.serving.length then st.busy[i]?.toList else []
  | _ => st.busy

/-- An event of the host's own. -/
def act (e : HostEvent sv) (st : Station sv) : Option (Station sv) :=
  (st.host.step e).map fun host => ⟨host, st.loop, st.busyAfter host e⟩

/-- A worker that is not busy takes a datagram and handles it, up to the first await. -/
def handle (w now accepted : ℕ) (st : Station sv) : Option (Station sv) :=
  if w ∈ st.busy then none
  else
    (st.loop.workers[w]?).bind fun worker => worker.queue.head?.bind fun d =>
      (st.loop.step (.workerRecv w)).map fun loop =>
        let host := st.host.receive now accepted d.peer d.data
        ⟨host, loop,
          if st.host.serving.length < host.serving.length then st.busy ++ [w] else st.busy⟩

/-- The datagrams that were received and whose handling is not over. -/
def backlog (st : Station sv) : ℕ :=
  st.loop.inFlight.length + st.loop.queued + st.host.serving.length

end Station

abbrev Stations (servers : SocketAddr → Server) := ∀ a, Station (servers a)

/-- A host acts, a receive loop moves on, `recv_from` returns a datagram that was sent or one
from outside, or a worker handles one. -/
inductive StationEvent (servers : SocketAddr → Server) where
  | acts (a : SocketAddr) (e : HostEvent (servers a))
  | loops (a : SocketAddr) (e : PoolEvent)
  | arrives (src : SocketAddr) (k i : ℕ)
  | inject (src dest : SocketAddr) (data : Bytes)
  | handles (a : SocketAddr) (w now accepted : ℕ)

namespace Stations

variable {servers : SocketAddr → Server}

/-- The station an event changes, and what it becomes. -/
def changed (c : Stations servers) : StationEvent servers → Option (Σ a, Station (servers a))
  | .acts a e => ((c a).act e).map fun st => ⟨a, st⟩
  | .loops a e =>
      match e with
      | .recvFrom _ _ | .workerRecv _ => none
      | _ => ((c a).loop.step e).map fun loop => ⟨a, { c a with loop := loop }⟩
  | .arrives src k i => (c src).host.sends[k]?.bind fun s => s.datagrams[i]?.bind fun data =>
      ((c s.dest).loop.step (.recvFrom data src)).map fun loop =>
        ⟨s.dest, { c s.dest with loop := loop }⟩
  | .inject src dest data =>
      ((c dest).loop.step (.recvFrom data src)).map fun loop => ⟨dest, { c dest with loop := loop }⟩
  | .handles a w now accepted => ((c a).handle w now accepted).map fun st => ⟨a, st⟩

def step (c : Stations servers) (e : StationEvent servers) : Option (Stations servers) :=
  (c.changed e).map fun x => Function.update c x.1 x.2

def start (workers : SocketAddr → ℕ) (pools : ∀ a, ServerPool (servers a)) : Stations servers :=
  fun a => .start (workers a) (pools a)

/-- The hosts alone. -/
def hosts (c : Stations servers) : Cluster servers := fun a => (c a).host

end Stations

/-! ## Busy workers -/

namespace Host

variable {sv : Server} {h h' : Host sv}

/-- `handle_datagram` suspends one handler at most. -/
theorem exists_serving_receive (now accepted : ℕ) (peer : SocketAddr) (data : Bytes) :
    ∃ new, (h.receive now accepted peer data).serving = h.serving ++ new ∧ new.length ≤ 1 := by
  unfold receive
  dsimp only
  split
  · exact ⟨[], (List.append_nil _).symm, Nat.zero_le 1⟩
  · unfold dispatch
    split
    · refine ⟨_, @serving_progress _ { h with reassembly := _ } _ _ _ _ _, ?_⟩
      rw [List.length_map]
      exact Progress.length_pending_le _
    · exact ⟨[], (List.append_nil _).symm, Nat.zero_le 1⟩

/-- A handler that is resumed goes to the end of the list, or is over. -/
theorem serve_cases {now fuel i accepted : ℕ}
    (hstep : h.step (.serve now fuel i accepted) = some h') :
    ∃ q r, h.serving[i]? = some q ∧
      sv.protocol.advance now fuel .noResponse h.state q.point = some r ∧
      h'.serving = h.serving.eraseIdx i ++
        r.1.pending.map fun point => ⟨q.peer, q.msgId, q.message, point⟩ := by
  obtain ⟨q, r, hq, -, hr, rfl⟩ := step_serve_eq_some.mp hstep
  exact ⟨q, r, hq, hr, serving_progress⟩

/-- Only an event of a handler changes the handlers. -/
theorem serving_step {e : HostEvent sv} (hstep : h.step e = some h')
    (he : ∀ now fuel i accepted, e ≠ .serve now fuel i accepted) : h'.serving = h.serving := by
  cases e with
  | serve now fuel i accepted => exact absurd rfl (he now fuel i accepted)
  | calls e =>
      cases e with
      | sendFrame c ok => cases hstep
      | receive peer frame => cases hstep
      | _ =>
          simp only [step, Option.map_eq_some_iff] at hstep
          obtain ⟨calls, -, rfl⟩ := hstep
          rfl
  | ask c accepted =>
      simp only [step, Option.bind_eq_some_iff, Option.map_eq_some_iff] at hstep
      obtain ⟨call, -, calls, -, rfl⟩ := hstep
      exact serving_send
  | background e =>
      obtain ⟨n, -, rfl⟩ := live_of_background hstep
      rfl
  | hang i =>
      obtain ⟨point, -, -, -, rfl⟩ := step_hang_eq_some.mp hstep
      rfl
  | server e =>
      cases e with
      | node e => cases hstep
      | _ =>
          simp only [step, Option.map_eq_some_iff] at hstep
          obtain ⟨pool, -, rfl⟩ := hstep
          rfl
  | collect now => cases hstep; rfl
  | member now c => cases hstep; rfl

end Host

namespace Station

variable {sv : Server} {st st' : Station sv} {n : ℕ}

/-- Every suspended handler has a worker of its own. -/
structure Sound (n : ℕ) (st : Station sv) : Prop where
  loop : st.loop.Invariant n
  length_eq : st.busy.length = st.host.serving.length
  nodup : st.busy.Nodup
  range : ∀ w ∈ st.busy, w < n

theorem sound_start (hn : 1 ≤ n) (pool : ServerPool sv) : (start n pool).Sound n :=
  ⟨WorkerPool.invariant_new hn, rfl, List.nodup_nil, by simp [start]⟩

theorem Sound.withLoop (h : st.Sound n) {e : PoolEvent} {loop : WorkerPool}
    (hstep : st.loop.step e = some loop) : Sound n { st with loop := loop } :=
  ⟨h.loop.step hstep, h.length_eq, h.nodup, h.range⟩

theorem Sound.quiet (h : st.Sound n) {host : Host sv} (hserving : host.serving = st.host.serving) :
    Sound n ⟨host, st.loop, st.busy⟩ :=
  ⟨h.loop, h.length_eq.trans (congrArg List.length hserving.symm), h.nodup, h.range⟩

/-- A resumed handler keeps its worker, or sets it free. -/
theorem Sound.serve (h : st.Sound n) {now fuel i accepted : ℕ} {host : Host sv}
    (hstep : st.host.step (.serve now fuel i accepted) = some host) :
    Sound n ⟨host, st.loop, st.busyAfter host (.serve now fuel i accepted)⟩ := by
  obtain ⟨q, r, hq, -, hserving⟩ := Host.serve_cases hstep
  have hi : i < st.host.serving.length := (List.getElem?_eq_some_iff.mp hq).1
  have hbusy : i < st.busy.length := h.length_eq ▸ hi
  have hlen : (st.host.serving.eraseIdx i).length + 1 = st.host.serving.length :=
    List.length_eraseIdx_add_one hi
  have hget : st.busy[i]?.toList = [st.busy[i]] := by simp [hbusy]
  simp only [busyAfter, hget]
  cases hr : r.1 with
  | waits point =>
      have hwaits : host.serving.length = st.host.serving.length := by
        simp [hserving, hr, Progress.pending, hlen]
      have hperm : (st.busy.eraseIdx i ++ [st.busy[i]]).Perm st.busy :=
        List.perm_append_comm.trans (List.getElem_cons_eraseIdx_perm hbusy)
      rw [if_pos hwaits]
      exact ⟨h.loop, hperm.length_eq.trans (h.length_eq.trans hwaits.symm),
        hperm.nodup_iff.mpr h.nodup, fun w hw => h.range w (hperm.mem_iff.mp hw)⟩
  | returns answer =>
      have hover : host.serving.length + 1 = st.host.serving.length := by
        simp [hserving, hr, Progress.pending, hlen]
      have hbusylen : (st.busy.eraseIdx i).length + 1 = st.busy.length :=
        List.length_eraseIdx_add_one hbusy
      have hequal := h.length_eq
      rw [if_neg (by omega), List.append_nil]
      exact ⟨h.loop, by simp only; omega, h.nodup.eraseIdx i,
        fun w hw => h.range w ((List.eraseIdx_sublist st.busy i).subset hw)⟩

/-- An event of the host's own keeps the workers apart. -/
theorem Sound.act (h : st.Sound n) {e : HostEvent sv} (hact : st.act e = some st') :
    st'.Sound n := by
  obtain ⟨host, hstep, rfl⟩ := Option.map_eq_some_iff.mp hact
  cases e with
  | serve now fuel i accepted => exact h.serve hstep
  | _ => exact h.quiet (Host.serving_step hstep (by simp))

/-- What a worker does when it takes a datagram. -/
theorem handle_cases {w now accepted : ℕ} (hhandle : st.handle w now accepted = some st') :
    w ∉ st.busy ∧ ∃ worker d loop, st.loop.workers[w]? = some worker ∧ d ∈ worker.queue ∧
      st.loop.step (.workerRecv w) = some loop ∧
      st' = ⟨st.host.receive now accepted d.peer d.data, loop,
        if st.host.serving.length < (st.host.receive now accepted d.peer d.data).serving.length then
          st.busy ++ [w] else st.busy⟩ := by
  unfold Station.handle at hhandle
  split at hhandle
  · cases hhandle
  · rename_i hfree
    obtain ⟨worker, hworker, hhandle⟩ := Option.bind_eq_some_iff.mp hhandle
    obtain ⟨d, hd, hhandle⟩ := Option.bind_eq_some_iff.mp hhandle
    obtain ⟨loop, hloop, rfl⟩ := Option.map_eq_some_iff.mp hhandle
    exact ⟨hfree, worker, d, loop, hworker, List.mem_of_mem_head? hd, hloop, rfl⟩

/-- A worker that takes a datagram was free, and is busy if the handler is suspended. -/
theorem Sound.handle (h : st.Sound n) {w now accepted : ℕ}
    (hhandle : st.handle w now accepted = some st') : st'.Sound n := by
  obtain ⟨hfree, worker, d, loop, hworker, -, hloop, rfl⟩ := handle_cases hhandle
  have hw : w < n := h.loop.length_eq ▸ (List.getElem?_eq_some_iff.mp hworker).1
  obtain ⟨new, hnew, hle⟩ := Host.exists_serving_receive (h := st.host) now accepted d.peer d.data
  have hlen := congrArg List.length hnew
  rw [List.length_append] at hlen
  by_cases hwaits : st.host.serving.length <
      (st.host.receive now accepted d.peer d.data).serving.length
  · rw [if_pos hwaits]
    refine ⟨h.loop.step hloop, ?_, ?_, ?_⟩
    · rw [List.length_append, List.length_singleton, h.length_eq]
      simp only
      omega
    · rw [List.nodup_append_comm]
      exact List.nodup_cons.mpr ⟨hfree, h.nodup⟩
    · intro v hv
      cases List.mem_append.mp hv with
      | inl hv => exact h.range v hv
      | inr hv => rwa [List.mem_singleton.mp hv]
  · rw [if_neg hwaits]
    exact ⟨h.loop.step hloop, h.length_eq.trans (by simp only; omega), h.nodup, h.range⟩

/-- There are no more suspended handlers than workers. -/
theorem Sound.length_serving_le (h : st.Sound n) : st.host.serving.length ≤ n := by
  have hsub : st.busy ⊆ List.range n := fun w hw => List.mem_range.mpr (h.range w hw)
  have hle := (h.nodup.subperm hsub).length_le
  rwa [List.length_range, h.length_eq] at hle

/-- The channels are bounded, the loop holds one datagram and every busy worker another. -/
theorem Sound.backlog_le (h : st.Sound n) : st.backlog ≤ n * (workerQueueDepth + 1) + 1 := by
  have hflight : st.loop.inFlight.length ≤ 1 := by
    cases hloop : st.loop.inFlight with
    | nil => simp
    | cons d rest => simp [st.loop.tail_inFlight hloop]
  have hqueues : st.loop.queued ≤ n * workerQueueDepth := by
    rw [← h.loop.length_eq, ← smul_eq_mul, ← List.length_map fun w : Worker => w.queue.length]
    refine List.sum_le_card_nsmul _ _ fun k hk => ?_
    obtain ⟨w, hw, rfl⟩ := List.mem_map.mp hk
    exact h.loop.queue_le w hw
  have hserving := h.length_serving_le
  rw [backlog, Nat.mul_succ]
  omega

end Station

/-! ## One event -/

namespace Stations

variable {servers : SocketAddr → Server} {c c' : Stations servers} {e : StationEvent servers}
  {run : List (StationEvent servers)} {workers : SocketAddr → ℕ}
  {pools : ∀ a, ServerPool (servers a)} {a : SocketAddr}

/-- What an event does to the station it changes. -/
inductive StepCase (c : Stations servers) :
    StationEvent servers → ∀ a, Station (servers a) → Prop
  | acts {a : SocketAddr} {e : HostEvent (servers a)} {st : Station (servers a)}
      (hact : (c a).act e = some st) : StepCase c (.acts a e) a st
  | loops {a : SocketAddr} {e : PoolEvent} {loop : WorkerPool}
      (hstep : (c a).loop.step e = some loop) (harrived : loop.arrived = (c a).loop.arrived) :
      StepCase c (.loops a e) a { c a with loop := loop }
  | arrives {src : SocketAddr} {k i : ℕ} {s : Send} {data : Bytes} {loop : WorkerPool}
      (hs : (c src).host.sends[k]? = some s) (hdata : s.datagrams[i]? = some data)
      (hstep : (c s.dest).loop.step (.recvFrom data src) = some loop) :
      StepCase c (.arrives src k i) s.dest { c s.dest with loop := loop }
  | inject {src dest : SocketAddr} {data : Bytes} {loop : WorkerPool}
      (hstep : (c dest).loop.step (.recvFrom data src) = some loop) :
      StepCase c (.inject src dest data) dest { c dest with loop := loop }
  | handles {a : SocketAddr} {w now accepted : ℕ} {st : Station (servers a)}
      (hhandle : (c a).handle w now accepted = some st) :
      StepCase c (.handles a w now accepted) a st

theorem step_cases (hstep : c.step e = some c') :
    ∃ a st, c' = Function.update c a st ∧ StepCase c e a st := by
  obtain ⟨⟨a, st⟩, hchanged, rfl⟩ := Option.map_eq_some_iff.mp hstep
  refine ⟨a, st, rfl, ?_⟩
  cases e with
  | acts b he =>
      obtain ⟨st', hact, heq⟩ := Option.map_eq_some_iff.mp hchanged
      cases heq
      exact .acts hact
  | loops b pe =>
      cases pe with
      | recvFrom data peer => cases hchanged
      | workerRecv w => cases hchanged
      | _ =>
          obtain ⟨loop, hloop, heq⟩ := Option.map_eq_some_iff.mp hchanged
          cases heq
          exact .loops hloop (by simpa [WorkerPool.received] using WorkerPool.arrived_step hloop)
  | arrives src k i =>
      obtain ⟨s, hs, hchanged⟩ := Option.bind_eq_some_iff.mp hchanged
      obtain ⟨data, hdata, hchanged⟩ := Option.bind_eq_some_iff.mp hchanged
      obtain ⟨loop, hloop, heq⟩ := Option.map_eq_some_iff.mp hchanged
      cases heq
      exact .arrives hs hdata hloop
  | inject src dest data =>
      obtain ⟨loop, hloop, heq⟩ := Option.map_eq_some_iff.mp hchanged
      cases heq
      exact .inject hloop
  | handles b w now accepted =>
      obtain ⟨st', hhandle, heq⟩ := Option.map_eq_some_iff.mp hchanged
      cases heq
      exact .handles hhandle

theorem sound_exec (hworkers : ∀ a, 1 ≤ workers a)
    (hrun : exec step (start workers pools) run = some c) (a : SocketAddr) :
    (c a).Sound (workers a) := by
  refine exec_invariant (fun d : Stations servers => ∀ a, (d a).Sound (workers a))
    (fun a => Station.sound_start (hworkers a) (pools a)) ?_ hrun a
  intro d e d' hd hstep a
  obtain ⟨b, st, rfl, hcase⟩ := step_cases hstep
  by_cases hab : a = b
  · subst hab
    rw [Function.update_self]
    cases hcase with
    | acts hact => exact (hd a).act hact
    | loops hloop _ => exact (hd a).withLoop hloop
    | arrives hs hdata hloop => exact (hd _).withLoop hloop
    | inject hloop => exact (hd a).withLoop hloop
    | handles hhandle => exact (hd a).handle hhandle
  · rw [Function.update_of_ne hab]
    exact hd a

/-- **The receive loop pushes back.**  However many datagrams arrive, a host never has more
request handlers in progress than workers, and what it has received and not finished is bounded:
a full channel and one datagram in hand for every worker, and one in the loop. -/
theorem handlers_le_workers (hworkers : ∀ a, 1 ≤ workers a)
    (hrun : exec step (start workers pools) run = some c) (a : SocketAddr) :
    (c a).host.serving.length ≤ workers a ∧
      (c a).backlog ≤ workers a * (workerQueueDepth + 1) + 1 :=
  have hsound := sound_exec hworkers hrun a
  ⟨hsound.length_serving_le, hsound.backlog_le⟩

/-! A node stores a record at one that has a single worker, and its request arrives twice. -/

section

open Cluster Sample

/-- The worker handles the first copy of the request, and the second is in its channel. -/
def storeHeard : List (StationEvent fun _ => sampleServer) :=
  [.acts peerAddr (.calls (.start keeper (.store peerId deviceKey recordA0))),
    .acts peerAddr (.calls (.register 0)), .acts peerAddr (.ask 0 1),
    .arrives peerAddr 0 0, .loops keeper .trySend, .handles keeper 0 1 1,
    .arrives peerAddr 0 0, .loops keeper .trySend]

theorem handlers_le_workers_storeHeard :
    ∃ c, exec step (start (fun _ => 1) emptyPools) storeHeard = some c ∧
      (c keeper).host.serving.length = 1 ∧ (c keeper).backlog = 2 ∧
      (c keeper).host.serving.length ≤ 1 ∧ (c keeper).backlog ≤ 1 * (workerQueueDepth + 1) + 1 := by
  have hend : (exec step (start (fun _ => 1) emptyPools) storeHeard).map (fun c =>
      ((c keeper).host.serving.length, (c keeper).backlog)) = some (1, 2) := by decide +kernel
  obtain ⟨c, hrun, hc⟩ := Option.map_eq_some_iff.mp hend
  obtain ⟨hserving, hbacklog⟩ := Prod.mk.inj hc
  exact ⟨c, hrun, hserving, hbacklog, handlers_le_workers (fun _ => Nat.le_refl 1) hrun keeper⟩

-- The worker does not take the second copy before the handler of the first is over.
example : exec step (start (fun _ => 1) emptyPools) (storeHeard ++ [.handles keeper 0 1 1]) =
    none := by
  decide +kernel

end

/-! ## Where a datagram comes from -/

/-- A host has sent the datagram to `a`, or it comes from outside. -/
inductive Came (run : List (StationEvent servers)) (c : Stations servers) (a : SocketAddr)
    (p : Bytes × SocketAddr) : Prop
  | sent {k i : ℕ} {s : Send} (hs : (c p.2).host.sends[k]? = some s) (hdest : s.dest = a)
      (hdata : s.datagrams[i]? = some p.1)
  | injected (hmem : .inject p.2 a p.1 ∈ run)

/-- The frames a host has sent stay where they are. -/
theorem sends_isPrefix_step (hstep : c.step e = some c') (a : SocketAddr) :
    (c a).host.sends <+: (c' a).host.sends := by
  obtain ⟨b, st, rfl, hcase⟩ := step_cases hstep
  by_cases hab : a = b
  · subst hab
    rw [Function.update_self]
    cases hcase with
    | acts hact =>
        obtain ⟨host, hhost, rfl⟩ := Option.map_eq_some_iff.mp hact
        exact Host.sends_isPrefix_change (Host.change_of_step hhost)
    | handles hhandle =>
        obtain ⟨-, worker, d, loop, -, -, -, rfl⟩ := Station.handle_cases hhandle
        exact Host.sends_isPrefix_receive _ _ _ _
    | _ => exact List.prefix_rfl
  · rw [Function.update_of_ne hab]

theorem Came.step {p : Bytes × SocketAddr} (h : Came run c a p) (hstep : c.step e = some c') :
    Came run c' a p := by
  cases h with
  | @sent k i s hs hdest hdata =>
      obtain ⟨rest, hrest⟩ := sends_isPrefix_step hstep p.2
      refine .sent (k := k) ?_ hdest hdata
      rw [← hrest, List.getElem?_append_left (List.getElem?_eq_some_iff.mp hs).1, hs]
  | injected hmem => exact .injected hmem

theorem Came.mono {p : Bytes × SocketAddr} {run' : List (StationEvent servers)}
    (h : Came run c a p) (hsub : run ⊆ run') : Came run' c a p := by
  cases h with
  | sent hs hdest hdata => exact .sent hs hdest hdata
  | injected hmem => exact .injected (hsub hmem)

theorem mem_arrived_recvFrom {loop loop' : WorkerPool} {data : Bytes} {peer : SocketAddr}
    {p : Bytes × SocketAddr} (hstep : loop.step (.recvFrom data peer) = some loop')
    (hp : p ∈ loop'.arrived) : p ∈ loop.arrived ∨ p = (data, peer) := by
  rw [WorkerPool.arrived_step hstep, List.mem_append] at hp
  exact hp.imp_right fun hp => by simpa [WorkerPool.received] using hp

/-- What an event adds to the datagrams that arrived, came. -/
theorem mem_arrived_step {p : Bytes × SocketAddr} (hstep : c.step e = some c')
    (hp : p ∈ (c' a).loop.arrived) : p ∈ (c a).loop.arrived ∨ Came [e] c a p := by
  obtain ⟨b, st, rfl, hcase⟩ := step_cases hstep
  by_cases hab : a = b
  · subst hab
    rw [Function.update_self] at hp
    cases hcase with
    | acts hact =>
        obtain ⟨host, -, rfl⟩ := Option.map_eq_some_iff.mp hact
        exact .inl hp
    | loops _ harrived => exact .inl (harrived ▸ hp)
    | arrives hs hdata hloop =>
        obtain hp | rfl := mem_arrived_recvFrom hloop hp
        · exact .inl hp
        · exact .inr (.sent hs rfl hdata)
    | inject hloop =>
        obtain hp | rfl := mem_arrived_recvFrom hloop hp
        · exact .inl hp
        · exact .inr (.injected (by simp))
    | handles hhandle =>
        obtain ⟨-, worker, d, loop, -, -, hloop, rfl⟩ := Station.handle_cases hhandle
        rw [WorkerPool.arrived_step hloop] at hp
        exact .inl (by simpa [WorkerPool.received] using hp)
  · rw [Function.update_of_ne hab] at hp
    exact .inl hp

/-- **Nothing comes out of nowhere**: what `recv_from` has returned was sent or injected. -/
theorem came_exec {p : Bytes × SocketAddr} (hrun : exec step (start workers pools) run = some c)
    (hp : p ∈ (c a).loop.arrived) : Came run c a p := by
  refine exec_history (fun (run : List (StationEvent servers)) (c : Stations servers) =>
    ∀ a, ∀ p ∈ (c a).loop.arrived, Came run c a p) ?_ ?_ hrun a p hp
  · intro a p hp
    simp [start, Station.start, WorkerPool.new] at hp
  · intro run c e c' _ hcame hstep a p hp
    obtain hp | hnew := mem_arrived_step hstep hp
    · exact ((hcame a p hp).step hstep).mono (List.subset_append_left run [e])
    · exact (hnew.step hstep).mono (List.subset_append_right run [e])

/-! ## The cluster that a run of stations shows -/

/-- What an event of a run of stations is in the cluster: an event of a host's own is the same,
a datagram arrives when a worker takes it, and the receive loops are not seen. -/
inductive Shows (run : List (StationEvent servers)) :
    StationEvent servers → List (ClusterEvent servers) → Prop
  | acts (a : SocketAddr) (e : HostEvent (servers a)) : Shows run (.acts a e) [.acts a e]
  | loops (a : SocketAddr) (e : PoolEvent) : Shows run (.loops a e) []
  | arrives (src : SocketAddr) (k i : ℕ) : Shows run (.arrives src k i) []
  | inject (src dest : SocketAddr) (data : Bytes) : Shows run (.inject src dest data) []
  | delivered (a src : SocketAddr) (w k i now accepted : ℕ) :
      Shows run (.handles a w now accepted) [.deliver src k i now accepted]
  | injected {a src : SocketAddr} {data : Bytes} (hmem : .inject src a data ∈ run)
      (w now accepted : ℕ) :
      Shows run (.handles a w now accepted) [.inject src a data now accepted]

/-- Nobody is an outsider in the cluster who is none here. -/
theorem inject_mem_of_shows {es : List (StationEvent servers)}
    {shown : List (List (ClusterEvent servers))} (hshown : List.Forall₂ (Shows run) es shown)
    {x : SocketAddr} (hout : Cluster.Outsider shown.flatten x) :
    ∃ dest data, .inject x dest data ∈ run := by
  obtain ⟨dest, data, now, accepted, hmem⟩ := hout
  induction hshown with
  | nil => simp at hmem
  | cons hshows _ ih =>
      rw [List.flatten_cons, List.mem_append] at hmem
      obtain hmem | hmem := hmem
      · cases hshows with
        | injected hinject =>
            cases List.mem_singleton.mp hmem
            exact ⟨dest, data, hinject⟩
        | _ => simp at hmem
      · exact ih hmem

theorem hosts_update (c : Stations servers) (a : SocketAddr) (st : Station (servers a)) :
    hosts (Function.update c a st) = Function.update c.hosts a st.host := by
  funext b
  by_cases hba : b = a
  · subst hba
    simp [hosts]
  · simp [hosts, hba]

/-- An event that leaves the host alone shows nothing. -/
theorem hosts_update_loop (c : Stations servers) (a : SocketAddr) (loop : WorkerPool) :
    hosts (Function.update c a { c a with loop := loop }) = c.hosts := by
  rw [hosts_update]
  exact Function.update_eq_self a c.hosts

/-- A datagram that came can arrive in the cluster. -/
theorem Came.exists_shows {peer : SocketAddr} {data : Bytes} (h : Came run c a (data, peer))
    (w now accepted : ℕ) : ∃ ds, Shows run (.handles a w now accepted) ds ∧
      exec Cluster.step c.hosts ds =
        some (Function.update c.hosts a ((c a).host.receive now accepted peer data)) := by
  cases h with
  | @sent k i s hs hdest hdata =>
      subst hdest
      refine ⟨_, .delivered s.dest peer w k i now accepted, ?_⟩
      simp only [exec, Cluster.step, Cluster.changed, hosts]
      rw [hs]
      simp [hdata]
  | injected hmem => exact ⟨_, .injected hmem w now accepted, rfl⟩

/-- A datagram in a channel has arrived. -/
theorem mem_arrived_of_mem_queue {n w : ℕ} {loop : WorkerPool} {worker : Worker} {d : Datagram}
    (h : loop.Invariant n) (hworker : loop.workers[w]? = some worker) (hd : d ∈ worker.queue) :
    (d.data, d.peer) ∈ loop.arrived := by
  obtain ⟨settled, hperm, harrived, -⟩ := h.conserved
  have hhistory : d ∈ loop.histories :=
    List.mem_flatMap.mpr ⟨worker, List.mem_of_getElem? hworker, List.mem_append_right _ hd⟩
  obtain ⟨k, hk, rfl⟩ := List.mem_mapIdx.mp (hperm.mem_iff.mp hhistory)
  rw [harrived]
  exact List.mem_append_left _ (List.getElem_mem hk)

/-- The simulation: by induction on the run, event by event. -/
theorem exists_shown (hworkers : ∀ a, 1 ≤ workers a)
    (hrun : exec step (start workers pools) run = some c) :
    ∃ shown, List.Forall₂ (Shows run) run shown ∧
      exec Cluster.step (Cluster.start pools) shown.flatten = some c.hosts := by
  refine @exec_shown _ _ _ _ step Cluster.step _ _ hosts (Shows run) ?_ _ hrun
  intro pre e post d d' hsplit hpre hstep
  obtain ⟨a, st, rfl, hcase⟩ := step_cases hstep
  cases hcase with
  | @acts a he st hact =>
      obtain ⟨host, hhost, rfl⟩ := Option.map_eq_some_iff.mp hact
      refine ⟨_, .acts a he, ?_⟩
      rw [hosts_update]
      simp [exec, Cluster.step, Cluster.changed, hosts, hhost]
  | loops _ _ => exact ⟨_, .loops _ _, by rw [hosts_update_loop]; rfl⟩
  | arrives _ _ _ => exact ⟨_, .arrives _ _ _, by rw [hosts_update_loop]; rfl⟩
  | inject _ => exact ⟨_, .inject _ _ _, by rw [hosts_update_loop]; rfl⟩
  | @handles a w now accepted st hhandle =>
      obtain ⟨-, worker, dg, loop, hworker, hqueue, -, rfl⟩ := Station.handle_cases hhandle
      have harrived := mem_arrived_of_mem_queue (sound_exec hworkers hpre a).loop hworker hqueue
      have hcame : Came run d a (dg.data, dg.peer) :=
        (came_exec hpre harrived).mono (by simp [hsplit])
      rw [hosts_update]
      exact hcame.exists_shows w now accepted

/-- **The receive loops and the workers are invisible.**  Every run of stations is a run of the
cluster of their hosts, event by event, in which nobody injects datagrams who does not here. -/
theorem workers_invisible (hworkers : ∀ a, 1 ≤ workers a)
    (hrun : exec step (start workers pools) run = some c) :
    ∃ shown, List.Forall₂ (Shows run) run shown ∧
      exec Cluster.step (Cluster.start pools) shown.flatten = some c.hosts ∧
      ∀ x, Cluster.Outsider shown.flatten x → ∃ dest data, .inject x dest data ∈ run := by
  obtain ⟨shown, hshown, hexec⟩ := exists_shown hworkers hrun
  exact ⟨shown, hshown, hexec, fun x hout => inject_mem_of_shows hshown hout⟩

section

open Cluster Sample

/-- The worker finishes the first copy and answers, then it handles the second. -/
def storeHeardTwice : List (StationEvent fun _ => sampleServer) :=
  storeHeard ++ [.acts keeper (.serve 2 1 0 1), .handles keeper 0 3 1,
    .acts keeper (.serve 4 1 0 1), .arrives keeper 0 0, .loops peerAddr .trySend,
    .handles peerAddr 0 5 1, .acts peerAddr (.calls (.poll 0 false))]

theorem workers_invisible_storeHeardTwice :
    ∃ c, exec step (start (fun _ => 1) emptyPools) storeHeardTwice = some c ∧
      (c keeper).host.sends.map (fun s => s.frame) =
        [⟨0, false, .storeResult true⟩, ⟨0, false, .storeResult false⟩] ∧
      ∃ shown, List.Forall₂ (Shows storeHeardTwice) storeHeardTwice shown ∧
        exec Cluster.step (Cluster.start emptyPools) shown.flatten = some c.hosts ∧
        ∀ x, Outsider shown.flatten x → ∃ dest data, .inject x dest data ∈ storeHeardTwice := by
  have hend : (exec step (start (fun _ => 1) emptyPools) storeHeardTwice).map (fun c =>
      (c keeper).host.sends.map fun s => s.frame) =
        some [⟨0, false, .storeResult true⟩, ⟨0, false, .storeResult false⟩] := by decide +kernel
  obtain ⟨c, hrun, hc⟩ := Option.map_eq_some_iff.mp hend
  exact ⟨c, hrun, hc, workers_invisible (fun _ => Nat.le_refl 1) hrun⟩

end

end Stations

end AuthKademlia
