import AuthKademlia.Correlation

/-!
# A host is an interleaved node

`LiveNode` interleaves the futures of one node and knows nothing about datagrams, message
ids and responses.  A host adds all of these, and keeps the futures that owe an answer apart
from those that do not.  Still it does nothing a `LiveNode` could not do
(`host_refines_live`): what holds of every interleaving of futures holds of every host in
every cluster, for as long as there are no local calls.

The events of a host that move neither a handler nor a task are stutters, and a frame that is
dispatched is an event of the node.

## Main definitions

* `Host.Simulates` — a host and an interleaved node with the same state and futures.
* `Cluster.Explained` — the events of the node are frames that were dispatched.
-/

namespace AuthKademlia

open Lib Protocol

theorem exists_eraseIdx_perm {α : Type} {l rest : List α} {a : α} (h : l.Perm (a :: rest)) :
    ∃ j : ℕ, l[j]? = some a ∧ (l.eraseIdx j).Perm rest := by
  obtain ⟨j, hj⟩ := List.getElem?_of_mem (h.mem_iff.mpr List.mem_cons_self)
  obtain ⟨hlt, rfl⟩ := List.getElem?_eq_some_iff.mp hj
  exact ⟨j, hj, ((List.getElem_cons_eraseIdx_perm hlt).trans h).cons_inv⟩

/-- Nothing comes from outside. -/
def LiveEvent.Internal : LiveEvent → Prop
  | .start _ | .resume _ _ _ _ | .cacheDrop _ => True
  | _ => False

/-- The event is one of a local call. -/
def HostEvent.isLocal {sv : Server} : HostEvent sv → Bool
  | .server _ | .member _ _ => true
  | _ => false

namespace Host

variable {sv : Server} {h h' : Host sv} {n : LiveNode}

/-- The same state, and the same futures in some order. -/
structure Simulates (h : Host sv) (n : LiveNode) : Prop where
  state : n.state = h.state
  points : n.points.Perm h.points

theorem Simulates.of_eq (hsim : h.Simulates n) (hstate : h'.state = h.state)
    (hserving : h'.serving = h.serving) (htasks : h'.tasks = h.tasks) : h'.Simulates n where
  state := hsim.state.trans hstate.symm
  points := by
    rw [Host.points, hserving, htasks]
    exact hsim.points

/-- A handler has done a segment. -/
theorem Simulates.progress {points : List Point} {r : Progress × NodeState}
    (hpoints : points.Perm h.points) (peer : SocketAddr) (msgId : UInt32) (message : RpcMessage)
    (accepted : ℕ) : (h.progress peer msgId message accepted r).Simulates (.join points r) := by
  refine ⟨by simp [LiveNode.join], ?_⟩
  unfold LiveNode.join Host.progress
  split
  · rename_i point hwaits
    simp only [hwaits, Progress.pending, Host.points, List.map_append, List.map_singleton]
    exact (hpoints.append_right [point]).trans
      (by simpa [Host.points] using (List.perm_append_singleton point h.tasks).append_left _)
  · rename_i hreturns
    simpa [hreturns, Progress.pending, Host.points] using hpoints
  · rename_i answer hreturns
    simpa [hreturns, Progress.pending, Host.points] using hpoints

/-- A handler of the host is a future of the node. -/
theorem Simulates.serve {q : Serving} {i now fuel : ℕ} {r : Progress × NodeState}
    (hsim : h.Simulates n) (hq : h.serving[i]? = some q)
    (hadvance : sv.protocol.advance now fuel .noResponse h.state q.point = some r) (accepted : ℕ) :
    ∃ e n', sv.protocol.liveStep n e = some n' ∧ e.Internal ∧
      (Host.progress q.peer q.msgId q.message accepted r
        { h with serving := h.serving.eraseIdx i }).Simulates n' := by
  have hperm : h.points.Perm (q.point :: { h with serving := h.serving.eraseIdx i }.points) := by
    obtain ⟨hlt, rfl⟩ := List.getElem?_eq_some_iff.mp hq
    exact ((List.getElem_cons_eraseIdx_perm hlt).map Serving.point).symm.append_right h.tasks
  obtain ⟨j, hj, hrest⟩ := exists_eraseIdx_perm (hsim.points.trans hperm)
  refine ⟨.resume now fuel j .noResponse, .join (n.points.eraseIdx j) r, ?_, trivial,
    Simulates.progress hrest _ _ _ _⟩
  simp [liveStep, hj, hsim.state, hadvance]

/-- A background task of the host is a future of the node. -/
theorem Simulates.background {e : LiveEvent} (hsim : h.Simulates n)
    (hstep : h.step (.background e) = some h') :
    ∃ e' n', sv.protocol.liveStep n e' = some n' ∧ e'.Internal ∧ h'.Simulates n' := by
  obtain ⟨m, hlive, rfl⟩ := live_of_background hstep
  cases e with
  | request now msg peer => cases hstep
  | response msg peer => cases hstep
  | crawled peer answered => cases hstep
  | start i =>
      simp only [liveStep] at hlive
      split at hlive
      · rename_i hnone
        cases hlive
        exact ⟨.start i, n, by simp [liveStep, hsim.state, hnone], trivial, hsim.of_eq rfl rfl rfl⟩
      · rename_i task htask
        cases hlive
        refine ⟨.start i, .join n.points (startTask task,
          { h.state with tasks := h.state.tasks.eraseIdx i }), ?_, trivial, rfl, ?_⟩
        · simp [liveStep, hsim.state, htask]
        · simpa [Host.points, LiveNode.join] using hsim.points.append_right (startTask task).pending
  | resume now fuel i result =>
      simp only [liveStep] at hlive
      split at hlive
      · cases hlive
        exact ⟨.resume now fuel n.points.length result, n, by simp [liveStep], trivial,
          hsim.of_eq rfl rfl rfl⟩
      · rename_i point hpoint
        obtain ⟨r, hr, rfl⟩ := Option.map_eq_some_iff.mp hlive
        have hperm : h.points.Perm (point :: { h with tasks := h.tasks.eraseIdx i }.points) := by
          obtain ⟨hlt, rfl⟩ := List.getElem?_eq_some_iff.mp hpoint
          exact ((List.getElem_cons_eraseIdx_perm hlt).symm.append_left _).trans List.perm_middle
        obtain ⟨j, hj, hrest⟩ := exists_eraseIdx_perm (hsim.points.trans hperm)
        refine ⟨.resume now fuel j result, .join (n.points.eraseIdx j) r, ?_, trivial, rfl, ?_⟩
        · simp [liveStep, hj, hsim.state, hr]
        · simpa [Host.points, LiveNode.join] using hrest.append_right r.1.pending
  | cacheDrop key =>
      cases hlive
      refine ⟨.cacheDrop key, _, rfl, trivial, ?_, hsim.points⟩
      rw [hsim.state]
      rfl

/-- An event of the host's own that is no local call. -/
theorem Simulates.step {e : HostEvent sv} (hsim : h.Simulates n) (hlocal : e.isLocal = false)
    (hstep : h.step e = some h') :
    h'.Simulates n ∨
      ∃ e' n', sv.protocol.liveStep n e' = some n' ∧ e'.Internal ∧ h'.Simulates n' := by
  cases e with
  | background e => exact .inr (hsim.background hstep)
  | server e => cases hlocal
  | member now c => cases hlocal
  | serve now fuel i accepted =>
      obtain ⟨q, r, hq, -, hr, rfl⟩ := step_serve_eq_some.mp hstep
      exact .inr (hsim.serve hq hr accepted)
  | hang i =>
      obtain ⟨point, -, -, -, rfl⟩ := step_hang_eq_some.mp hstep
      exact .inl (hsim.of_eq rfl rfl rfl)
  | ask c accepted =>
      obtain ⟨call, -, hstep⟩ := Option.bind_eq_some_iff.mp hstep
      obtain ⟨calls, -, rfl⟩ := Option.map_eq_some_iff.mp hstep
      exact .inl (hsim.of_eq state_send serving_send tasks_send)
  | collect now =>
      cases hstep
      exact .inl (hsim.of_eq rfl rfl rfl)
  | calls e =>
      cases e with
      | sendFrame c ok => cases hstep
      | receive peer frame => cases hstep
      | _ =>
          simp only [Host.step, Option.map_eq_some_iff] at hstep
          obtain ⟨calls, -, rfl⟩ := hstep
          exact .inl (hsim.of_eq rfl rfl rfl)

/-- The event of the node that a frame from `peer` is. -/
def arrival (now : ℕ) (peer : SocketAddr) (frame : Frame) : LiveEvent :=
  if frame.isRequest then .request now frame.message peer else .response frame.message peer

/-- A datagram arrives. -/
theorem Simulates.receive {now accepted : ℕ} {peer : SocketAddr} {data : Bytes}
    (hsim : h.Simulates n) :
    (h.receive now accepted peer data).Simulates n ∨
      ∃ frame n', (receiveFrame sv.wire now h.reassembly peer data).1 = some frame ∧
        sv.protocol.liveStep n (arrival now peer frame) = some n' ∧
        (h.receive now accepted peer data).Simulates n' := by
  unfold Host.receive
  dsimp only
  split
  · exact .inl (hsim.of_eq rfl rfl rfl)
  · rename_i frame hframe
    unfold Host.dispatch arrival
    split
    · refine .inr ⟨frame, .join n.points (sv.protocol.beginRequest now frame.message peer h.state),
        hframe, ?_, Simulates.progress
          (h := { h with reassembly := (receiveFrame sv.wire now h.reassembly peer data).2 })
          hsim.points _ _ _ _⟩
      simp [*, liveStep, hsim.state]
    · refine .inr ⟨frame, ⟨receiveResponse frame.message peer h.state, n.points⟩, hframe, ?_,
        rfl, hsim.points⟩
      simp [*, liveStep, hsim.state]

end Host

namespace Cluster

variable {servers : SocketAddr → Server} {pools : ∀ a, ServerPool (servers a)}
  {c : Cluster servers} {run : List (ClusterEvent servers)} {b : SocketAddr}

/-- The event of the node is its own, or a frame that was dispatched at `b`. -/
def Explained (pools : ∀ a, ServerPool (servers a)) (run : List (ClusterEvent servers))
    (b : SocketAddr) (e : LiveEvent) : Prop :=
  e.Internal ∨ ∃ now peer frame, Dispatched pools run b peer frame ∧ e = Host.arrival now peer frame

theorem Explained.append {e : LiveEvent} (h : Explained pools run b e)
    (rest : List (ClusterEvent servers)) : Explained pools (run ++ rest) b e := by
  obtain h | ⟨now, peer, frame, hdispatched, rfl⟩ := h
  · exact .inl h
  · exact .inr ⟨now, peer, frame, hdispatched.append rest, rfl⟩

/-- **A host is an interleaved node.**  Whatever a host without local calls goes through in a
cluster, its state and its suspended futures are those of a run of `liveStep` in which
nothing comes from outside but the frames that were dispatched at the host. -/
theorem host_refines_live (hrun : exec step (start pools) run = some c)
    (hlocal : ∀ he, .acts b he ∈ run → he.isLocal = false) :
    ∃ es n, exec (servers b).protocol.liveStep ⟨(pools b).shared.node, []⟩ es = some n ∧
      (c b).Simulates n ∧ ∀ e ∈ es, Explained pools run b e := by
  refine exec_along (fun pre d => ∃ es n,
    exec (servers b).protocol.liveStep ⟨(pools b).shared.node, []⟩ es = some n ∧
      (d b).Simulates n ∧ ∀ e ∈ es, Explained pools pre b e) ?_ ?_ hrun
  · exact ⟨[], _, rfl, ⟨rfl, .refl _⟩, by simp⟩
  · rintro pre e post d d' rfl hpre ⟨es, n, hes, hsim, hexplained⟩ hstep
    have hold : ∀ e' ∈ es, Explained pools (pre ++ [e]) b e' :=
      fun e' he' => (hexplained e' he').append [e]
    -- one more event of the node, or none
    have hnext : ∀ {h' : Host (servers b)} {e' : LiveEvent} {n' : LiveNode},
        (servers b).protocol.liveStep n e' = some n' → Explained pools (pre ++ [e]) b e' →
        h'.Simulates n' → ∃ es n,
          exec (servers b).protocol.liveStep ⟨(pools b).shared.node, []⟩ es = some n ∧
            h'.Simulates n ∧ ∀ e' ∈ es, Explained pools (pre ++ [e]) b e' := by
      intro h' e' n' hlive he' hsim'
      refine ⟨es ++ [e'], n', by rw [exec_concat, hes]; exact hlive, hsim', ?_⟩
      intro e'' hmem
      obtain hmem | hmem := List.mem_append.mp hmem
      · exact hold e'' hmem
      · rwa [List.mem_singleton.mp hmem]
    obtain ⟨a, h', rfl, hcases⟩ := step_cases hstep
    by_cases hab : b = a
    · subst hab
      rw [Function.update_self]
      obtain ⟨he, rfl, hact⟩ | ⟨src, data, now, accepted, harrives, rfl⟩ := hcases
      · obtain hsame | ⟨e', n', hlive, hinternal, hsim'⟩ := hsim.step (hlocal he (by simp)) hact
        · exact ⟨es, n, hes, hsame, hold⟩
        · exact hnext hlive (.inl hinternal) hsim'
      · obtain hsame | ⟨frame, n', hframe, hlive, hsim'⟩ := @Host.Simulates.receive _ _ _ now
          accepted src data hsim
        · exact ⟨es, n, hes, hsame, hold⟩
        · refine hnext hlive (.inr ⟨now, src, frame, ?_, rfl⟩) hsim'
          exact ⟨pre, e, [], d, rfl, hpre, data, now, accepted, harrives, hframe⟩
    · rw [Function.update_of_ne hab]
      exact ⟨es, n, hes, hsim, hold⟩

theorem host_refines_live_storeAnswered :
    ∃ c, exec step (start emptyPools) storeAnswered = some c ∧
      ∃ es n, exec Sample.sampleProtocol.liveStep ⟨(emptyPools keeper).shared.node, []⟩ es =
          some n ∧
        (c keeper).Simulates n ∧ ∀ e ∈ es, Explained emptyPools storeAnswered keeper e := by
  have hend : (exec step (start emptyPools) storeAnswered).isSome = true := by decide +kernel
  obtain ⟨c, hrun⟩ := Option.isSome_iff_exists.mp hend
  refine ⟨c, hrun, host_refines_live hrun fun he hmem => ?_⟩
  simp [storeAnswered, storeAsked] at hmem
  rcases hmem with ⟨-, rfl⟩ | ⟨-, rfl⟩ | ⟨-, rfl⟩ | rfl | ⟨-, rfl⟩ <;> rfl

end Cluster

end AuthKademlia
