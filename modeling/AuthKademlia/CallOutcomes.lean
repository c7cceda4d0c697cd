import AuthKademlia.Correlation

/-!
# The kind of a response

Can a response be of the wrong kind?  Not if all addresses are trusted and write what the
others read (`response_in_kind`): then the branches of the `call_…` methods for a strange response
are never taken, a bootstrap learns the true ids of the nodes it pings, and a `Leave` never gets a
response at all.

## Main definitions

* `RpcMessage.expects` — the responses a caller takes for an answer.
-/

namespace AuthKademlia

open Lib Protocol

/-- The response is one that the caller of the request takes for an answer. -/
def RpcMessage.expects : RpcMessage → RpcMessage → Bool
  | .ping _, .pong _ => true
  | .store .., .storeResult _ => true
  | .update .., .updateResult _ => true
  | .updateStatusList .., .updateStatusListResult _ => true
  | .delete .., .deleteResult _ => true
  | .findNode .., .findNodeResult _ => true
  | .findValue .., .findValueNodes _ => true
  | .findValue .., .findValueHit _ => true
  | _, _ => false

theorem Truthful.expects {p : Protocol} {peer : SocketAddr} {now : ℕ} {s s' : NodeState}
    {request m : RpcMessage} (h : Truthful p peer now s s' request m) :
    request.expects m = true := by
  cases h <;> rfl

/-- The node that a bootstrap makes of a truthful pong. -/
theorem Truthful.bootstrapNode {p : Protocol} {peer : SocketAddr} {now : ℕ} {s s' : NodeState}
    {i : NodeId} {m : RpcMessage} (h : Truthful p peer now s s' (.ping i) m)
    (addr : String × UInt16) :
    bootstrapNode addr (.response m) = some ⟨p.sourceNode.id, some addr.1, some addr.2⟩ := by
  cases h
  simp [AuthKademlia.bootstrapNode, callPingAddr, p.sourceNode.id.length_eq]

namespace Host

variable {sv : Server} {h h' : Host sv}

theorem length_sends_send (dest : SocketAddr) (frame : Frame) (accepted : ℕ) :
    (h.send dest frame accepted).2.sends.length ≤ h.sends.length + 1 := by
  obtain heq | ⟨_, heq, -⟩ := send_cases h dest frame accepted <;> simp [heq]

theorem length_sends_progress (peer : SocketAddr) (msgId : UInt32) (message : RpcMessage)
    (accepted : ℕ) (r : Progress × NodeState) :
    (h.progress peer msgId message accepted r).sends.length ≤ h.sends.length + 1 := by
  obtain heq | ⟨_, _, -, heq⟩ := sends_progress_cases h peer msgId message accepted r <;> simp [heq]

theorem length_sends_change {e : HostEvent sv} (hchange : h.Change e h') :
    h'.sends.length ≤ h.sends.length + 1 := by
  cases hchange with
  | internal hcalls hmap tasks pool hung => exact Nat.le_succ _
  | asks accepted hc hstep => exact length_sends_send _ _ _
  | serves now fuel i accepted hq hadvance =>
      exact length_sends_progress (h := { h with serving := h.serving.eraseIdx i }) _ _ _ _ _

theorem length_sends_receive (now accepted : ℕ) (peer : SocketAddr) (data : Bytes) :
    (h.receive now accepted peer data).sends.length ≤ h.sends.length + 1 := by
  unfold receive
  dsimp only
  split
  · exact Nat.le_succ _
  · unfold dispatch
    split
    · exact length_sends_progress (h := { h with reassembly := _ }) _ _ _ _ _
    · exact Nat.le_succ _

end Host

namespace Cluster

variable {servers : SocketAddr → Server} {pools : ∀ a, ServerPool (servers a)}
  {c : Cluster servers} {run : List (ClusterEvent servers)} {a b : SocketAddr}

/-- **A response is of the kind the caller expects**, as long as all addresses are trusted:
no caller takes the branch for a strange response.  So a `Leave` is never answered, and a
bootstrap that pings an address gets the id of the node there. -/
theorem response_in_kind (hformat : SharedFormat servers)
    (hrun : exec step (start pools) run = some c) {n : ℕ} {call : Call} {m : RpcMessage}
    (hn : (c a).calls.calls[n]? = some call) (hreturned : call.phase = .returned (some m))
    (htrusted : ∀ peer, Trusted run c peer) (hcalls : (c a).calls.calls.length ≤ 2 ^ 32) :
    call.frame.message.expects m = true ∧ (∀ i, call.frame.message ≠ .leave i) ∧
      ∀ i addr, call.frame.message = .ping i → bootstrapNode addr (.response m) =
        some ⟨(servers call.addr).protocol.sourceNode.id, some addr.1, some addr.2⟩ := by
  obtain ⟨peer, hdispatched⟩ := dispatched_of_returned hrun hn hreturned
  obtain ⟨pre, e, post, d, d', now, n', call', -, -, -, -, hn', hid, rfl, hanswers⟩ :=
    hdispatched.exists_call hformat (htrusted peer) (htrusted a) hrun
  obtain ⟨rfl, rfl⟩ := call_of_msgId (wellFormed_exec hrun a) hcalls hn hn' hid.symm
  have htruthful := hanswers.truthful
  have hexpects := htruthful.expects
  refine ⟨hexpects, ?_, ?_⟩
  · intro i hleave
    rw [hleave] at hexpects
    cases m <;> cases hexpects
  · intro i addr hping
    rw [hping] at htruthful
    exact htruthful.bootstrapNode addr

/-- An event sends at most one frame. -/
theorem length_sends_le (hrun : exec step (start pools) run = some c) (a : SocketAddr) :
    (c a).sends.length ≤ run.length := by
  refine exec_history (fun pre d => (d a).sends.length ≤ pre.length) (by simp [start, Host.start])
    ?_ hrun
  intro pre d e d' hpre hlen hstep
  obtain ⟨b, h', rfl, hcases⟩ := step_cases hstep
  rw [List.length_append, List.length_singleton]
  by_cases hab : a = b
  · subst hab
    rw [Function.update_self]
    obtain ⟨he, -, hact⟩ | ⟨src, data, now, accepted, -, rfl⟩ := hcases
    · exact (Host.length_sends_change (Host.change_of_step hact)).trans (by omega)
    · exact (Host.length_sends_receive now accepted src data).trans (by omega)
  · rw [Function.update_of_ne hab]
    omega

/-! A node pings another one to join. -/

open Sample

def joinAnswered : List (ClusterEvent fun _ => sampleServer) :=
  [.acts peerAddr (.calls (.start keeper (.ping peerId))), .acts peerAddr (.calls (.register 0)),
    .acts peerAddr (.ask 0 1), .deliver peerAddr 0 0 1 1, .deliver keeper 0 0 2 1,
    .acts peerAddr (.calls (.poll 0 false))]

def joinCall : Call :=
  ⟨keeper, ⟨0, true, .ping peerId⟩, .sent (.pong sampleServer.protocol.sourceNode.id),
    .returned (some (.pong sampleServer.protocol.sourceNode.id))⟩

theorem response_in_kind_joinAnswered :
    ∃ c, exec step (start emptyPools) joinAnswered = some c ∧
      (c peerAddr).calls.calls[0]? = some joinCall ∧
      ∀ addr, bootstrapNode addr (.response (.pong sampleServer.protocol.sourceNode.id)) =
        some ⟨sampleServer.protocol.sourceNode.id, some addr.1, some addr.2⟩ := by
  have hend : (exec step (start emptyPools) joinAnswered).map (fun c =>
      (c peerAddr).calls.calls) = some [joinCall] := by decide +kernel
  obtain ⟨c, hrun, hcalls⟩ := Option.map_eq_some_iff.mp hend
  have hn : (c peerAddr).calls.calls[0]? = some joinCall := by rw [hcalls]; rfl
  have htrusted : ∀ peer, Trusted joinAnswered c peer := by
    intro peer
    refine ⟨?_, (length_sends_le hrun peer).trans (by decide)⟩
    rintro ⟨dest, data, now, accepted, hmem⟩
    simp [joinAnswered] at hmem
  have hkind := response_in_kind sharedFormat_bincode hrun hn rfl htrusted
    (by rw [hcalls]; decide)
  exact ⟨c, hrun, hn, fun addr => hkind.2.2 peerId addr rfl⟩

end Cluster

end AuthKademlia
