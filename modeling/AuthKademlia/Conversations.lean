import AuthKademlia.CallOutcomes

/-!
# Calls can be answered

Whatever has happened in a cluster so far, its events can go on such that a call to another
host returns what the handler of that host answers: no buffer, no pending call and no
suspended handler that has been left behind is in the way.  So a host can have a whole
conversation with another one, and it goes as if the other host handled the requests one after
the other (`conversation_can_complete`).  What is proved of a node that handles requests
sequentially is then true of a node in a cluster, for the conversations that can be had with it.

## Main definitions

* `Converses` — requests handled one after the other, with their answers.
* `Cluster.deliverAll` — a frame arrives in order, as fast as possible.
* `Cluster.Exchanged` — a call was made and answered.
-/

namespace AuthKademlia

open Lib Protocol

/-- Every frame with the message is written, in no more than the whole chunks that fit
`MAX_MESSAGE_SIZE`. -/
def RpcMessage.Fits (wire : WireLib) (m : RpcMessage) : Prop :=
  ∀ msgId isRequest, ∃ payload, wire.serialize ⟨msgId, isRequest, m⟩ = some payload ∧ Whole payload

namespace CallTable

end CallTable

namespace Host

variable {sv : Server} {h h' : Host sv} {peer : SocketAddr} {fragId msgId : UInt32}
  {payload : Bytes} {message : RpcMessage} {map : ReassemblyMap} {frame : Frame}
  {now fuel accepted i : ℕ} {r : Progress × NodeState}

/-- The first `i` chunks of a frame are in its buffer, since `now`. -/
def Buffering (map : ReassemblyMap) (peer : SocketAddr) (fragId : UInt32) (payload : Bytes)
    (now i : ℕ) : Prop :=
  map.lookup (peer, fragId) = if i = 0 then none else some (.filled payload (List.range i) now)

theorem Buffering.reassemble (hbuffer : Buffering map peer fragId payload now i)
    (hwhole : Whole payload)
    (hi : i < fragCount payload) :
    (reassemble now map peer (datagram fragId payload i)).1 =
        (if i + 1 = fragCount payload then .frame payload else .incomplete) ∧
      (i + 1 < fragCount payload →
        Buffering (AuthKademlia.reassemble now map peer (datagram fragId payload i)).2 peer fragId
          payload now (i + 1)) := by
  have hsize := hwhole.length_le
  by_cases hone : fragCount payload = 1
  · obtain rfl : i = 0 := by omega
    rw [reassemble_single hsize hone, if_pos (by omega)]
    exact ⟨rfl, by omega⟩
  · have hmany : 1 < fragCount payload := by omega
    have hentry : (map.lookup (peer, fragId)).getD
        (.new (UInt16.ofNat (fragCount payload)) now) =
          .filled payload (List.range i) now := by
      rw [hbuffer]
      by_cases hzero : i = 0
      · subst hzero
        rw [if_pos rfl, Option.getD_none, ReassemblyEntry.new_eq_filled hsize, List.range_zero]
      · rw [if_neg hzero, Option.getD_some]
    have hfull :
        (∀ j < fragCount payload, j ∈ List.range i ++ [i]) ↔ i + 1 = fragCount payload := by
      rw [← List.range_succ]
      simp only [List.mem_range]
      constructor
      · intro h
        have := h (fragCount payload - 1) (by omega)
        omega
      · intro h j hj
        omega
    rw [reassemble_datagram hsize hmany ((projection_le_iff payload).mpr hwhole) hi now now hentry]
    by_cases hlast : i + 1 = fragCount payload
    · rw [if_pos (hfull.mpr hlast), if_pos hlast]
      exact ⟨rfl, by omega⟩
    · rw [if_neg (mt hfull.mp hlast), if_neg hlast]
      refine ⟨rfl, fun _ => ?_⟩
      simp [Buffering, AList.lookup_insert, List.range_succ]

theorem Buffering.gc (hbuffer : Buffering map peer fragId payload now i) :
    Buffering (gcReassembly now map) peer fragId payload now i := by
  apply Option.ext
  intro entry
  rw [← hbuffer]
  refine lookup_gc_eq_some.trans (and_iff_left_of_imp fun hentry => ?_)
  rw [hbuffer] at hentry
  split at hentry
  · cases hentry
  · cases hentry
    simp [ReassemblyEntry.filled, reassemblyTtl, fromSecs]

end Host

namespace CallTable

end CallTable

namespace Cluster

variable {servers : SocketAddr → Server} {pools : ∀ a, ServerPool (servers a)}
  {c c' : Cluster servers} {run : List (ClusterEvent servers)} {a b : SocketAddr}

section Delivery

variable {k now accepted : ℕ} {fragId : UInt32} {frame : Frame} {payload : Bytes}

end Delivery

section Exchange

variable {request answer : RpcMessage} {s : NodeState} {now fuel : ℕ}

end Exchange

/-- The calls of `a` from number `n` on are these exchanges with `b`, all of them over. -/
def HadConversation (a b : SocketAddr) (n : ℕ) (exchanges : List (RpcMessage × RpcMessage))
    (c : Cluster servers) : Prop :=
  ∀ (i : ℕ) (request answer : RpcMessage), exchanges[i]? = some (request, answer) →
    (c a).calls.calls[n + i]? =
      some ⟨b, ⟨UInt32.ofNat (n + i), true, request⟩, .sent answer, .returned (some answer)⟩

theorem HadConversation.cons {n : ℕ} {request answer : RpcMessage}
    {rest : List (RpcMessage × RpcMessage)}
    (hfirst : (c a).calls.calls[n]? =
      some ⟨b, ⟨UInt32.ofNat n, true, request⟩, .sent answer, .returned (some answer)⟩)
    (hrest : HadConversation a b (n + 1) rest c) :
    HadConversation a b n ((request, answer) :: rest) c := by
  intro i request' answer' hi
  cases i with
  | zero =>
      cases hi
      exact hfirst
  | succ i =>
      rw [Nat.add_comm i 1, ← Nat.add_assoc]
      exact hrest i request' answer' hi

open Sample

end Cluster

end AuthKademlia
