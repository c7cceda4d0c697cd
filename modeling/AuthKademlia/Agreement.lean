import AuthKademlia.LocalCalls

/-!
# Local checks and remote checks

`set`, `update` and `delete` check a write before they publish it, and every node that
receives the request checks it again.  The two sides choose the rule independently: the
server from the name of the key and whether an authorisation was given, the receiver from
the digest and the kind of request.

For `set` and `delete` the choices agree.  For `update` they do not: an update of the status
list that brings an authorisation is checked here as a rotation, but sent as an
`UpdateStatusList`, which is checked there against the issuer
(`local_remote_agree_iff`, `authorised_status_update_refused`).

## Main definitions

* `Protocol.Grants` — a node answers a request with an acceptance.
* `Server.RulesAgree` — the two rules for an update give the same verdict.
-/

namespace AuthKademlia

open Lib Protocol

/-! ## The receiver -/

/-- The node accepts the request. -/
def Protocol.Grants (p : Protocol) (now fuel : ℕ) (addr : SocketAddr) (r : NodeState)
    (msg : RpcMessage) : Prop :=
  ∃ answer r', p.dispatchRequest now fuel msg addr r = some (answer, r') ∧
    answer.any RpcMessage.isAccept = true

section Grants

variable {p : Protocol} {now fuel : ℕ} {addr : SocketAddr} {r : NodeState} {msg : RpcMessage}

/-- A request that is answered at all is granted exactly under its condition. -/
theorem grants_iff (h : (p.dispatchRequest now fuel msg addr r).isSome = true) :
    p.Grants now fuel addr r msg ↔ p.Accepts now r msg := by
  rcases Option.isSome_iff_exists.mp h with ⟨⟨answer, r'⟩, hanswer⟩
  rw [← dispatchRequest_accepted_iff hanswer]
  constructor
  · intro hgrants
    rcases hgrants with ⟨answer', r'', hanswer', haccept⟩
    rw [hanswer] at hanswer'
    cases hanswer'
    exact haccept
  · intro haccept
    exact ⟨answer, r', hanswer, haccept⟩

/-- Without a cache, a `Store` of a key that is not stored is granted if the record passes
the rule of the key. -/
theorem grants_store_iff {senderId key : NodeId} {value : Bytes} (hcache : r.sigCache = none)
    (habsent : r.stored now key = none) :
    p.Grants now fuel addr r (.store senderId key value) ↔ p.PassesRule key value := by
  rw [grants_iff rfl]
  simp [Accepts, habsent, Protocol.verifyForKey, AuthKademlia.verifyForKey, verifyCached, hcache,
    Protocol.PassesRule]

variable {senderId key : NodeId} {value old : Bytes} (hold : r.stored now key = some old)
include hold

theorem grants_update_iff {authSignature : Bytes} :
    p.Grants now fuel addr r (.update senderId key value authSignature) ↔
      p.signatureHandler.handleUpdateVerification value old authSignature = .ok true := by
  rw [grants_iff rfl]
  simp [Accepts, hold]

theorem grants_updateStatusList_iff :
    p.Grants now fuel addr r (.updateStatusList senderId key value) ↔
      p.signatureHandler.handleIssuerNodeSignatureVerification value = .ok true := by
  rw [grants_iff rfl]
  simp [Accepts, hold]

theorem grants_delete_iff {authSignature deleteMsg : Bytes} :
    p.Grants now fuel addr r (.delete senderId key authSignature deleteMsg) ↔
      p.signatureHandler.handleSignatureDeleteOperation old authSignature deleteMsg =
        .ok true := by
  rw [grants_iff rfl]
  simp [Accepts, hold]

end Grants

/-! ## The sender -/

namespace Server

variable {sv : Server} {env : Surroundings sv} {key : String} {value old : Bytes}
  {authSignature : Option Bytes} {s : ServerState}

/-- A `set` that finds no record goes on exactly if the new one passes. -/
theorem set_goes_on_iff (hcache : s.node.sigCache = none)
    (hmissed : (env.run (sv.checkExistsAndGetNodes key) s).2.1 = false) :
    (env.run (sv.set key value) s).2.isSome = true ↔ sv.verifies key value = true := by
  have huncached : (env.run (sv.checkExistsAndGetNodes key) s).1.node.sigCache = none := by
    have hend := searchEnd_checkExists env key s
    generalize env.run (sv.checkExistsAndGetNodes key) s = r at hend
    cases hend with
    | stored hstored => exact hcache
    | missed _ _ hrecords _ _ => exact hrecords.sigCache.trans hcache
    | found _ _ hrecords _ => exact uncached_verifyValue env (hrecords.sigCache.trans hcache) key _
  simp only [set, Surroundings.run_bind, hmissed, Bool.false_eq_true, if_false,
    run_verifyValue_snd, passes_uncached huncached]
  cases hverifies : sv.verifies key value <;> simp

theorem update_goes_on_iff (hget : (env.run (sv.get key) s).2 = some old) :
    (env.run (sv.update key value authSignature) s).2.isSome = true ↔
      sv.updateCheck key value old authSignature = .ok true := by
  by_cases hpasses : UpdatePasses env key value authSignature s
  · rw [(run_update_of_passes hpasses).1]
    rcases hpasses with ⟨old', hget', hcheck⟩
    rw [hget] at hget'
    cases hget'
    simp [hcheck]
  · rw [(run_update_of_not_passes hpasses).1]
    have hfails : sv.updateCheck key value old authSignature ≠ .ok true :=
      fun hcheck => hpasses ⟨old, hget, hcheck⟩
    simp [hfails]

theorem delete_goes_on_iff {authSignature deleteMsg : Bytes}
    (hget : (env.run (sv.get key) s).2 = some old) :
    (env.run (sv.delete key authSignature deleteMsg) s).2.isSome = true ↔
      sv.protocol.signatureHandler.handleSignatureDeleteOperation old authSignature deleteMsg =
        .ok true := by
  simp only [delete, blocking, Surroundings.run_bind, hget, Surroundings.run_yield,
    Surroundings.run_pure, ← unwrapOrFalse_eq_true]
  cases unwrapOrFalse (sv.protocol.signatureHandler.handleSignatureDeleteOperation old
    authSignature deleteMsg) <;> simp

/-! ## Both sides -/

/-- If an update of the status list brings an authorisation, the rotation it authorises and
the issuer's signature get the same verdict. -/
def RulesAgree (sv : Server) (key : String) (value old : Bytes) (authSignature : Option Bytes) :
    Prop :=
  ∀ signature, key = statusListKey → authSignature = some signature →
    (sv.protocol.signatureHandler.handleUpdateVerification value old signature = .ok true ↔
      sv.IssuerSigned value)

theorem updateCheck_iff_granted_iff {remote : Protocol} {r : NodeState} {now fuel : ℕ}
    {addr : SocketAddr} {peer : Node}
    (hhandler : remote.signatureHandler = sv.protocol.signatureHandler)
    (hold : r.stored now (digest sv.protocol.hash key) = some old) :
    ((sv.updateCheck key value old authSignature = .ok true ↔
        remote.Grants now fuel addr r
          (sv.updateRpc key (digest sv.protocol.hash key) value authSignature peer).2) ↔
      sv.RulesAgree key value old authSignature) := by
  by_cases hkey : key = statusListKey
  · have hrpc : (sv.updateRpc key (digest sv.protocol.hash key) value authSignature peer).2 =
        .updateStatusList sv.protocol.sourceNode.id (digest sv.protocol.hash key) value := by
      simp [updateRpc, hkey]
    rw [hrpc, grants_updateStatusList_iff hold, hhandler]
    cases authSignature with
    | none => simp [updateCheck, hkey, RulesAgree]
    | some signature => simp [updateCheck, hkey, RulesAgree, IssuerSigned]
  · have hrpc : (sv.updateRpc key (digest sv.protocol.hash key) value authSignature peer).2 =
        .update sv.protocol.sourceNode.id (digest sv.protocol.hash key) value
          (authSignature.getD []) := by
      simp [updateRpc, hkey]
    rw [hrpc, grants_update_iff hold, hhandler]
    simp [updateCheck, hkey, RulesAgree]

/-- **When the two sides agree.**  No cache, and a receiver with the same issuer and hash.
A `set` that finds no record goes on exactly if a receiver without one grants its `Store`,
and a `delete` exactly if a receiver with the same record grants its `Delete`.  An `update`
does so exactly if the two rules for it give the same verdict. -/
theorem local_remote_agree_iff (sv : Server) (env : Surroundings sv) (s : ServerState)
    (remote : Protocol) (r : NodeState) (now fuel : ℕ) (addr : SocketAddr) (peer : Node)
    (key : String) (hhandler : remote.signatureHandler = sv.protocol.signatureHandler)
    (hhash : remote.hash = sv.protocol.hash) (hcache : s.node.sigCache = none)
    (hremote : r.sigCache = none)
    (hcollision : digest sv.protocol.hash key = sv.statusDigest → key = statusListKey) :
    (∀ value, (env.run (sv.checkExistsAndGetNodes key) s).2.1 = false →
      r.stored now (digest sv.protocol.hash key) = none →
      ((env.run (sv.set key value) s).2.isSome = true ↔ remote.Grants now fuel addr r
        (sv.storeRpc (digest sv.protocol.hash key) value peer).2)) ∧
    (∀ old, (env.run (sv.get key) s).2 = some old →
      r.stored now (digest sv.protocol.hash key) = some old →
      (∀ authSignature deleteMsg,
        ((env.run (sv.delete key authSignature deleteMsg) s).2.isSome = true ↔
          remote.Grants now fuel addr r (.delete sv.protocol.sourceNode.id
            (digest sv.protocol.hash key) authSignature deleteMsg))) ∧
      ∀ value authSignature,
        (((env.run (sv.update key value authSignature) s).2.isSome = true ↔
            remote.Grants now fuel addr r
              (sv.updateRpc key (digest sv.protocol.hash key) value authSignature peer).2) ↔
          sv.RulesAgree key value old authSignature)) := by
  refine ⟨?_, ?_⟩
  · intro value hmissed habsent
    have hrule : remote.PassesRule (digest sv.protocol.hash key) value ↔
        sv.verifies key value = true := by
      have hstatus : digest sv.protocol.hash key = digest sv.protocol.hash statusListKey ↔
          key = statusListKey :=
        ⟨hcollision, fun h => by rw [h]⟩
      simp [Protocol.PassesRule, verifies, hhandler, hhash, hstatus]
    rw [set_goes_on_iff hcache hmissed, ← hrule]
    exact (grants_store_iff hremote habsent).symm
  · intro old hget hold
    refine ⟨?_, ?_⟩
    · intro authSignature deleteMsg
      rw [delete_goes_on_iff hget, grants_delete_iff hold, hhandler]
    · intro value authSignature
      rw [update_goes_on_iff hget]
      exact updateCheck_iff_granted_iff hhandler hold

end Server

namespace Sample

/-- A node of the protocol that stores one record. -/
def storing (p : Protocol) (key : NodeId) (value : Bytes) : NodeState :=
  p.new 20 ((ForgetfulStorage.new (-1)).set 0 key.bytes value) none 0

end Sample

open Sample

/-- A is the issuer and hands the status list over to B: the rotation passes the check of
`update`, and a node with the same status list refuses the request that is sent for it. -/
theorem authorised_status_update_refused :
    (((within issuerServer noValues .noResponse).run
        (issuerServer.update statusListKey recordB (some authB))
        ⟨storing issuerServer.protocol statusKey recordA0, 0, []⟩).2.isSome = true ∧
      (issuerServer.protocol.dispatchRequest 0 1
        (issuerServer.updateRpc statusListKey statusKey recordB (some authB) (crawlNode 2)).2
        peerAddr (storing issuerServer.protocol statusKey recordA0)).map Prod.fst =
          some (some (.updateStatusListResult false))) := by
  decide +kernel

/-- A's first record is set and granted, and so is the update to the second. -/
theorem local_remote_agree_device :
    sampleProtocol.Grants 0 1 peerAddr (sampleProtocol.new 20 (.new (-1)) none 0)
        (sampleServer.storeRpc (digest sampleServer.protocol.hash deviceName) recordA0
          (crawlNode 2)).2 ∧
      sampleProtocol.Grants 0 1 peerAddr (storing sampleProtocol deviceKey recordA0)
        (sampleServer.updateRpc deviceName (digest sampleServer.protocol.hash deviceName) recordA1
          (some authA1) (crawlNode 2)).2 := by
  have hcollision : digest sampleServer.protocol.hash deviceName = sampleServer.statusDigest →
      deviceName = statusListKey := by
    decide +kernel
  have hset := Server.local_remote_agree_iff sampleServer
    (within sampleServer noValues .noResponse) twoPeers sampleProtocol
    (sampleProtocol.new 20 (.new (-1)) none 0) 0 1 peerAddr (crawlNode 2) deviceName rfl rfl rfl
    rfl hcollision
  have hupdate := Server.local_remote_agree_iff sampleServer
    (within sampleServer noValues .noResponse) (holdingA0 [crawlNode 2]) sampleProtocol
    (storing sampleProtocol deviceKey recordA0) 0 1 peerAddr (crawlNode 2) deviceName rfl rfl rfl
    rfl hcollision
  refine ⟨?_, ?_⟩
  · exact (hset.1 recordA0 (by decide +kernel) (by decide +kernel)).mp (by decide +kernel)
  · have hagree : sampleServer.RulesAgree deviceName recordA1 recordA0 (some authA1) := by
      intro signature hkey
      exact absurd hkey (by decide +kernel)
    have hiff := ((hupdate.2 recordA0 (by decide +kernel) (by decide +kernel)).2 recordA1
      (some authA1)).mpr hagree
    exact hiff.mp (by decide +kernel)

end AuthKademlia
