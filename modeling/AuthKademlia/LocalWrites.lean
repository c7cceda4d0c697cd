import AuthKademlia.LocalCalls

/-!
# What `set` and `update` leave behind

Both calls write their own copy in the middle: after the lookup and before they know
whether any other node has acknowledged.

* A call may fail with the copy already written (`failed_write_leaves_store_iff`).
* A call may succeed without one, and `get` goes on returning the old value
  (`reads_own_update_iff`).
* A value lookup that ends with a value names no nodes, so after a forged answer there is
  nobody to publish to (`forged_value_blocks_set`).

## Main definitions

* `Server.SetStranded`, `Server.UpdateStranded` — the copy is written, and nobody
  acknowledges.
-/

namespace AuthKademlia

open Lib Protocol

namespace Server

variable {sv : Server} {env : Surroundings sv} {key : String} {dkey : NodeId} {value : Bytes}
  {authSignature : Option Bytes} {s : ServerState}

/-! ## Failed writes -/

/-- `set` writes its own copy, and nobody acknowledges its requests. -/
structure SetStranded (env : Surroundings sv) (key : String) (value : Bytes) (s : ServerState) :
    Prop where
  writes : SetWrites env key value s
  unacknowledged : anyAcknowledged (storeRequests env key value s)
    (env.answers (.calls (storeRequests env key value s))) = false

/-- `update` writes its own copy, which is not the entry it replaces, and nobody acknowledges
its requests. -/
structure UpdateStranded (env : Surroundings sv) (key : String) (value : Bytes)
    (authSignature : Option Bytes) (s : ServerState) : Prop where
  passes : UpdatePasses env key value authSignature s
  closer : sv.closerThanFarthest (Node.fromId (digest sv.protocol.hash key))
    (publishNodes env key s) = true
  changes : s.node.record (digest sv.protocol.hash key) ≠ some (value, publishTime env key s)
  unacknowledged : anyAcknowledged (updateRequests env key value authSignature s)
    (env.answers (.calls (updateRequests env key value authSignature s))) = false

/-- A copy written from now on is not an entry that has expired. -/
theorem record_ne_of_absent {now : ℕ} (h : s.node.stored s.now dkey = none)
    (hnow : now ≥ s.now) : s.node.record dkey ≠ some (value, now) := by
  intro hentry
  have hlive : s.node.storage.isExpired s.now now = false := by
    have hage : s.now - now = 0 := by omega
    simp [ForgetfulStorage.isExpired, hage]
  have hget : s.node.stored s.now dkey = some value :=
    ForgetfulStorage.get_eq_some.mpr ⟨now, hentry, hlive⟩
  rw [h] at hget
  cases hget

theorem set_leaves_store_iff (env : Surroundings sv) (key : String) (value : Bytes)
    (s : ServerState) :
    ((env.run (sv.set key value) s).2 = none ∨ (env.run (sv.set key value) s).2 = some false →
        ∀ k, (env.run (sv.set key value) s).1.node.storage.entry k = s.node.storage.entry k) ↔
      ¬SetStranded env key value s := by
  constructor
  · intro hleaves hstranded
    rcases hstranded.writes.run with ⟨hresult, now, hnow, hstorage⟩
    rw [hstranded.unacknowledged] at hresult
    have hentry := hleaves (.inr hresult) (digest sv.protocol.hash key).bytes
    rw [hstorage, ForgetfulStorage.entry_set_self] at hentry
    exact record_ne_of_absent hstranded.writes.absent hnow hentry.symm
  · intro hsafe hfailed k
    by_cases hwrites : SetWrites env key value s
    · -- the copy is written, so somebody acknowledged and the call did not fail
      have hack : anyAcknowledged (storeRequests env key value s)
          (env.answers (.calls (storeRequests env key value s))) = true := by
        by_contra hnot
        exact hsafe ⟨hwrites, Bool.eq_false_iff.mpr hnot⟩
      have hresult := hwrites.run.1
      rw [hack] at hresult
      rw [hresult] at hfailed
      simp at hfailed
    · rw [storage_set_of_not_writes hwrites]

theorem update_leaves_store_iff (env : Surroundings sv) (key : String) (value : Bytes)
    (authSignature : Option Bytes) (s : ServerState) :
    ((env.run (sv.update key value authSignature) s).2 = none ∨
          (env.run (sv.update key value authSignature) s).2 = some false →
        ∀ k, (env.run (sv.update key value authSignature) s).1.node.storage.entry k =
          s.node.storage.entry k) ↔
      ¬UpdateStranded env key value authSignature s := by
  by_cases hpasses : UpdatePasses env key value authSignature s
  · rcases run_update_of_passes hpasses with ⟨hresult, hstorage, -⟩
    rw [hresult, hstorage, withCopy]
    constructor
    · intro hleaves hstranded
      rw [hstranded.unacknowledged, if_pos hstranded.closer] at hleaves
      have hentry := hleaves (.inr rfl) (digest sv.protocol.hash key).bytes
      rw [ForgetfulStorage.entry_set_self] at hentry
      exact hstranded.changes hentry.symm
    · intro hsafe hfailed k
      split
      · rename_i hcloser
        by_cases hk : k = (digest sv.protocol.hash key).bytes
        · subst hk
          rw [ForgetfulStorage.entry_set_self]
          by_contra hchanges
          refine hsafe ⟨hpasses, hcloser, fun h => hchanges h.symm, ?_⟩
          simpa using hfailed
        · rw [ForgetfulStorage.entry_set_ne hk]
      · rfl
  · rcases run_update_of_not_passes hpasses with ⟨-, hstorage⟩
    rw [hstorage]
    exact ⟨fun _ hstranded => hpasses hstranded.passes, fun _ _ _ => rfl⟩

/-- **When a failed write leaves the store alone.**  For every store, every end of the
lookups and every response: a `set` or an `update` that returns `None` or `Some(false)` has
changed nothing exactly if it did not write its own copy before nobody acknowledged. -/
theorem failed_write_leaves_store_iff (env : Surroundings sv) (key : String) (value : Bytes)
    (authSignature : Option Bytes) (s : ServerState) :
    (((env.run (sv.set key value) s).2 = none ∨ (env.run (sv.set key value) s).2 = some false →
          ∀ k, (env.run (sv.set key value) s).1.node.storage.entry k = s.node.storage.entry k) ↔
        ¬SetStranded env key value s) ∧
      (((env.run (sv.update key value authSignature) s).2 = none ∨
            (env.run (sv.update key value authSignature) s).2 = some false →
          ∀ k, (env.run (sv.update key value authSignature) s).1.node.storage.entry k =
            s.node.storage.entry k) ↔
        ¬UpdateStranded env key value authSignature s) :=
  ⟨set_leaves_store_iff env key value s, update_leaves_store_iff env key value authSignature s⟩

end Server

open Sample

/-- Nobody responds to the `Store` requests: `set` returns `Some(false)` with the record
written, and when it is tried again, it returns `None` because the record exists. -/
theorem failed_set_keeps_copy :
    ((within sampleServer noValues .noResponse).run (sampleServer.set deviceName recordA0)
        twoPeers).2 = some false ∧
      twoPeers.node.record deviceKey = none ∧
      ((within sampleServer noValues .noResponse).run (sampleServer.set deviceName recordA0)
        twoPeers).1.node.record deviceKey = some (recordA0, 2) ∧
      ((within sampleServer noValues (.response (.storeResult true))).run
        (sampleServer.set deviceName recordA0)
        ((within sampleServer noValues .noResponse).run (sampleServer.set deviceName recordA0)
          twoPeers).1).2 = none := by
  decide +kernel

namespace Server

variable {sv : Server} {env : Surroundings sv} {key : String} {dkey : NodeId} {value : Bytes}
  {authSignature : Option Bytes} {s : ServerState}

/-! ## Reading an update -/

/-- A stored value is all that `get` looks at. -/
theorem run_get_stored (env : Surroundings sv) {v : Bytes} (hcache : s.node.sigCache = none)
    (h : s.node.stored s.now (digest sv.protocol.hash key) = some v) :
    (env.run (sv.get key) s).2 = if sv.verifies key v then some v else none := by
  simp only [get, Surroundings.run_bind, Surroundings.run_storageGet, h, run_verifyValue_snd,
    Surroundings.run_pure, passes_uncached hcache]

/-- **When a node reads its own update.**  Without a cache: after an `update` to `v` that
returned `Some(true)`, a node that still holds a live value returns `v` from `get` exactly if
it was close enough to the key to write the copy, or held `v` already, and `v` passes the
check of the key. -/
theorem reads_own_update_iff (env env' : Surroundings sv) (key : String) (v : Bytes)
    (authSignature : Option Bytes) (s : ServerState) (later : ℕ)
    (hcache : s.node.sigCache = none)
    (hok : (env.run (sv.update key v authSignature) s).2 = some true)
    (hlive : ((env.run (sv.update key v authSignature) s).1.node.stored later
      (digest sv.protocol.hash key)).isSome = true) :
    (env'.run (sv.get key)
        { (env.run (sv.update key v authSignature) s).1 with now := later }).2 = some v ↔
      (sv.closerThanFarthest (Node.fromId (digest sv.protocol.hash key))
          (publishNodes env key s) = true ∨
        s.node.held (digest sv.protocol.hash key) = some v) ∧
      sv.verifies key v = true := by
  have hpasses : UpdatePasses env key v authSignature s := by
    by_contra hnot
    rw [(run_update_of_not_passes hnot).1] at hok
    cases hok
  rcases run_update_of_passes hpasses with ⟨-, hstorage, hsigCache⟩
  rcases Option.isSome_iff_exists.mp hlive with ⟨w, hw⟩
  have hget := @run_get_stored sv key
    { (env.run (sv.update key v authSignature) s).1 with now := later } env' w
    (hsigCache.trans (uncached_get env key hcache)) hw
  rw [hget]
  -- the live value is the copy, or the one held before
  have hvalue : w = v ↔ sv.closerThanFarthest (Node.fromId (digest sv.protocol.hash key))
      (publishNodes env key s) = true ∨ s.node.held (digest sv.protocol.hash key) = some v := by
    rcases ForgetfulStorage.get_eq_some.mp hw with ⟨written, hentry, -⟩
    rw [hstorage, withCopy] at hentry
    split at hentry
    · rename_i hcloser
      rw [ForgetfulStorage.entry_set_self] at hentry
      cases hentry
      simp [hcloser]
    · rename_i hcloser
      simp [hcloser, NodeState.held, NodeState.record, hentry]
  rw [← hvalue]
  constructor
  · intro hreturned
    split at hreturned
    · rename_i hverifies
      cases hreturned
      exact ⟨rfl, hverifies⟩
    · cases hreturned
  · intro h
    rcases h with ⟨rfl, hverifies⟩
    rw [if_pos hverifies]

end Server

namespace Sample

/-- Every update is acknowledged. -/
noncomputable def acceptingUpdates : Surroundings sampleServer :=
  within sampleServer noValues (.response (.updateResult true))

/-- A publishes its second record. -/
noncomputable def updated (peers : List Node) : ServerState × Option Bool :=
  acceptingUpdates.run (sampleServer.update deviceName recordA1 (some authA1)) (holdingA0 peers)

end Sample

/-- The only other node is closer to the key: the update is acknowledged there, and `get`
returns the record it replaced. -/
theorem update_not_read :
    (updated [crawlNode 2]).2 = some true ∧
      (acceptingUpdates.run (sampleServer.get deviceName) (updated [crawlNode 2]).1).2 =
        some recordA0 := by
  decide +kernel

/-- With a node that is farther away, `get` returns the update. -/
theorem reads_own_update_updated :
    (updated [crawlNode 8]).2 = some true ∧
      (acceptingUpdates.run (sampleServer.get deviceName)
        { (updated [crawlNode 8]).1 with now := 9 }).2 = some recordA1 := by
  have hok : (updated [crawlNode 8]).2 = some true := by decide +kernel
  refine ⟨hok, ?_⟩
  have hiff := Server.reads_own_update_iff acceptingUpdates acceptingUpdates deviceName recordA1
    (some authA1) (holdingA0 [crawlNode 8]) 9 rfl hok (by decide +kernel)
  exact hiff.mpr ⟨.inl (by decide +kernel), by decide +kernel⟩

namespace Server

variable {sv : Server} {env : Surroundings sv} {key : String} {dkey : NodeId} {value : Bytes}
  {authSignature : Option Bytes} {s : ServerState}

/-! ## Forged answers -/

/-- A failed verification leaves the cache as it is. -/
theorem sigCache_of_not_passes (env : Surroundings sv) {value : Bytes}
    (h : sv.passes s key value = false) :
    (env.run (sv.verifyValue key value) s).1.node.sigCache = s.node.sigCache := by
  change (AuthKademlia.verifyValue sv.protocol.hash sv.protocol.signatureHandler
    s.node.sigCache key value).2 = s.node.sigCache
  unfold passes at h
  cases hcache : s.node.sigCache with
  | none => simp [AuthKademlia.verifyValue, verifyCached]
  | some c =>
      rw [hcache] at h
      simp only [AuthKademlia.verifyValue, verifyCached] at h ⊢
      split
      · rfl
      · rename_i hmiss
        simp only [hmiss] at h
        simp [h]

/-- The value of a lookup is that of an answer. -/
theorem exists_answer_of_value {target : Node} {peers : List Node}
    (reply : ValueReply sv target peers) {v : Bytes} (h : reply.outcome.value = some v) :
    ∃ round ∈ reply.outcome.history, v ∈ round.responses.values := by
  rcases ValueSpiderCrawl.value_of_find reply.ends with ⟨-, hnone⟩ | ⟨w, hw, hmost⟩
  · rw [h] at hnone
    cases hnone
  · rw [h] at hw
    cases hw
    have hmem := hmost.1
    unfold firstValues at hmem
    cases hfind : (reply.outcome.history.map fun r => r.responses.values).find?
        fun vs => !vs.isEmpty with
    | none => simp [hfind] at hmem
    | some vs =>
        rw [hfind] at hmem
        rcases List.mem_map.mp (List.mem_of_find?_eq_some hfind) with ⟨round, hround, rfl⟩
        exact ⟨round, hround, hmem⟩

/-- **A forged answer blocks publication.**  Whenever the search of `set` ends with a value
that fails verification, although some node answered it, a new value that passes is sent to
nobody: `set` returns `Some(false)`, writes nothing, and the only request is the copy of the
forged value that the lookup itself sends on. -/
theorem forged_value_blocks_set (env : Surroundings sv) (key : String) (value forged : Bytes)
    (s : ServerState) (hsearches : sv.Searches key s)
    (hfound : (sv.getReply key s env.answers).outcome.value = some forged)
    (hforged : sv.passes s key forged = false) (hvalid : sv.passes s key value = true) :
    (env.run (sv.set key value) s).2 = some false ∧
      (env.run (sv.set key value) s).1.node.storage = s.node.storage ∧
      (env.run (sv.set key value) s).1.outgoing = s.outgoing ++
        sv.copies (sv.lookupTarget key) (sv.getReply key s env.answers).outcome ∧
      ∃ round ∈ (sv.getReply key s env.answers).outcome.history,
        forged ∈ round.responses.values := by
  have hend := searchEnd_checkExists env key s
  have hanswer := exists_answer_of_value _ hfound
  simp only [set, Surroundings.run_bind]
  generalize hr : env.run (sv.checkExistsAndGetNodes key) s = r at hend ⊢
  cases hend with
  | stored hstored =>
      rw [hsearches.absent] at hstored
      cases hstored
  | missed hstored hnone hrecords houtgoing hnow =>
      rw [hnone hsearches] at hfound
      cases hfound
  | @found v s' _ hvalue hrecords houtgoing =>
      rw [hfound] at hvalue
      cases hvalue
      have hfails : sv.passes s' key forged = false := by rw [passes_congr hrecords, hforged]
      have hsame : RecordsKept s (env.run (sv.verifyValue key forged) s').1 :=
        ⟨hrecords.storage, (sigCache_of_not_passes env hfails).trans hrecords.sigCache⟩
      simp only [hforged, Bool.false_eq_true, if_false, Surroundings.run_bind,
        run_verifyValue_snd, passes_congr hsame, hvalid, Bool.not_true, run_setDigest_nil,
        Surroundings.run_pure]
      exact ⟨trivial, hrecords.storage, houtgoing, hanswer⟩

end Server

namespace Sample

/-- Every node answers with bytes that are no record. -/
def onlyForged : Network := .fixed fun _ => ⟨true, .value forged⟩

/-- A publishes its first record, in a network that accepts every `Store`. -/
noncomputable def published (net : Network) : ServerState × Option Bool :=
  (within sampleServer net (.response (.storeResult true))).run
    (sampleServer.set deviceName recordA0) twoPeers

end Sample

/-- Two peers that would accept the record answer with forged bytes: the record is sent to
neither, and `set` returns `Some(false)`.  Had they answered without a value, both would have
received it. -/
theorem forged_answers_stop_publication :
    (published onlyForged).2 = some false ∧ (published onlyForged).1.outgoing = [] ∧
      (published noValues).2 = some true ∧
      (published noValues).1.outgoing.map Prod.fst = [crawlNode 2, crawlNode 4] := by
  decide +kernel

theorem forged_value_blocks_set_published :
    (published onlyForged).2 = some false ∧
      (published onlyForged).1.node.storage = twoPeers.node.storage := by
  have hblocked := Server.forged_value_blocks_set
    (within sampleServer onlyForged (.response (.storeResult true))) deviceName recordA0 forged
    twoPeers ⟨by decide +kernel, rfl, by decide +kernel⟩ (by decide +kernel) (by decide +kernel)
    (by decide +kernel)
  exact ⟨hblocked.1, hblocked.2.1⟩

end AuthKademlia
