import AuthKademlia.Protocol

/-!
# What a request does to the store

Four kinds of request write to the store.  For each of them this module says when it is
accepted (`Accepts`) and what it writes (`RpcMessage.applyTo`), and that nothing else in
a node's life touches the store: other requests, responses, background tasks.

Every later result about the store follows from `dispatchRequest_storage`,
`dispatchRequest_accepted_iff` and `step_storage`; the handlers are not unfolded again.

## Main definitions

* `RpcMessage.target`, `RpcMessage.applyTo` — the key a request writes, and the write.
* `Protocol.Accepts` — the condition under which it does.
-/

namespace AuthKademlia

/-! ## Requests that write -/

namespace RpcMessage

/-- The key a request may write. -/
def target : RpcMessage → Option NodeId
  | store _ key _ => some key
  | update _ key _ _ => some key
  | updateStatusList _ key _ => some key
  | delete _ key _ _ => some key
  | _ => none

/-- The store after an accepted request. -/
def applyTo (now : ℕ) (storage : ForgetfulStorage) : RpcMessage → ForgetfulStorage
  | store _ key value => storage.set now key.bytes value
  | update _ key value _ => storage.set now key.bytes value
  | updateStatusList _ key value => storage.set now key.bytes value
  | delete _ key _ _ => storage.delete key.bytes
  | _ => storage

/-- The answer says `ok = true`. -/
def isAccept : RpcMessage → Bool
  | storeResult ok => ok
  | updateResult ok => ok
  | updateStatusListResult ok => ok
  | deleteResult ok => ok
  | _ => false

/-- The answer says `ok = false`. -/
def isReject : RpcMessage → Bool
  | storeResult ok => !ok
  | updateResult ok => !ok
  | updateStatusListResult ok => !ok
  | deleteResult ok => !ok
  | _ => false

/-- The request is an `UpdateStatusList`. -/
def isStatusListUpdate : RpcMessage → Bool
  | updateStatusList .. => true
  | _ => false

theorem entry_applyTo_ne {now : ℕ} {storage : ForgetfulStorage} {msg : RpcMessage} {key : NodeId}
    (h : msg.target ≠ some key) :
    (msg.applyTo now storage).entry key.bytes = storage.entry key.bytes := by
  have hne : ∀ key', msg.target = some key' → key.bytes ≠ key'.bytes := by
    rintro key' htarget heq
    apply h
    cases key
    cases key'
    simp only at heq
    simp only [htarget, heq]
  cases msg with
  | store _ key' _ => exact ForgetfulStorage.entry_set_ne (hne key' rfl)
  | update _ key' _ _ => exact ForgetfulStorage.entry_set_ne (hne key' rfl)
  | updateStatusList _ key' _ => exact ForgetfulStorage.entry_set_ne (hne key' rfl)
  | delete _ key' _ _ => exact ForgetfulStorage.entry_delete_ne (hne key' rfl)
  | _ => rfl

theorem ttl_applyTo {now : ℕ} {storage : ForgetfulStorage} {msg : RpcMessage} :
    (msg.applyTo now storage).ttl = storage.ttl := by
  cases msg <;> rfl

end RpcMessage

namespace Protocol

variable {p : Protocol} {now fuel : ℕ} {senderId key : NodeId} {peer : SocketAddr}
  {value authSignature deleteMsg : Bytes} {s s' : NodeState}

/-- When a request that writes is accepted. -/
def Accepts (p : Protocol) (now : ℕ) (s : NodeState) : RpcMessage → Prop
  | .store _ key value => (p.verifyForKey key value s).1 = true ∧ s.stored now key = none
  | .update _ key value authSignature => ∃ old, s.stored now key = some old ∧
      p.signatureHandler.handleUpdateVerification value old authSignature = .ok true
  | .updateStatusList _ key value => (∃ old, s.stored now key = some old) ∧
      p.signatureHandler.handleIssuerNodeSignatureVerification value = .ok true
  | .delete _ key authSignature deleteMsg => ∃ old, s.stored now key = some old ∧
      p.signatureHandler.handleSignatureDeleteOperation old authSignature deleteMsg = .ok true
  | _ => False

/-! ## One handler at a time -/

theorem rpcStore_spec :
    ((p.rpcStore now senderId peer key value s).1 = true ↔
      p.Accepts now s (.store senderId key value)) ∧
    (p.rpcStore now senderId peer key value s).2.storage =
      if (p.rpcStore now senderId peer key value s).1 then s.storage.set now key.bytes value
      else s.storage := by
  simp only [rpcStore, Accepts, NodeState.stored]
  cases hv : (p.verifyForKey key value s).1 with
  | false =>
      -- the strike count decides between a ban and a welcome, not what is stored
      simp only [Bool.not_false, if_true, Bool.false_eq_true, false_and, iff_false]
      split <;> simp [strike, verifyForKey]
  | true =>
      simp only [Bool.not_true, Bool.false_eq_true, if_false, true_and]
      rw [ForgetfulStorage.insertIfAbsent_eq]
      have hst : (p.verifyForKey key value s).2.storage = s.storage := rfl
      rw [hst]
      by_cases hnone : s.storage.get now key.bytes = none <;> simp [hnone, NodeState.spawn]

theorem rpcUpdate_spec :
    ((p.rpcUpdate now senderId peer key value authSignature s).1 = true ↔
      p.Accepts now s (.update senderId key value authSignature)) ∧
    (p.rpcUpdate now senderId peer key value authSignature s).2.storage =
      if (p.rpcUpdate now senderId peer key value authSignature s).1 then
        s.storage.set now key.bytes value
      else s.storage := by
  simp only [rpcUpdate, Accepts, NodeState.stored]
  cases s.storage.get now key.bytes with
  | none => simp
  | some old =>
      simp only [Option.some.injEq, exists_eq_left', ← unwrapOrFalse_eq_true]
      by_cases hok : unwrapOrFalse
          (p.signatureHandler.handleUpdateVerification value old authSignature) = true <;>
        simp [hok]

theorem rpcUpdateStatusList_spec :
    ((p.rpcUpdateStatusList now senderId peer key value s).1 = true ↔
      p.Accepts now s (.updateStatusList senderId key value)) ∧
    (p.rpcUpdateStatusList now senderId peer key value s).2.storage =
      if (p.rpcUpdateStatusList now senderId peer key value s).1 then
        s.storage.set now key.bytes value
      else s.storage := by
  simp only [rpcUpdateStatusList, Accepts, NodeState.stored]
  cases s.storage.get now key.bytes with
  | none => simp
  | some old =>
      simp only [← unwrapOrFalse_eq_true]
      cases unwrapOrFalse _ <;> simp

theorem rpcDelete_spec :
    ((p.rpcDelete now senderId peer key authSignature deleteMsg s).1 = true ↔
      p.Accepts now s (.delete senderId key authSignature deleteMsg)) ∧
    (p.rpcDelete now senderId peer key authSignature deleteMsg s).2.storage =
      if (p.rpcDelete now senderId peer key authSignature deleteMsg s).1 then
        s.storage.delete key.bytes
      else s.storage := by
  simp only [rpcDelete, Accepts, NodeState.stored]
  cases s.storage.get now key.bytes with
  | none => simp
  | some old =>
      simp only [Option.some.injEq, exists_eq_left', ← unwrapOrFalse_eq_true]
      by_cases hok : unwrapOrFalse
          (p.signatureHandler.handleSignatureDeleteOperation old authSignature deleteMsg) = true <;>
        simp [hok]

/-! ## What never writes -/

/-- The store and the cache are as before. -/
def SameRecords (s s' : NodeState) : Prop := s'.storage = s.storage ∧ s'.sigCache = s.sigCache

/-- A loop that spawns does nothing else. -/
theorem foldl_spawn {α : Type} (task : α → Task) (l : List α) (s : NodeState) :
    l.foldl (fun s a => s.spawn (task a)) s = { s with tasks := s.tasks ++ l.map task } := by
  induction l generalizing s with
  | nil => simp
  | cons a l ih =>
      rw [List.foldl_cons, ih]
      simp [NodeState.spawn]

theorem welcomeIfNew_sameRecords {node : Node} (h : p.welcomeIfNew now fuel node s = some s') :
    SameRecords s s' := by
  simp only [welcomeIfNew] at h
  split at h
  · obtain rfl := Option.some.inj h
    exact ⟨rfl, rfl⟩
  · obtain ⟨⟨lru, router⟩, -, rfl⟩ := Option.map_eq_some_iff.mp h
    simp only [foldl_spawn]
    cases lru <;> exact ⟨rfl, rfl⟩

theorem rpcFindValue_sameRecords {result : FindValueResult}
    (h : p.rpcFindValue now fuel senderId peer key s = some (result, s')) : SameRecords s s' := by
  obtain ⟨r, hr, heq⟩ := Option.map_eq_some_iff.mp h
  have hsame := welcomeIfNew_sameRecords hr
  split at heq
  · obtain ⟨-, rfl⟩ := Prod.mk.inj heq
    exact hsame
  · obtain ⟨-, rfl⟩ := Prod.mk.inj heq
    exact hsame

theorem runTask_sameRecords {result : CallResult} {task : Task}
    (h : p.runTask now fuel result s task = some s') : SameRecords s s' := by
  cases task with
  | welcomeIfNew node => exact welcomeIfNew_sameRecords h
  | callPingNode node =>
      obtain rfl := Option.some.inj h
      simp only [callPingNode]
      split
      · exact ⟨rfl, rfl⟩
      · split <;> exact ⟨rfl, rfl⟩
  | callStoreRpc peer key value =>
      obtain rfl := Option.some.inj h
      simp only [callStoreRpc]
      split
      · exact ⟨rfl, rfl⟩
      · split <;> exact ⟨rfl, rfl⟩

/-! ## Requests and events -/

/-- **A request writes to the store exactly what its answer admits.** -/
theorem dispatchRequest_storage {msg : RpcMessage} {answer : Option RpcMessage}
    (h : p.dispatchRequest now fuel msg peer s = some (answer, s')) :
    s'.storage = if answer.any RpcMessage.isAccept then msg.applyTo now s.storage
      else s.storage := by
  cases msg with
  | store senderId key value =>
      obtain ⟨rfl, rfl⟩ := Prod.mk.inj (Option.some.inj h)
      exact rpcStore_spec.2
  | update senderId key value authSignature =>
      obtain ⟨rfl, rfl⟩ := Prod.mk.inj (Option.some.inj h)
      exact rpcUpdate_spec.2
  | updateStatusList senderId key value =>
      obtain ⟨rfl, rfl⟩ := Prod.mk.inj (Option.some.inj h)
      exact rpcUpdateStatusList_spec.2
  | delete senderId key authSignature deleteMsg =>
      obtain ⟨rfl, rfl⟩ := Prod.mk.inj (Option.some.inj h)
      exact rpcDelete_spec.2
  | findValue senderId key =>
      obtain ⟨⟨result, r⟩, hr, heq⟩ := Option.map_eq_some_iff.mp h
      have hst := (rpcFindValue_sameRecords hr).1
      cases result with
      | value v =>
          obtain ⟨rfl, rfl⟩ := Prod.mk.inj heq
          exact hst
      | nodes ns =>
          obtain ⟨rfl, rfl⟩ := Prod.mk.inj heq
          exact hst
  | _ =>
      obtain ⟨rfl, rfl⟩ := Prod.mk.inj (Option.some.inj h)
      rfl

/-- **A request is accepted exactly under its condition.** -/
theorem dispatchRequest_accepted_iff {msg : RpcMessage} {answer : Option RpcMessage}
    (h : p.dispatchRequest now fuel msg peer s = some (answer, s')) :
    answer.any RpcMessage.isAccept = true ↔ p.Accepts now s msg := by
  cases msg with
  | store senderId key value =>
      obtain ⟨rfl, rfl⟩ := Prod.mk.inj (Option.some.inj h)
      exact rpcStore_spec.1
  | update senderId key value authSignature =>
      obtain ⟨rfl, rfl⟩ := Prod.mk.inj (Option.some.inj h)
      exact rpcUpdate_spec.1
  | updateStatusList senderId key value =>
      obtain ⟨rfl, rfl⟩ := Prod.mk.inj (Option.some.inj h)
      exact rpcUpdateStatusList_spec.1
  | delete senderId key authSignature deleteMsg =>
      obtain ⟨rfl, rfl⟩ := Prod.mk.inj (Option.some.inj h)
      exact rpcDelete_spec.1
  | findValue senderId key =>
      obtain ⟨⟨result, r⟩, hr, heq⟩ := Option.map_eq_some_iff.mp h
      cases result with
      | value v =>
          obtain ⟨rfl, rfl⟩ := Prod.mk.inj heq
          simp [RpcMessage.isAccept, Accepts]
      | nodes ns =>
          obtain ⟨rfl, rfl⟩ := Prod.mk.inj heq
          simp [RpcMessage.isAccept, Accepts]
  | _ =>
      obtain ⟨rfl, rfl⟩ := Prod.mk.inj (Option.some.inj h)
      simp [RpcMessage.isAccept, Accepts]

/-- No answer both accepts and rejects. -/
theorem isAccept_eq_false_of_isReject {answer : Option RpcMessage}
    (h : answer.any RpcMessage.isReject = true) : answer.any RpcMessage.isAccept = false := by
  cases answer with
  | none => rfl
  | some msg => cases msg <;> simp_all [RpcMessage.isReject, RpcMessage.isAccept]

theorem rpcStore_sigCache (hnone : s.sigCache = none) :
    (p.rpcStore now senderId peer key value s).2.sigCache = none := by
  have hverify : (p.verifyForKey key value s).2.sigCache = none := by
    simp [verifyForKey, AuthKademlia.verifyForKey, verifyCached, hnone]
  simp only [rpcStore]
  generalize p.verifyForKey key value s = r at hverify ⊢
  obtain ⟨valid, s₁⟩ := r
  cases valid with
  | false =>
      simp only [Bool.not_false, if_true]
      split <;> exact hverify
  | true =>
      simp only [Bool.not_true, Bool.false_eq_true, if_false]
      split <;> exact hverify

/-- A handler refuses and changes nothing, or accepts: it welcomes the sender, and apart from
that changes only the store. -/
inductive WelcomesIfAccepted (sender : Node) (s : NodeState) : Bool × NodeState → Prop
  | refused : WelcomesIfAccepted sender s (false, s)
  | accepted (storage : ForgetfulStorage) : WelcomesIfAccepted sender s
      (true, { s.spawn (.welcomeIfNew sender) with storage := storage })

theorem welcomesIfAccepted_ite (sender : Node) (ok : Bool) (storage : ForgetfulStorage) :
    WelcomesIfAccepted sender s (if !ok then (false, s)
      else (true, { s.spawn (.welcomeIfNew sender) with storage := storage })) := by
  cases ok with
  | false => exact .refused
  | true => exact .accepted storage

theorem rpcUpdate_welcomes : WelcomesIfAccepted (source senderId peer) s
    (p.rpcUpdate now senderId peer key value authSignature s) := by
  unfold rpcUpdate
  split
  · exact .refused
  · exact welcomesIfAccepted_ite _ _ _

theorem rpcUpdateStatusList_welcomes : WelcomesIfAccepted (source senderId peer) s
    (p.rpcUpdateStatusList now senderId peer key value s) := by
  unfold rpcUpdateStatusList
  split
  · exact .refused
  · exact welcomesIfAccepted_ite _ _ _

theorem rpcDelete_welcomes : WelcomesIfAccepted (source senderId peer) s
    (p.rpcDelete now senderId peer key authSignature deleteMsg s) := by
  unfold rpcDelete
  split
  · exact .refused
  · exact welcomesIfAccepted_ite _ _ _

theorem WelcomesIfAccepted.sigCache {sender : Node} {r : Bool × NodeState}
    (h : WelcomesIfAccepted sender s r) : r.2.sigCache = s.sigCache := by
  cases h <;> rfl

/-- Without a cache the handlers do not create one. -/
theorem dispatchRequest_sigCache {msg : RpcMessage} {answer : Option RpcMessage}
    (hnone : s.sigCache = none) (h : p.dispatchRequest now fuel msg peer s = some (answer, s')) :
    s'.sigCache = none := by
  cases msg with
  | store senderId key value =>
      obtain ⟨rfl, rfl⟩ := Prod.mk.inj (Option.some.inj h)
      exact rpcStore_sigCache hnone
  | update senderId key value authSignature =>
      obtain ⟨rfl, rfl⟩ := Prod.mk.inj (Option.some.inj h)
      exact rpcUpdate_welcomes.sigCache.trans hnone
  | updateStatusList senderId key value =>
      obtain ⟨rfl, rfl⟩ := Prod.mk.inj (Option.some.inj h)
      exact rpcUpdateStatusList_welcomes.sigCache.trans hnone
  | delete senderId key authSignature deleteMsg =>
      obtain ⟨rfl, rfl⟩ := Prod.mk.inj (Option.some.inj h)
      exact rpcDelete_welcomes.sigCache.trans hnone
  | findValue senderId key =>
      obtain ⟨⟨result, r⟩, hr, heq⟩ := Option.map_eq_some_iff.mp h
      have hsame := (rpcFindValue_sameRecords hr).2
      cases result <;> obtain ⟨-, rfl⟩ := Prod.mk.inj heq <;> exact hsame.trans hnone
  | _ =>
      obtain ⟨rfl, rfl⟩ := Prod.mk.inj (Option.some.inj h)
      exact hnone

theorem step_request {r r' : Snapshot} {msg : RpcMessage} :
    p.step r (.request now fuel msg peer) = some r' ↔
      p.dispatchRequest now fuel msg peer r.state = some (r'.answer, r'.state) := by
  rw [step, Option.map_eq_some_iff]
  constructor
  · rintro ⟨⟨answer, s'⟩, hd, rfl⟩
    exact hd
  · exact fun hd => ⟨_, hd, rfl⟩

/-- An event other than a request keeps the store, and the cache up to dropped entries. -/
theorem step_of_not_request {r r' : Snapshot} {e : NodeEvent} (h : p.step r e = some r')
    (he : ∀ now fuel msg peer, e ≠ .request now fuel msg peer) :
    r'.answer = none ∧ r'.state.storage = r.state.storage ∧
      (r.state.sigCache = none → r'.state.sigCache = none) := by
  cases e with
  | request now fuel msg peer => exact absurd rfl (he now fuel msg peer)
  | response msg peer =>
      obtain rfl := Option.some.inj h
      cases msg <;> exact ⟨rfl, rfl, id⟩
  | task now fuel i result =>
      simp only [step] at h
      split at h
      · obtain rfl := Option.some.inj h
        exact ⟨rfl, rfl, id⟩
      · obtain ⟨s', hs, rfl⟩ := Option.map_eq_some_iff.mp h
        obtain ⟨hst, hcache⟩ := runTask_sameRecords hs
        exact ⟨rfl, hst, fun hnone => hcache.trans hnone⟩
  | cacheDrop key =>
      obtain rfl := Option.some.inj h
      exact ⟨rfl, rfl, fun hnone => by simp [hnone]⟩

/-- **Only an accepted request changes the store.** -/
theorem step_storage {r r' : Snapshot} {e : NodeEvent} (h : p.step r e = some r') :
    (r'.answer.any RpcMessage.isAccept = false ∧ r'.state.storage = r.state.storage) ∨
      ∃ now fuel msg peer, e = .request now fuel msg peer ∧ p.Accepts now r.state msg ∧
        r'.answer.any RpcMessage.isAccept = true ∧
        r'.state.storage = msg.applyTo now r.state.storage := by
  by_cases he : ∃ now fuel msg peer, e = .request now fuel msg peer
  · obtain ⟨now, fuel, msg, peer, rfl⟩ := he
    have hd := step_request.mp h
    have hst := dispatchRequest_storage hd
    by_cases hacc : r'.answer.any RpcMessage.isAccept = true
    · rw [if_pos hacc] at hst
      exact Or.inr ⟨now, fuel, msg, peer, rfl, (dispatchRequest_accepted_iff hd).mp hacc,
        hacc, hst⟩
    · rw [if_neg hacc] at hst
      exact Or.inl ⟨by simpa using hacc, hst⟩
  · obtain ⟨hans, hst, -⟩ := step_of_not_request h fun now fuel msg peer heq =>
      he ⟨now, fuel, msg, peer, heq⟩
    exact Or.inl ⟨by rw [hans]; rfl, hst⟩

/-- A node without a cache stays without one. -/
theorem step_sigCache {r r' : Snapshot} {e : NodeEvent} (hnone : r.state.sigCache = none)
    (h : p.step r e = some r') : r'.state.sigCache = none := by
  by_cases he : ∃ now fuel msg peer, e = .request now fuel msg peer
  · obtain ⟨now, fuel, msg, peer, rfl⟩ := he
    exact dispatchRequest_sigCache hnone (step_request.mp h)
  · exact (step_of_not_request h fun now fuel msg peer heq =>
      he ⟨now, fuel, msg, peer, heq⟩).2.2 hnone

/-- The `ttl` never changes. -/
theorem step_ttl {r r' : Snapshot} {e : NodeEvent} (h : p.step r e = some r') :
    r'.state.storage.ttl = r.state.storage.ttl := by
  rcases step_storage h with ⟨-, hst⟩ | ⟨now, fuel, msg, peer, -, -, -, hst⟩
  · rw [hst]
  · rw [hst, RpcMessage.ttl_applyTo]

/-! ## Replication tasks -/

/-- The replications that were not waiting before are of records in the store. -/
def Replicates (s s' : NodeState) : Prop :=
  ∀ node key value, Task.callStoreRpc node key value ∈ s'.tasks →
    Task.callStoreRpc node key value ∈ s.tasks ∨ ∃ written, s.record key = some (value, written)

theorem replicates_of_tasks (h : ∀ node key value, Task.callStoreRpc node key value ∈ s'.tasks →
    Task.callStoreRpc node key value ∈ s.tasks) : Replicates s s' :=
  fun node key value hmem => .inl (h node key value hmem)

theorem replicates_spawn {task : Task} (h : s'.tasks = s.tasks ++ [task])
    (htask : ∀ node key value, task ≠ .callStoreRpc node key value) : Replicates s s' := by
  intro node key value hmem
  rw [h] at hmem
  rcases List.mem_append.mp hmem with hmem | hmem
  · exact .inl hmem
  · exact absurd (List.mem_singleton.mp hmem).symm (htask node key value)

theorem mem_of_mem_keysToReplicate {node : Node} {entries : List (Bytes × Bytes)}
    {router : RoutingTable} (h : (key, value) ∈ (p.keysToReplicate now node router entries).1) :
    (key.bytes, value) ∈ entries := by
  induction entries generalizing router with
  | nil => simp [keysToReplicate] at h
  | cons entry entries ih =>
      rcases entry with ⟨keyVec, v⟩
      unfold keysToReplicate at h
      split at h
      · rename_i hlen
        dsimp only at h
        split at h
        · rcases List.mem_cons.mp h with heq | h
          · cases heq
            exact List.mem_cons_self
          · exact List.mem_cons_of_mem _ (ih h)
        · exact List.mem_cons_of_mem _ (ih h)
      · exact List.mem_cons_of_mem _ (ih h)

theorem welcomeIfNew_replicates {node : Node} (h : p.welcomeIfNew now fuel node s = some s') :
    Replicates s s' := by
  unfold welcomeIfNew at h
  split at h
  · cases h
    exact replicates_of_tasks fun _ _ _ => id
  · rcases Option.map_eq_some_iff.mp h with ⟨⟨lru, router⟩, -, rfl⟩
    intro node' key value hmem
    simp only [foldl_spawn] at hmem
    rcases List.mem_append.mp hmem with hmem | hmem
    · left
      cases lru with
      | none => exact hmem
      | some lruNode =>
          rcases List.mem_append.mp hmem with hmem | hmem
          · exact hmem
          · cases List.mem_singleton.mp hmem
    · right
      rcases List.mem_map.mp hmem with ⟨⟨key', value'⟩, hkeys, heq⟩
      cases heq
      exact ForgetfulStorage.entry_of_mem_iterAll (mem_of_mem_keysToReplicate hkeys)

theorem rpcStore_replicates : Replicates s (p.rpcStore now senderId peer key value s).2 := by
  unfold rpcStore
  dsimp only
  split
  · split
    · exact replicates_of_tasks fun _ _ _ => id
    · exact replicates_spawn rfl (by simp)
  · split
    · exact replicates_of_tasks fun _ _ _ => id
    · exact replicates_spawn rfl (by simp)

theorem WelcomesIfAccepted.replicates {sender : Node} {r : Bool × NodeState}
    (h : WelcomesIfAccepted sender s r) : Replicates s r.2 := by
  cases h with
  | refused => exact replicates_of_tasks fun _ _ _ => id
  | accepted storage => exact replicates_spawn rfl (by simp)

theorem dispatchRequest_replicates {msg : RpcMessage} {answer : Option RpcMessage}
    (h : p.dispatchRequest now fuel msg peer s = some (answer, s')) : Replicates s s' := by
  cases msg with
  | ping senderId => cases h; exact replicates_spawn rfl (by simp)
  | store senderId key value => cases h; exact rpcStore_replicates
  | update senderId key value authSignature => cases h; exact rpcUpdate_welcomes.replicates
  | updateStatusList senderId key value => cases h; exact rpcUpdateStatusList_welcomes.replicates
  | delete senderId key authSignature deleteMsg => cases h; exact rpcDelete_welcomes.replicates
  | findNode senderId key => cases h; exact replicates_spawn rfl (by simp)
  | findValue senderId key =>
      rcases Option.map_eq_some_iff.mp h with ⟨⟨result, r⟩, hr, heq⟩
      rcases Option.map_eq_some_iff.mp hr with ⟨w, hw, hwr⟩
      have htasks : s'.tasks = w.tasks := by
        split at hwr <;> cases hwr <;> cases heq <;> rfl
      intro node key' value' hmem
      rw [htasks] at hmem
      exact welcomeIfNew_replicates hw node key' value' hmem
  | _ => cases h; exact replicates_of_tasks fun _ _ _ => id

theorem runTask_replicates {result : CallResult} {task : Task}
    (h : p.runTask now fuel result s task = some s') : Replicates s s' := by
  cases task with
  | welcomeIfNew node => exact welcomeIfNew_replicates h
  | callPingNode node =>
      cases h
      unfold callPingNode
      split
      · exact replicates_of_tasks fun _ _ _ => id
      · split <;> exact replicates_of_tasks fun _ _ _ => id
  | callStoreRpc node key value =>
      cases h
      unfold callStoreRpc
      split
      · exact replicates_of_tasks fun _ _ _ => id
      · split <;> exact replicates_of_tasks fun _ _ _ => id

/-- **Every replication is of a record that was in the store when it was decided.** -/
theorem step_replicates {r r' : Snapshot} {e : NodeEvent} (h : p.step r e = some r') :
    Replicates r.state r'.state := by
  cases e with
  | request now fuel msg peer => exact dispatchRequest_replicates (step_request.mp h)
  | response msg peer =>
      cases h
      cases msg with
      | pong senderId => exact replicates_spawn rfl (by simp)
      | _ => exact replicates_of_tasks fun _ _ _ => id
  | task now fuel i result =>
      simp only [step] at h
      split at h
      · cases h
        exact replicates_of_tasks fun _ _ _ => id
      · rcases Option.map_eq_some_iff.mp h with ⟨s', hs, rfl⟩
        intro node key value hmem
        rcases runTask_replicates hs node key value hmem with hold | hrecord
        · exact .inl (List.mem_of_mem_eraseIdx hold)
        · exact .inr hrecord
  | cacheDrop key =>
      cases h
      exact replicates_of_tasks fun _ _ _ => id

end Protocol

end AuthKademlia
