import AuthKademlia.Authorization
import AuthKademlia.Lib.Optimistic

/-!
# Handlers running concurrently

`rpc_update`, `rpc_update_status_list` and `rpc_delete` read the stored value, suspend
while a blocking thread verifies the request against it, and then write unconditionally.
`rpc_store` verifies first and writes with one atomic `insert_if_absent`.  Workers run any
number of them at the same time, so their steps interleave.

The handlers are cut into their steps (`handlerStep`); `serve_eq_runSteps` shows that the
steps of one handler in a row are the handler of the sequential model.  On the store the
steps are those of a read–check–commit transaction (`exec_view`).

Nothing protects the value read until the write, and `lost_update` is the consequence:
two updates that were both verified against the same record both take effect.
`linearisable_of_undisturbed` is the positive side: as long as no request that matters to
a handler takes effect between its read and its write, the interleaving has the outcome
of some sequential order.

## Main definitions

* `WriteRequest.serve`, `serveAll` — the handlers one at a time.
* `WriteRequest.readStep`, `verifyStep`, `writeStep`, `handlerStep` — the interleaving.
* `Undisturbed` — no disturbing write falls between a read and its write.
-/

namespace AuthKademlia

open Lib Protocol

/-- The requests that write to the store. -/
inductive WriteOp where
  | store (key : NodeId) (value : Bytes)
  | update (key : NodeId) (value authSignature : Bytes)
  | updateStatusList (key : NodeId) (value : Bytes)
  | delete (key : NodeId) (authSignature deleteMsg : Bytes)

namespace WriteOp

def key : WriteOp → NodeId
  | store key _ => key
  | update key _ _ => key
  | updateStatusList key _ => key
  | delete key _ _ => key

def isStore : WriteOp → Bool
  | store _ _ => true
  | _ => false

/-- The verification of a request, given the signature cache and the value read. -/
def verification (p : Protocol) (cache : Option SignatureCache) (old : Option Bytes) :
    WriteOp → Bool
  | store key value => (AuthKademlia.verifyForKey p.hash p.signatureHandler cache key value).1
  | update _ value authSignature => old.any fun oldValue =>
      unwrapOrFalse (p.signatureHandler.handleUpdateVerification value oldValue authSignature)
  | updateStatusList _ value =>
      unwrapOrFalse (p.signatureHandler.handleIssuerNodeSignatureVerification value)
  | delete _ authSignature deleteMsg => old.any fun value =>
      unwrapOrFalse
        (p.signatureHandler.handleSignatureDeleteOperation value authSignature deleteMsg)

end WriteOp

/-- A request with its sender. -/
structure WriteRequest where
  senderId : NodeId
  peer : SocketAddr
  op : WriteOp

/-! ## The handlers and their steps -/

namespace WriteRequest

/-- Run the handler of a request to its end. -/
def serve (p : Protocol) (now : ℕ) (q : WriteRequest) (s : NodeState) : Bool × NodeState :=
  match q.op with
  | .store key value => p.rpcStore now q.senderId q.peer key value s
  | .update key value authSignature =>
      p.rpcUpdate now q.senderId q.peer key value authSignature s
  | .updateStatusList key value => p.rpcUpdateStatusList now q.senderId q.peer key value s
  | .delete key authSignature deleteMsg =>
      p.rpcDelete now q.senderId q.peer key authSignature deleteMsg s

/-- Read the stored value; `rpc_store` does not need it. -/
def readStep (now : ℕ) (q : WriteRequest) (s : NodeState) : Phase (Option Bytes) :=
  if q.op.isStore then .hasRead none
  else
    match s.storage.get now q.op.key.bytes with
    | none => .done false
    | some old => .hasRead (some old)

/-- What an invalid signature has for its sender: a strike, and with enough of them the
removal from the routing table. -/
def punish (q : WriteRequest) (s : NodeState) : NodeState :=
  let (strikes, s) := strike q.senderId s
  if strikes ≥ invalidSigBanThreshold then
    { s with router := s.router.removeContact (source q.senderId q.peer) }
  else s.spawn (.welcomeIfNew (source q.senderId q.peer))

/-- Verify the request against the value read. -/
def verifyStep (p : Protocol) (q : WriteRequest) (old : Option Bytes) (s : NodeState) :
    Phase (Option Bytes) × NodeState :=
  match q.op with
  | .store key value =>
      let (valid, s) := p.verifyForKey key value s
      if !valid then (.done false, q.punish s) else (.checked old, s)
  | op => (if op.verification p s.sigCache old then .checked old else .done false, s)

/-- Write, whatever is stored by now; only `rpc_store` looks again. -/
def writeStep (now : ℕ) (q : WriteRequest) (s : NodeState) : Bool × NodeState :=
  let welcome := s.spawn (.welcomeIfNew (source q.senderId q.peer))
  match q.op with
  | .store key value =>
      let (inserted, storage) := s.storage.insertIfAbsent now key.bytes value
      if !inserted then (false, { s with storage := storage })
      else (true, { welcome with storage := storage })
  | .update key value _ => (true, { welcome with storage := s.storage.set now key.bytes value })
  | .updateStatusList key value =>
      (true, { welcome with storage := s.storage.set now key.bytes value })
  | .delete key _ _ => (true, { welcome with storage := s.storage.delete key.bytes })

/-- The steps of one handler without interruption. -/
def runSteps (p : Protocol) (now : ℕ) (q : WriteRequest) (s : NodeState) : Bool × NodeState :=
  match q.readStep now s with
  | .hasRead old =>
      match q.verifyStep p old s with
      | (.checked _, s) => q.writeStep now s
      | (_, s) => (false, s)
  | _ => (false, s)

/-- **The steps in a row are the handler.** -/
theorem serve_eq_runSteps (p : Protocol) (now : ℕ) (q : WriteRequest) (s : NodeState) :
    q.serve p now s = q.runSteps p now s := by
  obtain ⟨senderId, peer, op⟩ := q
  cases op with
  | store key value =>
      simp only [serve, rpcStore, runSteps, readStep, WriteOp.isStore, if_true, verifyStep]
      generalize p.verifyForKey key value s = r
      obtain ⟨valid, s⟩ := r
      cases valid with
      | false =>
          simp only [Bool.not_false, if_true, punish]
          by_cases hban : (strike senderId s).1 ≥ invalidSigBanThreshold <;> simp [hban]
      | true =>
          simp only [Bool.not_true, Bool.false_eq_true, if_false, writeStep]
          split <;> simp_all [NodeState.spawn]
  | update key value authSignature =>
      simp only [serve, rpcUpdate, runSteps, readStep, WriteOp.isStore, WriteOp.key, verifyStep,
        Bool.false_eq_true, if_false]
      cases s.storage.get now key.bytes with
      | none => rfl
      | some old => 
          by_cases hok : unwrapOrFalse
            (p.signatureHandler.handleUpdateVerification value old authSignature) = true <;>
          simp [hok, WriteOp.verification, writeStep, NodeState.spawn]
  | updateStatusList key value =>
      simp only [serve, rpcUpdateStatusList, runSteps, readStep, WriteOp.isStore, WriteOp.key,
        verifyStep, Bool.false_eq_true, if_false]
      cases s.storage.get now key.bytes with
      | none => rfl
      | some old =>
          by_cases hok : unwrapOrFalse
            (p.signatureHandler.handleIssuerNodeSignatureVerification value) = true <;>
          simp [hok, WriteOp.verification, writeStep, NodeState.spawn]
  | delete key authSignature deleteMsg =>
      simp only [serve, rpcDelete, runSteps, readStep, WriteOp.isStore, WriteOp.key, verifyStep,
        Bool.false_eq_true, if_false]
      cases s.storage.get now key.bytes with
      | none => rfl
      | some old =>
          by_cases hok : unwrapOrFalse (p.signatureHandler.handleSignatureDeleteOperation old
            authSignature deleteMsg) = true <;>
          simp [hok, WriteOp.verification, writeStep, NodeState.spawn]

end WriteRequest

section Interleaving

variable {ι : Type*} [DecidableEq ι]

/-- Let handler `i` do its next step. -/
def handlerStep (p : Protocol) (requests : ι → WriteRequest)
    (cfg : Config ι NodeState (Option Bytes)) (e : ι × ℕ) :
    Option (Config ι NodeState (Option Bytes)) :=
  let (i, now) := e
  match cfg.phase i with
  | .ready => some (cfg.advance i ((requests i).readStep now cfg.state) cfg.state)
  | .hasRead old =>
      let (next, s) := (requests i).verifyStep p old cfg.state
      some (cfg.advance i next s)
  | .checked _ =>
      let (ok, s) := (requests i).writeStep now cfg.state
      some (cfg.advance i (.done ok) s)
  | .done _ => none

omit [DecidableEq ι] in
/-- The requests one at a time. -/
def serveAll (p : Protocol) (requests : ι → WriteRequest) :
    List (ι × ℕ) → NodeState → List (ι × Bool) × NodeState
  | [], s => ([], s)
  | (i, now) :: order, s =>
      let (ok, s') := (requests i).serve p now s
      let (answers, s'') := serveAll p requests order s'
      ((i, ok) :: answers, s'')

end Interleaving

/-! ## On the store the steps are a transaction -/

/-- The transaction of a request on the store, with its verification as it is under the
signature cache `cache`. -/
def WriteOp.transaction (p : Protocol) (cache : Option SignatureCache) (op : WriteOp) :
    Transaction ℕ ForgetfulStorage (Option Bytes) where
  read now storage := if op.isStore then some none else (storage.get now op.key.bytes).map some
  check old := op.verification p cache old
  commit now storage :=
    match op with
    | .store key value => storage.insertIfAbsent now key.bytes value
    | .update key value _ => (true, storage.set now key.bytes value)
    | .updateStatusList key value => (true, storage.set now key.bytes value)
    | .delete key _ _ => (true, storage.delete key.bytes)

section Steps

variable {p : Protocol} {cache : Option SignatureCache} {now : ℕ} {q : WriteRequest}
  {old : Option Bytes} {s : NodeState}

theorem readStep_eq :
    q.readStep now s =
      ((q.op.transaction p cache).read now s.storage).elim (.done false) .hasRead := by
  simp only [WriteRequest.readStep, WriteOp.transaction]
  split
  · rfl
  · cases s.storage.get now q.op.key.bytes <;> rfl

/-- Only the verdict of a store depends on the cache. -/
theorem verification_congr {op : WriteOp} {cache' : Option SignatureCache}
    (h : ∀ key value, op = .store key value →
      (verifyForKey p.hash p.signatureHandler cache' key value).1 =
        (verifyForKey p.hash p.signatureHandler cache key value).1) :
    op.verification p cache' old = op.verification p cache old := by
  cases op with
  | store key value => exact h key value rfl
  | _ => rfl

theorem punish_sameRecords : SameRecords s (q.punish s) := by
  unfold WriteRequest.punish
  simp only
  split <;> exact ⟨rfl, rfl⟩

theorem verifyStep_spec :
    (q.verifyStep p old s).1 =
        (if q.op.verification p s.sigCache old then .checked old else .done false) ∧
      (q.verifyStep p old s).2.storage = s.storage ∧
      (q.verifyStep p old s).2.sigCache =
        match q.op with
        | .store key value =>
            (verifyForKey p.hash p.signatureHandler s.sigCache key value).2
        | _ => s.sigCache := by
  obtain ⟨senderId, peer, op⟩ := q
  cases op with
  | store key value =>
      simp only [WriteRequest.verifyStep, WriteOp.verification, Protocol.verifyForKey]
      by_cases hv : (verifyForKey p.hash p.signatureHandler s.sigCache key value).1 = true
      · simp [hv]
      · simp [hv, (punish_sameRecords (q := _)).1, (punish_sameRecords (q := _)).2]
  | _ => exact ⟨rfl, rfl, rfl⟩

theorem writeStep_spec :
    ((q.writeStep now s).1, (q.writeStep now s).2.storage) =
        (q.op.transaction p cache).commit now s.storage ∧
      (q.writeStep now s).2.sigCache = s.sigCache := by
  obtain ⟨senderId, peer, op⟩ := q
  cases op with
  | store key value =>
      simp only [WriteRequest.writeStep, WriteOp.transaction]
      by_cases hok : (s.storage.insertIfAbsent now key.bytes value).1 = true <;>
        simp [hok, NodeState.spawn, Prod.ext_iff]
  | _ => exact ⟨rfl, rfl⟩

theorem runSteps_of_hasRead (h : q.readStep now s = .hasRead old) :
    q.runSteps p now s =
      if q.op.verification p s.sigCache old then q.writeStep now (q.verifyStep p old s).2
      else (false, (q.verifyStep p old s).2) := by
  have hnext := (@verifyStep_spec p q old s).1
  rw [WriteRequest.runSteps, h]
  simp only
  generalize q.verifyStep p old s = r at hnext ⊢
  obtain ⟨next, s'⟩ := r
  obtain rfl : _ = next := hnext.symm
  by_cases hok : q.op.verification p s.sigCache old = true <;> simp [hok]

end Steps

section Refinement

variable {ι : Type*} {p : Protocol} {requests : ι → WriteRequest} {key : NodeId}
  {cache : Option SignatureCache} {s : NodeState}

/-- A verification under a key does not change the verdict on another record under the
same key, unless their hashes collide. -/
theorem verifyForKey_after {hash : HashLib} {handler : SignatureVerifierHandler}
    {value value' : Bytes}
    (h : cache = none ∨ (hash.sha256 value' = hash.sha256 value → value' = value)) :
    (verifyForKey hash handler (verifyForKey hash handler cache key value).2 key value').1 =
      (verifyForKey hash handler cache key value').1 := by
  cases cache with
  | none => rfl
  | some c =>
      have hinj := h.resolve_left (by simp)
      simp only [verifyForKey, verifyCached, SignatureCache.getByKey, SignatureCache.computeKey]
      cases hl : c.lookup (hash.sha256 value) with
      | some b => rfl
      | none =>
          by_cases hcheck : checkDirectly handler (key = digest hash statusListKey) value = true
          · simp only [hcheck, if_true, SignatureCache.insertByKey]
            by_cases heq : hash.sha256 value' = hash.sha256 value
            · obtain rfl := hinj heq
              simp [hl, hcheck]
            · rw [AList.lookup_insert_ne heq]
              cases c.lookup (hash.sha256 value') <;> rfl
          · simp only [hcheck, Bool.false_eq_true, if_false]

/-- The requests are about one key, and the cache cannot confuse the records they store:
it is disabled or their hashes differ. -/
structure OnKey (p : Protocol) (key : NodeId) (requests : ι → WriteRequest)
    (cache : Option SignatureCache) : Prop where
  key_eq : ∀ i, (requests i).op.key = key
  collision_free : cache = none ∨
    Set.InjOn p.hash.sha256 {value | ∃ i, (requests i).op = .store key value}

/-- Every verdict is still the one under the cache `cache`. -/
structure Settled (p : Protocol) (requests : ι → WriteRequest) (cache : Option SignatureCache)
    (s : NodeState) : Prop where
  verdict : ∀ i old, (requests i).op.verification p s.sigCache old =
    (requests i).op.verification p cache old
  disabled : cache = none → s.sigCache = none

theorem Settled.congr {s' : NodeState} (h : Settled p requests cache s)
    (heq : s'.sigCache = s.sigCache) : Settled p requests cache s' :=
  ⟨fun i old => by rw [heq, h.verdict], fun hnone => by rw [heq, h.disabled hnone]⟩

theorem Settled.verifyStep (hon : OnKey p key requests cache) (h : Settled p requests cache s)
    (j : ι) (old : Option Bytes) :
    Settled p requests cache ((requests j).verifyStep p old s).2 := by
  have hcache := (@verifyStep_spec p (requests j) old s).2.2
  cases hj : (requests j).op with
  | store key' value =>
      rw [hj] at hcache
      obtain rfl : key' = key := by simpa [hj, WriteOp.key] using hon.key_eq j
      constructor
      · intro i old'
        rw [← h.verdict, hcache]
        refine verification_congr fun key'' value' hi => ?_
        obtain rfl : key'' = key' := by simpa [hi, WriteOp.key] using hon.key_eq i
        exact verifyForKey_after (hon.collision_free.imp h.disabled fun hinj heq =>
          hinj ⟨i, hi⟩ ⟨j, hj⟩ heq)
      · intro hnone
        rw [hcache, h.disabled hnone]
        rfl
  | _ =>
      rw [hj] at hcache
      exact h.congr hcache

/-- What the interleaving looks like on the store. -/
def view (cfg : Config ι NodeState (Option Bytes)) : Config ι ForgetfulStorage (Option Bytes) :=
  ⟨cfg.state.storage, cfg.phase⟩

theorem view_advance [DecidableEq ι] (cfg : Config ι NodeState (Option Bytes)) (i : ι)
    (next : Phase (Option Bytes)) (s : NodeState) :
    view (cfg.advance i next s) = (view cfg).advance i next s.storage := rfl

variable [DecidableEq ι] {cfg cfg' : Config ι NodeState (Option Bytes)}

/-- **One step of a handler is one step of its transaction.** -/
theorem step_view (hon : OnKey p key requests cache) (hs : Settled p requests cache cfg.state)
    {e : ι × ℕ} (h : handlerStep p requests cfg e = some cfg') :
    (view cfg).step (fun i => (requests i).op.transaction p cache) e = some (view cfg') ∧
      Settled p requests cache cfg'.state := by
  obtain ⟨i, now⟩ := e
  have hphase : (view cfg).phase i = cfg.phase i := rfl
  cases hi : cfg.phase i with
  | ready =>
      obtain rfl : cfg.advance i ((requests i).readStep now cfg.state) cfg.state = cfg' := by
        simpa [handlerStep, hi] using h
      rw [Config.step_of_ready (hphase.trans hi), view_advance, @readStep_eq p cache]
      exact ⟨rfl, hs⟩
  | hasRead old =>
      obtain rfl : cfg.advance i ((requests i).verifyStep p old cfg.state).1
          ((requests i).verifyStep p old cfg.state).2 = cfg' := by
        simpa [handlerStep, hi] using h
      obtain ⟨hnext, hstorage, -⟩ := @verifyStep_spec p (requests i) old cfg.state
      rw [Config.step_of_hasRead (hphase.trans hi), view_advance, hnext, hstorage, hs.verdict]
      exact ⟨rfl, hs.verifyStep hon i old⟩
  | checked old =>
      obtain rfl : cfg.advance i (.done ((requests i).writeStep now cfg.state).1)
          ((requests i).writeStep now cfg.state).2 = cfg' := by
        simpa [handlerStep, hi] using h
      obtain ⟨hcommit, hcache⟩ := @writeStep_spec p cache now (requests i) cfg.state
      have hstate : (view cfg).state = cfg.state.storage := rfl
      rw [Config.step_of_checked (hphase.trans hi), view_advance, hstate, ← hcommit]
      exact ⟨rfl, hs.congr hcache⟩
  | done ok => simp [handlerStep, hi] at h

variable {init : NodeState}

omit [DecidableEq ι] in
theorem settled_init : Settled p requests init.sigCache init := ⟨fun _ _ => rfl, id⟩

/-- **The interleaving of the handlers refines that of their transactions.** -/
theorem exec_view (hon : OnKey p key requests init.sigCache) {steps : List (ι × ℕ)}
    (h : exec (handlerStep p requests) (Config.start init) steps = some cfg) :
    exec (Config.step fun i => (requests i).op.transaction p init.sigCache)
        (Config.start init.storage) steps = some (view cfg) ∧
      Settled p requests init.sigCache cfg.state := by
  refine exec_history (fun steps cfg => exec (Config.step fun i =>
    (requests i).op.transaction p init.sigCache) (Config.start init.storage) steps =
      some (view cfg) ∧ Settled p requests init.sigCache cfg.state) ⟨rfl, settled_init⟩ ?_ h
  rintro steps cfg e cfg' - ⟨hexec, hs⟩ hstep
  obtain ⟨hview, hs'⟩ := step_view hon hs hstep
  exact ⟨by rw [exec_concat, hexec, Option.bind_some, hview], hs'⟩

omit [DecidableEq ι] in
/-- A handler run to its end is its transaction run atomically. -/
theorem serve_view (hon : OnKey p key requests cache) (hs : Settled p requests cache s) (i : ι)
    (now : ℕ) :
    (((requests i).serve p now s).1, ((requests i).serve p now s).2.storage) =
        ((requests i).op.transaction p cache).run now s.storage ∧
      Settled p requests cache ((requests i).serve p now s).2 := by
  rw [WriteRequest.serve_eq_runSteps, Transaction.run]
  have hreadStep := @readStep_eq p cache now (requests i) s
  cases hread : ((requests i).op.transaction p cache).read now s.storage with
  | none =>
      rw [hread] at hreadStep
      rw [WriteRequest.runSteps, hreadStep]
      exact ⟨rfl, hs⟩
  | some old =>
      rw [hread] at hreadStep
      rw [runSteps_of_hasRead hreadStep, hs.verdict]
      have hstorage := (@verifyStep_spec p (requests i) old s).2.1
      have hs' := hs.verifyStep hon i old
      have hcheck : ((requests i).op.transaction p cache).check old =
          (requests i).op.verification p cache old := rfl
      simp only [hcheck]
      by_cases hok : (requests i).op.verification p cache old = true
      · obtain ⟨hcommit, hcache⟩ :=
          @writeStep_spec p cache now (requests i) ((requests i).verifyStep p old s).2
        rw [hstorage] at hcommit
        rw [if_pos hok, if_pos hok]
        exact ⟨hcommit, hs'.congr hcache⟩
      · rw [if_neg hok, if_neg hok, hstorage]
        exact ⟨rfl, hs'⟩

omit [DecidableEq ι] in
/-- **The handlers one at a time refine the transactions one at a time.** -/
theorem serveAll_view (hon : OnKey p key requests cache) (hs : Settled p requests cache s)
    (order : List (ι × ℕ)) :
    ((serveAll p requests order s).1, (serveAll p requests order s).2.storage) =
      runAll (fun i => (requests i).op.transaction p cache) order s.storage := by
  induction order generalizing s with
  | nil => rfl
  | cons e order ih =>
      obtain ⟨i, now⟩ := e
      obtain ⟨hserve, hs'⟩ := serve_view hon hs i now
      have hrest := ih hs'
      simp only [serveAll, runAll, ← hserve, ← hrest]

end Refinement

/-! ## What a waiting request needs -/

namespace WriteOp

/-- The verification is against the stored value. -/
def needsOldValue : WriteOp → Bool
  | update _ _ _ => true
  | delete _ _ _ => true
  | _ => false

def isDelete : WriteOp → Bool
  | delete _ _ _ => true
  | _ => false

/-- The write of a request changes the store: `rpc_store` gives way to a live value. -/
def TakesEffect (now : ℕ) (storage : ForgetfulStorage) (op : WriteOp) : Prop :=
  op.isStore = true → storage.get now op.key.bytes = none

/-- What a write means for a request that has read and not yet written.  An update or a
deletion needs the very value it read, a status-list update only that there is one. -/
def Disturbs (written waiting : WriteOp) : Prop :=
  waiting.needsOldValue = true ∨ waiting.isStore = false ∧ written.isDelete = true

/-- The stored value is not expired, if there is one. -/
def Fresh (now : ℕ) (storage : ForgetfulStorage) (op : WriteOp) : Prop :=
  ∀ value written, storage.entry op.key.bytes = some (value, written) →
    storage.isExpired now written = false

/-- What a request needs of its read is still in the store. -/
def Intact (storage : ForgetfulStorage) (old : Option Bytes) (op : WriteOp) : Prop :=
  op.isStore = false → ∃ value written, storage.entry op.key.bytes = some (value, written) ∧
    (op.needsOldValue = true → old = some value)

variable {p : Protocol} {cache : Option SignatureCache} {now : ℕ} {storage : ForgetfulStorage}
  {old old' : Option Bytes} {op op' : WriteOp}

theorem isStore_of_needsOldValue (h : op.needsOldValue = true) : op.isStore = false := by
  cases op <;> first | rfl | cases h

theorem verification_of_not_needsOldValue (h : op.needsOldValue = false) :
    op.verification p cache old = op.verification p cache old' := by
  cases op <;> first | rfl | cases h

theorem intact_of_read (h : (op.transaction p cache).read now storage = some old) :
    op.Intact storage old := by
  intro hstore
  simp only [transaction, hstore, Bool.false_eq_true, if_false] at h
  obtain ⟨value, hget, rfl⟩ := Option.map_eq_some_iff.mp h
  obtain ⟨written, hentry, -⟩ := ForgetfulStorage.get_eq_some.mp hget
  exact ⟨value, written, hentry, fun _ => rfl⟩

/-- A write without effect leaves the store as it is. -/
theorem commit_of_not_takesEffect (h : ¬op.TakesEffect now storage) :
    ((op.transaction p cache).commit now storage).2 = storage := by
  simp only [TakesEffect, Classical.not_imp] at h
  obtain ⟨hstore, hlive⟩ := h
  cases op with
  | store key value =>
      have hlive : storage.get now key.bytes ≠ none := hlive
      simp [transaction, ForgetfulStorage.insertIfAbsent_eq, hlive]
  | _ => cases hstore

/-- A write with effect leaves a value, unless it is a deletion. -/
theorem entry_commit (h : op.TakesEffect now storage) (hdelete : op.isDelete = false) :
    ∃ value, ((op.transaction p cache).commit now storage).2.entry op.key.bytes =
      some (value, now) := by
  cases op with
  | store key value =>
      have hnone : storage.get now key.bytes = none := h rfl
      refine ⟨value, ?_⟩
      simp [transaction, ForgetfulStorage.insertIfAbsent_eq, hnone, WriteOp.key]
  | update key value authSignature => exact ⟨value, ForgetfulStorage.entry_set_self⟩
  | updateStatusList key value => exact ⟨value, ForgetfulStorage.entry_set_self⟩
  | delete key authSignature deleteMsg => cases hdelete

/-- **A write that does not disturb a request leaves intact what it needs.** -/
theorem Intact.commit (h : op.Intact storage old) (hkey : op'.key = op.key)
    (hundisturbed : op'.TakesEffect now storage → ¬op'.Disturbs op) :
    op.Intact ((op'.transaction p cache).commit now storage).2 old := by
  by_cases heffect : op'.TakesEffect now storage
  · intro hstore
    have hnot := hundisturbed heffect
    simp only [Disturbs, hstore, true_and, not_or, Bool.not_eq_true] at hnot
    obtain ⟨value, hentry⟩ := @entry_commit p cache now storage op' heffect hnot.2
    rw [hkey] at hentry
    refine ⟨value, now, hentry, fun hneeds => ?_⟩
    rw [hnot.1] at hneeds
    cases hneeds
  · rw [commit_of_not_takesEffect heffect]
    exact h

/-- A request whose read is intact finds a value, and the one it read if that matters. -/
theorem Intact.get_eq_some (h : op.Intact storage old) (hstore : op.isStore = false)
    (hfresh : op.Fresh now storage) :
    ∃ value, storage.get now op.key.bytes = some value ∧
      (op.needsOldValue = true → old = some value) := by
  obtain ⟨value, written, hentry, hold⟩ := h hstore
  exact ⟨value, ForgetfulStorage.get_eq_some.mpr ⟨written, hentry, hfresh _ _ hentry⟩, hold⟩

/-- A request whose read is intact would pass again. -/
theorem Intact.passes (h : op.Intact storage old)
    (hfresh : op.isStore = false → op.Fresh now storage)
    (hcheck : op.verification p cache old = true) :
    (op.transaction p cache).Passes now storage := by
  by_cases hstore : op.isStore = true
  · cases op with
    | store key value => exact ⟨none, rfl, hcheck⟩
    | _ => cases hstore
  · rw [Bool.not_eq_true] at hstore
    obtain ⟨value, hget, hold⟩ := h.get_eq_some hstore (hfresh hstore)
    refine ⟨some value, by simp [transaction, hstore, hget], ?_⟩
    by_cases hneeds : op.needsOldValue = true
    · rw [← hold hneeds]
      exact hcheck
    · rw [Bool.not_eq_true] at hneeds
      exact (verification_of_not_needsOldValue hneeds).trans hcheck

end WriteOp

/-! ## Undisturbed interleavings -/

section Undisturbed

variable {ι : Type*} [DecidableEq ι] {p : Protocol} {requests : ι → WriteRequest} {key : NodeId}
  {init : NodeState} {steps : List (ι × ℕ)} {cfg cfg' : Config ι NodeState (Option Bytes)} {i : ι}
  {now : ℕ} {old : Option Bytes}

/-- Handler `i` is at its write, having read `old`, when the run has come to `cfg`. -/
def WritesAt (p : Protocol) (requests : ι → WriteRequest) (init : NodeState)
    (steps : List (ι × ℕ)) (i : ι) (now : ℕ) (cfg : Config ι NodeState (Option Bytes))
    (old : Option Bytes) : Prop :=
  ∃ before, (before ++ [(i, now)]).IsPrefix steps ∧
    exec (handlerStep p requests) (Config.start init) before = some cfg ∧
    cfg.phase i = .checked old

/-- Handler `i` is between its read and its write, and its verification succeeds. -/
def Waiting (p : Protocol) (requests : ι → WriteRequest)
    (cfg : Config ι NodeState (Option Bytes)) (i : ι) (old : Option Bytes) : Prop :=
  cfg.phase i = .checked old ∨
    cfg.phase i = .hasRead old ∧ (requests i).op.verification p cfg.state.sigCache old = true

/-- No write takes effect that disturbs a waiting handler, and no value expires while a
handler is about to replace it. -/
structure Undisturbed (p : Protocol) (requests : ι → WriteRequest) (init : NodeState)
    (steps : List (ι × ℕ)) : Prop where
  exclusive : ∀ j now cfg r, WritesAt p requests init steps j now cfg r →
    (requests j).op.TakesEffect now cfg.state.storage →
    ∀ i ≠ j, ∀ old, Waiting p requests cfg i old → ¬(requests j).op.Disturbs (requests i).op
  fresh : ∀ i now cfg old, WritesAt p requests init steps i now cfg old →
    (requests i).op.isStore = false → (requests i).op.Fresh now cfg.state.storage

omit [DecidableEq ι] in
theorem waiting_view {cache : Option SignatureCache} (hs : Settled p requests cache cfg.state) :
    (view cfg).Waiting (fun i => (requests i).op.transaction p cache) i old ↔
      Waiting p requests cfg i old := by
  rw [Waiting, hs.verdict]
  rfl

/-- **What the waiting handlers have read stays intact** along an undisturbed run. -/
theorem intact_of_undisturbed (hon : OnKey p key requests init.sigCache)
    (hund : Undisturbed p requests init steps) {before : List (ι × ℕ)}
    (hbefore : before.IsPrefix steps)
    (h : exec (handlerStep p requests) (Config.start init) before = some cfg)
    (hwait : Waiting p requests cfg i old) : (requests i).op.Intact cfg.state.storage old := by
  refine exec_history (fun before cfg => before.IsPrefix steps → ∀ i old,
    Waiting p requests cfg i old → (requests i).op.Intact cfg.state.storage old) ?_ ?_ h hbefore
    i old hwait
  · rintro - i old (hwait | ⟨hwait, -⟩) <;> cases hwait
  · rintro before cfg ⟨j, now⟩ cfg' hexec ih hstep hbefore i old hwait
    have hs := (exec_view hon hexec).2
    obtain ⟨hview, hs'⟩ := step_view hon hs hstep
    refine Config.waiting_step (fun i old storage => (requests i).op.Intact storage old)
      (fun _ => WriteOp.intact_of_read) ?_ ?_ hview ((waiting_view hs').mpr hwait)
    · intro r hphase i hij old hwait
      rw [waiting_view hs] at hwait
      have hintact := ih ((List.prefix_append _ _).trans hbefore) i old hwait
      refine hintact.commit ((hon.key_eq j).trans (hon.key_eq i).symm) fun heffect => ?_
      exact hund.exclusive j now cfg r ⟨before, hbefore, hexec, hphase⟩ heffect i hij old hwait
    · intro i old hwait
      exact ih ((List.prefix_append _ _).trans hbefore) i old ((waiting_view hs).mp hwait)

/-- **Undisturbed handlers are linearisable.**  Requests for one key run concurrently and
all finish.  If no write that takes effect disturbs a handler between its read and its
write, then serving the requests one at a time in some order leaves the same store and
gives the same answers; and every update and deletion is written over the value it was
verified against. -/
theorem linearisable_of_undisturbed (hon : OnKey p key requests init.sigCache)
    (hrun : exec (handlerStep p requests) (Config.start init) steps = some cfg)
    (hdone : ∀ i, ∃ ok, cfg.phase i = .done ok) (hund : Undisturbed p requests init steps) :
    (∃ order : List (ι × ℕ), order.Sublist steps ∧ (order.map Prod.fst).Nodup ∧
      (∀ i, i ∈ order.map Prod.fst) ∧
      (serveAll p requests order init).2.storage = cfg.state.storage ∧
      ∀ i ok, cfg.phase i = .done ok → (i, ok) ∈ (serveAll p requests order init).1) ∧
    ∀ i now cfg' old, WritesAt p requests init steps i now cfg' old →
      (requests i).op.needsOldValue = true → old.isSome ∧ cfg'.state.stored now key = old := by
  constructor
  · obtain ⟨hexec, -⟩ := exec_view hon hrun
    obtain ⟨order, horder⟩ := exists_sequential hexec (by
      intro before i now cfg₁ old hbefore hexec₁ hphase hcheck
      obtain ⟨rest, rfl⟩ := hbefore
      rw [List.append_assoc, exec_append] at hrun
      obtain ⟨cfg₂, hcfg₂, -⟩ := Option.bind_eq_some_iff.mp hrun
      obtain ⟨hview, hs⟩ := exec_view hon hcfg₂
      obtain rfl : view cfg₂ = cfg₁ := Option.some.inj (hview.symm.trans hexec₁)
      have hintact := intact_of_undisturbed hon hund
        ((List.prefix_append _ _).trans (List.prefix_append _ _)) hcfg₂ (Or.inl hphase)
      exact hintact.passes
        (hund.fresh i now cfg₂ old ⟨before, List.prefix_append _ _, hcfg₂, hphase⟩) hcheck)
    have hserve := serveAll_view hon settled_init order
    have hanswers := congrArg Prod.fst hserve
    refine ⟨order, horder.sublist, horder.nodup, fun i => ?_, ?_, fun i ok hi => ?_⟩
    · obtain ⟨ok, hok⟩ := hdone i
      rw [← map_fst_runAll]
      exact List.mem_map_of_mem (horder.mem_answers hok)
    · exact (congrArg Prod.snd hserve).trans horder.state_eq
    · exact hanswers ▸ horder.mem_answers hi
  · rintro i now cfg' old ⟨before, hbefore, hexec, hphase⟩ hneeds
    have hstore := WriteOp.isStore_of_needsOldValue hneeds
    have hintact := intact_of_undisturbed hon hund ((List.prefix_append _ _).trans hbefore) hexec
      (Or.inl hphase)
    obtain ⟨value, hget, hold⟩ := hintact.get_eq_some hstore
      (hund.fresh i now cfg' old ⟨before, hbefore, hexec, hphase⟩ hstore)
    rw [hon.key_eq] at hget
    rw [hold hneeds]
    exact ⟨rfl, hget⟩

end Undisturbed

open Sample

namespace Sample

/-- A's edit and a second attempt to store a record under the key. -/
def overlap : Bool → WriteRequest
  | false => ⟨peerId, peerAddr, .update deviceKey recordA1 authA1⟩
  | true => ⟨peerId, peerAddr, .store deviceKey recordB⟩

/-- The store comes and goes between the read and the write of the edit. -/
def overlapSteps : List (Bool × ℕ) :=
  [(false, 1), (true, 2), (false, 3), (true, 4), (true, 5), (false, 6)]

/-- At either write the record is still version zero, and the edit is the last one. -/
def overlapCheck (cfg : Config Bool NodeState (Option Bytes)) (e : Bool × ℕ) : Bool :=
  match cfg.phase e.1 with
  | .checked _ =>
      cfg.state.storage.ttl = -1 && cfg.state.stored e.2 deviceKey = some recordA0 &&
        (e.1 || cfg.phase true = .done false)
  | _ => true

theorem overlap_writesAt {i : Bool} {now : ℕ} {cfg : Config Bool NodeState (Option Bytes)}
    {old : Option Bytes}
    (h : WritesAt sampleProtocol overlap (holding deviceKey recordA0) overlapSteps i now cfg old) :
    overlapCheck cfg (i, now) = true := by
  obtain ⟨before, ⟨rest, hsteps⟩, hexec, -⟩ := h
  have hall : ∀ k < overlapSteps.length,
      (exec (handlerStep sampleProtocol overlap) (Config.start (holding deviceKey recordA0))
        (overlapSteps.take k)).all (fun cfg => (overlapSteps.drop k).head?.all (overlapCheck cfg)) =
          true := by
    decide +kernel
  have hlt : before.length < overlapSteps.length := by
    rw [← hsteps]
    simp
  have htake : overlapSteps.take before.length = before := by
    rw [← hsteps]
    simp
  have hdrop : (overlapSteps.drop before.length).head? = some (i, now) := by
    rw [← hsteps]
    simp
  have hk := hall before.length hlt
  rw [htake, hdrop, hexec] at hk
  exact hk

theorem overlap_undisturbed :
    Undisturbed sampleProtocol overlap (holding deviceKey recordA0) overlapSteps where
  exclusive j now cfg r hwrites heffect i hij old hwait := by
    have hcheck := overlap_writesAt hwrites
    obtain ⟨-, -, -, hphase⟩ := hwrites
    simp only [overlapCheck, hphase, Bool.and_eq_true, decide_eq_true_eq, Bool.or_eq_true] at hcheck
    cases j with
    | true => exact absurd ((heffect rfl).symm.trans hcheck.1.2) (by simp)
    | false =>
        obtain rfl : i = true := by simpa using hij
        have hdone : cfg.phase true = .done false := by simpa using hcheck.2
        simp [Waiting, hdone] at hwait
  fresh i now cfg old hwrites hstore value written hentry := by
    have hcheck := overlap_writesAt hwrites
    obtain ⟨-, -, -, hphase⟩ := hwrites
    simp only [overlapCheck, hphase, Bool.and_eq_true, decide_eq_true_eq, Bool.or_eq_true] at hcheck
    simp [ForgetfulStorage.isExpired, hcheck.1.1]

end Sample

/-- The store is refused, the edit goes through, and some order explains both. -/
theorem linearisable_overlap :
    ∃ cfg, exec (handlerStep sampleProtocol overlap) (Config.start (holding deviceKey recordA0))
        overlapSteps = some cfg ∧
      cfg.phase false = .done true ∧ cfg.phase true = .done false ∧
      ∃ order : List (Bool × ℕ), (order.map Prod.fst).Nodup ∧ (∀ i, i ∈ order.map Prod.fst) ∧
        (serveAll sampleProtocol overlap order (holding deviceKey recordA0)).2.storage =
          cfg.state.storage ∧
        (false, true) ∈ (serveAll sampleProtocol overlap order (holding deviceKey recordA0)).1 ∧
        (true, false) ∈ (serveAll sampleProtocol overlap order (holding deviceKey recordA0)).1 := by
  have hrun : (exec (handlerStep sampleProtocol overlap)
      (Config.start (holding deviceKey recordA0)) overlapSteps).map
        (fun cfg => (cfg.phase false, cfg.phase true)) = some (.done true, .done false) := by
    decide +kernel
  obtain ⟨cfg, hcfg, heq⟩ := Option.map_eq_some_iff.mp hrun
  obtain ⟨hfalse, htrue⟩ := Prod.mk.inj heq
  have hon : OnKey sampleProtocol deviceKey overlap (holding deviceKey recordA0).sigCache :=
    ⟨Bool.forall_bool.mpr ⟨rfl, rfl⟩, Or.inl rfl⟩
  obtain ⟨⟨order, -, hnodup, hall, hstorage, hanswers⟩, -⟩ :=
    linearisable_of_undisturbed hon hcfg
      (Bool.forall_bool.mpr ⟨⟨true, hfalse⟩, ⟨false, htrue⟩⟩) overlap_undisturbed
  exact ⟨cfg, hcfg, hfalse, htrue, order, hnodup, hall, hstorage, hanswers _ _ hfalse,
    hanswers _ _ htrue⟩

/-! ## Two updates of one record -/

/-- What an update that is answered with success leaves behind, and on what grounds. -/
theorem serve_update_ok {p : Protocol} {now : ℕ} {q : WriteRequest} {key : NodeId}
    {value authSignature : Bytes} {s : NodeState} (hq : q.op = .update key value authSignature)
    (h : (q.serve p now s).1 = true) :
    (q.serve p now s).2.storage = s.storage.set now key.bytes value ∧
      ∃ old, s.stored now key = some old ∧
        p.signatureHandler.handleUpdateVerification value old authSignature = .ok true := by
  obtain ⟨senderId, peer, op⟩ := q
  obtain rfl : op = _ := hq
  obtain ⟨hiff, hst⟩ := @rpcUpdate_spec p now senderId key peer value authSignature s
  have haccepted : (p.rpcUpdate now senderId peer key value authSignature s).1 = true := h
  rw [if_pos haccepted] at hst
  exact ⟨hst, hiff.mp haccepted⟩

namespace Sample

/-- Holder A hands the record over to B and, at the same time, edits it. -/
def race : Bool → WriteRequest
  | false => ⟨peerId, peerAddr, .update deviceKey recordB authB⟩
  | true => ⟨peerId, peerAddr, .update deviceKey recordA1 authA1⟩

/-- Both requests read, both are verified, and then they write. -/
def raceSteps : List (Bool × ℕ) :=
  [(false, 1), (true, 2), (false, 3), (true, 4), (false, 5), (true, 6)]

/-- One at a time, the two requests are not both answered with success and leave A's
edit: after the hand-over the edit is verified against B's record, and after the edit the
hand-over leaves B's record. -/
theorem race_not_sequential {order : List (Bool × ℕ)}
    (hperm : (order.map Prod.fst).Perm [false, true]) :
    ¬((∀ i, (i, true) ∈ (serveAll sampleProtocol race order (holding deviceKey recordA0)).1) ∧
      (serveAll sampleProtocol race order (holding deviceKey recordA0)).2.stored 7 deviceKey =
        some recordA1) := by
  rintro ⟨hanswers, hstored⟩
  obtain ⟨⟨i, t⟩, ⟨j, u⟩, rfl⟩ : ∃ e f, order = [e, f] :=
    List.length_eq_two.mp (by simpa using hperm.length_eq)
  have hij : i ≠ j := by simpa using hperm.nodup_iff.mpr (by decide)
  obtain ⟨hi, hj⟩ : ((race i).serve sampleProtocol t (holding deviceKey recordA0)).1 = true ∧
      ((race j).serve sampleProtocol u
        ((race i).serve sampleProtocol t (holding deviceKey recordA0)).2).1 = true :=
    ⟨by simpa [serveAll, hij] using hanswers i, by simpa [serveAll, hij.symm] using hanswers j⟩
  cases i with
  | false =>
      obtain rfl : j = true := by simpa using hij.symm
      obtain ⟨hst, -⟩ := serve_update_ok rfl hi
      obtain ⟨-, old, hold, hcheck⟩ := serve_update_ok rfl hj
      rw [NodeState.stored, hst, ForgetfulStorage.get_of_forever rfl,
        ForgetfulStorage.entry_set_self] at hold
      obtain rfl : recordB = old := Option.some.inj hold
      exact absurd hcheck (by decide +kernel)
  | true =>
      obtain rfl : j = false := by simpa using hij.symm
      obtain ⟨hst, -⟩ := serve_update_ok rfl hi
      obtain ⟨hst', -⟩ := serve_update_ok rfl hj
      simp only [serveAll, NodeState.stored] at hstored
      rw [hst', hst, ForgetfulStorage.get_of_forever rfl, ForgetfulStorage.entry_set_self]
        at hstored
      have hne : recordB ≠ recordA1 := by decide +kernel
      exact hne (Option.some.inj hstored)

end Sample

/-- The hand-over to B and A's edit are both verified against version zero and both
answered with success, and the record ends up as A's edit, written over B's record.  In
no order would the requests, one at a time, be answered like this and leave that. -/
theorem lost_update :
    (∃ cfg, WritesAt sampleProtocol race (holding deviceKey recordA0) raceSteps true 6 cfg
        (some recordA0) ∧ cfg.state.stored 6 deviceKey = some recordB) ∧
    ∃ cfg, exec (handlerStep sampleProtocol race) (Config.start (holding deviceKey recordA0))
        raceSteps = some cfg ∧
      (∀ i, cfg.phase i = .done true) ∧ cfg.state.stored 7 deviceKey = some recordA1 ∧
      ∀ order : List (Bool × ℕ), (order.map Prod.fst).Perm [false, true] →
        ¬((∀ i, (i, true) ∈
            (serveAll sampleProtocol race order (holding deviceKey recordA0)).1) ∧
          (serveAll sampleProtocol race order (holding deviceKey recordA0)).2.stored 7 deviceKey =
            some recordA1) := by
  have hrace : (exec (handlerStep sampleProtocol race) (Config.start (holding deviceKey recordA0))
      raceSteps).map (fun cfg => (cfg.phase false, cfg.phase true,
        cfg.state.stored 7 deviceKey)) = some (.done true, .done true, some recordA1) := by
    decide +kernel
  have hlast : (exec (handlerStep sampleProtocol race) (Config.start (holding deviceKey recordA0))
      raceSteps.dropLast).map (fun cfg => (cfg.phase true, cfg.state.stored 6 deviceKey)) =
        some (.checked (some recordA0), some recordB) := by
    decide +kernel
  obtain ⟨cfg, hcfg, heq⟩ := Option.map_eq_some_iff.mp hrace
  simp only [Prod.mk.injEq] at heq
  obtain ⟨cfg', hcfg', heq'⟩ := Option.map_eq_some_iff.mp hlast
  simp only [Prod.mk.injEq] at heq'
  refine ⟨⟨cfg', ⟨raceSteps.dropLast, List.prefix_rfl, hcfg', heq'.1⟩, heq'.2⟩, cfg, hcfg,
    Bool.forall_bool.mpr ⟨heq.1, heq.2.1⟩, heq.2.2, fun order => race_not_sequential⟩

end AuthKademlia
