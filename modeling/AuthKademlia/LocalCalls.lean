import AuthKademlia.RecordRules

/-!
# One call at a time

A call of the server that no other call or request interleaves with, in arbitrary
surroundings: time passes while it waits, its lookups end in any way they can, and its
requests get any response or none.

Each part of a call has one lemma that says what it returns and leaves behind, and `set` and
`update` are read off them: `SetWrites.run`, `run_update_of_passes`.

## Main definitions

* `acknowledges`, `anyAcknowledged` — the responses that count as success.
* `Surroundings` — what a call meets while it waits.
* `Server.SearchEnd` — how the search that `set` begins with can end.
* `Server.searchNodes`, `Server.publishNodes` — the nodes `set` and `update` publish to.
* `Server.SetWrites`, `Server.UpdatePasses` — the conditions under which they do.
-/

namespace AuthKademlia

open Lib Protocol

/-! ## Responses -/

/-- The response counts as success. -/
def acknowledges (request : Node × RpcMessage) : CallResult → Bool
  | .response msg => request.1.address.isSome && (acknowledged request.2 msg).getD false
  | _ => false

/-- One of the requests is acknowledged. -/
def anyAcknowledged : List (Node × RpcMessage) → (ℕ → CallResult) → Bool
  | [], _ => false
  | request :: rest, results =>
      acknowledges request (results 0) || anyAcknowledged rest fun i => results (i + 1)

theorem callRpc_fst (request : Node × RpcMessage) (result : CallResult) (s : NodeState) :
    (callRpc request.1 request.2 result s).1 = acknowledges request result := by
  unfold callRpc
  cases haddr : request.1.address with
  | none => cases result <;> simp [acknowledges, haddr]
  | some addr =>
      cases result with
      | badAddress => rfl
      | noResponse => rfl
      | response msg => cases hack : acknowledged request.2 msg <;> simp [acknowledges, haddr, hack]

theorem any_settle (requests : List (Node × RpcMessage)) (results : ℕ → CallResult)
    (s : NodeState) : (settle requests results s).1.any id = anyAcknowledged requests results := by
  induction requests generalizing results s with
  | nil => rfl
  | cons request rest ih =>
      simp only [settle, List.any_cons, id, ih, anyAcknowledged]
      rw [callRpc_fst request]

/-! ## A call and its surroundings -/

/-- What a call meets: the answers to its questions, and the time that passes before
each. -/
structure Surroundings (sv : Server) where
  answers : ∀ q, Answer sv q
  delay : Question → ℕ

namespace Surroundings

variable {sv : Server} {α β : Type}

def run (env : Surroundings sv) (m : ServerProcess sv α) (s : ServerState) : ServerState × α :=
  m.runAmid (fun q s => { s with now := s.now + env.delay q }) env.answers s

variable (env : Surroundings sv) (s : ServerState)

@[simp] theorem run_pure (a : α) : env.run (pure a) s = (s, a) := rfl

@[simp] theorem run_bind (m : ServerProcess sv α) (f : α → ServerProcess sv β) :
    env.run (m >>= f) s = env.run (f (env.run m s).2) (env.run m s).1 :=
  Process.runAmid_bind ..

@[simp] theorem run_yield :
    env.run sv.yield s = ({ s with now := s.now + env.delay .yield }, ()) := rfl

@[simp] theorem run_storageGet (key : NodeId) :
    env.run (sv.storageGet key) s = (s, s.node.stored s.now key) := rfl

@[simp] theorem run_findNeighbors (target : Node) :
    env.run (sv.findNeighbors target) s =
      ({ s with node :=
          { s.node with router := (s.node.router.findNeighbors s.now target none).2 } },
        (s.node.router.findNeighbors s.now target none).1) := rfl

end Surroundings

/-- The store and the cache are as before. -/
structure RecordsKept (s s' : ServerState) : Prop where
  storage : s'.node.storage = s.node.storage
  sigCache : s'.node.sigCache = s.node.sigCache

namespace Server

variable {sv : Server} {env : Surroundings sv} {key : String} {dkey : NodeId} {value : Bytes}
  {authSignature : Option Bytes} {s : ServerState}

/-- The verdict of `verify_value`, from the cache of the state. -/
def passes (sv : Server) (s : ServerState) (key : String) (value : Bytes) : Bool :=
  (AuthKademlia.verifyValue sv.protocol.hash sv.protocol.signatureHandler s.node.sigCache
    key value).1

theorem run_verifyValue_snd (env : Surroundings sv) (s : ServerState) (key : String)
    (value : Bytes) : (env.run (sv.verifyValue key value) s).2 = sv.passes s key value := rfl

theorem storage_verifyValue (env : Surroundings sv) (s : ServerState) (key : String)
    (value : Bytes) :
    (env.run (sv.verifyValue key value) s).1.node.storage = s.node.storage := rfl

theorem now_verifyValue (env : Surroundings sv) (s : ServerState) (key : String)
    (value : Bytes) :
    (env.run (sv.verifyValue key value) s).1.now = s.now + env.delay .yield := rfl

theorem any_callAll (env : Surroundings sv) (s : ServerState)
    (requests : List (Node × RpcMessage)) :
    (env.run (sv.callAll requests) s).2.any id =
      anyAcknowledged requests (env.answers (.calls requests)) :=
  any_settle requests (env.answers (.calls requests)) s.node

theorem recordsKept_callAll (env : Surroundings sv) (s : ServerState)
    (requests : List (Node × RpcMessage)) :
    RecordsKept s (env.run (sv.callAll requests) s).1 := by
  have hquiet := quiet_settle requests (env.answers (.calls requests)) s.node
  exact ⟨hquiet.storage, hquiet.sigCache⟩

/-- What a value lookup sends on. -/
def copies (sv : Server) (target : Node) (outcome : ValueOutcome) : List (Node × RpcMessage) :=
  match outcome.value, outcome.cachedAt with
  | some v, some peer => [sv.storeRpc target.id v peer]
  | _, _ => []

/-- What a value lookup ends with and leaves behind. -/
structure LooksUp (env : Surroundings sv) (target : Node) (peers : List Node) (s : ServerState)
    (outcome : ValueOutcome) (r : ServerState × ValueOutcome) : Prop where
  result : r.2 = outcome
  records : RecordsKept s r.1
  outgoing : r.1.outgoing = s.outgoing ++ sv.copies target outcome
  now : outcome.value = none → r.1.now = s.now + env.delay (.valueLookup target peers)

theorem run_valueLookup_spec (env : Surroundings sv) (s : ServerState) (target : Node)
    (peers : List Node) :
    LooksUp env target peers s (ValueReply.outcome (env.answers (.valueLookup target peers)))
      (env.run (sv.valueLookup target peers) s) := by
  have hquiet := quiet_afterLookup
    (ValueReply.undialable (env.answers (.valueLookup target peers)))
    (ValueReply.outcome (env.answers (.valueLookup target peers))).history s.node
  -- The lookup alone, without the copy it may send on.
  have halone : ∀ r : ServerState × ValueOutcome,
      sv.copies target (ValueReply.outcome (env.answers (.valueLookup target peers))) = [] →
      r = ({ s with
          node := afterLookup (ValueReply.undialable (env.answers (.valueLookup target peers)))
            (ValueReply.outcome (env.answers (.valueLookup target peers))).history s.node
          now := s.now + env.delay (.valueLookup target peers) },
        ValueReply.outcome (env.answers (.valueLookup target peers))) →
      LooksUp env target peers s
        (ValueReply.outcome (env.answers (.valueLookup target peers))) r := by
    intro r hcopies hr
    subst hr
    exact ⟨rfl, ⟨hquiet.storage, hquiet.sigCache⟩, by simp [hcopies], fun _ => rfl⟩
  cases hvalue : (ValueReply.outcome (env.answers (.valueLookup target peers))).value with
  | none =>
      refine halone _ (by simp [copies, hvalue]) ?_
      simp only [Surroundings.run, valueLookup, Process.runAmid_bind, Process.runAmid_ask,
        Process.runAmid_lift, hvalue, Process.runAmid_pure]
  | some v =>
      cases hcached : (ValueReply.outcome (env.answers (.valueLookup target peers))).cachedAt with
      | none =>
          refine halone _ (by simp [copies, hvalue, hcached]) ?_
          simp only [Surroundings.run, valueLookup, Process.runAmid_bind, Process.runAmid_ask,
            Process.runAmid_lift, hvalue, hcached, Process.runAmid_pure]
      | some peer =>
          have hcall := recordsKept_callAll env
            { s with
              node := afterLookup (ValueReply.undialable (env.answers (.valueLookup target peers)))
                (ValueReply.outcome (env.answers (.valueLookup target peers))).history s.node
              now := s.now + env.delay (.valueLookup target peers) }
            [sv.storeRpc target.id v peer]
          simp only [Surroundings.run, valueLookup, Process.runAmid_bind, Process.runAmid_ask,
            Process.runAmid_lift, hvalue, hcached, Process.runAmid_pure]
          refine ⟨rfl, ?_, ?_, fun hnone => ?_⟩
          · exact ⟨hcall.storage.trans hquiet.storage, hcall.sigCache.trans hquiet.sigCache⟩
          · simp only [copies, hvalue, hcached]
            rfl
          · rw [hvalue] at hnone
            cases hnone

/-! ## Publishing -/

theorem closerThanFarthest_nil (target : Node) : sv.closerThanFarthest target [] = false := rfl

/-- The store after the copy of a call. -/
def withCopy (sv : Server) (dkey : NodeId) (value : Bytes) (nodes : List Node) (now : ℕ)
    (storage : ForgetfulStorage) : ForgetfulStorage :=
  if sv.closerThanFarthest (Node.fromId dkey) nodes then storage.set now dkey.bytes value
  else storage

theorem storage_storeLocally (env : Surroundings sv) (s : ServerState) (nodes : List Node) :
    (env.run (sv.storeLocally dkey value nodes) s).1.node.storage =
      sv.withCopy dkey value nodes s.now s.node.storage := by
  unfold storeLocally withCopy
  split <;> rfl

theorem sigCache_storeLocally (env : Surroundings sv) (s : ServerState) (nodes : List Node) :
    (env.run (sv.storeLocally dkey value nodes) s).1.node.sigCache = s.node.sigCache := by
  unfold storeLocally
  split <;> rfl

/-- `set_digest` writes the copy, and succeeds if a request is acknowledged. -/
theorem run_setDigest (env : Surroundings sv) (s : ServerState) (nodes : List Node)
    (hlistening : sv.listening = true) :
    (env.run (sv.setDigest dkey value nodes) s).2 =
        anyAcknowledged (nodes.map (sv.storeRpc dkey value))
          (env.answers (.calls (nodes.map (sv.storeRpc dkey value)))) ∧
      (env.run (sv.setDigest dkey value nodes) s).1.node.storage =
        sv.withCopy dkey value nodes s.now s.node.storage := by
  cases nodes with
  | nil => simp [setDigest, hlistening, anyAcknowledged, withCopy, closerThanFarthest_nil]
  | cons n ns =>
      simp only [setDigest, hlistening, Bool.not_true, Bool.false_eq_true, if_false,
        List.isEmpty_cons, Surroundings.run_bind, Surroundings.run_pure]
      exact ⟨any_callAll .., (recordsKept_callAll ..).storage.trans (storage_storeLocally ..)⟩

/-- Nothing is published to no nodes. -/
theorem run_setDigest_nil (env : Surroundings sv) (s : ServerState) :
    env.run (sv.setDigest dkey value []) s = (s, false) := by
  unfold setDigest
  split <;> rfl

/-- The neighbours `update` starts its lookup from, in the state after its checks. -/
def updatePeers (dkey : NodeId) (s : ServerState) : List Node :=
  (s.node.router.findNeighbors s.now (Node.fromId dkey) none).1

/-- The nodes `update_digest` publishes to. -/
def updateNodes (env : Surroundings sv) (dkey : NodeId) (s : ServerState) : List Node :=
  if sv.listening && !(updatePeers dkey s).isEmpty then
    NodeReply.nodes (env.answers (.nodeLookup (Node.fromId dkey) (updatePeers dkey s)))
  else []

/-- When `update_digest` writes its copy. -/
def updateTime (env : Surroundings sv) (dkey : NodeId) (s : ServerState) : ℕ :=
  s.now + env.delay (.nodeLookup (Node.fromId dkey) (updatePeers dkey s))

theorem recordsKept_nodeLookup (env : Surroundings sv) (s : ServerState) (target : Node)
    (peers : List Node) : RecordsKept s (env.run (sv.nodeLookup target peers) s).1 := by
  have hquiet := quiet_afterLookup (NodeReply.undialable (env.answers (.nodeLookup target peers)))
    (NodeReply.history (env.answers (.nodeLookup target peers))) s.node
  exact ⟨hquiet.storage, hquiet.sigCache⟩

/-- `update_digest` writes the copy, and succeeds if a request is acknowledged. -/
theorem run_updateDigest (env : Surroundings sv) (s : ServerState) :
    (env.run (sv.updateDigest key dkey value authSignature) s).2 =
        anyAcknowledged ((updateNodes env dkey s).map (sv.updateRpc key dkey value authSignature))
          (env.answers (.calls
            ((updateNodes env dkey s).map (sv.updateRpc key dkey value authSignature)))) ∧
      (env.run (sv.updateDigest key dkey value authSignature) s).1.node.storage =
        sv.withCopy dkey value (updateNodes env dkey s) (updateTime env dkey s)
          s.node.storage ∧
      (env.run (sv.updateDigest key dkey value authSignature) s).1.node.sigCache =
        s.node.sigCache := by
  cases hlistening : sv.listening with
  | false =>
      simp [updateDigest, updateNodes, hlistening, anyAcknowledged, withCopy,
        closerThanFarthest_nil]
  | true =>
      cases hpeers : (updatePeers dkey s).isEmpty with
      | true =>
          have hnone : (s.node.router.findNeighbors s.now (Node.fromId dkey) none).1 = [] :=
            List.isEmpty_iff.mp hpeers
          simp [updateDigest, updateNodes, hlistening, hpeers, hnone, anyAcknowledged, withCopy,
            closerThanFarthest_nil]
      | false =>
          have hsome : (s.node.router.findNeighbors s.now (Node.fromId dkey) none).1.isEmpty =
              false := hpeers
          have hnodes : updateNodes env dkey s = NodeReply.nodes
              (env.answers (.nodeLookup (Node.fromId dkey) (updatePeers dkey s))) := by
            simp [updateNodes, hlistening, hpeers]
          simp only [updateDigest, hlistening, Bool.not_true, Bool.false_eq_true, if_false,
            Surroundings.run_bind, Surroundings.run_findNeighbors, hsome, Surroundings.run_pure]
          rw [hnodes]
          refine ⟨any_callAll .., ?_, ?_⟩
          · refine (recordsKept_callAll ..).storage.trans ((storage_storeLocally ..).trans ?_)
            rw [(recordsKept_nodeLookup ..).storage]
            rfl
          · refine (recordsKept_callAll ..).sigCache.trans ?_
            refine (sigCache_storeLocally ..).trans ?_
            rw [(recordsKept_nodeLookup ..).sigCache]

/-! ## Searching -/

/-- The key is not stored here, and there is somebody to ask. -/
structure Searches (sv : Server) (key : String) (s : ServerState) : Prop where
  absent : s.node.stored s.now (digest sv.protocol.hash key) = none
  listening : sv.listening = true
  peers : sv.lookupPeers key s ≠ []

/-- The nodes that the search of `set` ends with. -/
def searchNodes (env : Surroundings sv) (key : String) (s : ServerState) : List Node :=
  if sv.listening && !(sv.lookupPeers key s).isEmpty then
    (sv.getReply key s env.answers).outcome.nodes
  else []

theorem searchNodes_eq_nil (env : Surroundings sv)
    (habsent : s.node.stored s.now (digest sv.protocol.hash key) = none)
    (h : ¬sv.Searches key s) : searchNodes env key s = [] := by
  unfold searchNodes
  split
  · rename_i hasks
    simp only [Bool.and_eq_true, Bool.not_eq_true', List.isEmpty_eq_false_iff] at hasks
    exact absurd ⟨habsent, hasks.1, hasks.2⟩ h
  · rfl

/-- A lookup that found a value names no nodes. -/
theorem nodes_eq_nil {target : Node} {peers : List Node}
    (reply : ValueReply sv target peers) {v : Bytes} (h : reply.outcome.value = some v) :
    reply.outcome.nodes = [] := by
  rcases Option.map_eq_some_iff.mp reply.ends with ⟨t, -, houtcome⟩
  rw [← houtcome] at h ⊢
  unfold ValueSpiderCrawl.outcome at h ⊢
  split
  · rfl
  · rename_i hempty
    rw [if_neg hempty] at h
    cases h

/-- The cases of the search that `get` and `set` begin with: here, and then in the
network. -/
theorem run_search {α : Type} {hit : Bytes → ServerProcess sv α} {miss : ServerProcess sv α}
    {found : ValueOutcome → ServerProcess sv α} {P : ServerState × α → Prop}
    (hhit : ∀ v, s.node.stored s.now (digest sv.protocol.hash key) = some v →
      P (env.run (hit v) s))
    (hmiss : ∀ s', s.node.stored s.now (digest sv.protocol.hash key) = none →
      ¬sv.Searches key s → RecordsKept s s' → s'.outgoing = s.outgoing →
      P (env.run miss s'))
    (hfound : ∀ s', sv.Searches key s → RecordsKept s s' →
      s'.outgoing = s.outgoing ++
        sv.copies (sv.lookupTarget key) (sv.getReply key s env.answers).outcome →
      ((sv.getReply key s env.answers).outcome.value = none → s'.now = s.now +
        env.delay (.valueLookup (sv.lookupTarget key) (sv.lookupPeers key s))) →
      P (env.run (found (sv.getReply key s env.answers).outcome) s')) :
    P (env.run (do
      match ← sv.storageGet (digest sv.protocol.hash key) with
      | some result => hit result
      | none =>
          if !sv.listening then miss
          else do
            let nearest ← sv.findNeighbors (Node.fromId (digest sv.protocol.hash key))
            if nearest.isEmpty then miss
            else do
              let outcome ←
                sv.valueLookup (Node.fromId (digest sv.protocol.hash key)) nearest
              found outcome) s) := by
  simp only [Surroundings.run_bind, Surroundings.run_storageGet]
  cases hstored : s.node.stored s.now (digest sv.protocol.hash key) with
  | some v => exact hhit v hstored
  | none =>
      dsimp only
      cases hlistening : sv.listening with
      | false =>
          refine hmiss s hstored (fun h => ?_) ⟨rfl, rfl⟩ rfl
          rw [h.listening] at hlistening
          cases hlistening
      | true =>
          simp only [Bool.not_true, Bool.false_eq_true, if_false, Surroundings.run_bind]
          split
          · rename_i hnone
            have hpeers : sv.lookupPeers key s = [] := List.isEmpty_iff.mp hnone
            exact hmiss _ hstored (fun h => h.peers hpeers) ⟨rfl, rfl⟩ rfl
          · rename_i hsome
            have hpeers : sv.lookupPeers key s ≠ [] := fun h => hsome (List.isEmpty_iff.mpr h)
            rw [Surroundings.run_bind]
            have hlookup := run_valueLookup_spec env
              { s with node := { s.node with router := (s.node.router.findNeighbors s.now
                (Node.fromId (digest sv.protocol.hash key)) none).2 } }
              (sv.lookupTarget key) (sv.lookupPeers key s)
            have hresult := hfound _ ⟨hstored, hlistening, hpeers⟩
              ⟨hlookup.records.storage, hlookup.records.sigCache⟩ hlookup.outgoing hlookup.now
            rw [← show _ = (sv.getReply key s env.answers).outcome from hlookup.result] at hresult
            exact hresult

/-- How `check_exists_and_get_nodes` can end. -/
inductive SearchEnd (env : Surroundings sv) (key : String) (s : ServerState) :
    ServerState × (Bool × List Node) → Prop
  | stored {v : Bytes} (hstored : s.node.stored s.now (digest sv.protocol.hash key) = some v) :
      SearchEnd env key s (s, true, [])
  | missed {s' : ServerState}
      (hstored : s.node.stored s.now (digest sv.protocol.hash key) = none)
      (hnone : sv.Searches key s → (sv.getReply key s env.answers).outcome.value = none)
      (hrecords : RecordsKept s s') (houtgoing : s'.outgoing = s.outgoing)
      (hnow : searchNodes env key s ≠ [] → s'.now = s.now +
        env.delay (.valueLookup (sv.lookupTarget key) (sv.lookupPeers key s))) :
      SearchEnd env key s (s', false, searchNodes env key s)
  | found {v : Bytes} {s' : ServerState} (hsearches : sv.Searches key s)
      (hvalue : (sv.getReply key s env.answers).outcome.value = some v)
      (hrecords : RecordsKept s s')
      (houtgoing : s'.outgoing = s.outgoing ++
        sv.copies (sv.lookupTarget key) (sv.getReply key s env.answers).outcome) :
      SearchEnd env key s
        ((env.run (sv.verifyValue key v) s').1, sv.passes s key v, [])

theorem passes_congr {s' : ServerState} (h : RecordsKept s s') (key : String) (value : Bytes) :
    sv.passes s' key value = sv.passes s key value := by
  rw [passes, passes, h.sigCache]

theorem searchEnd_checkExists (env : Surroundings sv) (key : String) (s : ServerState) :
    SearchEnd env key s (env.run (sv.checkExistsAndGetNodes key) s) := by
  refine run_search (fun v hstored => .stored hstored) ?_ ?_
  · intro s' hstored hnot hrecords houtgoing
    have hnodes := searchNodes_eq_nil env hstored hnot
    have hend := @SearchEnd.missed sv env key s s' hstored (fun h => absurd h hnot) hrecords
      houtgoing fun hne => absurd hnodes hne
    rw [hnodes] at hend
    exact hend
  · intro s' hsearches hrecords houtgoing hnow
    have hpeers : (sv.lookupPeers key s).isEmpty = false := by simpa using hsearches.peers
    have hnodes : searchNodes env key s = (sv.getReply key s env.answers).outcome.nodes := by
      simp [searchNodes, hsearches.listening, hpeers]
    cases hvalue : (sv.getReply key s env.answers).outcome.value with
    | none =>
        have hcopies : sv.copies (sv.lookupTarget key)
            (sv.getReply key s env.answers).outcome = [] := by
          simp [copies, hvalue]
        rw [hcopies, List.append_nil] at houtgoing
        dsimp only
        rw [← hnodes]
        exact .missed hsearches.absent (fun _ => hvalue) hrecords houtgoing fun _ => hnow hvalue
    | some v =>
        have hend := SearchEnd.found hsearches hvalue hrecords houtgoing
        have hnil := nodes_eq_nil (sv.getReply key s env.answers) hvalue
        simp only [Surroundings.run_bind, Surroundings.run_pure, run_verifyValue_snd,
          passes_congr hrecords, hnil]
        cases hpass : sv.passes s key v <;> rw [hpass] at hend <;> exact hend

/-! ## `set` -/

/-- `set` writes its own copy. -/
structure SetWrites (env : Surroundings sv) (key : String) (value : Bytes) (s : ServerState) :
    Prop where
  absent : s.node.stored s.now (digest sv.protocol.hash key) = none
  passes : sv.passes s key value = true
  closer : sv.closerThanFarthest (Node.fromId (digest sv.protocol.hash key))
    (searchNodes env key s) = true

/-- The requests of `set`. -/
def storeRequests (env : Surroundings sv) (key : String) (value : Bytes) (s : ServerState) :
    List (Node × RpcMessage) :=
  (searchNodes env key s).map (sv.storeRpc (digest sv.protocol.hash key) value)

theorem listening_of_searchNodes (h : searchNodes env key s ≠ []) : sv.listening = true := by
  unfold searchNodes at h
  split at h
  · rename_i hlistening
    simp only [Bool.and_eq_true] at hlistening
    exact hlistening.1
  · exact absurd rfl h

theorem SetWrites.nodes (h : SetWrites env key value s) : searchNodes env key s ≠ [] := by
  intro hnil
  have hcloser := h.closer
  rw [hnil, closerThanFarthest_nil] at hcloser
  cases hcloser

theorem SetWrites.run (h : SetWrites env key value s) :
    (env.run (sv.set key value) s).2 = some (anyAcknowledged (storeRequests env key value s)
        (env.answers (.calls (storeRequests env key value s)))) ∧
      ∃ now ≥ s.now, (env.run (sv.set key value) s).1.node.storage =
        s.node.storage.set now (digest sv.protocol.hash key).bytes value := by
  have hend := searchEnd_checkExists env key s
  simp only [set, Surroundings.run_bind]
  generalize hr : env.run (sv.checkExistsAndGetNodes key) s = r at hend ⊢
  cases hend with
  | stored hstored =>
      rw [h.absent] at hstored
      cases hstored
  | found hsearches hvalue hrecords houtgoing =>
      have hpeers : (sv.lookupPeers key s).isEmpty = false := by simpa using hsearches.peers
      have hnodes : searchNodes env key s = [] := by
        simp [searchNodes, hsearches.listening, hpeers, nodes_eq_nil _ hvalue]
      exact absurd hnodes h.nodes
  | @missed s' hstored _ hrecords houtgoing hnow =>
      have hpass : (env.run (sv.verifyValue key value) s').2 = true := by
        rw [run_verifyValue_snd, passes_congr hrecords, h.passes]
      have hdigest := @run_setDigest sv (digest sv.protocol.hash key) value env
        (env.run (sv.verifyValue key value) s').1 (searchNodes env key s)
        (listening_of_searchNodes h.nodes)
      simp only [Bool.false_eq_true, if_false, Surroundings.run_bind, hpass, Bool.not_true,
        Surroundings.run_pure]
      refine ⟨congrArg some hdigest.1, (env.run (sv.verifyValue key value) s').1.now, ?_,
        hdigest.2.trans ?_⟩
      · rw [now_verifyValue, hnow h.nodes]
        omega
      · rw [withCopy, if_pos h.closer, storage_verifyValue, hrecords.storage]

theorem storage_set_of_not_writes (h : ¬SetWrites env key value s) :
    (env.run (sv.set key value) s).1.node.storage = s.node.storage := by
  have hend := searchEnd_checkExists env key s
  simp only [set, Surroundings.run_bind]
  generalize hr : env.run (sv.checkExistsAndGetNodes key) s = r at hend ⊢
  cases hend with
  | stored hstored => rfl
  | @found v s' hsearches hvalue hrecords houtgoing =>
      dsimp only
      split
      · exact hrecords.storage
      · rw [Surroundings.run_bind]
        split
        · exact hrecords.storage
        · rw [Surroundings.run_bind, run_setDigest_nil]
          exact hrecords.storage
  | @missed s' hstored _ hrecords houtgoing hnow =>
      simp only [Bool.false_eq_true, if_false, Surroundings.run_bind, run_verifyValue_snd,
        passes_congr hrecords]
      cases hpass : sv.passes s key value with
      | false => exact hrecords.storage
      | true =>
          simp only [Bool.not_true, Bool.false_eq_true, if_false, Surroundings.run_bind,
            Surroundings.run_pure]
          by_cases hnodes : searchNodes env key s = []
          · rw [hnodes, run_setDigest_nil]
            exact hrecords.storage
          · rw [(run_setDigest env _ _ (listening_of_searchNodes hnodes)).2, withCopy, if_neg]
            · exact hrecords.storage
            · exact fun hcloser => h ⟨hstored, hpass, hcloser⟩

/-! ## `update` -/

/-- The state in which `update` has made its checks. -/
def updateState (env : Surroundings sv) (key : String) (s : ServerState) : ServerState :=
  { (env.run (sv.get key) s).1 with now := (env.run (sv.get key) s).1.now + env.delay .yield }

/-- The check of `update` passes against the value that `get` returns. -/
def UpdatePasses (env : Surroundings sv) (key : String) (value : Bytes)
    (authSignature : Option Bytes) (s : ServerState) : Prop :=
  ∃ oldValue, (env.run (sv.get key) s).2 = some oldValue ∧
    sv.updateCheck key value oldValue authSignature = .ok true

/-- The nodes `update` publishes to, and its requests to them. -/
def publishNodes (env : Surroundings sv) (key : String) (s : ServerState) : List Node :=
  updateNodes env (digest sv.protocol.hash key) (updateState env key s)

def updateRequests (env : Surroundings sv) (key : String) (value : Bytes)
    (authSignature : Option Bytes) (s : ServerState) : List (Node × RpcMessage) :=
  (publishNodes env key s).map
    (sv.updateRpc key (digest sv.protocol.hash key) value authSignature)

/-- When `update` writes its own copy. -/
def publishTime (env : Surroundings sv) (key : String) (s : ServerState) : ℕ :=
  updateTime env (digest sv.protocol.hash key) (updateState env key s)

theorem storage_get (env : Surroundings sv) (key : String) (s : ServerState) :
    (env.run (sv.get key) s).1.node.storage = s.node.storage := by
  refine @run_search sv env key s _ _ _ _ (fun r => r.1.node.storage = s.node.storage) ?_ ?_ ?_
  · intro v _
    rfl
  · intro s' _ _ hrecords _
    exact hrecords.storage
  · intro s' _ hrecords _ _
    cases (sv.getReply key s env.answers).outcome.value with
    | none => exact hrecords.storage
    | some v => exact hrecords.storage

theorem run_update_of_passes (h : UpdatePasses env key value authSignature s) :
    (env.run (sv.update key value authSignature) s).2 =
        some (anyAcknowledged (updateRequests env key value authSignature s)
          (env.answers (.calls (updateRequests env key value authSignature s)))) ∧
      (env.run (sv.update key value authSignature) s).1.node.storage =
        sv.withCopy (digest sv.protocol.hash key) value (publishNodes env key s)
          (publishTime env key s) s.node.storage ∧
      (env.run (sv.update key value authSignature) s).1.node.sigCache =
        (env.run (sv.get key) s).1.node.sigCache := by
  rcases h with ⟨oldValue, hget, hcheck⟩
  have hdigest := @run_updateDigest sv key (digest sv.protocol.hash key) value authSignature env
    (updateState env key s)
  have hstorage : (updateState env key s).node.storage = s.node.storage := storage_get env key s
  rw [hstorage] at hdigest
  have hpass : unwrapOrFalse (sv.updateCheck key value oldValue authSignature) = true :=
    unwrapOrFalse_eq_true.mpr hcheck
  simp only [update, blocking, Surroundings.run_bind, hget, Surroundings.run_yield,
    Surroundings.run_pure, hpass, Bool.not_true, Bool.false_eq_true, if_false]
  exact ⟨congrArg some hdigest.1, hdigest.2.1, hdigest.2.2⟩

theorem run_update_of_not_passes (h : ¬UpdatePasses env key value authSignature s) :
    (env.run (sv.update key value authSignature) s).2 = none ∧
      (env.run (sv.update key value authSignature) s).1.node.storage = s.node.storage := by
  have hstorage := storage_get env key s
  simp only [update, Surroundings.run_bind]
  cases hget : (env.run (sv.get key) s).2 with
  | none => exact ⟨rfl, hstorage⟩
  | some oldValue =>
      have hfails : unwrapOrFalse (sv.updateCheck key value oldValue authSignature) = false := by
        rw [Bool.eq_false_iff, ne_eq, unwrapOrFalse_eq_true]
        exact fun hcheck => h ⟨oldValue, hget, hcheck⟩
      simp only [blocking, Surroundings.run_bind, Surroundings.run_yield, Surroundings.run_pure,
        hfails, Bool.not_false, if_true]
      exact ⟨trivial, hstorage⟩

/-! ## Without a cache -/

theorem passes_uncached (h : s.node.sigCache = none) (key : String) (value : Bytes) :
    sv.passes s key value = sv.verifies key value := by
  simp [passes, AuthKademlia.verifyValue, verifyCached, h, verifies]

theorem uncached_verifyValue (env : Surroundings sv) (h : s.node.sigCache = none) (key : String)
    (value : Bytes) : (env.run (sv.verifyValue key value) s).1.node.sigCache = none := by
  change (AuthKademlia.verifyValue sv.protocol.hash sv.protocol.signatureHandler
    s.node.sigCache key value).2 = none
  simp [AuthKademlia.verifyValue, verifyCached, h]

theorem uncached_get (env : Surroundings sv) (key : String) (h : s.node.sigCache = none) :
    (env.run (sv.get key) s).1.node.sigCache = none := by
  refine @run_search sv env key s _ _ _ _ (fun r => r.1.node.sigCache = none) ?_ ?_ ?_
  · intro v _
    exact uncached_verifyValue env h key v
  · intro s' _ _ hrecords _
    exact hrecords.sigCache.trans h
  · intro s' _ hrecords _ _
    have hnone := hrecords.sigCache.trans h
    cases (sv.getReply key s env.answers).outcome.value with
    | none => exact hnone
    | some v => exact uncached_verifyValue env hnone key v

end Server

namespace Sample

/-- A network that answers lookups as `net` does and requests to write with `result`; time
passes before every answer. -/
noncomputable def within (sv : Server) (net : Network) (result : CallResult) :
    Surroundings sv where
  answers
    | .calls _ => fun _ => result
    | q => sv.answersFrom net 3 q
  delay _ := 1

/-- Nobody has any value, or knows any other node. -/
def noValues : Network := .fixed fun _ => naming []

/-- The first record of A is stored, and some contacts are known. -/
def holdingA0 (peers : List Node) : ServerState :=
  { knowing peers with
    node :=
      { (knowing peers).node with
        storage := (ForgetfulStorage.new (-1)).set 0 deviceKey.bytes recordA0 } }

end Sample

end AuthKademlia
