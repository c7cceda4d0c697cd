import AuthKademlia.Concurrency

/-!
# Handlers and tasks, cut at their awaits

A handler or a spawned task runs without interruption up to its next `.await` and is then
suspended until what it waits for is there: a blocking thread, the lock of the routing table,
or the response of a peer.  Meanwhile others run.  `Point` lists the places where a future
can be suspended, with the local variables it still needs, and `advance` is the code from
there to the next `.await`.

`liveStep` interleaves any number of futures.  The model of whole handlers is the special
case in which none is interrupted: `complete_beginRequest` and `complete_startTask` say this
of one future, `exists_live_step` of the node.

## Main definitions

* `Point`, `Progress` — where a future is suspended, and what it does next.
* `Protocol.beginRequest`, `Protocol.startTask`, `Protocol.advance` — the code between awaits.
* `LiveNode`, `LiveEvent`, `Protocol.liveStep` — the interleaving.
-/

namespace AuthKademlia

open Lib Protocol

/-- A place where a future of the node is suspended. -/
inductive Point where
  /-- `rpc_store`: a blocking thread verifies the record. -/
  | verifying (senderId : NodeId) (peer : SocketAddr) (key : NodeId) (value : Bytes)
  /-- `rpc_store`: the sender is to be removed from the table. -/
  | banning (sender : Node) (strikes : UInt32)
  /-- The other writing handlers: a blocking thread verifies the request. -/
  | checking (q : WriteRequest) (old : Bytes)
  /-- `rpc_find_node`: the table is to be searched. -/
  | searching (sender : Node) (key : NodeId)
  /-- `rpc_find_value`: the table is to be searched. -/
  | lookingUp (sender : Node) (key : NodeId)
  /-- `rpc_leave`: the sender is to be removed from the table. -/
  | leaving (sender : Node)
  /-- `welcome_if_new`: the table is to be asked for the node.  With a `lookup` it is
  `rpc_find_value` that awaits the welcome. -/
  | greeting (node : Node) (lookup : Option NodeId)
  /-- `welcome_if_new`: the entries of the store are to be filtered. -/
  | sampling (node : Node) (lookup : Option NodeId) (entries : List (Bytes × Bytes))
  /-- `welcome_if_new`: the node is to be added to the table. -/
  | adding (node : Node) (lookup : Option NodeId) (keys : List (NodeId × Bytes))
  /-- `call_ping_node`: waits for the pong. -/
  | pinging (node : Node)
  /-- `call_store_rpc`: waits for the result. -/
  | storing (peer : Node)
  /-- After a failed call: the node is to be removed from the table. -/
  | evicting (node : Node)

/-- What a future does at the end of a segment. -/
inductive Progress where
  | waits (point : Point)
  | returns (answer : Option RpcMessage)

/-- Where the future is suspended, if it goes on. -/
def Progress.pending : Progress → List Point
  | waits point => [point]
  | returns _ => []

theorem Progress.mem_pending {r : Progress} {point : Point} :
    point ∈ r.pending ↔ r = .waits point := by
  cases r <;> simp [pending, eq_comm]

theorem Progress.length_pending_le (r : Progress) : r.pending.length ≤ 1 := by
  cases r <;> simp [pending]

/-- The answer to a writing request. -/
def WriteOp.answer (ok : Bool) : WriteOp → RpcMessage
  | store _ _ => .storeResult ok
  | update _ _ _ => .updateResult ok
  | updateStatusList _ _ => .updateStatusListResult ok
  | delete _ _ _ => .deleteResult ok

/-! ## The code between awaits -/

namespace Protocol

variable (p : Protocol)

/-- The part of `verify_for_key` before its await: the verdict in the cache. -/
def cachedVerdict (value : Bytes) (s : NodeState) : Option Bool :=
  s.sigCache.bind fun cache => cache.getByKey (SignatureCache.computeKey p.hash value)

/-- The part of `verify_for_key` after its await: a success is cached. -/
def verifyDirectly (key : NodeId) (value : Bytes) (s : NodeState) : Bool × NodeState :=
  let result := checkDirectly p.signatureHandler (key = digest p.hash statusListKey) value
  if result then
    (result, { s with sigCache := s.sigCache.map fun cache =>
      cache.insertByKey (SignatureCache.computeKey p.hash value) result })
  else (result, s)

/-- `rpc_store` once the record is verified. -/
def storeVerified (now : ℕ) (senderId : NodeId) (peer : SocketAddr) (key : NodeId) (value : Bytes)
    (valid : Bool) (s : NodeState) : Progress × NodeState :=
  if !valid then
    let (strikes, s) := strike senderId s
    if strikes ≥ invalidSigBanThreshold then
      (.waits (.banning (source senderId peer) strikes), s)
    else (.returns (some (.storeResult false)), s.spawn (.welcomeIfNew (source senderId peer)))
  else
    let (inserted, storage) := s.storage.insertIfAbsent now key.bytes value
    if !inserted then (.returns (some (.storeResult false)), { s with storage := storage })
    else
      (.returns (some (.storeResult true)),
        { s with storage := storage }.spawn (.welcomeIfNew (source senderId peer)))

/-- The other writing handlers up to their await: they read the stored value. -/
def beginWrite (now : ℕ) (q : WriteRequest) (s : NodeState) : Progress × NodeState :=
  match s.storage.get now q.op.key.bytes with
  | none => (.returns (some (q.op.answer false)), s)
  | some old => (.waits (.checking q old), s)

/-- The first segment of the handler of a request. -/
def beginRequest (now : ℕ) (msg : RpcMessage) (peer : SocketAddr) (s : NodeState) :
    Progress × NodeState :=
  match msg with
  | .ping senderId =>
      let (id, s) := p.rpcPing senderId peer s
      (.returns (some (.pong id)), s)
  | .store senderId key value =>
      match p.cachedVerdict value s with
      | some valid => storeVerified now senderId peer key value valid s
      | none => (.waits (.verifying senderId peer key value), s)
  | .update senderId key value authSignature =>
      beginWrite now ⟨senderId, peer, .update key value authSignature⟩ s
  | .updateStatusList senderId key value =>
      beginWrite now ⟨senderId, peer, .updateStatusList key value⟩ s
  | .delete senderId key authSignature deleteMsg =>
      beginWrite now ⟨senderId, peer, .delete key authSignature deleteMsg⟩ s
  | .findNode senderId key =>
      (.waits (.searching (source senderId peer) key),
        s.spawn (.welcomeIfNew (source senderId peer)))
  | .findValue senderId key => (.waits (.greeting (source senderId peer) (some key)), s)
  | .leave senderId => (.waits (.leaving (source senderId peer)), s)
  | _ => (.returns none, s)

/-- The first segment of a spawned task. -/
def startTask : Task → Progress
  | .welcomeIfNew node => .waits (.greeting node none)
  | .callPingNode node =>
      match node.address with
      | none => .returns none
      | some _ => .waits (.pinging node)
  | .callStoreRpc peer _ _ =>
      match peer.address with
      | none => .returns none
      | some _ => .waits (.storing peer)

/-- The end of `welcome_if_new`, and what `rpc_find_value` does after it. -/
def afterWelcome (now : ℕ) (node : Node) (lookup : Option NodeId) (s : NodeState) :
    Progress × NodeState :=
  match lookup with
  | none => (.returns none, s)
  | some key =>
      match s.storage.get now key.bytes with
      | some v => (.returns (some (.findValueHit v)), s)
      | none => (.waits (.lookingUp node key), s)

/-- One segment: the code from a point to the next await.  An insertion into the table that
does not end is a segment that does not end. -/
def advance (now fuel : ℕ) (result : CallResult) (s : NodeState) :
    Point → Option (Progress × NodeState)
  | .verifying senderId peer key value =>
      let (valid, s) := p.verifyDirectly key value s
      some (storeVerified now senderId peer key value valid s)
  | .banning sender _ =>
      some (.returns (some (.storeResult false)),
        { s with router := s.router.removeContact sender })
  | .checking q old =>
      if !q.op.verification p s.sigCache (some old) then
        some (.returns (some (q.op.answer false)), s)
      else
        let (ok, s) := q.writeStep now s
        some (.returns (some (q.op.answer ok)), s)
  | .searching sender key =>
      let (nodes, router) := s.router.findNeighbors now (Node.fromId key) (some sender)
      some (.returns (some (.findNodeResult (nodes.map WireNode.ofNode))),
        { s with router := router })
  | .lookingUp sender key =>
      let (nodes, router) := s.router.findNeighbors now (Node.fromId key) (some sender)
      some (.returns (some (.findValueNodes (nodes.map WireNode.ofNode))),
        { s with router := router })
  | .leaving sender =>
      some (.returns none, { s with router := s.router.removeContact sender })
  | .greeting node lookup =>
      if !s.router.isNewNode node then some (afterWelcome now node lookup s)
      else some (.waits (.sampling node lookup (s.storage.iterAll now)), s)
  | .sampling node lookup entries =>
      let (keys, router) := p.keysToReplicate now node s.router entries
      some (.waits (.adding node lookup keys), { s with router := router })
  | .adding node lookup keys =>
      (s.router.addContact now fuel node).map fun (lru, router) =>
        let s := { s with router := router }
        let s := match lru with
          | some lruNode => s.spawn (.callPingNode lruNode)
          | none => s
        afterWelcome now node lookup
          (keys.foldl (fun s (key, value) => s.spawn (.callStoreRpc node key value)) s)
  | .pinging node =>
      match result with
      | .response (.pong _) => some (.returns none, s)
      | _ => some (.waits (.evicting node), s)
  | .storing peer =>
      match result with
      | .badAddress => some (.returns none, s)
      | .response (.storeResult _) => some (.returns none, s)
      | _ => some (.waits (.evicting peer), s)
  | .evicting node => some (.returns none, { s with router := s.router.removeContact node })

/-! ## A future that is not interrupted -/

/-- Run a future to its end, for at most so many segments. -/
def complete (now fuel : ℕ) (result : CallResult) :
    ℕ → Progress × NodeState → Option (Option RpcMessage × NodeState)
  | _, (.returns answer, s) => some (answer, s)
  | 0, (.waits _, _) => none
  | n + 1, (.waits point, s) =>
      (p.advance now fuel result s point).bind (complete now fuel result n)

variable {p} {now fuel n : ℕ} {result : CallResult} {s : NodeState}

@[simp] theorem complete_returns (answer : Option RpcMessage) :
    p.complete now fuel result n (.returns answer, s) = some (answer, s) := by
  cases n <;> rfl

@[simp] theorem complete_waits (point : Point) :
    p.complete now fuel result (n + 1) (.waits point, s) =
      (p.advance now fuel result s point).bind (p.complete now fuel result n) :=
  rfl

/-- Where a task waits first. -/
theorem mem_startTask {task : Task} {point : Point} (h : point ∈ (startTask task).pending) :
    (∃ node, task = .welcomeIfNew node ∧ point = .greeting node none) ∨
    (∃ node, task = .callPingNode node ∧ point = .pinging node) ∨
    ∃ peer key value, task = .callStoreRpc peer key value ∧ point = .storing peer := by
  cases task with
  | welcomeIfNew node => exact .inl ⟨node, rfl, List.mem_singleton.mp h⟩
  | callPingNode node =>
      simp only [startTask] at h
      split at h
      · cases h
      · exact .inr (.inl ⟨node, rfl, List.mem_singleton.mp h⟩)
  | callStoreRpc peer key value =>
      simp only [startTask] at h
      split at h
      · cases h
      · exact .inr (.inr ⟨peer, key, value, rfl, List.mem_singleton.mp h⟩)

/-- **Induction over a future that runs to its end**, from the end. -/
theorem complete_induction {C : Progress × NodeState → Prop} {answer : Option RpcMessage}
    {s' : NodeState} {r : Progress × NodeState} (hend : C (.returns answer, s'))
    (hstep : ∀ point s r, p.advance now fuel result s point = some r → C r → C (.waits point, s))
    (h : p.complete now fuel result n r = some (answer, s')) : C r := by
  have hreturns : ∀ n answer₁ s, p.complete now fuel result n (.returns answer₁, s) =
      some (answer, s') → C (.returns answer₁, s) := by
    intro n answer₁ s h
    rw [complete_returns] at h
    cases h
    exact hend
  induction n generalizing r with
  | zero =>
      obtain ⟨point | answer₁, s⟩ := r
      · cases h
      · exact hreturns 0 answer₁ s h
  | succ n ih =>
      obtain ⟨point | answer₁, s⟩ := r
      · obtain ⟨r, hadvance, hrest⟩ := Option.bind_eq_some_iff.mp h
        exact hstep point s r hadvance (ih hrest)
      · exact hreturns (n + 1) answer₁ s h

/-- `verify_for_key` is its two parts. -/
theorem verifyForKey_eq (key : NodeId) (value : Bytes) :
    p.verifyForKey key value s =
      ((p.cachedVerdict value s).map fun valid => (valid, s)).getD
        (p.verifyDirectly key value s) := by
  rcases s with ⟨router, storage, sigCache, strikes, tasks⟩
  simp only [verifyForKey, AuthKademlia.verifyForKey, verifyCached, cachedVerdict, verifyDirectly]
  generalize checkDirectly p.signatureHandler (key = digest p.hash statusListKey) value = valid
  cases sigCache with
  | none => cases valid <;> rfl
  | some cache =>
      cases hlookup : cache.getByKey (SignatureCache.computeKey p.hash value) with
      | some cached => simp [hlookup]
      | none => cases valid <;> simp [hlookup]

theorem complete_storeVerified (senderId key : NodeId) (peer : SocketAddr) (value : Bytes)
    (verdict : Bool × NodeState) (h : p.verifyForKey key value s = verdict) :
    p.complete now fuel result (n + 1)
        (storeVerified now senderId peer key value verdict.1 verdict.2) =
      some ((fun r => (some (.storeResult r.1), r.2))
        (p.rpcStore now senderId peer key value s)) := by
  rcases verdict with ⟨valid, s⟩
  simp only [rpcStore, h, storeVerified]
  cases valid with
  | false =>
      by_cases hban : (strike senderId s).1 ≥ invalidSigBanThreshold <;> simp [hban, advance]
  | true =>
      by_cases hin : (s.storage.insertIfAbsent now key.bytes value).1 = true <;> simp [hin]

/-- Only `rpc_store` changes anything before it writes. -/
theorem verifyStep_state (q : WriteRequest) (hq : q.op.isStore = false) (old : Option Bytes) :
    (q.verifyStep p old s).2 = s := by
  rcases q with ⟨senderId, peer, op⟩
  cases op with
  | store key value => cases hq
  | _ => rfl

theorem complete_beginWrite (q : WriteRequest) (hq : q.op.isStore = false) :
    p.complete now fuel result (n + 1) (beginWrite now q s) =
      some ((fun r => (some (q.op.answer r.1), r.2)) (q.serve p now s)) := by
  rw [WriteRequest.serve_eq_runSteps, beginWrite]
  cases hold : s.storage.get now q.op.key.bytes with
  | none => simp [WriteRequest.runSteps, WriteRequest.readStep, hq, hold]
  | some old =>
      have hread : q.readStep now s = .hasRead (some old) := by
        simp [WriteRequest.readStep, hq, hold]
      rw [runSteps_of_hasRead hread, verifyStep_state q hq]
      cases hok : q.op.verification p s.sigCache (some old) <;> simp [advance, hok]

/-- What `rpc_find_value` answers after its welcome, and what a spawned welcome ends with. -/
def lookupResult (now : ℕ) (node : Node) (lookup : Option NodeId) (s : NodeState) :
    Option RpcMessage × NodeState :=
  match lookup with
  | none => (none, s)
  | some key =>
      match s.storage.get now key.bytes with
      | some v => (some (.findValueHit v), s)
      | none =>
          let (nodes, router) := s.router.findNeighbors now (Node.fromId key) (some node)
          (some (.findValueNodes (nodes.map WireNode.ofNode)), { s with router := router })

theorem complete_afterWelcome (node : Node) (lookup : Option NodeId) :
    p.complete now fuel result (n + 1) (afterWelcome now node lookup s) =
      some (lookupResult now node lookup s) := by
  cases lookup with
  | none => rfl
  | some key =>
      cases hget : s.storage.get now key.bytes <;>
        simp [afterWelcome, lookupResult, hget, advance]

/-- **The segments of a welcome** in a row are the welcome. -/
theorem complete_greeting (node : Node) (lookup : Option NodeId) :
    p.complete now fuel result (n + 4) (.waits (.greeting node lookup), s) =
      (p.welcomeIfNew now fuel node s).map (lookupResult now node lookup) := by
  cases hnew : s.router.isNewNode node with
  | false =>
      simp [advance, welcomeIfNew, hnew, complete_afterWelcome]
  | true =>
      simp only [complete_waits, advance, hnew, welcomeIfNew, Bool.not_true, Bool.false_eq_true,
        if_false, Option.bind_some, Option.map_map]
      cases (p.keysToReplicate now node s.router (s.storage.iterAll now)).2.addContact now fuel
          node with
      | none => rfl
      | some r => exact complete_afterWelcome node lookup

/-- **The segments of a handler** in a row are the handler. -/
theorem complete_beginRequest (msg : RpcMessage) (peer : SocketAddr) :
    p.complete now fuel result 4 (p.beginRequest now msg peer s) =
      p.dispatchRequest now fuel msg peer s := by
  cases msg with
  | store senderId key value =>
      have hverify := p.verifyForKey_eq (s := s) key value
      simp only [beginRequest, dispatchRequest]
      cases hcached : p.cachedVerdict value s with
      | some valid =>
          exact complete_storeVerified senderId key peer value (valid, s)
            (by rw [hverify, hcached]; rfl)
      | none =>
          exact complete_storeVerified senderId key peer value (p.verifyDirectly key value s)
            (by rw [hverify, hcached]; rfl)
  | update senderId key value authSignature => exact complete_beginWrite _ rfl
  | updateStatusList senderId key value => exact complete_beginWrite _ rfl
  | delete senderId key authSignature deleteMsg => exact complete_beginWrite _ rfl
  | findValue senderId key =>
      rw [beginRequest, complete_greeting, dispatchRequest, rpcFindValue, Option.map_map]
      congr 1
      funext t
      cases hget : t.storage.get now key.bytes <;> simp [lookupResult, hget]
  | _ => rfl

/-- **The segments of a task** in a row are the task. -/
theorem complete_startTask (task : Task) :
    (p.complete now fuel result 4 (startTask task, s)).map Prod.snd =
      p.runTask now fuel result s task := by
  cases task with
  | welcomeIfNew node =>
      rw [startTask, complete_greeting, Option.map_map, runTask]
      exact Option.map_id'
  | callPingNode node =>
      simp only [startTask, runTask, callPingNode]
      cases node.address with
      | none => rfl
      | some addr =>
          cases result with
          | response msg => cases msg <;> rfl
          | _ => rfl
  | callStoreRpc peer key value =>
      simp only [startTask, runTask, callStoreRpc]
      cases peer.address with
      | none => rfl
      | some addr =>
          cases result with
          | response msg => cases msg <;> rfl
          | _ => rfl

end Protocol

/-! ## The interleaving -/

/-- A node and the futures that are suspended in it. -/
structure LiveNode where
  state : NodeState
  points : List Point

/-- What can happen to a node.  A spawned task starts, a suspended future gets what it waits
for, or something comes from outside: a request, a response, the result of a call of the
local crawler, or an eviction from the cache. -/
inductive LiveEvent where
  | request (now : ℕ) (msg : RpcMessage) (peer : SocketAddr)
  | response (msg : RpcMessage) (peer : SocketAddr)
  | crawled (peer : Node) (answered : Bool)
  | start (i : ℕ)
  | resume (now fuel i : ℕ) (result : CallResult)
  | cacheDrop (key : Bytes)

/-- A future has done a segment and joins the others, unless it is over. -/
def LiveNode.join (points : List Point) (r : Progress × NodeState) : LiveNode :=
  ⟨r.2, points ++ r.1.pending⟩

/-- One event. -/
def Protocol.liveStep (p : Protocol) (c : LiveNode) : LiveEvent → Option LiveNode
  | .request now msg peer => some (.join c.points (p.beginRequest now msg peer c.state))
  | .response msg peer => some ⟨receiveResponse msg peer c.state, c.points⟩
  | .crawled peer answered =>
      -- `call_find_node` and `call_find_value` after the response or the lack of one
      if answered then some ⟨c.state.spawn (.welcomeIfNew peer), c.points⟩
      else some ⟨c.state, c.points ++ [.evicting peer]⟩
  | .start i =>
      match c.state.tasks[i]? with
      | none => some c
      | some task =>
          some (.join c.points
            (startTask task, { c.state with tasks := c.state.tasks.eraseIdx i }))
  | .resume now fuel i result =>
      match c.points[i]? with
      | none => some c
      | some point =>
          (p.advance now fuel result c.state point).map (.join (c.points.eraseIdx i))
  | .cacheDrop key =>
      some ⟨{ c.state with sigCache := c.state.sigCache.map fun cache => cache.erase key },
        c.points⟩

section Sequential

variable {p : Protocol} {now fuel : ℕ} {result : CallResult} {points : List Point}
  {answer : Option RpcMessage} {s' : NodeState}

/-- The last of the futures can run to its end. -/
theorem exec_of_complete {n : ℕ} {r : Progress × NodeState}
    (h : p.complete now fuel result n r = some (answer, s')) :
    ∃ es, exec p.liveStep (.join points r) es = some ⟨s', points⟩ := by
  refine complete_induction (C := fun r => ∃ es,
    exec p.liveStep (.join points r) es = some ⟨s', points⟩)
    ⟨[], by simp [LiveNode.join, Progress.pending]⟩ ?_ h
  rintro point s r' hadvance ⟨es, hes⟩
  refine ⟨.resume now fuel points.length result :: es, ?_⟩
  have hlast : (points ++ [point])[points.length]? = some point := by simp
  have herase : (points ++ [point]).eraseIdx points.length = points := by
    simp [List.eraseIdx_append]
  simp only [exec, LiveNode.join, Progress.pending, liveStep, hlast, hadvance, herase,
    Option.map_some, Option.bind_some]
  exact hes

/-- **A node whose futures are never interrupted** is one of the interleavings. -/
theorem exists_live_step {r r' : Snapshot} {e : NodeEvent} (h : p.step r e = some r') :
    ∃ es, exec p.liveStep ⟨r.state, points⟩ es = some ⟨r'.state, points⟩ := by
  cases e with
  | request now fuel msg peer =>
      have hcomplete := (@complete_beginRequest p now fuel .noResponse r.state msg peer).trans
        (step_request.mp h)
      rcases exec_of_complete hcomplete with ⟨es, hes⟩
      exact ⟨.request now msg peer :: es, hes⟩
  | response msg peer =>
      cases h
      exact ⟨[.response msg peer], rfl⟩
  | task now fuel i result =>
      simp only [step] at h
      split at h
      · cases h
        exact ⟨[], rfl⟩
      · next task htask =>
          rw [← complete_startTask, Option.map_map] at h
          rcases Option.map_eq_some_iff.mp h with ⟨⟨answer, s'⟩, hcomplete, rfl⟩
          rcases exec_of_complete hcomplete with ⟨es, hes⟩
          exact ⟨.start i :: es, by simpa [exec, liveStep, htask] using hes⟩
  | cacheDrop key =>
      cases h
      exact ⟨[.cacheDrop key], rfl⟩

end Sequential

end AuthKademlia
