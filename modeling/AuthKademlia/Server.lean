import AuthKademlia.Crawl
import AuthKademlia.Lib.Resumption
import AuthKademlia.Protocol
import AuthKademlia.WireFormat

/-!
# The server layer

`get`, `set`, `update` and `delete` look a key up, verify what they were given or found,
and publish to the nodes of the lookup.  They suspend at every lookup, at every
verification (which runs on a blocking thread) and while their requests are out, and other
calls and requests go on in the meantime.  A call is therefore a `Process` on the state it
shares with the protocol layer, and what it waits for is a `Question`.

The answer to a lookup is a run of the lookup of `Crawl` against some network, with the
proof that it is one: `ValueReply`, `NodeReply`.

## Main definitions

* `Server`, `ServerState` — the fixed and the changing part.
* `Question`, `Answer` — what a call waits for.
* `Server.get`, `set`, `update`, `delete`, `refresh` — the calls.
* `ServerEvent`, `Server.step` — calls, requests and background tasks side by side.
-/

namespace AuthKademlia

open Lib Protocol

/-- The part of `Server` that never changes.  `protocol` is `None` in the source until
`listen` has been called. -/
structure Server where
  ksize : ℕ
  alpha : ℕ
  protocol : Protocol
  listening : Bool
  heap : HeapLib
  wire : WireLib

/-- What the calls share with the handlers.  `outgoing` are the requests to write that
were handed to a `call_…_rpc` method; one to a peer without a usable address goes
nowhere. -/
structure ServerState where
  node : NodeState
  now : ℕ
  outgoing : List (Node × RpcMessage)

/-! ## Waiting -/

/-- The end of a value lookup.  `undialable` are the peers whose printed address does not
parse. -/
structure ValueReply (sv : Server) (target : Node) (peers : List Node) where
  net : Network
  undialable : Node → Bool
  fuel : ℕ
  outcome : ValueOutcome
  ends : ValueSpiderCrawl.find sv.heap net fuel
    (ValueSpiderCrawl.new sv.heap target peers sv.ksize sv.alpha) = some outcome

/-- The end of a node lookup. -/
structure NodeReply (sv : Server) (target : Node) (peers : List Node) where
  net : Network
  undialable : Node → Bool
  fuel : ℕ
  nodes : List Node
  history : List Round
  ends : NodeSpiderCrawl.find sv.heap net fuel
    (SpiderCrawl.new sv.heap target peers sv.ksize sv.alpha) = some (nodes, history)

/-- What a call can wait for: a blocking thread, a lookup, the responses to its requests,
or random ids. -/
inductive Question where
  | yield
  | valueLookup (target : Node) (peers : List Node)
  | nodeLookup (target : Node) (peers : List Node)
  | calls (requests : List (Node × RpcMessage))
  | refreshIds
  deriving DecidableEq

abbrev Answer (sv : Server) : Question → Type
  | .yield => Unit
  | .valueLookup target peers => ValueReply sv target peers
  | .nodeLookup target peers => NodeReply sv target peers
  | .calls _ => ℕ → CallResult
  | .refreshIds => List NodeId

abbrev ServerProcess (sv : Server) : Type → Type := Process ServerState Question (Answer sv)

/-- What a query of a lookup does to the routing table: a peer that answered is welcomed
and one that did not is removed. -/
def afterQuery (undialable : Node → Bool) (peer : Node) (answered : Bool) (s : NodeState) :
    NodeState :=
  match peer.address with
  | none => s
  | some _ =>
      if undialable peer then s
      else if answered then s.spawn (.welcomeIfNew peer)
      else { s with router := s.router.removeContact peer }

def afterRound (undialable : Node → Bool) (s : NodeState) (round : Round) : NodeState :=
  round.queried.foldl (fun s peer =>
    afterQuery undialable peer ((round.responses.lookup peer.id).any (·.happened)) s) s

def afterLookup (undialable : Node → Bool) (history : List Round) (s : NodeState) : NodeState :=
  history.foldl (afterRound undialable) s

/-- The acknowledgement in a response, if it is the response to the request. -/
def acknowledged : RpcMessage → RpcMessage → Option Bool
  | .store .., .storeResult ok => some ok
  | .update .., .updateResult ok => some ok
  | .updateStatusList .., .updateStatusListResult ok => some ok
  | .delete .., .deleteResult ok => some ok
  | _, _ => none

/-- The `call_…_rpc` methods for requests to write: without a proper response the peer is
removed. -/
def callRpc (peer : Node) (request : RpcMessage) (result : CallResult) (s : NodeState) :
    Bool × NodeState :=
  match peer.address with
  | none => (false, s)
  | some _ =>
      match result with
      | .badAddress => (false, s)
      | .noResponse => (false, { s with router := s.router.removeContact peer })
      | .response msg =>
          match acknowledged request msg with
          | some ok => (ok, s)
          | none => (false, { s with router := s.router.removeContact peer })

/-- For a `Store` this is the method the replication tasks use. -/
theorem callRpc_store (peer : Node) (senderId key : NodeId) (value : Bytes) (result : CallResult)
    (s : NodeState) :
    (callRpc peer (.store senderId key value) result s).2 = callStoreRpc peer result s := by
  unfold callRpc callStoreRpc
  cases peer.address with
  | none => rfl
  | some addr =>
      cases result with
      | badAddress => rfl
      | noResponse => rfl
      | response msg => cases msg <;> rfl

/-- The responses to a list of requests, one after the other. -/
def settle : List (Node × RpcMessage) → (ℕ → CallResult) → NodeState → List Bool × NodeState
  | [], _, s => ([], s)
  | (peer, request) :: rest, results, s =>
      let (ok, s) := callRpc peer request (results 0) s
      let (oks, s) := settle rest (fun i => results (i + 1)) s
      (ok :: oks, s)

namespace Server

variable (sv : Server)

/-! ## Parts of the calls -/

/-- `spawn_blocking(..).await`. -/
def yield : ServerProcess sv Unit := Process.ask Question.yield

def storageGet (key : NodeId) : ServerProcess sv (Option Bytes) :=
  Process.lift fun s => (s.node.storage.get s.now key.bytes, s)

def storageSet (key : NodeId) (value : Bytes) : ServerProcess sv Unit :=
  Process.lift fun s =>
    ((), { s with node := { s.node with storage := s.node.storage.set s.now key.bytes value } })

def storageDelete (key : NodeId) : ServerProcess sv Unit :=
  Process.lift fun s =>
    ((), { s with node := { s.node with storage := s.node.storage.delete key.bytes } })

def findNeighbors (target : Node) : ServerProcess sv (List Node) :=
  Process.lift fun s =>
    let (nodes, router) := s.node.router.findNeighbors s.now target none
    (nodes, { s with node := { s.node with router := router } })

/-- A check of the handler on a blocking thread; an error counts as a failed check. -/
def blocking (check : Except AuthHandlerError Bool) : ServerProcess sv Bool := do
  sv.yield
  pure (unwrapOrFalse check)

def verifyValue (key : String) (value : Bytes) : ServerProcess sv Bool := do
  sv.yield
  Process.lift fun s =>
    let (ok, cache) := AuthKademlia.verifyValue sv.protocol.hash sv.protocol.signatureHandler
      s.node.sigCache key value
    (ok, { s with node := { s.node with sigCache := cache } })

/-- Send requests and wait for their responses. -/
def callAll (requests : List (Node × RpcMessage)) : ServerProcess sv (List Bool) := do
  Process.lift fun s => ((), { s with outgoing := s.outgoing ++ requests })
  let results : ℕ → CallResult ← Process.ask (Question.calls requests)
  Process.lift fun s =>
    let (oks, node) := settle requests results s.node
    (oks, { s with node := node })

def storeRpc (key : NodeId) (value : Bytes) (peer : Node) : Node × RpcMessage :=
  (peer, .store sv.protocol.sourceNode.id key value)

/-- `ValueSpiderCrawl::find`, with the `Store` it sends to the closest peer that did not
have the value. -/
def valueLookup (target : Node) (peers : List Node) : ServerProcess sv ValueOutcome := do
  let reply : ValueReply sv target peers ← Process.ask (Question.valueLookup target peers)
  Process.lift fun s =>
    ((), { s with node := afterLookup reply.undialable reply.outcome.history s.node })
  match reply.outcome.value, reply.outcome.cachedAt with
  | some v, some peer => do
      let _ ← sv.callAll [sv.storeRpc target.id v peer]
      pure reply.outcome
  | _, _ => pure reply.outcome

/-- `NodeSpiderCrawl::find`. -/
def nodeLookup (target : Node) (peers : List Node) : ServerProcess sv (List Node) := do
  let reply : NodeReply sv target peers ← Process.ask (Question.nodeLookup target peers)
  Process.lift fun s =>
    (reply.nodes, { s with node := afterLookup reply.undialable reply.history s.node })

/-- This node is closer to the target than the farthest of the nodes found. -/
def closerThanFarthest (target : Node) (nodes : List Node) : Bool :=
  (nodes.map fun n => n.distanceTo target).max?.any fun farthest =>
    sv.protocol.sourceNode.distanceTo target < farthest

/-- Keep a copy if this node is close enough. -/
def storeLocally (dkey : NodeId) (value : Bytes) (nodes : List Node) : ServerProcess sv Unit :=
  if sv.closerThanFarthest (Node.fromId dkey) nodes then sv.storageSet dkey value else pure ()

/-! ## The calls -/

def get (key : String) : ServerProcess sv (Option Bytes) := do
  let dkey := digest sv.protocol.hash key
  match ← sv.storageGet dkey with
  | some result => do
      let ok ← sv.verifyValue key result
      pure (if ok then some result else none)
  | none =>
      if !sv.listening then pure none
      else do
        let nearest ← sv.findNeighbors (Node.fromId dkey)
        if nearest.isEmpty then pure none
        else do
          let outcome ← sv.valueLookup (Node.fromId dkey) nearest
          match outcome.value with
          | some v => do
              let ok ← sv.verifyValue key v
              pure (if ok then some v else none)
          | none => pure none

/-- Whether a valid record exists, and the closest nodes for a `Store`. -/
def checkExistsAndGetNodes (key : String) : ServerProcess sv (Bool × List Node) := do
  let dkey := digest sv.protocol.hash key
  match ← sv.storageGet dkey with
  | some _ => pure (true, [])
  | none =>
      if !sv.listening then pure (false, [])
      else do
        let nearest ← sv.findNeighbors (Node.fromId dkey)
        if nearest.isEmpty then pure (false, [])
        else do
          let outcome ← sv.valueLookup (Node.fromId dkey) nearest
          match outcome.value with
          | some v => do
              let ok ← sv.verifyValue key v
              pure (if ok then (true, []) else (false, outcome.nodes))
          | none => pure (false, outcome.nodes)

def setDigest (dkey : NodeId) (value : Bytes) (nodes : List Node) : ServerProcess sv Bool :=
  if !sv.listening then pure false
  else if nodes.isEmpty then pure false
  else do
    sv.storeLocally dkey value nodes
    let results ← sv.callAll (nodes.map (sv.storeRpc dkey value))
    pure (results.any id)

def set (key : String) (value : Bytes) : ServerProcess sv (Option Bool) := do
  let (exist, nodes) ← sv.checkExistsAndGetNodes key
  if exist then pure none
  else do
    let ok ← sv.verifyValue key value
    if !ok then pure none
    else do
      let published ← sv.setDigest (digest sv.protocol.hash key) value nodes
      pure (some published)

/-- The request that publishes an update; the status list has its own, whatever the
authorisation. -/
def updateRpc (key : String) (dkey : NodeId) (value : Bytes) (authSignature : Option Bytes)
    (peer : Node) : Node × RpcMessage :=
  if key = statusListKey then (peer, .updateStatusList sv.protocol.sourceNode.id dkey value)
  else (peer, .update sv.protocol.sourceNode.id dkey value (authSignature.getD []))

def updateDigest (key : String) (dkey : NodeId) (value : Bytes) (authSignature : Option Bytes) :
    ServerProcess sv Bool :=
  if !sv.listening then pure false
  else do
    let nearest ← sv.findNeighbors (Node.fromId dkey)
    if nearest.isEmpty then pure false
    else do
      let nodes ← sv.nodeLookup (Node.fromId dkey) nearest
      sv.storeLocally dkey value nodes
      let results ← sv.callAll (nodes.map (sv.updateRpc key dkey value authSignature))
      pure (results.any id)

/-- The check of an update: the issuer's signature for the status list if no authorisation
is given, a rotation authorised by the old record otherwise. -/
def updateCheck (key : String) (value oldValue : Bytes) (authSignature : Option Bytes) :
    Except AuthHandlerError Bool :=
  if key = statusListKey && authSignature.isNone then
    sv.protocol.signatureHandler.handleIssuerNodeSignatureVerification value
  else
    sv.protocol.signatureHandler.handleUpdateVerification value oldValue (authSignature.getD [])

def update (key : String) (value : Bytes) (authSignature : Option Bytes) :
    ServerProcess sv (Option Bool) := do
  match ← sv.get key with
  | none => pure none
  | some oldValue => do
      let ok ← sv.blocking (sv.updateCheck key value oldValue authSignature)
      if !ok then pure none
      else do
        let published ← sv.updateDigest key (digest sv.protocol.hash key) value authSignature
        pure (some published)

def deleteDigest (dkey : NodeId) (authSignature deleteMsg : Bytes) : ServerProcess sv Bool :=
  if !sv.listening then pure false
  else do
    sv.storageDelete dkey
    let nearest ← sv.findNeighbors (Node.fromId dkey)
    if nearest.isEmpty then pure true
    else do
      let nodes ← sv.nodeLookup (Node.fromId dkey) nearest
      let _ ← sv.callAll (nodes.map fun peer =>
        (peer, .delete sv.protocol.sourceNode.id dkey authSignature deleteMsg))
      pure true

def delete (key : String) (authSignature deleteMsg : Bytes) : ServerProcess sv (Option Bool) := do
  match ← sv.get key with
  | none => pure none
  | some value => do
      let ok ← sv.blocking
        (sv.protocol.signatureHandler.handleSignatureDeleteOperation value authSignature deleteMsg)
      if !ok then pure none
      else do
        let published ← sv.deleteDigest (digest sv.protocol.hash key) authSignature deleteMsg
        pure (some published)

/-! ## The refresh loop -/

/-- Look up each id, to freshen the bucket it is in. -/
def refreshBuckets : List NodeId → ServerProcess sv Unit
  | [] => pure ()
  | id :: ids => do
      let neighbors ← sv.findNeighbors (Node.fromId id)
      let _ ← sv.nodeLookup (Node.fromId id) neighbors
      refreshBuckets ids

/-- Send old records to the nodes that are closest to them now. -/
def republish : List (Bytes × Bytes) → ServerProcess sv Unit
  | [] => pure ()
  | (keyVec, value) :: entries =>
      if h : keyVec.length = idLen then do
        let dkey : NodeId := ⟨keyVec, h⟩
        let neighbors ← sv.findNeighbors (Node.fromId dkey)
        if neighbors.isEmpty then republish entries
        else do
          let nodes ← sv.nodeLookup (Node.fromId dkey) neighbors
          let _ ← sv.callAll (nodes.map (sv.storeRpc dkey value))
          republish entries
      else republish entries

/-- One turn of `schedule_refresh`. -/
def refresh : ServerProcess sv Unit := do
  let ids : List NodeId ← Process.ask Question.refreshIds
  sv.refreshBuckets ids
  let oldEntries ← Process.lift fun s => (s.node.storage.iterOlderThan s.now 3600, s)
  sv.republish oldEntries

end Server

/-! ## Runs -/

/-- The calls of the application, and the turns of the refresh loop. -/
inductive LocalCall where
  | get (key : String)
  | set (key : String) (value : Bytes)
  | update (key : String) (value : Bytes) (authSignature : Option Bytes)
  | delete (key : String) (authSignature deleteMsg : Bytes)
  | refresh

inductive LocalResult where
  | value (v : Option Bytes)
  | published (ok : Option Bool)
  | refreshed

/-- A server with its calls under way. -/
abbrev ServerPool (sv : Server) := Pool ServerState Question (Answer sv) LocalResult

/-- What can happen: an event of the protocol layer, the start of a call, or the answer
one of the calls waits for. -/
inductive ServerEvent (sv : Server) where
  | node (e : NodeEvent)
  | call (now : ℕ) (c : LocalCall)
  | resume (now i : ℕ) (answers : ∀ q, Answer sv q)

namespace Server

variable (sv : Server)

def process : LocalCall → ServerProcess sv LocalResult
  | .get key => do
      let v ← sv.get key
      pure (.value v)
  | .set key value => do
      let ok ← sv.set key value
      pure (.published ok)
  | .update key value authSignature => do
      let ok ← sv.update key value authSignature
      pure (.published ok)
  | .delete key authSignature deleteMsg => do
      let ok ← sv.delete key authSignature deleteMsg
      pure (.published ok)
  | .refresh => do
      sv.refresh
      pure .refreshed

/-- The requests an event of the protocol layer sends: a replication is a `Store`. -/
def sentBy (s : NodeState) : NodeEvent → List (Node × RpcMessage)
  | .task _ _ i _ =>
      match s.tasks[i]? with
      | some (.callStoreRpc peer key value) => [sv.storeRpc key value peer]
      | _ => []
  | _ => []

def step (pool : ServerPool sv) : ServerEvent sv → Option (ServerPool sv)
  | .node e =>
      (sv.protocol.step ⟨none, pool.shared.node⟩ e).map fun r =>
        { pool with
          shared :=
            { pool.shared with
              node := r.state
              outgoing := pool.shared.outgoing ++ sv.sentBy pool.shared.node e } }
  | .call now c =>
      some (Pool.spawn (sv.process c) { pool with shared := { pool.shared with now := now } })
  | .resume now i answers =>
      some (Pool.resume i answers { pool with shared := { pool.shared with now := now } })

/-- A server that has just started. -/
def start (storage : ForgetfulStorage) (sigCache : Option SignatureCache) (now : ℕ) :
    ServerPool sv :=
  ⟨⟨sv.protocol.new sv.ksize storage sigCache now, now, []⟩, []⟩

end Server

end AuthKademlia
