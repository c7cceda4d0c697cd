import AuthKademlia.Lib.Execution
import AuthKademlia.Reassembly
import AuthKademlia.RoutingTable
import AuthKademlia.SignatureCache
import AuthKademlia.Storage

/-!
# The protocol layer

A node answers requests through `dispatchRequest`.  The handlers share the routing table,
the store, the strike counts and the signature cache, which are passed explicitly as a
`NodeState`; a handler that the source runs to its end before the next one starts is a
function on it.  `tokio::spawn` appends to `NodeState.tasks`, and a task runs as an event
of its own, at any later time and in any order.

`rpc_find_value` awaits `welcome_if_new`, which adds a contact and so may not return: it
is `none` then, and so is the request.

## Main definitions

* `RpcMessage`, `Protocol`, `NodeState` — messages, the fixed and the changing part of a
  node.
* `dispatchRequest` and the `rpc…` handlers.
* `NodeEvent`, `Snapshot`, `Protocol.step` — one event of a node, for whole runs.
-/

namespace AuthKademlia

/-! ## Messages -/

/-- A node as it travels in a message. -/
structure WireNode where
  id : NodeId
  ip : Option String
  port : Option UInt16
  deriving DecidableEq

def WireNode.ofNode (n : Node) : WireNode := ⟨n.id, n.ip, n.port⟩

inductive RpcMessage where
  | ping (senderId : NodeId)
  | pong (senderId : NodeId)
  | store (senderId key : NodeId) (value : Bytes)
  | storeResult (ok : Bool)
  | update (senderId key : NodeId) (value authSignature : Bytes)
  | updateResult (ok : Bool)
  | updateStatusList (senderId key : NodeId) (value : Bytes)
  | updateStatusListResult (ok : Bool)
  | delete (senderId key : NodeId) (authSignature deleteMsg : Bytes)
  | deleteResult (ok : Bool)
  | findNode (senderId key : NodeId)
  | findNodeResult (nodes : List WireNode)
  | findValue (senderId key : NodeId)
  | findValueNodes (nodes : List WireNode)
  | findValueHit (value : Bytes)
  | leave (senderId : NodeId)
  deriving DecidableEq

inductive FindValueResult where
  | nodes (ns : List Node)
  | value (v : Bytes)

/-! ## State -/

/-- Strikes after which a peer is removed from the routing table. -/
def invalidSigBanThreshold : UInt32 := 3

/-- The part of `KademliaProtocol` that never changes. -/
structure Protocol where
  sourceNode : Node
  signatureHandler : SignatureVerifierHandler
  hash : HashLib

/-- A future handed to `tokio::spawn`. -/
inductive Task where
  | welcomeIfNew (node : Node)
  | callPingNode (node : Node)
  | callStoreRpc (peer : Node) (key : NodeId) (value : Bytes)
  deriving DecidableEq

/-- The shared state of the handlers. -/
structure NodeState where
  router : RoutingTable
  storage : ForgetfulStorage
  sigCache : Option SignatureCache
  invalidSigStrikes : AList fun _ : NodeId => UInt32
  tasks : List Task

namespace NodeState

/-- `tokio::spawn`. -/
def spawn (s : NodeState) (task : Task) : NodeState := { s with tasks := s.tasks ++ [task] }

@[simp] theorem storage_spawn (s : NodeState) (task : Task) : (s.spawn task).storage = s.storage :=
  rfl

/-- The value a request at time `now` finds under a key. -/
def stored (s : NodeState) (now : ℕ) (key : NodeId) : Option Bytes := s.storage.get now key.bytes

/-- The raw entry of a key. -/
def record (s : NodeState) (key : NodeId) : Option (Bytes × ℕ) := s.storage.entry key.bytes

end NodeState

namespace Protocol

variable (p : Protocol)

/-- `KademliaProtocol::new`. -/
def new (ksize : ℕ) (storage : ForgetfulStorage) (sigCache : Option SignatureCache) (now : ℕ) :
    NodeState :=
  ⟨RoutingTable.new p.sourceNode ksize now, storage, sigCache, ∅, []⟩

/-- The sender of a request as a node. -/
def source (senderId : NodeId) (peer : SocketAddr) : Node :=
  ⟨senderId, some peer.ip, some peer.port⟩

/-! ## Background tasks -/

/-- The loop of `welcome_if_new` over the store: a key is replicated to the new node if
the new node is closer to it than the farthest known neighbour and this node is closer
than the nearest. -/
def keysToReplicate (now : ℕ) (node : Node) (router : RoutingTable) :
    List (Bytes × Bytes) → List (NodeId × Bytes) × RoutingTable
  | [] => ([], router)
  | (keyVec, value) :: entries =>
      if h : keyVec.length = idLen then
        let key : NodeId := ⟨keyVec, h⟩
        let keyNode := Node.fromId key
        let (neighbors, router) := router.findNeighbors now keyNode none
        let newNodeClose :=
          neighbors.getLast?.all fun last => node.distanceTo keyNode < last.distanceTo keyNode
        let thisClosest :=
          neighbors.head?.all fun first =>
            p.sourceNode.distanceTo keyNode < first.distanceTo keyNode
        let (rest, router) := keysToReplicate now node router entries
        if newNodeClose && thisClosest then ((key, value) :: rest, router) else (rest, router)
      else keysToReplicate now node router entries

/-- Add a node the table does not know and replicate to it the keys that belong to it. -/
def welcomeIfNew (now fuel : ℕ) (node : Node) (s : NodeState) : Option NodeState :=
  if !s.router.isNewNode node then some s
  else
    let (keys, router) := p.keysToReplicate now node s.router (s.storage.iterAll now)
    (router.addContact now fuel node).map fun (lru, router) =>
      let s := { s with router := router }
      let s := match lru with
        | some lruNode => s.spawn (.callPingNode lruNode)
        | none => s
      keys.foldl (fun s (key, value) => s.spawn (.callStoreRpc node key value)) s

/-- How an outgoing call ended: the printed address did not parse, no response came in
time, or a response came. -/
inductive CallResult where
  | badAddress
  | noResponse
  | response (msg : RpcMessage)

/-- Ping a node and evict it unless it answers; an address that does not parse counts as
no answer. -/
def callPingNode (node : Node) (result : CallResult) (s : NodeState) : NodeState :=
  match node.address with
  | none => s
  | some _ =>
      match result with
      | .response (.pong _) => s
      | _ => { s with router := s.router.removeContact node }

/-- Send a record to a peer and drop the peer unless it answers; an address that does
not parse leaves the peer in place. -/
def callStoreRpc (peer : Node) (result : CallResult) (s : NodeState) : NodeState :=
  match peer.address with
  | none => s
  | some _ =>
      match result with
      | .badAddress => s
      | .response (.storeResult _) => s
      | _ => { s with router := s.router.removeContact peer }

def runTask (now fuel : ℕ) (result : CallResult) (s : NodeState) : Task → Option NodeState
  | .welcomeIfNew node => p.welcomeIfNew now fuel node s
  | .callPingNode node => some (callPingNode node result s)
  | .callStoreRpc peer _ _ => some (callStoreRpc peer result s)

/-! ## Handlers -/

/-- `verify_for_key` on the node's cache. -/
def verifyForKey (key : NodeId) (value : Bytes) (s : NodeState) : Bool × NodeState :=
  let (ok, cache) := AuthKademlia.verifyForKey p.hash p.signatureHandler s.sigCache key value
  (ok, { s with sigCache := cache })

def rpcPing (senderId : NodeId) (peer : SocketAddr) (s : NodeState) : NodeId × NodeState :=
  (p.sourceNode.id, s.spawn (.welcomeIfNew (source senderId peer)))

/-- Count an invalid signature of a sender. -/
def strike (senderId : NodeId) (s : NodeState) : UInt32 × NodeState :=
  let n := (s.invalidSigStrikes.lookup senderId).getD 0 + 1
  (n, { s with invalidSigStrikes := s.invalidSigStrikes.insert senderId n })

def rpcStore (now : ℕ) (senderId : NodeId) (peer : SocketAddr) (key : NodeId) (value : Bytes)
    (s : NodeState) : Bool × NodeState :=
  let (valid, s) := p.verifyForKey key value s
  if !valid then
    let (strikes, s) := strike senderId s
    if strikes ≥ invalidSigBanThreshold then
      (false, { s with router := s.router.removeContact (source senderId peer) })
    else (false, s.spawn (.welcomeIfNew (source senderId peer)))
  else
    let (inserted, storage) := s.storage.insertIfAbsent now key.bytes value
    if !inserted then (false, { s with storage := storage })
    else (true, { s with storage := storage }.spawn (.welcomeIfNew (source senderId peer)))

def rpcUpdate (now : ℕ) (senderId : NodeId) (peer : SocketAddr) (key : NodeId)
    (value authSignature : Bytes) (s : NodeState) : Bool × NodeState :=
  match s.storage.get now key.bytes with
  | none => (false, s)
  | some oldValue =>
      let ok := unwrapOrFalse
        (p.signatureHandler.handleUpdateVerification value oldValue authSignature)
      if !ok then (false, s)
      else
        let s := s.spawn (.welcomeIfNew (source senderId peer))
        (true, { s with storage := s.storage.set now key.bytes value })

def rpcUpdateStatusList (now : ℕ) (senderId : NodeId) (peer : SocketAddr) (key : NodeId)
    (value : Bytes) (s : NodeState) : Bool × NodeState :=
  if (s.storage.get now key.bytes).isNone then (false, s)
  else
    let ok := unwrapOrFalse (p.signatureHandler.handleIssuerNodeSignatureVerification value)
    if !ok then (false, s)
    else
      let s := s.spawn (.welcomeIfNew (source senderId peer))
      (true, { s with storage := s.storage.set now key.bytes value })

def rpcDelete (now : ℕ) (senderId : NodeId) (peer : SocketAddr) (key : NodeId)
    (authSignature deleteMsg : Bytes) (s : NodeState) : Bool × NodeState :=
  match s.storage.get now key.bytes with
  | none => (false, s)
  | some value =>
      let ok := unwrapOrFalse
        (p.signatureHandler.handleSignatureDeleteOperation value authSignature deleteMsg)
      if !ok then (false, s)
      else
        let s := s.spawn (.welcomeIfNew (source senderId peer))
        (true, { s with storage := s.storage.delete key.bytes })

def rpcFindNode (now : ℕ) (senderId : NodeId) (peer : SocketAddr) (key : NodeId)
    (s : NodeState) : List Node × NodeState :=
  let s := s.spawn (.welcomeIfNew (source senderId peer))
  let (nodes, router) := s.router.findNeighbors now (Node.fromId key) (some (source senderId peer))
  (nodes, { s with router := router })

def rpcFindValue (now fuel : ℕ) (senderId : NodeId) (peer : SocketAddr) (key : NodeId)
    (s : NodeState) : Option (FindValueResult × NodeState) :=
  (p.welcomeIfNew now fuel (source senderId peer) s).map fun s =>
    match s.storage.get now key.bytes with
    | some v => (.value v, s)
    | none =>
        let (neighbors, router) :=
          s.router.findNeighbors now (Node.fromId key) (some (source senderId peer))
        (.nodes neighbors, { s with router := router })

def rpcLeave (senderId : NodeId) (peer : SocketAddr) (s : NodeState) : NodeState :=
  { s with router := s.router.removeContact (source senderId peer) }

/-- Answer a request; a message that is not one is ignored. -/
def dispatchRequest (now fuel : ℕ) (msg : RpcMessage) (peer : SocketAddr) (s : NodeState) :
    Option (Option RpcMessage × NodeState) :=
  match msg with
  | .ping senderId =>
      let (id, s) := p.rpcPing senderId peer s
      some (some (.pong id), s)
  | .store senderId key value =>
      let (ok, s) := p.rpcStore now senderId peer key value s
      some (some (.storeResult ok), s)
  | .update senderId key value authSignature =>
      let (ok, s) := p.rpcUpdate now senderId peer key value authSignature s
      some (some (.updateResult ok), s)
  | .updateStatusList senderId key value =>
      let (ok, s) := p.rpcUpdateStatusList now senderId peer key value s
      some (some (.updateStatusListResult ok), s)
  | .delete senderId key authSignature deleteMsg =>
      let (ok, s) := p.rpcDelete now senderId peer key authSignature deleteMsg s
      some (some (.deleteResult ok), s)
  | .findNode senderId key =>
      let (nodes, s) := rpcFindNode now senderId peer key s
      some (some (.findNodeResult (nodes.map WireNode.ofNode)), s)
  | .findValue senderId key =>
      (p.rpcFindValue now fuel senderId peer key s).map fun (result, s) =>
        match result with
        | .value v => (some (.findValueHit v), s)
        | .nodes ns => (some (.findValueNodes (ns.map WireNode.ofNode)), s)
  | .leave senderId => some (none, rpcLeave senderId peer s)
  | _ => some (none, s)

/-- The part of `handle_datagram` that receives a response: a pong introduces its
sender. -/
def receiveResponse (msg : RpcMessage) (peer : SocketAddr) (s : NodeState) : NodeState :=
  match msg with
  | .pong senderId => s.spawn (.welcomeIfNew (source senderId peer))
  | _ => s

/-! ## Runs -/

/-- What can happen to a node.  `fuel` bounds the nested splits of an insertion into the
routing table. -/
inductive NodeEvent where
  | request (now fuel : ℕ) (msg : RpcMessage) (peer : SocketAddr)
  | response (msg : RpcMessage) (peer : SocketAddr)
  | task (now fuel i : ℕ) (result : CallResult)
  | cacheDrop (key : Bytes)

/-- A node's state, with the answer to the request that led to it, if one did. -/
structure Snapshot where
  answer : Option RpcMessage
  state : NodeState

/-- One event; the task with number `i` is taken off the list and run. -/
def step (r : Snapshot) : NodeEvent → Option Snapshot
  | .request now fuel msg peer =>
      (p.dispatchRequest now fuel msg peer r.state).map fun (answer, s) => ⟨answer, s⟩
  | .response msg peer => some ⟨none, receiveResponse msg peer r.state⟩
  | .task now fuel i result =>
      match r.state.tasks[i]? with
      | none => some ⟨none, r.state⟩
      | some task =>
          let s := { r.state with tasks := r.state.tasks.eraseIdx i }
          (p.runTask now fuel result s task).map fun s => ⟨none, s⟩
  | .cacheDrop key =>
      some ⟨none, { r.state with sigCache := r.state.sigCache.map fun c => c.erase key }⟩

/-- A node that has just started. -/
def start (ksize : ℕ) (storage : ForgetfulStorage) (sigCache : Option SignatureCache) (now : ℕ) :
    Snapshot :=
  ⟨none, p.new ksize storage sigCache now⟩

end Protocol

end AuthKademlia
