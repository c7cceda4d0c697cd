import AuthKademlia.Server

/-!
# Joining and leaving

A node joins by pinging a list of addresses and looking itself up among those that answered;
it leaves by telling the neighbours it knows.  Between the two it saves the addresses of its
neighbours, for the next time.  Like the other calls of `Server` these are processes on the
state they share with the protocol layer.

## Main definitions

* `Server.bootstrap`, `Server.stop`, `Server.saveState` — the calls.
* `MemberCall` — all of them, as what the application can start.
-/

namespace AuthKademlia

open Lib Protocol

/-- What `call_ping_addr` returns when its call is over; `.badAddress` is an address that
does not parse. -/
def callPingAddr : CallResult → Bool × Bytes
  | .response (.pong senderId) => (true, senderId.bytes)
  | _ => (false, [])

/-- `bootstrap_node` after its ping. -/
def bootstrapNode (addr : String × UInt16) (result : CallResult) : Option Node :=
  let (ok, idBytes) := callPingAddr result
  if h : idBytes.length = idLen then
    if ok then some ⟨⟨idBytes, h⟩, some addr.1, some addr.2⟩ else none
  else none

/-- What `save_state` writes to its file. -/
structure SavedState where
  ksize : ℕ
  alpha : ℕ
  id : NodeId
  neighbors : List (String × UInt16)
  deriving DecidableEq

namespace Server

variable (sv : Server)

/-- The ping of an address.  Its node is not known yet; a call only takes the address of the
node it is given. -/
def pingRpc (addr : String × UInt16) : Node × RpcMessage :=
  (⟨sv.protocol.sourceNode.id, some addr.1, some addr.2⟩, .ping sv.protocol.sourceNode.id)

def bootstrap (addrs : List (String × UInt16)) : ServerProcess sv (List Node) :=
  if sv.listening then do
    let results : ℕ → CallResult ← Process.ask (Question.calls (addrs.map sv.pingRpc))
    let nodes := addrs.zipIdx.filterMap fun (addr, i) => bootstrapNode addr (results i)
    sv.nodeLookup sv.protocol.sourceNode nodes
  else pure []

/-- The call of `call_leave_rpc`, which ignores how it ends. -/
def leaveRpc (peer : Node) : Node × RpcMessage := (peer, .leave sv.protocol.sourceNode.id)

/-- `stop`, up to the end of the background loops. -/
def stop : ServerProcess sv Unit :=
  if sv.listening then do
    let neighbors ← sv.findNeighbors sv.protocol.sourceNode
    let _ : ℕ → CallResult ← Process.ask (Question.calls (neighbors.map sv.leaveRpc))
    pure ()
  else pure ()

def bootstrappableNeighbors : ServerProcess sv (List (String × UInt16)) :=
  if sv.listening then do
    let neighbors ← sv.findNeighbors sv.protocol.sourceNode
    pure (neighbors.filterMap Node.address)
  else pure []

/-- `save_state`, and a turn of the loop of `save_state_regularly`: nothing is written for a
node without neighbours. -/
def saveState : ServerProcess sv (Option SavedState) := do
  let neighbors ← sv.bootstrappableNeighbors
  if neighbors.isEmpty then pure none
  else pure (some ⟨sv.ksize, sv.alpha, sv.protocol.sourceNode.id, neighbors⟩)

end Server

inductive MemberCall where
  | bootstrap (addrs : List (String × UInt16))
  | stop
  | saveState

/-- A call to join or to leave.  What it returns concerns the application only. -/
def Server.memberProcess (sv : Server) : MemberCall → ServerProcess sv LocalResult
  | .bootstrap addrs => do
      let _ ← sv.bootstrap addrs
      pure .refreshed
  | .stop => do
      sv.stop
      pure .refreshed
  | .saveState => do
      let _ ← sv.saveState
      pure .refreshed

end AuthKademlia
