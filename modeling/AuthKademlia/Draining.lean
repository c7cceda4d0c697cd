import AuthKademlia.Listening
import AuthKademlia.LoyalContacts

/-!
# A host works off what it has received

A worker is busy until its handler is over, and a handler may be suspended several times, so it
is not clear that the datagrams behind it are ever handled.  Handlers wait for no answer of a
peer, though: whatever a host has gone through, it can handle all it has received by itself
(`backlog_drains`), unless an insertion into the routing table never ends.

Such an insertion keeps the lock of the table.  It may be that of a handler, as the handler of a
`FindValue` awaits a welcome, or that of a welcome in the background.  The handlers that need
the lock keep their workers for good then, and what is queued for these workers is not handled;
everything else is.

## Main definitions

* `Point.segments` — a bound on the segments a future has left.
* `Station.work` — what is left to do.
* `Station.Stuck` — what a station looks like that an insertion has stopped.
-/

namespace AuthKademlia

open Lib Protocol

/-! ## Segments -/

/-- How many segments a future has left at most. -/
def Point.segments : Point → ℕ
  | .greeting _ _ => 4
  | .sampling _ _ _ => 3
  | .verifying _ _ _ _ | .adding _ _ _ | .pinging _ | .storing _ => 2
  | _ => 1

section SoundTable

variable {s : NodeState}

end SoundTable

/-! ## What is left to do -/

namespace WorkerPool

variable {s : WorkerPool} {w : ℕ} {old worker : Worker}

/-- The iterations of the loop over the workers that are left, and the one that gives up. -/
def tries (s : WorkerPool) : ℕ :=
  match s.point with
  | .trying _ _ i => s.workers.length - i + 1
  | _ => 0

end WorkerPool

namespace Station

variable {sv : Server} {st : Station sv} {now fuel i accepted w : ℕ}

end Station

namespace Stations

variable {servers : SocketAddr → Server} {c : Stations servers}
  {run : List (StationEvent servers)} {workers : SocketAddr → ℕ}
  {pools : ∀ a, ServerPool (servers a)} {a : SocketAddr}

section

open Cluster Sample

def narrowServer : Server :=
  ⟨2, 3, didProtocol RoutingTable.upperNode sampleHash sampleLib (.ok issuerKey), true, .plain,
    bincode⟩

/-- The request of a collider is received, and a worker takes it. -/
def heard (w : ℕ) (message : RpcMessage) : List (StationEvent fun _ => narrowServer) :=
  [.inject peerAddr keeper (datagram 0 (Frame.codec.write ⟨0, true, message⟩) 0),
    .loops keeper .trySend, .handles keeper w 0 1]

/-- A lookup of the collider, with so many segments after the first. -/
def looked (k segments : ℕ) : List (StationEvent fun _ => narrowServer) :=
  heard 0 (.findValue (RoutingTable.collider k).id deviceKey) ++
    List.replicate segments (.acts keeper (.serve 0 1 0 1))

def narrowStart : Stations fun _ => narrowServer :=
  start (fun _ => 1) fun _ => narrowServer.start (.new (-1)) none 0

-- Its worker is stuck with the third of them.
example : (exec step narrowStart
    (looked 0x40000000 4 ++ looked 0x60000000 4 ++ looked 0x50000000 2)).map
      (fun c => (c keeper).host.serving.map fun q => q.point.stalls (c keeper).host.state) =
    some [true] := by
  decide +kernel

-- If the third says nothing but `Ping`, it is the welcome in the background that does not end,
-- and the next lookup of anybody waits for the lock.
example : (exec step narrowStart
    (looked 0x40000000 4 ++ looked 0x60000000 4 ++
      heard 0 (.ping (RoutingTable.collider 0x50000000).id) ++
      [.acts keeper (.background (.start 0)),
        .acts keeper (.background (.resume 0 1 0 .noResponse)),
        .acts keeper (.background (.resume 0 1 0 .noResponse)), .acts keeper (.hang 0)] ++
      heard 0 (.findNode peerId deviceKey))).map
      (fun c => (c keeper).host.serving.map fun q => (c keeper).host.blocks q.point) =
    some [true] := by
  decide +kernel

end

end Stations

end AuthKademlia
