import AuthKademlia.Answers
import AuthKademlia.CallCompletion
import AuthKademlia.Membership
import AuthKademlia.RoutingTermination
import AuthKademlia.Transport

/-!
# Nodes that talk to each other

A `Host` is a whole node: its calls and their pending map, the sending and the receiving end
of the transport, the requests it is handling, the spawned tasks, and the calls of the local
`Server` on the state that all of them share.  A cluster has a host at every address.

Datagrams may be lost, repeated and reordered: what a host has handed to its socket stays
in `sends`, and an event delivers any datagram of it, at any time and any number of times.
Besides, datagrams with any content may be injected from outside.  The source address of a
datagram is taken at its word, so an address from which nothing is injected is one that
nobody else sends from.

What the local calls and the background tasks wait for is answered in any way; the results
of the calls in the call table are among the ways.

The futures of a host share the lock of its routing table.  Nobody holds it between two
events, with one exception: an insertion that does not return keeps it for ever, and the
handlers and tasks that need it are stuck from then on (`Host.hung`, `Host.blocks`).  Local
calls are not held up here, so a host that hangs can do more than it should.

## Main definitions

* `Host`, `HostEvent`, `Host.step`, `Host.receive` — one node.
* `Cluster`, `ClusterEvent`, `Cluster.step` — all of them.
* `Host.Change` — what the events of a host change.
-/

namespace AuthKademlia

open Lib Protocol

/-! ## One host -/

/-- A frame that was not refused, and what the socket took of it. -/
structure Send where
  dest : SocketAddr
  frame : Frame
  datagrams : List Bytes
  deriving DecidableEq

/-- A request whose handler is suspended. -/
structure Serving where
  peer : SocketAddr
  msgId : UInt32
  message : RpcMessage
  point : Point

/-- The code from here to the next `.await` holds the lock of the routing table. -/
def Point.locks : Point → Bool
  | .banning .. | .searching .. | .lookingUp .. | .leaving .. | .greeting .. | .sampling ..
  | .adding .. | .evicting .. => true
  | .verifying .. | .checking .. | .pinging .. | .storing .. => false

/-- The insertion that comes next does not return. -/
def Point.stalls (s : NodeState) : Point → Bool
  | .adding node _ _ => s.router.Crowded node
  | _ => false

/-- The point at which an event resumes a future. -/
def LiveEvent.resumed (points : List Point) : LiveEvent → Option Point
  | .resume _ _ i _ => points[i]?
  | _ => none

/-- `hung` says that an insertion which does not return has the lock of the routing table. -/
structure Host (sv : Server) where
  calls : CallTable
  sends : List Send
  nextFragId : UInt32
  reassembly : ReassemblyMap
  serving : List Serving
  tasks : List Point
  pool : ServerPool sv
  hung : Bool

/-- What a host does on its own: a critical section of a call other than its `send_frame`,
that `send_frame`, a collection of old buffers, a segment of a handler, one of a background
task, an insertion that does not return, a segment of a local call, and the start of a call
to join or to leave. -/
inductive HostEvent (sv : Server) where
  | calls (e : CallEvent)
  | ask (c accepted : ℕ)
  | collect (now : ℕ)
  | serve (now fuel i accepted : ℕ)
  | background (e : LiveEvent)
  | hang (i : ℕ)
  | server (e : ServerEvent sv)
  | member (now : ℕ) (c : MemberCall)

namespace Host

variable {sv : Server}

/-- A host that has neither sent nor received anything. -/
def start (pool : ServerPool sv) : Host sv := ⟨.new, [], 0, ∅, [], [], pool, false⟩

/-- The state the handlers share. -/
def state (h : Host sv) : NodeState := h.pool.shared.node

/-- The points of all futures of the host, whether they owe an answer or not. -/
def points (h : Host sv) : List Point := h.serving.map Serving.point ++ h.tasks

/-- The lock of the routing table is needed and will not be free again. -/
def blocks (h : Host sv) (point : Point) : Bool := h.hung && point.locks

def withState (s : NodeState) (h : Host sv) : Host sv :=
  { h with pool := { h.pool with shared := { h.pool.shared with node := s } } }

/-- `send_frame`, with the next fragment id. -/
def send (dest : SocketAddr) (frame : Frame) (accepted : ℕ) (h : Host sv) : Bool × Host sv :=
  match sendFrame sv.wire accepted frame h.nextFragId with
  | none => (false, h)
  | some (ok, datagrams) =>
      (ok, { h with
        sends := h.sends ++ [⟨dest, frame, datagrams⟩]
        nextFragId := h.nextFragId + 1 })

/-- The handler of a request has done a segment: it is suspended again, or it is over and
its answer, if there is one, is sent back under the id of the request. -/
def progress (peer : SocketAddr) (msgId : UInt32) (message : RpcMessage) (accepted : ℕ)
    (r : Progress × NodeState) (h : Host sv) : Host sv :=
  match r.1 with
  | .waits point =>
      { h.withState r.2 with serving := h.serving ++ [⟨peer, msgId, message, point⟩] }
  | .returns none => h.withState r.2
  | .returns (some answer) => ((h.withState r.2).send peer ⟨msgId, false, answer⟩ accepted).2

/-- `handle_datagram` from the frame on. -/
def dispatch (now accepted : ℕ) (peer : SocketAddr) (frame : Frame) (h : Host sv) : Host sv :=
  if frame.isRequest then
    h.progress peer frame.msgId frame.message accepted
      (sv.protocol.beginRequest now frame.message peer h.state)
  else
    { h.withState (receiveResponse frame.message peer h.state) with
      calls := h.calls.receive frame }

/-- `handle_datagram`. -/
def receive (now accepted : ℕ) (peer : SocketAddr) (data : Bytes) (h : Host sv) : Host sv :=
  let (frame, map) := receiveFrame sv.wire now h.reassembly peer data
  match frame with
  | none => { h with reassembly := map }
  | some frame => dispatch now accepted peer frame { h with reassembly := map }

/-- One event of the host's own. -/
def step (h : Host sv) : HostEvent sv → Option (Host sv)
  | .calls e =>
      match e with
      | .sendFrame _ _ | .receive _ _ => none
      | _ => (h.calls.step e).map fun calls => { h with calls := calls }
  | .ask c accepted => h.calls.calls[c]?.bind fun call =>
      let sent := h.send call.addr call.frame accepted
      (sent.2.calls.step (.sendFrame c sent.1)).map fun calls => { sent.2 with calls := calls }
  | .collect now => some { h with reassembly := gcReassembly now h.reassembly }
  | .serve now fuel i accepted => h.serving[i]?.bind fun q =>
      if h.blocks q.point then none
      else (sv.protocol.advance now fuel .noResponse h.state q.point).map fun r =>
        progress q.peer q.msgId q.message accepted r { h with serving := h.serving.eraseIdx i }
  | .background e =>
      match e with
      | .request .. | .response .. | .crawled .. => none
      | _ =>
          if (e.resumed h.tasks).any h.blocks then none
          else (sv.protocol.liveStep ⟨h.state, h.tasks⟩ e).map fun c =>
            { h.withState c.state with tasks := c.points }
  | .hang i => h.points[i]?.bind fun point =>
      if !h.hung && point.stalls h.state then some { h with hung := true } else none
  | .server e =>
      match e with
      | .node _ => none
      | _ => (sv.step h.pool e).map fun pool => { h with pool := pool }
  | .member now c =>
      some { h with
        pool := Pool.spawn (sv.memberProcess c)
          { h.pool with shared := { h.pool.shared with now := now } } }

end Host

/-! ## All hosts -/

abbrev Cluster (servers : SocketAddr → Server) := ∀ a, Host (servers a)

/-- A host acts, a datagram that was sent arrives, or one from outside does. -/
inductive ClusterEvent (servers : SocketAddr → Server) where
  | acts (a : SocketAddr) (e : HostEvent (servers a))
  | deliver (src : SocketAddr) (k i now accepted : ℕ)
  | inject (src dest : SocketAddr) (data : Bytes) (now accepted : ℕ)

namespace Cluster

variable {servers : SocketAddr → Server}

/-- The host an event changes, and what it becomes; `deliver` takes the datagram with number
`i` of the frame with number `k` that `src` has sent. -/
def changed (c : Cluster servers) : ClusterEvent servers → Option (Σ a, Host (servers a))
  | .acts a e => ((c a).step e).map fun h => ⟨a, h⟩
  | .deliver src k i now accepted => (c src).sends[k]?.bind fun s =>
      s.datagrams[i]?.map fun data => ⟨s.dest, (c s.dest).receive now accepted src data⟩
  | .inject src dest data now accepted =>
      some ⟨dest, (c dest).receive now accepted src data⟩

def step (c : Cluster servers) (e : ClusterEvent servers) : Option (Cluster servers) :=
  (c.changed e).map fun x => Function.update c x.1 x.2

def start (pools : ∀ a, ServerPool (servers a)) : Cluster servers := fun a => .start (pools a)

end Cluster

/-! ## What an event changes -/

namespace Host

variable {sv : Server} {h h' : Host sv} {dest peer : SocketAddr} {frame : Frame} {accepted : ℕ}
  {msgId : UInt32} {message : RpcMessage} {r : Progress × NodeState} {s : Send} {q : Serving}

@[simp] theorem state_withState (s : NodeState) : (h.withState s).state = s := rfl

@[simp] theorem serving_withState (s : NodeState) : (h.withState s).serving = h.serving := rfl

@[simp] theorem tasks_withState (s : NodeState) : (h.withState s).tasks = h.tasks := rfl

/-- `send_frame` appends to the frames sent, or refuses. -/
theorem send_cases (h : Host sv) (dest : SocketAddr) (frame : Frame) (accepted : ℕ) :
    (h.send dest frame accepted).2 = h ∨
      ∃ datagrams, (h.send dest frame accepted).2 =
          { h with
            sends := h.sends ++ [⟨dest, frame, datagrams⟩]
            nextFragId := h.nextFragId + 1 } ∧
        ∃ payload, sv.wire.serialize frame = some payload ∧ payload.length ≤ maxMessageSize ∧
          ∀ d ∈ datagrams, d ∈ encodeFragments h.nextFragId payload := by
  unfold send
  split
  · exact .inl rfl
  · rename_i hsend
    exact .inr ⟨_, rfl, sendFrame_eq_some hsend⟩

@[simp] theorem calls_send : (h.send dest frame accepted).2.calls = h.calls := by
  obtain heq | ⟨_, heq, -⟩ := send_cases h dest frame accepted <;> rw [heq]

@[simp] theorem serving_send : (h.send dest frame accepted).2.serving = h.serving := by
  obtain heq | ⟨_, heq, -⟩ := send_cases h dest frame accepted <;> rw [heq]

@[simp] theorem tasks_send : (h.send dest frame accepted).2.tasks = h.tasks := by
  obtain heq | ⟨_, heq, -⟩ := send_cases h dest frame accepted <;> rw [heq]

@[simp] theorem reassembly_send : (h.send dest frame accepted).2.reassembly = h.reassembly := by
  obtain heq | ⟨_, heq, -⟩ := send_cases h dest frame accepted <;> rw [heq]

@[simp] theorem hung_send : (h.send dest frame accepted).2.hung = h.hung := by
  obtain heq | ⟨_, heq, -⟩ := send_cases h dest frame accepted <;> rw [heq]

@[simp] theorem state_send : (h.send dest frame accepted).2.state = h.state := by
  obtain heq | ⟨_, heq, -⟩ := send_cases h dest frame accepted <;> simp [heq, state]

theorem sends_isPrefix_send : h.sends <+: (h.send dest frame accepted).2.sends := by
  obtain heq | ⟨_, heq, -⟩ := send_cases h dest frame accepted <;> simp [heq]

theorem mem_sends_send (hs : s ∈ (h.send dest frame accepted).2.sends) :
    s ∈ h.sends ∨ (s.dest = dest ∧ s.frame = frame) := by
  obtain heq | ⟨_, heq, -⟩ := send_cases h dest frame accepted
  · rw [heq] at hs
    exact .inl hs
  · rw [heq, List.mem_append, List.mem_singleton] at hs
    exact hs.imp_right fun hs => by simp [hs]

@[simp] theorem calls_progress : (h.progress peer msgId message accepted r).calls = h.calls := by
  unfold progress
  split <;> simp [withState]

@[simp] theorem reassembly_progress :
    (h.progress peer msgId message accepted r).reassembly = h.reassembly := by
  unfold progress
  split <;> simp [withState]

@[simp] theorem state_progress : (h.progress peer msgId message accepted r).state = r.2 := by
  unfold progress
  split <;> simp [state]
  · rfl
  · rfl
  · exact state_send

/-- A segment sends nothing but the answer it returns. -/
theorem sends_progress_cases (h : Host sv) (peer : SocketAddr) (msgId : UInt32)
    (message : RpcMessage) (accepted : ℕ) (r : Progress × NodeState) :
    (h.progress peer msgId message accepted r).sends = h.sends ∨
      ∃ answer datagrams, r.1 = .returns (some answer) ∧
        (h.progress peer msgId message accepted r).sends =
          h.sends ++ [⟨peer, ⟨msgId, false, answer⟩, datagrams⟩] := by
  unfold progress
  split
  · exact .inl rfl
  · exact .inl rfl
  · rename_i answer hreturns
    obtain heq | ⟨datagrams, heq, -⟩ :=
      send_cases (h.withState r.2) peer ⟨msgId, false, answer⟩ accepted
    · exact .inl (by rw [heq]; rfl)
    · exact .inr ⟨answer, datagrams, hreturns, by rw [heq]; rfl⟩

theorem sends_isPrefix_progress :
    h.sends <+: (h.progress peer msgId message accepted r).sends := by
  obtain heq | ⟨answer, datagrams, -, heq⟩ := sends_progress_cases h peer msgId message accepted r
  · rw [heq]
  · rw [heq]
    exact List.prefix_append _ _

/-- The handler is suspended again, or over. -/
theorem serving_progress : (h.progress peer msgId message accepted r).serving =
    h.serving ++ r.1.pending.map fun point => ⟨peer, msgId, message, point⟩ := by
  unfold progress
  split
  · rename_i hwaits
    rw [hwaits]
    rfl
  · rename_i hreturns
    rw [hreturns]
    exact (List.append_nil _).symm
  · rename_i hreturns
    rw [serving_send, hreturns]
    exact (List.append_nil _).symm

theorem mem_serving_progress (hq : q ∈ (h.progress peer msgId message accepted r).serving) :
    q ∈ h.serving ∨ ∃ point, r.1 = .waits point ∧ q = ⟨peer, msgId, message, point⟩ := by
  rw [serving_progress, List.mem_append] at hq
  refine hq.imp_right fun hq => ?_
  obtain ⟨point, hpoint, rfl⟩ := List.mem_map.mp hq
  exact ⟨point, Progress.mem_pending.mp hpoint, rfl⟩

/-- A handler does a segment unless it needs the lock in vain. -/
theorem step_serve_eq_some {now fuel i : ℕ} :
    h.step (.serve now fuel i accepted) = some h' ↔
      ∃ q r, h.serving[i]? = some q ∧ h.blocks q.point = false ∧
        sv.protocol.advance now fuel .noResponse h.state q.point = some r ∧
        h' = progress q.peer q.msgId q.message accepted r
          { h with serving := h.serving.eraseIdx i } := by
  simp only [step, Option.bind_eq_some_iff, Option.ite_none_left_eq_some, Option.map_eq_some_iff,
    Bool.not_eq_true, eq_comm (a := h')]
  constructor
  · rintro ⟨q, hq, hfree, r, hr, heq⟩
    exact ⟨q, r, hq, hfree, hr, heq⟩
  · rintro ⟨q, r, hq, hfree, hr, heq⟩
    exact ⟨q, hq, hfree, r, hr, heq⟩

/-- So does a background task. -/
theorem live_of_background {e : LiveEvent} (hstep : h.step (.background e) = some h') :
    ∃ c, sv.protocol.liveStep ⟨h.state, h.tasks⟩ e = some c ∧
      h' = { h.withState c.state with tasks := c.points } := by
  cases e with
  | request now msg peer => cases hstep
  | response msg peer => cases hstep
  | crawled peer answered => cases hstep
  | _ =>
      simp only [step, Option.ite_none_left_eq_some, Option.map_eq_some_iff] at hstep
      obtain ⟨-, c, hc, rfl⟩ := hstep
      exact ⟨c, hc, rfl⟩

theorem step_hang_eq_some {i : ℕ} :
    h.step (.hang i) = some h' ↔
      ∃ point, h.points[i]? = some point ∧ h.hung = false ∧ point.stalls h.state = true ∧
        h' = { h with hung := true } := by
  simp only [step, Option.bind_eq_some_iff, Option.ite_none_right_eq_some, Option.some.injEq,
    Bool.and_eq_true, Bool.not_eq_true', and_assoc, eq_comm (a := h')]

/-- What the events of a host's own change. -/
inductive Change (h : Host sv) : HostEvent sv → Host sv → Prop
  | internal {e : HostEvent sv} {calls : CallTable} {reassembly : ReassemblyMap}
      (hcalls : calls = h.calls ∨ ∃ e : CallEvent, (∀ peer frame, e ≠ .receive peer frame) ∧
        h.calls.step e = some calls)
      (hmap : ∀ key entry, reassembly.lookup key = some entry →
        h.reassembly.lookup key = some entry)
      (tasks : List Point) (pool : ServerPool sv) (hung : Bool) :
      Change h e ⟨calls, h.sends, h.nextFragId, reassembly, h.serving, tasks, pool, hung⟩
  | asks {c : ℕ} {call : Call} {ok : Bool} {calls : CallTable} (accepted : ℕ)
      (hc : h.calls.calls[c]? = some call)
      (hstep : h.calls.step (.sendFrame c ok) = some calls) :
      Change h (.ask c accepted) { (h.send call.addr call.frame accepted).2 with calls := calls }
  | serves {q : Serving} {r : Progress × NodeState} (now fuel i accepted : ℕ)
      (hq : h.serving[i]? = some q)
      (hadvance : sv.protocol.advance now fuel .noResponse h.state q.point = some r) :
      Change h (.serve now fuel i accepted) (progress q.peer q.msgId q.message accepted r
        { h with serving := h.serving.eraseIdx i })

theorem change_of_step {e : HostEvent sv} (hstep : h.step e = some h') : Change h e h' := by
  have hsame : ∀ key entry, h.reassembly.lookup key = some entry →
      h.reassembly.lookup key = some entry := fun _ _ hentry => hentry
  cases e with
  | calls e =>
      cases e with
      | sendFrame c ok => cases hstep
      | receive peer frame => cases hstep
      | _ =>
          simp only [step, Option.map_eq_some_iff] at hstep
          obtain ⟨calls, hcalls, rfl⟩ := hstep
          exact .internal (.inr ⟨_, by simp, hcalls⟩) hsame h.tasks h.pool h.hung
  | ask c accepted =>
      simp only [step, Option.bind_eq_some_iff, Option.map_eq_some_iff, calls_send] at hstep
      obtain ⟨call, hc, calls, hcalls, rfl⟩ := hstep
      exact .asks accepted hc hcalls
  | collect now =>
      cases hstep
      refine .internal (.inl rfl) ?_ h.tasks h.pool h.hung
      intro key entry hentry
      exact ((@lookup_gc_eq_some h.reassembly now key entry).mp hentry).1
  | serve now fuel i accepted =>
      obtain ⟨q, r, hq, -, hr, rfl⟩ := step_serve_eq_some.mp hstep
      exact .serves now fuel i accepted hq hr
  | background e =>
      obtain ⟨c, -, rfl⟩ := live_of_background hstep
      exact .internal (.inl rfl) hsame _ _ _
  | hang i =>
      obtain ⟨point, -, -, -, rfl⟩ := step_hang_eq_some.mp hstep
      exact .internal (.inl rfl) hsame _ _ _
  | server e =>
      cases e with
      | node e => cases hstep
      | _ =>
          simp only [step, Option.map_eq_some_iff] at hstep
          obtain ⟨pool, -, rfl⟩ := hstep
          exact .internal (.inl rfl) hsame h.tasks pool h.hung
  | member now c =>
      cases hstep
      exact .internal (.inl rfl) hsame h.tasks _ h.hung

end Host

namespace Cluster

variable {servers : SocketAddr → Server} {c c' : Cluster servers} {e : ClusterEvent servers}
  {a b : SocketAddr}

/-- The event brings a datagram of `src` to `b`. -/
inductive Arrives (c : Cluster servers) : ClusterEvent servers → SocketAddr → SocketAddr → Bytes →
    ℕ → ℕ → Prop
  | sent {src : SocketAddr} {k i : ℕ} {s : Send} {data : Bytes} (now accepted : ℕ)
      (hs : (c src).sends[k]? = some s) (hdata : s.datagrams[i]? = some data) :
      Arrives c (.deliver src k i now accepted) s.dest src data now accepted
  | injected (src dest : SocketAddr) (data : Bytes) (now accepted : ℕ) :
      Arrives c (.inject src dest data now accepted) dest src data now accepted

/-- **One event**: it changes one host, which acts or receives a datagram. -/
theorem step_cases (hstep : c.step e = some c') :
    ∃ b h', c' = Function.update c b h' ∧
      ((∃ he, e = .acts b he ∧ (c b).step he = some h') ∨
        ∃ src data now accepted, Arrives c e b src data now accepted ∧
          h' = (c b).receive now accepted src data) := by
  obtain ⟨⟨b, h'⟩, hchanged, rfl⟩ := Option.map_eq_some_iff.mp hstep
  refine ⟨b, h', rfl, ?_⟩
  cases e with
  | acts a he =>
      obtain ⟨h, hh, heq⟩ := Option.map_eq_some_iff.mp hchanged
      cases heq
      exact .inl ⟨he, rfl, hh⟩
  | deliver src k i now accepted =>
      obtain ⟨s, hs, hchanged⟩ := Option.bind_eq_some_iff.mp hchanged
      obtain ⟨data, hdata, heq⟩ := Option.map_eq_some_iff.mp hchanged
      cases heq
      exact .inr ⟨src, data, now, accepted, .sent now accepted hs hdata, rfl⟩
  | inject src dest data now accepted =>
      cases hchanged
      exact .inr ⟨src, data, now, accepted, .injected src _ data now accepted, rfl⟩

end Cluster

end AuthKademlia
