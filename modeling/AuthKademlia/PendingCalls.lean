import AuthKademlia.Protocol

/-!
# Calls waiting for their responses

`call` takes a message id, puts the sending half of a `oneshot` channel into the pending
map, sends its request and waits for the receiving half under a timeout.  `handle_datagram`
takes the sender of a response's message id out of the map and sends the message into it.
Each of these is a critical section of its own, so any number of calls and frames
interleave; an event of `step` is one such section.

A call is known by its number, in the order in which the ids are taken.  An entry of the
map stands for the sender of the call with that number.  Ids wrap after `2 ^ 32` calls:
then an insertion may replace the sender of another call and a removal may take it, and
the channel of that call closes.

## Main definitions

* `Frame`, `Call`, `CallTable`, `CallEvent`, `CallTable.step` — the calls of one node.
* `CallTable.StepOf` — the events case by case.
* `CallTable.Sound`, `CallTable.Exact` — entries of the map and waiting calls correspond.
-/

namespace AuthKademlia

open Lib

structure Frame where
  msgId : UInt32
  isRequest : Bool
  message : RpcMessage
  deriving DecidableEq

/-- The `oneshot` channel of a call, as its sending half leaves it. -/
inductive Channel where
  | empty
  | sent (message : RpcMessage)
  | closed
  deriving DecidableEq

/-- Why a call returns without a response. -/
inductive CallFailure where
  | sendFailed
  | channelClosed
  | timedOut
  deriving DecidableEq

/-- Where a call stands between two of its critical sections. -/
inductive CallPhase where
  | allocated
  | sending
  | waiting
  | leaving (failure : CallFailure)
  | returned (result : Option RpcMessage)
  deriving DecidableEq

structure Call where
  addr : SocketAddr
  frame : Frame
  channel : Channel
  phase : CallPhase
  deriving DecidableEq

namespace Call

/-- The id the call has taken. -/
def msgId (call : Call) : UInt32 := call.frame.msgId

/-- The receiving half lives until the awaited `timeout` or the call itself is over. -/
def receiverAlive (call : Call) : Bool :=
  match call.phase with
  | .allocated | .sending | .waiting | .leaving .sendFailed => true
  | .leaving .channelClosed | .leaving .timedOut | .returned _ => false

/-- `tx.send(message)`: the sender is used up, and without a receiver the message is lost. -/
def send (message : RpcMessage) (call : Call) : Call :=
  match call.channel with
  | .empty => { call with channel := if call.receiverAlive then .sent message else .closed }
  | _ => call

/-- The sender is dropped without a message. -/
def dropSender (call : Call) : Call :=
  match call.channel with
  | .empty => { call with channel := .closed }
  | _ => call

def enter (phase : CallPhase) (call : Call) : Call := { call with phase := phase }

/-- Where the await on the channel leaves a call; a timer that has run out counts only if
the channel has nothing to say. -/
def poll (elapsed : Bool) (call : Call) : CallPhase :=
  match call.channel with
  | .sent message => .returned (some message)
  | .closed => .leaving .channelClosed
  | .empty => if elapsed then .leaving .timedOut else .waiting

/-- Sending its request or waiting for the response. -/
def Running (call : Call) : Prop := call.phase = .sending ∨ call.phase = .waiting

/-- Started, and neither answered nor failed nor timed out. -/
def IsOpen (call : Call) : Prop := call.Running ∧ ∀ m, call.channel ≠ .sent m

/-- Failed or timed out with its sender still in the map, which it is about to take out. -/
def IsLeaving (call : Call) : Prop :=
  (∃ failure, call.phase = .leaving failure) ∧ call.channel = .empty

end Call

structure CallTable where
  nextMsgId : UInt32
  calls : List Call
  pending : AList fun _ : UInt32 => ℕ

/-- One critical section of a call, or a frame that has arrived in full. -/
inductive CallEvent where
  | start (addr : SocketAddr) (message : RpcMessage)
  | register (c : ℕ)
  | sendFrame (c : ℕ) (ok : Bool)
  | poll (c : ℕ) (elapsed : Bool)
  | unregister (c : ℕ)
  | receive (peer : SocketAddr) (frame : Frame)
  deriving DecidableEq

def CallEvent.isStart : CallEvent → Bool
  | .start _ _ => true
  | _ => false

namespace CallTable

def new : CallTable := ⟨0, [], ∅⟩

/-- `next_id`, and the request frame with the id. -/
def start (addr : SocketAddr) (message : RpcMessage) (t : CallTable) : CallTable :=
  { t with
    nextMsgId := t.nextMsgId + 1
    calls := t.calls ++ [⟨addr, ⟨t.nextMsgId, true, message⟩, .empty, .allocated⟩] }

/-- The call goes on to its next phase. -/
def advance (c : ℕ) (phase : CallPhase) (t : CallTable) : CallTable :=
  { t with calls := t.calls.modify c (Call.enter phase) }

/-- `pending.remove(&msg_id)`; `consume` is what becomes of the sender taken out. -/
def takeEntry (consume : Call → Call) (id : UInt32) (t : CallTable) : CallTable :=
  match t.pending.lookup id with
  | none => t
  | some c => { t with calls := t.calls.modify c consume, pending := t.pending.erase id }

/-- `pending.insert(msg_id, tx)`, which drops a sender that was there. -/
def insertEntry (id : UInt32) (c : ℕ) (t : CallTable) : CallTable :=
  let t := t.takeEntry Call.dropSender id
  { t with pending := t.pending.insert id c }

/-- The response path of `handle_datagram`; it does not look at the peer. -/
def receive (frame : Frame) (t : CallTable) : CallTable :=
  if frame.isRequest then t else t.takeEntry (Call.send frame.message) frame.msgId

/-- One event; `none` if the call is not at that point. -/
def step (t : CallTable) : CallEvent → Option CallTable
  | .start addr message => some (t.start addr message)
  | .register c => t.calls[c]?.bind fun call =>
      match call.phase with
      | .allocated => some ((t.insertEntry call.msgId c).advance c .sending)
      | _ => none
  | .sendFrame c ok => t.calls[c]?.bind fun call =>
      match call.phase with
      | .sending => some (t.advance c (if ok then .waiting else .leaving .sendFailed))
      | _ => none
  | .poll c elapsed => t.calls[c]?.bind fun call =>
      match call.phase with
      | .waiting => some (t.advance c (call.poll elapsed))
      | _ => none
  | .unregister c => t.calls[c]?.bind fun call =>
      match call.phase with
      | .leaving _ =>
          some ((t.takeEntry Call.dropSender call.msgId).advance c (.returned none))
      | _ => none
  | .receive _ frame => some (t.receive frame)

end CallTable

/-! ## What one event does -/

namespace Call

variable {call : Call} {message : RpcMessage} {phase : CallPhase}

@[simp] theorem msgId_enter : (call.enter phase).msgId = call.msgId := rfl

@[simp] theorem phase_enter : (call.enter phase).phase = phase := rfl

@[simp] theorem channel_enter : (call.enter phase).channel = call.channel := rfl

/-- What both uses of a sender have in common: the channel is decided, for good, and
nothing else changes. -/
structure UsesSender (consume : Call → Call) : Prop where
  msgId : ∀ call, (consume call).msgId = call.msgId
  addr : ∀ call, (consume call).addr = call.addr
  phase : ∀ call, (consume call).phase = call.phase
  decided : ∀ call, (consume call).channel ≠ .empty
  final : ∀ call, call.channel ≠ .empty → consume call = call

theorem usesSender_send : UsesSender (send message) := by
  constructor <;> intro call <;> unfold send <;> split <;> try rfl
  · dsimp only
    split <;> simp
  · assumption
  · intro h
    exact absurd ‹_› h
  · exact fun _ => rfl

theorem usesSender_dropSender : UsesSender dropSender := by
  constructor <;> intro call <;> unfold dropSender <;> split <;> try rfl
  · simp
  · assumption
  · intro h
    exact absurd ‹_› h
  · exact fun _ => rfl

/-- What is in the channel after a send is the message, or was there before. -/
theorem channel_send_eq_sent {m : RpcMessage} (h : (call.send message).channel = .sent m) :
    call.channel = .sent m ∨ message = m := by
  unfold send at h
  split at h
  · dsimp only at h
    split at h
    · exact .inr (Channel.sent.inj h)
    · cases h
  · exact .inl h

theorem channel_send_ne_closed (hrunning : call.Running) (h : call.channel ≠ .closed) :
    (call.send message).channel ≠ .closed := by
  unfold send
  split
  · have halive : call.receiverAlive = true := by
      rcases hrunning with hphase | hphase <;> simp [receiverAlive, hphase]
    simp [halive]
  · exact h

theorem channel_dropSender_eq_sent {m : RpcMessage} (h : call.dropSender.channel = .sent m) :
    call.channel = .sent m := by
  unfold dropSender at h
  split at h
  · cases h
  · exact h

end Call

namespace CallTable

open Call

variable {t t' : CallTable} {id : UInt32} {c : ℕ} {call : Call} {consume : Call → Call}

/-- A call that has started may go on to this phase. -/
structure CanEnter (call : Call) (phase : CallPhase) : Prop where
  started : call.Running
  stays : phase ≠ .allocated
  answered : ∀ result, phase = .returned result → ∃ m, result = some m ∧ call.channel = .sent m

/-- The events of `step` case by case. -/
inductive StepOf (t : CallTable) : CallEvent → CallTable → Prop
  | start (addr : SocketAddr) (message : RpcMessage) :
      StepOf t (.start addr message) (t.start addr message)
  | register {c : ℕ} {call : Call} (hc : t.calls[c]? = some call)
      (hphase : call.phase = .allocated) :
      StepOf t (.register c) ((t.insertEntry call.msgId c).advance c .sending)
  | advance {e : CallEvent} {c : ℕ} {call : Call} {phase : CallPhase}
      (hstart : e.isStart = false) (hc : t.calls[c]? = some call)
      (hphase : CanEnter call phase) : StepOf t e (t.advance c phase)
  | unregister {c : ℕ} {call : Call} {failure : CallFailure} (hc : t.calls[c]? = some call)
      (hphase : call.phase = .leaving failure) :
      StepOf t (.unregister c)
        ((t.takeEntry dropSender call.msgId).advance c (.returned none))
  | request {peer : SocketAddr} {frame : Frame} (hrequest : frame.isRequest = true) :
      StepOf t (.receive peer frame) t
  | response {peer : SocketAddr} {frame : Frame} (hresponse : frame.isRequest = false) :
      StepOf t (.receive peer frame) (t.takeEntry (send frame.message) frame.msgId)

theorem canEnter_sendFrame (h : call.phase = .sending) (ok : Bool) :
    CanEnter call (if ok then .waiting else .leaving .sendFailed) := by
  cases ok <;> constructor <;> simp [Running, h]

theorem canEnter_poll (h : call.phase = .waiting) (elapsed : Bool) :
    CanEnter call (call.poll elapsed) := by
  unfold Call.poll
  cases hchannel : call.channel with
  | empty => cases elapsed <;> constructor <;> simp [Running, h]
  | sent m => constructor <;> simp [Running, h, hchannel]
  | closed => constructor <;> simp [Running, h]

theorem stepOf_receive (t : CallTable) (peer : SocketAddr) (frame : Frame) :
    StepOf t (.receive peer frame) (t.receive frame) := by
  unfold receive
  split
  · exact .request ‹_›
  · rename_i hresponse
    exact .response (by simpa using hresponse)

theorem stepOf_of_step {e : CallEvent} (h : t.step e = some t') : StepOf t e t' := by
  cases e with
  | start addr message => cases h; exact .start addr message
  | receive peer frame => cases h; exact stepOf_receive t peer frame
  | register c =>
      rcases Option.bind_eq_some_iff.mp h with ⟨call, hc, h⟩
      split at h
      · cases h; exact .register hc ‹_›
      · cases h
  | sendFrame c ok =>
      rcases Option.bind_eq_some_iff.mp h with ⟨call, hc, h⟩
      split at h
      · cases h; exact .advance rfl hc (canEnter_sendFrame ‹_› ok)
      · cases h
  | poll c elapsed =>
      rcases Option.bind_eq_some_iff.mp h with ⟨call, hc, h⟩
      split at h
      · cases h; exact .advance rfl hc (canEnter_poll ‹_› elapsed)
      · cases h
  | unregister c =>
      rcases Option.bind_eq_some_iff.mp h with ⟨call, hc, h⟩
      split at h
      · cases h; exact .unregister hc ‹_›
      · cases h

/-! Each operation on the calls and the entries, read through a lookup. -/

theorem getElem?_advance (c d : ℕ) (phase : CallPhase) (t : CallTable) :
    (t.advance c phase).calls[d]? =
      t.calls[d]?.map fun call => if c = d then call.enter phase else call := by
  simp [advance, List.getElem?_modify]

theorem getElem?_takeEntry (consume : Call → Call) (id : UInt32) (d : ℕ) (t : CallTable) :
    (t.takeEntry consume id).calls[d]? =
      t.calls[d]?.map fun call =>
        if t.pending.lookup id = some d then consume call else call := by
  unfold takeEntry
  split <;> simp [*, List.getElem?_modify]

/-- A call of the new table is one of the old table, moved on if it is the call's turn. -/
theorem exists_of_advance {d : ℕ} {k' : Call} {phase : CallPhase}
    (h : (t.advance c phase).calls[d]? = some k') : ∃ k, t.calls[d]? = some k ∧
      ((c = d ∧ k' = k.enter phase) ∨ (c ≠ d ∧ k' = k)) := by
  rw [getElem?_advance] at h
  rcases Option.map_eq_some_iff.mp h with ⟨k, hk, rfl⟩
  refine ⟨k, hk, ?_⟩
  by_cases hcd : c = d <;> simp [hcd]

theorem exists_of_takeEntry {d : ℕ} {k' : Call}
    (h : (t.takeEntry consume id).calls[d]? = some k') : ∃ k, t.calls[d]? = some k ∧
      ((t.pending.lookup id = some d ∧ k' = consume k) ∨
        (t.pending.lookup id ≠ some d ∧ k' = k)) := by
  rw [getElem?_takeEntry] at h
  rcases Option.map_eq_some_iff.mp h with ⟨k, hk, rfl⟩
  refine ⟨k, hk, ?_⟩
  by_cases hd : t.pending.lookup id = some d <;> simp [hd]

theorem lookup_takeEntry (consume : Call → Call) (id id' : UInt32) (t : CallTable) :
    (t.takeEntry consume id).pending.lookup id' =
      if id' = id then none else t.pending.lookup id' := by
  unfold takeEntry
  split
  · by_cases hid : id' = id
    · subst hid
      simpa
    · simp [hid]
  · by_cases hid : id' = id
    · subst hid
      simp
    · simp [hid, AList.lookup_erase_ne hid]

theorem lookup_insertEntry (id id' : UInt32) (c : ℕ) (t : CallTable) :
    (t.insertEntry id c).pending.lookup id' =
      if id' = id then some c else t.pending.lookup id' := by
  by_cases hid : id' = id
  · subst hid
    simp [insertEntry]
  · simp [insertEntry, hid, AList.lookup_insert_ne hid, lookup_takeEntry]

@[simp] theorem length_advance (c : ℕ) (phase : CallPhase) (t : CallTable) :
    (t.advance c phase).calls.length = t.calls.length := by
  simp [advance]

@[simp] theorem length_takeEntry (consume : Call → Call) (id : UInt32) (t : CallTable) :
    (t.takeEntry consume id).calls.length = t.calls.length := by
  unfold takeEntry
  split <;> simp

@[simp] theorem nextMsgId_takeEntry (consume : Call → Call) (id : UInt32) (t : CallTable) :
    (t.takeEntry consume id).nextMsgId = t.nextMsgId := by
  unfold takeEntry
  split <;> rfl

/-! ## Invariants -/

/-- What holds of every table, whatever the number of calls. -/
structure Sound (t : CallTable) : Prop where
  next : t.nextMsgId = UInt32.ofNat t.calls.length
  numbered : ∀ c call, t.calls[c]? = some call → call.msgId = UInt32.ofNat c
  fresh : ∀ (c : ℕ) (call : Call), t.calls[c]? = some call → call.phase = .allocated →
    call.channel = .empty
  sender : ∀ id c, t.pending.lookup id = some c → ∃ call, t.calls[c]? = some call ∧
    call.msgId = id ∧ call.phase ≠ .allocated ∧ call.channel = .empty
  result : ∀ (c : ℕ) (call : Call) (m : RpcMessage), t.calls[c]? = some call →
    call.phase = .returned (some m) → call.channel = .sent m

/-- The map has lost no sender, and a call that is over has none left in it. -/
structure Exact (t : CallTable) : Prop where
  sender : ∀ (c : ℕ) (call : Call), t.calls[c]? = some call → call.phase ≠ .allocated →
    call.channel = .empty → t.pending.lookup call.msgId = some c
  finished : ∀ (c : ℕ) (call : Call) (result : Option RpcMessage), t.calls[c]? = some call →
    call.phase = .returned result → call.channel ≠ .empty

theorem sound_new : new.Sound := by
  constructor <;> simp [new]

theorem getElem?_start {addr : SocketAddr} {message : RpcMessage}
    (h : (t.start addr message).calls[c]? = some call) :
    t.calls[c]? = some call ∨
      (c = t.calls.length ∧ call = ⟨addr, ⟨t.nextMsgId, true, message⟩, .empty, .allocated⟩) := by
  rcases Nat.lt_trichotomy c t.calls.length with hlt | rfl | hgt
  · exact .inl (by simpa [start, List.getElem?_append_left hlt] using h)
  · exact .inr ⟨rfl, by simpa [start] using h.symm⟩
  · rw [List.getElem?_eq_none (by simp [start]; omega)] at h
    cases h

theorem getElem?_start_of_some (addr : SocketAddr) (message : RpcMessage)
    (h : t.calls[c]? = some call) : (t.start addr message).calls[c]? = some call := by
  rw [show (t.start addr message).calls = t.calls ++ _ from rfl,
    List.getElem?_append_left (List.getElem?_eq_some_iff.mp h).1, h]

theorem Sound.start (h : t.Sound) (addr : SocketAddr) (message : RpcMessage) :
    (t.start addr message).Sound := by
  constructor
  · rw [show (t.start addr message).nextMsgId = t.nextMsgId + 1 from rfl, h.next]
    simp [CallTable.start]
  · intro c call hc
    rcases getElem?_start hc with hc | ⟨rfl, rfl⟩
    · exact h.numbered c call hc
    · exact h.next
  · intro c call hc hphase
    rcases getElem?_start hc with hc | ⟨-, rfl⟩
    · exact h.fresh c call hc hphase
    · rfl
  · intro id c hlookup
    rcases h.sender id c hlookup with ⟨call, hc, hcall⟩
    exact ⟨call, getElem?_start_of_some addr message hc, hcall⟩
  · intro c call m hc hphase
    rcases getElem?_start hc with hc | ⟨-, rfl⟩
    · exact h.result c call m hc hphase
    · cases hphase

theorem Sound.advance (h : t.Sound) {phase : CallPhase} (hc : t.calls[c]? = some call)
    (hstays : phase ≠ .allocated)
    (hresult : ∀ m, phase = .returned (some m) → call.channel = .sent m) :
    (t.advance c phase).Sound := by
  constructor
  · rw [length_advance, ← h.next]
    rfl
  · intro d k' hd'
    rcases exists_of_advance hd' with ⟨k, hd, ⟨-, rfl⟩ | ⟨-, rfl⟩⟩
    · exact h.numbered d k hd
    · exact h.numbered d k' hd
  · intro d k' hd' hphase
    rcases exists_of_advance hd' with ⟨k, hd, ⟨-, rfl⟩ | ⟨-, rfl⟩⟩
    · exact absurd hphase hstays
    · exact h.fresh d k' hd hphase
  · intro id d hlookup
    rcases h.sender id d hlookup with ⟨k, hd, hid, hphase, hempty⟩
    refine ⟨_, by rw [getElem?_advance, hd]; rfl, ?_⟩
    split <;> simp [*]
  · intro d k' m hd' hphase
    rcases exists_of_advance hd' with ⟨k, hd, ⟨rfl, rfl⟩ | ⟨-, rfl⟩⟩
    · rw [hc] at hd
      cases hd
      exact hresult m hphase
    · exact h.result d k' m hd hphase

/-- The entry of an id is the sender of a call with this id. -/
theorem Sound.lookup_ne (h : t.Sound) (hc : t.calls[c]? = some call) (hne : call.msgId ≠ id) :
    t.pending.lookup id ≠ some c := by
  intro hlookup
  rcases h.sender id c hlookup with ⟨call', hc', hid, -⟩
  rw [hc] at hc'
  cases hc'
  exact hne hid

theorem Sound.lookup_ne_of_decided (h : t.Sound) (hc : t.calls[c]? = some call)
    (hdecided : call.channel ≠ .empty) : t.pending.lookup id ≠ some c := by
  intro hlookup
  rcases h.sender id c hlookup with ⟨call', hc', -, -, hempty⟩
  rw [hc] at hc'
  cases hc'
  exact hdecided hempty

theorem Sound.lookup_ne_of_allocated (h : t.Sound) (hc : t.calls[c]? = some call)
    (hphase : call.phase = .allocated) : t.pending.lookup id ≠ some c := by
  intro hlookup
  rcases h.sender id c hlookup with ⟨call', hc', -, hstarted, -⟩
  rw [hc] at hc'
  cases hc'
  exact hstarted hphase

theorem Sound.getElem?_takeEntry_of_allocated (h : t.Sound) (hc : t.calls[c]? = some call)
    (hphase : call.phase = .allocated) : (t.takeEntry consume id).calls[c]? = some call := by
  rw [getElem?_takeEntry, hc, Option.map_some, if_neg (h.lookup_ne_of_allocated hc hphase)]

theorem Sound.takeEntry (h : t.Sound) (hconsume : UsesSender consume) (id : UInt32) :
    (t.takeEntry consume id).Sound := by
  constructor
  · rw [nextMsgId_takeEntry, length_takeEntry, h.next]
  · intro d k' hd'
    rcases exists_of_takeEntry hd' with ⟨k, hd, ⟨-, rfl⟩ | ⟨-, rfl⟩⟩
    · rw [hconsume.msgId, h.numbered d k hd]
    · exact h.numbered d k' hd
  · intro d k' hd' hphase
    rcases exists_of_takeEntry hd' with ⟨k, hd, ⟨hentry, rfl⟩ | ⟨-, rfl⟩⟩
    · rw [hconsume.phase] at hphase
      exact absurd hentry (h.lookup_ne_of_allocated hd hphase)
    · exact h.fresh d k' hd hphase
  · intro id' d hlookup
    rw [lookup_takeEntry] at hlookup
    split at hlookup
    · cases hlookup
    · rcases h.sender id' d hlookup with ⟨k, hd, hid, hk⟩
      have hother : t.pending.lookup id ≠ some d := h.lookup_ne hd (by rw [hid]; assumption)
      exact ⟨k, by rw [getElem?_takeEntry, hd, Option.map_some, if_neg hother], hid, hk⟩
  · intro d k' m hd' hphase
    rcases exists_of_takeEntry hd' with ⟨k, hd, ⟨hentry, rfl⟩ | ⟨-, rfl⟩⟩
    · rw [hconsume.phase] at hphase
      have hsent := h.result d k m hd hphase
      exact absurd hentry (h.lookup_ne_of_decided hd (by simp [hsent]))
    · exact h.result d k' m hd hphase

theorem Sound.register (h : t.Sound) (hc : t.calls[c]? = some call)
    (hphase : call.phase = .allocated) :
    ((t.insertEntry call.msgId c).advance c .sending).Sound := by
  have htaken := h.takeEntry usesSender_dropSender call.msgId
  have hkept : (t.takeEntry dropSender call.msgId).calls[c]? = some call :=
    h.getElem?_takeEntry_of_allocated hc hphase
  have hsending : ((t.takeEntry dropSender call.msgId).advance c .sending).Sound :=
    htaken.advance hkept (by simp) (by simp)
  refine ⟨hsending.next, hsending.numbered, hsending.fresh, ?_, hsending.result⟩
  intro id d hlookup
  have hlookup : (t.insertEntry call.msgId c).pending.lookup id = some d := hlookup
  rw [lookup_insertEntry] at hlookup
  split at hlookup
  · rename_i hid
    cases hlookup
    refine ⟨call.enter .sending, ?_, hid.symm, by simp, h.fresh c call hc hphase⟩
    have hadvanced := getElem?_advance c c .sending (t.takeEntry dropSender call.msgId)
    rw [hkept, Option.map_some, if_pos rfl] at hadvanced
    exact hadvanced
  · rename_i hid
    refine hsending.sender id d ?_
    have htake := lookup_takeEntry dropSender call.msgId id t
    rw [if_neg hid, hlookup] at htake
    exact htake

theorem Sound.step {e : CallEvent} (h : t.Sound) (hstep : t.step e = some t') : t'.Sound := by
  cases stepOf_of_step hstep with
  | start addr message => exact h.start addr message
  | register hc hphase => exact h.register hc hphase
  | advance _ hc hphase =>
      refine h.advance hc hphase.stays ?_
      intro m hm
      rcases hphase.answered _ hm with ⟨m', hm', hsent⟩
      cases hm'
      exact hsent
  | unregister hc hphase =>
      rename_i c call failure
      have htaken := h.takeEntry usesSender_dropSender call.msgId
      have hc' := getElem?_takeEntry dropSender call.msgId c t
      rw [hc, Option.map_some] at hc'
      exact htaken.advance hc' (by simp) (by simp)
  | request _ => exact h
  | response _ => exact h.takeEntry usesSender_send _

theorem sound_of_exec {run : List CallEvent} (h : exec step new run = some t) : t.Sound :=
  exec_invariant Sound sound_new (fun _ _ _ hr he => hr.step he) h

/-! The same for the second invariant. -/

theorem exact_new : new.Exact := by
  constructor <;> simp [new]

theorem Exact.start (h : t.Exact) (addr : SocketAddr) (message : RpcMessage) :
    (t.start addr message).Exact := by
  constructor
  · intro c call hc hstarted hempty
    rcases getElem?_start hc with hc | ⟨-, rfl⟩
    · exact h.sender c call hc hstarted hempty
    · exact absurd rfl hstarted
  · intro c call result hc hphase
    rcases getElem?_start hc with hc | ⟨-, rfl⟩
    · exact h.finished c call result hc hphase
    · cases hphase

theorem Exact.advance (h : t.Exact) {phase : CallPhase} (hc : t.calls[c]? = some call)
    (hstarted : call.phase ≠ .allocated)
    (hfinished : ∀ result, phase = .returned result → call.channel ≠ .empty) :
    (t.advance c phase).Exact := by
  constructor
  · intro d k' hd' hk' hempty
    rcases exists_of_advance hd' with ⟨k, hd, ⟨rfl, rfl⟩ | ⟨-, rfl⟩⟩
    · rw [hc] at hd
      cases hd
      exact h.sender c call hc hstarted hempty
    · exact h.sender d k' hd hk' hempty
  · intro d k' result hd' hphase
    rcases exists_of_advance hd' with ⟨k, hd, ⟨rfl, rfl⟩ | ⟨-, rfl⟩⟩
    · rw [hc] at hd
      cases hd
      exact hfinished result hphase
    · exact h.finished d k' result hd hphase

theorem Exact.takeEntry (h : t.Exact) (hconsume : UsesSender consume) (id : UInt32) :
    (t.takeEntry consume id).Exact := by
  constructor
  · intro d k' hd' hk' hempty
    rcases exists_of_takeEntry hd' with ⟨k, hd, ⟨-, rfl⟩ | ⟨hother, rfl⟩⟩
    · exact absurd hempty (hconsume.decided k)
    · have hentry := h.sender d k' hd hk' hempty
      rw [lookup_takeEntry, if_neg, hentry]
      intro hid
      exact hother (hid ▸ hentry)
  · intro d k' result hd' hphase
    rcases exists_of_takeEntry hd' with ⟨k, hd, ⟨-, rfl⟩ | ⟨-, rfl⟩⟩
    · exact hconsume.decided k
    · exact h.finished d k' result hd hphase

/-- After a registration a call is the new entry, or as it was before the insertion. -/
theorem Sound.calls_register (h : t.Sound) (hc : t.calls[c]? = some call)
    (hphase : call.phase = .allocated) {d : ℕ} {k : Call}
    (hd : ((t.insertEntry call.msgId c).advance c .sending).calls[d]? = some k) :
    (c = d ∧ k = call.enter .sending) ∨
      (t.takeEntry dropSender call.msgId).calls[d]? = some k := by
  rcases @exists_of_advance (t.takeEntry dropSender call.msgId) c d k .sending hd with
    ⟨k', hd', ⟨rfl, rfl⟩ | ⟨-, rfl⟩⟩
  · rw [h.getElem?_takeEntry_of_allocated hc hphase] at hd'
    cases hd'
    exact .inl ⟨rfl, rfl⟩
  · exact .inr hd'

theorem Exact.register (h : t.Exact) (hsound : t.Sound) (hc : t.calls[c]? = some call)
    (hphase : call.phase = .allocated) :
    ((t.insertEntry call.msgId c).advance c .sending).Exact := by
  have htaken := h.takeEntry usesSender_dropSender call.msgId
  constructor
  · intro d k' hd' hk' hempty
    change (t.insertEntry call.msgId c).pending.lookup k'.msgId = some d
    rw [lookup_insertEntry]
    rcases hsound.calls_register hc hphase hd' with ⟨rfl, rfl⟩ | hd
    · rw [msgId_enter, if_pos rfl]
    · have hentry := htaken.sender d k' hd hk' hempty
      rw [lookup_takeEntry] at hentry
      split at hentry
      · cases hentry
      · rw [if_neg ‹_›, hentry]
  · intro d k' result hd' hphase'
    rcases hsound.calls_register hc hphase hd' with ⟨-, rfl⟩ | hd
    · cases hphase'
    · exact htaken.finished d k' result hd hphase'

theorem Exact.unregister (h : t.Exact) {failure : CallFailure} (hc : t.calls[c]? = some call)
    (hphase : call.phase = .leaving failure) :
    ((t.takeEntry dropSender call.msgId).advance c (.returned none)).Exact := by
  have htaken := h.takeEntry usesSender_dropSender call.msgId
  have hc' := getElem?_takeEntry dropSender call.msgId c t
  rw [hc, Option.map_some] at hc'
  split at hc'
  · refine htaken.advance hc' ?_ ?_
    · simp [usesSender_dropSender.phase, hphase]
    · intro _ _
      exact usesSender_dropSender.decided call
  · rename_i hother
    refine htaken.advance hc' (by simp [hphase]) ?_
    intro _ _ hempty
    exact hother (h.sender c call hc (by simp [hphase]) hempty)

theorem Exact.step {e : CallEvent} (h : t.Exact) (hsound : t.Sound)
    (hstep : t.step e = some t') : t'.Exact := by
  cases stepOf_of_step hstep with
  | start addr message => exact h.start addr message
  | register hc hphase => exact h.register hsound hc hphase
  | advance _ hc hphase =>
      refine h.advance hc ?_ ?_
      · rcases hphase.started with hphase | hphase <;> simp [hphase]
      · intro result hresult hempty
        rcases hphase.answered result hresult with ⟨m, -, hsent⟩
        rw [hempty] at hsent
        cases hsent
  | unregister hc hphase => exact h.unregister hc hphase
  | request _ => exact h
  | response _ => exact h.takeEntry usesSender_send _

theorem exact_of_exec {run : List CallEvent} (h : exec step new run = some t) : t.Exact :=
  (exec_invariant (fun s : CallTable => s.Sound ∧ s.Exact) ⟨sound_new, exact_new⟩
    (fun _ _ _ hr he => ⟨hr.1.step he, hr.2.step hr.1 he⟩) h).2

end CallTable

end AuthKademlia
