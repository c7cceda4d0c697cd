import AuthKademlia.Cluster
import AuthKademlia.ValueSelection

/-!
# Responses and the requests they answer

A response is matched with a call by its message id alone.  Between hosts that all run this
code this is enough: a host answers a request to the address it came from and under the id
it came with, and the ids of a caller keep its calls apart.  So a call returns what the host
it called answered to this very call (`response_truthful`), as long as no address from which
datagrams are injected meddles.

The argument has two halves.  A frame that is dispatched in the name of an address was sent
from there (`Dispatches.exists_send`), because the fragment ids keep the buffers of different
frames apart.  And every host can account for what it has sent and received (`Recorded`).

## Main definitions

* `Host.WellFormed` — what a host knows about itself.
* `Dispatched`, `Answers`, `Answered` — that a frame was dispatched, or a request answered, in
  a run.
* `Outsider`, `Trusted` — addresses from which datagrams are, and are not, injected.
* `SharedFormat` — what one host writes the others read.
-/

namespace AuthKademlia

open Lib Protocol

/-! ## Calls keep their requests -/

namespace CallTable

open Call

/-- The same request to the same address. -/
def SameRequest (call call' : Call) : Prop := call'.frame = call.frame ∧ call'.addr = call.addr

variable {t t' : CallTable} {d : ℕ} {k : Call}

theorem sameRequest_advance (c : ℕ) (phase : CallPhase) (hd : t.calls[d]? = some k) :
    ∃ k', (t.advance c phase).calls[d]? = some k' ∧ SameRequest k k' := by
  rw [getElem?_advance, hd]
  refine ⟨_, rfl, ?_⟩
  split <;> exact ⟨rfl, rfl⟩

theorem sameRequest_takeEntry {consume : Call → Call} (hconsume : ∀ k, SameRequest k (consume k))
    (id : UInt32) (hd : t.calls[d]? = some k) :
    ∃ k', (t.takeEntry consume id).calls[d]? = some k' ∧ SameRequest k k' := by
  rw [getElem?_takeEntry, hd]
  refine ⟨_, rfl, ?_⟩
  split
  · exact hconsume k
  · exact ⟨rfl, rfl⟩

theorem sameRequest_dropSender (k : Call) : SameRequest k k.dropSender := by
  unfold dropSender
  split <;> exact ⟨rfl, rfl⟩

theorem sameRequest_send (message : RpcMessage) (k : Call) : SameRequest k (k.send message) := by
  unfold send
  split <;> exact ⟨rfl, rfl⟩

/-- **A call never changes its request.** -/
theorem sameRequest_step {e : CallEvent} (hstep : t.step e = some t') (hd : t.calls[d]? = some k) :
    ∃ k', t'.calls[d]? = some k' ∧ SameRequest k k' := by
  -- registering and leaving take an entry out of the map and move the call on
  have htwo : ∀ (id : UInt32) (c : ℕ) (phase : CallPhase),
      ∃ k', ((t.takeEntry dropSender id).advance c phase).calls[d]? = some k' ∧
        SameRequest k k' := by
    intro id c phase
    obtain ⟨k₁, hd₁, hframe₁, haddr₁⟩ := sameRequest_takeEntry sameRequest_dropSender id hd
    obtain ⟨k₂, hd₂, hframe₂, haddr₂⟩ := sameRequest_advance c phase hd₁
    exact ⟨k₂, hd₂, hframe₂.trans hframe₁, haddr₂.trans haddr₁⟩
  cases stepOf_of_step hstep with
  | start addr message => exact ⟨k, getElem?_start_of_some addr message hd, rfl, rfl⟩
  | register hc hphase => exact htwo _ _ _
  | advance _ hc hphase => exact sameRequest_advance _ _ hd
  | unregister hc hphase => exact htwo _ _ _
  | request _ => exact ⟨k, hd, rfl, rfl⟩
  | response _ => exact sameRequest_takeEntry (sameRequest_send _) _ hd

/-- Every call has a request to send. -/
def Asks (t : CallTable) : Prop :=
  ∀ (n : ℕ) (call : Call), t.calls[n]? = some call → call.frame.isRequest = true

theorem Asks.step (h : t.Asks) {e : CallEvent} (hstep : t.step e = some t') : t'.Asks := by
  intro n call hn
  by_cases hlt : n < t.calls.length
  · obtain ⟨call', hn', hframe, -⟩ := sameRequest_step hstep (List.getElem?_eq_getElem hlt)
    rw [hn] at hn'
    cases hn'
    rw [hframe]
    exact h n _ (List.getElem?_eq_getElem hlt)
  · -- only a start makes the list of calls longer
    cases stepOf_of_step hstep with
    | start addr message =>
        cases getElem?_start hn with
        | inl hn => exact h n call hn
        | inr hnew =>
            obtain ⟨-, rfl⟩ := hnew
            rfl
    | request _ => exact h n call hn
    | _ =>
        have hlen := (List.getElem?_eq_some_iff.mp hn).1
        simp only [insertEntry, length_advance, length_takeEntry] at hlen
        exact absurd hlen hlt

end CallTable

/-! ## One host -/

namespace Host

variable {sv : Server} {h h' : Host sv} {peer : SocketAddr} {frame : Frame} {msgId : UInt32}
  {message : RpcMessage} {accepted now : ℕ} {r : Progress × NodeState}

/-- The calls of `h` are among those of `h'`, each with its request. -/
def KeepsRequests (h h' : Host sv) : Prop :=
  ∀ (n : ℕ) (call : Call), h.calls.calls[n]? = some call →
    ∃ call', h'.calls.calls[n]? = some call' ∧ CallTable.SameRequest call call'

/-- The calls of a host are as they were, or one event of theirs has happened. -/
def CallsStep (h h' : Host sv) : Prop :=
  h'.calls = h.calls ∨ ∃ e : CallEvent, h.calls.step e = some h'.calls

theorem CallsStep.keepsRequests (hstep : CallsStep h h') : KeepsRequests h h' := by
  intro n call hn
  cases hstep with
  | inl heq => exact ⟨call, heq ▸ hn, rfl, rfl⟩
  | inr hstep =>
      obtain ⟨e, hstep⟩ := hstep
      exact CallTable.sameRequest_step hstep hn

/-- The call table sees a frame as it sees a `receive` event. -/
theorem step_calls_receive (h : Host sv) (peer : SocketAddr) (frame : Frame) :
    h.calls.step (.receive peer frame) = some (h.calls.receive frame) :=
  rfl

/-- What a host knows about itself: its frames carry consecutive fragment ids, a request it
has sent is that of one of its calls, and its handlers are where they can be. -/
structure WellFormed (h : Host sv) : Prop where
  sound : h.calls.Sound
  asks : h.calls.Asks
  counter : h.nextFragId = UInt32.ofNat h.sends.length
  fragments : ∀ (k : ℕ) (s : Send), h.sends[k]? = some s →
    ∃ payload, sv.wire.serialize s.frame = some payload ∧ payload.length ≤ maxMessageSize ∧
      ∀ d ∈ s.datagrams, d ∈ encodeFragments (UInt32.ofNat k) payload
  asked : ∀ s ∈ h.sends, s.frame.isRequest = true →
    ∃ (n : ℕ) (call : Call), h.calls.calls[n]? = some call ∧ call.frame = s.frame ∧
      call.addr = s.dest
  serving : ∀ q ∈ h.serving, Serves q.peer q.message q.point

theorem wellFormed_start (pool : ServerPool sv) : (start pool).WellFormed := by
  constructor
  · exact CallTable.sound_new
  · intro n call hn
    simp [start, CallTable.new] at hn
  · rfl
  · intro k s hs
    simp [start] at hs
  · intro s hs
    simp [start] at hs
  · intro q hq
    simp [start] at hq

/-- Sending keeps the host well formed if a request is one of its calls. -/
theorem WellFormed.send (hw : h.WellFormed) (dest : SocketAddr) (frame : Frame) (accepted : ℕ)
    (hasked : frame.isRequest = true → ∃ (n : ℕ) (call : Call), h.calls.calls[n]? = some call ∧
      call.frame = frame ∧ call.addr = dest) :
    (h.send dest frame accepted).2.WellFormed := by
  obtain heq | ⟨datagrams, heq, payload, hwritten, hsize, hdatagrams⟩ :=
    send_cases h dest frame accepted
  · rw [heq]
    exact hw
  · rw [heq]
    refine ⟨hw.sound, hw.asks, ?_, ?_, ?_, hw.serving⟩
    · simp [hw.counter]
    · intro k s hs
      rw [hw.counter] at hdatagrams
      obtain hlt | rfl | hgt := Nat.lt_trichotomy k h.sends.length
      · rw [List.getElem?_append_left hlt] at hs
        exact hw.fragments k s hs
      · simp only [List.getElem?_concat_length, Option.some.injEq] at hs
        subst hs
        exact ⟨payload, hwritten, hsize, hdatagrams⟩
      · rw [List.getElem?_eq_none (by simp; omega)] at hs
        cases hs
    · intro s hs hrequest
      rw [List.mem_append, List.mem_singleton] at hs
      cases hs with
      | inl hs => exact hw.asked s hs hrequest
      | inr hs =>
          subst hs
          exact hasked hrequest

theorem WellFormed.withState (hw : h.WellFormed) (s : NodeState) : (h.withState s).WellFormed :=
  ⟨hw.sound, hw.asks, hw.counter, hw.fragments, hw.asked, hw.serving⟩

/-- A segment of a handler keeps the host well formed. -/
theorem WellFormed.progress (hw : h.WellFormed) {p : Protocol} {s : NodeState}
    (hproper : Proper p peer now s message r) :
    (h.progress peer msgId message accepted r).WellFormed := by
  unfold Proper at hproper
  unfold Host.progress
  split
  · rename_i point hwaits
    rw [hwaits] at hproper
    refine ⟨hw.sound, hw.asks, hw.counter, hw.fragments, hw.asked, ?_⟩
    intro q hq
    rw [List.mem_append, List.mem_singleton] at hq
    cases hq with
    | inl hq => exact hw.serving q hq
    | inr hq =>
        subst hq
        exact hproper
  · exact hw.withState r.2
  · exact (hw.withState r.2).send peer _ accepted nofun

/-- New calls do not disown the requests that were sent. -/
theorem WellFormed.withCalls (hw : h.WellFormed) {e : CallEvent} {calls : CallTable}
    (hstep : h.calls.step e = some calls) : WellFormed { h with calls := calls } := by
  refine ⟨hw.sound.step hstep, hw.asks.step hstep, hw.counter, hw.fragments, ?_, hw.serving⟩
  intro s hs hrequest
  obtain ⟨n, call, hn, hframe, haddr⟩ := hw.asked s hs hrequest
  obtain ⟨call', hn', hframe', haddr'⟩ := CallTable.sameRequest_step hstep hn
  exact ⟨n, call', hn', hframe'.trans hframe, haddr'.trans haddr⟩

theorem WellFormed.change {e : HostEvent sv} (hw : h.WellFormed) (hchange : h.Change e h') :
    h'.WellFormed := by
  cases hchange with
  | internal hcalls hmap tasks pool hung =>
      cases hcalls with
      | inl heq =>
          subst heq
          exact ⟨hw.sound, hw.asks, hw.counter, hw.fragments, hw.asked, hw.serving⟩
      | inr hcalls =>
          obtain ⟨e, -, hstep⟩ := hcalls
          have hw' := hw.withCalls hstep
          exact ⟨hw'.sound, hw'.asks, hw'.counter, hw'.fragments, hw'.asked, hw'.serving⟩
  | asks accepted hc hstep =>
      rename_i c call ok calls
      have hsent := hw.send call.addr call.frame accepted fun _ => ⟨c, call, hc, rfl, rfl⟩
      exact hsent.withCalls (e := .sendFrame c ok) (by rw [calls_send]; exact hstep)
  | serves now fuel i accepted hq hadvance =>
      have hserves := hw.serving _ (List.mem_of_getElem? hq)
      have hless : WellFormed { h with serving := h.serving.eraseIdx i } :=
        ⟨hw.sound, hw.asks, hw.counter, hw.fragments, hw.asked,
          fun q hq => hw.serving q (List.mem_of_mem_eraseIdx hq)⟩
      exact hless.progress (advance_proper hserves hadvance)

theorem WellFormed.dispatch (hw : h.WellFormed) (now accepted : ℕ) (peer : SocketAddr)
    (frame : Frame) : (h.dispatch now accepted peer frame).WellFormed := by
  unfold Host.dispatch
  split
  · exact hw.progress (beginRequest_proper frame.message)
  · exact (hw.withState _).withCalls (step_calls_receive h peer frame)

theorem WellFormed.receive (hw : h.WellFormed) (now accepted : ℕ) (peer : SocketAddr)
    (data : Bytes) : (h.receive now accepted peer data).WellFormed := by
  have hmap : ∀ map, WellFormed { h with reassembly := map } := fun map =>
    ⟨hw.sound, hw.asks, hw.counter, hw.fragments, hw.asked, hw.serving⟩
  unfold Host.receive
  dsimp only
  split
  · exact hmap _
  · exact (hmap _).dispatch now accepted peer _

/-! What stays of a host. -/

theorem reassembly_receive (now accepted : ℕ) (peer : SocketAddr) (data : Bytes) :
    (h.receive now accepted peer data).reassembly =
      (reassemble now h.reassembly peer data).2 := by
  rw [← receiveFrame_map]
  unfold receive
  dsimp only
  split
  · rfl
  · unfold dispatch
    split
    · exact reassembly_progress
    · rfl

theorem sends_isPrefix_change {e : HostEvent sv} (hchange : h.Change e h') :
    h.sends <+: h'.sends := by
  cases hchange with
  | internal hcalls hmap tasks pool hung => exact List.prefix_rfl
  | asks accepted hc hstep => exact sends_isPrefix_send
  | serves now fuel i accepted hq hadvance =>
      exact @sends_isPrefix_progress sv { h with serving := h.serving.eraseIdx i } _ _ _ _ _

theorem sends_isPrefix_receive (now accepted : ℕ) (peer : SocketAddr) (data : Bytes) :
    h.sends <+: (h.receive now accepted peer data).sends := by
  unfold receive
  dsimp only
  split
  · exact List.prefix_rfl
  · unfold dispatch
    split
    · exact @sends_isPrefix_progress sv
        { h with reassembly := (receiveFrame sv.wire now h.reassembly peer data).2 } _ _ _ _ _
    · exact List.prefix_rfl

theorem callsStep_change {e : HostEvent sv} (hchange : h.Change e h') : CallsStep h h' := by
  cases hchange with
  | internal hcalls hmap tasks pool hung => exact hcalls.imp_right fun ⟨e, _, hstep⟩ => ⟨e, hstep⟩
  | asks accepted hc hstep => exact .inr ⟨_, hstep⟩
  | serves now fuel i accepted hq hadvance => exact .inl calls_progress

theorem callsStep_receive (now accepted : ℕ) (peer : SocketAddr) (data : Bytes) :
    CallsStep h (h.receive now accepted peer data) := by
  unfold receive
  dsimp only
  split
  · exact .inl rfl
  · rename_i frame _
    unfold dispatch
    split
    · exact .inl calls_progress
    · exact .inr ⟨_, step_calls_receive h peer frame⟩

end Host

/-! ## Buffers hold what was sent -/

section Buffers

variable {peer : SocketAddr} {fragId : UInt32} {payload : Bytes} {map : ReassemblyMap} {i now : ℕ}

/-- The buffer of a frame, if there is one, holds chunks of this frame only. -/
def HoldsOnly (payload : Bytes) (peer : SocketAddr) (fragId : UInt32) (map : ReassemblyMap) :
    Prop :=
  ∀ entry, map.lookup (peer, fragId) = some entry →
    ∃ is t, entry = ReassemblyEntry.filled payload is t

/-- **A datagram of a frame** goes into the buffer of this frame, and what comes out of it is
the frame. -/
theorem HoldsOnly.reassemble (h : HoldsOnly payload peer fragId map)
    (hsize : payload.length ≤ maxMessageSize) (hi : i < fragCount payload) :
    (∀ p, (reassemble now map peer (datagram fragId payload i)).1 = .frame p → p = payload) ∧
      HoldsOnly payload peer fragId
        (AuthKademlia.reassemble now map peer (datagram fragId payload i)).2 := by
  by_cases hone : fragCount payload = 1
  · obtain rfl : i = 0 := by omega
    rw [reassemble_single hsize hone]
    exact ⟨fun p hp => (Received.frame.inj hp).symm, h⟩
  · have hmany : 1 < fragCount payload := by have := fragCount_pos payload; omega
    by_cases hfit : fragCount payload * fragChunkSize ≤ maxMessageSize
    · obtain ⟨is, t, hentry⟩ : ∃ is t,
          (map.lookup (peer, fragId)).getD (.new (UInt16.ofNat (fragCount payload)) now) =
            .filled payload is t := by
        cases hlookup : map.lookup (peer, fragId) with
        | none => exact ⟨[], now, ReassemblyEntry.new_eq_filled hsize now⟩
        | some entry => exact h entry hlookup
      rw [reassemble_datagram hsize hmany hfit hi now t hentry]
      split
      · refine ⟨fun p hp => (Received.frame.inj hp).symm, ?_⟩
        intro entry hlookup
        rw [AList.lookup_erase] at hlookup
        cases hlookup
      · refine ⟨by simp, ?_⟩
        intro entry hlookup
        rw [AList.lookup_insert] at hlookup
        exact ⟨is ++ [i], t, (Option.some.inj hlookup).symm⟩
    · -- the receiver refuses the datagram and keeps no buffer
      have htotal := toNat_ofNat_of_lt (fragCount_lt hsize)
      have hbig : (UInt16.ofNat (fragCount payload)).toNat * fragChunkSize > maxMessageSize := by
        rw [htotal]
        omega
      simp only [AuthKademlia.reassemble, parseFragment_datagram hsize fragId hi,
        if_neg (ofNat_fragCount_ne_one hsize hmany), if_pos hbig]
      exact ⟨by simp, h⟩

end Buffers

/-! ## Frames come from where they say -/

namespace Cluster

variable {servers : SocketAddr → Server} {c₀ c c' : Cluster servers} {e : ClusterEvent servers}
  {run : List (ClusterEvent servers)} {a b peer : SocketAddr} {frame : Frame}

theorem sends_isPrefix (hstep : c.step e = some c') (a : SocketAddr) :
    (c a).sends <+: (c' a).sends := by
  obtain ⟨b, h', rfl, hcases⟩ := step_cases hstep
  by_cases hab : a = b
  · subst hab
    rw [Function.update_self]
    obtain ⟨he, -, hact⟩ | ⟨src, data, now, accepted, -, rfl⟩ := hcases
    · exact Host.sends_isPrefix_change (Host.change_of_step hact)
    · exact Host.sends_isPrefix_receive now accepted src data
  · rw [Function.update_of_ne hab]

theorem callsStep (hstep : c.step e = some c') (a : SocketAddr) : (c a).CallsStep (c' a) := by
  obtain ⟨b, h', rfl, hcases⟩ := step_cases hstep
  by_cases hab : a = b
  · subst hab
    rw [Function.update_self]
    obtain ⟨he, -, hact⟩ | ⟨src, data, now, accepted, -, rfl⟩ := hcases
    · exact Host.callsStep_change (Host.change_of_step hact)
    · exact Host.callsStep_receive now accepted src data
  · rw [Function.update_of_ne hab]
    exact .inl rfl

theorem keepsRequests_exec (hrun : exec step c run = some c') (a : SocketAddr) :
    (c a).KeepsRequests (c' a) := by
  refine exec_invariant (fun d : Cluster servers => (c a).KeepsRequests (d a))
    (fun _ call hn => ⟨call, hn, rfl, rfl⟩) ?_ hrun
  intro d e d' hd he n call hn
  obtain ⟨call₁, hn₁, hframe₁, haddr₁⟩ := hd n call hn
  obtain ⟨call₂, hn₂, hframe₂, haddr₂⟩ := (callsStep he a).keepsRequests n call₁ hn₁
  exact ⟨call₂, hn₂, hframe₂.trans hframe₁, haddr₂.trans haddr₁⟩

theorem wellFormed_step (hw : ∀ a, (c a).WellFormed) (hstep : c.step e = some c') (a : SocketAddr) :
    (c' a).WellFormed := by
  obtain ⟨b, h', rfl, hcases⟩ := step_cases hstep
  by_cases hab : a = b
  · subst hab
    rw [Function.update_self]
    obtain ⟨he, -, hact⟩ | ⟨src, data, now, accepted, -, rfl⟩ := hcases
    · exact (hw a).change (Host.change_of_step hact)
    · exact (hw a).receive now accepted src data
  · rw [Function.update_of_ne hab]
    exact hw a

theorem wellFormed_exec {pools : ∀ a, ServerPool (servers a)}
    (hrun : exec step (start pools) run = some c) (a : SocketAddr) : (c a).WellFormed :=
  exec_invariant (fun d : Cluster servers => ∀ a, (d a).WellFormed)
    (fun a => Host.wellFormed_start (pools a)) (fun _ _ _ hw he => wellFormed_step hw he) hrun a

/-- Somebody injects datagrams with this source address. -/
def Outsider (run : List (ClusterEvent servers)) (a : SocketAddr) : Prop :=
  ∃ dest data now accepted, .inject a dest data now accepted ∈ run

/-- Nobody does, and the host has not used up its fragment ids. -/
structure Trusted (run : List (ClusterEvent servers)) (c : Cluster servers) (a : SocketAddr) :
    Prop where
  insider : ¬Outsider run a
  ids : (c a).sends.length ≤ 2 ^ 32

theorem Trusted.of_concat (h : Trusted (run ++ [e]) c' a) (hstep : c.step e = some c') :
    Trusted run c a := by
  refine ⟨fun hout => h.insider ?_, ?_⟩
  · obtain ⟨dest, data, now, accepted, hmem⟩ := hout
    exact ⟨dest, data, now, accepted, by simp [hmem]⟩
  · have := (sends_isPrefix hstep a).length_le
    have := h.ids
    omega

/-- The buffer was filled by a frame that its peer has sent to this host. -/
def FromSend (c : Cluster servers) (a b : SocketAddr) (fragId : UInt32)
    (entry : ReassemblyEntry) : Prop :=
  ∃ (k : ℕ) (s : Send) (payload : Bytes) (is : List ℕ) (t : ℕ), (c a).sends[k]? = some s ∧
    s.dest = b ∧ (servers a).wire.serialize s.frame = some payload ∧ fragId = UInt32.ofNat k ∧
    entry = .filled payload is t

theorem FromSend.step {fragId : UInt32} {entry : ReassemblyEntry}
    (h : FromSend c a b fragId entry) (hstep : c.step e = some c') :
    FromSend c' a b fragId entry := by
  obtain ⟨k, s, payload, is, t, hs, hentry⟩ := h
  obtain ⟨rest, hrest⟩ := sends_isPrefix hstep a
  refine ⟨k, s, payload, is, t, ?_, hentry⟩
  rw [← hrest, List.getElem?_append_left (List.getElem?_eq_some_iff.mp hs).1, hs]

/-- Every buffer of a trusted peer was filled by one of its frames. -/
def BuffersFromSends (run : List (ClusterEvent servers)) (c : Cluster servers) : Prop :=
  ∀ a b, Trusted run c a → ∀ fragId entry,
    (c b).reassembly.lookup (a, fragId) = some entry → FromSend c a b fragId entry

/-- A datagram that arrives in the name of a trusted host is one of its frames' datagrams. -/
theorem Arrives.exists_send {data : Bytes} {now accepted : ℕ}
    (h : Arrives c e b a data now accepted) (hinsider : ¬Outsider (run ++ [e]) a)
    (hw : (c a).WellFormed) :
    ∃ (k : ℕ) (s : Send) (payload : Bytes) (i : ℕ), (c a).sends[k]? = some s ∧ s.dest = b ∧
      (servers a).wire.serialize s.frame = some payload ∧ payload.length ≤ maxMessageSize ∧
      i < fragCount payload ∧ data = datagram (UInt32.ofNat k) payload i := by
  cases h with
  | sent now accepted hs hdata =>
      rename_i k j s
      obtain ⟨payload, hwritten, hsize, hfrag⟩ := hw.fragments k s hs
      have hmem := hfrag data (List.mem_of_getElem? hdata)
      rw [encodeFragments_eq, List.mem_map] at hmem
      obtain ⟨i, hi, rfl⟩ := hmem
      exact ⟨k, s, payload, i, hs, rfl, hwritten, hsize, List.mem_range.mp hi, rfl⟩
  | injected src dest data now accepted =>
      exact absurd ⟨b, data, now, accepted, List.mem_concat_self⟩ hinsider

/-- The frames of a trusted host keep their buffers apart. -/
theorem BuffersFromSends.holdsOnly (h : BuffersFromSends run c) (ha : Trusted run c a) {k : ℕ}
    {s : Send} {payload : Bytes} (hs : (c a).sends[k]? = some s)
    (hwritten : (servers a).wire.serialize s.frame = some payload) :
    HoldsOnly payload a (UInt32.ofNat k) (c b).reassembly := by
  intro entry hlookup
  obtain ⟨k', s', payload', is, t, hs', -, hwritten', hid, hentry⟩ := h a b ha _ _ hlookup
  have hlt := (List.getElem?_eq_some_iff.mp hs).1
  have hlt' := (List.getElem?_eq_some_iff.mp hs').1
  have hids := ha.ids
  obtain rfl : k = k' := ofNat32_inj (by omega) (by omega) hid
  rw [hs] at hs'
  cases hs'
  rw [hwritten] at hwritten'
  cases hwritten'
  exact ⟨is, t, hentry⟩

/-- The event dispatches the frame at `b`, in the name of `peer`. -/
def Dispatches (c : Cluster servers) (e : ClusterEvent servers) (b peer : SocketAddr)
    (frame : Frame) : Prop :=
  ∃ data now accepted, Arrives c e b peer data now accepted ∧
    (receiveFrame (servers b).wire now (c b).reassembly peer data).1 = some frame

/-- A step keeps the buffers in order. -/
theorem BuffersFromSends.step (h : BuffersFromSends run c) (hw : ∀ a, (c a).WellFormed)
    (hstep : c.step e = some c') : BuffersFromSends (run ++ [e]) c' := by
  intro a b ha fragId entry hlookup
  have hold := ha.of_concat hstep
  suffices hsend : FromSend c a b fragId entry from hsend.step hstep
  obtain ⟨d, h', rfl, hcases⟩ := step_cases hstep
  by_cases hbd : b = d
  · subst hbd
    rw [Function.update_self] at hlookup
    obtain ⟨he, -, hact⟩ | ⟨src, data, now, accepted, harrives, rfl⟩ := hcases
    · apply h a b hold
      cases Host.change_of_step hact with
      | internal hcalls hmap tasks pool hung => exact hmap _ _ hlookup
      | asks accepted hc hstep => simpa using hlookup
      | serves now fuel i accepted hq hadvance => simpa using hlookup
    · rw [Host.reassembly_receive] at hlookup
      by_cases hown : ∃ k s payload i, (c a).sends[k]? = some s ∧ s.dest = b ∧ src = a ∧
          (servers a).wire.serialize s.frame = some payload ∧ payload.length ≤ maxMessageSize ∧
          i < fragCount payload ∧ data = datagram (UInt32.ofNat k) payload i ∧
          fragId = UInt32.ofNat k
      · obtain ⟨k, s, payload, i, hs, hdest, rfl, hwritten, hsize, hi, rfl, rfl⟩ := hown
        obtain ⟨is, t, hentry⟩ :=
          ((h.holdsOnly hold hs hwritten).reassemble hsize hi).2 entry hlookup
        exact ⟨k, s, payload, is, t, hs, hdest, hwritten, rfl, hentry⟩
      · -- the datagram belongs to another buffer
        apply h a b hold
        rwa [lookup_reassemble_ne] at hlookup
        intro header chunk hparse heq
        obtain ⟨rfl, rfl⟩ := Prod.mk.inj heq
        obtain ⟨k, s, payload, i, hs, hdest, hwritten, hsize, hi, hdata⟩ :=
          harrives.exists_send ha.insider (hw src)
        rw [hdata, parseFragment_datagram hsize _ hi] at hparse
        cases hparse
        exact hown ⟨k, s, payload, i, hs, hdest, rfl, hwritten, hsize, hi, hdata, rfl⟩
  · rw [Function.update_of_ne hbd] at hlookup
    exact h a b hold fragId entry hlookup

theorem buffersFromSends_exec {pools : ∀ a, ServerPool (servers a)}
    (hrun : exec step (start pools) run = some c) : BuffersFromSends run c := by
  refine exec_history (fun run c => BuffersFromSends run c) ?_ ?_ hrun
  · intro a b _ fragId entry hlookup
    simp [start, Host.start] at hlookup
  · intro run c e c' hrun h hstep
    exact h.step (wellFormed_exec hrun) hstep

/-- A frame that is dispatched in the name of a trusted address was sent from there. -/
theorem Dispatches.exists_send {pools : ∀ a, ServerPool (servers a)}
    (hdispatch : Dispatches c e b a frame) (hreads : (servers a).wire.ReadBy (servers b).wire)
    (hrun : exec step (start pools) run = some c)
    (hinsider : ¬Outsider (run ++ [e]) a) (hids : (c a).sends.length ≤ 2 ^ 32) :
    ∃ s ∈ (c a).sends, s.dest = b ∧ s.frame = frame := by
  have htrusted : Trusted run c a := by
    refine ⟨fun hout => hinsider ?_, hids⟩
    obtain ⟨dest, data, now, accepted, hmem⟩ := hout
    exact ⟨dest, data, now, accepted, by simp [hmem]⟩
  obtain ⟨data, now, accepted, harrives, hframe⟩ := hdispatch
  obtain ⟨k, s, sent, i, hs, hdest, hwritten, hsize, hi, rfl⟩ :=
    harrives.exists_send hinsider (wellFormed_exec hrun a)
  obtain ⟨payload, hpayload, hread⟩ := receiveFrame_eq_some hframe
  have hholds := (buffersFromSends_exec hrun).holdsOnly (b := b) htrusted hs hwritten
  obtain rfl := (hholds.reassemble hsize hi).1 payload hpayload
  rw [hreads _ _ hwritten hsize] at hread
  exact ⟨s, List.mem_of_getElem? hs, hdest, Option.some.inj hread⟩

/-- **Requests are authentic.**  A request that a host handles in the name of an address is
one of the calls that the host at this address has made to it, whatever is lost, repeated,
reordered or injected, if nothing is injected in the name of the address itself, its host
has sent at most `2 ^ 32` frames, and the one reads what the other writes. -/
theorem request_authentic {pools : ∀ a, ServerPool (servers a)}
    (hreads : (servers a).wire.ReadBy (servers b).wire)
    (hrun : exec step (start pools) run = some c) (hdispatch : Dispatches c e b a frame)
    (hrequest : frame.isRequest = true) (hinsider : ¬Outsider (run ++ [e]) a)
    (hids : (c a).sends.length ≤ 2 ^ 32) :
    ∃ (n : ℕ) (call : Call), (c a).calls.calls[n]? = some call ∧ call.addr = b ∧
      call.frame = frame := by
  obtain ⟨s, hs, hdest, rfl⟩ := hdispatch.exists_send hreads hrun hinsider hids
  obtain ⟨n, call, hn, hframe, haddr⟩ := (wellFormed_exec hrun a).asked s hs hrequest
  exact ⟨n, call, hn, haddr.trans hdest, hframe⟩

/-! A node stores a record at another one. -/

open Sample

def keeper : SocketAddr := ⟨"10.0.0.3", 5678⟩

/-- Neither node has a record to begin with. -/
def emptyPools : ∀ _ : SocketAddr, ServerPool sampleServer := fun _ =>
  sampleServer.start (.new (-1)) none 0

/-- The call of one node up to its `send_frame`. -/
def storeAsked : List (ClusterEvent fun _ => sampleServer) :=
  [.acts peerAddr (.calls (.start keeper (.store peerId deviceKey recordA0))),
    .acts peerAddr (.calls (.register 0)), .acts peerAddr (.ask 0 1)]

/-- The request arrives, is verified and answered, and the answer comes back. -/
def storeAnswered : List (ClusterEvent fun _ => sampleServer) :=
  storeAsked ++ [.deliver peerAddr 0 0 1 1, .acts keeper (.serve 2 1 0 1),
    .deliver keeper 0 0 3 1, .acts peerAddr (.calls (.poll 0 false))]

theorem not_outsider_storeAnswered (a : SocketAddr) : ¬Outsider storeAnswered a := by
  rintro ⟨dest, data, now, accepted, hmem⟩
  simp [storeAnswered, storeAsked] at hmem

def storeFrame : Frame := ⟨0, true, .store peerId deviceKey recordA0⟩

/-- The request of the call, on its way. -/
def storeSend : Send := ⟨keeper, storeFrame, encodeFragments 0 (Frame.codec.write storeFrame)⟩

theorem request_authentic_storeAsked :
    ∃ c, exec step (start emptyPools) storeAsked = some c ∧
      Dispatches c (.deliver peerAddr 0 0 1 1) keeper peerAddr storeFrame ∧
      ∃ (n : ℕ) (call : Call), (c peerAddr).calls.calls[n]? = some call ∧ call.addr = keeper ∧
        call.frame = storeFrame := by
  have hend : (exec step (start emptyPools) storeAsked).map (fun c => ((c peerAddr).sends,
      (receiveFrame bincode 1 (c keeper).reassembly peerAddr
        (datagram 0 (Frame.codec.write storeFrame) 0)).1)) =
      some ([storeSend], some storeFrame) := by decide +kernel
  obtain ⟨c, hrun, hc⟩ := Option.map_eq_some_iff.mp hend
  obtain ⟨hsends, hframe⟩ := Prod.mk.inj hc
  have hdispatch : Dispatches c (.deliver peerAddr 0 0 1 1) keeper peerAddr storeFrame :=
    ⟨datagram 0 (Frame.codec.write storeFrame) 0, 1, 1,
      .sent (s := storeSend) 1 1 (by rw [hsends]; rfl) (by decide +kernel), hframe⟩
  refine ⟨c, hrun, hdispatch, request_authentic bincode_readBy hrun hdispatch rfl ?_
    (by rw [hsends]; decide)⟩
  rintro ⟨dest, data, now, accepted, hmem⟩
  simp [storeAsked] at hmem

/-! ## What a host can account for -/

variable {pools : ∀ a, ServerPool (servers a)}

/-- The frame was dispatched at `b` in the name of `peer`, in the course of the run. -/
def Dispatched (pools : ∀ a, ServerPool (servers a)) (run : List (ClusterEvent servers))
    (b peer : SocketAddr) (frame : Frame) : Prop :=
  ∃ pre e post c, run = pre ++ e :: post ∧ exec step (start pools) pre = some c ∧
    Dispatches c e b peer frame

/-- The event is one of the host `b` at the time `now`: a handler of it goes on, or a datagram
arrives. -/
inductive RunsAt (c : Cluster servers) (b : SocketAddr) (now : ℕ) : ClusterEvent servers → Prop
  | serve (fuel i accepted : ℕ) : RunsAt c b now (.acts b (.serve now fuel i accepted))
  | receive {e : ClusterEvent servers} {src : SocketAddr} {data : Bytes} {accepted : ℕ}
      (h : Arrives c e b src data now accepted) : RunsAt c b now e

/-- The event, after `pre`, is one in which `b` answers a request of `peer` at the time `now`:
the request was dispatched at `b` by then, `b` sends the answer under the id of the request,
and the answer agrees with the state in which it does. -/
structure Answers (pools : ∀ a, ServerPool (servers a)) (pre : List (ClusterEvent servers))
    (c : Cluster servers) (e : ClusterEvent servers) (c' : Cluster servers) (b peer : SocketAddr)
    (now : ℕ) (msgId : UInt32) (message answer : RpcMessage) : Prop where
  runs : RunsAt c b now e
  dispatched : Dispatched pools (pre ++ [e]) b peer ⟨msgId, true, message⟩
  sends : ∃ datagrams, (c' b).sends = (c b).sends ++ [⟨peer, ⟨msgId, false, answer⟩, datagrams⟩]
  truthful : Truthful (servers b).protocol peer now (c b).state (c' b).state message answer

/-- The host `b` answered a request of `peer` in the course of the run. -/
def Answered (pools : ∀ a, ServerPool (servers a)) (run : List (ClusterEvent servers))
    (b peer : SocketAddr) (msgId : UInt32) (answer : RpcMessage) : Prop :=
  ∃ pre e post c c' now message, run = pre ++ e :: post ∧
    exec step (start pools) pre = some c ∧ c.step e = some c' ∧
    Answers pools pre c e c' b peer now msgId message answer

theorem Dispatched.append (h : Dispatched pools run b peer frame)
    (rest : List (ClusterEvent servers)) : Dispatched pools (run ++ rest) b peer frame := by
  obtain ⟨pre, e, post, c, rfl, hpre, hdispatch⟩ := h
  exact ⟨pre, e, post ++ rest, c, by simp, hpre, hdispatch⟩

theorem Answered.append {msgId : UInt32} {answer : RpcMessage}
    (h : Answered pools run b peer msgId answer) (rest : List (ClusterEvent servers)) :
    Answered pools (run ++ rest) b peer msgId answer := by
  obtain ⟨pre, e, post, c, c', now, message, rfl, h⟩ := h
  exact ⟨pre, e, post ++ rest, c, c', now, message, by simp, h⟩

/-- What a host is handling was dispatched, what it has answered was truthful, and what its
calls were answered was dispatched. -/
structure Recorded (pools : ∀ a, ServerPool (servers a)) (run : List (ClusterEvent servers))
    (b : SocketAddr) (h : Host (servers b)) : Prop where
  requested : ∀ q ∈ h.serving, Dispatched pools run b q.peer ⟨q.msgId, true, q.message⟩
  answered : ∀ s ∈ h.sends, s.frame.isRequest = false →
    Answered pools run b s.dest s.frame.msgId s.frame.message
  responded : ∀ (n : ℕ) (call : Call), h.calls.calls[n]? = some call → ∀ m,
    call.channel = .sent m → ∃ peer, Dispatched pools run b peer ⟨call.msgId, false, m⟩

theorem Recorded.concat {h : Host (servers b)} (hrec : Recorded pools run b h)
    (e : ClusterEvent servers) : Recorded pools (run ++ [e]) b h where
  requested q hq := (hrec.requested q hq).append [e]
  answered s hs hresponse := (hrec.answered s hs hresponse).append [e]
  responded n call hn m hm := by
    obtain ⟨peer, hdispatched⟩ := hrec.responded n call hn m hm
    exact ⟨peer, hdispatched.append [e]⟩

/-- A segment of a handler, of a request that was dispatched. -/
theorem Recorded.progress {h : Host (servers b)} {msgId : UInt32} {message : RpcMessage}
    {accepted now : ℕ} {r : Progress × NodeState} (hrec : Recorded pools (run ++ [e]) b h)
    (hpre : exec step (start pools) run = some c) (hstep : c.step e = some c')
    (hruns : RunsAt c b now e)
    (hdispatched : Dispatched pools (run ++ [e]) b peer ⟨msgId, true, message⟩)
    (hproper : Proper (servers b).protocol peer now (c b).state message r)
    (hsends : h.sends = (c b).sends) (hh' : c' b = h.progress peer msgId message accepted r) :
    Recorded pools (run ++ [e]) b (h.progress peer msgId message accepted r) := by
  refine ⟨?_, ?_, ?_⟩
  · intro q hq
    obtain hq | ⟨point, -, rfl⟩ := Host.mem_serving_progress hq
    · exact hrec.requested q hq
    · exact hdispatched
  · intro s hs hresponse
    obtain heq | ⟨answer, datagrams, hreturns, heq⟩ :=
      Host.sends_progress_cases h peer msgId message accepted r
    · rw [heq] at hs
      exact hrec.answered s hs hresponse
    · rw [heq, List.mem_append, List.mem_singleton] at hs
      cases hs with
      | inl hs => exact hrec.answered s hs hresponse
      | inr hs =>
          subst hs
          refine ⟨run, e, [], c, c', now, message, rfl, hpre, hstep, hruns, hdispatched,
            ⟨datagrams, by rw [hh', heq, hsends]⟩, ?_⟩
          rw [hh', Host.state_progress]
          unfold Proper at hproper
          rw [hreturns] at hproper
          exact hproper answer rfl
  · intro n call hn
    rw [Host.calls_progress] at hn
    exact hrec.responded n call hn

/-- A critical section of a call that receives nothing. -/
theorem Recorded.withCalls {h h' : Host (servers b)} (hrec : Recorded pools run b h)
    {ce : CallEvent} (hce : ∀ peer frame, ce ≠ .receive peer frame)
    (hstep : h.calls.step ce = some h'.calls) (n : ℕ) (call : Call)
    (hn : h'.calls.calls[n]? = some call) (m : RpcMessage) (hm : call.channel = .sent m) :
    ∃ peer, Dispatched pools run b peer ⟨call.msgId, false, m⟩ := by
  obtain ⟨k, hk, hkm⟩ | ⟨peer, frame, rfl, -⟩ := CallTable.sent_of_step hstep hn hm
  · obtain ⟨k', hk', hframe, -⟩ := CallTable.sameRequest_step hstep hk
    rw [hn] at hk'
    cases hk'
    have hid : call.msgId = k.msgId := congrArg Frame.msgId hframe
    rw [hid]
    exact hrec.responded n k hk m hkm
  · exact absurd rfl (hce peer frame)

/-- A host acts on its own. -/
theorem Recorded.change {h' : Host (servers b)} {he : HostEvent (servers b)}
    (hrec : Recorded pools run b (c b)) (hw : (c b).WellFormed)
    (hpre : exec step (start pools) run = some c) (hstep : c.step (.acts b he) = some c')
    (hh' : c' b = h') (hchange : (c b).Change he h') :
    Recorded pools (run ++ [.acts b he]) b h' := by
  have hnow := hrec.concat (.acts b he)
  cases hchange with
  | internal hcalls hmap tasks pool hung =>
      refine ⟨hnow.requested, hnow.answered, ?_⟩
      cases hcalls with
      | inl heq =>
          subst heq
          exact hnow.responded
      | inr hcalls =>
          obtain ⟨ce, hce, hcalls⟩ := hcalls
          exact hnow.withCalls hce hcalls
  | asks accepted hc hcalls =>
      refine ⟨?_, ?_, hnow.withCalls (by simp) hcalls⟩
      · intro q hq
        rw [Host.serving_send] at hq
        exact hnow.requested q hq
      · intro s hs hresponse
        obtain hs | ⟨-, hframe⟩ := Host.mem_sends_send hs
        · exact hnow.answered s hs hresponse
        · rw [hframe, hw.asks _ _ hc] at hresponse
          cases hresponse
  | serves now fuel i accepted hq hadvance =>
      rename_i q r
      have hmem := List.mem_of_getElem? hq
      have hless : Recorded pools (run ++ [.acts b (.serve now fuel i accepted)]) b
          { c b with serving := (c b).serving.eraseIdx i } :=
        ⟨fun q hq => hnow.requested q (List.mem_of_mem_eraseIdx hq), hnow.answered,
          hnow.responded⟩
      exact hless.progress hpre hstep (.serve fuel i accepted) (hnow.requested q hmem)
        (advance_proper (hw.serving q hmem) hadvance) rfl hh'

/-- A host receives a datagram. -/
theorem Recorded.receive {h' : Host (servers b)} {data : Bytes} {now accepted : ℕ}
    (hrec : Recorded pools run b (c b)) (hw : (c b).WellFormed)
    (hpre : exec step (start pools) run = some c) (hstep : c.step e = some c') (hh' : c' b = h')
    (harrives : Arrives c e b peer data now accepted)
    (heq : h' = (c b).receive now accepted peer data) : Recorded pools (run ++ [e]) b h' := by
  have hnow := hrec.concat e
  subst heq
  cases hframe : (receiveFrame (servers b).wire now (c b).reassembly peer data).1 with
  | none =>
      simp only [Host.receive, hframe]
      exact ⟨hnow.requested, hnow.answered, hnow.responded⟩
  | some frame =>
      have hdispatched : Dispatched pools (run ++ [e]) b peer frame :=
        ⟨run, e, [], c, rfl, hpre, data, now, accepted, harrives, hframe⟩
      have hmap : ∀ map, Recorded pools (run ++ [e]) b { c b with reassembly := map } :=
        fun map => ⟨hnow.requested, hnow.answered, hnow.responded⟩
      obtain ⟨msgId, isRequest, message⟩ := frame
      cases isRequest with
      | true =>
          simp only [Host.receive, hframe, Host.dispatch, if_true] at hh' ⊢
          exact (hmap _).progress hpre hstep (.receive harrives) hdispatched
            (beginRequest_proper message) rfl hh'
      | false =>
          simp only [Host.receive, hframe, Host.dispatch, Bool.false_eq_true, if_false]
          refine ⟨hnow.requested, hnow.answered, ?_⟩
          intro n call hn m hm
          have hcalls := Host.step_calls_receive (c b) peer ⟨msgId, false, message⟩
          obtain ⟨k, hk, hkm⟩ | ⟨peer', frame', heq, -, hlookup, rfl⟩ :=
            CallTable.sent_of_step hcalls hn hm
          · obtain ⟨k', hk', hsame, -⟩ := CallTable.sameRequest_step hcalls hk
            rw [hn] at hk'
            cases hk'
            have hid : call.msgId = k.msgId := congrArg Frame.msgId hsame
            rw [hid]
            exact hnow.responded n k hk m hkm
          · cases heq
            -- the frame took the sender of a call with its own id
            obtain ⟨k, hk, hkid, -⟩ := hw.sound.sender _ n hlookup
            obtain ⟨k', hk', hsame, -⟩ := CallTable.sameRequest_step hcalls hk
            rw [hn] at hk'
            cases hk'
            have hid : call.msgId = msgId := (congrArg Frame.msgId hsame).trans hkid
            rw [hid]
            exact ⟨peer, hdispatched⟩

theorem recorded_exec (hrun : exec step (start pools) run = some c) (b : SocketAddr) :
    Recorded pools run b (c b) := by
  refine exec_history (fun run (c : Cluster servers) => ∀ b, Recorded pools run b (c b))
    ?_ ?_ hrun b
  · intro b
    constructor
    · intro q hq
      simp [start, Host.start] at hq
    · intro s hs
      simp [start, Host.start] at hs
    · intro n call hn
      simp [start, Host.start, CallTable.new] at hn
  · intro run c e c' hpre hrec hstep b
    have hw := wellFormed_exec hpre b
    obtain ⟨d, h', rfl, hcases⟩ := step_cases hstep
    by_cases hbd : b = d
    · subst hbd
      have hself : Function.update c b h' b = h' := Function.update_self b h' c
      rw [hself]
      obtain ⟨he, rfl, hact⟩ | ⟨src, data, now, accepted, harrives, heq⟩ := hcases
      · exact (hrec b).change hw hpre hstep hself (Host.change_of_step hact)
      · exact (hrec b).receive hw hpre hstep hself harrives heq
    · rw [Function.update_of_ne hbd]
      exact (hrec b).concat e

/-! ## Calls and their answers -/

theorem sends_isPrefix_exec (hrun : exec step c run = some c') (a : SocketAddr) :
    (c a).sends <+: (c' a).sends :=
  exec_invariant (fun d : Cluster servers => (c a).sends <+: (d a).sends) List.prefix_rfl
    (fun _ _ _ hd he => hd.trans (sends_isPrefix he a)) hrun

/-- An address that is trusted at the end of a run was trusted all along. -/
theorem Trusted.earlier {rest : List (ClusterEvent servers)} (h : Trusted (run ++ rest) c' a)
    (hpre : exec step c₀ run = some c) (hrun : exec step c₀ (run ++ rest) = some c') :
    Trusted run c a := by
  rw [exec_append, hpre, Option.bind_some] at hrun
  refine ⟨fun hout => h.insider ?_, (sends_isPrefix_exec hrun a).length_le.trans h.ids⟩
  obtain ⟨dest, data, now, accepted, hmem⟩ := hout
  exact ⟨dest, data, now, accepted, by simp [hmem]⟩

/-- What was dispatched in the name of a trusted address was sent from there. -/
theorem Dispatched.exists_send (h : Dispatched pools run b a frame)
    (hreads : (servers a).wire.ReadBy (servers b).wire) (ha : Trusted run c a)
    (hrun : exec step (start pools) run = some c) :
    ∃ pre d post, run = pre ++ post ∧ post ≠ [] ∧ exec step (start pools) pre = some d ∧
      ∃ s ∈ (d a).sends, s.dest = b ∧ s.frame = frame := by
  obtain ⟨pre, e, post, d, rfl, hpre, hdispatch⟩ := h
  have hsplit : pre ++ e :: post = (pre ++ [e]) ++ post := by simp
  have htrusted : Trusted pre d a := ha.earlier hpre hrun
  refine ⟨pre, d, e :: post, rfl, by simp, hpre,
    hdispatch.exists_send hreads hpre ?_ htrusted.ids⟩
  intro hout
  apply ha.insider
  obtain ⟨dest, data, now, accepted, hmem⟩ := hout
  exact ⟨dest, data, now, accepted, by rw [hsplit]; exact List.mem_append_left _ hmem⟩

/-- While the message ids last, they tell the calls of a host apart. -/
theorem call_of_msgId {h : Host (servers a)} (hw : h.WellFormed)
    (hcalls : h.calls.calls.length ≤ 2 ^ 32) {n n' : ℕ} {call call' : Call}
    (hn : h.calls.calls[n]? = some call) (hn' : h.calls.calls[n']? = some call')
    (hid : call.msgId = call'.msgId) : n = n' ∧ call = call' := by
  have hlt := (List.getElem?_eq_some_iff.mp hn).1
  have hlt' := (List.getElem?_eq_some_iff.mp hn').1
  rw [hw.sound.numbered n call hn, hw.sound.numbered n' call' hn'] at hid
  obtain rfl := ofNat32_inj (by omega) (by omega) hid
  rw [hn] at hn'
  exact ⟨rfl, Option.some.inj hn'⟩

/-- What one host writes the others read. -/
def SharedFormat (servers : SocketAddr → Server) : Prop :=
  ∀ a b, (servers a).wire.ReadBy (servers b).wire

/-- A request that was answered to a trusted address is one of the calls of its host, made
before. -/
theorem Answered.exists_call {msgId : UInt32} {m : RpcMessage}
    (h : Answered pools run b a msgId m) (hreads : (servers a).wire.ReadBy (servers b).wire)
    (ha : Trusted run c a) (hrun : exec step (start pools) run = some c) :
    ∃ pre e post d d' now n call, run = pre ++ e :: post ∧
      exec step (start pools) pre = some d ∧ d.step e = some d' ∧
      n < (d a).calls.calls.length ∧ (c a).calls.calls[n]? = some call ∧ call.msgId = msgId ∧
      call.addr = b ∧ Answers pools pre d e d' b a now msgId call.frame.message m := by
  obtain ⟨pre, e, post, d, d', now, message, rfl, hpre, hstep, hanswers⟩ := h
  have hrun₁ : exec step (start pools) (pre ++ [e]) = some d' := by
    rw [exec_concat, hpre]
    exact hstep
  have hpost : exec step d (e :: post) = some c := by
    rw [exec_append, hpre] at hrun
    exact hrun
  have ha₁ : Trusted (pre ++ [e]) d' a := by
    rw [List.append_cons] at hrun ha
    exact ha.earlier hrun₁ hrun
  obtain ⟨pre₂, c₂, post₂, hsplit, hne, hpre₂, s, hs, hdest, hframe⟩ :=
    hanswers.dispatched.exists_send hreads ha₁ hrun₁
  obtain ⟨n, call₂, hn₂, hcallFrame, hcallAddr⟩ :=
    (wellFormed_exec hpre₂ a).asked s hs (by rw [hframe])
  -- the request was sent before the answer was given, and the call is there from then on
  obtain ⟨mid, rfl⟩ : ∃ mid, pre = pre₂ ++ mid := by
    obtain ⟨mid, last, rfl⟩ := (List.eq_nil_or_concat post₂).resolve_left hne
    rw [List.concat_eq_append, ← List.append_assoc] at hsplit
    exact ⟨mid, (List.append_inj' hsplit rfl).1⟩
  have hmid : exec step c₂ mid = some d := by
    rw [exec_append, hpre₂] at hpre
    exact hpre
  obtain ⟨call₃, hn₃, hframe₃, haddr₃⟩ := keepsRequests_exec hmid a n call₂ hn₂
  obtain ⟨call, hn, hframe₄, haddr₄⟩ := keepsRequests_exec hpost a n call₃ hn₃
  have hrequest : call.frame = ⟨msgId, true, message⟩ := by
    rw [hframe₄, hframe₃, hcallFrame, hframe]
  have haddr : call.addr = b := by rw [haddr₄, haddr₃, hcallAddr, hdest]
  refine ⟨pre₂ ++ mid, e, post, d, d', now, n, call, rfl, hpre, hstep,
    (List.getElem?_eq_some_iff.mp hn₃).1, hn, congrArg Frame.msgId hrequest, haddr, ?_⟩
  rw [hrequest]
  exact hanswers

/-- A response that comes from a trusted peer is its answer to one of the calls of this
host. -/
theorem Dispatched.exists_call {msgId : UInt32} {m : RpcMessage}
    (h : Dispatched pools run a peer ⟨msgId, false, m⟩) (hformat : SharedFormat servers)
    (hpeer : Trusted run c peer) (ha : Trusted run c a)
    (hrun : exec step (start pools) run = some c) :
    ∃ pre e post d d' now n call, run = pre ++ e :: post ∧
      exec step (start pools) pre = some d ∧ d.step e = some d' ∧
      n < (d a).calls.calls.length ∧ (c a).calls.calls[n]? = some call ∧ call.msgId = msgId ∧
      call.addr = peer ∧ Answers pools pre d e d' peer a now msgId call.frame.message m := by
  obtain ⟨pre, d, post, rfl, -, hpre, s, hs, hdest, hframe⟩ :=
    h.exists_send (hformat peer a) hpeer hrun
  have hanswered := (recorded_exec hpre peer).answered s hs (by rw [hframe])
  rw [hdest, hframe] at hanswered
  exact (hanswered.append post).exists_call (hformat a peer) ha hrun

/-- What a call returns was dispatched as a response to it. -/
theorem dispatched_of_returned (hrun : exec step (start pools) run = some c) {n : ℕ} {call : Call}
    {m : RpcMessage} (hn : (c a).calls.calls[n]? = some call)
    (hreturned : call.phase = .returned (some m)) :
    ∃ peer, Dispatched pools run a peer ⟨call.msgId, false, m⟩ := by
  have hsent := (wellFormed_exec hrun a).sound.result n call m hn hreturned
  exact (recorded_exec hrun a).responded n call hn m hsent

/-- **A call returns the callee's answer to it.**  When a call of a host returns a response,
then after the call was made the host it called handled this very request and sent this very
response in an event of its own, and the response agrees with the state in which it did so: a
stored value was stored, a value found was there.  The only other possibility is a response
in the name of an address that is not trusted: one from which datagrams are injected, or whose
host has used up its fragment ids. -/
theorem response_truthful (hformat : SharedFormat servers)
    (hrun : exec step (start pools) run = some c) {n : ℕ} {call : Call} {m : RpcMessage}
    (hn : (c a).calls.calls[n]? = some call) (hreturned : call.phase = .returned (some m))
    (ha : Trusted run c a) (hcalls : (c a).calls.calls.length ≤ 2 ^ 32) :
    (∃ pre e post d d' now, run = pre ++ e :: post ∧ exec step (start pools) pre = some d ∧
      d.step e = some d' ∧ n < (d a).calls.calls.length ∧
      Answers pools pre d e d' call.addr a now call.msgId call.frame.message m) ∨
    ∃ peer, ¬Trusted run c peer ∧ Dispatched pools run a peer ⟨call.msgId, false, m⟩ := by
  obtain ⟨peer, hdispatched⟩ := dispatched_of_returned hrun hn hreturned
  by_cases hpeer : Trusted run c peer
  · left
    obtain ⟨pre, e, post, d, d', now, n', call', hsplit, hpre, hstep, hmade, hn', hid, rfl,
      hanswers⟩ := hdispatched.exists_call hformat hpeer ha hrun
    -- the id makes the call that was answered the one that returned
    obtain ⟨rfl, rfl⟩ := call_of_msgId (wellFormed_exec hrun a) hcalls hn hn' hid.symm
    exact ⟨pre, e, post, d, d', now, hsplit, hpre, hstep, hmade, hanswers⟩
  · exact .inr ⟨peer, hpeer, hdispatched⟩

/-- The call of the node, which has returned. -/
def storeCall : Call :=
  ⟨keeper, storeFrame, .sent (.storeResult true), .returned (some (.storeResult true))⟩

theorem sharedFormat_bincode : SharedFormat fun _ => sampleServer := fun _ _ => bincode_readBy

theorem response_truthful_storeAnswered :
    ∃ c, exec step (start emptyPools) storeAnswered = some c ∧
      (c peerAddr).calls.calls[0]? = some storeCall ∧
      ((∃ pre e post d d' now, storeAnswered = pre ++ e :: post ∧
        exec step (start emptyPools) pre = some d ∧ d.step e = some d' ∧
        0 < (d peerAddr).calls.calls.length ∧
        Answers emptyPools pre d e d' keeper peerAddr now 0 (.store peerId deviceKey recordA0)
          (.storeResult true)) ∨
      ∃ peer, ¬Trusted storeAnswered c peer ∧
        Dispatched emptyPools storeAnswered peerAddr peer ⟨0, false, .storeResult true⟩) := by
  have hend : (exec step (start emptyPools) storeAnswered).map (fun c =>
      ((c peerAddr).calls.calls, (c peerAddr).sends.length)) = some ([storeCall], 1) := by
    decide +kernel
  obtain ⟨c, hrun, hc⟩ := Option.map_eq_some_iff.mp hend
  obtain ⟨hcalls, hsends⟩ := Prod.mk.inj hc
  have hn : (c peerAddr).calls.calls[0]? = some storeCall := by rw [hcalls]; rfl
  refine ⟨c, hrun, hn, response_truthful sharedFormat_bincode hrun hn rfl
    ⟨not_outsider_storeAnswered _, ?_⟩ ?_⟩
  · rw [hsends]
    decide
  · rw [hcalls]
    decide

end Cluster

end AuthKademlia
