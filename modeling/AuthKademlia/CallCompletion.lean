import AuthKademlia.PendingCalls

/-!
# Calls and the frames that complete them

A frame completes a call when it takes the call's sender out of the pending map.  In every
run a call returns a response only if one frame did so, and no second frame can
(`CompletesAt.unique`).

The map is keyed by the message id alone.  While fewer than `2 ^ 32` calls have been started
the ids keep the calls apart, and the map holds exactly the calls that wait
(`pending_calls_tracked`).  Nothing keeps the senders of responses apart: any address that
sends a response with the id of a pending call completes it (`answered_by_stranger`).

## Main definitions

* `CallTable.CompletesAt` — a frame of a run takes the sender of a call.
* `CallTable.FromCallee` — ids of pending calls come back from the called address only.
-/

namespace AuthKademlia

open Lib

namespace CallTable

open Call

variable {t t' : CallTable} {id : UInt32} {c : ℕ} {call : Call} {consume : Call → Call}

/-! ## The calls over a run -/

/-- What later events leave of a call: its address and id, a channel that is decided, and
a result. -/
structure Follows (call call' : Call) : Prop where
  addr : call'.addr = call.addr
  msgId : call'.msgId = call.msgId
  decided : call.channel ≠ .empty → call'.channel = call.channel
  returned : ∀ result, call.phase = .returned result → call'.phase = .returned result

theorem Follows.refl (call : Call) : Follows call call := ⟨rfl, rfl, fun _ => rfl, fun _ h => h⟩

theorem Follows.trans {call₁ call₂ call₃ : Call} (h : Follows call₁ call₂)
    (h' : Follows call₂ call₃) : Follows call₁ call₃ where
  addr := h'.addr.trans h.addr
  msgId := h'.msgId.trans h.msgId
  decided hne := (h'.decided (by rwa [h.decided hne])).trans (h.decided hne)
  returned result hresult := h'.returned result (h.returned result hresult)

theorem follows_takeEntry (hconsume : UsesSender consume) (hc : t.calls[c]? = some call) :
    ∃ call', (t.takeEntry consume id).calls[c]? = some call' ∧ Follows call call' ∧
      call'.phase = call.phase := by
  rw [getElem?_takeEntry, hc]
  refine ⟨_, rfl, ?_⟩
  split
  · refine ⟨⟨hconsume.addr call, hconsume.msgId call, ?_, ?_⟩, hconsume.phase call⟩
    · intro hdecided
      exact congrArg Call.channel (hconsume.final call hdecided)
    · intro result hresult
      exact (hconsume.phase call).trans hresult
  · exact ⟨.refl call, rfl⟩

theorem follows_advance {d : ℕ} {k : Call} {phase : CallPhase} (hc : t.calls[c]? = some call)
    (hphase : ∀ result, call.phase ≠ .returned result) (hd : t.calls[d]? = some k) :
    ∃ k', (t.advance c phase).calls[d]? = some k' ∧ Follows k k' := by
  rw [getElem?_advance, hd]
  refine ⟨_, rfl, ?_⟩
  split
  · rename_i hcd
    subst hcd
    rw [hc] at hd
    cases hd
    exact ⟨rfl, rfl, fun _ => rfl, fun result h => absurd h (hphase result)⟩
  · exact .refl k

theorem follows_step {e : CallEvent} {d : ℕ} {k : Call} (hstep : t.step e = some t')
    (hd : t.calls[d]? = some k) : ∃ k', t'.calls[d]? = some k' ∧ Follows k k' := by
  -- Registering and leaving first take an entry out of the map, then move the call on.
  have htwo : ∀ {id c call phase}, t.calls[c]? = some call →
      (∀ result, call.phase ≠ .returned result) →
      ∃ k', ((t.takeEntry dropSender id).advance c phase).calls[d]? = some k' ∧
        Follows k k' := by
    intro id c call phase hc hphase
    rcases @follows_takeEntry t id c call _ usesSender_dropSender hc with ⟨call', hc', -, hsame⟩
    rcases @follows_takeEntry t id d k _ usesSender_dropSender hd with ⟨k', hd', hk', -⟩
    have hnot : ∀ result, call'.phase ≠ .returned result := by rwa [hsame]
    rcases @follows_advance _ c call' d k' phase hc' hnot hd' with ⟨k'', hd'', hk''⟩
    exact ⟨k'', hd'', hk'.trans hk''⟩
  cases stepOf_of_step hstep with
  | start addr message => exact ⟨k, getElem?_start_of_some addr message hd, .refl k⟩
  | register hc hphase => exact htwo hc (by simp [hphase])
  | advance _ hc hphase =>
      refine follows_advance hc ?_ hd
      rcases hphase.started with h | h <;> simp [h]
  | unregister hc hphase => exact htwo hc (by simp [hphase])
  | request _ => exact ⟨k, hd, .refl k⟩
  | response _ =>
      rcases follows_takeEntry usesSender_send hd with ⟨k', hd', hk', -⟩
      exact ⟨k', hd', hk'⟩

theorem follows_exec {run : List CallEvent} {k : Call} (hrun : exec step t run = some t')
    (hc : t.calls[c]? = some k) : ∃ k', t'.calls[c]? = some k' ∧ Follows k k' := by
  refine exec_invariant (fun s : CallTable => ∃ k', s.calls[c]? = some k' ∧ Follows k k')
    ⟨k, hc, .refl k⟩ ?_ hrun
  intro r e s hr he
  rcases hr with ⟨k', hc', hk'⟩
  rcases follows_step he hc' with ⟨k'', hc'', hk''⟩
  exact ⟨k'', hc'', hk'.trans hk''⟩

/-- The frame that arrives in the run after `pre` is a response and takes the sender of the
call `c`, which is pending under the frame's id. -/
def CompletesAt (run pre : List CallEvent) (c : ℕ) (peer : SocketAddr) (frame : Frame) : Prop :=
  frame.isRequest = false ∧ ∃ s post, run = pre ++ .receive peer frame :: post ∧
    exec step new pre = some s ∧ s.pending.lookup frame.msgId = some c

theorem CompletesAt.concat {run pre : List CallEvent} {peer : SocketAddr} {frame : Frame}
    (h : CompletesAt run pre c peer frame) (e : CallEvent) :
    CompletesAt (run ++ [e]) pre c peer frame := by
  rcases h with ⟨hresponse, s, post, rfl, hpre, hlookup⟩
  exact ⟨hresponse, s, post ++ [e], by simp, hpre, hlookup⟩

/-- The call a frame completes, in the table at the end of the run. -/
theorem CompletesAt.exists_call {run pre : List CallEvent} {peer : SocketAddr} {frame : Frame}
    (h : CompletesAt run pre c peer frame) (hrun : exec step new run = some t) :
    ∃ call, t.calls[c]? = some call ∧ call.msgId = frame.msgId ∧ call.channel ≠ .empty := by
  rcases h with ⟨hresponse, s, post, rfl, hpre, hlookup⟩
  rcases (sound_of_exec hpre).sender _ c hlookup with ⟨k, hk, hid, -⟩
  rw [exec_append, hpre, Option.bind_some, exec] at hrun
  rcases Option.bind_eq_some_iff.mp hrun with ⟨s', hstep, hpost⟩
  -- The step itself decides the channel, and the rest of the run keeps it.
  have htaken : s'.calls[c]? = some (k.send frame.message) := by
    have hs' : s.receive frame = s' := Option.some.inj hstep
    rw [← hs', receive, if_neg (by simp [hresponse]), getElem?_takeEntry, hk]
    simp [hlookup]
  rcases follows_exec hpost htaken with ⟨call, hc, hcall⟩
  refine ⟨call, hc, ?_, ?_⟩
  · rw [hcall.msgId, usesSender_send.msgId, hid]
  · rw [hcall.decided (usesSender_send.decided k)]
    exact usesSender_send.decided k

/-- A frame that takes a sender leaves none for a later frame. -/
theorem CompletesAt.not_lt {run pre pre' : List CallEvent} {peer peer' : SocketAddr}
    {frame frame' : Frame} (h : CompletesAt run pre c peer frame)
    (h' : CompletesAt run pre' c peer' frame') : ¬ pre.length < pre'.length := by
  intro hlt
  rcases h with ⟨hresponse, s, post, rfl, hpre, hlookup⟩
  rcases h' with ⟨-, s', post', heq, hpre', hlookup'⟩
  have hprefix : pre ++ [.receive peer frame] <+: pre' := by
    have hleft : pre ++ [.receive peer frame] <+: pre ++ .receive peer frame :: post := by
      simp
    have hright : pre' <+: pre ++ .receive peer frame :: post := by
      rw [heq]
      simp
    refine List.prefix_of_prefix_length_le hleft hright ?_
    rw [List.length_append, List.length_singleton]
    exact hlt
  rcases hprefix with ⟨mid, rfl⟩
  have hfirst : CompletesAt (pre ++ [.receive peer frame] ++ mid) pre c peer frame :=
    ⟨hresponse, s, mid, by simp, hpre, hlookup⟩
  rcases hfirst.exists_call hpre' with ⟨call, hc, -, hdecided⟩
  exact (sound_of_exec hpre').lookup_ne_of_decided hc hdecided hlookup'

theorem CompletesAt.unique {run pre pre' : List CallEvent} {peer peer' : SocketAddr}
    {frame frame' : Frame} (h : CompletesAt run pre c peer frame)
    (h' : CompletesAt run pre' c peer' frame') : pre = pre' ∧ peer = peer' ∧ frame = frame' := by
  have hlength : pre.length = pre'.length := by
    have := h.not_lt h'
    have := h'.not_lt h
    omega
  rcases h with ⟨-, s, post, rfl, -⟩
  rcases h' with ⟨-, s', post', heq, -⟩
  rcases List.append_inj heq hlength with ⟨rfl, hrest⟩
  cases hrest
  exact ⟨rfl, rfl, rfl⟩

theorem sent_of_advance {d : ℕ} {phase : CallPhase} {m : RpcMessage}
    (hc : (t.advance d phase).calls[c]? = some call) (hsent : call.channel = .sent m) :
    ∃ k, t.calls[c]? = some k ∧ k.channel = .sent m := by
  rcases exists_of_advance hc with ⟨k, hk, ⟨-, rfl⟩ | ⟨-, rfl⟩⟩
  · exact ⟨k, hk, hsent⟩
  · exact ⟨call, hk, hsent⟩

theorem sent_of_dropSender {m : RpcMessage}
    (hc : (t.takeEntry dropSender id).calls[c]? = some call) (hsent : call.channel = .sent m) :
    ∃ k, t.calls[c]? = some k ∧ k.channel = .sent m := by
  rcases exists_of_takeEntry hc with ⟨k, hk, ⟨-, rfl⟩ | ⟨-, rfl⟩⟩
  · exact ⟨k, hk, channel_dropSender_eq_sent hsent⟩
  · exact ⟨call, hk, hsent⟩

/-- A message gets into a channel only by a response frame that takes its sender. -/
theorem sent_of_step {e : CallEvent} {m : RpcMessage} (hstep : t.step e = some t')
    (hc : t'.calls[c]? = some call) (hsent : call.channel = .sent m) :
    (∃ k, t.calls[c]? = some k ∧ k.channel = .sent m) ∨
      ∃ peer frame, e = .receive peer frame ∧ frame.isRequest = false ∧
        t.pending.lookup frame.msgId = some c ∧ frame.message = m := by
  cases stepOf_of_step hstep with
  | start addr message =>
      rcases getElem?_start hc with hc | ⟨-, rfl⟩
      · exact .inl ⟨call, hc, hsent⟩
      · cases hsent
  | register hd hphase =>
      rename_i d k
      rcases @sent_of_advance (t.takeEntry dropSender k.msgId) c call d .sending m hc hsent with
        ⟨call', hc', hsent'⟩
      exact .inl (sent_of_dropSender hc' hsent')
  | advance _ hd hphase => exact .inl (sent_of_advance hc hsent)
  | unregister hd hphase =>
      rcases sent_of_advance hc hsent with ⟨call', hc', hsent'⟩
      exact .inl (sent_of_dropSender hc' hsent')
  | request _ => exact .inl ⟨call, hc, hsent⟩
  | response hresponse =>
      rcases exists_of_takeEntry hc with ⟨k, hk, ⟨hentry, rfl⟩ | ⟨-, rfl⟩⟩
      · rcases channel_send_eq_sent hsent with hold | hm
        · exact .inl ⟨k, hk, hold⟩
        · exact .inr ⟨_, _, rfl, hresponse, hentry, hm⟩
      · exact .inl ⟨call, hk, hsent⟩

theorem completesAt_of_sent {run : List CallEvent} (hrun : exec step new run = some t) :
    ∀ (c : ℕ) (call : Call) (m : RpcMessage), t.calls[c]? = some call → call.channel = .sent m →
      ∃ pre peer frame, CompletesAt run pre c peer frame ∧ frame.message = m := by
  refine exec_history (fun es (s : CallTable) => ∀ (c : ℕ) (call : Call) (m : RpcMessage),
    s.calls[c]? = some call → call.channel = .sent m →
      ∃ pre peer frame, CompletesAt es pre c peer frame ∧ frame.message = m) ?_ ?_ hrun
  · intro c call m hc
    simp [new] at hc
  · intro es r e s hr ih he c call m hc hsent
    rcases sent_of_step he hc hsent with ⟨k, hk, hold⟩ | ⟨peer, frame, rfl, hresponse, hentry, rfl⟩
    · rcases ih c k m hk hold with ⟨pre, peer, frame, hcompletes, hm⟩
      exact ⟨pre, peer, frame, hcompletes.concat e, hm⟩
    · exact ⟨es, peer, frame, ⟨hresponse, r, [], rfl, hr, hentry⟩, rfl⟩

/-! ## Responses and the peers they come from -/

/-- A response frame with the id of a pending call comes from the address this call went
to. -/
def FrameFromCallee (s : CallTable) : CallEvent → Prop
  | .receive peer frame => frame.isRequest = false → ∀ (c : ℕ) (call : Call),
      s.pending.lookup frame.msgId = some c → s.calls[c]? = some call → peer = call.addr
  | _ => True

/-- Every frame of the run is such a one, when it arrives. -/
def FromCallee (run : List CallEvent) : Prop := EachStep step FrameFromCallee new run

theorem CompletesAt.peer_eq {run pre : List CallEvent} {peer : SocketAddr} {frame : Frame}
    (h : CompletesAt run pre c peer frame) (hcallee : FromCallee run)
    (hrun : exec step new run = some t) (hc : t.calls[c]? = some call) : peer = call.addr := by
  rcases h with ⟨hresponse, s, post, hsplit, hpre, hlookup⟩
  rcases (sound_of_exec hpre).sender _ c hlookup with ⟨k, hk, -⟩
  have hpeer := hcallee pre _ post s hsplit hpre hresponse c k hlookup hk
  subst hsplit
  rw [exec_append, hpre] at hrun
  rcases follows_exec hrun hk with ⟨call', hc', hfollows⟩
  rw [hc] at hc'
  cases hc'
  rw [hpeer, hfollows.addr]

/-! A call to `callee`, and one response with its id. -/

def callee : SocketAddr := ⟨"10.0.0.1", 5678⟩

def stranger : SocketAddr := ⟨"10.0.0.2", 5678⟩

def callerId : NodeId := ⟨List.replicate idLen 0, rfl⟩

/-- The node calls `callee`; a response with the id of the call arrives from `peer`. -/
def callRun (peer : SocketAddr) : List CallEvent :=
  [.start callee (.ping callerId), .register 0, .sendFrame 0 true,
    .receive peer ⟨0, false, .pong callerId⟩, .poll 0 false]

/-- The call at the end of either run. -/
def answeredCall : Call :=
  ⟨callee, ⟨0, true, .ping callerId⟩, .sent (.pong callerId), .returned (some (.pong callerId))⟩

theorem exec_callRun (peer : SocketAddr) :
    exec step new (callRun peer) = some ⟨1, [answeredCall], ∅⟩ := rfl

/-- **Responses come from the peer that was called**, as long as no other address sends a
response with the id of a pending call. -/
theorem response_from_callee (run : List CallEvent) (hcallee : FromCallee run) (t : CallTable)
    (hrun : exec step new run = some t) (c : ℕ) (call : Call) (hc : t.calls[c]? = some call) :
    (∀ m, call.phase = .returned (some m) →
      ∃ pre frame, CompletesAt run pre c call.addr frame ∧ frame.msgId = call.msgId ∧
        frame.message = m) ∧
    ∀ pre peer frame, CompletesAt run pre c peer frame → peer = call.addr := by
  refine ⟨?_, fun pre peer frame h => h.peer_eq hcallee hrun hc⟩
  intro m hm
  have hsent := (sound_of_exec hrun).result c call m hc hm
  rcases completesAt_of_sent hrun c call m hc hsent with ⟨pre, peer, frame, hcompletes, hmessage⟩
  have hpeer := hcompletes.peer_eq hcallee hrun hc
  subst hpeer
  rcases hcompletes.exists_call hrun with ⟨call', hc', hid, -⟩
  rw [hc] at hc'
  cases hc'
  exact ⟨pre, frame, hcompletes, hid.symm, hmessage⟩

theorem fromCallee_callRun : FromCallee (callRun callee) := by
  intro pre e post s hsplit hpre
  cases e with
  | receive peer frame =>
      intro _ c call _ hc
      have hpeer : peer = callee := by
        have hmem : CallEvent.receive peer frame ∈ callRun callee := by
          rw [hsplit]
          simp
        simp [callRun] at hmem
        exact hmem.1
      have hrun := exec_callRun callee
      rw [hsplit, exec_append, hpre] at hrun
      rcases follows_exec hrun hc with ⟨call', hc', hfollows⟩
      have hcall : call' = answeredCall := by
        simpa using List.mem_of_getElem? hc'
      rw [hpeer, ← hfollows.addr, hcall]
      rfl
  | _ => trivial

theorem response_from_callee_callRun :
    FromCallee (callRun callee) ∧ ∃ pre frame, CompletesAt (callRun callee) pre 0 callee frame ∧
      frame.msgId = 0 ∧ frame.message = .pong callerId :=
  ⟨fromCallee_callRun, (response_from_callee (callRun callee) fromCallee_callRun _
    (exec_callRun callee) 0 answeredCall rfl).1 _ rfl⟩

/-- A call to `callee` returns the response of another address, and nothing ever came from
`callee`. -/
theorem answered_by_stranger :
    ∃ t call, exec step new (callRun stranger) = some t ∧ t.calls[0]? = some call ∧
      call.addr = callee ∧ call.phase = .returned (some (.pong callerId)) ∧
      ∀ frame, CallEvent.receive callee frame ∉ callRun stranger := by
  refine ⟨_, answeredCall, exec_callRun stranger, rfl, rfl, rfl, ?_⟩
  intro frame hmem
  simp [callRun, callee, stranger] at hmem

/-! ## Fewer than `2 ^ 32` calls -/

theorem length_calls {run : List CallEvent} (h : exec step new run = some t) :
    t.calls.length = run.countP CallEvent.isStart := by
  refine exec_history (fun es (s : CallTable) => s.calls.length = es.countP CallEvent.isStart)
    rfl ?_ h
  intro es r e s _ ih he
  rw [List.countP_append, ← ih, List.countP_singleton]
  cases stepOf_of_step he with
  | start addr message => simp [start, CallEvent.isStart]
  | register hc hphase => simp [insertEntry, advance, CallEvent.isStart]
  | advance hstart hc hphase => simp [hstart]
  | unregister hc hphase => simp [CallEvent.isStart]
  | request _ => simp [CallEvent.isStart]
  | response _ => simp [CallEvent.isStart]

theorem Sound.toNat_msgId (h : t.Sound) (hbound : t.calls.length < 2 ^ 32)
    (hc : t.calls[c]? = some call) : call.msgId.toNat = c := by
  have hlt : c < t.calls.length := (List.getElem?_eq_some_iff.mp hc).1
  rw [h.numbered c call hc]
  exact UInt32.toNat_ofNat_of_lt' (by simp [UInt32.size]; omega)

/-- The entry of the id of a call is the sender of this call. -/
theorem Sound.eq_of_lookup (h : t.Sound) (hbound : t.calls.length < 2 ^ 32) {d : ℕ}
    (hc : t.calls[c]? = some call) (hlookup : t.pending.lookup call.msgId = some d) : d = c := by
  rcases h.sender _ d hlookup with ⟨k, hd, hid, -⟩
  rw [← h.toNat_msgId hbound hd, hid, h.toNat_msgId hbound hc]

/-- No running call has lost its sender to another call. -/
def Unreplaced (t : CallTable) : Prop :=
  ∀ (c : ℕ) (call : Call), t.calls[c]? = some call → call.Running → call.channel ≠ .closed

theorem Unreplaced.step {e : CallEvent} (h : t.Unreplaced) (hsound : t.Sound)
    (hbound : t.calls.length < 2 ^ 32) (hstep : t.step e = some t') : t'.Unreplaced := by
  intro d k' hd' hrunning
  cases stepOf_of_step hstep with
  | start addr message =>
      rcases getElem?_start hd' with hd | ⟨-, rfl⟩
      · exact h d k' hd hrunning
      · simp
  | register hc hphase =>
      rename_i c call
      rcases hsound.calls_register hc hphase hd' with ⟨rfl, rfl⟩ | htaken
      · simp [hsound.fresh c call hc hphase]
      · rcases exists_of_takeEntry htaken with ⟨k, hd, ⟨hentry, rfl⟩ | ⟨-, rfl⟩⟩
        · have hdc := hsound.eq_of_lookup hbound hc hentry
          subst hdc
          exact absurd hentry (hsound.lookup_ne_of_allocated hc hphase)
        · exact h d k' hd hrunning
  | advance _ hc hphase =>
      rcases exists_of_advance hd' with ⟨k, hd, ⟨rfl, rfl⟩ | ⟨-, rfl⟩⟩
      · rw [hc] at hd
        cases hd
        rw [channel_enter]
        exact h _ _ hc hphase.started
      · exact h d k' hd hrunning
  | unregister hc hphase =>
      rcases exists_of_advance hd' with ⟨k, hd, ⟨rfl, rfl⟩ | ⟨hne, rfl⟩⟩
      · simp [Running] at hrunning
      · rcases exists_of_takeEntry hd with ⟨k, hk, ⟨hentry, rfl⟩ | ⟨-, rfl⟩⟩
        · exact absurd (hsound.eq_of_lookup hbound hc hentry).symm hne
        · exact h d k' hk hrunning
  | request _ => exact h d k' hd' hrunning
  | response _ =>
      rcases exists_of_takeEntry hd' with ⟨k, hd, ⟨-, rfl⟩ | ⟨-, rfl⟩⟩
      · rw [Running, usesSender_send.phase] at hrunning
        exact channel_send_ne_closed hrunning (h d k hd hrunning)
      · exact h d k' hd hrunning

theorem unreplaced_of_exec {run : List CallEvent} (h : exec step new run = some t)
    (hcalls : run.countP CallEvent.isStart < 2 ^ 32) : t.Unreplaced := by
  refine exec_history (fun es (s : CallTable) => es.countP CallEvent.isStart < 2 ^ 32 →
    s.Unreplaced) (fun _ c call hc => by simp [new] at hc) ?_ h hcalls
  intro es r e s hr ih he hbound
  rw [List.countP_append] at hbound
  have hes : es.countP CallEvent.isStart < 2 ^ 32 := by omega
  exact (ih hes).step (sound_of_exec hr) (by rwa [length_calls hr]) he

/-- The entries of the map are the senders of the calls that are open, or about to leave. -/
theorem lookup_pending_iff {run : List CallEvent} (h : exec step new run = some t)
    (hcalls : run.countP CallEvent.isStart < 2 ^ 32) (id : UInt32) (c : ℕ) :
    t.pending.lookup id = some c ↔
      ∃ call, t.calls[c]? = some call ∧ call.msgId = id ∧ (call.IsOpen ∨ call.IsLeaving) := by
  constructor
  · intro hlookup
    rcases (sound_of_exec h).sender id c hlookup with ⟨call, hc, hid, hstarted, hempty⟩
    refine ⟨call, hc, hid, ?_⟩
    cases hphase : call.phase with
    | allocated => exact absurd hphase hstarted
    | sending => exact .inl ⟨.inl hphase, by simp [hempty]⟩
    | waiting => exact .inl ⟨.inr hphase, by simp [hempty]⟩
    | leaving failure => exact .inr ⟨⟨failure, hphase⟩, hempty⟩
    | returned result => exact absurd hempty ((exact_of_exec h).finished c call result hc hphase)
  · intro hpending
    rcases hpending with ⟨call, hc, rfl, ⟨hrunning, hunanswered⟩ | ⟨⟨failure, hphase⟩, hempty⟩⟩
    · refine (exact_of_exec h).sender c call hc ?_ ?_
      · rcases hrunning with hphase | hphase <;> simp [hphase]
      · cases hchannel : call.channel with
        | empty => rfl
        | sent m => exact absurd hchannel (hunanswered m)
        | closed => exact absurd hchannel (unreplaced_of_exec h hcalls c call hc hrunning)
    · exact (exact_of_exec h).sender c call hc (by simp [hphase]) hempty

/-- A frame changes nothing, or belongs to a pending call and changes nothing for the
others. -/
theorem receive_touches_one {run : List CallEvent} {t : CallTable}
    (hcalls : run.countP CallEvent.isStart < 2 ^ 32) (hrun : exec step new run = some t)
    (frame : Frame) :
    t.receive frame = t ∨ ∃ (c : ℕ) (call : Call), t.calls[c]? = some call ∧
      call.msgId = frame.msgId ∧ (call.IsOpen ∨ call.IsLeaving) ∧
      ∀ d, d ≠ c → (t.receive frame).calls[d]? = t.calls[d]? := by
  unfold receive
  split
  · exact .inl rfl
  · cases hlookup : t.pending.lookup frame.msgId with
    | none => exact .inl (by simp [takeEntry, hlookup])
    | some c =>
        rcases (lookup_pending_iff hrun hcalls _ c).mp hlookup with ⟨call, hc, hid, hpending⟩
        refine .inr ⟨c, call, hc, hid, hpending, ?_⟩
        intro d hd
        have hother : t.pending.lookup frame.msgId ≠ some d := by
          rw [hlookup]
          simpa using hd.symm
        rw [getElem?_takeEntry]
        cases t.calls[d]? with
        | none => rfl
        | some k => simp [hother]

/-- **Pending-call bookkeeping.**  While fewer than `2 ^ 32` calls have been started: the
`c`-th call has the id `c`, and the map holds exactly the ids of the calls that are open or
on their way out; a frame completes no call but the one that took its id, and no call
twice; a call returns a response only from such a frame; a frame whose id belongs to no
pending call changes nothing, and any other frame changes nothing for the other calls; and
a result is final. -/
theorem pending_calls_tracked (run : List CallEvent)
    (hcalls : run.countP CallEvent.isStart < 2 ^ 32) (t : CallTable)
    (hrun : exec step new run = some t) :
    (∀ (c : ℕ) (call : Call), t.calls[c]? = some call → call.msgId.toNat = c) ∧
    (∀ id c, t.pending.lookup id = some c ↔
      ∃ call, t.calls[c]? = some call ∧ call.msgId = id ∧ (call.IsOpen ∨ call.IsLeaving)) ∧
    (∀ pre c peer frame, CompletesAt run pre c peer frame → c = frame.msgId.toNat) ∧
    (∀ pre pre' c peer peer' frame frame', CompletesAt run pre c peer frame →
      CompletesAt run pre' c peer' frame' → pre = pre') ∧
    (∀ (c : ℕ) (call : Call) (m : RpcMessage), t.calls[c]? = some call →
      call.phase = .returned (some m) →
      ∃ pre peer frame, CompletesAt run pre c peer frame ∧ frame.message = m) ∧
    (∀ frame, t.receive frame = t ∨ ∃ (c : ℕ) (call : Call), t.calls[c]? = some call ∧
      call.msgId = frame.msgId ∧ (call.IsOpen ∨ call.IsLeaving) ∧
      ∀ d, d ≠ c → (t.receive frame).calls[d]? = t.calls[d]?) ∧
    (∀ (e : CallEvent) (t' : CallTable) (c : ℕ) (call : Call) (result : Option RpcMessage),
      t.step e = some t' → t.calls[c]? = some call → call.phase = .returned result →
      ∃ call', t'.calls[c]? = some call' ∧ call'.phase = .returned result) := by
  have hsound := sound_of_exec hrun
  have hbound : t.calls.length < 2 ^ 32 := by rwa [length_calls hrun]
  refine ⟨fun c call hc => hsound.toNat_msgId hbound hc, lookup_pending_iff hrun hcalls,
    ?_, ?_, ?_, receive_touches_one hcalls hrun, ?_⟩
  · intro pre c peer frame hcompletes
    rcases hcompletes.exists_call hrun with ⟨call, hc, hid, -⟩
    rw [← hid, hsound.toNat_msgId hbound hc]
  · intro pre pre' c peer peer' frame frame' h h'
    exact (h.unique h').1
  · intro c call m hc hphase
    exact completesAt_of_sent hrun c call m hc (hsound.result c call m hc hphase)
  · intro e t' c call result hstep hc hphase
    rcases follows_step hstep hc with ⟨call', hc', hfollows⟩
    exact ⟨call', hc', hfollows.returned result hphase⟩

/-- Two calls; the first one times out, and its response arrives before it has taken its sender
out of the map. -/
def lateRun : List CallEvent :=
  [.start callee (.ping callerId), .register 0, .sendFrame 0 true,
    .start stranger (.ping callerId), .register 1, .sendFrame 1 true,
    .poll 0 true, .receive callee ⟨0, false, .pong callerId⟩, .unregister 0]

/-- The late response is lost and the second call still waits. -/
theorem pending_calls_tracked_lateRun :
    ∃ t, exec step new lateRun = some t ∧ t.calls.map Call.phase = [.returned none, .waiting] ∧
      t.pending.lookup 0 = none ∧ t.pending.lookup 1 = some 1 ∧
      (∀ id c, t.pending.lookup id = some c ↔
        ∃ call, t.calls[c]? = some call ∧ call.msgId = id ∧ (call.IsOpen ∨ call.IsLeaving)) ∧
      ∀ pre c peer frame, CompletesAt lateRun pre c peer frame → c = frame.msgId.toNat := by
  obtain ⟨-, hpending, hcompletes, -⟩ := pending_calls_tracked lateRun (by decide) _ rfl
  exact ⟨_, rfl, rfl, rfl, rfl, hpending, hcompletes⟩

end CallTable

end AuthKademlia
