import AuthKademlia.Reassembly
import AuthKademlia.WireFormat

/-!
# Frames over datagrams

`send_frame` serializes a frame, refuses it if it is too long, takes the next fragment id
and hands the fragments to the socket one by one, up to the first that the socket refuses.
`handle_datagram` puts the fragments together and deserializes the result.

A receiver sees the datagrams of many messages of one peer mixed with each other and with
those of other peers.  The fragment ids keep them apart for `2 ^ 32` messages.

## Main definitions

* `sendFrame`, `receiveFrame` — the two ends.
* `received` — the frames a run of the receiver gets from a peer.
* `Traffic` — a run in which the datagrams of the peer are those of a list of messages.
-/

namespace AuthKademlia

open Lib

/-- `send_frame` with the fragment id it takes; the socket takes `accepted` datagrams before
it refuses one.  The result is the answer and the datagrams that are under way; a frame that
cannot be serialized or is too long is refused before an id is taken. -/
def sendFrame (wire : WireLib) (accepted : ℕ) (frame : Frame) (fragId : UInt32) :
    Option (Bool × List Bytes) :=
  (wire.serialize frame).bind fun bytes =>
    if bytes.length > maxMessageSize then none
    else
      let datagrams := encodeFragments fragId bytes
      some (decide (datagrams.length ≤ accepted), datagrams.take accepted)

theorem sendFrame_eq_some {wire : WireLib} {accepted : ℕ} {frame : Frame} {fragId : UInt32}
    {ok : Bool} {datagrams : List Bytes}
    (h : sendFrame wire accepted frame fragId = some (ok, datagrams)) :
    ∃ payload, wire.serialize frame = some payload ∧ payload.length ≤ maxMessageSize ∧
      ∀ d ∈ datagrams, d ∈ encodeFragments fragId payload := by
  obtain ⟨payload, hpayload, h⟩ := Option.bind_eq_some_iff.mp h
  dsimp only at h
  split at h
  · cases h
  · cases h
    exact ⟨payload, hpayload, by omega, fun d hd => List.mem_of_mem_take hd⟩

/-- `handle_datagram` up to the frame it dispatches. -/
def receiveFrame (wire : WireLib) (now : ℕ) (map : ReassemblyMap) (peer : SocketAddr)
    (data : Bytes) : Option Frame × ReassemblyMap :=
  let (outcome, map) := reassemble now map peer data
  match outcome with
  | .frame payload => (wire.deserialize payload, map)
  | _ => (none, map)

theorem receiveFrame_map (wire : WireLib) (now : ℕ) (map : ReassemblyMap) (peer : SocketAddr)
    (data : Bytes) :
    (receiveFrame wire now map peer data).2 = (reassemble now map peer data).2 := by
  unfold receiveFrame
  generalize reassemble now map peer data = r
  obtain ⟨outcome, map'⟩ := r
  cases outcome <;> rfl

theorem receiveFrame_eq_some {wire : WireLib} {now : ℕ} {map : ReassemblyMap} {peer : SocketAddr}
    {data : Bytes} {frame : Frame} (h : (receiveFrame wire now map peer data).1 = some frame) :
    ∃ payload, (reassemble now map peer data).1 = .frame payload ∧
      wire.deserialize payload = some frame := by
  unfold receiveFrame at h
  revert h
  generalize reassemble now map peer data = r
  obtain ⟨outcome, map'⟩ := r
  cases outcome with
  | frame payload => exact fun h => ⟨payload, rfl, h⟩
  | discarded why => exact fun h => nomatch h
  | incomplete => exact fun h => nomatch h

/-! ## Many messages of one peer -/

/-- The message a datagram of `peer` completes, with its fragment id. -/
def delivery (peer : SocketAddr) (map : ReassemblyMap) : ReceiveStep → Option (UInt32 × Bytes)
  | .datagram now sender data =>
      if sender = peer then
        match parseFragment data, (reassemble now map sender data).1 with
        | some (header, _), .frame payload => some (header.fragId, payload)
        | _, _ => none
      else none
  | .gc _ => none

/-- The messages of `peer` that a run completes. -/
def deliveries (peer : SocketAddr) : ReassemblyMap → List ReceiveStep → List (UInt32 × Bytes)
  | _, [] => []
  | map, s :: run => (delivery peer map s).toList ++ deliveries peer (s.apply map) run

/-- The frames of `peer` that a run hands to the dispatcher, in order. -/
def received (wire : WireLib) (peer : SocketAddr) : ReassemblyMap → List ReceiveStep → List Frame
  | _, [] => []
  | map, s :: run =>
      match s with
      | .datagram now sender data =>
          if sender = peer then
            (receiveFrame wire now map sender data).1.toList ++ received wire peer (s.apply map) run
          else received wire peer (s.apply map) run
      | .gc _ => received wire peer (s.apply map) run

section Deliveries

variable {peer : SocketAddr} {fragId : UInt32} {map : ReassemblyMap} {s : ReceiveStep}
  {run : List ReceiveStep} {payload : Bytes}

theorem delivery_eq_some : delivery peer map s = some (fragId, payload) ↔
    ∃ now data, s = .datagram now peer data ∧ s.ownData peer fragId = some data ∧
      (reassemble now map peer data).1 = .frame payload := by
  cases s with
  | gc now => simp [delivery]
  | datagram now sender data =>
      by_cases hpeer : sender = peer
      · subst hpeer
        cases hp : parseFragment data with
        | none => simp [delivery, ReceiveStep.ownData, hp]
        | some parts =>
            obtain ⟨header, chunk⟩ := parts
            cases hr : (reassemble now map sender data).1 <;>
              simp [delivery, ReceiveStep.ownData, hp, hr]
      · simp [delivery, hpeer]

/-- A frame is dispatched exactly when a message is completed that is read as one. -/
theorem received_eq_filterMap (wire : WireLib) :
    received wire peer map run =
      (deliveries peer map run).filterMap fun d => wire.deserialize d.2 := by
  induction run generalizing map with
  | nil => rfl
  | cons s run ih =>
      simp only [received, deliveries, List.filterMap_append, ← ih]
      cases s with
      | gc now => rfl
      | datagram now sender data =>
          by_cases hpeer : sender = peer
          · simp only [delivery, if_pos hpeer, receiveFrame]
            cases hp : parseFragment data with
            | none => simp [reassemble, hp]
            | some parts =>
                obtain ⟨header, chunk⟩ := parts
                cases hr : (reassemble now map sender data).1 with
                | frame payload => cases hd : wire.deserialize payload <;> simp [hd]
                | _ => simp
          · simp [delivery, hpeer]

/-- The messages with one id are those the receiver's run on that id hands on. -/
theorem filter_deliveries :
    ((deliveries peer map run).filter fun d => d.1 = fragId).map Prod.snd =
      frames (outcomes peer fragId map run) := by
  induction run generalizing map with
  | nil => rfl
  | cons s run ih =>
      rw [deliveries, List.filter_append, List.map_append, ih]
      cases hs : s.ownData peer fragId with
      | none =>
          rw [outcomes_cons_foreign hs]
          cases hd : delivery peer map s with
          | none => rfl
          | some d =>
              obtain ⟨id, payload⟩ := d
              obtain ⟨now, data, -, hown, -⟩ := delivery_eq_some.mp hd
              have hid : id ≠ fragId := by
                rintro rfl
                rw [hs] at hown
                cases hown
              simp [hid]
      | some data =>
          obtain ⟨now, rfl⟩ := ownData_eq_some hs
          rw [outcomes_cons_own hs]
          cases hr : (reassemble now map peer data).1 with
          | frame payload =>
              have hd : delivery peer map (.datagram now peer data) = some (fragId, payload) :=
                delivery_eq_some.mpr ⟨now, data, rfl, hs, hr⟩
              simp [hd, frames, ReceiveStep.apply]
          | _ =>
              have hd : delivery peer map (.datagram now peer data) = none := by
                cases hd : delivery peer map (.datagram now peer data) with
                | none => rfl
                | some d =>
                    obtain ⟨now', data', heq, -, hframe⟩ := delivery_eq_some.mp hd
                    cases heq
                    rw [hr] at hframe
                    cases hframe
              simp [hd, frames, ReceiveStep.apply]

/-- A completed message has the id of a datagram of the run. -/
theorem exists_own_of_mem_deliveries (h : (fragId, payload) ∈ deliveries peer map run) :
    ∃ s ∈ run, (s.ownData peer fragId).isSome := by
  induction run generalizing map with
  | nil => cases h
  | cons s run ih =>
      rw [deliveries, List.mem_append, Option.mem_toList] at h
      cases h with
      | inl h =>
          obtain ⟨now, data, -, hown, -⟩ := delivery_eq_some.mp h
          exact ⟨s, List.mem_cons_self, by simp [hown]⟩
      | inr h =>
          obtain ⟨r, hr, hown⟩ := ih h
          exact ⟨r, List.mem_cons_of_mem s hr, hown⟩

end Deliveries

/-- The datagrams of `peer` in a run are those of the messages it has sent since its fragment
counter was at `start`: each arrives once, those of one message within `REASSEMBLY_TTL`, and
all of them in any order, mixed with each other and with whatever other peers send. -/
structure Traffic (peer : SocketAddr) (start : UInt32) (payloads : List Bytes)
    (run : List ReceiveStep) : Prop where
  arrival : ∀ k payload, payloads[k]? = some payload →
    Arrival peer (start + UInt32.ofNat k) payload run
  only : ∀ s ∈ run, ∀ fragId, (s.ownData peer fragId).isSome →
    ∃ k < payloads.length, fragId = start + UInt32.ofNat k

theorem ofNat32_inj {j k : ℕ} (hj : j < 2 ^ 32) (hk : k < 2 ^ 32)
    (h : UInt32.ofNat j = UInt32.ofNat k) : j = k := by
  have hnat := congrArg UInt32.toNat h
  rwa [UInt32.toNat_ofNat_of_lt' hj, UInt32.toNat_ofNat_of_lt' hk] at hnat

/-- The ids of `2 ^ 32` messages in a row are different. -/
theorem fragId_inj {start : UInt32} {j k : ℕ} (hj : j < 2 ^ 32) (hk : k < 2 ^ 32)
    (h : start + UInt32.ofNat j = start + UInt32.ofNat k) : j = k := by
  have hsub := congrArg (fun x => x - start) h
  exact ofNat32_inj hj hk (by simpa [UInt32.add_comm start] using hsub)

/-- The receiver's limit, counted in whole chunks. -/
def Whole (payload : Bytes) : Prop :=
  payload.length ≤ maxMessageSize / fragChunkSize * fragChunkSize

instance (payload : Bytes) : Decidable (Whole payload) := inferInstanceAs (Decidable (_ ≤ _))

theorem Whole.length_le {payload : Bytes} (h : Whole payload) : payload.length ≤ maxMessageSize :=
  h.trans (Nat.div_mul_le_self maxMessageSize fragChunkSize)

section Traffic

variable {peer : SocketAddr} {start : UInt32} {payloads : List Bytes} {run : List ReceiveStep}

/-- The messages with their ids. -/
def messages (start : UInt32) (payloads : List Bytes) : List (UInt32 × Bytes) :=
  payloads.mapIdx fun k payload => (start + UInt32.ofNat k, payload)

theorem mem_messages {d : UInt32 × Bytes} :
    d ∈ messages start payloads ↔ ∃ k, payloads[k]? = some d.2 ∧ d.1 = start + UInt32.ofNat k := by
  simp only [messages, List.mem_mapIdx]
  constructor
  · rintro ⟨k, hk, rfl⟩
    exact ⟨k, List.getElem?_eq_getElem hk, rfl⟩
  · rintro ⟨k, hk, hid⟩
    obtain ⟨hlt, hpayload⟩ := List.getElem?_eq_some_iff.mp hk
    exact ⟨k, hlt, Prod.ext hid.symm hpayload⟩

theorem nodup_messages (hcount : payloads.length ≤ 2 ^ 32) : (messages start payloads).Nodup := by
  have hids : (messages start payloads).map Prod.fst =
      (List.range payloads.length).map fun k => start + UInt32.ofNat k := by
    apply List.ext_getElem <;> simp [messages]
  refine List.Nodup.of_map Prod.fst (hids ▸ List.nodup_range.map_on ?_)
  intro j hj k hk heq
  have hj := List.mem_range.mp hj
  have hk := List.mem_range.mp hk
  exact fragId_inj (by omega) (by omega) heq

/-- The receiver completes each message once, or refuses all of its fragments. -/
theorem Traffic.filter_deliveries (h : Traffic peer start payloads run) {k : ℕ} {payload : Bytes}
    (hk : payloads[k]? = some payload) (hsize : payload.length ≤ maxMessageSize) :
    ((deliveries peer ∅ run).filter fun d => d.1 = start + UInt32.ofNat k) =
      if Whole payload then [(start + UInt32.ofNat k, payload)] else [] := by
  have hframes := @AuthKademlia.filter_deliveries peer (start + UInt32.ofNat k) ∅ run
  split
  · rename_i hwhole
    rw [(h.arrival k payload hk).outcomes_eq hsize ((projection_le_iff _).mpr hwhole)] at hframes
    have hone : frames (List.replicate (fragCount payload - 1) .incomplete ++ [.frame payload]) =
        [payload] := by simp [frames]
    obtain ⟨⟨id, payload⟩, hsingle, rfl⟩ := List.map_eq_singleton_iff.mp (hframes.trans hone)
    have hmem : (id, payload) ∈
        (deliveries peer ∅ run).filter fun d => d.1 = start + UInt32.ofNat k := by simp [hsingle]
    obtain rfl : id = start + UInt32.ofNat k := by simpa using (List.mem_filter.mp hmem).2
    exact hsingle
  · rename_i hwhole
    have hbig : maxMessageSize < fragCount payload * fragChunkSize :=
      Nat.lt_of_not_le (mt (projection_le_iff _).mp hwhole)
    rw [(h.arrival k payload hk).outcomes_oversized hsize hbig] at hframes
    exact List.map_eq_nil_iff.mp (hframes.trans (by simp [frames]))

theorem Traffic.mem_deliveries (h : Traffic peer start payloads run)
    (hsize : ∀ payload ∈ payloads, payload.length ≤ maxMessageSize) {d : UInt32 × Bytes} :
    d ∈ deliveries peer ∅ run ↔ d ∈ (messages start payloads).filter fun d => Whole d.2 := by
  rw [List.mem_filter, mem_messages, decide_eq_true_iff]
  constructor
  · intro hd
    obtain ⟨s, hs, hown⟩ := exists_own_of_mem_deliveries hd
    obtain ⟨k, hk, hid⟩ := h.only s hs d.1 hown
    have hget := List.getElem?_eq_getElem hk
    have hmem : d ∈ (deliveries peer ∅ run).filter fun d => d.1 = start + UInt32.ofNat k :=
      List.mem_filter.mpr ⟨hd, by simpa using hid⟩
    rw [h.filter_deliveries hget (hsize _ (List.getElem_mem hk))] at hmem
    split at hmem
    · rename_i hwhole
      obtain rfl := List.mem_singleton.mp hmem
      exact ⟨⟨k, hget, rfl⟩, hwhole⟩
    · cases hmem
  · rintro ⟨⟨k, hk, hid⟩, hwhole⟩
    have hmem : d ∈ (deliveries peer ∅ run).filter fun d => d.1 = start + UInt32.ofNat k := by
      rw [h.filter_deliveries hk (hsize _ (List.mem_of_getElem? hk)), if_pos hwhole, ← hid]
      exact List.mem_singleton_self d
    exact (List.mem_filter.mp hmem).1

/-- The completed messages, each with its id, are those that were sent and are not refused. -/
theorem Traffic.perm_deliveries (h : Traffic peer start payloads run)
    (hcount : payloads.length ≤ 2 ^ 32)
    (hsize : ∀ payload ∈ payloads, payload.length ≤ maxMessageSize) :
    (deliveries peer ∅ run).Perm ((messages start payloads).filter fun d => Whole d.2) := by
  have hnodup : (deliveries peer ∅ run).Nodup := by
    rw [List.nodup_iff_count_le_one]
    intro d
    by_cases hd : d ∈ deliveries peer ∅ run
    · obtain ⟨k, hk, hid⟩ := mem_messages.mp (List.mem_filter.mp ((h.mem_deliveries hsize).mp hd)).1
      -- a message is counted among those with its id
      rw [← List.count_filter (p := fun d => d.1 = start + UInt32.ofNat k) (by simpa using hid),
        h.filter_deliveries hk (hsize _ (List.mem_of_getElem? hk))]
      split
      · exact List.nodup_iff_count_le_one.mp (List.nodup_singleton _) d
      · simp
    · simp [List.count_eq_zero_of_not_mem hd]
  exact (List.perm_ext_iff_of_nodup hnodup ((nodup_messages hcount).filter _)).mpr
    fun d => h.mem_deliveries hsize

/-- Messages that are written by the one library are read by the other. -/
theorem filterMap_deserialize {wire wire' : WireLib} (hreads : wire.ReadBy wire')
    {sent : List (Frame × Bytes)} (hsent : ∀ x ∈ sent, wire.serialize x.1 = some x.2)
    (hsize : ∀ x ∈ sent, x.2.length ≤ maxMessageSize) (start : UInt32) :
    ((messages start (sent.map Prod.snd)).filter fun d => Whole d.2).filterMap
        (fun d => wire'.deserialize d.2) =
      (sent.filter fun x => Whole x.2).map Prod.fst := by
  have hsnd : (messages start (sent.map Prod.snd)).map Prod.snd = sent.map Prod.snd := by
    apply List.ext_getElem <;> simp [messages]
  calc ((messages start (sent.map Prod.snd)).filter fun d => Whole d.2).filterMap
          (fun d => wire'.deserialize d.2)
      = (((messages start (sent.map Prod.snd)).map Prod.snd).filter
          fun payload => Whole payload).filterMap wire'.deserialize := by
        rw [List.filter_map, List.filterMap_map]
        rfl
    _ = (sent.filter fun x => Whole x.2).filterMap fun x => wire'.deserialize x.2 := by
        rw [hsnd, List.filter_map, List.filterMap_map]
        rfl
    _ = (sent.filter fun x => Whole x.2).filterMap fun x => some x.1 := by
        refine List.filterMap_congr fun x hx => ?_
        have hmem := (List.mem_filter.mp hx).1
        exact hreads _ _ (hsent x hmem) (hsize x hmem)
    _ = (sent.filter fun x => Whole x.2).map Prod.fst := by
        rw [List.filterMap_eq_map']

/-- **Every frame is received exactly once**, if it is no longer than the whole chunks that fit
`MAX_MESSAGE_SIZE`, and not at all otherwise.  `sent` are up to `2 ^ 32` frames of one peer that
`send_frame` does not refuse, with the bytes they are written as; their datagrams arrive in
time, in any order and amid any other traffic. -/
theorem received_exactly_once {wire wire' : WireLib} (hreads : wire.ReadBy wire')
    {sent : List (Frame × Bytes)} (hsent : ∀ x ∈ sent, wire.serialize x.1 = some x.2)
    (hsize : ∀ x ∈ sent, x.2.length ≤ maxMessageSize) (hcount : sent.length ≤ 2 ^ 32)
    (h : Traffic peer start (sent.map Prod.snd) run) :
    (received wire' peer ∅ run).Perm ((sent.filter fun x => Whole x.2).map Prod.fst) := by
  have hsizes : ∀ payload ∈ sent.map Prod.snd, payload.length ≤ maxMessageSize := by
    simpa using fun payload frame => hsize (frame, payload)
  rw [received_eq_filterMap, ← filterMap_deserialize hreads hsent hsize start]
  exact (h.perm_deliveries (by simpa using hcount) hsizes).filterMap _

end Traffic

/-! Two responses whose datagrams arrive in the wrong order, the fragment counter wrapping in
between. -/

def responder : SocketAddr := ⟨"127.0.0.1", 5678⟩

def results : List (Frame × Bytes) :=
  [⟨7, false, .storeResult true⟩, ⟨8, false, .deleteResult false⟩].map fun frame =>
    (frame, Frame.codec.write frame)

def swappedResults : List ReceiveStep :=
  ((messages (UInt32.ofNat (2 ^ 32 - 1)) (results.map Prod.snd)).reverse.flatMap
    fun (fragId, payload) => (encodeFragments fragId payload).map (.datagram 0 responder)) ++ [.gc 0]

/-- The fragment id of a datagram. -/
def ReceiveStep.fragId? : ReceiveStep → Option UInt32
  | .datagram _ _ data => (parseFragment data).map fun parts => parts.1.fragId
  | .gc _ => none

theorem fragId_of_ownData {s : ReceiveStep} {peer : SocketAddr} {fragId : UInt32}
    (h : (s.ownData peer fragId).isSome) : s.fragId? = some fragId := by
  cases s with
  | gc now => simp [ReceiveStep.ownData] at h
  | datagram now sender data =>
      cases hp : parseFragment data with
      | none => simp [ReceiveStep.ownData, hp] at h
      | some parts =>
          simp only [ReceiveStep.ownData, hp, Option.isSome_ite, Prod.mk.injEq] at h
          simp [ReceiveStep.fragId?, hp, h.2]

theorem traffic_swappedResults :
    Traffic responder (UInt32.ofNat (2 ^ 32 - 1)) (results.map Prod.snd) swappedResults := by
  have hids : ∀ s ∈ swappedResults, s.fragId?.all fun id =>
      id = 0 ∨ id = UInt32.ofNat (2 ^ 32 - 1) := by decide +kernel
  constructor
  · intro k payload hk
    match k with
    | 0 =>
        cases hk
        exact ⟨by decide +kernel, by decide +kernel, by decide +kernel⟩
    | 1 =>
        cases hk
        exact ⟨by decide +kernel, by decide +kernel, by decide +kernel⟩
    | k + 2 => simp [results] at hk
  · intro s hs fragId hown
    have hid := hids s hs
    rw [fragId_of_ownData hown, Option.all_some, decide_eq_true_iff] at hid
    cases hid with
    | inl h => exact ⟨1, by decide, h⟩
    | inr h => exact ⟨0, by decide, h⟩

theorem received_exactly_once_swappedResults :
    (received Sample.bincode responder ∅ swappedResults).Perm
      [⟨7, false, .storeResult true⟩, ⟨8, false, .deleteResult false⟩] := by
  have hsent : ∀ x ∈ results, Sample.bincode.serialize x.1 = some x.2 := by decide +kernel
  exact received_exactly_once Sample.bincode_readBy hsent (by decide +kernel) (by decide)
    traffic_swappedResults

end AuthKademlia
