import AuthKademlia.Lib.AssocMap
import AuthKademlia.Fragmentation

/-!
# The receive path up to deserialization

`reassemble` is the part of `handle_datagram` that runs under the lock of the
reassembly map: it buffers a fragment, and when the message is complete it hands the
assembled bytes on.  After an incomplete fragment the handler releases the lock and
calls `gc_reassembly`.  Several workers handle datagrams at the same time, so between
the two other datagrams may be handled: a receiver's run is a list of `ReceiveStep`s,
in which the collections stand on their own.

The sender refuses a frame by its length, the receiver refuses a fragment by
`total * FRAG_CHUNK_SIZE`, which rounds the length up to whole chunks.
`delivered_iff_whole_chunks` says for which lengths the two agree.

## Main definitions

* `reassemble`, `gcReassembly` — the two critical sections of the receive path.
* `outcomes` — what a run of the receiver does with each datagram.
* `Arrival` — a run in which every datagram of one message arrives, in time.
* `Buffered` — the invariant of such a run.
-/

namespace AuthKademlia

open Lib

/-- A peer's socket address; the ip in its printed form. -/
structure SocketAddr where
  ip : String
  port : UInt16
  deriving DecidableEq

/-- Reassembly buffers keyed by peer and fragment id. -/
abbrev ReassemblyMap := AList fun _ : SocketAddr × UInt32 => ReassemblyEntry

/-- Why a datagram was dropped. -/
inductive Discard where
  | noHeader
  | oversized (total : UInt16)
  | inconsistentTotal (got expected : UInt16)
  | assemblyFailed
  deriving DecidableEq

/-- What `handle_datagram` does with a datagram: drop it, keep its chunk, or go on to
deserialize a complete frame. -/
inductive Received where
  | discarded (why : Discard)
  | incomplete
  | frame (payload : Bytes)
  deriving DecidableEq

/-- `handle_datagram` up to deserialization. -/
def reassemble (now : ℕ) (map : ReassemblyMap) (peer : SocketAddr) (data : Bytes) :
    Received × ReassemblyMap :=
  match parseFragment data with
  | none => (.discarded .noHeader, map)
  | some (header, chunk) =>
      if header.total = 1 then (.frame chunk, map)
      else if header.total.toNat * fragChunkSize > maxMessageSize then
        (.discarded (.oversized header.total), map)
      else
        let key := (peer, header.fragId)
        -- `entry(key).or_insert_with(..)`: the entry stays even if the total disagrees
        let entry := (map.lookup key).getD (.new header.total now)
        if entry.total ≠ header.total then
          (.discarded (.inconsistentTotal header.total entry.total), map.insert key entry)
        else
          let (complete, entry) := entry.insert header.index chunk
          if !complete then (.incomplete, map.insert key entry)
          else
            match entry.assemble with
            | some payload => (.frame payload, map.erase key)
            | none => (.discarded .assemblyFailed, map.erase key)

/-- Drop the buffers that are not younger than `REASSEMBLY_TTL`; `duration_since`
saturates at zero. -/
def gcReassembly (now : ℕ) (map : ReassemblyMap) : ReassemblyMap :=
  retain (fun _ entry => now - entry.createdAt < reassemblyTtl) map

/-! ## Runs of the receiver -/

/-- One critical section of the receive path, with the clock it reads. -/
inductive ReceiveStep where
  | datagram (now : ℕ) (peer : SocketAddr) (data : Bytes)
  | gc (now : ℕ)

def ReceiveStep.now : ReceiveStep → ℕ
  | .datagram now _ _ => now
  | .gc now => now

/-- The datagram of a step, if it is a fragment of message `fragId` of `peer`. -/
def ReceiveStep.ownData (peer : SocketAddr) (fragId : UInt32) : ReceiveStep → Option Bytes
  | .datagram _ sender data =>
      match parseFragment data with
      | some (header, _) => if (sender, header.fragId) = (peer, fragId) then some data else none
      | none => none
  | .gc _ => none

def ReceiveStep.apply (map : ReassemblyMap) : ReceiveStep → ReassemblyMap
  | .datagram now peer data => (reassemble now map peer data).2
  | .gc now => gcReassembly now map

/-- What the receiver did with the fragments of message `fragId` of `peer`, in order of
arrival. -/
def outcomes (peer : SocketAddr) (fragId : UInt32) (map : ReassemblyMap) :
    List ReceiveStep → List Received
  | [] => []
  | s :: run =>
      let rest := outcomes peer fragId (s.apply map) run
      match s with
      | .datagram now sender data =>
          if (s.ownData peer fragId).isSome then (reassemble now map sender data).1 :: rest
          else rest
      | .gc _ => rest

/-- The bytes a list of outcomes hands to deserialization. -/
def frames (os : List Received) : List Bytes :=
  os.filterMap fun
    | .frame payload => some payload
    | _ => none

/-- A run in which the fragments of message `fragId` of `peer` are exactly the datagrams
of `payload`, in any order and among any other traffic, the last less than
`REASSEMBLY_TTL` after the first.  A collection reads the clock before it gets the lock,
so its reading may be an old one; no step has one from after a fragment that follows. -/
structure Arrival (peer : SocketAddr) (fragId : UInt32) (payload : Bytes)
    (run : List ReceiveStep) : Prop where
  clock : run.Pairwise fun s s' => (s'.ownData peer fragId).isSome → s.now ≤ s'.now
  all : (run.filterMap (ReceiveStep.ownData peer fragId)).Perm (encodeFragments fragId payload)
  inTime : ∀ s ∈ run, ∀ s' ∈ run, (s.ownData peer fragId).isSome →
    (s'.ownData peer fragId).isSome → s'.now < s.now + reassemblyTtl

/-! ## One step -/

section Step

variable {peer : SocketAddr} {fragId : UInt32} {map : ReassemblyMap} {s : ReceiveStep}
  {run : List ReceiveStep} {data : Bytes}

theorem ownData_eq_some (h : s.ownData peer fragId = some data) :
    ∃ now, s = .datagram now peer data := by
  cases s with
  | gc now => simp [ReceiveStep.ownData] at h
  | datagram now sender d =>
      simp only [ReceiveStep.ownData] at h
      split at h
      · split at h
        · rename_i heq
          obtain ⟨rfl, -⟩ := Prod.mk.inj heq
          obtain rfl := Option.some.inj h
          exact ⟨now, rfl⟩
        · cases h
      · cases h

theorem outcomes_cons_own {now : ℕ}
    (h : (ReceiveStep.datagram now peer data).ownData peer fragId = some data) :
    outcomes peer fragId map (.datagram now peer data :: run) =
      (reassemble now map peer data).1 ::
        outcomes peer fragId (reassemble now map peer data).2 run := by
  simp [outcomes, ReceiveStep.apply, h]

theorem outcomes_cons_foreign (h : s.ownData peer fragId = none) :
    outcomes peer fragId map (s :: run) = outcomes peer fragId (s.apply map) run := by
  cases s <;> simp [outcomes, h]

/-- A datagram touches only the buffer of its own message. -/
theorem lookup_reassemble_ne (now : ℕ) (map : ReassemblyMap) (sender : SocketAddr) (data : Bytes)
    {key : SocketAddr × UInt32}
    (h : ∀ header chunk, parseFragment data = some (header, chunk) →
      (sender, header.fragId) ≠ key) :
    (reassemble now map sender data).2.lookup key = map.lookup key := by
  cases hp : parseFragment data with
  | none => simp [reassemble, hp]
  | some parts =>
      obtain ⟨header, chunk⟩ := parts
      have hne := (h header chunk hp).symm
      simp only [reassemble, hp]
      split
      · rfl
      · split
        · rfl
        · split
          · exact AList.lookup_insert_ne hne
          · split
            · exact AList.lookup_insert_ne hne
            · split
              · exact AList.lookup_erase_ne hne
              · exact AList.lookup_erase_ne hne

/-- A collection keeps the buffers that are young enough. -/
theorem lookup_gc_eq_some {now : ℕ} {key : SocketAddr × UInt32} {entry : ReassemblyEntry} :
    ((ReceiveStep.gc now).apply map).lookup key = some entry ↔
      map.lookup key = some entry ∧ now - entry.createdAt < reassemblyTtl := by
  rw [ReceiveStep.apply, gcReassembly, lookup_retain, Option.filter_eq_some_iff,
    decide_eq_true_iff]

/-- Other traffic keeps the buffer, and so does a collection that comes in time. -/
theorem lookup_apply_foreign (h : s.ownData peer fragId = none)
    (hold : ∀ entry ∈ map.lookup (peer, fragId), s.now - entry.createdAt < reassemblyTtl) :
    (s.apply map).lookup (peer, fragId) = map.lookup (peer, fragId) := by
  cases s with
  | gc now =>
      ext entry
      rw [lookup_gc_eq_some]
      exact and_iff_left_of_imp (hold entry)
  | datagram now sender data =>
      apply lookup_reassemble_ne
      intro header chunk hp heq
      simp [ReceiveStep.ownData, hp, heq] at h

variable {payload : Bytes} {is : List ℕ} {i : ℕ}

/-- The count of a message in parts is not taken for a single fragment. -/
theorem ofNat_fragCount_ne_one (h : payload.length ≤ maxMessageSize)
    (hmany : 1 < fragCount payload) : UInt16.ofNat (fragCount payload) ≠ 1 := by
  intro heq
  have htotal := toNat_ofNat_of_lt (fragCount_lt h)
  rw [heq] at htotal
  exact absurd htotal.symm hmany.ne'

/-- **One fragment of a message the receiver accepts**: the buffer takes the chunk, and
the last one turns it into the payload. -/
theorem reassemble_datagram (h : payload.length ≤ maxMessageSize) (hmany : 1 < fragCount payload)
    (hfit : fragCount payload * fragChunkSize ≤ maxMessageSize) (hi : i < fragCount payload)
    (now createdAt : ℕ)
    (hentry : (map.lookup (peer, fragId)).getD (.new (UInt16.ofNat (fragCount payload)) now) =
      .filled payload is createdAt) :
    reassemble now map peer (datagram fragId payload i) =
      if ∀ j < fragCount payload, j ∈ is ++ [i] then (.frame payload, map.erase (peer, fragId))
      else (.incomplete,
        map.insert (peer, fragId) (.filled payload (is ++ [i]) createdAt)) := by
  have htotal := toNat_ofNat_of_lt (fragCount_lt h)
  have hone := ofNat_fragCount_ne_one h hmany
  have hsize : ¬(UInt16.ofNat (fragCount payload)).toNat * fragChunkSize > maxMessageSize := by
    rw [htotal]; omega
  have hsame : (ReassemblyEntry.filled payload is createdAt).total =
      UInt16.ofNat (fragCount payload) := rfl
  simp only [reassemble, parseFragment_datagram h fragId hi, if_neg hone, if_neg hsize, hentry,
    hsame, ne_eq, not_true_eq_false, if_false, ReassemblyEntry.insert_filled h hi]
  by_cases hfull : ∀ j < fragCount payload, j ∈ is ++ [i]
  · simp only [if_pos hfull, decide_eq_true hfull, Bool.not_true, Bool.false_eq_true, if_false,
      ReassemblyEntry.assemble_filled hfull]
  · simp only [if_neg hfull, decide_eq_false hfull, Bool.not_false, if_true]

/-- A single fragment goes straight on. -/
theorem reassemble_single (h : payload.length ≤ maxMessageSize) (hone : fragCount payload = 1)
    (now : ℕ) : reassemble now map peer (datagram fragId payload 0) = (.frame payload, map) := by
  have hchunk : chunkAt fragChunkSize payload 0 = payload := by
    have hall := flatMap_chunkAt_payload payload
    rwa [hone, List.range_one, List.flatMap_singleton] at hall
  have htotal : UInt16.ofNat 1 = 1 := rfl
  simp only [reassemble, parseFragment_datagram h fragId (i := 0) (by omega), hone, htotal,
    if_true, hchunk]

/-- The projection rounds the length up, and the receiver refuses what exceeds its
limit then. -/
theorem reassemble_oversized (h : payload.length ≤ maxMessageSize)
    (hbig : maxMessageSize < fragCount payload * fragChunkSize) (hi : i < fragCount payload)
    (now : ℕ) :
    (reassemble now map peer (datagram fragId payload i)).1 =
      .discarded (.oversized (UInt16.ofNat (fragCount payload))) := by
  have htotal := toNat_ofNat_of_lt (fragCount_lt h)
  have hmany : 1 < fragCount payload := by
    simp only [maxMessageSize, fragChunkSize] at hbig
    omega
  have hone := ofNat_fragCount_ne_one h hmany
  have hsize : (UInt16.ofNat (fragCount payload)).toNat * fragChunkSize > maxMessageSize := by
    rw [htotal]; omega
  simp only [reassemble, parseFragment_datagram h fragId hi, if_neg hone, if_pos hsize]

end Step

/-! ## Whole runs -/

section Run

variable {peer : SocketAddr} {fragId : UInt32} {payload : Bytes}

/-- Outcomes that depend on nothing but the datagram. -/
theorem outcomes_eq_map (f : Bytes → Received) {map : ReassemblyMap} {run : List ReceiveStep}
    (hf : ∀ data ∈ run.filterMap (ReceiveStep.ownData peer fragId), ∀ now map,
      (reassemble now map peer data).1 = f data) :
    outcomes peer fragId map run =
      (run.filterMap (ReceiveStep.ownData peer fragId)).map f := by
  induction run generalizing map with
  | nil => rfl
  | cons s run ih =>
      cases hs : s.ownData peer fragId with
      | none =>
          rw [List.filterMap_cons_none hs] at hf ⊢
          rw [outcomes_cons_foreign hs, ih hf]
      | some data =>
          obtain ⟨now, rfl⟩ := ownData_eq_some hs
          rw [List.filterMap_cons_some hs] at hf ⊢
          rw [outcomes_cons_own hs, List.map_cons, hf data (by simp) now map,
            ih fun d hd => hf d (by simp [hd])]

/-- In the middle of a message: the chunks `is` are buffered since `createdAt`, and the
rest of the run brings the chunks `js`, each in time. -/
structure Buffered (peer : SocketAddr) (fragId : UInt32) (payload : Bytes) (map : ReassemblyMap)
    (run : List ReceiveStep) (is js : List ℕ) (createdAt : ℕ) : Prop where
  data : run.filterMap (ReceiveStep.ownData peer fragId) = js.map (datagram fragId payload)
  all : ∀ j, j ∈ is ++ js ↔ j < fragCount payload
  nodup : (is ++ js).Nodup
  buffer : map.lookup (peer, fragId) =
    if is = [] then none else some (.filled payload is createdAt)
  clock : run.Pairwise fun s s' => (s'.ownData peer fragId).isSome → s.now ≤ s'.now
  span : ∀ s ∈ run, ∀ s' ∈ run, (s.ownData peer fragId).isSome →
    (s'.ownData peer fragId).isSome → s'.now < s.now + reassemblyTtl
  inTime : is ≠ [] → ∀ s ∈ run, (s.ownData peer fragId).isSome → s.now < createdAt + reassemblyTtl

namespace Buffered

variable {map : ReassemblyMap} {run : List ReceiveStep} {s : ReceiveStep} {is js : List ℕ}
  {j createdAt now : ℕ}

/-- **A foreign step** leaves the buffer alone: a fragment is still to come, so a
collection in between does not find it too old. -/
theorem foreign (h : Buffered peer fragId payload map (s :: run) is js createdAt) (hjs : js ≠ [])
    (hs : s.ownData peer fragId = none) :
    Buffered peer fragId payload (s.apply map) run is js createdAt := by
  obtain ⟨hle, hclock⟩ := List.pairwise_cons.mp h.clock
  have hdata := h.data
  rw [List.filterMap_cons_none hs] at hdata
  have hkept : (s.apply map).lookup (peer, fragId) = map.lookup (peer, fragId) := by
    apply lookup_apply_foreign hs
    intro entry hentry
    rw [h.buffer] at hentry
    split at hentry
    · cases hentry
    · rename_i his
      obtain rfl : ReassemblyEntry.filled payload is createdAt = entry := by simpa using hentry
      obtain ⟨j, js', rfl⟩ := List.exists_cons_of_ne_nil hjs
      have hmem : datagram fragId payload j ∈
          run.filterMap (ReceiveStep.ownData peer fragId) := by simp [hdata]
      obtain ⟨r, hr, hown⟩ := List.mem_filterMap.mp hmem
      have h1 := h.inTime his r (by simp [hr]) (by simp [hown])
      have h2 := hle r hr (by simp [hown])
      have hpos : 0 < reassemblyTtl := by decide
      simp only [ReassemblyEntry.filled]
      omega
  exact ⟨hdata, h.all, h.nodup, hkept.trans h.buffer, hclock,
    fun r hr r' hr' => h.span r (by simp [hr]) r' (by simp [hr']),
    fun his r hr => h.inTime his r (by simp [hr])⟩

/-- The entry the next fragment is inserted into, and that the rest is in time for it. -/
theorem exists_entry (hsize : payload.length ≤ maxMessageSize)
    (h : Buffered peer fragId payload map (s :: run) is js createdAt)
    (hs : (s.ownData peer fragId).isSome) :
    ∃ t, (map.lookup (peer, fragId)).getD (.new (UInt16.ofNat (fragCount payload)) s.now) =
        .filled payload is t ∧
      ∀ r ∈ run, (r.ownData peer fragId).isSome → r.now < t + reassemblyTtl := by
  by_cases his : is = []
  · refine ⟨s.now, ?_, fun r hr hown => h.span s List.mem_cons_self r
      (List.mem_cons_of_mem _ hr) hs hown⟩
    rw [h.buffer, if_pos his, his, Option.getD_none, ReassemblyEntry.new_eq_filled hsize]
  · refine ⟨createdAt, ?_, fun r hr hown => h.inTime his r (by simp [hr]) hown⟩
    rw [h.buffer, if_neg his, Option.getD_some]

/-- **A fragment of the message** joins the buffer, wherever the buffer is after it. -/
theorem own (h : Buffered peer fragId payload map (s :: run) is (j :: js) createdAt)
    (hs : (s.ownData peer fragId).isSome) {map' : ReassemblyMap} {t : ℕ}
    (hbuffer : map'.lookup (peer, fragId) = some (.filled payload (is ++ [j]) t))
    (ht : ∀ r ∈ run, (r.ownData peer fragId).isSome → r.now < t + reassemblyTtl) :
    Buffered peer fragId payload map' run (is ++ [j]) js t := by
  have hassoc : is ++ j :: js = (is ++ [j]) ++ js := by simp
  obtain ⟨data, hdata⟩ := Option.isSome_iff_exists.mp hs
  have htail := h.data
  rw [List.filterMap_cons_some hdata] at htail
  exact ⟨(List.cons.inj htail).2, hassoc ▸ h.all, hassoc ▸ h.nodup, by simpa using hbuffer,
    (List.pairwise_cons.mp h.clock).2,
    fun r hr r' hr' => h.span r (by simp [hr]) r' (by simp [hr']), fun _ => ht⟩

/-- The buffer is complete exactly when no fragment is to come. -/
theorem full_iff (h : Buffered peer fragId payload map run is (j :: js) createdAt) :
    (∀ k < fragCount payload, k ∈ is ++ [j]) ↔ js = [] := by
  have hnodup := h.nodup
  have hassoc : is ++ j :: js = (is ++ [j]) ++ js := by simp
  rw [hassoc] at hnodup
  constructor
  · intro hfull
    rw [List.eq_nil_iff_forall_not_mem]
    intro k hk
    have hlt : k < fragCount payload := (h.all k).mp (by simp [hk])
    exact List.disjoint_of_nodup_append hnodup (hfull k hlt) hk
  · rintro rfl k hk
    exact (h.all k).mpr hk

end Buffered

/-- **A run of the receiver on one message**: everything but the last of the fragments
to come is kept and the last yields the payload. -/
theorem outcomes_of_buffered (h : payload.length ≤ maxMessageSize)
    (hmany : 1 < fragCount payload) (hfit : fragCount payload * fragChunkSize ≤ maxMessageSize)
    {run : List ReceiveStep} {map : ReassemblyMap} {is js : List ℕ} {createdAt : ℕ}
    (hbuf : Buffered peer fragId payload map run is js createdAt) (hjs : js ≠ []) :
    outcomes peer fragId map run =
      List.replicate (js.length - 1) .incomplete ++ [.frame payload] := by
  induction run generalizing map is js createdAt with
  | nil => exact absurd (List.map_eq_nil_iff.mp hbuf.data.symm) hjs
  | cons s run ih =>
      cases hs : s.ownData peer fragId with
      | none =>
          rw [outcomes_cons_foreign hs]
          exact ih (hbuf.foreign hjs hs) hjs
      | some data =>
          obtain ⟨now, rfl⟩ := ownData_eq_some hs
          obtain ⟨j, js', rfl⟩ := List.exists_cons_of_ne_nil hjs
          have hown : ((ReceiveStep.datagram now peer data).ownData peer fragId).isSome := by
            simp [hs]
          obtain ⟨t, ht, hlater⟩ := hbuf.exists_entry h hown
          have hdata := hbuf.data
          rw [List.filterMap_cons_some hs] at hdata
          obtain ⟨rfl, hrest⟩ := List.cons.inj hdata
          have hj : j < fragCount payload := (hbuf.all j).mp (by simp)
          rw [outcomes_cons_own hs, reassemble_datagram h hmany hfit hj now t ht]
          by_cases hlast : js' = []
          · -- the message is complete and nothing of it follows
            subst hlast
            rw [if_pos (hbuf.full_iff.mpr rfl),
              outcomes_eq_map (fun _ => .incomplete) (by simp [hrest])]
            simp [hrest]
          · rw [if_neg (mt hbuf.full_iff.mp hlast),
              ih (hbuf.own hown (AList.lookup_insert _) hlater) hlast]
            obtain ⟨k, js'', rfl⟩ := List.exists_cons_of_ne_nil hlast
            simp [List.replicate_succ]

/-- The fragments of an arrival are the datagrams of the payload, each index once. -/
theorem Arrival.exists_order {run : List ReceiveStep} (h : payload.length ≤ maxMessageSize)
    (harr : Arrival peer fragId payload run) :
    ∃ js : List ℕ, run.filterMap (ReceiveStep.ownData peer fragId) =
        js.map (datagram fragId payload) ∧
      (∀ j, j ∈ js ↔ j < fragCount payload) ∧ js.Nodup := by
  obtain ⟨js, hjs, hdata⟩ := exists_indices fun d hd => harr.all.mem_iff.mp hd
  have hmem : ∀ j < fragCount payload, j ∈ js :=
    (forall_mem_encodeFragments_iff h fragId hjs).mp fun x hx => by
      rw [hdata]; exact harr.all.mem_iff.mpr hx
  have hnodup : (js.map (datagram fragId payload)).Nodup := by
    rw [hdata, harr.all.nodup_iff, encodeFragments_eq]
    exact List.nodup_range.map_on fun i hi j hj heq =>
      datagram_inj h (List.mem_range.mp hi) (List.mem_range.mp hj) heq
  exact ⟨js, hdata.symm, fun j => ⟨hjs j, hmem j⟩, hnodup.of_map⟩

/-- A message whose projection stays within the limit is delivered. -/
theorem Arrival.outcomes_eq {run : List ReceiveStep} (h : payload.length ≤ maxMessageSize)
    (hfit : fragCount payload * fragChunkSize ≤ maxMessageSize)
    (harr : Arrival peer fragId payload run) :
    outcomes peer fragId ∅ run =
      List.replicate (fragCount payload - 1) .incomplete ++ [.frame payload] := by
  obtain ⟨js, hdata, hjs, hnodup⟩ := harr.exists_order h
  have hpos := fragCount_pos payload
  have hlen : js.length = fragCount payload := by
    have hperm : js.Perm (List.range (fragCount payload)) :=
      (List.perm_ext_iff_of_nodup hnodup List.nodup_range).mpr fun j => by
        rw [hjs, List.mem_range]
    simpa using hperm.length_eq
  by_cases hone : fragCount payload = 1
  · obtain ⟨j, rfl⟩ := List.length_eq_one_iff.mp (hlen.trans hone)
    obtain rfl : j = 0 := by have := (hjs j).mp (by simp); omega
    rw [outcomes_eq_map (fun _ => .frame payload), hdata, hone]
    · rfl
    · intro data hmem now map
      obtain rfl : data = datagram fragId payload 0 := by simpa [hdata] using hmem
      rw [reassemble_single h hone]
  · rw [← hlen]
    have hne : js ≠ [] := by rintro rfl; simp at hlen; omega
    have hbuf : Buffered peer fragId payload ∅ run [] js 0 :=
      ⟨hdata, by simpa using hjs, by simpa using hnodup, rfl, harr.clock, harr.inTime, by simp⟩
    exact outcomes_of_buffered h (by omega) hfit hbuf hne

/-- A message whose projection exceeds the limit is refused, fragment by fragment. -/
theorem Arrival.outcomes_oversized {run : List ReceiveStep} (h : payload.length ≤ maxMessageSize)
    (hbig : maxMessageSize < fragCount payload * fragChunkSize)
    (harr : Arrival peer fragId payload run) :
    outcomes peer fragId ∅ run = List.replicate (fragCount payload)
      (.discarded (.oversized (UInt16.ofNat (fragCount payload)))) := by
  have hlen : (run.filterMap (ReceiveStep.ownData peer fragId)).length = fragCount payload := by
    rw [harr.all.length_eq, encodeFragments_eq, List.length_map, List.length_range]
  rw [outcomes_eq_map
      (fun _ => .discarded (.oversized (UInt16.ofNat (fragCount payload)))), List.map_const', hlen]
  intro data hmem now map
  have hmem := harr.all.mem_iff.mp hmem
  rw [encodeFragments_eq] at hmem
  obtain ⟨i, hi, rfl⟩ := List.mem_map.mp hmem
  exact reassemble_oversized h hbig (List.mem_range.mp hi) now

/-- The projection stays within the limit exactly for the lengths up to the largest
multiple of the chunk size within it. -/
theorem projection_le_iff (payload : Bytes) :
    fragCount payload * fragChunkSize ≤ maxMessageSize ↔
      payload.length ≤ maxMessageSize / fragChunkSize * fragChunkSize := by
  simp only [fragCount, fragChunkSize, maxMessageSize]
  omega

/-- **Sender and receiver agree up to the last whole chunk.**  When every datagram of a
frame the sender accepts arrives in time, no fragment is refused as oversized and
exactly the frame's bytes go on to deserialization if and only if the frame is no longer
than `MAX_MESSAGE_SIZE` rounded down to whole chunks. -/
theorem delivered_iff_whole_chunks {run : List ReceiveStep}
    (h : payload.length ≤ maxMessageSize) (harr : Arrival peer fragId payload run) :
    ((∀ total, .discarded (.oversized total) ∉ outcomes peer fragId ∅ run) ∧
        frames (outcomes peer fragId ∅ run) = [payload]) ↔
      payload.length ≤ maxMessageSize / fragChunkSize * fragChunkSize := by
  rw [← projection_le_iff]
  constructor
  · rintro ⟨hnone, -⟩
    by_contra hbig
    apply hnone (UInt16.ofNat (fragCount payload))
    rw [harr.outcomes_oversized h (by omega)]
    exact List.mem_replicate.mpr ⟨(fragCount_pos payload).ne', rfl⟩
  · intro hfit
    rw [harr.outcomes_eq h hfit]
    constructor
    · intro total hmem
      simp [List.mem_replicate] at hmem
    · simp [frames, List.filterMap_append]

end Run

/-! ## The limit at work -/

theorem ownData_datagram {payload : Bytes} (h : payload.length ≤ maxMessageSize)
    (peer : SocketAddr) (fragId : UInt32) (now : ℕ) {i : ℕ} (hi : i < fragCount payload) :
    (ReceiveStep.datagram now peer (datagram fragId payload i)).ownData peer fragId =
      some (datagram fragId payload i) := by
  simp [ReceiveStep.ownData, parseFragment_datagram h fragId hi]

/-- The datagrams of a payload handled one after the other, all at one time. -/
def burst (now : ℕ) (peer : SocketAddr) (fragId : UInt32) (payload : Bytes) : List ReceiveStep :=
  (encodeFragments fragId payload).map (.datagram now peer)

theorem arrival_burst {payload : Bytes} (h : payload.length ≤ maxMessageSize) (now : ℕ)
    (peer : SocketAddr) (fragId : UInt32) :
    Arrival peer fragId payload (burst now peer fragId payload) := by
  have hnow : ∀ s ∈ burst now peer fragId payload, s.now = now := by
    intro s hs
    obtain ⟨d, -, rfl⟩ := List.mem_map.mp hs
    rfl
  refine ⟨?_, ?_, ?_⟩
  · refine List.pairwise_of_forall_mem_list fun s hs s' hs' _ => ?_
    rw [hnow s hs, hnow s' hs']
  · have hdata : (burst now peer fragId payload).filterMap (ReceiveStep.ownData peer fragId) =
        encodeFragments fragId payload := by
      rw [burst, encodeFragments_eq, List.map_map, List.filterMap_map, ← List.filterMap_eq_map']
      apply List.filterMap_congr
      intro i hi
      simp only [Function.comp_apply, ownData_datagram h peer fragId now (List.mem_range.mp hi)]
    rw [hdata]
  · intro s hs s' hs' _ _
    rw [hnow s hs, hnow s' hs']
    exact Nat.lt_add_of_pos_right (by decide)

/-- A frame of exactly `MAX_MESSAGE_SIZE` bytes is sent as 188 fragments, and the receiver
refuses every one of them. -/
theorem full_size_frame_refused :
    (List.replicate 262144 (0 : UInt8)).length ≤ maxMessageSize ∧
    Arrival ⟨"127.0.0.1", 5678⟩ 0 (List.replicate 262144 0)
      (burst 0 ⟨"127.0.0.1", 5678⟩ 0 (List.replicate 262144 0)) ∧
    outcomes ⟨"127.0.0.1", 5678⟩ 0 ∅ (burst 0 ⟨"127.0.0.1", 5678⟩ 0 (List.replicate 262144 0)) =
      List.replicate 188 (.discarded (.oversized 188)) ∧
    frames (outcomes ⟨"127.0.0.1", 5678⟩ 0 ∅
      (burst 0 ⟨"127.0.0.1", 5678⟩ 0 (List.replicate 262144 0))) = [] := by
  have hlen : (List.replicate 262144 (0 : UInt8)).length ≤ maxMessageSize := by
    rw [List.length_replicate]; decide
  have hcount : fragCount (List.replicate 262144 (0 : UInt8)) = 188 := by
    rw [fragCount, List.length_replicate]; decide
  have harr := arrival_burst hlen 0 ⟨"127.0.0.1", 5678⟩ 0
  have hout := harr.outcomes_oversized hlen (by rw [hcount]; decide)
  rw [hcount] at hout
  exact ⟨hlen, harr, hout, by rw [hout]; rfl⟩

/-- A frame of 187 whole chunks is delivered. -/
theorem delivered_at_whole_chunks :
    Arrival ⟨"127.0.0.1", 5678⟩ 0 (List.replicate 261800 0)
      (burst 0 ⟨"127.0.0.1", 5678⟩ 0 (List.replicate 261800 0)) ∧
    frames (outcomes ⟨"127.0.0.1", 5678⟩ 0 ∅
      (burst 0 ⟨"127.0.0.1", 5678⟩ 0 (List.replicate 261800 0))) = [List.replicate 261800 0] := by
  have hlen : (List.replicate 261800 (0 : UInt8)).length ≤ maxMessageSize := by
    rw [List.length_replicate]; decide
  have harr := arrival_burst hlen 0 ⟨"127.0.0.1", 5678⟩ 0
  have hwhole : (List.replicate 261800 (0 : UInt8)).length ≤
      maxMessageSize / fragChunkSize * fragChunkSize := by
    rw [List.length_replicate]; decide
  exact ⟨harr, ((delivered_iff_whole_chunks hlen harr).mpr hwhole).2⟩

end AuthKademlia
