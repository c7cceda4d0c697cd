import AuthKademlia.Lib.Execution
import AuthKademlia.Reassembly

/-!
# The reassembly map over whole runs

`reassembleInPlace` is the critical section of `handle_datagram` with the map operations
in the order the source makes them: the entry is created and changed inside the map, and
a complete message looks it up again with `remove`, whose `expect` may panic.  It computes
what `reassemble` computes (`reassembleInPlace_eq`).

A run is any list of critical sections: datagrams with arbitrary bytes, and collections
at any time and with any reading of the clock.  This includes the runs in which each
incomplete fragment is followed by its own collection.

## Main definitions

* `ReassemblyEntry.InProgress` — what every buffered entry satisfies between two steps.
* `ReassemblyEntry.GrowsTo` — slots are filled and never overwritten.
* `receiveStep` — one critical section, `none` if it panics.
-/

namespace AuthKademlia

open Lib

/-- `handle_datagram` up to deserialization; `none` is a failed `expect`. -/
def reassembleInPlace (now : ℕ) (map : ReassemblyMap) (peer : SocketAddr) (data : Bytes) :
    Option (Received × ReassemblyMap) :=
  match parseFragment data with
  | none => some (.discarded .noHeader, map)
  | some (header, chunk) =>
      if header.total = 1 then some (.frame chunk, map)
      else if header.total.toNat * fragChunkSize > maxMessageSize then
        some (.discarded (.oversized header.total), map)
      else
        let key := (peer, header.fragId)
        -- `entry(key).or_insert_with(..)`
        let entry := (map.lookup key).getD (.new header.total now)
        let map := map.insert key entry
        if entry.total ≠ header.total then
          some (.discarded (.inconsistentTotal header.total entry.total), map)
        else
          let (complete, entry) := entry.insert header.index chunk
          let map := map.insert key entry
          if !complete then some (.incomplete, map)
          else
            match map.extract key with
            | (none, _) => none
            | (some entry, map) =>
                match entry.assemble with
                | some payload => some (.frame payload, map)
                | none => some (.discarded .assemblyFailed, map)

/-- Removing a key undoes what was inserted under it. -/
theorem erase_insert (map : ReassemblyMap) (key : SocketAddr × UInt32) (entry : ReassemblyEntry) :
    (map.insert key entry).erase key = map.erase key :=
  AList.ext (List.kerase_cons_eq rfl)

/-- **The entry is there when it is removed**, and the two descriptions agree. -/
theorem reassembleInPlace_eq (now : ℕ) (map : ReassemblyMap) (peer : SocketAddr) (data : Bytes) :
    reassembleInPlace now map peer data = some (reassemble now map peer data) := by
  unfold reassembleInPlace reassemble
  cases parseFragment data with
  | none => rfl
  | some parts =>
      simp only [AList.insert_insert, AList.extract_eq_lookup_erase, AList.lookup_insert,
        erase_insert]
      split
      · rfl
      · split
        · rfl
        · split
          · rfl
          · split
            · rfl
            · cases ReassemblyEntry.assemble _ <;> rfl

/-! ## One entry -/

namespace ReassemblyEntry

/-- A buffer between two steps: a slot for each fragment of a message the receiver
accepts, and a counter of the filled ones that has not reached the end. -/
structure InProgress (e : ReassemblyEntry) : Prop where
  many : 2 ≤ e.total.toNat
  slots : e.chunks.length = e.total.toNat
  bounded : e.total.toNat * fragChunkSize ≤ maxMessageSize
  counted : e.received.toNat = e.chunks.countP Option.isSome
  unfinished : e.received < e.total

/-- Every filled slot keeps its chunk. -/
structure GrowsTo (e e' : ReassemblyEntry) : Prop where
  total : e'.total = e.total
  createdAt : e'.createdAt = e.createdAt
  chunks : ∀ (i : ℕ) (c : Bytes), e.chunks[i]? = some (some c) → e'.chunks[i]? = some (some c)

theorem GrowsTo.refl (e : ReassemblyEntry) : e.GrowsTo e := ⟨rfl, rfl, fun _ _ h => h⟩

theorem inProgress_new {total : UInt16} (hone : 2 ≤ total.toNat)
    (hsize : total.toNat * fragChunkSize ≤ maxMessageSize) (now : ℕ) :
    (new total now).InProgress where
  many := hone
  slots := by simp [new]
  bounded := hsize
  counted := by simp [new, List.countP_replicate]
  unfinished := by
    rw [UInt16.lt_iff_toNat_lt]
    simp only [new, UInt16.toNat_zero]
    omega

/-- A loop over filled slots reaches its end. -/
theorem isSome_assembleFrom {cs : List (Option Bytes)} (h : ∀ c ∈ cs, c.isSome) (out : Bytes) :
    (assembleFrom out cs).isSome := by
  induction cs generalizing out with
  | nil => rfl
  | cons c cs ih =>
      cases c with
      | none => exact absurd (h none List.mem_cons_self) (by simp)
      | some c => exact ih (fun d hd => h d (List.mem_cons_of_mem _ hd)) _

variable {e : ReassemblyEntry} {index : UInt16} {chunk : Bytes}

theorem growsTo_insert (e : ReassemblyEntry) (index : UInt16) (chunk : Bytes) :
    e.GrowsTo (e.insert index chunk).2 := by
  unfold insert
  split
  · exact GrowsTo.refl e
  · rename_i slot hslot
    by_cases hfree : slot.isNone
    · simp only [hfree, if_true]
      refine ⟨rfl, rfl, fun i c hc => ?_⟩
      have hne : index.toNat ≠ i := by
        rintro rfl
        rw [hslot, Option.some.injEq] at hc
        simp [hc] at hfree
      rw [List.getElem?_set_ne hne]
      exact hc
    · simp only [hfree]
      exact GrowsTo.refl e

/-- **One insertion into a buffer in progress**: it stays in progress, or every slot is
filled and the message can be assembled. -/
theorem InProgress.insert (h : e.InProgress) (hi : index.toNat < e.total.toNat) :
    ((e.insert index chunk).1 = false ∧ (e.insert index chunk).2.InProgress) ∨
      ((e.insert index chunk).1 = true ∧ (e.insert index chunk).2.assemble.isSome) := by
  have hlen : index.toNat < e.chunks.length := h.slots ▸ hi
  have hun := UInt16.lt_iff_toNat_lt.mp h.unfinished
  have hslot := List.getElem?_eq_getElem hlen
  cases hc : e.chunks[index.toNat] with
  | some c =>
      -- a duplicate changes nothing, and the counter is below the total
      left
      rw [hc] at hslot
      simp only [ReassemblyEntry.insert, hslot, Option.isNone_some, Bool.false_eq_true, if_false]
      exact ⟨by simpa using UInt16.ne_of_lt h.unfinished, h⟩
  | none =>
      rw [hc] at hslot
      have hcount : (e.chunks.set index.toNat (some chunk)).countP Option.isSome =
          e.chunks.countP Option.isSome + 1 := by
        rw [List.countP_set hlen, hc]
        simp
      have hsucc : (e.received + 1).toNat = e.received.toNat + 1 := by
        rw [UInt16.toNat_add]
        have := e.total.toNat_lt
        simp only [UInt16.toNat_one]
        omega
      simp only [ReassemblyEntry.insert, hslot, Option.isNone_none, if_true]
      by_cases hlast : e.received + 1 = e.total
      · right
        refine ⟨by simpa using hlast, isSome_assembleFrom ?_ []⟩
        apply List.countP_eq_length.mp
        rw [hcount, List.length_set, h.slots, ← h.counted, ← hsucc, hlast]
      · left
        refine ⟨by simpa using hlast, ⟨h.many, ?_, h.bounded, ?_, ?_⟩⟩
        · rw [List.length_set, h.slots]
        · rw [hsucc, hcount, h.counted]
        · have hne : (e.received + 1).toNat ≠ e.total.toNat := fun heq =>
            hlast (UInt16.toNat_inj.mp heq)
          have hlt : (e.received + 1).toNat < e.total.toNat := by omega
          exact UInt16.lt_iff_toNat_lt.mpr hlt

end ReassemblyEntry

/-! ## One critical section -/

/-- Every buffer is in progress. -/
def ReassemblyMap.InProgress (map : ReassemblyMap) : Prop :=
  ∀ key, ∀ entry ∈ map.lookup key, entry.InProgress

/-- One critical section; `none` if it panics. -/
def receiveStep (map : ReassemblyMap) : ReceiveStep → Option ReassemblyMap
  | .datagram now peer data => (reassembleInPlace now map peer data).map Prod.snd
  | .gc now => some (gcReassembly now map)

theorem receiveStep_eq (map : ReassemblyMap) (s : ReceiveStep) :
    receiveStep map s = some (s.apply map) := by
  cases s with
  | datagram now peer data => rw [receiveStep, reassembleInPlace_eq]; rfl
  | gc now => rfl

section Step

variable {map : ReassemblyMap} {now : ℕ} {peer : SocketAddr} {data : Bytes}

/-- The entry a fragment is put into: the one under its key, or a new one. -/
theorem inProgress_getD (hmap : map.InProgress) (key : SocketAddr × UInt32)
    {entry : ReassemblyEntry} (hnew : entry.InProgress) :
    ((map.lookup key).getD entry).InProgress ∧
      ∀ old ∈ map.lookup key, old = (map.lookup key).getD entry := by
  cases hl : map.lookup key with
  | none => exact ⟨hnew, fun old hmem => by cases hmem⟩
  | some old =>
      refine ⟨hmap _ old hl, ?_⟩
      intro old' hmem
      exact (Option.some.inj (Option.mem_def.mp hmem)).symm

/-- **What a datagram can do**: leave the map alone, leave the buffer of its message in
progress, or complete the message and take its buffer out. -/
theorem reassemble_cases (hmap : map.InProgress) :
    ((reassemble now map peer data).2 = map ∧
        (reassemble now map peer data).1 ≠ .discarded .assemblyFailed) ∨
      ∃ header chunk, parseFragment data = some (header, chunk) ∧
        ((∃ entry : ReassemblyEntry, entry.InProgress ∧
            (∀ old ∈ map.lookup (peer, header.fragId), old.GrowsTo entry) ∧
            (reassemble now map peer data).2 = map.insert (peer, header.fragId) entry ∧
            (reassemble now map peer data).1 ≠ .discarded .assemblyFailed) ∨
          ∃ payload, reassemble now map peer data =
            (.frame payload, map.erase (peer, header.fragId))) := by
  cases hp : parseFragment data with
  | none => left; simp [reassemble, hp]
  | some parts =>
      obtain ⟨header, chunk⟩ := parts
      simp only [reassemble, hp]
      split
      · left; simp
      · rename_i hone
        split
        · left; simp
        · rename_i hsize
          right
          refine ⟨header, chunk, rfl, ?_⟩
          have hindex := index_lt_of_parseFragment hp
          have hmany : 2 ≤ header.total.toNat := by
            have : header.total.toNat ≠ 1 := fun heq => hone (UInt16.toNat_inj.mp heq)
            omega
          have hnew := ReassemblyEntry.inProgress_new hmany (Nat.le_of_not_lt hsize) now
          rcases inProgress_getD hmap (peer, header.fragId) hnew with ⟨hgoing, hold⟩
          generalize (map.lookup (peer, header.fragId)).getD (.new header.total now) = entry
            at hgoing hold ⊢
          split
          · left
            exact ⟨entry, hgoing, fun old hmem => hold old hmem ▸ .refl old, rfl, by simp⟩
          · rename_i htotal
            have htotal : entry.total = header.total := not_not.mp htotal
            have hgrow := ReassemblyEntry.growsTo_insert entry header.index chunk
            have hinsert := @ReassemblyEntry.InProgress.insert entry header.index chunk hgoing
              (htotal ▸ hindex)
            rcases hinsert with ⟨hmore, hstay⟩ | ⟨hdone, hsome⟩
            · left
              rw [hmore]
              exact ⟨_, hstay, fun old hmem => hold old hmem ▸ hgrow, rfl, by simp⟩
            · right
              obtain ⟨payload, hpayload⟩ := Option.isSome_iff_exists.mp hsome
              exact ⟨payload, by simp [hdone, hpayload]⟩

theorem inProgress_apply (hmap : map.InProgress) (s : ReceiveStep) : (s.apply map).InProgress := by
  cases s with
  | gc now =>
      intro key entry hentry
      exact hmap key entry (lookup_gc_eq_some.mp hentry).1
  | datagram now peer data =>
      simp only [ReceiveStep.apply]
      rcases reassemble_cases hmap with ⟨hsame, -⟩ | ⟨header, chunk, -, hown⟩
      · rw [hsame]
        exact hmap
      · intro key entry hentry
        by_cases hkey : key = (peer, header.fragId)
        · subst hkey
          rcases hown with ⟨entry', hgoing, -, hins, -⟩ | ⟨payload, hdone⟩
          · rw [hins, AList.lookup_insert] at hentry
            exact Option.some.inj hentry ▸ hgoing
          · rw [hdone, AList.lookup_erase] at hentry
            cases hentry
        · apply hmap key entry
          rcases hown with ⟨entry', -, -, hins, -⟩ | ⟨payload, hdone⟩
          · rwa [hins, AList.lookup_insert_ne hkey] at hentry
          · rwa [hdone, AList.lookup_erase_ne hkey] at hentry

/-- The map is in progress after every run, and no run panics. -/
theorem exec_receiveStep (hmap : map.InProgress) (run : List ReceiveStep) :
    ∃ map', exec receiveStep map run = some map' ∧ map'.InProgress := by
  induction run generalizing map with
  | nil => exact ⟨map, rfl, hmap⟩
  | cons s run ih =>
      obtain ⟨map', hrun, hmap'⟩ := ih (inProgress_apply hmap s)
      refine ⟨map', ?_, hmap'⟩
      rw [exec, receiveStep_eq, Option.bind_some, hrun]

end Step

/-! ## Isolation -/

/-- What may become of a buffered entry of message `fragId` of `peer` in a step `s` that
leaves the map `map'`. -/
inductive EntryFate (peer : SocketAddr) (fragId : UInt32) (map map' : ReassemblyMap)
    (s : ReceiveStep) (entry : ReassemblyEntry) : Prop
  | kept (h : map'.lookup (peer, fragId) = some entry)
  | extended (entry' : ReassemblyEntry) (own : (s.ownData peer fragId).isSome)
      (grows : entry.GrowsTo entry') (h : map'.lookup (peer, fragId) = some entry')
  | completed (now : ℕ) (data payload : Bytes) (own : s.ownData peer fragId = some data)
      (hs : s = .datagram now peer data)
      (frame : (reassemble now map peer data).1 = .frame payload)
      (h : map'.lookup (peer, fragId) = none)
  | collected (now : ℕ) (hs : s = .gc now) (old : entry.createdAt + reassemblyTtl ≤ now)
      (h : map'.lookup (peer, fragId) = none)

theorem entryFate_apply {map : ReassemblyMap} (hmap : map.InProgress) (s : ReceiveStep)
    (peer : SocketAddr) (fragId : UInt32) {entry : ReassemblyEntry}
    (hentry : map.lookup (peer, fragId) = some entry) :
    EntryFate peer fragId map (s.apply map) s entry := by
  cases s with
  | gc now =>
      by_cases hage : now - entry.createdAt < reassemblyTtl
      · refine .kept ?_
        rw [lookup_apply_foreign rfl, hentry]
        intro e he
        rw [hentry] at he
        exact Option.some.inj he ▸ hage
      · have hpos : 0 < reassemblyTtl := by decide
        refine .collected now rfl (by omega) ?_
        rw [Option.eq_none_iff_forall_ne_some]
        intro e he
        obtain ⟨hsame, hyoung⟩ := lookup_gc_eq_some.mp he
        rw [hentry] at hsame
        exact hage (Option.some.inj hsame ▸ hyoung)
  | datagram now sender data =>
      cases hown : (ReceiveStep.datagram now sender data).ownData peer fragId with
      | none =>
          refine .kept ?_
          rw [← hentry]
          apply lookup_reassemble_ne
          intro header chunk hp heq
          simp [ReceiveStep.ownData, hp, heq] at hown
      | some d =>
          obtain ⟨now', heq⟩ := ownData_eq_some hown
          obtain ⟨rfl, rfl, rfl⟩ := ReceiveStep.datagram.inj heq
          rcases reassemble_cases hmap with ⟨hsame, -⟩ | ⟨header, chunk, hp, hcases⟩
          · exact .kept (by rw [ReceiveStep.apply, hsame, hentry])
          · obtain rfl : header.fragId = fragId := by
              by_contra hne
              simp [ReceiveStep.ownData, hp, hne] at hown
            rcases hcases with ⟨entry', -, hgrow, hins, -⟩ | ⟨payload, hdone⟩
            · refine .extended entry' (by simp [hown]) (hgrow entry hentry) ?_
              rw [ReceiveStep.apply, hins, AList.lookup_insert]
            · refine .completed now data payload hown rfl (by rw [hdone]) ?_
              rw [ReceiveStep.apply, hdone, AList.lookup_erase]

/-- A free key stays free, except for a fragment of the message from the peer. -/
theorem isSome_ownData_of_created {map : ReassemblyMap} {s : ReceiveStep} {peer : SocketAddr}
    {fragId : UInt32} (hfree : map.lookup (peer, fragId) = none)
    (hcreated : ((s.apply map).lookup (peer, fragId)).isSome) : (s.ownData peer fragId).isSome := by
  rw [Option.isSome_iff_ne_none]
  intro hforeign
  have hsame := @lookup_apply_foreign peer fragId map s hforeign (by simp [hfree])
  rw [hsame, hfree] at hcreated
  cases hcreated

/-- **The reassembly map stays consistent and its buffers isolated.**  No run of critical
sections panics; after it every buffer is in progress; and whatever the next step is, it
does not panic, does not fail to assemble, changes a buffer only if it is a fragment
of the same message from the same peer, which adds to it or completes it, or a collection
that finds it too old, and creates one only if it is such a fragment. -/
theorem reassembly_map_isolated (run : List ReceiveStep) :
    ∃ map, exec receiveStep ∅ run = some map ∧
      (∀ key, ∀ entry ∈ map.lookup key, entry.InProgress) ∧
      ∀ s, ∃ map', receiveStep map s = some map' ∧
        (∀ now peer data, s = .datagram now peer data →
          ∃ r, reassembleInPlace now map peer data = some (r, map') ∧
            r ≠ .discarded .assemblyFailed) ∧
        (∀ peer fragId, ∀ entry ∈ map.lookup (peer, fragId),
          EntryFate peer fragId map map' s entry) ∧
        ∀ peer fragId, map.lookup (peer, fragId) = none →
          (map'.lookup (peer, fragId)).isSome → (s.ownData peer fragId).isSome := by
  have hempty : ReassemblyMap.InProgress ∅ := by
    intro key entry hentry
    cases hentry
  obtain ⟨map, hrun, hmap⟩ := exec_receiveStep hempty run
  refine ⟨map, hrun, hmap, fun s => ⟨s.apply map, receiveStep_eq map s, ?_, ?_, ?_⟩⟩
  · rintro now peer data rfl
    refine ⟨(reassemble now map peer data).1, reassembleInPlace_eq now map peer data, ?_⟩
    rcases reassemble_cases hmap with
      ⟨-, hok⟩ | ⟨header, chunk, -, ⟨-, -, -, -, hok⟩ | ⟨payload, hdone⟩⟩
    · exact hok
    · exact hok
    · simp [hdone]
  · intro peer fragId entry hentry
    exact entryFate_apply hmap s peer fragId hentry
  · exact fun peer fragId => isSome_ownData_of_created

end AuthKademlia
