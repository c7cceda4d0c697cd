import AuthKademlia.ReassemblyInvariant
import Mathlib.Tactic.IntervalCases

/-!
# How large a reassembled message can get

`handle_datagram` bounds the memory of a message before it buffers anything: the announced
number of fragments times `FRAG_CHUNK_SIZE` must not exceed `MAX_MESSAGE_SIZE`.  The chunks
themselves are as long as the sender makes them, and nothing compares their length with
`FRAG_CHUNK_SIZE` or adds them up.  A datagram carries up to 65524 bytes of chunk, so six
fragments are enough to buffer more than the limit.

What is missing is one comparison, of the bytes buffered so far and the new chunk with the
limit.  `ReceiveStep.Fits` is that comparison, and a run respects the limit if and only if
each of its steps would have passed it.

## Main definitions

* `ReassemblyEntry.bytes` — the bytes buffered for one message.
* `ReceiveStep.Fits` — the chunk fits into what is left of the limit.
* `WithinLimit` — neither a buffer nor a delivered payload exceeds the limit.
-/

namespace AuthKademlia

open Lib

/-- The largest datagram `recv_from` hands over. -/
def maxDatagram : ℕ := 65536

/-! ## Counting bytes -/

/-- The bytes buffered for one message. -/
def ReassemblyEntry.bytes (e : ReassemblyEntry) : ℕ :=
  (e.chunks.map fun c => (c.getD []).length).sum

namespace ReassemblyEntry

@[simp] theorem bytes_new (total : UInt16) (now : ℕ) : (new total now).bytes = 0 := by
  simp [new, bytes]

/-- Filling a free slot adds the length of the chunk. -/
theorem bytes_insert_free {e : ReassemblyEntry} {index : UInt16} (chunk : Bytes)
    (h : e.chunks[index.toNat]? = some none) :
    (e.insert index chunk).2.bytes = e.bytes + chunk.length := by
  rcases List.getElem?_eq_some_iff.mp h with ⟨hlt, hslot⟩
  have hold : e.chunks =
      e.chunks.take index.toNat ++ none :: e.chunks.drop (index.toNat + 1) := by
    conv_lhs => rw [← List.take_append_drop index.toNat e.chunks, List.drop_eq_getElem_cons hlt, hslot]
  have hnew : (e.insert index chunk).2.chunks =
      e.chunks.take index.toNat ++ some chunk :: e.chunks.drop (index.toNat + 1) := by
    simp [insert, hslot, List.set_eq_take_append_cons_drop, hlt]
  rw [bytes, bytes, hnew]
  conv_rhs => rw [hold]
  simp only [List.map_append, List.map_cons, List.sum_append, List.sum_cons, Option.getD_some,
    Option.getD_none, List.length_nil]
  omega

/-- A slot that is taken, or does not exist, leaves the buffer as it is. -/
theorem insert_of_not_free {e : ReassemblyEntry} {index : UInt16} (chunk : Bytes)
    (h : e.chunks[index.toNat]? ≠ some none) : (e.insert index chunk).2 = e := by
  simp only [insert]
  split
  · rfl
  · rename_i slot hslot
    cases slot with
    | none => exact absurd hslot h
    | some c => rfl

theorem length_assembleFrom {cs : List (Option Bytes)} {out payload : Bytes}
    (h : assembleFrom out cs = some payload) :
    payload.length = out.length + (cs.map fun c => (c.getD []).length).sum := by
  induction cs generalizing out with
  | nil =>
      cases h
      simp
  | cons c cs ih =>
      cases c with
      | none => cases h
      | some c =>
          rw [ih h]
          simp [Nat.add_assoc]

/-- The assembled payload consists of the buffered bytes. -/
theorem length_assemble {e : ReassemblyEntry} {payload : Bytes} (h : e.assemble = some payload) :
    payload.length = e.bytes := by
  simpa [bytes] using length_assembleFrom h

end ReassemblyEntry

theorem length_of_parseFragment {data chunk : Bytes} {header : FragHeader}
    (h : parseFragment data = some (header, chunk)) : chunk.length ≤ data.length := by
  rw [(eq_fragment_of_parseFragment h).1]
  simp only [fragment, List.length_append]
  omega

/-! ## One datagram -/

/-- The chunk of a fragment that goes to a free slot of a buffer fits into what the bytes
already there leave of the limit. -/
def ReceiveStep.Fits (map : ReassemblyMap) : ReceiveStep → Prop
  | .datagram _ peer data => ∀ header chunk, parseFragment data = some (header, chunk) →
      ∀ entry ∈ map.lookup (peer, header.fragId), entry.total = header.total →
        entry.chunks[header.index.toNat]? = some none →
        entry.bytes + chunk.length ≤ maxMessageSize
  | .gc _ => True

/-- The datagram of a step is not larger than a datagram can be. -/
def ReceiveStep.Receivable : ReceiveStep → Prop
  | .datagram _ _ data => data.length ≤ maxDatagram
  | .gc _ => True

/-- No buffer holds more than the limit. -/
def ReassemblyMap.WithinLimit (map : ReassemblyMap) : Prop :=
  ∀ key, ∀ entry ∈ map.lookup key, entry.bytes ≤ maxMessageSize

/-- The payload a step hands to deserialization, if any, is within the limit. -/
def ReceiveStep.DeliversWithinLimit (map : ReassemblyMap) : ReceiveStep → Prop
  | .datagram now peer data => ∀ payload, (reassemble now map peer data).1 = .frame payload →
      payload.length ≤ maxMessageSize
  | .gc _ => True

section Step

variable {map : ReassemblyMap} {now : ℕ} {peer : SocketAddr} {data chunk : Bytes}
  {header : FragHeader} {entry : ReassemblyEntry}

theorem withinLimit_insert (hmap : map.WithinLimit) {key : SocketAddr × UInt32}
    (hentry : entry.bytes ≤ maxMessageSize) :
    ReassemblyMap.WithinLimit (map.insert key entry) := by
  intro key' e he
  by_cases hkey : key' = key
  · subst hkey
    rw [AList.lookup_insert] at he
    exact Option.some.inj he ▸ hentry
  · rw [AList.lookup_insert_ne hkey] at he
    exact hmap key' e he

theorem withinLimit_erase (hmap : map.WithinLimit) (key : SocketAddr × UInt32) :
    ReassemblyMap.WithinLimit (map.erase key) := by
  intro key' e he
  by_cases hkey : key' = key
  · subst hkey
    rw [AList.lookup_erase] at he
    cases he
  · rw [AList.lookup_erase_ne hkey] at he
    exact hmap key' e he

/-- The buffer a fragment goes to is within the limit, before and after. -/
theorem bytes_insert_le (hmap : map.WithinLimit) (hdata : data.length ≤ maxDatagram)
    (hfits : (ReceiveStep.datagram now peer data).Fits map)
    (hp : parseFragment data = some (header, chunk))
    (hentry : (map.lookup (peer, header.fragId)).getD (.new header.total now) = entry)
    (htotal : entry.total = header.total) :
    (entry.insert header.index chunk).2.bytes ≤ maxMessageSize := by
  have hchunk := length_of_parseFragment hp
  have hlimit : maxDatagram ≤ maxMessageSize := by decide
  cases hl : map.lookup (peer, header.fragId) with
  | none =>
      rw [hl, Option.getD_none] at hentry
      by_cases hfree : entry.chunks[header.index.toNat]? = some none
      · rw [ReassemblyEntry.bytes_insert_free chunk hfree, ← hentry, ReassemblyEntry.bytes_new]
        omega
      · rw [ReassemblyEntry.insert_of_not_free chunk hfree, ← hentry, ReassemblyEntry.bytes_new]
        omega
  | some e =>
      rw [hl, Option.getD_some] at hentry
      subst hentry
      by_cases hfree : e.chunks[header.index.toNat]? = some none
      · rw [ReassemblyEntry.bytes_insert_free chunk hfree]
        exact hfits header chunk hp e hl htotal hfree
      · rw [ReassemblyEntry.insert_of_not_free chunk hfree]
        exact hmap _ e hl

/-- **A datagram that fits** leaves every buffer within the limit, and so is what it
completes. -/
theorem withinLimit_reassemble (hmap : map.WithinLimit) (hdata : data.length ≤ maxDatagram)
    (hfits : (ReceiveStep.datagram now peer data).Fits map) :
    (reassemble now map peer data).2.WithinLimit ∧
      (ReceiveStep.datagram now peer data).DeliversWithinLimit map := by
  have hlimit : maxDatagram ≤ maxMessageSize := by decide
  cases hp : parseFragment data with
  | none => simpa [reassemble, ReceiveStep.DeliversWithinLimit, hp] using hmap
  | some parts =>
      rcases parts with ⟨header, chunk⟩
      simp only [reassemble, ReceiveStep.DeliversWithinLimit, hp]
      have hchunk := length_of_parseFragment hp
      split
      · refine ⟨hmap, ?_⟩
        intro payload heq
        cases heq
        omega
      · split
        · exact ⟨hmap, fun payload heq => by cases heq⟩
        · have hnew := @bytes_insert_le map now peer data chunk header _ hmap hdata hfits hp rfl
          have hold : ((map.lookup (peer, header.fragId)).getD (.new header.total now)).bytes ≤
              maxMessageSize := by
            cases hl : map.lookup (peer, header.fragId) with
            | none => simp
            | some e => exact hmap _ e hl
          generalize (map.lookup (peer, header.fragId)).getD (.new header.total now) = entry
            at hnew hold ⊢
          split
          · exact ⟨withinLimit_insert hmap hold, fun payload heq => by cases heq⟩
          · rename_i htotal
            have hnew := hnew (not_not.mp htotal)
            split
            · exact ⟨withinLimit_insert hmap hnew, fun payload heq => by cases heq⟩
            · split
              · next payload hpayload =>
                  refine ⟨withinLimit_erase hmap _, ?_⟩
                  intro payload' heq
                  cases heq
                  exact (ReassemblyEntry.length_assemble hpayload).trans_le hnew
              · exact ⟨withinLimit_erase hmap _, fun payload heq => by cases heq⟩

section Fragment

variable (hp : parseFragment data = some (header, chunk)) (hone : header.total ≠ 1)
  (hsize : header.total.toNat * fragChunkSize ≤ maxMessageSize)
  (hentry : (map.lookup (peer, header.fragId)).getD (.new header.total now) = entry)
  (htotal : entry.total = header.total)
include hp hone hsize hentry htotal

/-- A fragment that leaves its message incomplete ... -/
theorem reassemble_more (hmore : (entry.insert header.index chunk).1 = false) :
    reassemble now map peer data =
      (.incomplete, map.insert (peer, header.fragId) (entry.insert header.index chunk).2) := by
  simp [reassemble, hp, hone, Nat.not_lt.mpr hsize, hentry, htotal, hmore]

/-- ... and one that completes it. -/
theorem reassemble_done {payload : Bytes} (hdone : (entry.insert header.index chunk).1 = true)
    (hpayload : (entry.insert header.index chunk).2.assemble = some payload) :
    reassemble now map peer data = (.frame payload, map.erase (peer, header.fragId)) := by
  simp [reassemble, hp, hone, Nat.not_lt.mpr hsize, hentry, htotal, hdone, hpayload]

end Fragment

/-- **A chunk in a free slot** shows up in the buffer, or in the payload it completes. -/
theorem reassemble_free (hmap : map.InProgress)
    (hp : parseFragment data = some (header, chunk))
    (hlookup : map.lookup (peer, header.fragId) = some entry) (htotal : entry.total = header.total)
    (hfree : entry.chunks[header.index.toNat]? = some none) :
    (∃ e, (reassemble now map peer data).2.lookup (peer, header.fragId) = some e ∧
        e.bytes = entry.bytes + chunk.length) ∨
      ∃ payload, (reassemble now map peer data).1 = .frame payload ∧
        payload.length = entry.bytes + chunk.length := by
  have hgoing := hmap _ entry hlookup
  have hone : header.total ≠ 1 := by
    intro heq
    have := hgoing.many
    rw [htotal, heq] at this
    exact absurd this (by decide)
  have hsize : header.total.toNat * fragChunkSize ≤ maxMessageSize := htotal ▸ hgoing.bounded
  have hentry : (map.lookup (peer, header.fragId)).getD (.new header.total now) = entry := by
    rw [hlookup, Option.getD_some]
  have hbytes := ReassemblyEntry.bytes_insert_free chunk hfree
  have hindex := index_lt_of_parseFragment hp
  rcases @ReassemblyEntry.InProgress.insert entry header.index chunk hgoing (htotal ▸ hindex) with
    ⟨hmore, -⟩ | ⟨hdone, hsome⟩
  · left
    refine ⟨_, ?_, hbytes⟩
    rw [reassemble_more hp hone hsize hentry htotal hmore, AList.lookup_insert]
  · right
    rcases Option.isSome_iff_exists.mp hsome with ⟨payload, hpayload⟩
    refine ⟨payload, ?_, ?_⟩
    · rw [reassemble_done hp hone hsize hentry htotal hdone hpayload]
    · rw [ReassemblyEntry.length_assemble hpayload, hbytes]

end Step

/-! ## A sender of long fragments -/

/-- A peer that announces six fragments and makes each as long as it likes. -/
def longSender : SocketAddr := ⟨"127.0.0.1", 5678⟩

/-- The first `n` of its datagrams. -/
def longFragments (chunk : Bytes) (n : ℕ) : List ReceiveStep :=
  (List.range n).map fun i => .datagram 0 longSender (fragment 0 (UInt16.ofNat i) 6 chunk)

/-- Their buffer. -/
def longBuffer (chunk : Bytes) (n : ℕ) : ReassemblyEntry :=
  ⟨6, UInt16.ofNat n, List.replicate n (some chunk) ++ List.replicate (6 - n) none, 0⟩

theorem length_fragment (fragId : UInt32) (index total : UInt16) (chunk : Bytes) :
    (fragment fragId index total chunk).length = fragHeaderLen + chunk.length := by
  simp only [fragment, List.length_append, length_toBeBytes, fragHeaderLen]

theorem bytes_longBuffer (chunk : Bytes) (n : ℕ) : (longBuffer chunk n).bytes = n * chunk.length := by
  simp [longBuffer, ReassemblyEntry.bytes]

theorem insert_longBuffer (chunk : Bytes) {n : ℕ} (hn : n < 6) :
    (longBuffer chunk n).insert (UInt16.ofNat n) chunk =
      (decide (n = 5), longBuffer chunk (n + 1)) := by
  interval_cases n <;> rfl

theorem reassemble_longFragment (chunk : Bytes) {map : ReassemblyMap} {n : ℕ} (hn : n < 5)
    (hmap : (map.lookup (longSender, 0)).getD (.new 6 0) = longBuffer chunk n) :
    reassemble 0 map longSender (fragment 0 (UInt16.ofNat n) 6 chunk) =
      (.incomplete, map.insert (longSender, 0) (longBuffer chunk (n + 1))) := by
  have hp := @parseFragment_fragment 0 (UInt16.ofNat n) 6 (by interval_cases n <;> decide) chunk
  have hinsert := insert_longBuffer chunk (Nat.lt_succ_of_lt hn)
  have hmore := reassemble_more hp (show (6 : UInt16) ≠ 1 by decide)
    (show (6 : UInt16).toNat * fragChunkSize ≤ maxMessageSize by decide) hmap rfl
    (by rw [hinsert]; exact decide_eq_false (Nat.ne_of_lt hn))
  rw [hmore, hinsert]

/-- The first five fragments are buffered, whatever their length. -/
theorem exec_longFragments (chunk : Bytes) {n : ℕ} (hn : n < 5) :
    exec receiveStep ∅ (longFragments chunk (n + 1)) =
      some (AList.insert (longSender, 0) (longBuffer chunk (n + 1)) ∅) := by
  have hsucc : ∀ m, longFragments chunk (m + 1) = longFragments chunk m ++
      [.datagram 0 longSender (fragment 0 (UInt16.ofNat m) 6 chunk)] := by
    intro m
    simp [longFragments, List.range_succ]
  induction n with
  | zero =>
      have hfirst := @reassemble_longFragment chunk ∅ 0 (by decide) rfl
      rw [hsucc, exec_concat]
      simp only [longFragments, List.range_zero, List.map_nil, exec_nil, Option.bind_some,
        receiveStep_eq, ReceiveStep.apply, hfirst]
  | succ n ih =>
      have hnext := @reassemble_longFragment chunk
        (AList.insert (longSender, 0) (longBuffer chunk (n + 1)) ∅) (n + 1) hn
        (by rw [AList.lookup_insert, Option.getD_some])
      rw [hsucc, exec_concat, ih (by omega)]
      simp only [Option.bind_some, receiveStep_eq, ReceiveStep.apply, hnext, AList.insert_insert]

/-- The sixth completes the message. -/
theorem reassemble_lastFragment (chunk : Bytes) {map : ReassemblyMap}
    (hmap : map.lookup (longSender, 0) = some (longBuffer chunk 5)) :
    ∃ payload, (reassemble 0 map longSender (fragment 0 5 6 chunk)).1 = .frame payload ∧
      payload.length = 6 * chunk.length := by
  have hp := @parseFragment_fragment 0 5 6 (by decide) chunk
  have hinsert := insert_longBuffer chunk (show 5 < 6 by decide)
  have hassemble : ∃ payload, (longBuffer chunk 6).assemble = some payload := ⟨_, rfl⟩
  rcases hassemble with ⟨payload, hpayload⟩
  have hentry : (map.lookup (longSender, 0)).getD (.new 6 0) = longBuffer chunk 5 := by
    rw [hmap, Option.getD_some]
  have hdone := reassemble_done hp (by decide) (by decide) hentry rfl
    (congrArg Prod.fst hinsert) ((congrArg (·.2.assemble) hinsert).trans hpayload)
  refine ⟨payload, by rw [hdone], ?_⟩
  rw [ReassemblyEntry.length_assemble hpayload, bytes_longBuffer]

/-! ## Runs -/

theorem withinLimit_apply {map : ReassemblyMap} {s : ReceiveStep} (hmap : map.WithinLimit)
    (hs : s.Receivable) (hfits : s.Fits map) : (s.apply map).WithinLimit := by
  cases s with
  | datagram now peer data => exact (withinLimit_reassemble hmap hs hfits).1
  | gc now =>
      intro key entry hentry
      exact hmap key entry (lookup_gc_eq_some.mp hentry).1

/-- A run whose chunks fit keeps every buffer within the limit. -/
theorem withinLimit_exec {run : List ReceiveStep} {map : ReassemblyMap}
    (hrun : ∀ s ∈ run, s.Receivable)
    (hfits : EachStep receiveStep (fun map s => s.Fits map) ∅ run)
    (hexec : exec receiveStep ∅ run = some map) : map.WithinLimit := by
  have hboth : EachStep receiveStep (fun map s => s.Receivable ∧ s.Fits map) ∅ run := by
    intro pre s post map hsplit hpre
    exact ⟨hrun s (by simp [hsplit]), hfits pre s post map hsplit hpre⟩
  refine exec_eachStep ReassemblyMap.WithinLimit ?_ ?_ hboth hexec
  · intro key entry hentry
    cases hentry
  · intro map s map' hmap hs hstep
    rw [receiveStep_eq, Option.some.injEq] at hstep
    exact hstep ▸ withinLimit_apply hmap hs.1 hs.2

/-- **When the limit is respected.**  In a run of datagrams of possible size, every buffer
in every state and every payload handed to deserialization is within `MAX_MESSAGE_SIZE`, if
and only if each chunk put into a buffer fits into what is left of it. -/
theorem withinLimit_iff_fits (run : List ReceiveStep) (hrun : ∀ s ∈ run, s.Receivable) :
    ((∀ pre post map, run = pre ++ post → exec receiveStep ∅ pre = some map → map.WithinLimit) ∧
      EachStep receiveStep (fun map s => s.DeliversWithinLimit map) ∅ run) ↔
      EachStep receiveStep (fun map s => s.Fits map) ∅ run := by
  have hempty : ReassemblyMap.InProgress ∅ := by
    intro key entry hentry
    cases hentry
  constructor
  · intro ⟨hbuffers, hdelivers⟩ pre s post map hsplit hpre
    cases s with
    | gc now => trivial
    | datagram now peer data =>
        intro header chunk hp entry hentry htotal hfree
        rcases exec_receiveStep hempty pre with ⟨map', hexec, hmap⟩
        cases hpre.symm.trans hexec
        -- the chunk is in the next state or in what is delivered
        rcases @reassemble_free map now peer data chunk header entry hmap hp hentry htotal hfree with
          ⟨e, he, hbytes⟩ | ⟨payload, hpayload, hlen⟩
        · have hnext : exec receiveStep ∅ (pre ++ [.datagram now peer data]) =
              some (reassemble now map peer data).2 := by
            rw [exec_concat, hpre, Option.bind_some, receiveStep_eq]
            rfl
          have := hbuffers _ post _ (by simp [hsplit]) hnext _ e he
          omega
        · have := hdelivers pre _ post map hsplit hpre payload hpayload
          omega
  · intro hfits
    have hbuffers : ∀ pre post map, run = pre ++ post → exec receiveStep ∅ pre = some map →
        map.WithinLimit := by
      intro pre post map hsplit hpre
      subst hsplit
      exact withinLimit_exec (fun s hs => hrun s (List.mem_append_left _ hs)) hfits.of_append hpre
    refine ⟨hbuffers, ?_⟩
    intro pre s post map hsplit hpre
    cases s with
    | gc now => trivial
    | datagram now peer data =>
        exact (withinLimit_reassemble (hbuffers pre _ map hsplit hpre)
          (hrun (.datagram now peer data) (by simp [hsplit]))
          (hfits pre _ post map hsplit hpre)).2

/-- Short fragments of the same sender fit. -/
theorem withinLimit_longFragments :
    ∃ map, exec receiveStep ∅ (longFragments [7] 2) = some map ∧ map.WithinLimit := by
  have hexec := exec_longFragments [7] (show 1 < 5 by decide)
  refine ⟨_, hexec, ((withinLimit_iff_fits (longFragments [7] 2) ?_).mpr ?_).1 _ []
    _ (List.append_nil _).symm hexec⟩
  · intro s hs
    rcases List.mem_map.mp hs with ⟨i, -, rfl⟩
    simp only [ReceiveStep.Receivable, length_fragment]
    decide
  · have hnil : EachStep receiveStep (fun map s => s.Fits map) ∅ [] :=
      EachStep.of_forall_mem (by simp)
    have hone : EachStep receiveStep (fun map s => s.Fits map) ∅ (longFragments [7] 1) :=
      hnil.concat (exec_nil _ _) (by
        intro header chunk _ entry hentry
        cases hentry)
    refine hone.concat (exec_longFragments [7] (show 0 < 5 by decide)) ?_
    intro header chunk hp entry hentry _ _
    cases (@parseFragment_fragment 0 (UInt16.ofNat 1) 6 (by decide) [7]).symm.trans hp
    rw [AList.lookup_insert] at hentry
    rw [← Option.some.inj hentry, bytes_longBuffer]
    decide

/-- **Six datagrams of 60012 bytes pass every check.**  After five of them the buffer holds
300000 bytes, and the sixth hands a payload of 360000 bytes to deserialization. -/
theorem limit_exceeded :
    ∃ map, exec receiveStep ∅ (longFragments (List.replicate 60000 0) 5) = some map ∧
      (∀ s ∈ longFragments (List.replicate 60000 0) 6, s.Receivable) ∧
      (∃ entry, map.lookup (longSender, 0) = some entry ∧ entry.bytes = 300000 ∧
        maxMessageSize < entry.bytes) ∧
      ∃ payload, (reassemble 0 map longSender
          (fragment 0 5 6 (List.replicate 60000 0))).1 = .frame payload ∧
        payload.length = 360000 ∧ maxMessageSize < payload.length := by
  have hlookup := AList.lookup_insert (a := (longSender, (0 : UInt32)))
    (b := longBuffer (List.replicate 60000 0) 5) (∅ : ReassemblyMap)
  rcases reassemble_lastFragment _ hlookup with ⟨payload, hpayload, hlen⟩
  rw [List.length_replicate] at hlen
  refine ⟨_, exec_longFragments _ (by decide), ?_, ⟨_, hlookup, ?_⟩, payload, hpayload, ?_⟩
  · intro s hs
    rcases List.mem_map.mp hs with ⟨i, -, rfl⟩
    simp only [ReceiveStep.Receivable, length_fragment, List.length_replicate]
    decide
  · rw [bytes_longBuffer, List.length_replicate]
    decide
  · rw [hlen]
    decide

end AuthKademlia
