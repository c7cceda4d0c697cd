import AuthKademlia.Lib.BigEndian
import AuthKademlia.Lib.Chunks
import AuthKademlia.Node

/-!
# Application-level fragmentation

A serialized frame travels as one or more datagrams, each a 12-byte header
(`magic`, `frag_id`, `index`, `total`, all big-endian) followed by at most
`FRAG_CHUNK_SIZE` payload bytes.  The receiver collects the chunks of one message in
a `ReassemblyEntry` and concatenates them in index order.

The number of chunks and their indices are cast to `u16`; the round trip
(`encodeFragments_round_trip`) is proved for every payload the sender accepts,
`MAX_MESSAGE_SIZE` bytes or fewer, for which the casts lose nothing.

Times are in nanoseconds.

## Main definitions

* `encodeFragments`, `parseFragment` — the sender's and the receiver's codec.
* `ReassemblyEntry` — the receive buffer of one message.
-/

namespace AuthKademlia

open Lib

/-! ## The wire format -/

/-- The four bytes `KADF`. -/
def fragMagic : UInt32 := 0x4B414446

/-- Magic, fragment id, index and total. -/
def fragHeaderLen : ℕ := 4 + 4 + 2 + 2

/-- Maximum payload bytes per datagram. -/
def fragChunkSize : ℕ := 1400

/-- Hard cap on the size of a logical message. -/
def maxMessageSize : ℕ := 256 * 1024

/-- Reassembly buffers older than this are discarded. -/
def reassemblyTtl : ℕ := fromSecs 10

/-- A parsed fragment header. -/
structure FragHeader where
  fragId : UInt32
  index : UInt16
  total : UInt16
  deriving DecidableEq

/-- A datagram with the given header fields and chunk. -/
def fragment (fragId : UInt32) (index total : UInt16) (chunk : Bytes) : Bytes :=
  toBeBytes 4 fragMagic.toNat ++ toBeBytes 4 fragId.toNat ++ toBeBytes 2 index.toNat ++
    toBeBytes 2 total.toNat ++ chunk

/-- Cut a serialized message into datagrams; an empty one still takes a datagram. -/
def encodeFragments (fragId : UInt32) (payload : Bytes) : List Bytes :=
  if payload.isEmpty then [fragment fragId 0 1 []]
  else
    let total := UInt16.ofNat ((payload.length + fragChunkSize - 1) / fragChunkSize)
    (chunks fragChunkSize payload).mapIdx fun i chunk =>
      fragment fragId (UInt16.ofNat i) total chunk

/-- Split a datagram into header and chunk; `none` if it is malformed or does not
carry the magic. -/
def parseFragment (data : Bytes) : Option (FragHeader × Bytes) :=
  if data.length < fragHeaderLen then none
  else
    let magic := UInt32.ofNat (fromBeBytes (data.take 4))
    if magic ≠ fragMagic then none
    else
      let fragId := UInt32.ofNat (fromBeBytes ((data.drop 4).take 4))
      let index := UInt16.ofNat (fromBeBytes ((data.drop 8).take 2))
      let total := UInt16.ofNat (fromBeBytes ((data.drop 10).take 2))
      if total = 0 ∨ total ≤ index then none
      else some (⟨fragId, index, total⟩, data.drop fragHeaderLen)

/-- **Parsing a fragment gives back its header and chunk.** -/
theorem parseFragment_fragment {fragId : UInt32} {index total : UInt16} (h : index < total)
    (chunk : Bytes) :
    parseFragment (fragment fragId index total chunk) = some (⟨fragId, index, total⟩, chunk) := by
  obtain ⟨m, hm⟩ : ∃ m, toBeBytes 4 fragMagic.toNat = m := ⟨_, rfl⟩
  obtain ⟨f, hf⟩ : ∃ f, toBeBytes 4 fragId.toNat = f := ⟨_, rfl⟩
  obtain ⟨i, hi⟩ : ∃ i, toBeBytes 2 index.toNat = i := ⟨_, rfl⟩
  obtain ⟨t, ht⟩ : ∃ t, toBeBytes 2 total.toNat = t := ⟨_, rfl⟩
  have lm : m.length = 4 := hm ▸ length_toBeBytes _ _
  have lf : f.length = 4 := hf ▸ length_toBeBytes _ _
  have li : i.length = 2 := hi ▸ length_toBeBytes _ _
  have lt : t.length = 2 := ht ▸ length_toBeBytes _ _
  have hdata : fragment fragId index total chunk = m ++ (f ++ (i ++ (t ++ chunk))) := by
    simp only [fragment, hm, hf, hi, ht, List.append_assoc]
  -- the four header slices of the datagram
  have s1 : (m ++ (f ++ (i ++ (t ++ chunk)))).take 4 = m := List.take_left' lm
  have s2 : (m ++ (f ++ (i ++ (t ++ chunk)))).drop 4 = f ++ (i ++ (t ++ chunk)) :=
    List.drop_left' lm
  have s3 : (m ++ (f ++ (i ++ (t ++ chunk)))).drop 8 = i ++ (t ++ chunk) := by
    rw [← List.append_assoc]; exact List.drop_left' (by simp [lm, lf])
  have s4 : (m ++ (f ++ (i ++ (t ++ chunk)))).drop 10 = t ++ chunk := by
    rw [← List.append_assoc, ← List.append_assoc]; exact List.drop_left' (by simp [lm, lf, li])
  have s5 : (m ++ (f ++ (i ++ (t ++ chunk)))).drop 12 = chunk := by
    rw [← List.append_assoc, ← List.append_assoc, ← List.append_assoc]
    exact List.drop_left' (by simp [lm, lf, li, lt])
  have hlen : ¬(m ++ (f ++ (i ++ (t ++ chunk)))).length < fragHeaderLen := by
    simp only [List.length_append, lm, lf, li, lt, fragHeaderLen]; omega
  have vm : UInt32.ofNat (fromBeBytes m) = fragMagic := by
    rw [← hm, fromBeBytes_toBeBytes_of_lt (by decide), UInt32.ofNat_toNat]
  have vf : UInt32.ofNat (fromBeBytes f) = fragId := by
    rw [← hf, fromBeBytes_toBeBytes_of_lt fragId.toNat_lt, UInt32.ofNat_toNat]
  have vi : UInt16.ofNat (fromBeBytes i) = index := by
    rw [← hi, fromBeBytes_toBeBytes_of_lt index.toNat_lt, UInt16.ofNat_toNat]
  have vt : UInt16.ofNat (fromBeBytes t) = total := by
    rw [← ht, fromBeBytes_toBeBytes_of_lt total.toNat_lt, UInt16.ofNat_toNat]
  have hok : ¬(total = 0 ∨ total ≤ index) := by
    rintro (rfl | hle)
    · exact absurd h (UInt16.not_lt_zero)
    · exact absurd h (UInt16.not_lt.mpr hle)
  simp only [hdata, parseFragment, s1, s2, s3, s4, fragHeaderLen, Nat.reduceAdd, s5,
    List.take_left' lf, List.take_left' li, List.take_left' lt, vm, vf, vi, vt]
  rw [if_neg (by simpa only [fragHeaderLen] using hlen), if_neg (by simp), if_neg hok]

/-- A `u32` field is written back as it was read. -/
theorem toBeBytes_ofNat32 {bs : Bytes} (hlen : bs.length = 4) :
    toBeBytes 4 (UInt32.ofNat (fromBeBytes bs)).toNat = bs := by
  have hlt := fromBeBytes_lt bs
  rw [hlen] at hlt
  rw [UInt32.toNat_ofNat_of_lt' hlt, toBeBytes_fromBeBytes hlen]

/-- A `u16` field is written back as it was read. -/
theorem toBeBytes_ofNat16 {bs : Bytes} (hlen : bs.length = 2) :
    toBeBytes 2 (UInt16.ofNat (fromBeBytes bs)).toNat = bs := by
  have hlt := fromBeBytes_lt bs
  rw [hlen] at hlt
  rw [UInt16.toNat_ofNat_of_lt' hlt, toBeBytes_fromBeBytes hlen]

/-- The four header slices and the chunk make up the datagram. -/
theorem append_slices (data : Bytes) :
    data.take 4 ++ (data.drop 4).take 4 ++ (data.drop 8).take 2 ++ (data.drop 10).take 2 ++
      data.drop 12 = data := by
  have h8 : data.drop 8 = (data.drop 4).drop 4 := by simp
  have h10 : data.drop 10 = (data.drop 8).drop 2 := by simp
  have h12 : data.drop 12 = (data.drop 10).drop 2 := by simp
  rw [List.append_assoc, List.append_assoc, List.append_assoc, h12, List.take_append_drop, h10,
    List.take_append_drop, h8, List.take_append_drop, List.take_append_drop]

/-- What `parse_fragment` accepts is a fragment with its index in range. -/
theorem eq_fragment_of_parseFragment {data chunk : Bytes} {header : FragHeader}
    (h : parseFragment data = some (header, chunk)) :
    data = fragment header.fragId header.index header.total chunk ∧
      header.index < header.total := by
  simp only [parseFragment] at h
  split at h
  · cases h
  · next hlen =>
      split at h
      · cases h
      · next hmagic =>
          split at h
          · cases h
          · next hok =>
              cases h
              simp only [fragHeaderLen] at hlen
              refine ⟨?_, UInt16.not_le.mp (not_or.mp hok).2⟩
              have hm := @toBeBytes_ofNat32 (data.take 4) (by simp; omega)
              have hf := @toBeBytes_ofNat32 ((data.drop 4).take 4) (by simp; omega)
              have hi := @toBeBytes_ofNat16 ((data.drop 8).take 2) (by simp; omega)
              have ht := @toBeBytes_ofNat16 ((data.drop 10).take 2) (by simp; omega)
              rw [not_not.mp hmagic] at hm
              simp only [fragment, hm, hf, hi, ht]
              exact (append_slices data).symm

/-- **`parse_fragment` accepts exactly the wire grammar.**  A datagram is parsed to a header
and a chunk if and only if it is their encoding and the index is below the total; so encoding
a result again gives the datagram back, and no other datagram has the same result. -/
theorem parseFragment_exact (data : Bytes) :
    (∀ header chunk, parseFragment data = some (header, chunk) ↔
      data = toBeBytes 4 fragMagic.toNat ++ toBeBytes 4 header.fragId.toNat ++
          toBeBytes 2 header.index.toNat ++ toBeBytes 2 header.total.toNat ++ chunk ∧
        header.index < header.total) ∧
    (∀ header chunk, parseFragment data = some (header, chunk) →
      fragment header.fragId header.index header.total chunk = data ∧
      ∀ data', parseFragment data' = some (header, chunk) → data' = data) := by
  refine ⟨?_, ?_⟩
  · intro header chunk
    constructor
    · exact eq_fragment_of_parseFragment
    · rintro ⟨hdata, hindex⟩
      rw [hdata]
      exact parseFragment_fragment hindex chunk
  · intro header chunk h
    refine ⟨(eq_fragment_of_parseFragment h).1.symm, ?_⟩
    intro data' h'
    rw [(eq_fragment_of_parseFragment h).1, (eq_fragment_of_parseFragment h').1]

/-- The index of an accepted header is in range. -/
theorem index_lt_of_parseFragment {data chunk : Bytes} {header : FragHeader}
    (h : parseFragment data = some (header, chunk)) :
    header.index.toNat < header.total.toNat :=
  UInt16.lt_iff_toNat_lt.mp (eq_fragment_of_parseFragment h).2

/-! ## The receive buffer -/

/-- Reassembly state of a single in-flight message. -/
structure ReassemblyEntry where
  total : UInt16
  received : UInt16
  chunks : List (Option Bytes)
  createdAt : ℕ
  deriving DecidableEq

namespace ReassemblyEntry

def new (total : UInt16) (now : ℕ) : ReassemblyEntry :=
  ⟨total, 0, List.replicate total.toNat none, now⟩

/-- Put a chunk into its slot unless the slot is taken; the answer says whether the
message is complete. -/
def insert (e : ReassemblyEntry) (index : UInt16) (payload : Bytes) : Bool × ReassemblyEntry :=
  match e.chunks[index.toNat]? with
  | none => (false, e)
  | some slot =>
      let e' :=
        if slot.isNone then
          { e with chunks := e.chunks.set index.toNat (some payload), received := e.received + 1 }
        else e
      (e'.received == e'.total, e')

/-- The loop of `assemble`: concatenate the chunks, fail at the first empty slot. -/
def assembleFrom (out : Bytes) : List (Option Bytes) → Option Bytes
  | [] => some out
  | none :: _ => none
  | some c :: cs => assembleFrom (out ++ c) cs

def assemble (e : ReassemblyEntry) : Option Bytes := assembleFrom [] e.chunks

end ReassemblyEntry

/-- Parse a datagram and insert its chunk, as the receive path does. -/
def ReassemblyEntry.insertDatagram (e : ReassemblyEntry) (d : Bytes) : Bool × ReassemblyEntry :=
  match parseFragment d with
  | none => (false, e)
  | some (header, chunk) => e.insert header.index chunk

/-- The buffer after the datagrams `ds` have been inserted one after the other. -/
def ReassemblyEntry.insertAll (e : ReassemblyEntry) (ds : List Bytes) : ReassemblyEntry :=
  ds.foldl (fun e d => (e.insertDatagram d).2) e

/-! ## The datagrams of a message -/

/-- Number of datagrams of a payload. -/
def fragCount (payload : Bytes) : ℕ := max 1 ((payload.length + fragChunkSize - 1) / fragChunkSize)

/-- The `i`-th datagram of a payload. -/
def datagram (fragId : UInt32) (payload : Bytes) (i : ℕ) : Bytes :=
  fragment fragId (UInt16.ofNat i) (UInt16.ofNat (fragCount payload))
    (chunkAt fragChunkSize payload i)

theorem encodeFragments_eq (fragId : UInt32) (payload : Bytes) :
    encodeFragments fragId payload =
      (List.range (fragCount payload)).map (datagram fragId payload) := by
  by_cases hempty : payload = []
  · subst hempty
    rfl
  · have hpos : 0 < payload.length := List.length_pos_iff.mpr hempty
    have hcount : fragCount payload = (payload.length + fragChunkSize - 1) / fragChunkSize := by
      rw [fragCount, max_eq_right]
      simp only [fragChunkSize]
      omega
    rw [encodeFragments, if_neg (by simpa using hempty)]
    simp only [← hcount, chunks]
    apply List.ext_getElem
    · simp
    · intro i h1 h2
      simp [datagram]

theorem fragCount_pos (payload : Bytes) : 0 < fragCount payload := by
  rw [fragCount]
  omega

/-- The casts to `u16` lose nothing for a payload the sender accepts. -/
theorem fragCount_lt {payload : Bytes} (h : payload.length ≤ maxMessageSize) :
    fragCount payload < 2 ^ 16 := by
  simp only [fragCount, maxMessageSize, fragChunkSize] at h ⊢
  omega

/-- The chunks of a payload, in order, are the payload. -/
theorem flatMap_chunkAt_payload (payload : Bytes) :
    (List.range (fragCount payload)).flatMap (chunkAt fragChunkSize payload) = payload := by
  rw [flatMap_chunkAt]
  apply List.take_of_length_le
  simp only [fragCount, fragChunkSize]
  omega

theorem toNat_ofNat_of_lt {n : ℕ} (h : n < 2 ^ 16) : (UInt16.ofNat n).toNat = n := by
  rw [UInt16.toNat_ofNat', Nat.mod_eq_of_lt h]

theorem parseFragment_datagram {payload : Bytes} (h : payload.length ≤ maxMessageSize)
    (fragId : UInt32) {i : ℕ} (hi : i < fragCount payload) :
    parseFragment (datagram fragId payload i) =
      some (⟨fragId, UInt16.ofNat i, UInt16.ofNat (fragCount payload)⟩,
        chunkAt fragChunkSize payload i) := by
  have hlt := fragCount_lt h
  apply parseFragment_fragment
  rw [UInt16.lt_iff_toNat_lt, toNat_ofNat_of_lt (by omega), toNat_ofNat_of_lt hlt]
  exact hi

/-! ## Reassembly in any order -/

namespace ReassemblyEntry

/-- The buffer of a message whose chunks with indices `is` have been inserted. -/
def filled (payload : Bytes) (is : List ℕ) (now : ℕ) : ReassemblyEntry :=
  ⟨UInt16.ofNat (fragCount payload), UInt16.ofNat (arrived (fragCount payload) is),
    slotsAfter (fragCount payload) (chunkAt fragChunkSize payload) is, now⟩

variable {payload : Bytes} {is : List ℕ} {i : ℕ}

theorem new_eq_filled (h : payload.length ≤ maxMessageSize) (now : ℕ) :
    new (UInt16.ofNat (fragCount payload)) now = filled payload [] now := by
  simp [new, filled, slotsAfter_nil, toNat_ofNat_of_lt (fragCount_lt h)]

/-- **One insertion**: the slot of the chunk is filled, and the answer is `true`
exactly when every index has arrived. -/
theorem insert_filled (h : payload.length ≤ maxMessageSize) (hi : i < fragCount payload)
    (now : ℕ) :
    (filled payload is now).insert (UInt16.ofNat i) (chunkAt fragChunkSize payload i) =
      (decide (∀ j < fragCount payload, j ∈ is ++ [i]), filled payload (is ++ [i]) now) := by
  have hlt := fragCount_lt h
  have hidx : (UInt16.ofNat i).toNat = i := toNat_ofNat_of_lt (by omega)
  have hslot : (slotsAfter (fragCount payload) (chunkAt fragChunkSize payload) is)[i]? =
      some (if i ∈ is then some (chunkAt fragChunkSize payload i) else none) :=
    getElem?_slotsAfter hi
  -- the counter and the total stay below `2 ^ 16`, so comparing the words compares the numbers
  have hdone : ∀ js, (UInt16.ofNat (arrived (fragCount payload) js) ==
      UInt16.ofNat (fragCount payload)) = decide (∀ j < fragCount payload, j ∈ js) := by
    intro js
    have hle := arrived_le (fragCount payload) js
    rw [Bool.eq_iff_iff, beq_iff_eq, decide_eq_true_iff, ← arrived_eq_iff, ← UInt16.toNat_inj,
      toNat_ofNat_of_lt hlt, toNat_ofNat_of_lt (by omega)]
  by_cases hmem : i ∈ is
  · have hsame : filled payload (is ++ [i]) now = filled payload is now := by
      simp only [filled, arrived_concat_of_mem hmem, slotsAfter_concat_of_mem hmem]
    rw [← hdone, arrived_concat_of_mem hmem, hsame]
    simp [insert, filled, hidx, hslot, hmem]
  · have hsucc : UInt16.ofNat (arrived (fragCount payload) is) + 1 =
        UInt16.ofNat (arrived (fragCount payload) (is ++ [i])) := by
      rw [arrived_concat hmem hi, UInt16.ofNat_add]
      rfl
    rw [← hdone]
    simp [insert, filled, hidx, hslot, hmem, slotsAfter_concat, hsucc]

theorem assembleFrom_map_some (out : Bytes) (cs : List Bytes) :
    assembleFrom out (cs.map some) = some (out ++ cs.flatten) := by
  induction cs generalizing out with
  | nil => simp [assembleFrom]
  | cons c cs ih => simp [assembleFrom, ih]

/-- A full buffer assembles to the payload. -/
theorem assemble_filled (hfull : ∀ j < fragCount payload, j ∈ is) (now : ℕ) :
    (filled payload is now).assemble = some payload := by
  have hslots : (filled payload is now).chunks =
      ((List.range (fragCount payload)).map (chunkAt fragChunkSize payload)).map some := by
    simp only [filled, slotsAfter_of_full hfull, List.map_map, Function.comp_def]
  rw [assemble, hslots, assembleFrom_map_some, ← List.flatMap_def, flatMap_chunkAt_payload,
    List.nil_append]

theorem insertDatagram_filled (h : payload.length ≤ maxMessageSize) (fragId : UInt32)
    (hi : i < fragCount payload) (now : ℕ) :
    (filled payload is now).insertDatagram (datagram fragId payload i) =
      (decide (∀ j < fragCount payload, j ∈ is ++ [i]), filled payload (is ++ [i]) now) := by
  rw [insertDatagram, parseFragment_datagram h fragId hi]
  exact insert_filled h hi now

/-- **Any sequence of insertions** leaves the buffer with exactly the chunks inserted. -/
theorem insertAll_filled (h : payload.length ≤ maxMessageSize) (fragId : UInt32) {js : List ℕ}
    (hjs : ∀ j ∈ js, j < fragCount payload) (now : ℕ) :
    (filled payload is now).insertAll (js.map (datagram fragId payload)) =
      filled payload (is ++ js) now := by
  induction js generalizing is with
  | nil => simp [insertAll]
  | cons j js ih =>
      have hj : j < fragCount payload := hjs j (by simp)
      have hrest := @ih (is ++ [j]) fun k hk => hjs k (by simp [hk])
      simp only [insertAll, List.map_cons, List.foldl_cons, insertDatagram_filled h fragId hj]
        at hrest ⊢
      rw [hrest, List.append_assoc, List.singleton_append]

end ReassemblyEntry

/-- Different indices give different datagrams. -/
theorem datagram_inj {payload : Bytes} (h : payload.length ≤ maxMessageSize) {fragId : UInt32}
    {i j : ℕ} (hi : i < fragCount payload) (hj : j < fragCount payload)
    (heq : datagram fragId payload i = datagram fragId payload j) : i = j := by
  have hlt := fragCount_lt h
  have hparse := parseFragment_datagram h fragId hi
  rw [heq, parseFragment_datagram h fragId hj] at hparse
  simp only [Option.some.injEq, Prod.mk.injEq, FragHeader.mk.injEq] at hparse
  have hidx : (UInt16.ofNat j).toNat = (UInt16.ofNat i).toNat := by rw [hparse.1.2.1]
  rw [toNat_ofNat_of_lt (by omega), toNat_ofNat_of_lt (by omega)] at hidx
  exact hidx.symm

/-- A sequence of datagrams of one message is given by its indices. -/
theorem exists_indices {fragId : UInt32} {payload : Bytes} {ds : List Bytes}
    (hds : ∀ d ∈ ds, d ∈ encodeFragments fragId payload) :
    ∃ js : List ℕ, (∀ j ∈ js, j < fragCount payload) ∧ js.map (datagram fragId payload) = ds := by
  induction ds with
  | nil => exact ⟨[], by simp, rfl⟩
  | cons d ds ih =>
      obtain ⟨js, hjs, rfl⟩ := ih fun x hx => hds x (by simp [hx])
      have hd := hds d (by simp)
      rw [encodeFragments_eq] at hd
      obtain ⟨i, hi, rfl⟩ := List.mem_map.mp hd
      refine ⟨i :: js, ?_, rfl⟩
      simpa using ⟨List.mem_range.mp hi, hjs⟩

/-- Every datagram of a message is among the given ones exactly when every index is. -/
theorem forall_mem_encodeFragments_iff {payload : Bytes} (h : payload.length ≤ maxMessageSize)
    (fragId : UInt32) {js : List ℕ} (hjs : ∀ j ∈ js, j < fragCount payload) :
    (∀ x ∈ encodeFragments fragId payload, x ∈ js.map (datagram fragId payload)) ↔
      ∀ j < fragCount payload, j ∈ js := by
  simp only [encodeFragments_eq, List.mem_map, List.mem_range, forall_exists_index, and_imp,
    forall_apply_eq_imp_iff₂]
  constructor
  · intro hall j hj
    obtain ⟨k, hk, heq⟩ := hall j hj
    exact datagram_inj h (hjs k hk) hj heq ▸ hk
  · intro hall j hj
    exact ⟨j, hall j hj, rfl⟩

/-- **Fragmentation round trip.**  Every datagram of an accepted payload parses, with the
sender's fragment id and one total, the number of datagrams.  A single datagram carries
the payload.  Several datagrams, inserted in any order and with any repetitions,
complete the buffer exactly when each of them has been inserted, and the completed
buffer assembles to the payload. -/
theorem encodeFragments_round_trip (fragId : UInt32) (payload : Bytes)
    (h : payload.length ≤ maxMessageSize) :
    ∃ total : UInt16, total.toNat = (encodeFragments fragId payload).length ∧
      (∀ d ∈ encodeFragments fragId payload, ∃ index chunk,
        parseFragment d = some (⟨fragId, index, total⟩, chunk) ∧ (total = 1 → chunk = payload)) ∧
      (1 < total → ∀ (now : ℕ) (seen : List Bytes) (d : Bytes),
        (∀ x ∈ seen ++ [d], x ∈ encodeFragments fragId payload) →
        ((((ReassemblyEntry.new total now).insertAll seen).insertDatagram d).1 = true ↔
          ∀ x ∈ encodeFragments fragId payload, x ∈ seen ++ [d]) ∧
        ((((ReassemblyEntry.new total now).insertAll seen).insertDatagram d).1 = true →
          (((ReassemblyEntry.new total now).insertAll seen).insertDatagram d).2.assemble =
            some payload)) := by
  have hlt := fragCount_lt h
  have htotal := toNat_ofNat_of_lt hlt
  refine ⟨UInt16.ofNat (fragCount payload), ?_, ?_, ?_⟩
  · rw [htotal, encodeFragments_eq, List.length_map, List.length_range]
  · intro d hd
    rw [encodeFragments_eq] at hd
    obtain ⟨i, hi, rfl⟩ := List.mem_map.mp hd
    refine ⟨_, _, parseFragment_datagram h fragId (List.mem_range.mp hi), fun hone => ?_⟩
    -- a message of one datagram has one chunk, at index 0
    have hcount : fragCount payload = 1 := by rw [← htotal, hone]; rfl
    have hi0 : i = 0 := by rw [List.mem_range, hcount] at hi; omega
    have hall := flatMap_chunkAt_payload payload
    rwa [hcount, List.range_one, List.flatMap_singleton, ← hi0] at hall
  · intro _ now seen d hmem
    obtain ⟨js, hjs, hjs_eq⟩ := exists_indices fun x hx => hmem x (List.mem_append_left [d] hx)
    have hd := hmem d (by simp)
    rw [encodeFragments_eq] at hd
    obtain ⟨i, hi, rfl⟩ := List.mem_map.mp hd
    have hi := List.mem_range.mp hi
    have hall : ∀ j ∈ js ++ [i], j < fragCount payload := by
      simpa [or_imp, forall_and] using ⟨hjs, hi⟩
    have hseen : seen ++ [datagram fragId payload i] =
        (js ++ [i]).map (datagram fragId payload) := by
      rw [List.map_append, hjs_eq, List.map_singleton]
    rw [hseen, forall_mem_encodeFragments_iff h fragId hall, ← hjs_eq,
      ReassemblyEntry.new_eq_filled h, ReassemblyEntry.insertAll_filled h fragId hjs,
      List.nil_append, ReassemblyEntry.insertDatagram_filled h fragId hi, decide_eq_true_iff]
    exact ⟨Iff.rfl, fun hfull => ReassemblyEntry.assemble_filled hfull now⟩

/-- Three datagrams, the last of one byte, arriving as 2, 0, 2, 1. -/
theorem round_trip_three_datagrams :
    (List.replicate 2801 (7 : UInt8)).length ≤ maxMessageSize ∧
    ∃ total : UInt16, 1 < total ∧ ∀ now : ℕ,
      (((ReassemblyEntry.new total now).insertAll
          ([2, 0, 2].map (datagram 9 (List.replicate 2801 7)))).insertDatagram
        (datagram 9 (List.replicate 2801 7) 1)).2.assemble = some (List.replicate 2801 7) := by
  have hlen : (List.replicate 2801 (7 : UInt8)).length ≤ maxMessageSize := by
    rw [List.length_replicate]; decide
  have hcount : fragCount (List.replicate 2801 (7 : UInt8)) = 3 := by
    rw [fragCount, List.length_replicate]; decide
  have hmem : ∀ x, x ∈ encodeFragments 9 (List.replicate 2801 7) ↔
      x ∈ [0, 1, 2].map (datagram 9 (List.replicate 2801 7)) := by
    intro x
    rw [encodeFragments_eq, hcount]
    rfl
  obtain ⟨total, hlength, -, hrun⟩ := encodeFragments_round_trip 9 (List.replicate 2801 7) hlen
  have hmany : 1 < total := by
    rw [UInt16.lt_iff_toNat_lt, hlength, encodeFragments_eq, List.length_map, hcount]
    decide
  refine ⟨hlen, total, hmany, fun now => ?_⟩
  obtain ⟨hiff, hassemble⟩ := hrun hmany now ([2, 0, 2].map (datagram 9 (List.replicate 2801 7)))
    (datagram 9 (List.replicate 2801 7) 1) fun x hx =>
      (hmem x).mpr (List.map_subset _ (by decide : [2, 0, 2, 1] ⊆ [0, 1, 2]) hx)
  refine hassemble (hiff.mpr fun x hx => ?_)
  exact List.map_subset _ (by decide : [0, 1, 2] ⊆ [2, 0, 2, 1]) ((hmem x).mp hx)

end AuthKademlia
