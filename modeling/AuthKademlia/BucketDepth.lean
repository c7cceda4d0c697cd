import AuthKademlia.RoutingInvariant
import AuthKademlia.Lib.Leading
import AuthKademlia.Lib.Text

/-!
# The depth of a bucket

`KBucket.depth` counts bits in three nested loops, over bytes, bits and contacts.  The
helpers of `utils` say what it counts: write every id as a text of zeros and ones
(`bytes_to_bit_string`) and take the part these texts share (`shared_prefix`).

Both count from the first bit on until some contact differs from the first one, so both are
`leading` of one condition.  `bits` is the link: the text of an id has at place `i` the bit
that `depth` reads at byte `i / 8` and shift `7 - i % 8`.

The range of a bucket is about folded ids, its depth about the ids themselves.  The contacts
of a bucket that is the result of `d` splits share the first `d` bits of their folds, and a
fold has in its first 32 bits the first and the last 32 bits of the id, XOR-ed
(`testBit_idToU128`).  So the depth is at least `d` only when the contacts also share what
was folded in (`le_depth_iff_tails_agree`).

## Main definitions

* `sharedPrefix`, `bytesToBitString` — the two helpers.
* `bits` — the bit string of an id.
* `bitOf` — one bit of an id.
-/

namespace AuthKademlia

open Lib

/-! ## The helpers -/

/-- The longest common byte prefix of all slices. -/
def sharedPrefix (args : List Bytes) : Bytes :=
  match args.head? with
  | none => []
  | some first =>
      let minLen := (args.map List.length).min?.getD 0
      let prefixLen := ((List.range minLen).takeWhile fun i =>
        args.all fun a => a.getD i 0 == first.getD i 0).length
      first.take prefixLen

/-- `format!("\x7b:08b\x7d")`: the binary digits of a byte, padded with zeros to eight. -/
def binaryDigits (b : UInt8) : List Char :=
  let digits := Nat.toDigits 2 b.toNat
  List.replicate (8 - digits.length) '0' ++ digits

/-- A byte string in binary. -/
def bytesToBitString (bytes : Bytes) : String :=
  String.join (bytes.map fun b => String.ofList (binaryDigits b))

/-- The bit string of an id, as the bytes that `shared_prefix` compares. -/
def bits (id : NodeId) : Bytes := asBytes (bytesToBitString id.bytes)

/-! ## The bit string of an id -/

/-- The digits of one byte are its bits, most significant first. -/
theorem utf8_binaryDigits (b : UInt8) :
    (binaryDigits b).flatMap String.utf8EncodeChar =
      (List.range 8).reverse.map fun shift => 48 + ((b >>> UInt8.ofNat shift) &&& 1) := by
  have hdigit : ∀ d < 2, String.utf8EncodeChar (Nat.digitChar d) = [48 + UInt8.ofNat d] := by
    decide
  rw [binaryDigits, replicate_append_toDigits (by decide) b.toNat_lt, List.flatMap_map,
    List.map_eq_flatMap]
  refine List.flatMap_congr ?_
  intro shift hshift
  have hlt : shift < 8 := by simpa using hshift
  rw [hdigit _ (Nat.mod_lt _ (by decide)), shiftRight_and_one b hlt, Nat.toNat_testBit]

/-- The positions of `depth` in the order of the bit string. -/
theorem bitPositions_eq :
    KBucket.bitPositions = (List.range (idLen * 8)).map fun i => (i / 8, 7 - i % 8) := by
  decide

/-- The `i`-th bit of an id, counted from the most significant one. -/
def bitOf (id : NodeId) (i : ℕ) : UInt8 := KBucket.bitAt id (i / 8, 7 - i % 8)

/-- **The bit string, bit by bit.** -/
theorem bits_eq (id : NodeId) :
    bits id = (List.range (idLen * 8)).map fun i => 48 + bitOf id i := by
  have hbytes : (List.range idLen).map (fun i => id.bytes.getD i 0) = id.bytes := by
    apply List.ext_getElem
    · simp [id.length_eq]
    · intro i h1 h2
      simp [h2]
  have hpos : bits id = KBucket.bitPositions.map fun p => 48 + KBucket.bitAt id p := by
    simp only [bits, asBytes, bytesToBitString, toUTF8_toList, String.toList_join, List.flatMap_map,
      String.toList_ofList, List.flatMap_assoc, utf8_binaryDigits]
    conv_lhs => rw [← hbytes]
    simp [KBucket.bitPositions, KBucket.bitAt, List.map_flatMap, List.flatMap_map,
      Function.comp_def]
  rw [hpos, bitPositions_eq, List.map_map]
  rfl

@[simp] theorem length_bits (id : NodeId) : (bits id).length = idLen * 8 := by
  simp [bits_eq]

theorem getElem?_bits (id : NodeId) {i : ℕ} (hi : i < idLen * 8) :
    (bits id)[i]? = some (48 + bitOf id i) := by
  simp [bits_eq, hi]

/-! ## What is counted -/

/-- All ids have the bit of the first one at place `i`. -/
def agreeAt (first : Node) (nodes : List Node) (i : ℕ) : Bool :=
  nodes.all fun n => bitOf n.id i == bitOf first.id i

/-- `depth` counts the places at which all ids agree. -/
theorem depth_eq_leading {b : KBucket} {first : Node} {rest : List Node}
    (h : b.nodes = first :: rest) : b.depth = leading (agreeAt first b.nodes) (idLen * 8) := by
  cases rest with
  | nil =>
      rw [leading_eq_of_forall (by simp [agreeAt, h])]
      simp [KBucket.depth, h, first.id.length_eq]
  | cons second rest =>
      have htake : b.depth = leading (agreeAt first (second :: rest)) (idLen * 8) := by
        simp only [KBucket.depth, h, bitPositions_eq, List.takeWhile_map, List.length_map]
        rfl
      rw [htake, h]
      refine leading_congr ?_
      intro i _
      simp [agreeAt]

/-- The depth is at least `d` when all ids share their first `d` bits. -/
theorem le_depth_iff {b : KBucket} (h : b.nodes ≠ []) {d : ℕ} (hd : d ≤ idLen * 8) :
    d ≤ b.depth ↔ ∀ m ∈ b.nodes, ∀ n ∈ b.nodes, ∀ i < d, bitOf m.id i = bitOf n.id i := by
  obtain ⟨first, rest, hnodes⟩ := List.exists_cons_of_ne_nil h
  rw [depth_eq_leading hnodes, le_leading_iff hd]
  simp only [agreeAt, List.all_eq_true, beq_iff_eq]
  constructor
  · intro hagree m hm n hn i hi
    rw [hagree i hi m hm, hagree i hi n hn]
  · intro hshare i hi m hm
    exact hshare m hm first (by simp [hnodes]) i hi

/-- `shared_prefix` of the bit strings counts the same. -/
theorem length_sharedPrefix_bits (first : Node) (rest : List Node) :
    (sharedPrefix ((first :: rest).map fun n => bits n.id)).length =
      leading (agreeAt first (first :: rest)) (idLen * 8) := by
  have hmin : (((first :: rest).map fun n => bits n.id).map List.length).min?.getD 0 =
      idLen * 8 := by
    have hlen : ((first :: rest).map fun n => bits n.id).map List.length =
        List.replicate (rest.length + 1) (idLen * 8) := by
      simp [List.eq_replicate_iff]
    rw [hlen, List.min?_replicate]
    simp
  have hcount : (sharedPrefix ((first :: rest).map fun n => bits n.id)).length =
      leading (fun i => ((first :: rest).map fun n => bits n.id).all fun a =>
        a.getD i 0 == (bits first.id).getD i 0) (idLen * 8) := by
    have hle := leading_le (fun i => ((first :: rest).map fun n => bits n.id).all fun a =>
        a.getD i 0 == (bits first.id).getD i 0) (idLen * 8)
    simp only [leading] at hle
    simp only [sharedPrefix, hmin, List.head?_map, List.head?_cons, Option.map_some,
      List.length_take, length_bits, leading]
    exact Nat.min_eq_left hle
  rw [hcount]
  refine leading_congr ?_
  intro i hi
  rw [Bool.eq_iff_iff]
  simp [agreeAt, getElem?_bits _ hi]

/-- **`depth` is the length of the common bit prefix.**  For a bucket with a contact it is
the length of `shared_prefix` of the bit strings of all primary ids; all of them agree on
that many bits, and unless these are all, two of them differ on the next one. -/
theorem depth_eq_sharedPrefix (b : KBucket) (h : b.nodes ≠ []) :
    b.depth = (sharedPrefix (b.nodes.map fun n => bits n.id)).length ∧
      (∀ m ∈ b.nodes, ∀ n ∈ b.nodes,
        (bits m.id).take b.depth = (bits n.id).take b.depth) ∧
      (b.depth < 160 → ∃ m ∈ b.nodes, ∃ n ∈ b.nodes,
        (bits m.id)[b.depth]? ≠ (bits n.id)[b.depth]?) := by
  obtain ⟨first, rest, hnodes⟩ := List.exists_cons_of_ne_nil h
  have hdepth := depth_eq_leading hnodes
  refine ⟨?_, ?_, ?_⟩
  · rw [hdepth, hnodes, length_sharedPrefix_bits]
  · have hle : b.depth ≤ idLen * 8 := hdepth ▸ leading_le _ _
    have hshare := (le_depth_iff h hle).mp (Nat.le_refl b.depth)
    intro m hm n hn
    simp only [bits_eq, ← List.map_take, List.take_range]
    refine List.map_congr_left ?_
    intro i hi
    simp only [List.mem_range, lt_inf_iff] at hi
    rw [hshare m hm n hn i hi.1]
  · intro hlt
    have hfail := not_of_leading_lt (hdepth ▸ hlt : leading (agreeAt first b.nodes) (idLen * 8) < _)
    rw [← hdepth] at hfail
    simp only [agreeAt, List.all_eq_false, beq_iff_eq] at hfail
    obtain ⟨n, hn, hne⟩ := hfail
    refine ⟨n, hn, first, by simp [hnodes], ?_⟩
    rw [getElem?_bits _ hlt, getElem?_bits _ hlt]
    simpa using hne

/-- A bucket with the ids `0` and `1`. -/
def neighbours : KBucket :=
  { KBucket.new 0 u128Max 20 0 with
    nodes := [Node.fromId (NodeId.ofNat 0), Node.fromId (NodeId.ofNat 1)] }

/-- They share all bits but the last. -/
theorem depth_neighbours :
    neighbours.depth = 159 ∧ (sharedPrefix (neighbours.nodes.map fun n => bits n.id)).length = 159 ∧
      ∃ m ∈ neighbours.nodes, ∃ n ∈ neighbours.nodes, (bits m.id)[159]? ≠ (bits n.id)[159]? := by
  have hdepth : neighbours.depth = 159 := by decide +kernel
  have hall := depth_eq_sharedPrefix neighbours (by decide)
  rw [hdepth] at hall
  exact ⟨hdepth, hall.1.symm, hall.2.2 (by decide)⟩

/-! ## Depth and range -/

theorem bitOf_eq (id : NodeId) (i : ℕ) : bitOf id i = UInt8.ofNat (beBit id.bytes i).toNat :=
  shiftRight_and_one (id.bytes.getD (i / 8) 0) (by omega)

theorem bitOf_eq_iff (x y : NodeId) (i : ℕ) :
    bitOf x i = bitOf y i ↔ beBit x.bytes i = beBit y.bytes i := by
  rw [bitOf_eq, bitOf_eq]
  cases beBit x.bytes i <;> cases beBit y.bytes i <;> decide

/-- **The fold, bit by bit**: its first 32 bits are those of the id XOR-ed with the last 32,
the others are those of the id. -/
theorem testBit_idToU128 (id : NodeId) {i : ℕ} (hi : i < 128) :
    (idToU128 id).testBit (127 - i) =
      (beBit id.bytes i ^^ (decide (i < 32) && beBit id.bytes (128 + i))) := by
  have hlen : id.bytes.length = 20 := id.length_eq
  have hbase : (fromBeBytes (id.bytes.take 16)).testBit (127 - i) = beBit id.bytes i := by
    have hlen16 : (id.bytes.take 16).length = 16 := by simp [hlen]
    have hbits := testBit_fromBeBytes (id.bytes.take 16) (i := i) (by omega)
    rwa [hlen16, beBit_take _ (by omega)] at hbits
  rw [idToU128, Nat.testBit_xor, hbase, Nat.testBit_shiftLeft]
  by_cases h32 : i < 32
  · have htail : (fromBeBytes ((id.bytes.drop 16).take 4)).testBit (31 - i) =
        beBit id.bytes (128 + i) := by
      have hlen4 : ((id.bytes.drop 16).take 4).length = 4 := by simp [hlen]
      have hbits := testBit_fromBeBytes ((id.bytes.drop 16).take 4) (i := i) (by omega)
      rwa [hlen4, beBit_take _ (by omega), beBit_drop] at hbits
    have hindex : 127 - i - 96 = 31 - i := by omega
    have hge : 96 ≤ 127 - i := by omega
    simp [hindex, htail, h32, hge]
  · have hlt : ¬ 96 ≤ 127 - i := by omega
    simp [h32, hlt]

/-- Of two ids whose folds share the first `d` bits, the first `d` bits are shared exactly
when the bits folded into them are. -/
theorem agree_iff_of_fold_eq {x y : NodeId} {d : ℕ} (hd : d ≤ 128)
    (h : idToU128 x / 2 ^ (128 - d) = idToU128 y / 2 ^ (128 - d)) :
    (∀ i < d, bitOf x i = bitOf y i) ↔
      ∀ i < min d 32, bitOf x (128 + i) = bitOf y (128 + i) := by
  have hbit : ∀ i < d, (bitOf x i = bitOf y i ↔
      (i < 32 → bitOf x (128 + i) = bitOf y (128 + i))) := by
    intro i hi
    have hfold := congrArg (Nat.testBit · (d - 1 - i)) h
    have hindex : d - 1 - i + (128 - d) = 127 - i := by omega
    simp only [Nat.testBit_div_two_pow, hindex] at hfold
    rw [testBit_idToU128 x (by omega), testBit_idToU128 y (by omega)] at hfold
    simp only [bitOf_eq_iff]
    by_cases h32 : i < 32
    · simp only [h32, decide_true, Bool.true_and] at hfold
      simp only [h32, forall_const]
      -- the XOR of two bits is the same for both ids
      revert hfold
      cases beBit x.bytes i <;> cases beBit y.bytes i <;> cases beBit x.bytes (128 + i) <;>
        cases beBit y.bytes (128 + i) <;> decide
    · simpa [h32] using hfold
  constructor
  · intro hall i hi
    rw [lt_inf_iff] at hi
    exact (hbit i hi.1).mp (hall i hi.1) hi.2
  · intro hall i hi
    exact (hbit i hi).mpr fun h32 => hall i (lt_inf_iff.mpr ⟨hi, h32⟩)

namespace RoutingTable

/-- **Depth against range.**  Take a bucket with a contact, in any table that calls lead to,
whose range is a block of size `2 ^ (128 - d)`.  Its depth is at least `d` if and only if the
last four bytes of its contacts, which are folded in, agree on their first `min d 32` bits. -/
theorem le_depth_iff_tails_agree (localNode : Node) (ksize start : ℕ) (ops : List RoutingOp)
    (t : RoutingTable) (hrun : exec step (new localNode ksize start) ops = some t)
    (b : KBucket) (hb : b ∈ t.buckets) (hne : b.nodes ≠ []) (d : ℕ) (hd : d ≤ 128)
    (hsize : b.hi + 1 = b.lo + 2 ^ (128 - d)) :
    d ≤ b.depth ↔ ∀ m ∈ b.nodes, ∀ n ∈ b.nodes, ∀ i < min d 32,
      bitOf m.id (128 + i) = bitOf n.id (128 + i) := by
  have hok := (Invariant.exec hrun).1.bucketOk b hb
  have hrange : ∀ n ∈ b.nodes, b.lo ≤ n.longId ∧ n.longId ≤ b.hi := by
    intro n hn
    exact hok.valid.in_range n (List.mem_append_left _ hn)
  -- the folds share what stands above the size of the range
  have hfold : ∀ m ∈ b.nodes, ∀ n ∈ b.nodes,
      m.longId / 2 ^ (128 - d) = n.longId / 2 ^ (128 - d) := by
    intro m hm n hn
    exact hok.dyadic.div_eq_div hsize (hrange m hm) (hrange n hn)
  have hd160 : d ≤ idLen * 8 := hd.trans (by decide)
  rw [le_depth_iff hne hd160]
  refine forall₂_congr fun m hm => forall₂_congr fun n hn => ?_
  exact agree_iff_of_fold_eq hd (hfold m hm n hn)

/-- Three contacts: one of the lower half of the key space, `nodeAt 0x80` and the one with
the number `x`. -/
def upperContacts (x : ℕ) : List RoutingOp :=
  [nodeAt 0x01, nodeAt 0x80, Node.fromId (NodeId.ofNat x)].map fun n => .addContact 0 9 n

/-- The table of `nodeAt 0xe0` for `ksize = 2` after `upperContacts x`. -/
def upperTable (x : ℕ) : RoutingTable :=
  (exec step (new (nodeAt 0xe0) 2 0) (upperContacts x)).getD (new (nodeAt 0xe0) 2 0)

/-- Its last bucket, the upper half of the key space. -/
def upperBucket (x : ℕ) : KBucket := (upperTable x).buckets.getLastD (KBucket.new 0 u128Max 2 0)

/-- Two contacts with the same last bytes: one split, and a shared first bit. -/
theorem depth_upperBucket_same_tails :
    (upperBucket (0xc0 <<< 152)).nodes = [nodeAt 0x80, nodeAt 0xc0] ∧
      1 ≤ (upperBucket (0xc0 <<< 152)).depth := by
  refine ⟨by decide +kernel, ?_⟩
  exact (le_depth_iff_tails_agree (nodeAt 0xe0) 2 0 (upperContacts (0xc0 <<< 152))
    (upperTable (0xc0 <<< 152)) (by decide +kernel) (upperBucket (0xc0 <<< 152))
    (by decide +kernel) (by decide +kernel) 1 (by decide) (by decide +kernel)).mpr
    (by decide +kernel)

/-- **One split, no shared bit.**  The second contact of the upper half has its bits in byte
16: its fold is that of `nodeAt 0xc0`, its id begins with a zero. -/
theorem depth_upperBucket_folded_tail :
    exec step (new (nodeAt 0xe0) 2 0) (upperContacts (0xc0 <<< 24)) =
        some (upperTable (0xc0 <<< 24)) ∧
      upperBucket (0xc0 <<< 24) ∈ (upperTable (0xc0 <<< 24)).buckets ∧
      (upperBucket (0xc0 <<< 24)).nodes =
        [nodeAt 0x80, Node.fromId (NodeId.ofNat (0xc0 <<< 24))] ∧
      (upperBucket (0xc0 <<< 24)).hi + 1 = (upperBucket (0xc0 <<< 24)).lo + 2 ^ (128 - 1) ∧
      ¬ 1 ≤ (upperBucket (0xc0 <<< 24)).depth := by
  decide +kernel

end RoutingTable

end AuthKademlia
