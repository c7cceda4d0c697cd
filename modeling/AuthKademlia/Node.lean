import AuthKademlia.Lib.BigEndian
import Mathlib.Data.Nat.Bitwise

/-!
# Node identifiers and the folded key space

A peer is identified by a 20-byte id.  Distances are taken between `long_id`s:
the first 16 bytes read as a big-endian `u128`, with the last four bytes XOR-ed
into its top 32 bits.  The fold is not injective, so two different ids may share
a `longId`; every definition that compares peers compares ids, and every
definition that places them in the key space uses `longId`.

A `u128` is a natural number here; `longId_lt` is the bound that makes it one.

## Main definitions

* `NodeId`, `Node` — a peer id and a peer with its address.
* `idToU128`, `Node.longId`, `Node.distanceTo` — the fold and the XOR distance.
-/

namespace AuthKademlia

/-- A byte string. -/
abbrev Bytes := List UInt8

/-- `str::as_bytes`. -/
def asBytes (s : String) : Bytes := s.toUTF8.toList

/-- `Duration::from_secs`, in nanoseconds; every clock reading is in nanoseconds. -/
def fromSecs (secs : ℕ) : ℕ := secs * 1000000000

/-- Byte length of a node id (SHA-1 output). -/
def idLen : ℕ := 20

/-- `u128::MAX`. -/
def u128Max : ℕ := 2 ^ 128 - 1

/-- A 20-byte id. -/
@[ext] structure NodeId where
  bytes : Bytes
  length_eq : bytes.length = idLen
  deriving DecidableEq

/-- The id whose bytes are the 20-byte big-endian form of `n`. -/
def NodeId.ofNat (n : ℕ) : NodeId := ⟨Lib.toBeBytes idLen n, Lib.length_toBeBytes _ _⟩

/-- Fold a 20-byte id into a `u128`: bytes `[0..16]` big-endian, then bytes
`[16..20]` XOR-ed into the top 32 bits. -/
def idToU128 (id : NodeId) : ℕ :=
  let base := Lib.fromBeBytes (id.bytes.take 16)
  let tail := Lib.fromBeBytes ((id.bytes.drop 16).take 4)
  base ^^^ (tail <<< 96)

/-- A Kademlia peer.  `Node::new` is the only constructor and computes `long_id`
from the id, so the cached field is the function `Node.longId` here. -/
structure Node where
  id : NodeId
  ip : Option String
  port : Option UInt16
  deriving DecidableEq

namespace Node

/-- A node without an address, used as a lookup key. -/
def fromId (id : NodeId) : Node := ⟨id, none, none⟩

/-- The node's position in the 128-bit key space. -/
def longId (n : Node) : ℕ := idToU128 n.id

/-- XOR distance to another node. -/
def distanceTo (a b : Node) : ℕ := a.longId ^^^ b.longId

/-- The address, if both halves are known. -/
def address (n : Node) : Option (String × UInt16) :=
  match n.ip, n.port with
  | some ip, some port => some (ip, port)
  | _, _ => none

end Node

theorem idToU128_lt (id : NodeId) : idToU128 id < 2 ^ 128 := by
  have hlen : id.bytes.length = 20 := id.length_eq
  have hbase : Lib.fromBeBytes (id.bytes.take 16) < 256 ^ 16 := by
    simpa [hlen] using Lib.fromBeBytes_lt (id.bytes.take 16)
  have htail : Lib.fromBeBytes ((id.bytes.drop 16).take 4) < 256 ^ 4 := by
    simpa [hlen] using Lib.fromBeBytes_lt ((id.bytes.drop 16).take 4)
  refine Nat.xor_lt_two_pow (lt_of_lt_of_le hbase (by norm_num)) ?_
  rw [Nat.shiftLeft_eq]
  omega

/-- A `longId` fits in a `u128`. -/
theorem Node.longId_lt (n : Node) : n.longId < 2 ^ 128 := idToU128_lt n.id

/-- Nodes with the same id sit at the same point of the key space. -/
theorem Node.longId_congr {a b : Node} (h : a.id = b.id) : a.longId = b.longId := by
  simp only [Node.longId, h]

end AuthKademlia
