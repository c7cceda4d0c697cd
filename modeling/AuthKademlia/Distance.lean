import AuthKademlia.Lib.Dyadic
import AuthKademlia.Node

/-!
# The XOR metric on node ids

Distances are taken between folded ids.  Symmetry and the triangle inequality are facts
about XOR and hold for all nodes.  That different ids are apart is lost in the fold: it
keeps the twelve bytes in the middle of an id, and of the first and the last four bytes
only their XOR (`idToU128_eq_iff`).

## Main definitions

* `NodeId.headWord`, `NodeId.middle`, `NodeId.tailWord` — the three parts of an id.
* `distance_metric_iff` — for which ids the distance is a metric.
-/

namespace AuthKademlia

open Lib

namespace NodeId

/-- Bytes `[0..4]` as a `u32`. -/
def headWord (id : NodeId) : ℕ := fromBeBytes (id.bytes.take 4)

/-- Bytes `[4..16]`. -/
def middle (id : NodeId) : Bytes := (id.bytes.drop 4).take 12

/-- Bytes `[16..20]` as a `u32`. -/
def tailWord (id : NodeId) : ℕ := fromBeBytes ((id.bytes.drop 16).take 4)

theorem length_middle (id : NodeId) : id.middle.length = 12 := by
  have hlen : id.bytes.length = 20 := id.length_eq
  simp [middle, hlen]

end NodeId

/-- The two parts of a folded id. -/
theorem idToU128_parts (id : NodeId) :
    idToU128 id / 2 ^ 96 = id.headWord ^^^ id.tailWord ∧
      idToU128 id % 2 ^ 96 = fromBeBytes id.middle := by
  have hpow : 256 ^ 12 = 2 ^ 96 := by norm_num
  have hmiddle := fromBeBytes_lt id.middle
  rw [id.length_middle, hpow] at hmiddle
  have hsplit : id.bytes.take 16 = id.bytes.take 4 ++ id.middle :=
    List.take_add (l := id.bytes) (i := 4) (j := 12)
  have hbase : fromBeBytes (id.bytes.take 16) =
      id.headWord * 2 ^ 96 + fromBeBytes id.middle := by
    rw [hsplit, fromBeBytes_append, id.length_middle, hpow, NodeId.headWord]
  rw [idToU128, hbase, Nat.shiftLeft_eq]
  exact xor_mul_two_pow hmiddle

/-- **What the fold keeps of an id.** -/
theorem idToU128_eq_iff (a b : NodeId) :
    idToU128 a = idToU128 b ↔
      a.middle = b.middle ∧ a.headWord ^^^ a.tailWord = b.headWord ^^^ b.tailWord := by
  obtain ⟨hadiv, hamod⟩ := idToU128_parts a
  obtain ⟨hbdiv, hbmod⟩ := idToU128_parts b
  rw [← fromBeBytes_inj (a.length_middle.trans b.length_middle.symm), ← hadiv, ← hbdiv, ← hamod,
    ← hbmod]
  omega

/-- **The distance is a metric** on exactly the ids the fold tells apart: they are equal,
or differ in the middle, or in the XOR of their first and last four bytes. -/
theorem distance_metric_iff (a b c : Node) :
    ((a.distanceTo b = 0 ↔ a.id = b.id) ∧ a.distanceTo b = b.distanceTo a ∧
      a.distanceTo c ≤ a.distanceTo b + b.distanceTo c) ↔
    (a.id = b.id ∨ a.id.middle ≠ b.id.middle ∨
      a.id.headWord ^^^ a.id.tailWord ≠ b.id.headWord ^^^ b.id.tailWord) := by
  have hsymm : a.distanceTo b = b.distanceTo a := Nat.xor_comm _ _
  have htriangle : a.distanceTo c ≤ a.distanceTo b + b.distanceTo c := xor_triangle _ _ _
  have hzero : a.distanceTo b = 0 ↔ a.id.middle = b.id.middle ∧
      a.id.headWord ^^^ a.id.tailWord = b.id.headWord ^^^ b.id.tailWord := by
    rw [Node.distanceTo, Nat.xor_eq_zero_iff]
    exact idToU128_eq_iff a.id b.id
  have hself : a.id = b.id → a.distanceTo b = 0 := by
    intro h
    rw [Node.distanceTo, Node.longId_congr h, Nat.xor_self]
  simp only [hsymm.symm, htriangle, and_true]
  tauto

/-- Two different ids at distance zero: the first byte of one is its byte 16. -/
theorem distinct_ids_at_distance_zero :
    (Node.fromId (NodeId.ofNat 0)).distanceTo
        (Node.fromId (NodeId.ofNat (1 <<< 152 + 1 <<< 24))) = 0 ∧
      (Node.fromId (NodeId.ofNat 0)).id ≠
        (Node.fromId (NodeId.ofNat (1 <<< 152 + 1 <<< 24))).id := by
  decide +kernel

end AuthKademlia
