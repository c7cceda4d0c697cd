import AuthKademlia.Node
import Mathlib.Data.List.Induction
import Mathlib.Data.List.Nodup
import Mathlib.Data.List.Perm.Basic

/-!
# K-buckets

A bucket covers a closed range of the 128-bit key space.  It keeps at most `ksize`
primary contacts, least recently seen first, and an overflow list of replacement
contacts that arrived while it was full.

`split` is the only operation that does arithmetic on the range, and it does so in
`u128`: `KBucket.split` returns `none` where that arithmetic leaves the type.

`KBucket.Valid` is what every reachable bucket satisfies.  The operations are
described by what they do to a valid bucket; in particular filling a fresh bucket
with a list of distinct contacts leaves the first `ksize` of them primary and the
rest in the replacement list (`load_new`), which is all that `split` ever does to
its two halves (`split_eq`).

## Main definitions

* `KBucket.addNode`, `removeNode`, `split`, `depth` — the operations of the source.
* `KBucket.contacts` — primary contacts followed by replacements.
* `KBucket.Valid` — the bucket invariant.
-/

namespace AuthKademlia

/-- A bucket covering the key-space range `[lo, hi]`. -/
structure KBucket where
  lo : ℕ
  hi : ℕ
  /-- Primary contacts, least recently seen at the front. -/
  nodes : List Node
  /-- Contacts that arrived while the bucket was full, oldest first. -/
  replacementNodes : List Node
  ksize : ℕ
  maxReplacementNodes : ℕ
  /-- Time of the last lookup that touched the bucket, in seconds. -/
  lastUpdated : ℕ
  deriving DecidableEq

namespace KBucket

/-! ## The operations -/

def new (lo hi ksize now : ℕ) : KBucket :=
  ⟨lo, hi, [], [], ksize, ksize * 5, now⟩

def touchLastUpdated (b : KBucket) (now : ℕ) : KBucket := { b with lastUpdated := now }

/-- Is the node in the primary list? -/
def contains (b : KBucket) (node : Node) : Bool := b.nodes.any fun n => n.id == node.id

def covers (b : KBucket) (longId : ℕ) : Bool := decide (b.lo ≤ longId ∧ longId ≤ b.hi)

/-- Least recently seen primary contact. -/
def head (b : KBucket) : Option Node := b.nodes.head?

/-- `remove(position(id))`: drop the first entry with the node's id. -/
def withoutFirst (node : Node) (l : List Node) : List Node := l.eraseP fun n => n.id == node.id

/-- `while len > max { pop_front }`. -/
def evictOldest (max : ℕ) : List Node → List Node
  | [] => []
  | n :: ns => if max < (n :: ns).length then evictOldest max ns else n :: ns

/-- The replacement list with the node queued as its newest entry. -/
def queueReplacement (b : KBucket) (node : Node) : List Node :=
  evictOldest b.maxReplacementNodes (withoutFirst node b.replacementNodes ++ [node])

/-- Insert or refresh a node.  The answer is `false` exactly when the node had to
go to the replacement list. -/
def addNode (b : KBucket) (node : Node) : Bool × KBucket :=
  if b.contains node then
    (true, { b with nodes := withoutFirst node b.nodes ++ [node] })
  else if b.nodes.length < b.ksize then
    (true, { b with nodes := b.nodes ++ [node] })
  else
    (false, { b with replacementNodes := b.queueReplacement node })

/-- Remove a node from both lists.  A primary contact is replaced by the most
recently seen replacement, if there is one. -/
def removeNode (b : KBucket) (node : Node) : KBucket :=
  let repl := b.replacementNodes.filter fun n => n.id != node.id
  if b.contains node then
    match repl.getLast? with
    | some r =>
        { b with nodes := withoutFirst node b.nodes ++ [r], replacementNodes := repl.dropLast }
    | none => { b with nodes := withoutFirst node b.nodes, replacementNodes := repl }
  else { b with replacementNodes := repl }

/-- One redistribution step of `split`. -/
def route (mid : ℕ) (halves : KBucket × KBucket) (n : Node) : KBucket × KBucket :=
  if n.longId ≤ mid then ((halves.1.addNode n).2, halves.2) else (halves.1, (halves.2.addNode n).2)

/-- Split at the midpoint.  `none` when `hi - lo` underflows or `mid + 1` does not
fit in a `u128`. -/
def split (b : KBucket) (now : ℕ) : Option (KBucket × KBucket) :=
  let mid := b.lo + (b.hi - b.lo) / 2
  if b.lo ≤ b.hi ∧ mid + 1 ≤ u128Max then
    some ((b.nodes ++ b.replacementNodes).foldl (route mid)
      (new b.lo mid b.ksize now, new (mid + 1) b.hi b.ksize now))
  else none

/-- The bit of `id` at byte `p.1`, shift `p.2`. -/
def bitAt (id : NodeId) (p : ℕ × ℕ) : UInt8 := (id.bytes.getD p.1 0 >>> UInt8.ofNat p.2) &&& 1

/-- The positions the two nested loops of `depth` visit, most significant first. -/
def bitPositions : List (ℕ × ℕ) :=
  (List.range idLen).flatMap fun i => (List.range 8).reverse.map fun shift => (i, shift)

/-- Length in bits of the common prefix of all primary ids. -/
def depth (b : KBucket) : ℕ :=
  match b.nodes with
  | [] => 0
  | [n] => n.id.bytes.length * 8
  | first :: rest =>
      (bitPositions.takeWhile fun p => rest.all fun n => bitAt n.id p == bitAt first.id p).length

/-! ## The invariant -/

/-- Everything the bucket holds, in the order `split` redistributes it. -/
def contacts (b : KBucket) : List Node := b.nodes ++ b.replacementNodes

/-- The bucket invariant. -/
structure Valid (b : KBucket) : Prop where
  ids_nodup : (b.contacts.map Node.id).Nodup
  max_eq : b.maxReplacementNodes = b.ksize * 5
  nodes_le : b.nodes.length ≤ b.ksize
  replacements_le : b.replacementNodes.length ≤ b.maxReplacementNodes
  full_of_replacement : b.replacementNodes ≠ [] → b.nodes.length = b.ksize
  in_range : ∀ n ∈ b.contacts, b.lo ≤ n.longId ∧ n.longId ≤ b.hi

theorem covers_iff {b : KBucket} {x : ℕ} : b.covers x = true ↔ b.lo ≤ x ∧ x ≤ b.hi := by
  simp [covers]

theorem contains_iff {b : KBucket} {node : Node} :
    b.contains node = true ↔ node.id ∈ b.nodes.map Node.id := by
  simp only [contains, List.any_eq_true, beq_iff_eq, List.mem_map]

theorem valid_new (lo hi ksize now : ℕ) : (new lo hi ksize now).Valid where
  ids_nodup := by simp [new, contacts]
  max_eq := rfl
  nodes_le := by simp [new]
  replacements_le := by simp [new]
  full_of_replacement := by simp [new]
  in_range := by simp [new, contacts]

/-! ## Lists of contacts -/

theorem withoutFirst_sublist (node : Node) (l : List Node) : (withoutFirst node l).Sublist l :=
  List.eraseP_sublist

/-- On ids, `withoutFirst` is the list library's `erase`. -/
theorem map_id_withoutFirst (node : Node) (l : List Node) :
    (withoutFirst node l).map Node.id = (l.map Node.id).erase node.id := by
  rw [List.erase_eq_eraseP', List.eraseP_map]
  rfl

theorem withoutFirst_of_notMem {node : Node} {l : List Node} (h : node.id ∉ l.map Node.id) :
    withoutFirst node l = l := by
  apply List.eraseP_of_forall_not
  intro n hn
  simp only [beq_iff_eq]
  intro heq
  exact h (heq ▸ List.mem_map_of_mem hn)

/-- A node at the end of a list of distinct contacts is found only there. -/
theorem withoutFirst_concat {node : Node} {l : List Node} (h : node.id ∉ l.map Node.id) :
    withoutFirst node (l ++ [node]) = l := by
  rw [withoutFirst, List.eraseP_append_right, List.eraseP_cons_of_pos (by simp), List.append_nil]
  intro n hn
  simp only [beq_iff_eq]
  intro heq
  exact h (heq ▸ List.mem_map_of_mem hn)

/-- Moving a known contact to the tail only permutes the ids. -/
theorem perm_map_id_refresh {node : Node} {l : List Node} (h : node.id ∈ l.map Node.id) :
    ((withoutFirst node l ++ [node]).map Node.id).Perm (l.map Node.id) := by
  rw [List.map_append, map_id_withoutFirst]
  exact (List.perm_append_singleton _ _).trans (List.perm_cons_erase h).symm

theorem evictOldest_eq_drop (max : ℕ) (l : List Node) :
    evictOldest max l = l.drop (l.length - max) := by
  induction l with
  | nil => simp [evictOldest]
  | cons a l ih =>
      simp only [evictOldest]
      split
      · next h =>
          rw [ih]
          have : (a :: l).length - max = (l.length - max) + 1 := by
            simp only [List.length_cons] at h ⊢
            omega
          rw [this, List.drop_succ_cons]
      · next h => rw [Nat.sub_eq_zero_of_le (by omega), List.drop_zero]

theorem evictOldest_sublist (max : ℕ) (l : List Node) : (evictOldest max l).Sublist l := by
  rw [evictOldest_eq_drop]
  exact List.drop_sublist _ _

theorem length_evictOldest_le (max : ℕ) (l : List Node) : (evictOldest max l).length ≤ max := by
  rw [evictOldest_eq_drop, List.length_drop]
  omega

theorem evictOldest_of_le {max : ℕ} {l : List Node} (h : l.length ≤ max) :
    evictOldest max l = l := by
  rw [evictOldest_eq_drop, Nat.sub_eq_zero_of_le h, List.drop_zero]

/-! ## Adding a node -/

theorem addNode_of_contains {b : KBucket} {node : Node} (h : b.contains node = true) :
    b.addNode node = (true, { b with nodes := withoutFirst node b.nodes ++ [node] }) := by
  rw [addNode, if_pos h]

theorem addNode_of_room {b : KBucket} {node : Node} (h : b.contains node = false)
    (hroom : b.nodes.length < b.ksize) :
    b.addNode node = (true, { b with nodes := b.nodes ++ [node] }) := by
  rw [addNode, if_neg (by simp [h]), if_pos hroom]

theorem addNode_of_full {b : KBucket} {node : Node} (h : b.contains node = false)
    (hfull : b.ksize ≤ b.nodes.length) :
    b.addNode node = (false, { b with replacementNodes := b.queueReplacement node }) := by
  rw [addNode, if_neg (by simp [h]), if_neg (by omega)]

/-- `addNode` answers `false` exactly when the node is not primary and the primary
list is full. -/
theorem addNode_fst_eq_false {b : KBucket} {node : Node} :
    (b.addNode node).1 = false ↔ b.contains node = false ∧ b.ksize ≤ b.nodes.length := by
  simp only [addNode]
  split
  · next h => simp [h]
  · next h =>
      split
      · next hroom => simp [hroom]
      · next hroom => simp [h, Nat.le_of_not_lt hroom]

/-- The fields `addNode` never touches. -/
theorem addNode_frame (b : KBucket) (node : Node) :
    (b.addNode node).2.lo = b.lo ∧ (b.addNode node).2.hi = b.hi ∧
      (b.addNode node).2.ksize = b.ksize ∧
      (b.addNode node).2.maxReplacementNodes = b.maxReplacementNodes ∧
      (b.addNode node).2.lastUpdated = b.lastUpdated := by
  simp only [addNode]
  split
  · exact ⟨rfl, rfl, rfl, rfl, rfl⟩
  · split <;> exact ⟨rfl, rfl, rfl, rfl, rfl⟩

theorem covers_addNode (b : KBucket) (node : Node) (x : ℕ) :
    (b.addNode node).2.covers x = b.covers x := by
  simp [covers, addNode_frame b node]

/-- A full bucket keeps its primary list when a newcomer is queued. -/
theorem nodes_addNode_of_false {b : KBucket} {node : Node} (h : (b.addNode node).1 = false) :
    (b.addNode node).2.nodes = b.nodes := by
  obtain ⟨hc, hfull⟩ := addNode_fst_eq_false.mp h
  rw [addNode_of_full hc hfull]

/-- `addNode` introduces no contact but the node itself. -/
theorem mem_contacts_addNode {b : KBucket} {node m : Node}
    (h : m ∈ (b.addNode node).2.contacts) : m = node ∨ m ∈ b.contacts := by
  simp only [addNode] at h
  split at h
  · simp only [contacts, List.mem_append, List.mem_singleton] at h ⊢
    rcases h with (h | h) | h
    · exact Or.inr (Or.inl ((withoutFirst_sublist _ _).subset h))
    · exact Or.inl h
    · exact Or.inr (Or.inr h)
  · split at h
    · simp only [contacts, List.mem_append, List.mem_singleton] at h ⊢
      tauto
    · simp only [contacts, List.mem_append] at h ⊢
      rcases h with h | h
      · exact Or.inr (Or.inl h)
      · rcases List.mem_append.mp ((evictOldest_sublist _ _).subset h) with h | h
        · exact Or.inr (Or.inr ((withoutFirst_sublist _ _).subset h))
        · exact Or.inl (List.mem_singleton.mp h)

/-- Room in the primary list forces the replacement list to be empty. -/
theorem Valid.replacements_eq_nil {b : KBucket} (hb : b.Valid) (hroom : b.nodes.length < b.ksize) :
    b.replacementNodes = [] := by
  by_contra h
  have := hb.full_of_replacement h
  omega

theorem Valid.length_contacts_le {b : KBucket} (hb : b.Valid) :
    b.contacts.length ≤ b.ksize + b.ksize * 5 := by
  have hnodes := hb.nodes_le
  have hrepl := hb.replacements_le
  rw [hb.max_eq] at hrepl
  simp only [contacts, List.length_append]
  omega

/-- Queueing a node as the newest replacement keeps the replacement ids distinct. -/
theorem nodup_queueReplacement {b : KBucket} (node : Node)
    (hr : (b.replacementNodes.map Node.id).Nodup) :
    ((b.queueReplacement node).map Node.id).Nodup := by
  refine List.Nodup.sublist ((evictOldest_sublist _ _).map Node.id) ?_
  rw [List.map_append, map_id_withoutFirst]
  refine List.nodup_append.mpr ⟨hr.erase _, by simp, ?_⟩
  rintro x hx y hy rfl
  rw [List.map_singleton, List.mem_singleton] at hy
  exact hr.not_mem_erase (hy ▸ hx)

/-- A queued replacement is the node or was a replacement before. -/
theorem mem_map_id_queueReplacement {b : KBucket} {node : Node} {x : NodeId}
    (h : x ∈ (b.queueReplacement node).map Node.id) :
    x = node.id ∨ x ∈ b.replacementNodes.map Node.id := by
  have h' := ((evictOldest_sublist _ _).map Node.id).subset h
  rw [List.map_append, List.mem_append, map_id_withoutFirst] at h'
  rcases h' with h' | h'
  · exact Or.inr (List.mem_of_mem_erase h')
  · exact Or.inl (by simpa using h')

/-- **`addNode` keeps the ids distinct.** -/
theorem Valid.ids_nodup_addNode {b : KBucket} (hb : b.Valid) (node : Node) :
    ((b.addNode node).2.contacts.map Node.id).Nodup := by
  have hnodup : ((b.nodes ++ b.replacementNodes).map Node.id).Nodup := hb.ids_nodup
  rw [List.map_append, List.nodup_append] at hnodup
  obtain ⟨hn, hr, hdisj⟩ := hnodup
  by_cases hc : b.contains node = true
  · rw [addNode_of_contains hc]
    have hperm : (((withoutFirst node b.nodes ++ [node]) ++ b.replacementNodes).map Node.id).Perm
        ((b.nodes ++ b.replacementNodes).map Node.id) := by
      have hrefresh := perm_map_id_refresh (contains_iff.mp hc)
      simpa only [List.map_append] using hrefresh.append_right (b.replacementNodes.map Node.id)
    exact hperm.nodup_iff.mpr hb.ids_nodup
  · have hnotMem : node.id ∉ b.nodes.map Node.id := fun h => hc (contains_iff.mpr h)
    rw [Bool.not_eq_true] at hc
    by_cases hroom : b.nodes.length < b.ksize
    · rw [addNode_of_room hc hroom]
      simp only [contacts, hb.replacements_eq_nil hroom, List.append_nil, List.map_append,
        List.map_singleton]
      refine List.nodup_append.mpr ⟨hn, by simp, ?_⟩
      rintro x hx y hy rfl
      exact hnotMem (List.mem_singleton.mp hy ▸ hx)
    · rw [addNode_of_full hc (by omega)]
      simp only [contacts, List.map_append]
      refine List.nodup_append.mpr ⟨hn, nodup_queueReplacement node hr, ?_⟩
      rintro x hx y hy rfl
      rcases mem_map_id_queueReplacement hy with rfl | hy
      · exact hnotMem hx
      · exact hdisj x hx x hy rfl

/-- **`addNode` keeps the bucket invariant**, for a node in the bucket's range. -/
theorem Valid.addNode {b : KBucket} (hb : b.Valid) {node : Node}
    (hlo : b.lo ≤ node.longId) (hhi : node.longId ≤ b.hi) : (b.addNode node).2.Valid := by
  have hnodup := hb.ids_nodup_addNode node
  have hrange : ∀ m ∈ (b.addNode node).2.contacts,
      (b.addNode node).2.lo ≤ m.longId ∧ m.longId ≤ (b.addNode node).2.hi := by
    intro m hm
    rw [(addNode_frame b node).1, (addNode_frame b node).2.1]
    rcases mem_contacts_addNode hm with rfl | hm
    · exact ⟨hlo, hhi⟩
    · exact hb.in_range m hm
  by_cases hc : b.contains node = true
  · have hlen := (perm_map_id_refresh (contains_iff.mp hc)).length_eq
    simp only [List.length_map] at hlen
    rw [addNode_of_contains hc] at hnodup hrange ⊢
    exact ⟨hnodup, hb.max_eq, hlen ▸ hb.nodes_le, hb.replacements_le,
      fun h => hlen ▸ hb.full_of_replacement h, hrange⟩
  · rw [Bool.not_eq_true] at hc
    by_cases hroom : b.nodes.length < b.ksize
    · rw [addNode_of_room hc hroom] at hnodup hrange ⊢
      refine ⟨hnodup, hb.max_eq, ?_, hb.replacements_le, ?_, hrange⟩
      · simpa using Nat.succ_le_of_lt hroom
      · intro h
        exact absurd (hb.replacements_eq_nil hroom) h
    · rw [addNode_of_full hc (by omega)] at hnodup hrange ⊢
      have hle := hb.nodes_le
      refine ⟨hnodup, hb.max_eq, hle, length_evictOldest_le _ _, ?_, hrange⟩
      intro _
      simp only
      omega

/-! ## Removing a node -/

theorem removeNode_frame (b : KBucket) (node : Node) :
    (b.removeNode node).lo = b.lo ∧ (b.removeNode node).hi = b.hi ∧
      (b.removeNode node).ksize = b.ksize ∧
      (b.removeNode node).maxReplacementNodes = b.maxReplacementNodes ∧
      (b.removeNode node).lastUpdated = b.lastUpdated := by
  simp only [removeNode]
  split
  · split <;> exact ⟨rfl, rfl, rfl, rfl, rfl⟩
  · exact ⟨rfl, rfl, rfl, rfl, rfl⟩

/-- Up to order, removal only drops contacts. -/
theorem contacts_removeNode_subperm (b : KBucket) (node : Node) :
    (b.removeNode node).contacts.Subperm b.contacts := by
  have hfilter : (b.replacementNodes.filter fun n => n.id != node.id).Sublist
      b.replacementNodes := List.filter_sublist
  simp only [removeNode]
  split
  · split
    · next r hr =>
        -- promotion moves the last replacement in front of the others
        have hsplit := List.dropLast_append_getLast? r hr
        have hperm : ([r] ++ (b.replacementNodes.filter fun n => n.id != node.id).dropLast).Perm
            (b.replacementNodes.filter fun n => n.id != node.id) := by
          conv_rhs => rw [← hsplit]
          exact List.perm_append_comm
        simp only [contacts, List.append_assoc]
        exact (hperm.append_left _).subperm.trans
          ((withoutFirst_sublist _ _).append hfilter).subperm
    · exact ((withoutFirst_sublist _ _).append hfilter).subperm
  · exact ((List.Sublist.refl _).append hfilter).subperm

theorem mem_contacts_removeNode {b : KBucket} {node m : Node}
    (h : m ∈ (b.removeNode node).contacts) : m ∈ b.contacts :=
  (contacts_removeNode_subperm b node).subset h

/-- Removing a primary contact makes room for one. -/
theorem length_withoutFirst {b : KBucket} {node : Node} (h : b.contains node = true) :
    (withoutFirst node b.nodes).length + 1 = b.nodes.length := by
  have hmem := contains_iff.mp h
  have hpos := List.length_pos_of_mem hmem
  have hids := congrArg List.length (map_id_withoutFirst node b.nodes)
  rw [List.length_map, List.length_erase_of_mem hmem] at hids
  rw [List.length_map] at hpos hids
  omega

/-- **`removeNode` keeps the bucket invariant.** -/
theorem Valid.removeNode {b : KBucket} (hb : b.Valid) (node : Node) :
    (b.removeNode node).Valid := by
  have hrepl : (b.replacementNodes.filter fun n => n.id != node.id).length ≤
      b.replacementNodes.length := List.length_filter_le _ _
  have hle := hb.nodes_le
  have hmax := hb.replacements_le
  have hnodup : ((b.removeNode node).contacts.map Node.id).Nodup := by
    obtain ⟨l, hperm, hsub⟩ := contacts_removeNode_subperm b node
    exact (hperm.map Node.id).nodup_iff.mp (hb.ids_nodup.sublist (hsub.map Node.id))
  have hrange : ∀ m ∈ (b.removeNode node).contacts,
      (b.removeNode node).lo ≤ m.longId ∧ m.longId ≤ (b.removeNode node).hi := by
    intro m hm
    rw [(removeNode_frame b node).1, (removeNode_frame b node).2.1]
    exact hb.in_range m (mem_contacts_removeNode hm)
  simp only [KBucket.removeNode] at hnodup hrange ⊢
  split at hnodup
  · next hc =>
      have hlen := length_withoutFirst hc
      rw [if_pos hc] at hrange ⊢
      split at hnodup
      · next r hr =>
          have hne : b.replacementNodes ≠ [] := by
            intro h
            simp [h] at hr
          have hfull := hb.full_of_replacement hne
          simp only [hr] at hrange ⊢
          refine ⟨hnodup, hb.max_eq, ?_, ?_, ?_, hrange⟩
          · simp only [List.length_append, List.length_singleton]; omega
          · simp only [List.length_dropLast]; omega
          · intro _
            simp only [List.length_append, List.length_singleton]; omega
      · next hr =>
          simp only [hr] at hrange ⊢
          refine ⟨hnodup, hb.max_eq, ?_, ?_, ?_, hrange⟩
          · simp only; omega
          · simp only; omega
          · intro h
            exact absurd (List.getLast?_eq_none_iff.mp hr) h
  · next hc =>
      rw [if_neg hc] at hrange ⊢
      refine ⟨hnodup, hb.max_eq, hle, ?_, ?_, hrange⟩
      · simp only; omega
      · intro h
        refine hb.full_of_replacement ?_
        intro hnil
        simp [hnil] at h

/-! ## Splitting -/

/-- A fresh bucket holding the contacts `l`: the first `ksize` of them primary. -/
def loaded (lo hi ksize now : ℕ) (l : List Node) : KBucket :=
  { new lo hi ksize now with nodes := l.take ksize, replacementNodes := l.drop ksize }

@[simp] theorem contacts_loaded (lo hi ksize now : ℕ) (l : List Node) :
    (loaded lo hi ksize now l).contacts = l := List.take_append_drop ksize l

/-- Loading distinct contacts keeps the bucket invariant. -/
theorem valid_loaded {lo hi ksize now : ℕ} {l : List Node} (hnodup : (l.map Node.id).Nodup)
    (hlen : l.length ≤ ksize + ksize * 5) (hrange : ∀ n ∈ l, lo ≤ n.longId ∧ n.longId ≤ hi) :
    (loaded lo hi ksize now l).Valid where
  ids_nodup := by simpa using hnodup
  max_eq := rfl
  nodes_le := by simp only [loaded, new, List.length_take]; omega
  replacements_le := by simp only [loaded, new, List.length_drop]; omega
  full_of_replacement := by
    intro h
    simp only [loaded, new, ne_eq, List.drop_eq_nil_iff, List.length_take] at h ⊢
    omega
  in_range := by
    intro n hn
    rw [contacts_loaded] at hn
    exact hrange n hn

/-- Adding a new contact to a loaded bucket loads it at the end. -/
theorem addNode_loaded {lo hi ksize now : ℕ} {l : List Node} {n : Node}
    (hn : n.id ∉ l.map Node.id) (hlen : l.length < ksize + ksize * 5) :
    ((loaded lo hi ksize now l).addNode n).2 = loaded lo hi ksize now (l ++ [n]) := by
  have htake : n.id ∉ (l.take ksize).map Node.id :=
    fun h => hn (((List.take_sublist ksize l).map Node.id).subset h)
  have hdrop : n.id ∉ (l.drop ksize).map Node.id :=
    fun h => hn (((List.drop_sublist ksize l).map Node.id).subset h)
  have hc : (loaded lo hi ksize now l).contains n = false := by
    rw [← Bool.not_eq_true, contains_iff]
    exact htake
  by_cases hroom : l.length < ksize
  · rw [addNode_of_room hc (by simp only [loaded, new, List.length_take]; omega)]
    simp only [loaded, List.take_of_length_le (Nat.le_of_lt hroom),
      List.drop_eq_nil_of_le (Nat.le_of_lt hroom)]
    have hle : (l ++ [n]).length ≤ ksize := by simpa using Nat.succ_le_of_lt hroom
    rw [List.take_of_length_le hle, List.drop_eq_nil_of_le hle]
  · rw [addNode_of_full hc (by simp only [loaded, new, List.length_take]; omega)]
    have hq : (loaded lo hi ksize now l).queueReplacement n = l.drop ksize ++ [n] := by
      simp only [queueReplacement, loaded, new, withoutFirst_of_notMem hdrop]
      apply evictOldest_of_le
      simp only [List.length_append, List.length_drop, List.length_singleton]
      omega
    rw [hq]
    simp only [loaded, List.take_append_of_le_length (Nat.le_of_not_lt hroom),
      List.drop_append_of_le_length (Nat.le_of_not_lt hroom)]

/-- **Filling a fresh bucket** with distinct contacts, one `addNode` at a time,
leaves the first `ksize` primary and the rest in the replacement list. -/
theorem load_new {lo hi ksize now : ℕ} {l : List Node} (hnodup : (l.map Node.id).Nodup)
    (hlen : l.length ≤ ksize + ksize * 5) :
    l.foldl (fun b n => (b.addNode n).2) (new lo hi ksize now) = loaded lo hi ksize now l := by
  induction l using List.reverseRecOn with
  | nil => simp [loaded, new]
  | append_singleton l n ih =>
      rw [List.map_append, List.nodup_append] at hnodup
      obtain ⟨hl, -, hdisj⟩ := hnodup
      simp only [List.length_append, List.length_singleton] at hlen
      rw [List.foldl_append, ih hl (by omega)]
      refine addNode_loaded ?_ (by omega)
      intro h
      exact hdisj _ h _ (by simp) rfl

/-- `split` sends each contact to one half, so each half is filled independently. -/
theorem foldl_route (mid : ℕ) (l : List Node) (low high : KBucket) :
    l.foldl (route mid) (low, high) =
      ((l.filter fun n => n.longId ≤ mid).foldl (fun b n => (b.addNode n).2) low,
        (l.filter fun n => mid < n.longId).foldl (fun b n => (b.addNode n).2) high) := by
  induction l generalizing low high with
  | nil => rfl
  | cons n l ih =>
      rw [List.foldl_cons, route]
      by_cases h : n.longId ≤ mid
      · simp only [h, if_true, ih, List.filter_cons, decide_true, List.foldl_cons,
          Nat.not_lt.mpr h, decide_false, Bool.false_eq_true, if_false]
      · simp only [h, if_false, ih, List.filter_cons, decide_false, List.foldl_cons,
          Nat.lt_of_not_le h, decide_true, if_true, Bool.false_eq_true]

/-- **What `split` does**: the two halves are loaded with the contacts on either
side of the midpoint, in their old order. -/
theorem Valid.split_eq {b : KBucket} (hb : b.Valid) (now : ℕ) {mid : ℕ}
    (hmid : mid = b.lo + (b.hi - b.lo) / 2) (hle : b.lo ≤ b.hi) (hfit : mid + 1 ≤ u128Max) :
    b.split now = some
      (loaded b.lo mid b.ksize now (b.contacts.filter fun n => n.longId ≤ mid),
        loaded (mid + 1) b.hi b.ksize now (b.contacts.filter fun n => mid < n.longId)) := by
  have hside : ∀ p : Node → Bool, ((b.contacts.filter p).map Node.id).Nodup ∧
      (b.contacts.filter p).length ≤ b.ksize + b.ksize * 5 := by
    intro p
    exact ⟨hb.ids_nodup.sublist (List.filter_sublist.map Node.id),
      (List.length_filter_le _ _).trans hb.length_contacts_le⟩
  simp only [KBucket.split, ← hmid]
  rw [if_pos ⟨hle, hfit⟩, foldl_route, load_new, load_new]
  · rfl
  · exact (hside _).1
  · exact (hside _).2
  · exact (hside _).1
  · exact (hside _).2

/-- A one-point bucket is split into itself and an empty one beside it. -/
theorem Valid.split_point {b : KBucket} (hb : b.Valid) (now : ℕ) {x : ℕ} (hlo : b.lo = x)
    (hhi : b.hi = x) (hfit : x + 1 ≤ u128Max) :
    b.split now = some (loaded x x b.ksize now b.contacts, loaded (x + 1) x b.ksize now []) := by
  have hat : ∀ n ∈ b.contacts, n.longId = x := by
    intro n hn
    have := hb.in_range n hn
    omega
  have hall : (b.contacts.filter fun n => n.longId ≤ x) = b.contacts :=
    List.filter_eq_self.mpr fun n hn => by simp [hat n hn]
  have hnone : (b.contacts.filter fun n => x < n.longId) = [] :=
    List.filter_eq_nil_iff.mpr fun n hn => by simp [hat n hn]
  rw [hb.split_eq now (by omega : x = b.lo + (b.hi - b.lo) / 2) (by omega) hfit, hall, hnone, hlo,
    hhi]

end KBucket

end AuthKademlia
