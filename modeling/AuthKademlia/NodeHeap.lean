import AuthKademlia.Lib.Nearest
import AuthKademlia.Node

/-!
# The bounded heap of a lookup

`NodeHeap` keeps the `maxsize` nodes closest to a pivot, one for each id, and the set of
ids that have been contacted.  The source stores the nodes in a `BinaryHeap` and sorts
them with `sort_unstable_by_key`: how the heap lays its entries out and how the sort
orders entries of equal distance is left to the standard library (`HeapLib`), so every
result holds for each of its choices.

An entry's distance is computed from the pivot and the node when the entry is made, and
the pivot never changes: it is a function here and not a field.

On ids the heap is the abstract selection `Lib.nearest`: `idSet_push`.

## Main definitions

* `HeapLib` — the standard library's heap and sorts, with what their documentation says.
* `NodeHeap` — the heap; distinct ids and the bound are fields.
* `NodeHeap.idSet`, `idDistance` — the ids in a heap and their distance from the pivot.
-/

namespace AuthKademlia

open Lib

/-! ## The standard library -/

/-- `sort_unstable_by_key`: sorted, and equal keys in any order. -/
structure UnstableSort where
  sort : (Node → ℕ) → List Node → List Node
  perm : ∀ key l, (sort key l).Perm l
  sorted : ∀ key l, (sort key l).Pairwise fun a b => key a ≤ key b

/-- The order of `HeapEntry`, reversed: by distance, then by id. -/
def EntryLe (key : Node → ℕ) (a b : Node) : Prop :=
  key a < key b ∨ key a = key b ∧ a.id.bytes ≤ b.id.bytes

instance (key : Node → ℕ) : DecidableRel (EntryLe key) := fun a b =>
  inferInstanceAs (Decidable (key a < key b ∨ key a = key b ∧ a.id.bytes ≤ b.id.bytes))

/-- `BinaryHeap<HeapEntry>` as the list its iterator yields, and the sorts of a list of
entries and of a list of references to entries. -/
structure HeapLib where
  push : (Node → ℕ) → List Node → Node → List Node
  push_perm : ∀ key l n, (push key l n).Perm (n :: l)
  collect : (Node → ℕ) → List Node → List Node
  collect_perm : ∀ key l, (collect key l).Perm l
  pop : (Node → ℕ) → List Node → Option (Node × List Node)
  pop_eq_none : ∀ key l, pop key l = none ↔ l = []
  pop_perm : ∀ key l n rest, pop key l = some (n, rest) → (n :: rest).Perm l
  pop_least : ∀ key l n rest, pop key l = some (n, rest) → ∀ m ∈ rest, EntryLe key n m
  sortEntries : UnstableSort
  sortRefs : UnstableSort

/-! ### A standard library

The heap as a plain list, and insertion sort. -/

namespace HeapLib

instance (key : Node → ℕ) : Std.Total (EntryLe key) where
  total a b := by
    rcases Nat.lt_trichotomy (key a) (key b) with h | h | h
    · exact Or.inl (Or.inl h)
    · rcases List.le_total a.id.bytes b.id.bytes with hab | hba
      · exact Or.inl (Or.inr ⟨h, hab⟩)
      · exact Or.inr (Or.inr ⟨h.symm, hba⟩)
    · exact Or.inr (Or.inl h)

instance (key : Node → ℕ) : IsTrans Node (EntryLe key) where
  trans a b c := by
    rintro (hab | ⟨hab, hab'⟩) (hbc | ⟨hbc, hbc'⟩)
    · exact Or.inl (hab.trans hbc)
    · exact Or.inl (hbc ▸ hab)
    · exact Or.inl (hab ▸ hbc)
    · exact Or.inr ⟨hab.trans hbc, List.le_trans hab' hbc'⟩

def insertionSort : UnstableSort where
  sort key l := l.insertionSort fun a b => key a ≤ key b
  perm key l := List.perm_insertionSort _ l
  sorted key l := by
    have : Std.Total fun a b : Node => key a ≤ key b := ⟨fun a b => Nat.le_total _ _⟩
    have : IsTrans Node fun a b => key a ≤ key b := ⟨fun a b c => Nat.le_trans⟩
    exact List.pairwise_insertionSort _ l

def plain : HeapLib where
  push _ l n := l ++ [n]
  push_perm _ l n := List.perm_append_singleton n l
  collect _ l := l
  collect_perm _ l := List.Perm.refl l
  pop key l :=
    match l.insertionSort (EntryLe key) with
    | [] => none
    | n :: rest => some (n, rest)
  pop_eq_none key l := by
    have hperm := List.perm_insertionSort (EntryLe key) l
    split
    · rename_i hnil
      rw [hnil] at hperm
      simp [hperm.symm.eq_nil]
    · rename_i n rest hcons
      have hne : l ≠ [] := by
        rintro rfl
        cases hcons
      simp [hne]
  pop_perm key l n rest h := by
    have hperm := List.perm_insertionSort (EntryLe key) l
    split at h
    · cases h
    · rename_i hcons
      obtain ⟨rfl, rfl⟩ := Prod.mk.inj (Option.some.inj h)
      rwa [hcons] at hperm
  pop_least key l n rest h := by
    have hsorted := List.pairwise_insertionSort (EntryLe key) l
    split at h
    · cases h
    · rename_i hcons
      obtain ⟨rfl, rfl⟩ := Prod.mk.inj (Option.some.inj h)
      rw [hcons] at hsorted
      exact (List.pairwise_cons.mp hsorted).1
  sortEntries := insertionSort
  sortRefs := insertionSort

end HeapLib

/-- `NodeHeap::contains`: an entry with the node's id. -/
def containsId (heap : List Node) (n : Node) : Bool := heap.any fun e => e.id = n.id

theorem containsId_iff {heap : List Node} {n : Node} :
    containsId heap n = true ↔ n.id ∈ heap.map Node.id := by
  simp [containsId]

namespace HeapLib

variable (lib : HeapLib) (key : Node → ℕ)

/-- One node of `NodeHeap::push`: an id that is present is skipped. -/
def insertNode (heap : List Node) (n : Node) : List Node :=
  if containsId heap n then heap else lib.push key heap n

/-- The loop of `NodeHeap::push`. -/
def insertAll (heap nodes : List Node) : List Node := nodes.foldl (lib.insertNode key) heap

/-- Drain, sort by distance, and keep the closest `maxsize` entries. -/
def enforceMaxsize (maxsize : ℕ) (heap : List Node) : List Node :=
  if heap.length ≤ maxsize then heap
  else lib.collect key ((lib.sortEntries.sort key heap).take maxsize)

variable {key}

theorem nodup_insertNode {heap : List Node} (h : (heap.map Node.id).Nodup) (n : Node) :
    ((lib.insertNode key heap n).map Node.id).Nodup := by
  unfold insertNode
  split
  · exact h
  · rename_i hnew
    rw [((lib.push_perm key heap n).map Node.id).nodup_iff]
    exact List.nodup_cons.mpr ⟨mt containsId_iff.mpr hnew, h⟩

theorem mem_ids_insertNode {heap : List Node} {n : Node} {id : NodeId} :
    id ∈ (lib.insertNode key heap n).map Node.id ↔ id ∈ heap.map Node.id ∨ id = n.id := by
  unfold insertNode
  split
  · rename_i hold
    constructor
    · exact Or.inl
    · rintro (hmem | rfl)
      · exact hmem
      · exact containsId_iff.mp hold
  · rw [((lib.push_perm key heap n).map Node.id).mem_iff, List.map_cons, List.mem_cons, or_comm]

theorem mem_of_mem_insertNode {heap : List Node} {n m : Node}
    (h : m ∈ lib.insertNode key heap n) : m ∈ heap ∨ m = n := by
  unfold insertNode at h
  split at h
  · exact Or.inl h
  · exact (List.mem_cons.mp ((lib.push_perm key heap n).mem_iff.mp h)).symm

theorem nodup_insertAll {heap : List Node} (h : (heap.map Node.id).Nodup) (nodes : List Node) :
    ((lib.insertAll key heap nodes).map Node.id).Nodup := by
  induction nodes generalizing heap with
  | nil => exact h
  | cons n nodes ih => exact ih (lib.nodup_insertNode h n)

/-- On ids the loop is a union. -/
theorem mem_ids_insertAll {heap nodes : List Node} {id : NodeId} :
    id ∈ (lib.insertAll key heap nodes).map Node.id ↔
      id ∈ heap.map Node.id ∨ id ∈ nodes.map Node.id := by
  induction nodes generalizing heap with
  | nil => simp [insertAll]
  | cons n nodes ih =>
      rw [insertAll, List.foldl_cons, ← insertAll, ih, mem_ids_insertNode, List.map_cons,
        List.mem_cons, or_assoc]

theorem mem_of_mem_insertAll {heap nodes : List Node} {m : Node}
    (h : m ∈ lib.insertAll key heap nodes) : m ∈ heap ∨ m ∈ nodes := by
  induction nodes generalizing heap with
  | nil => exact Or.inl h
  | cons n nodes ih =>
      rcases ih h with hheap | hnodes
      · rcases lib.mem_of_mem_insertNode hheap with hold | rfl
        · exact Or.inl hold
        · exact Or.inr List.mem_cons_self
      · exact Or.inr (List.mem_cons_of_mem _ hnodes)

theorem enforceMaxsize_of_le {maxsize : ℕ} {heap : List Node} (h : heap.length ≤ maxsize) :
    lib.enforceMaxsize key maxsize heap = heap := if_pos h

theorem length_enforceMaxsize_le (maxsize : ℕ) (heap : List Node) :
    (lib.enforceMaxsize key maxsize heap).length ≤ maxsize := by
  unfold enforceMaxsize
  split
  · assumption
  · rw [(lib.collect_perm key _).length_eq, List.length_take]
    exact Nat.min_le_left _ _

/-- Trimming keeps some of the entries. -/
theorem subperm_enforceMaxsize (maxsize : ℕ) (heap : List Node) :
    (lib.enforceMaxsize key maxsize heap).Subperm heap := by
  unfold enforceMaxsize
  split
  · exact List.Subperm.refl heap
  · exact (lib.collect_perm key _).subperm.trans
      ((List.take_sublist _ _).subperm.trans (lib.sortEntries.perm key heap).subperm)

theorem nodup_enforceMaxsize {heap : List Node} (h : (heap.map Node.id).Nodup) (maxsize : ℕ) :
    ((lib.enforceMaxsize key maxsize heap).map Node.id).Nodup := by
  obtain ⟨l, hperm, hsub⟩ := @subperm_enforceMaxsize lib key maxsize heap
  exact (hperm.map Node.id).nodup_iff.mp (h.sublist (hsub.map Node.id))

end HeapLib

/-! ## The heap -/

/-- A bounded heap of nodes, ordered by distance from the pivot `node`. -/
structure NodeHeap where
  node : Node
  heap : List Node
  contacted : Finset NodeId
  maxsize : ℕ
  nodup : (heap.map Node.id).Nodup
  bounded : heap.length ≤ maxsize

namespace NodeHeap

variable (lib : HeapLib) (h : NodeHeap)

def new (node : Node) (maxsize : ℕ) : NodeHeap where
  node := node
  heap := []
  contacted := ∅
  maxsize := maxsize
  nodup := List.nodup_nil
  bounded := Nat.zero_le _

/-- The distance of an entry. -/
def distance (n : Node) : ℕ := h.node.distanceTo n

/-- Insert a batch of nodes, ignoring ids that are present, and trim. -/
def push (nodes : List Node) : NodeHeap where
  node := h.node
  heap := lib.enforceMaxsize h.distance h.maxsize (lib.insertAll h.distance h.heap nodes)
  contacted := h.contacted
  maxsize := h.maxsize
  nodup := lib.nodup_enforceMaxsize (lib.nodup_insertAll h.nodup nodes) h.maxsize
  bounded := lib.length_enforceMaxsize_le _ _

def pushOne (n : Node) : NodeHeap := h.push lib [n]

/-- Remove nodes by id. -/
def remove (peers : List NodeId) : NodeHeap :=
  if peers.isEmpty then h
  else
    { node := h.node
      heap := lib.collect h.distance (h.heap.filter fun e => e.id ∉ peers)
      contacted := h.contacted
      maxsize := h.maxsize
      nodup := by
        rw [((lib.collect_perm h.distance _).map Node.id).nodup_iff]
        exact h.nodup.sublist (List.filter_sublist.map Node.id)
      bounded := by
        rw [(lib.collect_perm h.distance _).length_eq]
        exact (List.length_filter_le _ _).trans h.bounded }

/-- Pop the closest node; what is left of the heap is not used. -/
def popleft : Option Node := (lib.pop h.distance h.heap).map Prod.fst

/-- Look a node up by its id. -/
def getNode (id : NodeId) : Option Node := h.heap.find? fun e => e.id = id

/-- Number of nodes, capped at `maxsize`. -/
def len : ℕ := min h.heap.length h.maxsize

/-- The nodes in ascending order of distance, at most `maxsize` of them. -/
def toVec : List Node := (lib.sortRefs.sort h.distance h.heap).take h.maxsize

def getIds : List NodeId := (h.toVec lib).map Node.id

def getUncontacted : List Node := (h.toVec lib).filter fun n => n.id ∉ h.contacted

def haveContactedAll : Bool := (h.getUncontacted lib).isEmpty

def markContacted (n : Node) : NodeHeap := { h with contacted := insert n.id h.contacted }

/-! ## The heap on ids -/

/-- The ids in a heap. -/
def idSet : Finset NodeId := (h.heap.map Node.id).toFinset

end NodeHeap

/-- The distance of an id from a pivot. -/
def idDistance (pivot : Node) (id : NodeId) : ℕ := pivot.longId ^^^ idToU128 id

/-- The ids of a list of nodes. -/
def idsOf (nodes : List Node) : Finset NodeId := (nodes.map Node.id).toFinset

@[simp] theorem mem_idsOf {nodes : List Node} {id : NodeId} :
    id ∈ idsOf nodes ↔ ∃ n ∈ nodes, n.id = id := by
  simp [idsOf]

/-- Ids with different `longId`s have different distances. -/
theorem injOn_idDistance {s : Set NodeId} (hs : s.InjOn idToU128) (pivot : Node) :
    s.InjOn (idDistance pivot) := by
  intro a ha b hb heq
  exact hs ha hb (Nat.xor_right_inj.mp heq)

/-- A list of nodes sorted by distance is strictly sorted on ids that do not collide. -/
theorem sorted_ids {pivot : Node} {l : List Node} (hnodup : (l.map Node.id).Nodup)
    (hsorted : l.Pairwise fun a b => pivot.distanceTo a ≤ pivot.distanceTo b)
    (hinj : {id | id ∈ l.map Node.id}.InjOn idToU128) :
    (l.map Node.id).Pairwise fun a b => idDistance pivot a < idDistance pivot b := by
  have hle : (l.map Node.id).Pairwise fun a b => idDistance pivot a ≤ idDistance pivot b :=
    List.pairwise_map.mpr hsorted
  have hboth := List.Pairwise.and_mem.mp (hle.and hnodup)
  refine hboth.imp ?_
  rintro a b ⟨ha, hb, hlab, hne⟩
  refine lt_of_le_of_ne hlab fun heq => hne ?_
  exact injOn_idDistance hinj pivot ha hb heq

namespace NodeHeap

variable {lib : HeapLib} {h h' : NodeHeap} {nodes : List Node} {peers : List NodeId} {n : Node}

theorem mem_idSet {id : NodeId} : id ∈ h.idSet ↔ id ∈ h.heap.map Node.id := List.mem_toFinset

@[simp] theorem node_push : (h.push lib nodes).node = h.node := rfl
@[simp] theorem maxsize_push : (h.push lib nodes).maxsize = h.maxsize := rfl

@[simp] theorem node_remove : (h.remove lib peers).node = h.node := by
  unfold remove; split <;> rfl

@[simp] theorem contacted_remove : (h.remove lib peers).contacted = h.contacted := by
  unfold remove; split <;> rfl

@[simp] theorem maxsize_remove : (h.remove lib peers).maxsize = h.maxsize := by
  unfold remove; split <;> rfl

theorem card_idSet : h.idSet.card = h.heap.length := by
  rw [idSet, List.toFinset_card_of_nodup h.nodup, List.length_map]

theorem mem_of_mem_push (hn : n ∈ (h.push lib nodes).heap) : n ∈ h.heap ∨ n ∈ nodes :=
  lib.mem_of_mem_insertAll ((lib.subperm_enforceMaxsize _ _).subset hn)

theorem mem_heap_remove : n ∈ (h.remove lib peers).heap ↔ n ∈ h.heap ∧ n.id ∉ peers := by
  unfold remove
  split
  · rename_i hnil
    simp [List.isEmpty_iff.mp hnil]
  · simp [(lib.collect_perm h.distance _).mem_iff, List.mem_filter]

theorem idSet_remove : (h.remove lib peers).idSet = h.idSet \ peers.toFinset := by
  ext id
  simp only [mem_idSet, Finset.mem_sdiff, List.mem_toFinset, List.mem_map, mem_heap_remove]
  constructor
  · rintro ⟨n, ⟨hn, hnot⟩, rfl⟩
    exact ⟨⟨n, hn, rfl⟩, hnot⟩
  · rintro ⟨⟨n, hn, rfl⟩, hnot⟩
    exact ⟨n, ⟨hn, hnot⟩, rfl⟩

theorem idSet_push_subset : (h.push lib nodes).idSet ⊆ h.idSet ∪ idsOf nodes := by
  intro id hid
  obtain ⟨n, hn, rfl⟩ := List.mem_map.mp (mem_idSet.mp hid)
  rcases mem_of_mem_push hn with hold | hnew
  · exact Finset.mem_union_left _ (mem_idSet.mpr (List.mem_map_of_mem hold))
  · exact Finset.mem_union_right _ (mem_idsOf.mpr ⟨n, hnew, rfl⟩)

/-- The ids before a push trims. -/
theorem toFinset_insertAll (lib : HeapLib) (h : NodeHeap) (nodes : List Node) :
    ((lib.insertAll h.distance h.heap nodes).map Node.id).toFinset = h.idSet ∪ idsOf nodes := by
  ext id
  rw [List.mem_toFinset, lib.mem_ids_insertAll, Finset.mem_union, mem_idSet, idsOf,
    List.mem_toFinset]

theorem idSet_push_eq (lib : HeapLib) (h : NodeHeap) (nodes : List Node) :
    (h.push lib nodes).idSet = ((lib.enforceMaxsize h.distance h.maxsize
      (lib.insertAll h.distance h.heap nodes)).map Node.id).toFinset := rfl

/-- **On ids that do not collide a push selects the nearest** of what was there and what
came. -/
theorem idSet_push (hinj : Set.InjOn idToU128 (h.idSet ∪ idsOf nodes : Finset NodeId)) :
    (h.push lib nodes).idSet =
      nearest (idDistance h.node) h.maxsize (h.idSet ∪ idsOf nodes) := by
  have hunion := toFinset_insertAll lib h nodes
  have hnodup := @HeapLib.nodup_insertAll lib h.distance h.heap h.nodup nodes
  rw [← hunion] at hinj
  rw [idSet_push_eq, ← hunion]
  generalize lib.insertAll h.distance h.heap nodes = all at hinj hnodup ⊢
  by_cases hfits : all.length ≤ h.maxsize
  · rw [lib.enforceMaxsize_of_le hfits, nearest_eq_self]
    rwa [List.toFinset_card_of_nodup hnodup, List.length_map]
  · -- the sorted list is cut, and collecting it into a heap only permutes it
    obtain ⟨sorted, hs⟩ : ∃ l, lib.sortEntries.sort h.distance all = l := ⟨_, rfl⟩
    have hperm : (sorted.map Node.id).Perm (all.map Node.id) :=
      hs ▸ (lib.sortEntries.perm h.distance all).map Node.id
    have hstrict := @sorted_ids h.node sorted (hperm.nodup_iff.mpr hnodup)
      (hs ▸ lib.sortEntries.sorted h.distance all) (by
        refine hinj.mono fun id hid => ?_
        exact List.mem_toFinset.mpr (hperm.mem_iff.mp hid))
    rw [HeapLib.enforceMaxsize, if_neg hfits, hs,
      List.toFinset_eq_of_perm _ _ ((lib.collect_perm h.distance _).map Node.id), List.map_take,
      toFinset_take hstrict, List.toFinset_eq_of_perm _ _ hperm]

/-- Without an overflow a push is a union, collisions or not. -/
theorem idSet_push_of_card_le (hfits : (h.idSet ∪ idsOf nodes).card ≤ h.maxsize) :
    (h.push lib nodes).idSet = h.idSet ∪ idsOf nodes := by
  have hlen : (lib.insertAll h.distance h.heap nodes).length ≤ h.maxsize := by
    rw [← toFinset_insertAll lib,
      List.toFinset_card_of_nodup (lib.nodup_insertAll h.nodup nodes), List.length_map] at hfits
    exact hfits
  rw [idSet_push_eq, lib.enforceMaxsize_of_le hlen, toFinset_insertAll]

/-- The heap holds the `k` nodes nearest to `target` of those `seen`. -/
structure Selects (h : NodeHeap) (target : Node) (k : ℕ) (seen : Finset NodeId) : Prop where
  node : h.node = target
  maxsize : h.maxsize = k
  idSet : h.idSet = nearest (idDistance target) k seen

theorem selects_of_idSet {target : Node} {k : ℕ} {seen : Finset NodeId} (hnode : h.node = target)
    (hmax : h.maxsize = k) (hseen : h.idSet = seen) : h.Selects target k seen := by
  subst hnode hmax hseen
  exact ⟨rfl, rfl, (nearest_eq_self (card_idSet.trans_le h.bounded)).symm⟩

theorem Selects.push {target : Node} {k : ℕ} {seen : Finset NodeId} (hs : h.Selects target k seen)
    (hinj : Set.InjOn idToU128 (seen ∪ idsOf nodes : Finset NodeId)) :
    (h.push lib nodes).Selects target k (seen ∪ idsOf nodes) where
  node := hs.node
  maxsize := hs.maxsize
  idSet := by
    have hsub : h.idSet ∪ idsOf nodes ⊆ seen ∪ idsOf nodes := by
      rw [hs.idSet]
      exact Finset.union_subset_union_left nearest_subset
    rw [idSet_push (hinj.mono (Finset.coe_subset.mpr hsub)), hs.node, hs.maxsize, hs.idSet,
      nearest_union]

/-! ## The sorted view -/

theorem perm_toVec : (h.toVec lib).Perm h.heap := by
  have hperm := lib.sortRefs.perm h.distance h.heap
  rw [toVec, List.take_of_length_le (by rw [hperm.length_eq]; exact h.bounded)]
  exact hperm

theorem nodup_getIds (lib : HeapLib) (h : NodeHeap) : (h.getIds lib).Nodup :=
  (perm_toVec.map Node.id).nodup_iff.mpr h.nodup

theorem toFinset_getIds (lib : HeapLib) (h : NodeHeap) :
    (h.getIds lib).toFinset = h.idSet :=
  List.toFinset_eq_of_perm _ _ (perm_toVec.map Node.id)

theorem sorted_getIds (hinj : Set.InjOn idToU128 (h.idSet : Set NodeId)) :
    (h.getIds lib).Pairwise fun a b => idDistance h.node a < idDistance h.node b := by
  refine sorted_ids (nodup_getIds lib h) ?_ ?_
  · exact (lib.sortRefs.sorted h.distance h.heap).sublist (List.take_sublist _ _)
  · refine hinj.mono fun id hid => ?_
    rw [← toFinset_getIds lib]
    exact List.mem_toFinset.mpr hid

/-- Without collisions the sorted ids are a function of the set of ids. -/
theorem getIds_congr {lib' : HeapLib} (hinj : Set.InjOn idToU128 (h.idSet : Set NodeId))
    (hnode : h'.node = h.node) (hset : h'.idSet = h.idSet) :
    h'.getIds lib' = h.getIds lib := by
  refine @eq_of_sorted _ _ _ (idDistance h.node) _ _ _ ?_ (sorted_getIds hinj) ?_
  · rw [← hnode]
    exact sorted_getIds (hset ▸ hinj)
  · rw [toFinset_getIds, toFinset_getIds, hset]

theorem mem_getUncontacted : n ∈ h.getUncontacted lib ↔ n ∈ h.heap ∧ n.id ∉ h.contacted := by
  simp [getUncontacted, perm_toVec.mem_iff]

theorem nodup_getUncontacted : ((h.getUncontacted lib).map Node.id).Nodup :=
  (nodup_getIds lib h).sublist (List.filter_sublist.map Node.id)

theorem ids_getUncontacted :
    (h.getUncontacted lib).map Node.id = (h.getIds lib).filter fun id => id ∉ h.contacted := by
  rw [getUncontacted, getIds, List.filter_map]
  rfl

theorem haveContactedAll_iff :
    h.haveContactedAll lib = true ↔ ∀ n ∈ h.heap, n.id ∈ h.contacted := by
  rw [haveContactedAll, List.isEmpty_iff, List.eq_nil_iff_forall_not_mem]
  simp only [mem_getUncontacted, not_and, not_not]

theorem haveContactedAll_iff_idSet :
    h.haveContactedAll lib = true ↔ h.idSet ⊆ h.contacted := by
  rw [haveContactedAll_iff]
  constructor
  · intro hall id hid
    obtain ⟨n, hn, rfl⟩ := List.mem_map.mp (mem_idSet.mp hid)
    exact hall n hn
  · intro hsub n hn
    exact hsub (mem_idSet.mpr (List.mem_map_of_mem hn))

/-! ## Single nodes -/

theorem getNode_of_mem {id : NodeId} (hid : id ∈ h.idSet) :
    ∃ n, h.getNode id = some n ∧ n.id = id := by
  obtain ⟨n, hn, rfl⟩ := List.mem_map.mp (mem_idSet.mp hid)
  cases hfind : h.getNode n.id with
  | none =>
      have hnone := List.find?_eq_none.mp hfind n hn
      simp at hnone
  | some m => exact ⟨m, rfl, by simpa using List.find?_some hfind⟩

theorem getNode_of_notMem {id : NodeId} (hid : id ∉ h.idSet) : h.getNode id = none := by
  refine List.find?_eq_none.mpr fun n hn heq => hid ?_
  have hids : n.id = id := by simpa using heq
  exact mem_idSet.mpr (hids ▸ List.mem_map_of_mem hn)

/-- A heap of one node pops it. -/
theorem id_popleft_iff {id : NodeId} (hone : h.maxsize = 1) :
    (h.popleft lib).map Node.id = some id ↔ id ∈ h.idSet := by
  have hlen := h.bounded
  rw [mem_idSet, popleft]
  cases hpop : lib.pop h.distance h.heap with
  | none => simp [(lib.pop_eq_none _ _).mp hpop]
  | some top =>
      have hperm := lib.pop_perm _ _ _ _ hpop
      have hrest : top.2 = [] := by
        have hcount := hperm.length_eq
        rw [List.length_cons] at hcount
        exact List.length_eq_zero_iff.mp (by omega)
      rw [hrest] at hperm
      rw [← (hperm.map Node.id).mem_iff]
      simp [eq_comm]

/-! ## Batches -/

/-- **A push keeps nodes of least distance**, however equal distances are ordered. -/
theorem isSelection_push (lib : HeapLib) (h : NodeHeap) (nodes : List Node) :
    IsSelection (idDistance h.node) h.maxsize (h.idSet ∪ idsOf nodes) (h.push lib nodes).idSet := by
  have hnodup := @HeapLib.nodup_insertAll lib h.distance h.heap h.nodup nodes
  rw [idSet_push_eq, ← toFinset_insertAll lib h nodes]
  generalize lib.insertAll h.distance h.heap nodes = all at hnodup ⊢
  by_cases hfits : all.length ≤ h.maxsize
  · rw [lib.enforceMaxsize_of_le hfits]
    refine ⟨subset_rfl, ?_, fun _ _ x hx hnot => absurd hx hnot⟩
    rw [List.toFinset_card_of_nodup hnodup, List.length_map, Nat.min_eq_right hfits]
  · have hperm := (lib.sortEntries.perm h.distance all).map Node.id
    have hsorted : ((lib.sortEntries.sort h.distance all).map Node.id).Pairwise
        fun a b => idDistance h.node a ≤ idDistance h.node b :=
      List.pairwise_map.mpr (lib.sortEntries.sorted h.distance all)
    have htake := isSelection_take (hperm.nodup_iff.mpr hnodup) hsorted h.maxsize
    rw [HeapLib.enforceMaxsize, if_neg hfits,
      List.toFinset_eq_of_perm _ _ ((lib.collect_perm h.distance _).map Node.id), List.map_take]
    rwa [List.toFinset_eq_of_perm _ _ hperm] at htake

/-- Push one batch after the other. -/
def pushAll (lib : HeapLib) (h : NodeHeap) (batches : List (List Node)) : NodeHeap :=
  batches.foldl (fun h nodes => h.push lib nodes) h

/-- By induction on the batches, over what was seen before them. -/
theorem isSelection_pushAll (lib : HeapLib) (h : NodeHeap) {seen : Finset NodeId}
    (hseen : IsSelection (idDistance h.node) h.maxsize seen h.idSet) (batches : List (List Node)) :
    (h.pushAll lib batches).node = h.node ∧ (h.pushAll lib batches).maxsize = h.maxsize ∧
      IsSelection (idDistance h.node) h.maxsize (seen ∪ idsOf batches.flatten)
        (h.pushAll lib batches).idSet := by
  induction batches generalizing h seen with
  | nil => simpa [pushAll, idsOf] using hseen
  | cons nodes batches ih =>
      have hpush := hseen.union (isSelection_push lib h nodes)
      have hrest := ih (h.push lib nodes) hpush
      have hunion : seen ∪ idsOf (nodes :: batches).flatten =
          seen ∪ idsOf nodes ∪ idsOf batches.flatten := by
        simp [idsOf, Finset.union_assoc]
      rw [hunion]
      exact hrest

theorem mem_of_mem_pushAll {batches : List (List Node)} (hn : n ∈ (h.pushAll lib batches).heap) :
    n ∈ h.heap ∨ n ∈ batches.flatten := by
  induction batches generalizing h with
  | nil => exact .inl hn
  | cons nodes batches ih =>
      have hrest : n ∈ (h.push lib nodes).heap ∨ n ∈ batches.flatten := ih hn
      have hpush := @mem_of_mem_push lib h nodes n
      simp only [List.flatten_cons, List.mem_append]
      tauto

/-- **The bounded heap is a top-k.**  However the nodes are split into batches and ordered,
and however the standard library lays out its heap and sorts equal distances: an empty heap
into which they were pushed has at most `maxsize` entries with distinct ids, all of them from
the list, and their distances in ascending order are the `maxsize` smallest among those of
the distinct ids of the list. -/
theorem pushAll_topK (lib : HeapLib) (pivot : Node) (maxsize : ℕ) (nodes : List Node)
    (batches : List (List Node)) (hsplit : batches.flatten.Perm nodes) :
    let h := (new pivot maxsize).pushAll lib batches
    h.heap.length ≤ maxsize ∧ (h.heap.map Node.id).Nodup ∧ (∀ n ∈ h.heap, n ∈ nodes) ∧
      (h.toVec lib).map pivot.distanceTo =
        (((nodes.map Node.id).dedup.map (idDistance pivot)).insertionSort (· ≤ ·)).take
          maxsize := by
  intro h
  have hempty : IsSelection (idDistance pivot) maxsize ∅ (new pivot maxsize).idSet :=
    ⟨by simp [idSet, new], by simp [idSet, new], by simp⟩
  have hall := isSelection_pushAll lib (new pivot maxsize) hempty batches
  have hnode : h.node = pivot := hall.1
  have hmax : h.maxsize = maxsize := hall.2.1
  refine ⟨hmax ▸ h.bounded, h.nodup, ?_, ?_⟩
  · intro n hn
    have hmem := mem_of_mem_pushAll hn
    simp only [new, List.not_mem_nil, false_or] at hmem
    exact hsplit.mem_iff.mp hmem
  · have hids : (nodes.map Node.id).dedup.toFinset = ∅ ∪ idsOf batches.flatten := by
      ext id
      simp [hsplit.mem_iff]
    have hsel : IsSelection (idDistance pivot) maxsize (nodes.map Node.id).dedup.toFinset
        (h.getIds lib).toFinset := by
      rw [hids, toFinset_getIds]
      exact hall.2.2
    have hsorted : (h.getIds lib).Pairwise fun a b => idDistance pivot a ≤ idDistance pivot b := by
      have := (lib.sortRefs.sorted h.distance h.heap).sublist (List.take_sublist h.maxsize _)
      rw [← hnode]
      exact List.pairwise_map.mpr this
    rw [← hsel.map_key (List.nodup_dedup _) (nodup_getIds lib h) hsorted, getIds, List.map_map]
    rfl

/-- Two ids at one point of the key space: one of them is kept, whichever it is. -/
theorem pushAll_collision :
    let a := Node.fromId (NodeId.ofNat 0)
    let b := Node.fromId (NodeId.ofNat (2 ^ 128 + 1))
    a.longId = b.longId ∧ [[a], [b], [a]].flatten.Perm [a, a, b] ∧
      (((new a 1).pushAll HeapLib.plain [[a], [b], [a]]).toVec HeapLib.plain).map a.distanceTo =
        [0] := by
  intro a b
  have hsplit : [[a], [b], [a]].flatten.Perm [a, a, b] := by decide +kernel
  refine ⟨by decide +kernel, hsplit, ?_⟩
  refine (pushAll_topK HeapLib.plain a 1 [a, a, b] [[a], [b], [a]] hsplit).2.2.2.trans ?_
  decide +kernel

end NodeHeap

end AuthKademlia
