import AuthKademlia.Lib.Nearest
import AuthKademlia.Newcomers
import AuthKademlia.Neighbors
import AuthKademlia.RoutingTermination

/-!
# Which keys a newcomer is sent

`welcome_if_new` sends a newcomer the keys that pass a test against the first and the last
of the contacts that `find_neighbors` returns.  The test stands for a rule: the newcomer is
one of the `ksize` nodes closest to the key, and this node is closer than all contacts
(`Belongs`).  A contact at the same distance as the newcomer counts as closer, as in the
source.

The two differ in three ways.  With fewer than `ksize` contacts every newcomer is among the
closest, but the test still asks it to be closer than one of them.  With more, the test
sees the contacts visited first and nothing of the rest.  And a newcomer that `add_contact`
never finishes adding is sent nothing.  `sends_iff_belongs` shows that there are no other
differences.

## Main definitions

* `RoutingTable.visited`, `unvisited` — the contacts a lookup of a key looks at, and the rest.
* `Protocol.Sends` — `welcome_if_new` sends a key to a node.
* `Protocol.Belongs` — the replication rule.
* `Protocol.FilterExact` — when the two agree.
-/

namespace AuthKademlia

open Lib

/-! ## Lookups in a table that was looked up in before -/

namespace RoutingTable

variable {t t' : RoutingTable} {target : Node} {exclude : Option Node}

theorem bucketIndexFor_congr (h : t'.untouched = t.untouched) (x : ℕ) :
    t'.bucketIndexFor x = t.bucketIndexFor x := by
  have hcovers : t'.buckets.map (fun b => b.covers x) = t.buckets.map fun b => b.covers x :=
    map_buckets_congr h fun _ _ => rfl
  have hlen := congrArg List.length hcovers
  have hidx := congrArg (List.findIdx? id) hcovers
  simp only [List.length_map, List.findIdx?_map, Function.comp_def, id] at hlen hidx
  rw [bucketIndexFor, bucketIndexFor, hidx, hlen]

/-- The contacts visited by a lookup do not depend on the times. -/
theorem candidates_visitOrder_congr (h : t'.untouched = t.untouched) :
    candidates target exclude (t'.visitOrder target) =
      candidates target exclude (t.visitOrder target) := by
  have hmap : ∀ bs : List KBucket, candidates target exclude bs =
      ((bs.map KBucket.nodes).flatMap List.reverse).filter fun n => IsCandidate target exclude n := by
    intro bs
    simp [candidates, List.flatMap_map]
  have hnodes : t'.buckets.map KBucket.nodes = t.buckets.map KBucket.nodes :=
    map_buckets_congr h fun _ _ => rfl
  rw [hmap, hmap, visitOrder, visitOrder, bucketIndexFor_congr h]
  simp only [List.map_append, map_alternate, ← Option.toList_map, ← List.getElem?_map, List.map_take,
    List.map_drop, hnodes]

theorem findNeighbors_congr (hk : 1 ≤ t.ksize) (h : t'.untouched = t.untouched) (now : ℕ)
    (target : Node) (exclude : Option Node) :
    (t'.findNeighbors now target exclude).1 = (t.findNeighbors now target exclude).1 := by
  have hksize := ksize_congr h
  rw [findNeighbors_eq (hksize ▸ hk), findNeighbors_eq hk, candidates_visitOrder_congr h, hksize]

theorem crowded_congr (h : t'.untouched = t.untouched) (node : Node) :
    Crowded t' node ↔ Crowded t node := by
  have huntouched : ∀ u : RoutingTable, Crowded u.untouched node ↔ Crowded u node := by
    intro u
    have hidx := @bucketIndexFor_congr u u.untouched
      (by simp [untouched, Function.comp_def, KBucket.touchLastUpdated]) node.longId
    have hget : u.untouched.buckets[u.bucketIndexFor node.longId]? =
        (u.buckets[u.bucketIndexFor node.longId]?).map fun b => b.touchLastUpdated 0 := by
      simp [untouched]
    simp only [Crowded, hidx, hget, Option.mem_map, exists_exists_and_eq_and]
    rfl
  rw [← huntouched t', h, huntouched t]

/-- The contacts a lookup of `key` looks at: the first `ksize` other than `key` itself. -/
def visited (t : RoutingTable) (key : NodeId) : List Node :=
  (candidates (Node.fromId key) none (t.visitOrder (Node.fromId key))).take t.ksize

/-- The contacts it does not get to. -/
def unvisited (t : RoutingTable) (key : NodeId) : List Node :=
  (candidates (Node.fromId key) none (t.visitOrder (Node.fromId key))).drop t.ksize

/-- The primary contacts other than one whose id is the key. -/
def others (t : RoutingTable) (key : NodeId) : List Node := t.primaries.filter fun c => c.id ≠ key

theorem Invariant.others_perm (h : t.Invariant) (key : NodeId) :
    (t.visited key ++ t.unvisited key).Perm (t.others key) := by
  have hcand : (fun n => decide (IsCandidate (Node.fromId key) none n)) =
      fun c : Node => decide (c.id ≠ key) := by
    funext c
    simp [IsCandidate, Node.fromId]
  rw [visited, unvisited, List.take_append_drop, others, ← hcand]
  exact h.candidates_perm _ _

end RoutingTable

/-! ## The test -/

namespace Protocol

variable {p : Protocol} {now : ℕ} {node : Node} {key : NodeId}

/-- The distance of a node to a key. -/
def distanceToKey (key : NodeId) (n : Node) : ℕ := n.distanceTo (Node.fromId key)

/-- The test `welcome_if_new` makes on a key. -/
def passesFilter (p : Protocol) (now : ℕ) (node : Node) (router : RoutingTable) (key : NodeId) :
    Bool :=
  let keyNode := Node.fromId key
  let neighbors := (router.findNeighbors now keyNode none).1
  (neighbors.getLast?.all fun last => node.distanceTo keyNode < last.distanceTo keyNode) &&
    neighbors.head?.all fun first => p.sourceNode.distanceTo keyNode < first.distanceTo keyNode

theorem passesFilter_congr {t t' : RoutingTable} (hk : 1 ≤ t.ksize)
    (h : t'.untouched = t.untouched) :
    p.passesFilter now node t' key = p.passesFilter now node t key := by
  simp only [passesFilter, RoutingTable.findNeighbors_congr hk h]

/-- One turn of the loop over the store. -/
theorem keysToReplicate_cons (node : Node) (router : RoutingTable) {keyVec : Bytes}
    (hlen : keyVec.length = idLen) (value : Bytes) (entries : List (Bytes × Bytes)) :
    (p.keysToReplicate now node router ((keyVec, value) :: entries)).1 =
      (if p.passesFilter now node router ⟨keyVec, hlen⟩ then [(⟨keyVec, hlen⟩, value)] else []) ++
        (p.keysToReplicate now node
          (router.findNeighbors now (Node.fromId ⟨keyVec, hlen⟩) none).2 entries).1 := by
  rw [keysToReplicate, dif_pos hlen]
  change (if p.passesFilter now node router ⟨keyVec, hlen⟩ = true then (_ :: _, _) else (_, _)).1 = _
  split <;> rfl

/-- **The keys to replicate** are those of the store that pass the test. -/
theorem mem_keysToReplicate_iff {router : RoutingTable} (hk : 1 ≤ router.ksize)
    {entries : List (Bytes × Bytes)} {value : Bytes} :
    (key, value) ∈ (p.keysToReplicate now node router entries).1 ↔
      (key.bytes, value) ∈ entries ∧ p.passesFilter now node router key = true := by
  induction entries generalizing router with
  | nil => simp [keysToReplicate]
  | cons entry entries ih =>
      rcases entry with ⟨keyVec, v⟩
      by_cases hlen : keyVec.length = idLen
      · have htouch := router.untouched_findNeighbors now (Node.fromId ⟨keyVec, hlen⟩) none
        have hrest := @ih (router.findNeighbors now (Node.fromId ⟨keyVec, hlen⟩) none).2
          (RoutingTable.ksize_congr htouch ▸ hk)
        rw [passesFilter_congr hk htouch] at hrest
        have hkey : key.bytes = keyVec ↔ key = ⟨keyVec, hlen⟩ := by rw [NodeId.ext_iff]
        rw [keysToReplicate_cons node router hlen, List.mem_append, hrest, List.mem_cons,
          Prod.mk.injEq, hkey]
        by_cases heq : key = ⟨keyVec, hlen⟩
        · subst heq
          by_cases hpass : p.passesFilter now node router ⟨keyVec, hlen⟩ = true <;> simp [hpass]
        · split <;> simp [heq]
      · have hne : key.bytes ≠ keyVec := fun heq => hlen (heq ▸ key.length_eq)
        rw [keysToReplicate, dif_neg hlen, ih hk, List.mem_cons, Prod.mk.injEq]
        simp [hne]

/-- The test in terms of the contacts visited: the newcomer is closer than one of them, if
there are any, and this node is closer than all. -/
theorem passesFilter_iff {t : RoutingTable} (hk : 1 ≤ t.ksize) :
    p.passesFilter now node t key = true ↔
      (t.visited key = [] ∨ ∃ c ∈ t.visited key, distanceToKey key node < distanceToKey key c) ∧
      ∀ c ∈ t.visited key, distanceToKey key p.sourceNode < distanceToKey key c := by
  have hsorted := RoutingTable.findNeighbors_sorted hk now (Node.fromId key) none
  have hperm := RoutingTable.findNeighbors_perm hk now (Node.fromId key) none
  rw [passesFilter, Bool.and_eq_true, getLast?_all_lt_iff hsorted, head?_all_lt_iff hsorted]
  simp only [hperm.mem_iff, ← List.isEmpty_iff, hperm.isEmpty_eq, RoutingTable.visited,
    distanceToKey]

/-! ## The replication rule -/

/-- `welcome_if_new` returns and has spawned a `Store` of the key to the node. -/
def Sends (p : Protocol) (now : ℕ) (node : Node) (s : NodeState) (key : NodeId) : Prop :=
  ∃ fuel s' value, p.welcomeIfNew now fuel node s = some s' ∧
    Task.callStoreRpc node key value ∈ s'.tasks.drop s.tasks.length

/-- The key belongs to the newcomer and this node has to send it: among the contacts (other
than one whose id is the key) fewer than `ksize` are as close to the key as the newcomer,
and this node is closer than all of them. -/
def Belongs (p : Protocol) (t : RoutingTable) (node : Node) (key : NodeId) : Prop :=
  ((t.others key).countP fun c => distanceToKey key c ≤ distanceToKey key node) < t.ksize ∧
    ∀ c ∈ t.others key, distanceToKey key p.sourceNode < distanceToKey key c

instance (p : Protocol) (t : RoutingTable) (node : Node) (key : NodeId) :
    Decidable (p.Belongs t node key) :=
  inferInstanceAs (Decidable (_ ∧ _))

/-- When the test decides by the rule. -/
structure FilterExact (p : Protocol) (t : RoutingTable) (node : Node) (key : NodeId) : Prop where
  /-- Fewer than `ksize` contacts: if this node is closer than all of them, the newcomer can
  be added, and it is closer than one of them or there are none. -/
  few : (t.others key).length < t.ksize →
    (∀ c ∈ t.others key, distanceToKey key p.sourceNode < distanceToKey key c) →
    ¬t.Crowded node ∧ (t.others key = [] ∨
      ∃ c ∈ t.others key, distanceToKey key node < distanceToKey key c)
  /-- At least `ksize` contacts: if those that are visited let the key through, this node is
  closer than the others too, and fewer of the others are as close as the newcomer than of
  the visited ones are farther. -/
  many : t.ksize ≤ (t.others key).length → ¬t.Crowded node →
    (∃ c ∈ t.visited key, distanceToKey key node < distanceToKey key c) →
    (∀ c ∈ t.visited key, distanceToKey key p.sourceNode < distanceToKey key c) →
    (∀ c ∈ t.unvisited key, distanceToKey key p.sourceNode < distanceToKey key c) ∧
      ((t.unvisited key).countP fun c => distanceToKey key c ≤ distanceToKey key node) <
        (t.visited key).countP fun c => distanceToKey key node < distanceToKey key c
  /-- The newcomer cannot be added: this node is not closer than all contacts, or `ksize` of
  them are as close as the newcomer. -/
  crowded : t.ksize ≤ (t.others key).length → t.Crowded node →
    (∀ c ∈ t.others key, distanceToKey key p.sourceNode < distanceToKey key c) →
    t.ksize ≤ (t.others key).countP fun c => distanceToKey key c ≤ distanceToKey key node

section Rule

variable {t : RoutingTable} {s : NodeState} {value : Bytes}

/-- **What is sent**: the keys that pass the test, if the node can be added at all. -/
theorem sends_iff (h : s.router.Invariant) (hk : 1 ≤ s.router.ksize)
    (hnew : node.id ∉ s.router.primaries.map Node.id) (hlive : s.stored now key = some value) :
    p.Sends now node s key ↔
      ¬s.router.Crowded node ∧ p.passesFilter now node s.router key = true := by
  have htouch := @untouched_keysToReplicate p now node s.router (s.storage.iterAll now)
  have hreturns : (∃ fuel, (p.welcomeIfNew now fuel node s).isSome = true) ↔
      ¬s.router.Crowded node := by
    rw [← RoutingTable.crowded_congr htouch, ← (h.congr htouch).returns_iff_not_crowded
      (RoutingTable.ksize_congr htouch ▸ hk) now]
    simp [welcomeIfNew, (h.isNewNode_iff node).mpr hnew]
  have htasks : ∀ {fuel s'}, p.welcomeIfNew now fuel node s = some s' → ∀ v,
      (Task.callStoreRpc node key v ∈ s'.tasks.drop s.tasks.length ↔
        s.stored now key = some v ∧ p.passesFilter now node s.router key = true) := by
    intro fuel s' hret v
    rcases welcomeIfNew_cases hret with ⟨hknown, -⟩ | ⟨-, t, lru, -, -, heq, -⟩
    · simp [(h.isNewNode_iff node).mpr hnew] at hknown
    · rw [heq, List.drop_left, NodeState.stored, ← ForgetfulStorage.mem_iterAll_iff,
        ← mem_keysToReplicate_iff hk]
      simp [welcomeTasks]
  constructor
  · rintro ⟨fuel, s', v, hret, hmem⟩
    exact ⟨hreturns.mp ⟨fuel, by simp [hret]⟩, ((htasks hret v).mp hmem).2⟩
  · rintro ⟨hroom, hpass⟩
    rcases hreturns.mpr hroom with ⟨fuel, hsome⟩
    rcases Option.isSome_iff_exists.mp hsome with ⟨s', hret⟩
    exact ⟨fuel, s', value, hret, (htasks hret value).mpr ⟨hlive, hpass⟩⟩

/-- With fewer than `ksize` contacts a lookup visits all. -/
theorem visited_perm_of_few (h : t.Invariant) (hfew : (t.others key).length < t.ksize) :
    (t.visited key).Perm (t.others key) := by
  have hperm := h.others_perm key
  have hlen := hperm.length_eq
  have hrest : t.unvisited key = [] := by
    simp only [RoutingTable.visited, RoutingTable.unvisited, List.take_append_drop] at hlen
    exact List.drop_eq_nil_of_le (by omega)
  rwa [hrest, List.append_nil] at hperm

theorem length_visited (h : t.Invariant) (hmany : t.ksize ≤ (t.others key).length) :
    (t.visited key).length = t.ksize := by
  have hlen := (h.others_perm key).length_eq
  simp only [RoutingTable.visited, RoutingTable.unvisited, List.take_append_drop] at hlen
  rw [RoutingTable.visited, List.length_take]
  omega

/-- The visited contacts are those as close as the newcomer and those farther. -/
theorem countP_visited (node : Node) :
    ((t.visited key).countP fun c => distanceToKey key c ≤ distanceToKey key node) +
      ((t.visited key).countP fun c => distanceToKey key node < distanceToKey key c) =
        (t.visited key).length := by
  rw [List.length_eq_countP_add_countP (fun c => distanceToKey key c ≤ distanceToKey key node)]
  congr 1
  apply List.countP_congr
  simp

/-- The rule by visited and unvisited contacts. -/
theorem belongs_iff (h : t.Invariant) (hmany : t.ksize ≤ (t.others key).length) :
    p.Belongs t node key ↔
      ((t.unvisited key).countP fun c => distanceToKey key c ≤ distanceToKey key node) <
        ((t.visited key).countP fun c => distanceToKey key node < distanceToKey key c) ∧
      (∀ c ∈ t.visited key, distanceToKey key p.sourceNode < distanceToKey key c) ∧
      ∀ c ∈ t.unvisited key, distanceToKey key p.sourceNode < distanceToKey key c := by
  have hperm := h.others_perm key
  have hlen := length_visited h hmany
  have hcount := @countP_visited key t node
  rw [Belongs, ← hperm.countP_eq, List.countP_append]
  simp only [← hperm.mem_iff, List.forall_mem_append]
  refine and_congr_left fun _ => ?_
  omega

/-- The rule asks for a visited contact that is farther than the newcomer. -/
theorem exists_farther {visited unvisited : List Node}
    (h : unvisited.countP (fun c => distanceToKey key c ≤ distanceToKey key node) <
      visited.countP fun c => distanceToKey key node < distanceToKey key c) :
    ∃ c ∈ visited, distanceToKey key node < distanceToKey key c := by
  have hpos := List.countP_pos_iff.mp (Nat.zero_lt_of_lt h)
  simpa using hpos

/-- With fewer than `ksize` contacts the newcomer is always among the `ksize` closest. -/
theorem belongs_of_few (hfew : (t.others key).length < t.ksize) :
    p.Belongs t node key ↔
      ∀ c ∈ t.others key, distanceToKey key p.sourceNode < distanceToKey key c :=
  and_iff_right (List.countP_le_length.trans_lt hfew)

theorem filterExact_of_few (hfew : (t.others key).length < t.ksize) :
    p.FilterExact t node key ↔
      ((∀ c ∈ t.others key, distanceToKey key p.sourceNode < distanceToKey key c) →
        ¬t.Crowded node ∧ (t.others key = [] ∨
          ∃ c ∈ t.others key, distanceToKey key node < distanceToKey key c)) := by
  constructor
  · exact fun h => h.few hfew
  · intro h
    exact ⟨fun _ => h, fun hmany => absurd hfew (not_lt.mpr hmany),
      fun hmany => absurd hfew (not_lt.mpr hmany)⟩

theorem filterExact_of_many (hmany : t.ksize ≤ (t.others key).length) :
    p.FilterExact t node key ↔
      (¬t.Crowded node →
        (∃ c ∈ t.visited key, distanceToKey key node < distanceToKey key c) →
        (∀ c ∈ t.visited key, distanceToKey key p.sourceNode < distanceToKey key c) →
        (∀ c ∈ t.unvisited key, distanceToKey key p.sourceNode < distanceToKey key c) ∧
          ((t.unvisited key).countP fun c => distanceToKey key c ≤ distanceToKey key node) <
            (t.visited key).countP fun c => distanceToKey key node < distanceToKey key c) ∧
      (t.Crowded node →
        (∀ c ∈ t.others key, distanceToKey key p.sourceNode < distanceToKey key c) →
        t.ksize ≤
          (t.others key).countP fun c => distanceToKey key c ≤ distanceToKey key node) := by
  constructor
  · exact fun h => ⟨h.many hmany, h.crowded hmany⟩
  · intro h
    exact ⟨fun hfew => absurd hfew (not_lt.mpr hmany), fun _ => h.1, fun _ => h.2⟩

theorem not_belongs_iff :
    ¬p.Belongs t node key ↔
      ((∀ c ∈ t.others key, distanceToKey key p.sourceNode < distanceToKey key c) →
        t.ksize ≤
          (t.others key).countP fun c => distanceToKey key c ≤ distanceToKey key node) := by
  rw [Belongs, and_comm, not_and, not_lt]

end Rule

end Protocol

open Protocol Sample

/-- **Newcomers receive the keys that belong to them**, and no others, exactly where the
test decides by the rule. -/
theorem sends_iff_belongs (p : Protocol) (ksize start : ℕ) (hk : 1 ≤ ksize) (ops : List RoutingOp)
    (s : NodeState)
    (hreach : exec RoutingTable.step (RoutingTable.new p.sourceNode ksize start) ops =
      some s.router)
    (now : ℕ) (node : Node) (hnew : node.id ∉ s.router.primaries.map Node.id) (key : NodeId)
    (value : Bytes) (hlive : s.stored now key = some value) :
    (p.Sends now node s key ↔ p.Belongs s.router node key) ↔ p.FilterExact s.router node key := by
  rcases RoutingTable.Invariant.exec hreach with ⟨h, -, rfl⟩
  rw [sends_iff h hk hnew hlive, passesFilter_iff hk]
  rcases Nat.lt_or_ge (s.router.others key).length s.router.ksize with hfew | hmany
  · have hvisited := visited_perm_of_few h hfew
    rw [belongs_of_few hfew, filterExact_of_few hfew]
    simp only [hvisited.mem_iff, ← List.isEmpty_iff, hvisited.isEmpty_eq]
    constructor
    · intro hiff hclosest
      have hsent := hiff.mpr hclosest
      exact ⟨hsent.1, hsent.2.1⟩
    · intro hpassed
      exact ⟨fun hsent => hsent.2.2, fun hclosest =>
        ⟨(hpassed hclosest).1, (hpassed hclosest).2, hclosest⟩⟩
  · have hne : s.router.visited key ≠ [] := by
      rw [← List.length_pos_iff, length_visited h hmany]
      exact hk
    have hrule := @belongs_iff p node key _ h hmany
    rw [filterExact_of_many hmany]
    by_cases hroom : s.router.Crowded node
    · simp only [hroom, not_true, false_and, false_iff, true_implies, false_implies, true_and,
        not_belongs_iff]
    · have hfarther := @exists_farther node key (s.router.visited key) (s.router.unvisited key)
      simp only [hroom, not_false_eq_true, true_and, hne, false_or, hrule, true_implies,
        false_implies, and_true]
      constructor
      · intro hiff hfar hclosest
        have hbelongs := hiff.mp ⟨hfar, hclosest⟩
        exact ⟨hbelongs.2.2, hbelongs.1⟩
      · intro hothers
        constructor
        · rintro ⟨hfar, hclosest⟩
          exact ⟨(hothers hfar hclosest).2, hclosest, (hothers hfar hclosest).1⟩
        · rintro ⟨hcount, hclosest, -⟩
          exact ⟨hfarther hcount, hclosest⟩

/-- Both sides hold for a newcomer at the only contact's side of the key space. -/
theorem sends_iff_belongs_halves :
    upperProtocol.Sends 0 (newcomer 0x02) keeper.state nearKey ∧
      upperProtocol.FilterExact halves (newcomer 0x02) nearKey := by
  have hnew : (newcomer 0x02).id ∉ halves.primaries.map Node.id := by decide +kernel
  have hsends : upperProtocol.Sends 0 (newcomer 0x02) keeper.state nearKey := by
    have hmem : (upperProtocol.welcomeIfNew 0 9 (newcomer 0x02) keeper.state).any (fun s' =>
        s'.tasks.contains (.callStoreRpc (newcomer 0x02) nearKey [7])) = true := by decide +kernel
    simp only [Option.any_eq_true] at hmem
    rcases hmem with ⟨s', hret, htask⟩
    exact ⟨9, s', [7], hret, by simpa [keeper] using htask⟩
  refine ⟨hsends, ?_⟩
  refine (sends_iff_belongs upperProtocol 1 0 le_rfl halvesRun keeper.state exec_halvesRun 0
    (newcomer 0x02) hnew nearKey [7] (by decide +kernel)).mp (iff_of_true hsends ?_)
  decide +kernel

namespace Sample

open RoutingTable

/-- The same node with `ksize = 20` and one contact. -/
def oneContact : RoutingTable :=
  ((new (nodeAt 0xe0) 20 0).step (.addContact 0 9 (nodeAt 0x01))).getD (new (nodeAt 0xe0) 20 0)

def roomyKeeper : NodeState := { keeper.state with router := oneContact }

theorem exec_oneContact : exec step (new upperProtocol.sourceNode 20 0)
    [.addContact 0 9 (nodeAt 0x01)] = some roomyKeeper.router := by
  decide +kernel

end Sample

/-- **A key that belongs to a newcomer is not sent**: there is one contact and room for
nineteen more, this node is the closest to the key, but the newcomer is farther from it
than the contact. -/
theorem belongs_not_sent :
    exec RoutingTable.step (RoutingTable.new upperProtocol.sourceNode 20 0)
        [.addContact 0 9 (RoutingTable.nodeAt 0x01)] = some roomyKeeper.router ∧
      roomyKeeper.stored 0 nearKey = some [7] ∧
      upperProtocol.Belongs roomyKeeper.router (newcomer 0x11) nearKey ∧
      (upperProtocol.welcomeIfNew 0 9 (newcomer 0x11) roomyKeeper).map NodeState.tasks = some [] ∧
      ¬upperProtocol.Sends 0 (newcomer 0x11) roomyKeeper nearKey := by
  have hlive : roomyKeeper.stored 0 nearKey = some [7] := by decide +kernel
  refine ⟨exec_oneContact, hlive, by decide +kernel, by decide +kernel, ?_⟩
  rcases RoutingTable.Invariant.exec exec_oneContact with ⟨h, -, hksize⟩
  rw [sends_iff h (by simp [hksize]) (by decide +kernel) hlive]
  decide +kernel

end AuthKademlia
