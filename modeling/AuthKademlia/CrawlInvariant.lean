import AuthKademlia.Crawl
import Mathlib.Data.Fintype.Vector
import Mathlib.SetTheory.Cardinal.Finite

/-!
# What a lookup does, whatever its peers answer

A value lookup does to the known nodes exactly what a node lookup does
(`ValueSpiderCrawl.base_round`), so one round is described once: which peers it queries,
and what it leaves in the heap (`NodeSpiderCrawl.round_eq`, `idSet_pushAnswers`).

Every lookup ends (`lookups_end`): a round that contacts somebody uses up one of finitely
many ids, and a round that contacts nobody is followed by one that does.

## Main definitions

* `Responses.named`, `Responses.failed`, `Responses.answered` — what a list of responses
  says.
* `learnedIds`, `queriedIds`, `failedIds`, `answeredIds` — the same for a history.
* `SpiderCrawl.potential` — bounds the rounds to come.
-/

namespace AuthKademlia

open Lib

/-! ## Reading a history -/

namespace Responses

/-- The nodes named in the answers. -/
def nodes (rs : Responses) : List Node :=
  rs.flatMap fun r => if r.2.happened then r.2.getNodeList else []

/-- The ids named in the answers. -/
def named (rs : Responses) : Finset NodeId := idsOf rs.nodes

/-- The peers that did not answer. -/
def failed (rs : Responses) : List NodeId :=
  (rs.filter fun r => !r.2.happened).map Prod.fst

/-- The peers that answered. -/
def answered (rs : Responses) : List NodeId :=
  (rs.filter fun r => r.2.happened).map Prod.fst

end Responses

/-- All responses of a lookup. -/
def allResponses (history : List Round) : Responses := history.flatMap Round.responses

/-- The ids a lookup has learned: the initial peers and all nodes named in answers. -/
def learnedIds (peers : List Node) (history : List Round) : Finset NodeId :=
  idsOf peers ∪ (allResponses history).named

/-- The ids queried, in order. -/
def queriedIds (history : List Round) : List NodeId :=
  (history.flatMap Round.queried).map Node.id

/-- The ids a lookup without a bound would know: all that were named, except those that
failed and have not been named again. -/
def openIds (peers : List Node) (history : List Round) : Finset NodeId :=
  history.foldl (fun known r => (known ∪ r.responses.named) \ r.responses.failed.toFinset)
    (idsOf peers)

/-- The ids that were queried and did not answer. -/
def failedIds (history : List Round) : Finset NodeId := (allResponses history).failed.toFinset

/-- The ids that were queried and answered. -/
def answeredIds (history : List Round) : Finset NodeId := (allResponses history).answered.toFinset

section Reading

variable {rs rs' : Responses} {history : List Round} {r : Round} {id : NodeId}

theorem idsOf_append (a b : List Node) : idsOf (a ++ b) = idsOf a ∪ idsOf b := by
  simp [idsOf, List.toFinset_append]

theorem named_append : (rs ++ rs' : Responses).named = rs.named ∪ rs'.named := by
  rw [Responses.named, Responses.nodes, List.flatMap_append, idsOf_append]
  rfl

theorem named_cons (x : NodeId × RawResponse) (rs : Responses) :
    Responses.named (x :: rs) =
      (if x.2.happened then idsOf x.2.getNodeList else ∅) ∪ rs.named := by
  rw [Responses.named, Responses.nodes, List.flatMap_cons, idsOf_append]
  split <;> rfl

theorem failed_cons (x : NodeId × RawResponse) (rs : Responses) :
    Responses.failed (x :: rs) = if x.2.happened then rs.failed else x.1 :: rs.failed := by
  cases h : x.2.happened <;> simp [Responses.failed, h]

theorem mem_failed_or_answered (h : id ∈ rs.map Prod.fst) : id ∈ rs.failed ∨ id ∈ rs.answered := by
  obtain ⟨x, hx, rfl⟩ := List.mem_map.mp h
  cases hhap : x.2.happened with
  | false => exact Or.inl (List.mem_map.mpr ⟨x, by simp [hx, hhap], rfl⟩)
  | true => exact Or.inr (List.mem_map.mpr ⟨x, by simp [hx, hhap], rfl⟩)

theorem failed_perm (hperm : rs.Perm rs') : rs.failed.toFinset = rs'.failed.toFinset :=
  List.toFinset_eq_of_perm _ _ ((hperm.filter _).map Prod.fst)

theorem named_perm (hperm : rs.Perm rs') : rs.named = rs'.named :=
  List.toFinset_eq_of_perm _ _ ((hperm.flatMap_right _).map Node.id)

theorem allResponses_concat :
    allResponses (history ++ [r]) = allResponses history ++ r.responses := by
  simp [allResponses]

theorem learnedIds_concat (peers : List Node) :
    learnedIds peers (history ++ [r]) = learnedIds peers history ∪ r.responses.named := by
  rw [learnedIds, allResponses_concat, named_append, ← Finset.union_assoc]
  rfl

theorem learnedIds_nil (peers : List Node) : learnedIds peers [] = idsOf peers := by
  simp [learnedIds, allResponses, Responses.named, Responses.nodes, idsOf]

theorem openIds_concat (peers : List Node) (history : List Round) (r : Round) :
    openIds peers (history ++ [r]) =
      (openIds peers history ∪ r.responses.named) \ r.responses.failed.toFinset := by
  rw [openIds, List.foldl_append]
  rfl

theorem queriedIds_concat :
    queriedIds (history ++ [r]) = queriedIds history ++ r.queried.map Node.id := by
  simp [queriedIds]

theorem failedIds_concat :
    failedIds (history ++ [r]) = failedIds history ∪ r.responses.failed.toFinset := by
  simp [failedIds, allResponses_concat, Responses.failed]

theorem answeredIds_concat :
    answeredIds (history ++ [r]) = answeredIds history ∪ r.responses.answered.toFinset := by
  simp [answeredIds, allResponses_concat, Responses.answered]

end Reading

/-! ## One round -/

/-- Mark the peers of a round. -/
def NodeHeap.markAll (h : NodeHeap) (peers : List Node) : NodeHeap :=
  { h with contacted := h.contacted ∪ idsOf peers }

/-- Push the node lists of the answers, one after the other. -/
def pushAnswers (lib : HeapLib) (h : NodeHeap) (rs : Responses) : NodeHeap :=
  rs.foldl (fun h r => if r.2.happened then h.push lib r.2.getNodeList else h) h

section Heap

variable {lib : HeapLib} {h : NodeHeap} {rs : Responses}

theorem NodeHeap.push_nil : h.push lib [] = h := by
  obtain ⟨node, heap, contacted, maxsize, nodup, bounded⟩ := h
  simp only [NodeHeap.push, HeapLib.insertAll, List.foldl_nil, lib.enforceMaxsize_of_le bounded]

theorem NodeHeap.foldl_markContacted (peers : List Node) :
    peers.foldl NodeHeap.markContacted h = h.markAll peers := by
  induction peers generalizing h with
  | nil => simp [NodeHeap.markAll, idsOf]
  | cons p peers ih =>
      rw [List.foldl_cons, ih]
      simp only [NodeHeap.markAll, NodeHeap.markContacted, idsOf, List.map_cons, List.toFinset_cons,
        Finset.insert_union, Finset.union_insert]

theorem pushAnswers_cons (x : NodeId × RawResponse) (rs : Responses) :
    pushAnswers lib h (x :: rs) =
      pushAnswers lib (if x.2.happened then h.push lib x.2.getNodeList else h) rs := rfl

/-- What `pushAnswers` keeps. -/
theorem pushAnswers_fields :
    (pushAnswers lib h rs).node = h.node ∧ (pushAnswers lib h rs).maxsize = h.maxsize ∧
      (pushAnswers lib h rs).contacted = h.contacted := by
  induction rs generalizing h with
  | nil => exact ⟨rfl, rfl, rfl⟩
  | cons x rs ih =>
      rw [pushAnswers_cons]
      split
      · exact ih
      · exact ih

theorem idSet_pushAnswers_subset : (pushAnswers lib h rs).idSet ⊆ h.idSet ∪ rs.named := by
  induction rs generalizing h with
  | nil => exact Finset.subset_union_left
  | cons x rs ih =>
      rw [pushAnswers_cons, named_cons, ← Finset.union_assoc]
      split
      · exact ih.trans (Finset.union_subset_union_left NodeHeap.idSet_push_subset)
      · rw [Finset.union_empty]
        exact ih

/-- Without an overflow nothing named is lost. -/
theorem idSet_pushAnswers_of_card_le (hfits : (h.idSet ∪ rs.named).card ≤ h.maxsize) :
    (pushAnswers lib h rs).idSet = h.idSet ∪ rs.named := by
  induction rs generalizing h with
  | nil => exact (Finset.union_empty _).symm
  | cons x rs ih =>
      rw [pushAnswers_cons]
      rw [named_cons, ← Finset.union_assoc] at hfits ⊢
      split
      · rename_i hhap
        simp only [hhap, if_true] at hfits
        have hpush := @NodeHeap.idSet_push_of_card_le lib h x.2.getNodeList
          ((Finset.card_le_card Finset.subset_union_left).trans hfits)
        rw [ih (by rwa [hpush]), hpush]
      · rename_i hhap
        simp only [hhap, Bool.false_eq_true, if_false, Finset.union_empty] at hfits ⊢
        exact ih hfits

theorem NodeHeap.Selects.pushAnswers {target : Node} {k : ℕ} {seen : Finset NodeId}
    (hs : h.Selects target k seen)
    (hinj : Set.InjOn idToU128 (seen ∪ rs.named : Finset NodeId)) :
    (pushAnswers lib h rs).Selects target k (seen ∪ rs.named) := by
  induction rs generalizing h seen with
  | nil =>
      have hnone : Responses.named [] = ∅ := rfl
      rw [hnone, Finset.union_empty]
      exact hs
  | cons x rs ih =>
      rw [pushAnswers_cons]
      rw [named_cons, ← Finset.union_assoc] at hinj ⊢
      cases hhap : x.2.happened with
      | true =>
          simp only [hhap, if_true] at hinj ⊢
          refine ih (hs.push ?_) hinj
          exact hinj.mono (Finset.coe_subset.mpr Finset.subset_union_left)
      | false =>
          simp only [hhap, Bool.false_eq_true, if_false, Finset.union_empty] at hinj ⊢
          exact ih hs hinj

/-- **The answers of a round, in any order, select the nearest** of what was known and
what they name. -/
theorem idSet_pushAnswers (hinj : Set.InjOn idToU128 (h.idSet ∪ rs.named : Finset NodeId)) :
    (pushAnswers lib h rs).idSet =
      nearest (idDistance h.node) h.maxsize (h.idSet ∪ rs.named) :=
  ((NodeHeap.selects_of_idSet rfl rfl rfl).pushAnswers hinj).idSet

end Heap

/-- The values received. -/
def Responses.values (rs : Responses) : List Bytes :=
  rs.filterMap fun r => if r.2.happened then r.2.getValue else none

theorem NodeSpiderCrawl.foldl_absorb (lib : HeapLib) (h : NodeHeap) (toRemove : List NodeId)
    (rs : Responses) :
    rs.foldl (NodeSpiderCrawl.absorb lib) (h, toRemove) =
      (pushAnswers lib h rs, toRemove ++ rs.failed) := by
  induction rs generalizing h toRemove with
  | nil => simp [pushAnswers, Responses.failed]
  | cons x rs ih =>
      rw [List.foldl_cons, pushAnswers_cons, failed_cons]
      cases hhap : x.2.happened <;> simp [NodeSpiderCrawl.absorb, hhap, ih]

/-- The loop over the responses of a value lookup does to the known nodes what that of a
node lookup does. -/
theorem ValueSpiderCrawl.foldl_absorb (lib : HeapLib) (acc : ValueSpiderCrawl.Tally)
    (rs : Responses) :
    (rs.foldl (ValueSpiderCrawl.absorb lib) acc).nearest = pushAnswers lib acc.nearest rs ∧
      (rs.foldl (ValueSpiderCrawl.absorb lib) acc).toRemove = acc.toRemove ++ rs.failed ∧
      (rs.foldl (ValueSpiderCrawl.absorb lib) acc).foundValues =
        acc.foundValues ++ rs.values := by
  induction rs generalizing acc with
  | nil => simp [pushAnswers, Responses.failed, Responses.values]
  | cons x rs ih =>
      rw [List.foldl_cons, pushAnswers_cons, failed_cons]
      obtain ⟨h1, h2, h3⟩ := ih (ValueSpiderCrawl.absorb lib acc x)
      rw [h1, h2, h3]
      obtain ⟨id, happened, payload⟩ := x
      cases happened with
      | false => simp [ValueSpiderCrawl.absorb, Responses.values]
      | true =>
          -- a value names no nodes, and pushing none changes nothing
          cases payload <;> simp [ValueSpiderCrawl.absorb, Responses.values,
            RawResponse.getValue, RawResponse.getNodeList, NodeHeap.push_nil]

namespace SpiderCrawl

variable (lib : HeapLib) (net : Network) (c : SpiderCrawl)

/-- What happens in the next round. -/
def nextRound : Round :=
  ⟨c.selectPeers lib, net.responses c.history (c.selectPeers lib)⟩

/-- The known nodes after the next round. -/
def nextNearest : NodeHeap :=
  (pushAnswers lib (c.nearest.markAll (c.selectPeers lib)) (c.nextRound lib net).responses).remove
    lib (c.nextRound lib net).responses.failed

end SpiderCrawl

theorem NodeSpiderCrawl.round_eq (lib : HeapLib) (net : Network) (c : SpiderCrawl) :
    NodeSpiderCrawl.round lib net c =
      { c with
        lastIdsCrawled := c.nearest.getIds lib
        nearest := c.nextNearest lib net
        history := c.history ++ [c.nextRound lib net] } := by
  simp only [NodeSpiderCrawl.round, SpiderCrawl.findRound, NodeSpiderCrawl.foldl_absorb,
    NodeHeap.foldl_markContacted, List.nil_append]
  rfl

/-- **A value lookup crawls as a node lookup does.** -/
theorem ValueSpiderCrawl.base_round (lib : HeapLib) (net : Network) (v : ValueSpiderCrawl) :
    (ValueSpiderCrawl.round lib net v).base = NodeSpiderCrawl.round lib net v.base := by
  obtain ⟨h1, h2, -⟩ := ValueSpiderCrawl.foldl_absorb lib
    ⟨(v.base.findRound lib net).2.nearest, v.nearestWithoutValue, [], []⟩
    (v.base.findRound lib net).1
  simp only [ValueSpiderCrawl.round, NodeSpiderCrawl.round, NodeSpiderCrawl.foldl_absorb, h1, h2]

theorem ValueSpiderCrawl.foundValues_round (lib : HeapLib) (net : Network)
    (v : ValueSpiderCrawl) :
    (ValueSpiderCrawl.round lib net v).foundValues =
      (v.base.nextRound lib net).responses.values :=
  (ValueSpiderCrawl.foldl_absorb lib _ _).2.2

namespace SpiderCrawl

variable {lib : HeapLib} {net : Network} {c : SpiderCrawl}

theorem perm_nextRound :
    (c.nextRound lib net).responses.Perm
      ((c.selectPeers lib).map fun p => (p.id, net.answer c.history p)) :=
  net.responseOrder_perm _ _

/-- Exactly the queried peers have a response. -/
theorem mem_responses_iff {id : NodeId} :
    id ∈ (c.nextRound lib net).responses.map Prod.fst ↔ id ∈ (c.selectPeers lib).map Node.id := by
  rw [(perm_nextRound.map Prod.fst).mem_iff, List.map_map]
  rfl

@[simp] theorem node_nextNearest : (c.nextNearest lib net).node = c.nearest.node := by
  rw [nextNearest, NodeHeap.node_remove, pushAnswers_fields.1]
  rfl

@[simp] theorem maxsize_nextNearest : (c.nextNearest lib net).maxsize = c.nearest.maxsize := by
  rw [nextNearest, NodeHeap.maxsize_remove, pushAnswers_fields.2.1]
  rfl

@[simp] theorem contacted_nextNearest :
    (c.nextNearest lib net).contacted = c.nearest.contacted ∪ idsOf (c.selectPeers lib) := by
  rw [nextNearest, NodeHeap.contacted_remove, pushAnswers_fields.2.2]
  rfl

/-- A round leaves only known and named ids, and none that failed in it. -/
theorem idSet_nextNearest_subset :
    (c.nextNearest lib net).idSet ⊆
      (c.nearest.idSet ∪ (c.nextRound lib net).responses.named) \
        (c.nextRound lib net).responses.failed.toFinset := by
  rw [nextNearest, NodeHeap.idSet_remove]
  exact Finset.sdiff_subset_sdiff idSet_pushAnswers_subset subset_rfl

/-- **One round on ids that do not collide.** -/
theorem idSet_nextNearest (hinj : Set.InjOn idToU128
      (c.nearest.idSet ∪ (c.nextRound lib net).responses.named : Finset NodeId)) :
    (c.nextNearest lib net).idSet =
      Lib.nearest (idDistance c.nearest.node) c.nearest.maxsize
          (c.nearest.idSet ∪ (c.nextRound lib net).responses.named) \
        (c.nextRound lib net).responses.failed.toFinset := by
  rw [nextNearest, NodeHeap.idSet_remove,
    idSet_pushAnswers (h := c.nearest.markAll (c.selectPeers lib)) hinj]
  rfl

/-- One round without an overflow. -/
theorem idSet_nextNearest_of_card_le
    (hfits : (c.nearest.idSet ∪ (c.nextRound lib net).responses.named).card ≤ c.nearest.maxsize) :
    (c.nextNearest lib net).idSet =
      (c.nearest.idSet ∪ (c.nextRound lib net).responses.named) \
        (c.nextRound lib net).responses.failed.toFinset := by
  rw [nextNearest, NodeHeap.idSet_remove,
    idSet_pushAnswers_of_card_le (h := c.nearest.markAll (c.selectPeers lib)) hfits]
  rfl

theorem mem_selectPeers {p : Node} (h : p ∈ c.selectPeers lib) :
    p ∈ c.nearest.heap ∧ p.id ∉ c.nearest.contacted :=
  NodeHeap.mem_getUncontacted.mp (List.mem_of_mem_take h)

theorem nodup_selectPeers : ((c.selectPeers lib).map Node.id).Nodup :=
  NodeHeap.nodup_getUncontacted.sublist ((List.take_sublist _ _).map Node.id)

/-- A round that contacts nobody leaves the known nodes alone. -/
theorem nextNearest_of_idle (h : c.selectPeers lib = []) :
    c.nextNearest lib net = c.nearest := by
  have hnone : (c.nextRound lib net).responses = [] := by
    apply List.Perm.eq_nil
    simpa [h] using @perm_nextRound lib net c
  simp [nextNearest, hnone, h, pushAnswers, Responses.failed, NodeHeap.remove, NodeHeap.markAll,
    idsOf]

/-- A round that contacts nobody although somebody is left found new ids. -/
theorem ids_changed_of_idle (h : c.selectPeers lib = [])
    (hleft : c.nearest.haveContactedAll lib = false) :
    c.nearest.getIds lib ≠ c.lastIdsCrawled := by
  intro hsame
  have hne : c.nearest.getUncontacted lib ≠ [] := by
    simpa [NodeHeap.haveContactedAll] using hleft
  have hpos : 0 < c.nearest.len := by
    obtain ⟨n, hn⟩ := List.exists_mem_of_ne_nil _ hne
    have hheap : 0 < c.nearest.heap.length :=
      List.length_pos_of_mem (NodeHeap.mem_getUncontacted.mp hn).1
    rw [NodeHeap.len, Nat.min_eq_left c.nearest.bounded]
    exact hheap
  rw [selectPeers, if_pos hsame, List.take_eq_nil_iff] at h
  rcases h with hzero | hnil
  · omega
  · exact hne hnil

end SpiderCrawl

/-! ## Termination -/

instance finite_uInt8 : Finite UInt8 :=
  Finite.of_injective UInt8.toFin fun _ _ h => UInt8.toFin_inj.mp h

/-- There are finitely many ids. -/
instance : Finite NodeId := by
  refine Finite.of_injective (β := List.Vector UInt8 idLen)
    (fun id : NodeId => ⟨id.bytes, id.length_eq⟩) ?_
  rintro ⟨bytes, hlen⟩ ⟨bytes', hlen'⟩ h
  obtain rfl : bytes = bytes' := congrArg Subtype.val h
  rfl

namespace SpiderCrawl

variable (lib : HeapLib)

/-- Twice the number of ids that have not been contacted, and one more if the next round
may contact nobody. -/
noncomputable def potential (c : SpiderCrawl) : ℕ :=
  2 * (Nat.card NodeId - c.nearest.contacted.card) +
    if c.nearest.getIds lib = c.lastIdsCrawled then 0 else 1

variable {lib}

theorem potential_le (c : SpiderCrawl) : c.potential lib ≤ 2 * Nat.card NodeId + 1 := by
  unfold potential
  split <;> omega

theorem card_contacted_le (s : Finset NodeId) : s.card ≤ Nat.card NodeId := by
  have : Fintype NodeId := Fintype.ofFinite NodeId
  rw [Nat.card_eq_fintype_card]
  exact Finset.card_le_univ s

/-- **Every round that does not end the lookup lowers the potential.** -/
theorem potential_round {net : Network} {c : SpiderCrawl}
    (h : NodeSpiderCrawl.done lib (NodeSpiderCrawl.round lib net c) = false) :
    (NodeSpiderCrawl.round lib net c).potential lib < c.potential lib := by
  rw [NodeSpiderCrawl.round_eq] at h ⊢
  rw [NodeSpiderCrawl.done] at h
  by_cases hidle : c.selectPeers lib = []
  · -- nobody was contacted: the ids were new and are not any more
    have hsame := @nextNearest_of_idle lib net c hidle
    simp only [hsame] at h
    have hnew := ids_changed_of_idle hidle h
    simp only [potential, hsame, if_true, if_neg hnew]
    omega
  · obtain ⟨p, hp⟩ := List.exists_mem_of_ne_nil _ hidle
    have hlt : c.nearest.contacted.card < (c.nextNearest lib net).contacted.card := by
      rw [contacted_nextNearest]
      apply Finset.card_lt_card
      refine Finset.ssubset_iff_subset_ne.mpr ⟨Finset.subset_union_left, fun heq => ?_⟩
      apply (mem_selectPeers hp).2
      rw [heq]
      exact Finset.mem_union_right _ (mem_idsOf.mpr ⟨p, hp, rfl⟩)
    have hle := card_contacted_le (c.nextNearest lib net).contacted
    simp only [potential]
    split <;> split <;> omega

/-- Queries so far: distinct ids, exactly those marked as contacted, one response each. -/
structure QueriesOnce (c : SpiderCrawl) : Prop where
  nodup : (queriedIds c.history).Nodup
  contacted : c.nearest.contacted = (queriedIds c.history).toFinset
  responses : ((allResponses c.history).map Prod.fst).Perm (queriedIds c.history)

theorem queriesOnce_new (node : Node) (peers : List Node) (ksize alpha : ℕ) :
    (SpiderCrawl.new lib node peers ksize alpha).QueriesOnce :=
  ⟨List.nodup_nil, rfl, List.Perm.nil⟩

theorem QueriesOnce.round {net : Network} {c : SpiderCrawl} (h : c.QueriesOnce) :
    (NodeSpiderCrawl.round lib net c).QueriesOnce := by
  rw [NodeSpiderCrawl.round_eq]
  refine ⟨?_, ?_, ?_⟩
  · rw [queriedIds_concat, List.nodup_append']
    refine ⟨h.nodup, nodup_selectPeers, fun id hold hnew => ?_⟩
    obtain ⟨p, hp, rfl⟩ := List.mem_map.mp hnew
    apply (mem_selectPeers hp).2
    rw [h.contacted]
    exact List.mem_toFinset.mpr hold
  · rw [contacted_nextNearest, queriedIds_concat, List.toFinset_append, h.contacted]
    rfl
  · rw [allResponses_concat, queriedIds_concat, List.map_append]
    refine h.responses.append ((perm_nextRound.map Prod.fst).trans (List.Perm.of_eq ?_))
    rw [List.map_map]
    rfl

end SpiderCrawl

/-! ### The two loops -/

/-- The nodes and the history a node lookup returns are those of a final state. -/
theorem NodeSpiderCrawl.find_eq_some {lib : HeapLib} {net : Network} {fuel : ℕ} {c : SpiderCrawl}
    {nodes : List Node} {history : List Round}
    (h : NodeSpiderCrawl.find lib net fuel c = some (nodes, history)) :
    ∃ t, loopUntil (NodeSpiderCrawl.round lib net) (NodeSpiderCrawl.done lib) fuel c = some t ∧
      nodes = t.nearest.toVec lib ∧ history = t.history := by
  obtain ⟨t, ht, heq⟩ := Option.map_eq_some_iff.mp h
  obtain ⟨rfl, rfl⟩ := Prod.mk.inj heq
  exact ⟨t, ht, rfl, rfl⟩

/-- The fuel does not matter once a lookup returns. -/
theorem NodeSpiderCrawl.find_unique {lib : HeapLib} {net : Network} {fuel fuel' : ℕ}
    {c : SpiderCrawl} {r r' : List Node × List Round}
    (h : NodeSpiderCrawl.find lib net fuel c = some r)
    (h' : NodeSpiderCrawl.find lib net fuel' c = some r') : r = r' := by
  obtain ⟨t, ht, rfl⟩ := Option.map_eq_some_iff.mp h
  obtain ⟨t', ht', rfl⟩ := Option.map_eq_some_iff.mp h'
  rw [loopUntil_unique ht ht']

@[simp] theorem ValueSpiderCrawl.history_outcome (lib : HeapLib) (net : Network)
    (v : ValueSpiderCrawl) : (v.outcome lib net).history = v.base.history := by
  unfold outcome
  split <;> rfl

/-- A value lookup goes on only if a node lookup in its place would. -/
theorem ValueSpiderCrawl.not_contactedAll {lib : HeapLib} {v : ValueSpiderCrawl}
    (h : v.done lib = false) : NodeSpiderCrawl.done lib v.base = false := by
  simp only [done, Bool.or_eq_false_iff] at h
  exact h.2

/-- Enough rounds for every lookup. -/
noncomputable def roundBound : ℕ := 2 * Nat.card NodeId + 2

theorem NodeSpiderCrawl.loop_isSome (lib : HeapLib) (net : Network) (c : SpiderCrawl) :
    (loopUntil (NodeSpiderCrawl.round lib net) (NodeSpiderCrawl.done lib) roundBound c).isSome :=
  loopUntil_isSome (SpiderCrawl.potential lib) (fun _ h => SpiderCrawl.potential_round h)
    (Nat.lt_succ_of_le (SpiderCrawl.potential_le c))

theorem ValueSpiderCrawl.loop_isSome (lib : HeapLib) (net : Network) (v : ValueSpiderCrawl) :
    (loopUntil (ValueSpiderCrawl.round lib net) (ValueSpiderCrawl.done lib)
      roundBound v).isSome := by
  refine loopUntil_isSome (fun v : ValueSpiderCrawl => v.base.potential lib) ?_
    (Nat.lt_succ_of_le (SpiderCrawl.potential_le v.base))
  intro v h
  have hleft := ValueSpiderCrawl.not_contactedAll h
  rw [ValueSpiderCrawl.base_round] at hleft ⊢
  exact SpiderCrawl.potential_round hleft

/-- An invariant of the rounds holds when a node lookup ends. -/
theorem NodeSpiderCrawl.loop_invariant {lib : HeapLib} {net : Network} {fuel : ℕ}
    {c t : SpiderCrawl} (I : SpiderCrawl → Prop)
    (hround : ∀ c, I c → I (NodeSpiderCrawl.round lib net c)) (hc : I c)
    (h : loopUntil (NodeSpiderCrawl.round lib net) (NodeSpiderCrawl.done lib) fuel c = some t) :
    I t :=
  loopUntil_invariant I I (fun c hI _ => hround c hI) (fun c hI _ => hround c hI) hc h

/-- An invariant of the rounds holds when a value lookup ends. -/
theorem ValueSpiderCrawl.loop_invariant {lib : HeapLib} {net : Network} {fuel : ℕ}
    {v t : ValueSpiderCrawl} (I : SpiderCrawl → Prop)
    (hround : ∀ c, I c → I (NodeSpiderCrawl.round lib net c)) (hv : I v.base)
    (h : loopUntil (ValueSpiderCrawl.round lib net) (ValueSpiderCrawl.done lib) fuel v = some t) :
    I t.base := by
  have hbase : ∀ v : ValueSpiderCrawl, I v.base → I (v.round lib net).base := by
    intro v hI
    rw [ValueSpiderCrawl.base_round]
    exact hround _ hI
  exact loopUntil_invariant (fun v => I v.base) (fun v => I v.base) (fun v hI _ => hbase v hI)
    (fun v hI _ => hbase v hI) hv h

/-- **Every lookup ends, and queries no id twice**, within a number of rounds that depends
on nothing but the number of ids. -/
theorem lookups_end :
    ∃ fuel, ∀ (lib : HeapLib) (net : Network) (target : Node) (peers : List Node)
        (ksize alpha : ℕ),
      (∃ nodes history, NodeSpiderCrawl.find lib net fuel
          (SpiderCrawl.new lib target peers ksize alpha) = some (nodes, history) ∧
        (queriedIds history).Nodup) ∧
      ∃ outcome, ValueSpiderCrawl.find lib net fuel
          (ValueSpiderCrawl.new lib target peers ksize alpha) = some outcome ∧
        (queriedIds outcome.history).Nodup := by
  refine ⟨roundBound, fun lib net target peers ksize alpha => ⟨?_, ?_⟩⟩
  · obtain ⟨t, ht⟩ := Option.isSome_iff_exists.mp (NodeSpiderCrawl.loop_isSome lib net
      (SpiderCrawl.new lib target peers ksize alpha))
    have honce := NodeSpiderCrawl.loop_invariant SpiderCrawl.QueriesOnce (fun _ h => h.round)
      (SpiderCrawl.queriesOnce_new target peers ksize alpha) ht
    exact ⟨t.nearest.toVec lib, t.history, by rw [NodeSpiderCrawl.find, ht]; rfl, honce.nodup⟩
  · obtain ⟨t, ht⟩ := Option.isSome_iff_exists.mp (ValueSpiderCrawl.loop_isSome lib net
      (ValueSpiderCrawl.new lib target peers ksize alpha))
    have honce := ValueSpiderCrawl.loop_invariant SpiderCrawl.QueriesOnce (fun _ h => h.round)
      (SpiderCrawl.queriesOnce_new target peers ksize alpha) ht
    refine ⟨t.outcome lib net, by rw [ValueSpiderCrawl.find, ht]; rfl, ?_⟩
    rw [ValueSpiderCrawl.history_outcome]
    exact honce.nodup

end AuthKademlia
