import AuthKademlia.CrawlInvariant

/-!
# Which nodes of a lookup answered

A lookup returns only nodes that answered, provided no answer names a node whose query
has failed before (`returned_answered`).  A failed node leaves the heap but stays marked
as contacted: named again, it comes back, is not queried a second time, and is returned
(`failed_node_returned`).  For a lookup that learns no more than `ksize` nodes the
condition is also necessary.

## Main definitions

* `FailedNotNamedAgain` — no answer names a node that failed in an earlier round.
* `SpiderCrawl.Answered` — what is known and has been contacted answered.
* `SpiderCrawl.KnowsOpen` — nothing has been trimmed away.
-/

namespace AuthKademlia

open Lib

/-! ## Only nodes that answered -/

/-- No answer names a node whose query failed in an earlier round. -/
def FailedNotNamedAgain (history : List Round) : Prop :=
  history.Pairwise fun r r' => Disjoint r.responses.failed.toFinset r'.responses.named

instance (history : List Round) : Decidable (FailedNotNamedAgain history) :=
  inferInstanceAs (Decidable (history.Pairwise _))

theorem failedNotNamedAgain_concat {history : List Round} {r : Round} :
    FailedNotNamedAgain (history ++ [r]) ↔
      FailedNotNamedAgain history ∧ Disjoint (failedIds history) r.responses.named := by
  have hfailed : Disjoint (failedIds history) r.responses.named ↔
      ∀ r' ∈ history, Disjoint r'.responses.failed.toFinset r.responses.named := by
    simp only [Finset.disjoint_left, failedIds, allResponses, Responses.failed,
      List.filter_flatMap, List.map_flatMap, List.mem_toFinset, List.mem_flatMap]
    constructor
    · intro h r' hr' id hid
      exact h ⟨r', hr', hid⟩
    · rintro h id ⟨r', hr', hid⟩
      exact h r' hr' hid
  rw [FailedNotNamedAgain, List.pairwise_append, hfailed]
  simp [FailedNotNamedAgain]

namespace SpiderCrawl

variable {lib : HeapLib} {net : Network} {c : SpiderCrawl}

/-- Every query has an outcome, and what is in the heap and has been contacted answered. -/
structure Answered (c : SpiderCrawl) : Prop where
  contacted : c.nearest.contacted ⊆ failedIds c.history ∪ answeredIds c.history
  answered : c.nearest.idSet ∩ c.nearest.contacted ⊆ answeredIds c.history

theorem answered_new (node : Node) (peers : List Node) (ksize alpha : ℕ) :
    (SpiderCrawl.new lib node peers ksize alpha).Answered where
  contacted := Finset.empty_subset _
  answered := Finset.inter_subset_right.trans (Finset.empty_subset _)

/-- The peers of a round failed or answered in it. -/
theorem outcome_of_selected {id : NodeId} (h : id ∈ idsOf (c.selectPeers lib)) :
    id ∈ (c.nextRound lib net).responses.failed ∨ id ∈ (c.nextRound lib net).responses.answered :=
  mem_failed_or_answered (mem_responses_iff.mpr (List.mem_toFinset.mp h))

/-- **A round keeps it**, unless it names a node that has failed. -/
theorem Answered.round (h : c.Answered)
    (hnew : Disjoint (failedIds c.history) (c.nextRound lib net).responses.named) :
    (NodeSpiderCrawl.round lib net c).Answered := by
  rw [NodeSpiderCrawl.round_eq]
  constructor
  · intro id hid
    simp only [contacted_nextNearest, failedIds_concat, answeredIds_concat, Finset.mem_union,
      List.mem_toFinset] at hid ⊢
    rcases hid with hold | hpeer
    · rcases Finset.mem_union.mp (h.contacted hold) with hf | ha
      · exact Or.inl (Or.inl hf)
      · exact Or.inr (Or.inl ha)
    · rcases @outcome_of_selected lib net c id hpeer with hf | ha
      · exact Or.inl (Or.inr hf)
      · exact Or.inr (Or.inr ha)
  · intro id hid
    obtain ⟨hheap, hcontacted⟩ := Finset.mem_inter.mp hid
    obtain ⟨hknown, hkept⟩ := Finset.mem_sdiff.mp (idSet_nextNearest_subset hheap)
    simp only [contacted_nextNearest, answeredIds_concat, Finset.mem_union,
      List.mem_toFinset] at hcontacted hkept ⊢
    rcases hcontacted with hold | hpeer
    · left
      rcases Finset.mem_union.mp hknown with hstay | hnamed
      · exact h.answered (Finset.mem_inter.mpr ⟨hstay, hold⟩)
      · -- contacted before and named now: had it failed, the answer would be forbidden
        rcases Finset.mem_union.mp (h.contacted hold) with hf | ha
        · exact absurd hnamed (Finset.disjoint_left.mp hnew hf)
        · exact ha
    · rcases @outcome_of_selected lib net c id hpeer with hf | ha
      · exact absurd hf hkept
      · exact Or.inr ha

/-- The invariant, for runs in which no failed node is named again. -/
def AnsweredUnlessNamed (c : SpiderCrawl) : Prop :=
  c.QueriesOnce ∧ (FailedNotNamedAgain c.history → c.Answered)

theorem AnsweredUnlessNamed.round (h : c.AnsweredUnlessNamed) :
    (NodeSpiderCrawl.round lib net c).AnsweredUnlessNamed := by
  refine ⟨h.1.round, fun hnamed => ?_⟩
  have hsplit := hnamed
  rw [NodeSpiderCrawl.round_eq] at hsplit
  obtain ⟨hbefore, hnew⟩ := failedNotNamedAgain_concat.mp hsplit
  exact (h.2 hbefore).round hnew

/-- In a final state every known node was queried and answered. -/
theorem AnsweredUnlessNamed.final (h : c.AnsweredUnlessNamed)
    (hnamed : FailedNotNamedAgain c.history) (hall : NodeSpiderCrawl.done lib c = true)
    {n : Node} (hn : n ∈ c.nearest.toVec lib) :
    n.id ∈ queriedIds c.history ∧ n.id ∈ answeredIds c.history := by
  have hheap : n ∈ c.nearest.heap := NodeHeap.perm_toVec.mem_iff.mp hn
  have hcontacted := NodeHeap.haveContactedAll_iff.mp hall n hheap
  constructor
  · rw [h.1.contacted] at hcontacted
    exact List.mem_toFinset.mp hcontacted
  · apply (h.2 hnamed).answered
    exact Finset.mem_inter.mpr ⟨NodeHeap.mem_idSet.mpr (List.mem_map_of_mem hheap), hcontacted⟩

end SpiderCrawl

/-! ### Lookups that learn few nodes -/

theorem openIds_subset_learnedIds (peers : List Node) (history : List Round) :
    openIds peers history ⊆ learnedIds peers history := by
  induction history using List.reverseRecOn with
  | nil => exact (learnedIds_nil peers).ge
  | append_singleton history r ih =>
      rw [openIds_concat, learnedIds_concat]
      exact Finset.sdiff_subset.trans (Finset.union_subset_union_left ih)

/-- A failed node that is named again is open again, since it is not queried a second
time. -/
theorem exists_failed_open {peers : List Node} {history : List Round}
    (honce : ((allResponses history).map Prod.fst).Nodup)
    (hnamed : ¬FailedNotNamedAgain history) :
    ∃ id ∈ failedIds history, id ∈ openIds peers history := by
  induction history using List.reverseRecOn with
  | nil => exact absurd List.Pairwise.nil hnamed
  | append_singleton history r ih =>
      rw [allResponses_concat, List.map_append, List.nodup_append'] at honce
      obtain ⟨hbefore, -, hdisj⟩ := honce
      -- an id that failed before has no response in the last round
      have hkept : ∀ id ∈ failedIds history, id ∉ r.responses.failed.toFinset := by
        intro id hid hnow
        rw [failedIds, List.mem_toFinset] at hid
        rw [List.mem_toFinset] at hnow
        obtain ⟨x, hx, rfl⟩ := List.mem_map.mp hid
        obtain ⟨y, hy, heq⟩ := List.mem_map.mp hnow
        exact hdisj (List.mem_map_of_mem (List.mem_of_mem_filter hx))
          (heq ▸ List.mem_map_of_mem (List.mem_of_mem_filter hy))
      rw [failedNotNamedAgain_concat, not_and_or] at hnamed
      rw [failedIds_concat, openIds_concat]
      rcases hnamed with hold | hnew
      · obtain ⟨id, hfailed, hopen⟩ := ih hbefore hold
        exact ⟨id, Finset.mem_union_left _ hfailed,
          Finset.mem_sdiff.mpr ⟨Finset.mem_union_left _ hopen, hkept id hfailed⟩⟩
      · obtain ⟨id, hfailed, hagain⟩ := Finset.not_disjoint_iff.mp hnew
        exact ⟨id, Finset.mem_union_left _ hfailed,
          Finset.mem_sdiff.mpr ⟨Finset.mem_union_right _ hagain, hkept id hfailed⟩⟩

/-- A query does not both fail and succeed. -/
theorem not_answered_of_failed {history : List Round} {id : NodeId}
    (honce : ((allResponses history).map Prod.fst).Nodup) (h : id ∈ failedIds history) :
    id ∉ answeredIds history := by
  intro hans
  rw [failedIds, List.mem_toFinset] at h
  rw [answeredIds, List.mem_toFinset] at hans
  obtain ⟨x, hx, rfl⟩ := List.mem_map.mp h
  obtain ⟨y, hy, heq⟩ := List.mem_map.mp hans
  obtain ⟨hx, hno⟩ := List.mem_filter.mp hx
  obtain ⟨hy, hyes⟩ := List.mem_filter.mp hy
  obtain rfl := List.inj_on_of_nodup_map honce hx hy heq.symm
  simp [hyes] at hno

namespace SpiderCrawl

variable {lib : HeapLib} {net : Network} {c : SpiderCrawl} {peers : List Node} {ksize : ℕ}

/-- As long as no more than `ksize` nodes have been learned, all open ids are known. -/
structure KnowsOpen (ksize : ℕ) (peers : List Node) (c : SpiderCrawl) : Prop where
  once : c.QueriesOnce
  maxsize : c.nearest.maxsize = ksize
  known : (learnedIds peers c.history).card ≤ ksize → c.nearest.idSet = openIds peers c.history

theorem knowsOpen_new (node : Node) (peers : List Node) (ksize alpha : ℕ) :
    KnowsOpen ksize peers (SpiderCrawl.new lib node peers ksize alpha) where
  once := queriesOnce_new node peers ksize alpha
  maxsize := rfl
  known hfew := by
    have hempty : (NodeHeap.new node ksize).idSet ∪ idsOf peers = idsOf peers :=
      Finset.empty_union _
    have hstart : (SpiderCrawl.new lib node peers ksize alpha).history = [] := rfl
    rw [hstart, learnedIds_nil] at hfew
    exact (NodeHeap.idSet_push_of_card_le (by rwa [hempty])).trans hempty

theorem KnowsOpen.round (h : KnowsOpen ksize peers c) :
    KnowsOpen ksize peers (NodeSpiderCrawl.round lib net c) := by
  refine ⟨h.once.round, ?_, ?_⟩
  · rw [NodeSpiderCrawl.round_eq]
    exact maxsize_nextNearest.trans h.maxsize
  · rw [NodeSpiderCrawl.round_eq]
    intro hfew
    rw [learnedIds_concat] at hfew
    have hknown := h.known ((Finset.card_le_card Finset.subset_union_left).trans hfew)
    have hfits : (c.nearest.idSet ∪ (c.nextRound lib net).responses.named).card ≤
        c.nearest.maxsize := by
      rw [hknown, h.maxsize]
      refine (Finset.card_le_card ?_).trans hfew
      exact Finset.union_subset_union_left (openIds_subset_learnedIds peers c.history)
    rw [idSet_nextNearest_of_card_le hfits, hknown, openIds_concat]

/-- If all known nodes answered and few nodes were learned, no failed node was named
again. -/
theorem KnowsOpen.notNamedAgain (h : KnowsOpen ksize peers c)
    (hfew : (learnedIds peers c.history).card ≤ ksize)
    (hall : ∀ n ∈ c.nearest.toVec lib, n.id ∈ answeredIds c.history) :
    FailedNotNamedAgain c.history := by
  by_contra hnamed
  have honce := h.once.responses.nodup_iff.mpr h.once.nodup
  obtain ⟨id, hfailed, hopen⟩ := @exists_failed_open peers _ honce hnamed
  rw [← h.known hfew, NodeHeap.mem_idSet] at hopen
  obtain ⟨n, hn, rfl⟩ := List.mem_map.mp hopen
  exact not_answered_of_failed honce hfailed (hall n (NodeHeap.perm_toVec.mem_iff.mpr hn))

end SpiderCrawl

/-- The nodes of a missed value lookup, and nothing of a hit. -/
theorem ValueSpiderCrawl.nodes_outcome {lib : HeapLib} {net : Network} {fuel : ℕ}
    {v t : ValueSpiderCrawl}
    (h : loopUntil (ValueSpiderCrawl.round lib net) (ValueSpiderCrawl.done lib) fuel v = some t)
    (hmiss : (t.outcome lib net).value = none) :
    (t.outcome lib net).nodes = t.base.nearest.toVec lib ∧
      NodeSpiderCrawl.done lib t.base = true := by
  have hnone : t.foundValues = [] := by
    by_contra hsome
    obtain ⟨value, -, hvalue, -⟩ := @ValueSpiderCrawl.exists_majority net t hsome
    rw [outcome, if_pos (by simpa using hsome), hvalue] at hmiss
    cases hmiss
  constructor
  · rw [outcome, hnone]
    rfl
  · simpa [done, hnone] using done_of_loopUntil h

/-- **The returned nodes answered**, in the node lookup and in a missed value lookup, if no
answer names a node whose query had failed before; and only then, if the lookup learned
no more than `ksize` nodes. -/
theorem returned_answered (lib : HeapLib) (net : Network) (target : Node) (peers : List Node)
    (ksize alpha fuel : ℕ) :
    (∀ nodes history, NodeSpiderCrawl.find lib net fuel
        (SpiderCrawl.new lib target peers ksize alpha) = some (nodes, history) →
      (FailedNotNamedAgain history →
        ∀ n ∈ nodes, n.id ∈ queriedIds history ∧ n.id ∈ answeredIds history) ∧
      ((learnedIds peers history).card ≤ ksize → (∀ n ∈ nodes, n.id ∈ answeredIds history) →
        FailedNotNamedAgain history)) ∧
    ∀ outcome, ValueSpiderCrawl.find lib net fuel
        (ValueSpiderCrawl.new lib target peers ksize alpha) = some outcome →
      outcome.value = none →
      (FailedNotNamedAgain outcome.history →
        ∀ n ∈ outcome.nodes, n.id ∈ queriedIds outcome.history ∧
          n.id ∈ answeredIds outcome.history) ∧
      ((learnedIds peers outcome.history).card ≤ ksize →
        (∀ n ∈ outcome.nodes, n.id ∈ answeredIds outcome.history) →
        FailedNotNamedAgain outcome.history) := by
  have hnew : (SpiderCrawl.new lib target peers ksize alpha).AnsweredUnlessNamed :=
    ⟨SpiderCrawl.queriesOnce_new target peers ksize alpha,
      fun _ => SpiderCrawl.answered_new target peers ksize alpha⟩
  have hnew' := @SpiderCrawl.knowsOpen_new lib target peers ksize alpha
  constructor
  · intro nodes history hfind
    obtain ⟨t, ht, rfl, rfl⟩ := NodeSpiderCrawl.find_eq_some hfind
    have hinv := NodeSpiderCrawl.loop_invariant SpiderCrawl.AnsweredUnlessNamed
      (fun _ h => h.round) hnew ht
    have hopen := NodeSpiderCrawl.loop_invariant (SpiderCrawl.KnowsOpen ksize peers)
      (fun _ h => h.round) hnew' ht
    exact ⟨fun hnamed n hn => hinv.final hnamed (done_of_loopUntil ht) hn, hopen.notNamedAgain⟩
  · intro outcome hfind hmiss
    obtain ⟨t, ht, rfl⟩ := Option.map_eq_some_iff.mp hfind
    have hinv := ValueSpiderCrawl.loop_invariant SpiderCrawl.AnsweredUnlessNamed
      (fun _ h => h.round) hnew ht
    have hopen := ValueSpiderCrawl.loop_invariant (SpiderCrawl.KnowsOpen ksize peers)
      (fun _ h => h.round) hnew' ht
    obtain ⟨hnodes, hdone⟩ := ValueSpiderCrawl.nodes_outcome ht hmiss
    rw [ValueSpiderCrawl.history_outcome, hnodes]
    exact ⟨fun hnamed n hn => hinv.final hnamed hdone hn, hopen.notNamedAgain⟩

namespace Sample

/-- Nodes at growing distance from `crawlNode 0`. -/
def crawlNode (k : ℕ) : Node := ⟨NodeId.ofNat k, some "10.0.0.1", some (UInt16.ofNat k)⟩

def noAnswer : RawResponse := ⟨false, .empty⟩

/-- An answer that names nodes. -/
def naming (ks : List ℕ) : RawResponse :=
  ⟨true, .nodes (ks.map fun k => ((crawlNode k).id.bytes, (crawlNode k).ip, (crawlNode k).port))⟩

/-- Node 1 does not answer, node 2 names the nodes `ks`, the others name nobody. -/
def deadNode (ks : List ℕ) : Network :=
  .fixed fun id =>
    if id = (crawlNode 1).id then noAnswer
    else if id = (crawlNode 2).id then naming ks
    else naming []

/-- Node `k` is queried and its response is `raw`. -/
def asks (k : ℕ) (raw : RawResponse) : Round := ⟨[crawlNode k], [((crawlNode k).id, raw)]⟩

end Sample

open Sample in
/-- Node 1 fails in the first round, node 2 names it in the second, and both lookups
return it. -/
theorem failed_node_returned :
    NodeSpiderCrawl.find .plain (deadNode [1]) 2
        (SpiderCrawl.new .plain (crawlNode 0) [crawlNode 1, crawlNode 2] 2 1) =
      some ([crawlNode 1, crawlNode 2], [asks 1 noAnswer, asks 2 (naming [1])]) ∧
    ValueSpiderCrawl.find .plain (deadNode [1]) 2
        (ValueSpiderCrawl.new .plain (crawlNode 0) [crawlNode 1, crawlNode 2] 2 1) =
      some ⟨none, [crawlNode 1, crawlNode 2], none, [asks 1 noAnswer, asks 2 (naming [1])]⟩ ∧
    (crawlNode 1).id ∉ answeredIds [asks 1 noAnswer, asks 2 (naming [1])] := by
  decide +kernel

open Sample in
/-- Node 2 names node 3 instead: the nodes returned are 2 and 3, which answered. -/
theorem returned_answered_deadNode :
    NodeSpiderCrawl.find .plain (deadNode [3]) 3
        (SpiderCrawl.new .plain (crawlNode 0) [crawlNode 1, crawlNode 2] 3 1) =
      some ([crawlNode 2, crawlNode 3],
        [asks 1 noAnswer, asks 2 (naming [3]), asks 3 (naming [])]) ∧
    FailedNotNamedAgain [asks 1 noAnswer, asks 2 (naming [3]), asks 3 (naming [])] ∧
    ∀ n ∈ [crawlNode 2, crawlNode 3],
      n.id ∈ queriedIds [asks 1 noAnswer, asks 2 (naming [3]), asks 3 (naming [])] ∧
      n.id ∈ answeredIds [asks 1 noAnswer, asks 2 (naming [3]), asks 3 (naming [])] := by
  have hfind : NodeSpiderCrawl.find .plain (deadNode [3]) 3
      (SpiderCrawl.new .plain (crawlNode 0) [crawlNode 1, crawlNode 2] 3 1) =
        some ([crawlNode 2, crawlNode 3],
          [asks 1 noAnswer, asks 2 (naming [3]), asks 3 (naming [])]) := by
    decide +kernel
  have hnamed : FailedNotNamedAgain
      [asks 1 noAnswer, asks 2 (naming [3]), asks 3 (naming [])] := by
    decide +kernel
  exact ⟨hfind, hnamed, ((returned_answered _ _ _ _ _ _ _).1 _ _ hfind).1 hnamed⟩

end AuthKademlia
