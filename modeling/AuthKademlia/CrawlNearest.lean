import AuthKademlia.CrawlAnswers

/-!
# Which nodes a lookup returns

On ids that do not collide in the key space a round selects the nearest of the known and
the newly named ids and then drops the peers that failed (`SpiderCrawl.idSet_nextNearest`).

Two results follow.  A usable node that, from a time it was named on, stays among the
`ksize` closest of the nodes that were named and had not failed yet is returned
(`closest_usable_returned`); one that is among the `ksize` closest only because others
failed later may have been trimmed away before (`usable_node_lost`).  And the order in
which answers are processed does not matter, nor does it matter whether a value lookup
that finds nothing or a node lookup asks (`lookup_order_independent`).

## Main definitions

* `usableIds` — the learned ids without those that failed.
* `StaysNear` — an id that is never displaced since a time it was named.
* `SpiderCrawl.KeepsNearest` — the invariant of one lookup.
* `SpiderCrawl.Alike` — two lookups that know, and have contacted, the same ids.
-/

namespace AuthKademlia

open Lib

/-- The ids a lookup has learned and that did not fail to answer. -/
def usableIds (peers : List Node) (history : List Round) : Finset NodeId :=
  learnedIds peers history \ failedIds history

/-- The id has been named, at the start or in an answer, and ever since it has been among
the `ksize` closest of the nodes named so far that had not failed yet. -/
inductive StaysNear (target : Node) (ksize : ℕ) (peers : List Node) (id : NodeId) :
    List Round → Prop
  | start (near : id ∈ nearest (idDistance target) ksize (idsOf peers)) :
      StaysNear target ksize peers id []
  | named (history : List Round) (r : Round) (named : id ∈ r.responses.named)
      (near : id ∈ nearest (idDistance target) ksize
        (openIds peers history ∪ r.responses.named)) :
      StaysNear target ksize peers id (history ++ [r])
  | stays (history : List Round) (r : Round) (before : StaysNear target ksize peers id history)
      (near : id ∈ nearest (idDistance target) ksize
        (openIds peers history ∪ r.responses.named)) :
      StaysNear target ksize peers id (history ++ [r])

theorem staysNear_nil {target : Node} {ksize : ℕ} {peers : List Node} {id : NodeId}
    (h : StaysNear target ksize peers id []) :
    id ∈ nearest (idDistance target) ksize (idsOf peers) := by
  generalize hnil : ([] : List Round) = history at h
  cases h with
  | start near => exact near
  | named history r _ _ => simp at hnil
  | stays history r _ _ => simp at hnil

theorem staysNear_concat {target : Node} {ksize : ℕ} {peers : List Node} {id : NodeId}
    {history : List Round} {r : Round} (h : StaysNear target ksize peers id (history ++ [r])) :
    (id ∈ r.responses.named ∨ StaysNear target ksize peers id history) ∧
      id ∈ nearest (idDistance target) ksize (openIds peers history ∪ r.responses.named) := by
  generalize hlast : history ++ [r] = whole at h
  cases h with
  | start near => simp at hlast
  | named history' r' named near =>
      obtain ⟨rfl, heq⟩ := List.append_inj' hlast rfl
      obtain rfl := List.singleton_inj.mp heq
      exact ⟨Or.inl named, near⟩
  | stays history' r' before near =>
      obtain ⟨rfl, heq⟩ := List.append_inj' hlast rfl
      obtain rfl := List.singleton_inj.mp heq
      exact ⟨Or.inr before, near⟩

/-- Learned ids stay learned, so ids that do not collide later do not collide before. -/
theorem injOn_learnedIds_of_concat {peers : List Node} {history : List Round} {r : Round}
    (h : Set.InjOn idToU128 (learnedIds peers (history ++ [r]) : Set NodeId)) :
    Set.InjOn idToU128 (learnedIds peers history : Set NodeId) := by
  refine h.mono (Finset.coe_subset.mpr ?_)
  rw [learnedIds_concat]
  exact Finset.subset_union_left

namespace SpiderCrawl

variable {lib lib' : HeapLib} {net net' : Network} {c c' : SpiderCrawl} {target : Node}
  {peers : List Node} {ksize alpha : ℕ}

/-! ## The closest usable nodes -/

/-- The known ids are open, hence learned, and the ids that have stayed near without
failing are known. -/
structure KeepsNearest (target : Node) (ksize : ℕ) (peers : List Node) (c : SpiderCrawl) :
    Prop where
  node : c.nearest.node = target
  maxsize : c.nearest.maxsize = ksize
  isOpen : c.nearest.idSet ⊆ openIds peers c.history
  learned : openIds peers c.history ⊆ learnedIds peers c.history
  stays : Set.InjOn idToU128 (learnedIds peers c.history : Set NodeId) →
    ∀ id, StaysNear target ksize peers id c.history → id ∉ failedIds c.history →
      id ∈ c.nearest.idSet

/-- The ids known at the start. -/
theorem idSet_new_subset :
    (SpiderCrawl.new lib target peers ksize alpha).nearest.idSet ⊆ idsOf peers := by
  refine NodeHeap.idSet_push_subset.trans ?_
  exact Finset.union_subset (Finset.empty_subset _) subset_rfl

theorem idSet_new (hinj : Set.InjOn idToU128 (idsOf peers : Set NodeId)) :
    (SpiderCrawl.new lib target peers ksize alpha).nearest.idSet =
      Lib.nearest (idDistance target) ksize (idsOf peers) := by
  have hempty : (NodeHeap.new target ksize).idSet = ∅ := rfl
  have hpush := @NodeHeap.idSet_push lib (NodeHeap.new target ksize) peers
  rw [hempty, Finset.empty_union] at hpush
  exact hpush hinj

theorem keepsNearest_new :
    KeepsNearest target ksize peers (SpiderCrawl.new lib target peers ksize alpha) where
  node := rfl
  maxsize := rfl
  isOpen := idSet_new_subset
  learned := (learnedIds_nil peers).ge
  stays hinj id hstays _ := by
    have hstart : (SpiderCrawl.new lib target peers ksize alpha).history = [] := rfl
    rw [hstart] at hinj hstays
    rw [learnedIds_nil] at hinj
    rw [idSet_new hinj]
    exact staysNear_nil hstays

/-- **One round keeps what has stayed near.** -/
theorem KeepsNearest.round (h : KeepsNearest target ksize peers c) :
    KeepsNearest target ksize peers (NodeSpiderCrawl.round lib net c) := by
  rw [NodeSpiderCrawl.round_eq]
  obtain ⟨r, hr⟩ : ∃ r, c.nextRound lib net = r := ⟨_, rfl⟩
  have hopen : c.nearest.idSet ∪ r.responses.named ⊆ openIds peers c.history ∪ r.responses.named :=
    Finset.union_subset_union_left h.isOpen
  have hlearned : openIds peers c.history ∪ r.responses.named ⊆
      learnedIds peers (c.history ++ [r]) := by
    rw [learnedIds_concat]
    exact Finset.union_subset_union_left h.learned
  refine ⟨node_nextNearest.trans h.node, maxsize_nextNearest.trans h.maxsize, ?_, ?_, ?_⟩
  · rw [openIds_concat, ← hr] at *
    exact idSet_nextNearest_subset.trans (Finset.sdiff_subset_sdiff hopen subset_rfl)
  · rw [hr, openIds_concat]
    exact Finset.sdiff_subset.trans hlearned
  · rw [hr]
    intro hinj id hstays hok
    obtain ⟨hsource, hnear⟩ := staysNear_concat hstays
    rw [failedIds_concat, Finset.mem_union, not_or] at hok
    have hinj' := hinj.mono (Finset.coe_subset.mpr (hopen.trans hlearned))
    rw [idSet_nextNearest (by rwa [hr]), hr, h.node, h.maxsize]
    refine Finset.mem_sdiff.mpr ⟨mem_nearest_of_subset hopen ?_ hnear, hok.2⟩
    rcases hsource with hnamed | hbefore
    · exact Finset.mem_union_right _ hnamed
    · apply Finset.mem_union_left
      exact h.stays (injOn_learnedIds_of_concat hinj) id hbefore hok.1

end SpiderCrawl

/-- The ids of the nodes a lookup returns are those it knows at the end. -/
theorem idsOf_toVec (lib : HeapLib) (h : NodeHeap) : idsOf (h.toVec lib) = h.idSet :=
  NodeHeap.toFinset_getIds lib h

/-- **The closest usable nodes are returned**, if each of them has stayed among the
`ksize` closest since a time it was named. -/
theorem closest_usable_returned {lib : HeapLib} {net : Network} {target : Node}
    {peers nodes : List Node} {ksize alpha fuel : ℕ} {history : List Round}
    (hfind : NodeSpiderCrawl.find lib net fuel
      (SpiderCrawl.new lib target peers ksize alpha) = some (nodes, history))
    (hinj : Set.InjOn idToU128 (learnedIds peers history : Set NodeId))
    (hstays : ∀ id ∈ nearest (idDistance target) ksize (usableIds peers history),
      StaysNear target ksize peers id history) :
    nearest (idDistance target) ksize (usableIds peers history) ⊆ idsOf nodes := by
  obtain ⟨t, ht, rfl, rfl⟩ := NodeSpiderCrawl.find_eq_some hfind
  have hinv := NodeSpiderCrawl.loop_invariant (SpiderCrawl.KeepsNearest target ksize peers)
    (fun _ h => h.round) SpiderCrawl.keepsNearest_new ht
  rw [idsOf_toVec]
  intro id hid
  exact hinv.stays hinj id (hstays id hid) (Finset.mem_sdiff.mp (nearest_subset hid)).2

/-- Ids that do not collide, from a finite check. -/
theorem injOn_of_forall {s : Finset NodeId}
    (h : ∀ a ∈ s, ∀ b ∈ s, idToU128 a = idToU128 b → a = b) :
    Set.InjOn idToU128 (s : Set NodeId) :=
  fun a ha b hb => h a ha b hb

open Sample in
/-- With `ksize = 1` node 2 is trimmed away for node 1, which then does not answer: nothing
is returned although node 2 was learned and never failed. -/
theorem usable_node_lost :
    NodeSpiderCrawl.find .plain (deadNode []) 1
        (SpiderCrawl.new .plain (crawlNode 0) [crawlNode 1, crawlNode 2] 1 1) =
      some ([], [asks 1 noAnswer]) ∧
    Set.InjOn idToU128
      (learnedIds [crawlNode 1, crawlNode 2] [asks 1 noAnswer] : Set NodeId) ∧
    (crawlNode 2).id ∈ nearest (idDistance (crawlNode 0)) 1
      (usableIds [crawlNode 1, crawlNode 2] [asks 1 noAnswer]) := by
  refine ⟨by decide +kernel, injOn_of_forall ?_, by decide +kernel⟩
  decide +kernel

open Sample in
/-- With `ksize = 2` node 1 has failed by the time node 3 is named, so nodes 2 and 3 stay
near. -/
theorem closest_usable_returned_deadNode :
    NodeSpiderCrawl.find .plain (deadNode [3]) 3
        (SpiderCrawl.new .plain (crawlNode 0) [crawlNode 1, crawlNode 2] 2 1) =
      some ([crawlNode 2, crawlNode 3],
        [asks 1 noAnswer, asks 2 (naming [3]), asks 3 (naming [])]) ∧
    (crawlNode 1).id ∈ failedIds [asks 1 noAnswer, asks 2 (naming [3]), asks 3 (naming [])] ∧
    nearest (idDistance (crawlNode 0)) 2 (usableIds [crawlNode 1, crawlNode 2]
        [asks 1 noAnswer, asks 2 (naming [3]), asks 3 (naming [])]) ⊆
      idsOf [crawlNode 2, crawlNode 3] := by
  have hfind : NodeSpiderCrawl.find .plain (deadNode [3]) 3
      (SpiderCrawl.new .plain (crawlNode 0) [crawlNode 1, crawlNode 2] 2 1) =
        some ([crawlNode 2, crawlNode 3],
          [asks 1 noAnswer, asks 2 (naming [3]), asks 3 (naming [])]) := by
    decide +kernel
  have hnear : nearest (idDistance (crawlNode 0)) 2 (usableIds [crawlNode 1, crawlNode 2]
      [asks 1 noAnswer, asks 2 (naming [3]), asks 3 (naming [])]) =
        {(crawlNode 2).id, (crawlNode 3).id} := by
    decide +kernel
  refine ⟨hfind, by decide +kernel,
    closest_usable_returned hfind (injOn_of_forall (by decide +kernel)) ?_⟩
  intro id hid
  rw [hnear] at hid
  rcases Finset.mem_insert.mp hid with rfl | hid
  · have hstart : StaysNear (crawlNode 0) 2 [crawlNode 1, crawlNode 2] (crawlNode 2).id [] :=
      .start (by decide +kernel)
    have hfirst := hstart.stays [] (asks 1 noAnswer) (by decide +kernel)
    have hsecond := hfirst.stays [asks 1 noAnswer] (asks 2 (naming [3])) (by decide +kernel)
    exact hsecond.stays [asks 1 noAnswer, asks 2 (naming [3])] (asks 3 (naming []))
      (by decide +kernel)
  · obtain rfl := Finset.mem_singleton.mp hid
    have hsecond : StaysNear (crawlNode 0) 2 [crawlNode 1, crawlNode 2] (crawlNode 3).id
        ([asks 1 noAnswer] ++ [asks 2 (naming [3])]) :=
      .named [asks 1 noAnswer] (asks 2 (naming [3])) (by decide +kernel) (by decide +kernel)
    exact hsecond.stays [asks 1 noAnswer, asks 2 (naming [3])] (asks 3 (naming []))
      (by decide +kernel)

/-! ## Order does not matter -/

/-- A peer's answer to a lookup: none, or a node list. -/
def nodeAnswer : Option (List (Bytes × Option String × Option UInt16)) → RawResponse
  | none => ⟨false, .empty⟩
  | some tuples => ⟨true, .nodes tuples⟩

/-- Every peer's answer is a fixed function of its id. -/
def Network.Answers (net : Network)
    (answer : NodeId → Option (List (Bytes × Option String × Option UInt16))) : Prop :=
  ∀ history p, net.answer history p = nodeAnswer (answer p.id)

/-- The same where answers may hold values. -/
def Network.AnswersBy (net : Network) (respond : NodeId → RawResponse) : Prop :=
  ∀ history p, net.answer history p = respond p.id

theorem Network.Answers.answersBy {net : Network}
    {answer : NodeId → Option (List (Bytes × Option String × Option UInt16))}
    (h : net.Answers answer) : net.AnswersBy fun id => nodeAnswer (answer id) := h

theorem getValue_nodeAnswer (a : Option (List (Bytes × Option String × Option UInt16))) :
    (nodeAnswer a).getValue = none := by
  cases a <;> rfl

namespace SpiderCrawl

variable {lib lib' : HeapLib} {net net' : Network} {c c' : SpiderCrawl} {target : Node}
  {peers : List Node} {ksize alpha : ℕ} {respond : NodeId → RawResponse}

/-- No two of the ids learned so far collide. -/
def NoCollision (peers : List Node) (c : SpiderCrawl) : Prop :=
  Set.InjOn idToU128 (learnedIds peers c.history : Set NodeId)

theorem noCollision_of_round (h : NoCollision peers (NodeSpiderCrawl.round lib net c)) :
    NoCollision peers c := by
  rw [NodeSpiderCrawl.round_eq] at h
  exact injOn_learnedIds_of_concat h

/-- Two lookups that know and have contacted the same ids. -/
structure Alike (peers : List Node) (c c' : SpiderCrawl) : Prop where
  alpha : c'.alpha = c.alpha
  node : c'.nearest.node = c.nearest.node
  maxsize : c'.nearest.maxsize = c.nearest.maxsize
  contacted : c'.nearest.contacted = c.nearest.contacted
  idSet : c'.nearest.idSet = c.nearest.idSet
  lastIds : c'.lastIdsCrawled = c.lastIdsCrawled
  learned : c.nearest.idSet ⊆ learnedIds peers c.history

theorem alike_new (hinj : Set.InjOn idToU128 (idsOf peers : Set NodeId)) :
    Alike peers (SpiderCrawl.new lib target peers ksize alpha)
      (SpiderCrawl.new lib' target peers ksize alpha) where
  alpha := rfl
  node := rfl
  maxsize := rfl
  contacted := rfl
  idSet := by rw [idSet_new hinj, idSet_new hinj]
  lastIds := rfl
  learned := idSet_new_subset.trans (learnedIds_nil peers).ge

theorem len_eq_card (h : NodeHeap) : h.len = h.idSet.card := by
  rw [NodeHeap.len, Nat.min_eq_left h.bounded, NodeHeap.card_idSet]

/-- Alike lookups see their ids in the same order. -/
theorem Alike.getIds (h : Alike peers c c') (hinj : NoCollision peers c) :
    c'.nearest.getIds lib' = c.nearest.getIds lib :=
  NodeHeap.getIds_congr (hinj.mono (Finset.coe_subset.mpr h.learned)) h.node h.idSet

/-- Alike lookups query the same ids next. -/
theorem Alike.selectPeers (h : Alike peers c c') (hinj : NoCollision peers c) :
    (c'.selectPeers lib').map Node.id = (c.selectPeers lib).map Node.id := by
  have hids : c'.nearest.getIds lib' = c.nearest.getIds lib := h.getIds hinj
  simp only [SpiderCrawl.selectPeers, List.map_take, NodeHeap.ids_getUncontacted, hids, h.lastIds,
    h.alpha, h.contacted, len_eq_card, h.idSet]

/-- The responses of a round are a function of the queried ids, up to their order. -/
theorem perm_responses (hnet : net.AnswersBy respond) :
    (c.nextRound lib net).responses.Perm
      (((c.selectPeers lib).map Node.id).map fun id => (id, respond id)) := by
  refine perm_nextRound.trans (List.Perm.of_eq ?_)
  rw [List.map_map]
  exact List.map_congr_left fun p _ => by rw [hnet]; rfl

/-- Alike lookups get the same responses next, in some order. -/
theorem Alike.perm_responses (hnet : net.AnswersBy respond) (hnet' : net'.AnswersBy respond)
    (h : Alike peers c c') (hinj : NoCollision peers c) :
    (c'.nextRound lib' net').responses.Perm (c.nextRound lib net).responses := by
  have hpeers : (c'.selectPeers lib').map Node.id = (c.selectPeers lib).map Node.id :=
    h.selectPeers hinj
  refine (SpiderCrawl.perm_responses hnet').trans ?_
  rw [hpeers]
  exact (SpiderCrawl.perm_responses hnet).symm

/-- **A round keeps lookups alike**, whatever the order of the responses. -/
theorem Alike.round (hnet : net.AnswersBy respond) (hnet' : net'.AnswersBy respond)
    (h : Alike peers c c') (hinj : NoCollision peers (NodeSpiderCrawl.round lib net c)) :
    Alike peers (NodeSpiderCrawl.round lib net c) (NodeSpiderCrawl.round lib' net' c') := by
  have hbefore := noCollision_of_round hinj
  rw [NodeSpiderCrawl.round_eq] at hinj
  rw [NodeSpiderCrawl.round_eq, NodeSpiderCrawl.round_eq]
  have hpeers : (c'.selectPeers lib').map Node.id = (c.selectPeers lib).map Node.id :=
    h.selectPeers hbefore
  have hperm : (c'.nextRound lib' net').responses.Perm (c.nextRound lib net).responses :=
    h.perm_responses hnet hnet' hbefore
  have hnamed := named_perm hperm
  have hfailed := failed_perm hperm
  have hknown : c.nearest.idSet ∪ (c.nextRound lib net).responses.named ⊆
      learnedIds peers (c.history ++ [c.nextRound lib net]) := by
    rw [learnedIds_concat]
    exact Finset.union_subset_union_left h.learned
  have hinj' := hinj.mono (Finset.coe_subset.mpr hknown)
  refine ⟨h.alpha, ?_, ?_, ?_, ?_, h.getIds hbefore, ?_⟩
  · simp only [node_nextNearest, h.node]
  · simp only [maxsize_nextNearest, h.maxsize]
  · simp only [contacted_nextNearest, idsOf, hpeers, h.contacted]
  · rw [idSet_nextNearest hinj', idSet_nextNearest (by rwa [h.idSet, hnamed]), h.idSet, hnamed,
      hfailed, h.node, h.maxsize]
  · exact (idSet_nextNearest_subset.trans Finset.sdiff_subset).trans hknown

/-- Alike lookups end together. -/
theorem Alike.done (h : Alike peers c c') :
    NodeSpiderCrawl.done lib' c' = NodeSpiderCrawl.done lib c := by
  rw [Bool.eq_iff_iff, NodeSpiderCrawl.done, NodeSpiderCrawl.done,
    NodeHeap.haveContactedAll_iff_idSet, NodeHeap.haveContactedAll_iff_idSet, h.idSet, h.contacted]

end SpiderCrawl

/-- Peers that send no values leave a value lookup without one. -/
theorem values_eq_nil {lib : HeapLib} {net : Network} {c : SpiderCrawl}
    {answer : NodeId → Option (List (Bytes × Option String × Option UInt16))}
    (hnet : net.Answers answer) : (c.nextRound lib net).responses.values = [] := by
  rw [Responses.values, List.filterMap_eq_nil_iff]
  intro r hr
  have hmem := (SpiderCrawl.perm_responses hnet.answersBy).mem_iff.mp hr
  obtain ⟨id, -, rfl⟩ := List.mem_map.mp hmem
  simp [getValue_nodeAnswer]

namespace SpiderCrawl

variable {lib lib' : HeapLib} {net net' : Network} {c : SpiderCrawl} {v : ValueSpiderCrawl}
  {target : Node} {peers : List Node} {ksize alpha : ℕ}
  {answer : NodeId → Option (List (Bytes × Option String × Option UInt16))}

/-- A node lookup and a value lookup that has found nothing yet. -/
structure MissesAlike (peers : List Node) (c : SpiderCrawl) (v : ValueSpiderCrawl) : Prop where
  alike : Alike peers c v.base
  noValue : v.foundValues = []

theorem missesAlike_new (hinj : Set.InjOn idToU128 (idsOf peers : Set NodeId)) :
    MissesAlike peers (SpiderCrawl.new lib target peers ksize alpha)
      (ValueSpiderCrawl.new lib' target peers ksize alpha) :=
  ⟨alike_new hinj, rfl⟩

theorem MissesAlike.round (hnet : net.Answers answer) (hnet' : net'.Answers answer)
    (h : MissesAlike peers c v) (hinj : NoCollision peers (NodeSpiderCrawl.round lib net c)) :
    MissesAlike peers (NodeSpiderCrawl.round lib net c) (v.round lib' net') := by
  constructor
  · rw [ValueSpiderCrawl.base_round]
    exact h.alike.round hnet.answersBy hnet'.answersBy hinj
  · rw [ValueSpiderCrawl.foundValues_round]
    exact values_eq_nil hnet'

theorem MissesAlike.done (h : MissesAlike peers c v) :
    v.done lib' = NodeSpiderCrawl.done lib c := by
  rw [ValueSpiderCrawl.done, h.noValue]
  exact h.alike.done

end SpiderCrawl

/-- **The order of the answers does not matter.**  Peers answer by a fixed function of
their ids; the answers of a round may be processed in any order and the heap may break
ties as it likes.  Then, unless learned ids collide, every node lookup and every value
lookup returns the same list of ids. -/
theorem lookup_order_independent :
    ∃ fuel, ∀ (answer : NodeId → Option (List (Bytes × Option String × Option UInt16)))
        (target : Node) (peers : List Node) (ksize alpha : ℕ) (lib₁ lib₂ lib₃ : HeapLib)
        (net₁ net₂ net₃ : Network),
      net₁.Answers answer → net₂.Answers answer → net₃.Answers answer →
      ∃ nodes₁ history₁, NodeSpiderCrawl.find lib₁ net₁ fuel
          (SpiderCrawl.new lib₁ target peers ksize alpha) = some (nodes₁, history₁) ∧
        (Set.InjOn idToU128 (learnedIds peers history₁ : Set NodeId) →
          (∃ nodes₂ history₂, NodeSpiderCrawl.find lib₂ net₂ fuel
              (SpiderCrawl.new lib₂ target peers ksize alpha) = some (nodes₂, history₂) ∧
            nodes₂.map Node.id = nodes₁.map Node.id) ∧
          ∃ outcome, ValueSpiderCrawl.find lib₃ net₃ fuel
              (ValueSpiderCrawl.new lib₃ target peers ksize alpha) = some outcome ∧
            outcome.value = none ∧ outcome.nodes.map Node.id = nodes₁.map Node.id) := by
  refine ⟨roundBound, ?_⟩
  intro answer target peers ksize alpha lib₁ lib₂ lib₃ net₁ net₂ net₃ h₁ h₂ h₃
  obtain ⟨t, ht⟩ := Option.isSome_iff_exists.mp (NodeSpiderCrawl.loop_isSome lib₁ net₁
    (SpiderCrawl.new lib₁ target peers ksize alpha))
  refine ⟨t.nearest.toVec lib₁, t.history, by rw [NodeSpiderCrawl.find, ht]; rfl, fun hinj => ?_⟩
  have hinj : SpiderCrawl.NoCollision peers t := hinj
  have hback : ∀ c, SpiderCrawl.NoCollision peers (NodeSpiderCrawl.round lib₁ net₁ c) →
      SpiderCrawl.NoCollision peers c := fun c => SpiderCrawl.noCollision_of_round
  have hstart : SpiderCrawl.NoCollision peers (SpiderCrawl.new lib₁ target peers ksize alpha) :=
    hback _ (of_loopUntil hback ht hinj)
  have hpeers : Set.InjOn idToU128 (idsOf peers : Set NodeId) := by
    rw [← learnedIds_nil]
    exact hstart
  constructor
  · obtain ⟨t', ht', halike⟩ := loopUntil_lockstep (SpiderCrawl.Alike peers) hback
      (fun _ _ hc halike => halike.round h₁.answersBy h₂.answersBy hc)
      (fun _ _ _ halike => halike.done) (SpiderCrawl.alike_new hpeers) ht hinj
    refine ⟨t'.nearest.toVec lib₂, t'.history, ?_, halike.getIds hinj⟩
    rw [NodeSpiderCrawl.find, ht']
    rfl
  · obtain ⟨v, hv, hmiss⟩ := loopUntil_lockstep (SpiderCrawl.MissesAlike peers) hback
      (fun _ _ hc hmiss => hmiss.round h₁ h₃ hc) (fun _ _ _ hmiss => hmiss.done)
      (SpiderCrawl.missesAlike_new hpeers) ht hinj
    refine ⟨v.outcome lib₃ net₃, by rw [ValueSpiderCrawl.find, hv]; rfl, ?_⟩
    rw [ValueSpiderCrawl.outcome, hmiss.noValue]
    exact ⟨rfl, hmiss.alike.getIds hinj⟩

namespace Sample

/-- Node 1 does not answer, node 2 names node 3, the others name nobody. -/
def answers (id : NodeId) : Option (List (Bytes × Option String × Option UInt16)) :=
  if id = (crawlNode 1).id then none
  else if id = (crawlNode 2).id then
    some [((crawlNode 3).id.bytes, (crawlNode 3).ip, (crawlNode 3).port)]
  else some []

def forwards : Network := .fixed fun id => nodeAnswer (answers id)

/-- The same peers; the responses of a round are processed the other way round. -/
def backwards : Network :=
  { forwards with
    responseOrder := fun _ l => l.reverse
    responseOrder_perm := fun _ l => List.reverse_perm l }

end Sample

open Sample in
/-- Nodes 1 and 2 are queried together; in either order nodes 2 and 3 are found. -/
theorem lookup_order_independent_sample :
    ∃ fuel nodes history outcome,
      NodeSpiderCrawl.find .plain backwards fuel
        (SpiderCrawl.new .plain (crawlNode 0) [crawlNode 1, crawlNode 2] 3 2) =
          some (nodes, history) ∧
      nodes.map Node.id = [(crawlNode 2).id, (crawlNode 3).id] ∧
      ValueSpiderCrawl.find .plain backwards fuel
        (ValueSpiderCrawl.new .plain (crawlNode 0) [crawlNode 1, crawlNode 2] 3 2) =
          some outcome ∧
      outcome.value = none ∧ outcome.nodes.map Node.id = [(crawlNode 2).id, (crawlNode 3).id] := by
  obtain ⟨fuel, h⟩ := lookup_order_independent
  obtain ⟨nodes, history, hfind, hrest⟩ := h answers (crawlNode 0) [crawlNode 1, crawlNode 2] 3 2
    .plain .plain .plain forwards backwards backwards (fun _ _ => rfl) (fun _ _ => rfl)
    (fun _ _ => rfl)
  have hsmall : NodeSpiderCrawl.find .plain forwards 2
      (SpiderCrawl.new .plain (crawlNode 0) [crawlNode 1, crawlNode 2] 3 2) =
        some ([crawlNode 2, crawlNode 3],
          [⟨[crawlNode 1, crawlNode 2],
              [((crawlNode 1).id, noAnswer), ((crawlNode 2).id, naming [3])]⟩,
            asks 3 (naming [])]) := by
    decide +kernel
  obtain ⟨rfl, rfl⟩ := Prod.mk.inj (NodeSpiderCrawl.find_unique hfind hsmall)
  obtain ⟨⟨nodes', history', hfind', hids⟩, outcome, hvalue, hnone, hids'⟩ :=
    hrest (injOn_of_forall (by decide +kernel))
  exact ⟨fuel, nodes', history', outcome, hfind', hids, hvalue, hnone, hids'⟩

end AuthKademlia
