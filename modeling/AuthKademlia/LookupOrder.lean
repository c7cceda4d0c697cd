import AuthKademlia.CrawlNearest
import AuthKademlia.ValueSelection

/-!
# What a value lookup makes of the order of its responses

The responses of a round and the counted values come out of hash maps, in any order.  With
peers that answer by a fixed function of their ids, and no two learned ids at one point of
the key space, the rounds of a value lookup do not depend on that order
(`SpiderCrawl.Alike`).  Two things do.

The value is one of those received most often, and the last of them in the order of the
counts.  And the peer that is sent a copy is the closest of those that were *remembered* as
having answered without the value: a peer is looked up in the heap when its response is
processed, and by then the nodes named in the responses before it may have pushed it out.

So the lookup is independent of the orders exactly if one value was received more often than
any other, and the closest peer without the value stays in the heap even after the node lists
of all other responses of its round (`find_order_iff`).

## Main definitions

* `Responses.misses`, `Responses.remembered`, `Responses.alwaysRemembered` — the peers that
  answered without a value; those a round remembers, and those it remembers in every order.
* `keptIds`, `rememberedIds`, `alwaysRememberedIds` — the same over a history.
* `OrderFree` — the condition.
* `RoundsAlike` — two histories with the same responses, in different orders.
-/

namespace AuthKademlia

open Lib

/-! ## One round -/

namespace Responses

/-- The peers that answered without a value. -/
def misses (rs : Responses) : Finset NodeId :=
  ((rs.filter fun r => r.2.happened && r.2.getValue.isNone).map Prod.fst).toFinset

/-- The responses of the other peers. -/
def others (rs : Responses) (id : NodeId) : Responses := rs.filter fun r => r.1 ≠ id

/-- The peers remembered as having no value: at their turn they are among the `ksize` nearest
of the ids known before the round and those named so far. -/
def remembered (key : NodeId → ℕ) (ksize : ℕ) (known : Finset NodeId) : Responses → Finset NodeId
  | [] => ∅
  | r :: rs =>
      (if r.2.happened = true ∧ r.2.getValue = none ∧ r.1 ∈ nearest key ksize known then {r.1}
        else ∅) ∪ remembered key ksize (known ∪ Responses.named [r]) rs

/-- The peers that are remembered even if their turn comes last. -/
def alwaysRemembered (key : NodeId → ℕ) (ksize : ℕ) (known : Finset NodeId) (rs : Responses) :
    Finset NodeId :=
  rs.misses.filter fun id => id ∈ nearest key ksize (known ∪ (rs.others id).named)

end Responses

section Round

variable {key : NodeId → ℕ} {ksize : ℕ} {known : Finset NodeId} {rs rs' : Responses} {id : NodeId}

theorem mem_misses : id ∈ rs.misses ↔ ∃ raw, (id, raw) ∈ rs ∧ raw.happened = true ∧
    raw.getValue = none := by
  simp [Responses.misses]

theorem misses_append : (rs ++ rs' : Responses).misses = rs.misses ∪ rs'.misses := by
  simp [Responses.misses]

theorem values_perm (hperm : rs'.Perm rs) : rs'.values.Perm rs.values := hperm.filterMap _

theorem named_mono (h : ∀ r ∈ rs, r ∈ rs') : rs.named ⊆ rs'.named := by
  intro id hid
  simp only [Responses.named, Responses.nodes, mem_idsOf, List.mem_flatMap] at hid ⊢
  obtain ⟨n, ⟨r, hr, hn⟩, rfl⟩ := hid
  exact ⟨n, ⟨r, h r hr, hn⟩, rfl⟩

/-- A peer is remembered if the nodes named before its turn leave it near enough. -/
theorem mem_remembered :
    id ∈ rs.remembered key ksize known ↔ ∃ before raw after, rs = before ++ (id, raw) :: after ∧
      raw.happened = true ∧ raw.getValue = none ∧
        id ∈ nearest key ksize (known ∪ Responses.named before) := by
  induction rs generalizing known with
  | nil => simp [Responses.remembered]
  | cons r rs ih =>
      have hnil : Responses.named [] = ∅ := rfl
      rw [Responses.remembered, Finset.mem_union, ih]
      constructor
      · rintro (hfirst | ⟨before, raw, after, rfl, hhap, hvalue, hnear⟩)
        · split at hfirst
          · rename_i hmiss
            obtain rfl := Finset.mem_singleton.mp hfirst
            exact ⟨[], r.2, rs, rfl, hmiss.1, hmiss.2.1, by simpa [hnil] using hmiss.2.2⟩
          · simp at hfirst
        · refine ⟨r :: before, raw, after, rfl, hhap, hvalue, ?_⟩
          rwa [← List.singleton_append, named_append, ← Finset.union_assoc]
      · rintro ⟨before, raw, after, hsplit, hhap, hvalue, hnear⟩
        cases before with
        | nil =>
            obtain ⟨rfl, rfl⟩ := List.cons.inj hsplit
            left
            rw [if_pos ⟨hhap, hvalue, by simpa [hnil] using hnear⟩]
            exact Finset.mem_singleton_self _
        | cons x before =>
            obtain ⟨rfl, rfl⟩ := List.cons.inj hsplit
            right
            refine ⟨before, raw, after, rfl, hhap, hvalue, ?_⟩
            rwa [← List.singleton_append, named_append, ← Finset.union_assoc] at hnear

theorem remembered_subset_misses (hperm : rs'.Perm rs) :
    rs'.remembered key ksize known ⊆ rs.misses := by
  intro id hid
  obtain ⟨before, raw, after, rfl, hhap, hvalue, -⟩ := mem_remembered.mp hid
  exact mem_misses.mpr ⟨raw, hperm.mem_iff.mp (by simp), hhap, hvalue⟩

/-- The responses before a peer's turn are other peers' responses. -/
theorem mem_others_of_before {before after : Responses} {raw : RawResponse}
    (hnodup : ((before ++ (id, raw) :: after).map Prod.fst).Nodup) {r : NodeId × RawResponse}
    (hr : r ∈ before ∨ r ∈ after) : r.1 ≠ id := by
  simp only [List.map_append, List.map_cons, List.nodup_append, List.nodup_cons, List.mem_map,
    List.mem_cons] at hnodup
  obtain ⟨-, ⟨hafter, -⟩, hbefore⟩ := hnodup
  rintro rfl
  rcases hr with hr | hr
  · exact hbefore r.1 ⟨r, hr, rfl⟩ r.1 (.inl rfl) rfl
  · exact hafter ⟨r, hr, rfl⟩

/-- **Being remembered last is being remembered always.** -/
theorem alwaysRemembered_subset (hperm : rs'.Perm rs) (hnodup : (rs.map Prod.fst).Nodup)
    (hknown : ∀ r ∈ rs, r.1 ∈ known) :
    rs.alwaysRemembered key ksize known ⊆ rs'.remembered key ksize known := by
  intro id hid
  obtain ⟨hmiss, hnear⟩ := Finset.mem_filter.mp hid
  obtain ⟨raw, hraw, hhap, hvalue⟩ := mem_misses.mp hmiss
  obtain ⟨before, after, rfl⟩ := List.append_of_mem (hperm.mem_iff.mpr hraw)
  have hnodup' := (hperm.map Prod.fst).nodup_iff.mpr hnodup
  have hsub : Responses.named before ⊆ (rs.others id).named := by
    refine named_mono fun r hr => List.mem_filter.mpr ⟨hperm.mem_iff.mp (by simp [hr]), ?_⟩
    simpa using mem_others_of_before hnodup' (.inl hr)
  refine mem_remembered.mpr ⟨before, raw, after, rfl, hhap, hvalue, ?_⟩
  refine mem_nearest_of_subset (Finset.union_subset_union_right hsub) ?_ hnear
  exact Finset.mem_union_left _ (hknown (id, raw) hraw)

/-- The response of `id` is processed first. -/
def TurnFirst (id : NodeId) (rs : Responses) : Prop := rs.Pairwise fun r r' => r'.1 = id → r.1 = id

/-- The response of `id` is processed last. -/
def TurnLast (id : NodeId) (rs : Responses) : Prop := rs.Pairwise fun r r' => r.1 = id → r'.1 = id

theorem TurnFirst.remembered (hfirst : TurnFirst id rs') (hperm : rs'.Perm rs)
    (hnodup : (rs.map Prod.fst).Nodup) (hnear : id ∈ nearest key ksize known)
    (hmiss : id ∈ rs.misses) : id ∈ rs'.remembered key ksize known := by
  obtain ⟨raw, hraw, hhap, hvalue⟩ := mem_misses.mp hmiss
  obtain ⟨before, after, rfl⟩ := List.append_of_mem (hperm.mem_iff.mpr hraw)
  have hnodup' := (hperm.map Prod.fst).nodup_iff.mpr hnodup
  have hnone : before = [] := by
    refine List.eq_nil_iff_forall_not_mem.mpr fun r hr => ?_
    apply mem_others_of_before hnodup' (.inl hr)
    exact (List.pairwise_append.mp hfirst).2.2 r hr (id, raw) (by simp) rfl
  refine mem_remembered.mpr ⟨before, raw, after, rfl, hhap, hvalue, ?_⟩
  have hnil : Responses.named [] = ∅ := rfl
  rwa [hnone, hnil, Finset.union_empty]

theorem TurnLast.alwaysRemembered (hlast : TurnLast id rs') (hperm : rs'.Perm rs)
    (hnodup : (rs.map Prod.fst).Nodup) (hid : id ∈ rs'.remembered key ksize known) :
    id ∈ rs.alwaysRemembered key ksize known := by
  obtain ⟨before, raw, after, rfl, -, -, hnear⟩ := mem_remembered.mp hid
  have hnodup' := (hperm.map Prod.fst).nodup_iff.mpr hnodup
  have hnone : after = [] := by
    refine List.eq_nil_iff_forall_not_mem.mpr fun r hr => ?_
    apply mem_others_of_before hnodup' (.inr hr)
    exact (List.pairwise_cons.mp (List.pairwise_append.mp hlast).2.1).1 r hr rfl
  have hothers : Responses.others (before ++ (id, raw) :: after) id = before := by
    have hkeep : before.filter (fun r => r.1 ≠ id) = before :=
      List.filter_eq_self.mpr fun r hr => by
        simpa using mem_others_of_before hnodup' (.inl hr)
    rw [hnone, Responses.others, List.filter_append, hkeep]
    simp
  refine Finset.mem_filter.mpr ⟨remembered_subset_misses hperm hid, ?_⟩
  have hnamed : (Responses.others (before ++ (id, raw) :: after) id).named =
      (rs.others id).named := named_perm (hperm.filter _)
  rwa [← hnamed, hothers]

end Round

/-! ## A history -/

section History

variable (target : Node) (ksize : ℕ) (peers : List Node)

/-- The ids known after a round. -/
def keep (known : Finset NodeId) (r : Round) : Finset NodeId :=
  nearest (idDistance target) ksize (known ∪ r.responses.named) \ r.responses.failed.toFinset

/-- The ids known after a history, if no ids collide. -/
def keptIds (history : List Round) : Finset NodeId :=
  history.foldl (keep target ksize) (nearest (idDistance target) ksize (idsOf peers))

/-- What `collect` finds in the rounds of a history, given the ids known before each. -/
def collectFrom (collect : Finset NodeId → Responses → Finset NodeId) (known : Finset NodeId) :
    List Round → Finset NodeId
  | [] => ∅
  | r :: history =>
      collect known r.responses ∪ collectFrom collect (keep target ksize known r) history

/-- The peers remembered in a history. -/
def rememberedIds (history : List Round) : Finset NodeId :=
  collectFrom target ksize (Responses.remembered (idDistance target) ksize)
    (nearest (idDistance target) ksize (idsOf peers)) history

/-- The peers remembered in every order of the responses. -/
def alwaysRememberedIds (history : List Round) : Finset NodeId :=
  collectFrom target ksize (Responses.alwaysRemembered (idDistance target) ksize)
    (nearest (idDistance target) ksize (idsOf peers)) history

/-- The peers that answered without a value. -/
def missIds (history : List Round) : Finset NodeId := (allResponses history).misses

/-- **When the orders do not matter.**  No two values are received most often; and, if values
are received at all, the closest of the peers that answered without one stays in the heap
whatever its round has processed before. -/
structure OrderFree (history : List Round) : Prop where
  majority : ∀ v w, MostReceived (firstValues history) v → MostReceived (firstValues history) w →
    v = w
  closest : firstValues history ≠ [] → nearest (idDistance target) 1 (missIds history) ⊆
    alwaysRememberedIds target ksize peers history

variable {target ksize peers} {history : List Round} {r : Round}

theorem keptIds_concat : keptIds target ksize peers (history ++ [r]) =
    keep target ksize (keptIds target ksize peers history) r := by
  rw [keptIds, List.foldl_append]
  rfl

theorem collectFrom_concat (collect : Finset NodeId → Responses → Finset NodeId)
    (known : Finset NodeId) : collectFrom target ksize collect known (history ++ [r]) =
      collectFrom target ksize collect known history ∪
        collect (history.foldl (keep target ksize) known) r.responses := by
  induction history generalizing known with
  | nil => simp [collectFrom]
  | cons r' history ih => simp [collectFrom, ih, Finset.union_assoc]

theorem rememberedIds_concat : rememberedIds target ksize peers (history ++ [r]) =
    rememberedIds target ksize peers history ∪
      r.responses.remembered (idDistance target) ksize (keptIds target ksize peers history) :=
  collectFrom_concat _ _

theorem alwaysRememberedIds_concat : alwaysRememberedIds target ksize peers (history ++ [r]) =
    alwaysRememberedIds target ksize peers history ∪
      r.responses.alwaysRemembered (idDistance target) ksize (keptIds target ksize peers history) :=
  collectFrom_concat _ _

theorem missIds_concat : missIds (history ++ [r]) = missIds history ∪ r.responses.misses := by
  rw [missIds, allResponses_concat, misses_append]
  rfl

/-- What is known is a selection of itself. -/
theorem mem_nearest_keptIds {id : NodeId} (h : id ∈ keptIds target ksize peers history) :
    id ∈ nearest (idDistance target) ksize (keptIds target ksize peers history) := by
  rcases history.eq_nil_or_concat with rfl | ⟨history, r, rfl⟩
  · exact mem_nearest_of_subset nearest_subset h h
  · rw [List.concat_eq_append, keptIds_concat, keep] at h ⊢
    refine mem_nearest_of_subset (Finset.sdiff_subset.trans nearest_subset) h ?_
    exact (Finset.mem_sdiff.mp h).1

variable (target ksize peers) in
/-- Two histories with the same responses in each round, in different orders: one for each
queried peer, all of them known. -/
inductive RoundsAlike : List Round → List Round → Prop
  | nil : RoundsAlike [] []
  | concat {history history' : List Round} {r r' : Round} :
      RoundsAlike history history' → r'.responses.Perm r.responses →
      (r.responses.map Prod.fst).Nodup →
      (∀ x ∈ r.responses, x.1 ∈ keptIds target ksize peers history) →
      RoundsAlike (history ++ [r]) (history' ++ [r'])

namespace RoundsAlike

variable {history' : List Round} {id : NodeId}

theorem keptIds_eq (h : RoundsAlike target ksize peers history history') :
    keptIds target ksize peers history' = keptIds target ksize peers history := by
  induction h with
  | nil => rfl
  | concat _ hperm _ _ ih =>
      rw [keptIds_concat, keptIds_concat, ih, keep, keep, named_perm hperm, failed_perm hperm]

theorem learnedIds_eq (h : RoundsAlike target ksize peers history history') :
    learnedIds peers history' = learnedIds peers history := by
  induction h with
  | nil => rfl
  | concat _ hperm _ _ ih => rw [learnedIds_concat, learnedIds_concat, ih, named_perm hperm]

theorem remembered_subset (h : RoundsAlike target ksize peers history history') :
    rememberedIds target ksize peers history' ⊆ missIds history := by
  induction h with
  | nil => exact Finset.empty_subset _
  | concat _ hperm _ _ ih =>
      rw [rememberedIds_concat, missIds_concat]
      exact Finset.union_subset_union ih (remembered_subset_misses hperm)

theorem always_subset (h : RoundsAlike target ksize peers history history') :
    alwaysRememberedIds target ksize peers history ⊆ rememberedIds target ksize peers history' := by
  induction h with
  | nil => exact Finset.empty_subset _
  | concat halike hperm hnodup hknown ih =>
      rw [rememberedIds_concat, alwaysRememberedIds_concat, halike.keptIds_eq]
      exact Finset.union_subset_union ih (alwaysRemembered_subset hperm hnodup hknown)

theorem left (h : RoundsAlike target ksize peers history history') :
    RoundsAlike target ksize peers history history := by
  induction h with
  | nil => exact .nil
  | concat _ _ hnodup hknown ih => exact .concat ih (.refl _) hnodup hknown

/-- If the closest peer without the value is always remembered, it is the one in any order. -/
theorem nearest_remembered (h : RoundsAlike target ksize peers history history')
    (hclosest : nearest (idDistance target) 1 (missIds history) ⊆
      alwaysRememberedIds target ksize peers history) :
    nearest (idDistance target) 1 (rememberedIds target ksize peers history') =
      nearest (idDistance target) 1 (missIds history) :=
  nearest_eq_of_subset (hclosest.trans h.always_subset) h.remembered_subset

/-- A peer without the value is remembered where its turn comes first. -/
theorem remembered_of_first (h : RoundsAlike target ksize peers history history')
    (hfirst : ∀ r ∈ history', TurnFirst id r.responses) (hmiss : id ∈ missIds history) :
    id ∈ rememberedIds target ksize peers history' := by
  induction h with
  | nil => exact absurd hmiss (Finset.notMem_empty id)
  | concat halike hperm hnodup hknown ih =>
      rw [rememberedIds_concat, halike.keptIds_eq, Finset.mem_union]
      rw [missIds_concat, Finset.mem_union] at hmiss
      rcases hmiss with hmiss | hmiss
      · exact .inl (ih (fun r hr => hfirst r (by simp [hr])) hmiss)
      · obtain ⟨raw, hraw, -⟩ := mem_misses.mp hmiss
        have hnear := mem_nearest_keptIds (hknown _ hraw)
        exact .inr ((hfirst _ (by simp)).remembered hperm hnodup hnear hmiss)

/-- A peer that is remembered where its turn comes last is remembered always. -/
theorem always_of_last (h : RoundsAlike target ksize peers history history')
    (hlast : ∀ r ∈ history', TurnLast id r.responses)
    (hmem : id ∈ rememberedIds target ksize peers history') :
    id ∈ alwaysRememberedIds target ksize peers history := by
  induction h with
  | nil => exact absurd hmem (Finset.notMem_empty id)
  | concat halike hperm hnodup hknown ih =>
      rw [rememberedIds_concat, halike.keptIds_eq, Finset.mem_union] at hmem
      rw [alwaysRememberedIds_concat, Finset.mem_union]
      rcases hmem with hmem | hmem
      · exact .inl (ih (fun r hr => hlast r (by simp [hr])) hmem)
      · exact .inr ((hlast _ (by simp)).alwaysRemembered hperm hnodup hmem)

end RoundsAlike

end History

/-! ## Orders -/

/-- The response of `id` first. -/
def firstTurn (id : NodeId) (rs : Responses) : Responses :=
  rs.filter (fun r => r.1 = id) ++ rs.others id

/-- The response of `id` last. -/
def lastTurn (id : NodeId) (rs : Responses) : Responses :=
  rs.others id ++ rs.filter (fun r => r.1 = id)

theorem perm_firstTurn (id : NodeId) (rs : Responses) : (firstTurn id rs).Perm rs := by
  simpa [firstTurn, Responses.others] using List.filter_append_perm (fun r => decide (r.1 = id)) rs

theorem perm_lastTurn (id : NodeId) (rs : Responses) : (lastTurn id rs).Perm rs :=
  List.perm_append_comm.trans (perm_firstTurn id rs)

theorem turnFirst_firstTurn (id : NodeId) (rs : Responses) : TurnFirst id (firstTurn id rs) := by
  have hown : ∀ r ∈ rs.filter (fun r => r.1 = id), r.1 = id := by simp
  have hother : ∀ r ∈ rs.others id, r.1 ≠ id := by simp [Responses.others]
  refine List.pairwise_append.mpr ⟨?_, ?_, fun r hr _ _ _ => hown r hr⟩
  · exact List.pairwise_of_forall_mem_list fun r hr _ _ _ => hown r hr
  · exact List.pairwise_of_forall_mem_list fun _ _ r' hr' h => absurd h (hother r' hr')

theorem turnLast_lastTurn (id : NodeId) (rs : Responses) : TurnLast id (lastTurn id rs) := by
  have hown : ∀ r ∈ rs.filter (fun r => r.1 = id), r.1 = id := by simp
  have hother : ∀ r ∈ rs.others id, r.1 ≠ id := by simp [Responses.others]
  refine List.pairwise_append.mpr ⟨?_, ?_, fun _ _ r' hr' _ => hown r' hr'⟩
  · exact List.pairwise_of_forall_mem_list fun r hr _ _ h => absurd h (hother r hr)
  · exact List.pairwise_of_forall_mem_list fun _ _ r' hr' _ => hown r' hr'

/-- The same network, with another order of the responses. -/
def Network.reorder (net : Network) (order : Responses → Responses)
    (horder : ∀ rs, (order rs).Perm rs) : Network :=
  { net with
    responseOrder := fun _ rs => order rs
    responseOrder_perm := fun _ rs => horder rs }

/-! ## What a lookup remembers -/

namespace ValueSpiderCrawl

variable {lib lib' : HeapLib} {net net' : Network} {v v' : ValueSpiderCrawl} {target : Node}
  {ksize alpha : ℕ} {peers : List Node} {learned known seen : Finset NodeId} {acc : Tally}

/-- A response that is not an answer without a value changes neither heap. -/
theorem absorb_quiet {r : NodeId × RawResponse}
    (h : ¬ (r.2.happened = true ∧ r.2.getValue = none)) :
    (absorb lib acc r).nearest = acc.nearest ∧
      (absorb lib acc r).nearestWithoutValue = acc.nearestWithoutValue ∧
      Responses.named [r] = ∅ := by
  obtain ⟨id, happened, payload⟩ := r
  cases happened with
  | false => exact ⟨rfl, rfl, rfl⟩
  | true => cases payload <;> first | exact ⟨rfl, rfl, rfl⟩ | simp [RawResponse.getValue] at h

theorem remembered_singleton (key : NodeId → ℕ) (r : NodeId × RawResponse) :
    Responses.remembered key ksize known [r] =
      if r.2.happened = true ∧ r.2.getValue = none ∧ r.1 ∈ nearest key ksize known then {r.1}
      else ∅ := by
  simp [Responses.remembered]

theorem remembered_subset_known {key : NodeId → ℕ} {r : NodeId × RawResponse} :
    Responses.remembered key ksize known [r] ⊆ known := by
  rw [remembered_singleton]
  split
  · rename_i hmiss
    exact Finset.singleton_subset_iff.mpr (nearest_subset hmiss.2.2)
  · exact Finset.empty_subset _

/-- **One response.**  Both heaps stay selections: of the ids known so far, and of the peers
remembered so far. -/
theorem selects_absorb (hinj : Set.InjOn idToU128 (learned : Set NodeId))
    (hnear : acc.nearest.Selects target ksize known) (hknown : known ⊆ learned)
    (hwithout : acc.nearestWithoutValue.Selects target 1 seen) (hseen : seen ⊆ learned)
    {r : NodeId × RawResponse} (hnamed : Responses.named [r] ⊆ learned) :
    (absorb lib acc r).nearest.Selects target ksize (known ∪ Responses.named [r]) ∧
      (absorb lib acc r).nearestWithoutValue.Selects target 1
        (seen ∪ Responses.remembered (idDistance target) ksize known [r]) := by
  by_cases hmiss : r.2.happened = true ∧ r.2.getValue = none
  · have hlist : Responses.named [r] = idsOf r.2.getNodeList := by
      simp [Responses.named, Responses.nodes, hmiss.1]
    rw [remembered_singleton]
    simp only [absorb, hmiss.1, hmiss.2, hlist, Bool.not_true, Bool.false_eq_true, if_false,
      true_and]
    constructor
    · rw [hlist] at hnamed
      exact hnear.push (hinj.mono (Finset.coe_subset.mpr (Finset.union_subset hknown hnamed)))
    · by_cases hid : r.1 ∈ nearest (idDistance target) ksize known
      · obtain ⟨n, hget, hn⟩ := NodeHeap.getNode_of_mem (hnear.idSet.symm ▸ hid)
        have hone : idsOf [n] = {r.1} := by simp [idsOf, hn]
        have hunion : seen ∪ idsOf [n] ⊆ learned := by
          rw [hone]
          exact Finset.union_subset hseen
            (Finset.singleton_subset_iff.mpr (hknown (nearest_subset hid)))
        rw [hget, if_pos hid, ← hone]
        exact hwithout.push (hinj.mono (Finset.coe_subset.mpr hunion))
      · rw [NodeHeap.getNode_of_notMem (hnear.idSet.symm ▸ hid), if_neg hid, Finset.union_empty]
        exact hwithout
  · -- no answer, or a value: neither heap changes
    obtain ⟨hsame, hsame', hnone⟩ := @absorb_quiet lib acc r hmiss
    rw [hsame, hsame', hnone, remembered_singleton, if_neg fun hall => hmiss ⟨hall.1, hall.2.1⟩,
      Finset.union_empty, Finset.union_empty]
    exact ⟨hnear, hwithout⟩

/-- **All responses of a round**, by induction over them. -/
theorem selects_foldl (hinj : Set.InjOn idToU128 (learned : Set NodeId)) {rs : Responses}
    (hnear : acc.nearest.Selects target ksize known) (hknown : known ⊆ learned)
    (hwithout : acc.nearestWithoutValue.Selects target 1 seen) (hseen : seen ⊆ learned)
    (hnamed : rs.named ⊆ learned) :
    (rs.foldl (absorb lib) acc).nearestWithoutValue.Selects target 1
      (seen ∪ rs.remembered (idDistance target) ksize known) := by
  induction rs generalizing acc known seen with
  | nil => simpa [Responses.remembered] using hwithout
  | cons r rs ih =>
      rw [← List.singleton_append, named_append] at hnamed
      have hfirst : Responses.named [r] ⊆ learned := Finset.subset_union_left.trans hnamed
      obtain ⟨hnear', hwithout'⟩ := @selects_absorb lib _ _ _ _ _ _ hinj hnear hknown hwithout hseen
        r hfirst
      have hrest := ih hnear' (Finset.union_subset hknown hfirst) hwithout'
        (Finset.union_subset hseen (remembered_subset_known.trans hknown))
        (Finset.subset_union_right.trans hnamed)
      rw [Finset.union_assoc, remembered_singleton] at hrest
      exact hrest

variable (target ksize peers) in
/-- Both heaps of a value lookup as functions of its history. -/
structure Remembers (v : ValueSpiderCrawl) : Prop where
  node : v.base.nearest.node = target
  maxsize : v.base.nearest.maxsize = ksize
  kept : v.base.nearest.idSet = keptIds target ksize peers v.base.history
  learned : v.base.nearest.idSet ⊆ learnedIds peers v.base.history
  without : v.nearestWithoutValue.Selects target 1 (rememberedIds target ksize peers v.base.history)
  withoutLearned : rememberedIds target ksize peers v.base.history ⊆ learnedIds peers v.base.history

theorem remembers_new (hinj : Set.InjOn idToU128 (idsOf peers : Set NodeId)) :
    Remembers target ksize peers (new lib target peers ksize alpha) where
  node := rfl
  maxsize := rfl
  kept := SpiderCrawl.idSet_new hinj
  learned := SpiderCrawl.idSet_new_subset.trans (learnedIds_nil peers).ge
  without := ⟨rfl, rfl, rfl⟩
  withoutLearned := Finset.empty_subset _

/-- What a round remembers was known before it. -/
theorem remembered_subset_union {key : NodeId → ℕ} {rs : Responses} :
    rs.remembered key ksize known ⊆ known ∪ rs.named := by
  intro id hid
  obtain ⟨before, raw, after, rfl, -, -, hnear⟩ := mem_remembered.mp hid
  refine Finset.union_subset_union_right ?_ (nearest_subset hnear)
  rw [named_append]
  exact Finset.subset_union_left

theorem nearestWithoutValue_round : (v.round lib net).nearestWithoutValue =
    ((v.base.nextRound lib net).responses.foldl (absorb lib)
      ⟨v.base.nearest.markAll (v.base.selectPeers lib), v.nearestWithoutValue, [],
        []⟩).nearestWithoutValue := by
  rw [← NodeHeap.foldl_markContacted]
  rfl

/-- **One round**, on ids that do not collide. -/
theorem Remembers.round (h : Remembers target ksize peers v)
    (hinj : SpiderCrawl.NoCollision peers (v.round lib net).base) :
    Remembers target ksize peers (v.round lib net) := by
  have hbase := base_round lib net v
  rw [NodeSpiderCrawl.round_eq] at hbase
  have hhistory : (v.round lib net).base.history = v.base.history ++ [v.base.nextRound lib net] :=
    history_round v
  have hlearned : learnedIds peers (v.round lib net).base.history =
      learnedIds peers v.base.history ∪ (v.base.nextRound lib net).responses.named := by
    rw [hhistory, learnedIds_concat]
  rw [SpiderCrawl.NoCollision, hlearned] at hinj
  have hknown : v.base.nearest.idSet ∪ (v.base.nextRound lib net).responses.named ⊆
      learnedIds peers v.base.history ∪ (v.base.nextRound lib net).responses.named :=
    Finset.union_subset_union_left h.learned
  have hset := SpiderCrawl.idSet_nextNearest (hinj.mono (Finset.coe_subset.mpr hknown))
  refine ⟨?_, ?_, ?_, ?_, ?_, ?_⟩
  · rw [hbase]
    exact SpiderCrawl.node_nextNearest.trans h.node
  · rw [hbase]
    exact SpiderCrawl.maxsize_nextNearest.trans h.maxsize
  · rw [hhistory, keptIds_concat, keep, hbase, ← h.kept, ← h.node, ← h.maxsize]
    exact hset
  · rw [hlearned, hbase]
    exact (SpiderCrawl.idSet_nextNearest_subset.trans Finset.sdiff_subset).trans hknown
  · rw [hhistory, rememberedIds_concat]
    have hmarked : (v.base.nearest.markAll (v.base.selectPeers lib)).Selects target ksize
        (keptIds target ksize peers v.base.history) :=
      NodeHeap.selects_of_idSet h.node h.maxsize h.kept
    have hkept : keptIds target ksize peers v.base.history ⊆
        learnedIds peers v.base.history ∪ (v.base.nextRound lib net).responses.named := by
      rw [← h.kept]
      exact Finset.subset_union_left.trans hknown
    rw [nearestWithoutValue_round]
    exact selects_foldl hinj hmarked hkept h.without
      (h.withoutLearned.trans Finset.subset_union_left) Finset.subset_union_right
  · rw [hlearned, hhistory, rememberedIds_concat, ← h.kept]
    refine Finset.union_subset (h.withoutLearned.trans Finset.subset_union_left) ?_
    exact remembered_subset_union.trans hknown

/-! ## Two lookups with the same answers -/

variable (target ksize peers) in
/-- Two value lookups whose rounds differ in the order of the responses only. -/
structure Twins (v v' : ValueSpiderCrawl) : Prop where
  alike : SpiderCrawl.Alike peers v.base v'.base
  rounds : RoundsAlike target ksize peers v.base.history v'.base.history
  remembers : Remembers target ksize peers v
  remembers' : Remembers target ksize peers v'
  values : v'.foundValues.Perm v.foundValues

theorem twins_new (hinj : Set.InjOn idToU128 (idsOf peers : Set NodeId)) :
    Twins target ksize peers (new lib target peers ksize alpha)
      (new lib' target peers ksize alpha) :=
  ⟨SpiderCrawl.alike_new hinj, .nil, remembers_new hinj, remembers_new hinj, .nil⟩

variable {respond : NodeId → RawResponse}

theorem Twins.round (hnet : net.AnswersBy respond) (hnet' : net'.AnswersBy respond)
    (h : Twins target ksize peers v v')
    (hinj : SpiderCrawl.NoCollision peers (v.round lib net).base) :
    Twins target ksize peers (v.round lib net) (v'.round lib' net') := by
  have hbase := hinj
  rw [base_round] at hbase
  have hbefore := SpiderCrawl.noCollision_of_round hbase
  have hperm : (v'.base.nextRound lib' net').responses.Perm (v.base.nextRound lib net).responses :=
    h.alike.perm_responses hnet hnet' hbefore
  have hrounds : RoundsAlike target ksize peers (v.round lib net).base.history
      (v'.round lib' net').base.history := by
    rw [history_round, history_round]
    have hids := (@SpiderCrawl.perm_nextRound lib net v.base).map Prod.fst
    rw [List.map_map] at hids
    refine .concat h.rounds hperm (hids.nodup_iff.mpr SpiderCrawl.nodup_selectPeers) fun x hx => ?_
    have hqueried := SpiderCrawl.mem_responses_iff.mp (List.mem_map_of_mem hx)
    obtain ⟨p, hp, hpx⟩ := List.mem_map.mp hqueried
    rw [← h.remembers.kept, ← hpx]
    exact NodeHeap.mem_idSet.mpr (List.mem_map_of_mem (SpiderCrawl.mem_selectPeers hp).1)
  refine ⟨?_, hrounds, h.remembers.round hinj, h.remembers'.round ?_, ?_⟩
  · rw [base_round, base_round]
    exact h.alike.round hnet hnet' hbase
  · rw [SpiderCrawl.NoCollision, hrounds.learnedIds_eq]
    exact hinj
  · rw [foundValues_round, foundValues_round]
    exact values_perm hperm

theorem Twins.done (h : Twins target ksize peers v v') : v'.done lib' = v.done lib := by
  rw [ValueSpiderCrawl.done, ValueSpiderCrawl.done, h.values.isEmpty_eq]
  exact congrArg _ h.alike.done

/-- **Lookups with the same answers end as twins.** -/
theorem exists_twin {fuel : ℕ} {t : ValueSpiderCrawl} (hnet : net.AnswersBy respond)
    (hnet' : net'.AnswersBy respond)
    (ht : loopUntil (round lib net) (done lib) fuel (new lib target peers ksize alpha) = some t)
    (hinj : SpiderCrawl.NoCollision peers t.base) :
    ∃ t', loopUntil (round lib' net') (done lib') fuel (new lib' target peers ksize alpha) =
      some t' ∧ Twins target ksize peers t t' := by
  have hback : ∀ v : ValueSpiderCrawl, SpiderCrawl.NoCollision peers (v.round lib net).base →
      SpiderCrawl.NoCollision peers v.base := by
    intro v hv
    rw [base_round] at hv
    exact SpiderCrawl.noCollision_of_round hv
  have hfirst : SpiderCrawl.NoCollision peers
      ((new lib target peers ksize alpha).round lib net).base :=
    of_loopUntil (P := fun v : ValueSpiderCrawl => SpiderCrawl.NoCollision peers v.base) hback ht
      hinj
  have hstart := hback (new lib target peers ksize alpha) hfirst
  have hpeers : Set.InjOn idToU128 (idsOf peers : Set NodeId) := by
    rw [← learnedIds_nil]
    exact hstart
  exact loopUntil_lockstep (P := fun v : ValueSpiderCrawl => SpiderCrawl.NoCollision peers v.base)
    (Twins target ksize peers) hback
    (fun _ _ hv htwins => htwins.round hnet hnet' hv) (fun _ _ _ htwins => htwins.done)
    (twins_new hpeers) ht hinj

/-! ## The outcome -/

theorem outcome_of_nil (h : v.foundValues = []) :
    (v.outcome lib net).value = none ∧ (v.outcome lib net).cachedAt = none := by
  simp [outcome, h]

theorem exists_value_outcome (h : v.foundValues ≠ []) :
    ∃ w, (v.outcome lib net).value = some w ∧ MostReceived v.foundValues w := by
  obtain ⟨w, hw, hmajority, hmost⟩ := @exists_majority net v h
  exact ⟨w, by simp [outcome, h, hmajority], hw, hmost⟩

/-- **Who is sent a copy**: the closest of the remembered peers. -/
theorem Remembers.cachedAt_iff (h : Remembers target ksize peers v) (hfound : v.foundValues ≠ [])
    {id : NodeId} : (v.outcome lib net).cachedAt.map Node.id = some id ↔
      id ∈ nearest (idDistance target) 1 (rememberedIds target ksize peers v.base.history) := by
  obtain ⟨w, -, hmajority, -⟩ := @exists_majority net v hfound
  have hcached : (v.outcome lib net).cachedAt = v.nearestWithoutValue.popleft lib := by
    simp [outcome, hfound, hmajority]
  rw [hcached, NodeHeap.id_popleft_iff h.without.maxsize, h.without.idSet]

theorem mostReceived_perm {values values' : List Bytes} (hperm : values'.Perm values) {w : Bytes} :
    MostReceived values' w ↔ MostReceived values w := by
  simp only [MostReceived, hperm.mem_iff, hperm.count_eq]

/-- **Enough**: under the condition twins end alike. -/
theorem Twins.outcome_eq (h : Twins target ksize peers v v')
    (hvalues : firstValues v.base.history = v.foundValues)
    (hfree : OrderFree target ksize peers v.base.history) :
    (v'.outcome lib' net').value = (v.outcome lib net).value ∧
      (v'.outcome lib' net').cachedAt.map Node.id = (v.outcome lib net).cachedAt.map Node.id := by
  by_cases hnil : v.foundValues = []
  · have hnil' : v'.foundValues = [] := (hnil ▸ h.values).eq_nil
    obtain ⟨hvalue, hcached⟩ := @outcome_of_nil lib net v hnil
    obtain ⟨hvalue', hcached'⟩ := @outcome_of_nil lib' net' v' hnil'
    rw [hvalue, hcached, hvalue', hcached']
    exact ⟨rfl, rfl⟩
  · have hne' : v'.foundValues ≠ [] := fun hnil' => hnil (hnil' ▸ h.values).symm.eq_nil
    obtain ⟨w, hw, hmost⟩ := @exists_value_outcome lib net v hnil
    obtain ⟨w', hw', hmost'⟩ := @exists_value_outcome lib' net' v' hne'
    rw [mostReceived_perm h.values] at hmost'
    rw [← hvalues] at hmost hmost' hnil
    constructor
    · rw [hw, hw', hfree.majority w' w hmost' hmost]
    · have hclosest := hfree.closest hnil
      refine Option.ext fun id => ?_
      rw [hvalues] at hnil
      rw [h.remembers'.cachedAt_iff hne', h.remembers.cachedAt_iff hnil,
        h.rounds.nearest_remembered hclosest, h.rounds.left.nearest_remembered hclosest]

/-- The rounds of a lookup are processed in the network's order. -/
theorem history_ordered {fuel : ℕ} {t : ValueSpiderCrawl} {Q : Responses → Prop}
    (hQ : ∀ history rs, Q (net.responseOrder history rs))
    (ht : loopUntil (round lib net) (done lib) fuel (new lib target peers ksize alpha) = some t) :
    ∀ r ∈ t.base.history, Q r.responses := by
  refine loop_invariant (fun c => ∀ r ∈ c.history, Q r.responses) ?_
    (by simp [new, SpiderCrawl.new]) ht
  intro c hc r hr
  rw [NodeSpiderCrawl.round_eq] at hr
  rcases List.mem_append.mp hr with hr | hr
  · exact hc r hr
  · rw [List.mem_singleton.mp hr]
    exact hQ _ _

variable (lib net respond) in
/-- Every end of the loop against the same answers has the value and the copy of `t`. -/
def AllEndLike (fuel : ℕ) (start t : ValueSpiderCrawl) : Prop :=
  ∀ (net' : Network) (t' : ValueSpiderCrawl), net'.AnswersBy respond →
    loopUntil (round lib net') (done lib) fuel start = some t' →
      (t'.outcome lib net').value = (t.outcome lib net).value ∧
        (t'.outcome lib net').cachedAt.map Node.id = (t.outcome lib net).cachedAt.map Node.id

/-- Let the counts favour `w`. -/
theorem AllEndLike.value_eq {fuel : ℕ} {start t : ValueSpiderCrawl} {w : Bytes}
    (h : AllEndLike lib net respond fuel start t) (hnet : net.AnswersBy respond)
    (ht : loopUntil (round lib net) (done lib) fuel start = some t)
    (hw : MostReceived t.foundValues w) : (t.outcome lib net).value = some w := by
  have hround := @round_congr lib net (net.preferring w) rfl rfl
  rw [← (h (net.preferring w) t hnet (by rw [hround]; exact ht)).1]
  exact value_preferring hw

/-- Give the closest peer without the value its turn first, and last. -/
theorem AllEndLike.closest {fuel : ℕ} {t : ValueSpiderCrawl}
    (h : AllEndLike lib net respond fuel (new lib target peers ksize alpha) t)
    (hnet : net.AnswersBy respond)
    (ht : loopUntil (round lib net) (done lib) fuel (new lib target peers ksize alpha) = some t)
    (hinj : SpiderCrawl.NoCollision peers t.base) (hne : t.foundValues ≠ []) :
    nearest (idDistance target) 1 (missIds t.base.history) ⊆
      alwaysRememberedIds target ksize peers t.base.history := by
  intro id hid
  let netFirst := net.reorder (firstTurn id) (perm_firstTurn id)
  let netLast := net.reorder (lastTurn id) (perm_lastTurn id)
  have hFirst : netFirst.AnswersBy respond := hnet
  have hLast : netLast.AnswersBy respond := hnet
  obtain ⟨t₁, ht₁, htwins₁⟩ := @exists_twin lib lib net netFirst _ _ _ _ _ _ _ hnet hFirst ht hinj
  obtain ⟨t₂, ht₂, htwins₂⟩ := @exists_twin lib lib net netLast _ _ _ _ _ _ _ hnet hLast ht hinj
  have hne₁ : t₁.foundValues ≠ [] := fun hnil => hne (hnil ▸ htwins₁.values).symm.eq_nil
  have hne₂ : t₂.foundValues ≠ [] := fun hnil => hne (hnil ▸ htwins₂.values).symm.eq_nil
  have hfirst : id ∈ nearest (idDistance target) 1
      (rememberedIds target ksize peers t₁.base.history) := by
    refine mem_nearest_of_subset htwins₁.rounds.remembered_subset ?_ hid
    refine htwins₁.rounds.remembered_of_first ?_ (nearest_subset hid)
    exact history_ordered (fun _ rs => turnFirst_firstTurn id rs) ht₁
  have hcached : (t₁.outcome lib netFirst).cachedAt.map Node.id = some id :=
    (htwins₁.remembers'.cachedAt_iff hne₁).mpr hfirst
  rw [(h _ _ hFirst ht₁).2, ← (h _ _ hLast ht₂).2,
    htwins₂.remembers'.cachedAt_iff hne₂] at hcached
  refine htwins₂.rounds.always_of_last ?_ (nearest_subset hcached)
  exact history_ordered (fun _ rs => turnLast_lastTurn id rs) ht₂

/-- **Needed**: if all orders end alike, the condition holds. -/
theorem AllEndLike.orderFree {fuel : ℕ} {t : ValueSpiderCrawl}
    (h : AllEndLike lib net respond fuel (new lib target peers ksize alpha) t)
    (hnet : net.AnswersBy respond)
    (ht : loopUntil (round lib net) (done lib) fuel (new lib target peers ksize alpha) = some t)
    (hinj : SpiderCrawl.NoCollision peers t.base) :
    OrderFree target ksize peers t.base.history := by
  have hvalues := firstValues_of_loop ht
  constructor
  · intro v w hv hw
    rw [hvalues] at hv hw
    exact Option.some.inj ((h.value_eq hnet ht hv).symm.trans (h.value_eq hnet ht hw))
  · intro hne
    rw [hvalues] at hne
    exact h.closest hnet ht hinj hne

/-- **The order of the responses and of the counts.**  Every value lookup ends.  If peers
answer by a fixed function of their ids, and no learned ids collide, then the value it
returns and the peer it sends a copy to are the same for every order of the responses and of
the counts, and every way the heap breaks ties, exactly if `OrderFree` holds of its rounds. -/
theorem find_order_iff (respond : NodeId → RawResponse) (target : Node) (peers : List Node)
    (ksize alpha : ℕ) (lib : HeapLib) (net : Network) (hnet : net.AnswersBy respond) :
    ∃ fuel o, find lib net fuel (new lib target peers ksize alpha) = some o ∧
      (Set.InjOn idToU128 (learnedIds peers o.history : Set NodeId) →
        ((∀ (lib' : HeapLib) (net' : Network), net'.AnswersBy respond →
            ∃ o', find lib' net' fuel (new lib' target peers ksize alpha) = some o' ∧
              o'.value = o.value ∧
              o'.cachedAt.map Node.id = o.cachedAt.map Node.id) ↔
          OrderFree target ksize peers o.history)) := by
  obtain ⟨t, ht⟩ := Option.isSome_iff_exists.mp (loop_isSome lib net
    (new lib target peers ksize alpha))
  refine ⟨roundBound, t.outcome lib net, by rw [find, ht]; rfl, ?_⟩
  rw [history_outcome]
  intro hinj
  constructor
  · intro hsame
    have hend : AllEndLike lib net respond roundBound (new lib target peers ksize alpha) t := by
      intro net' t' hnet' ht'
      obtain ⟨o', hfind, hequal⟩ := hsame lib net' hnet'
      rw [find, ht'] at hfind
      rwa [← Option.some.inj hfind] at hequal
    exact hend.orderFree hnet ht hinj
  · intro hfree lib' net' hnet'
    obtain ⟨t', ht', htwins⟩ := @exists_twin lib lib' net net' _ _ _ _ _ _ _ hnet hnet' ht hinj
    refine ⟨t'.outcome lib' net', by rw [find, ht']; rfl, ?_⟩
    exact htwins.outcome_eq (firstValues_of_loop ht) hfree

end ValueSpiderCrawl

namespace Sample

def soughtValue : Bytes := [7]

/-- Node 4 names nobody, node 5 names three closer nodes, node 6 has the value. -/
def crowdedPeer (id : NodeId) : RawResponse :=
  if id = (crawlNode 4).id then naming []
  else if id = (crawlNode 5).id then naming [1, 2, 3]
  else ⟨true, .value soughtValue⟩

def crowded : Network := .fixed crowdedPeer

/-- The same peers; the responses of a round are processed the other way round. -/
def crowdedBack : Network := crowded.reorder List.reverse List.reverse_perm

/-- A lookup of node 0 that asks nodes 4, 5 and 6 at once. -/
def crowdedStart (ksize : ℕ) : ValueSpiderCrawl :=
  .new .plain (crawlNode 0) [crawlNode 4, crawlNode 5, crawlNode 6] ksize 3

def crowdedRound : Round :=
  ⟨[crawlNode 4, crawlNode 5, crawlNode 6],
    [((crawlNode 4).id, naming []), ((crawlNode 5).id, naming [1, 2, 3]),
      ((crawlNode 6).id, ⟨true, .value soughtValue⟩)]⟩

/-- Two values, one from each of two peers. -/
def undecidedPeer (id : NodeId) : RawResponse :=
  if id = (crawlNode 4).id then ⟨true, .value [4]⟩ else ⟨true, .value [5]⟩

def undecided : Network := .fixed undecidedPeer

def undecidedStart : ValueSpiderCrawl :=
  .new .plain (crawlNode 0) [crawlNode 4, crawlNode 5] 3 3

end Sample

open Sample in
theorem crowded_noCollision : Set.InjOn idToU128 (learnedIds
    [crawlNode 4, crawlNode 5, crawlNode 6] [crowdedRound] : Set NodeId) :=
  injOn_of_forall (by decide +kernel)

open Sample in
/-- With `ksize = 3` the nodes that node 5 names push node 4 out of the heap.  If node 4 is
processed before node 5 it is sent the copy, being the closest peer without the value;
otherwise node 5 is.  And of two values received once each the order of the counts decides. -/
theorem order_decides :
    (crowded.AnswersBy crowdedPeer ∧ crowdedBack.AnswersBy crowdedPeer ∧
      Set.InjOn idToU128 (learnedIds [crawlNode 4, crawlNode 5, crawlNode 6] [crowdedRound] :
        Set NodeId) ∧
      ValueSpiderCrawl.find .plain crowded 1 (crowdedStart 3) =
        some ⟨some soughtValue, [], some (crawlNode 4), [crowdedRound]⟩ ∧
      (ValueSpiderCrawl.find .plain crowdedBack 1 (crowdedStart 3)).map
        (fun o => (o.value, o.cachedAt)) = some (some soughtValue, some (crawlNode 5))) ∧
    undecided.AnswersBy undecidedPeer ∧ (undecided.preferring [4]).AnswersBy undecidedPeer ∧
      (ValueSpiderCrawl.find .plain undecided 1 undecidedStart).map ValueOutcome.value =
        some (some [5]) ∧
      (ValueSpiderCrawl.find .plain (undecided.preferring [4]) 1 undecidedStart).map
        ValueOutcome.value = some (some [4]) := by
  refine ⟨⟨fun _ _ => rfl, fun _ _ => rfl, crowded_noCollision, ?_, ?_⟩, fun _ _ => rfl,
    fun _ _ => rfl, ?_, ?_⟩ <;> decide +kernel

open Sample in
/-- With `ksize = 6` all fit, and node 4 is sent the copy in the other order as well. -/
theorem crowded_orderFree :
    ∃ fuel o, ValueSpiderCrawl.find .plain crowdedBack fuel (crowdedStart 6) = some o ∧
      o.value = some soughtValue ∧ o.cachedAt.map Node.id = some (crawlNode 4).id := by
  obtain ⟨fuel, o, hfind, hiff⟩ := ValueSpiderCrawl.find_order_iff crowdedPeer (crawlNode 0)
    [crawlNode 4, crawlNode 5, crawlNode 6] 6 3 .plain crowded (fun _ _ => rfl)
  have hsmall : ValueSpiderCrawl.find .plain crowded 1 (crowdedStart 6) =
      some ⟨some soughtValue, [], some (crawlNode 4), [crowdedRound]⟩ := by
    decide +kernel
  obtain rfl := ValueSpiderCrawl.find_unique hfind hsmall
  have hfree : OrderFree (crawlNode 0) 6 [crawlNode 4, crawlNode 5, crawlNode 6]
      [crowdedRound] := by
    have hvalues : firstValues [crowdedRound] = [soughtValue] := by decide +kernel
    constructor
    · intro v w hv hw
      rw [hvalues] at hv hw
      exact (List.mem_singleton.mp hv.1).trans (List.mem_singleton.mp hw.1).symm
    · intro _
      decide +kernel
  obtain ⟨o', hfind', hvalue, hcached⟩ :=
    (hiff crowded_noCollision).mpr hfree .plain crowdedBack fun _ _ => rfl
  exact ⟨fuel, o', hfind', hvalue, hcached⟩

end AuthKademlia
