import AuthKademlia.Lib.TwoSided
import AuthKademlia.RoutingInvariant

/-!
# What `find_neighbors` returns

The traverser behind `find_neighbors` looks at the bucket of the target first and then at
the others, alternating between the two sides, and takes each bucket's contacts from the
newest to the oldest.  `RoutingTable.visitOrder` is that order of buckets, and the answer
is the first `ksize` candidates in it, sorted (`findNeighbors_perm`).  Every bucket is
visited exactly once, so the answer is as long as it can be.

It need not consist of the closest contacts.  The buckets on the right are visited from
the near end, those on the left from the far end, and neither side follows the XOR
distance: what the answer is depends on where in the order the quota of `ksize` is met.
Since buckets are dyadic blocks, of two of them one is nearer to the target as a whole,
which turns the question into one about the positions of the buckets.

## Main definitions

* `RoutingTable.visitOrder` — the order in which buckets are visited.
* `RoutingTable.IsCandidate` — the contacts that may be returned.
* `RoutingTable.NearFirst` — the quota is met before anything nearer is left out.
-/

namespace AuthKademlia

open Lib

/-! ## The traversal -/

namespace TableTraverser

/-- The buckets still to be visited, in order. -/
def bucketOrder (tr : TableTraverser) : List KBucket :=
  if tr.takeLeft then alternate tr.leftBuckets.reverse tr.rightBuckets.reverse
  else alternate tr.rightBuckets.reverse tr.leftBuckets.reverse

/-- The contacts still to come, in order. -/
def contents (tr : TableTraverser) : List Node :=
  tr.currentNodes.reverse ++ tr.bucketOrder.flatMap fun b => b.nodes.reverse

theorem bucketOrder_perm (tr : TableTraverser) :
    tr.bucketOrder.Perm (tr.leftBuckets ++ tr.rightBuckets) := by
  have hsides : (tr.leftBuckets.reverse ++ tr.rightBuckets.reverse).Perm
      (tr.leftBuckets ++ tr.rightBuckets) :=
    (List.reverse_perm _).append (List.reverse_perm _)
  unfold bucketOrder
  split
  · exact (alternate_perm _ _).trans hsides
  · exact ((alternate_perm _ _).trans List.perm_append_comm).trans hsides

/-- The table traverser is a two-sided traversal: of buckets, or of anything that stands for
buckets. -/
def ofTwoSided {α β : Type} (bucket : β → KBucket) (contact : α → Node) (s : TwoSided α β) :
    TableTraverser :=
  ⟨s.current.map contact, s.left.map bucket, s.right.map bucket, s.takeLeft⟩

section TwoSided

variable {α β : Type} {items : β → List α} {bucket : β → KBucket} {contact : α → Node}

theorem advance_ofTwoSided (hitems : ∀ b, (bucket b).nodes = (items b).map contact)
    (s : TwoSided α β) :
    (ofTwoSided bucket contact s).advance = (s.advance items).map (ofTwoSided bucket contact) := by
  rcases s with ⟨current, left, right, takeLeft⟩
  rcases left.eq_nil_or_concat with rfl | ⟨left, a, rfl⟩ <;>
    rcases right.eq_nil_or_concat with rfl | ⟨right, b, rfl⟩ <;>
    cases takeLeft <;> simp [advance, TwoSided.advance, ofTwoSided, hitems]

theorem nextWithin_ofTwoSided (hitems : ∀ b, (bucket b).nodes = (items b).map contact)
    (fuel : ℕ) (s : TwoSided α β) :
    nextWithin fuel (ofTwoSided bucket contact s) =
      (s.nextWithin items fuel).map (Prod.map contact (ofTwoSided bucket contact)) := by
  induction fuel generalizing s with
  | zero =>
      rcases s.current.eq_nil_or_concat with hcur | ⟨rest, last, hcur⟩ <;>
        simp [nextWithin, TwoSided.nextWithin, ofTwoSided, hcur]
  | succ fuel ih =>
      rcases s.current.eq_nil_or_concat with hcur | ⟨rest, last, hcur⟩
      · have hcur' : (ofTwoSided bucket contact s).currentNodes = [] := by simp [ofTwoSided, hcur]
        rw [TwoSided.nextWithin_of_nil hcur, nextWithin, hcur', List.getLast?_nil]
        simp only [advance_ofTwoSided hitems, Option.bind_map, Option.map_bind]
        congr 1
        funext s'
        exact ih s'
      · simp [nextWithin, TwoSided.nextWithin, ofTwoSided, hcur]

theorem next_ofTwoSided (hitems : ∀ b, (bucket b).nodes = (items b).map contact)
    (s : TwoSided α β) :
    (ofTwoSided bucket contact s).next =
      (s.next items).map (Prod.map contact (ofTwoSided bucket contact)) := by
  simp only [next, TwoSided.next, ← nextWithin_ofTwoSided hitems]
  simp [ofTwoSided]

end TwoSided

/-- **The traversal visits everything once**, in the order of `contents`. -/
theorem yields_contents (tr : TableTraverser) : Yields next tr tr.contents := by
  have hyields := (TwoSided.yields_contents KBucket.nodes ⟨tr.currentNodes, tr.leftBuckets,
    tr.rightBuckets, tr.takeLeft⟩).map (@next_ofTwoSided Node KBucket KBucket.nodes id id (by simp))
  simpa [ofTwoSided, contents, TwoSided.contents, bucketOrder, TwoSided.groupOrder] using hyields

theorem length_contents (tr : TableTraverser) : tr.contents.length = tr.remaining := by
  have hperm := (tr.bucketOrder_perm.flatMap_right fun b => b.nodes.reverse).length_eq
  simp only [contents, remaining, List.length_append, List.length_reverse, hperm]
  simp [List.length_flatMap]

end TableTraverser

/-! ## What is collected -/

/-- The contacts `find_neighbors` may return: neither the target nor the excluded node. -/
def IsCandidate (target : Node) (exclude : Option Node) (n : Node) : Prop :=
  n.id ≠ target.id ∧ ∀ ex ∈ exclude, n.id ≠ ex.id

instance decidableIsCandidate (target : Node) (exclude : Option Node) :
    DecidablePred (IsCandidate target exclude) := fun _ =>
  inferInstanceAs (Decidable (_ ∧ _))

namespace RoutingTable

variable {t : RoutingTable} {target : Node} {exclude : Option Node}

/-- The buckets in the order in which `find_neighbors` looks at them: the one of the
target, then those before and after it in turn, each side in list order.  So the right
side is visited from the near end and the left side from the far end. -/
def visitOrder (t : RoutingTable) (target : Node) : List KBucket :=
  let idx := t.bucketIndexFor target.longId
  (t.buckets[idx]?).toList ++ alternate (t.buckets.take idx) (t.buckets.drop (idx + 1))

theorem visitOrder_eq {pre post : List KBucket} {b : KBucket} (hb : t.buckets = pre ++ b :: post)
    (hpre : ∀ c ∈ pre, c.covers target.longId = false) (hcov : b.covers target.longId = true) :
    t.visitOrder target = b :: alternate pre post := by
  have hdrop : pre.drop (pre.length + 1) = [] := List.drop_eq_nil_of_le (Nat.le_succ _)
  simp [visitOrder, bucketIndexFor_eq hb hpre hcov, hb, List.drop_append, hdrop]

/-- Every bucket is visited exactly once. -/
theorem Invariant.visitOrder_perm (h : t.Invariant) (target : Node) :
    (t.visitOrder target).Perm t.buckets := by
  rcases h.locate target.longId_lt with ⟨pre, b, post, hb, hcov, hpre⟩
  rw [visitOrder_eq hb hpre hcov, hb]
  exact ((alternate_perm pre post).cons b).trans List.perm_middle.symm

/-- The candidates of some buckets, each bucket from its newest contact to its oldest. -/
def candidates (target : Node) (exclude : Option Node) (bs : List KBucket) : List Node :=
  (bs.flatMap fun b => b.nodes.reverse).filter fun n => IsCandidate target exclude n

theorem contents_traverser (t : RoutingTable) (target : Node) :
    (t.traverser target).contents = (t.visitOrder target).flatMap fun b => b.nodes.reverse := by
  simp only [traverser, TableTraverser.contents, TableTraverser.bucketOrder, visitOrder]
  cases t.buckets[t.bucketIndexFor target.longId]? <;> simp

/-- The collecting loop takes candidates until there are `ksize`. -/
theorem collectNeighbors_eq {ksize fuel : ℕ} {tr : TableTraverser} {l : List Node}
    {acc : List (ℕ × Node)} (hl : Yields TableTraverser.next tr l) (hfuel : l.length ≤ fuel)
    (hacc : acc.length < ksize) :
    collectNeighbors ksize target exclude fuel tr acc =
      acc ++ ((l.filter fun n => IsCandidate target exclude n).take (ksize - acc.length)).map
        fun n => (n.distanceTo target, n) := by
  induction fuel generalizing tr l acc with
  | zero =>
      have : l = [] := List.eq_nil_of_length_eq_zero (by omega)
      simp [collectNeighbors, this]
  | succ fuel ih =>
      cases hl with
      | nil hend => simp [collectNeighbors, hend]
      | @cons _ tr' n l hnext hrest =>
          simp only [List.length_cons, Nat.add_le_add_iff_right] at hfuel
          have hskip : (n.id = target.id ∨ (exclude.any fun ex => n.id == ex.id) = true) ↔
              ¬ IsCandidate target exclude n := by
            cases exclude <;> simp [IsCandidate, ← or_iff_not_imp_left]
          simp only [collectNeighbors, hnext, hskip]
          by_cases hn : IsCandidate target exclude n
          · have hlen : (acc ++ [(n.distanceTo target, n)]).length = acc.length + 1 := by simp
            have htake : ksize - acc.length = ksize - (acc.length + 1) + 1 := by omega
            simp only [hn, not_true_eq_false, if_false, hlen, htake, decide_true,
              List.filter_cons_of_pos, List.take_succ_cons, List.map_cons]
            split
            · next hfull => simp [hfull]
            · rw [ih hrest hfuel (by omega), hlen, List.append_assoc]
              rfl
          · simp only [hn, not_false_eq_true, if_true, decide_false, Bool.false_eq_true,
              List.filter_cons_of_neg]
            exact ih hrest hfuel hacc

/-- **The answer of `find_neighbors`**: the first `ksize` candidates in the order of
visits, sorted. -/
theorem findNeighbors_eq (hk : 1 ≤ t.ksize) (now : ℕ) (target : Node) (exclude : Option Node) :
    (t.findNeighbors now target exclude).1 =
      ((candidates target exclude (t.visitOrder target)).take t.ksize).insertionSort
        fun m n => m.distanceTo target ≤ n.distanceTo target := by
  have hfound := @collectNeighbors_eq target exclude t.ksize (t.traverser target).remaining _ _ []
    (t.traverser target).yields_contents (le_of_eq (TableTraverser.length_contents _)) hk
  simp only [findNeighbors, hfound, contents_traverser, List.nil_append, sortByDistance]
  -- the recorded distances order the pairs as the distances order the contacts
  rw [List.map_insertionSort _ (fun m n => m.distanceTo target ≤ n.distanceTo target)]
  · simp [candidates, Function.comp_def]
  · simp only [List.forall_mem_map, implies_true]

theorem findNeighbors_perm (hk : 1 ≤ t.ksize) (now : ℕ) (target : Node) (exclude : Option Node) :
    (t.findNeighbors now target exclude).1.Perm
      ((candidates target exclude (t.visitOrder target)).take t.ksize) := by
  rw [findNeighbors_eq hk]
  exact List.perm_insertionSort _ _

theorem findNeighbors_sorted (hk : 1 ≤ t.ksize) (now : ℕ) (target : Node)
    (exclude : Option Node) :
    (t.findNeighbors now target exclude).1.Pairwise
      fun m n => m.distanceTo target ≤ n.distanceTo target := by
  rw [findNeighbors_eq hk]
  exact List.pairwise_insertionSort _ _

theorem mem_candidates {bs : List KBucket} {n : Node} :
    n ∈ candidates target exclude bs ↔ (∃ b ∈ bs, n ∈ b.nodes) ∧ IsCandidate target exclude n := by
  simp [candidates]

/-- The candidates met on the way are those of the whole table. -/
theorem Invariant.candidates_perm (h : t.Invariant) (target : Node) (exclude : Option Node) :
    (candidates target exclude (t.visitOrder target)).Perm
      (t.primaries.filter fun n => IsCandidate target exclude n) :=
  ((h.visitOrder_perm target).flatMap fun b _ => b.nodes.reverse_perm).filter _

theorem Invariant.nodup_candidates (h : t.Invariant) (target : Node) (exclude : Option Node) :
    ((candidates target exclude (t.visitOrder target)).map Node.id).Nodup := by
  rw [((h.candidates_perm target exclude).map Node.id).nodup_iff]
  exact h.nodup_primaries.sublist (List.filter_sublist.map Node.id)

/-- **`find_neighbors` loses and duplicates nothing.**  In every reachable table the
answer consists of distinct primary contacts other than the target and the excluded node,
in ascending distance, and it is as long as `ksize` and the table allow. -/
theorem findNeighbors_complete (localNode : Node) (ksize start : ℕ) (hk : 1 ≤ ksize)
    (ops : List RoutingOp) (t : RoutingTable)
    (hrun : exec step (new localNode ksize start) ops = some t) (now : ℕ) (target : Node)
    (exclude : Option Node) :
    let found := (t.findNeighbors now target exclude).1
    (found.map Node.id).Nodup ∧
      (∀ n ∈ found, n ∈ t.primaries ∧ n.id ≠ target.id ∧ ∀ ex ∈ exclude, n.id ≠ ex.id) ∧
      found.Pairwise (fun m n => m.distanceTo target ≤ n.distanceTo target) ∧
      found.length = min ksize
        (t.primaries.countP fun n => n.id ≠ target.id ∧ ∀ ex ∈ exclude, n.id ≠ ex.id) := by
  intro found
  rcases Invariant.exec hrun with ⟨h, rfl, rfl⟩
  have hperm := findNeighbors_perm hk now target exclude
  have hall := h.candidates_perm target exclude
  refine ⟨?_, ?_, findNeighbors_sorted hk now target exclude, ?_⟩
  · rw [(hperm.map Node.id).nodup_iff, List.map_take]
    exact (h.nodup_candidates target exclude).sublist (List.take_sublist _ _)
  · intro n hn
    have hmem := List.mem_of_mem_take (hperm.mem_iff.mp hn)
    have hprimary := List.mem_filter.mp (hall.mem_iff.mp hmem)
    exact ⟨hprimary.1, of_decide_eq_true hprimary.2⟩
  · rw [hperm.length_eq, List.length_take, hall.length_eq, ← List.countP_eq_length_filter]
    rfl

theorem findNeighbors_threeBuckets :
    ((threeBuckets.findNeighbors 0 (nodeAt 0xc0) (some (nodeAt 0x01))).1.map Node.id).Nodup ∧
      (threeBuckets.findNeighbors 0 (nodeAt 0xc0) (some (nodeAt 0x01))).1.length = 1 := by
  have hall := findNeighbors_complete _ 1 0 le_rfl _ _ exec_threeContacts 0 (nodeAt 0xc0)
    (some (nodeAt 0x01))
  refine ⟨hall.1, hall.2.2.2.trans ?_⟩
  decide +kernel

/-! ## The bucket of the target -/

section OwnBucket

variable {b c : KBucket} {m n : Node}

/-- Buckets at different positions are disjoint. -/
theorem Invariant.disjoint_of_ne (h : t.Invariant) {i j : ℕ} (hb : t.buckets[i]? = some b)
    (hc : t.buckets[j]? = some c) (hij : i ≠ j) : b.hi < c.lo ∨ c.hi < b.lo := by
  have hpair := List.pairwise_iff_getElem.mp h.pairwise_disjoint
  rcases List.getElem?_eq_some_iff.mp hb with ⟨hi, rfl⟩
  rcases List.getElem?_eq_some_iff.mp hc with ⟨hj, rfl⟩
  rcases Nat.lt_or_gt_of_ne hij with hlt | hgt
  · exact .inl (hpair i j hi hj hlt)
  · exact .inr (hpair j i hj hi hgt)

/-- **The bucket of a point is nearer to it than any other.** -/
theorem Invariant.xor_lt_of_covers (h : t.Invariant) {i j x : ℕ} (hb : t.buckets[i]? = some b)
    (hc : t.buckets[j]? = some c) (hij : i ≠ j) (hx : b.covers x = true) (hm : m ∈ b.contacts)
    (hn : n ∈ c.contacts) : m.longId ^^^ x < n.longId ^^^ x := by
  have hokb := h.bucketOk b (List.mem_of_getElem? hb)
  have hokc := h.bucketOk c (List.mem_of_getElem? hc)
  exact hokb.dyadic.xor_lt_xor_of_mem hokc.dyadic (h.disjoint_of_ne hb hc hij)
    (KBucket.covers_iff.mp hx) (hokb.valid.in_range m hm) (hokc.valid.in_range n hn)

/-- `find_neighbors` collects all candidates of the bucket of the target. -/
theorem Invariant.mem_findNeighbors (h : t.Invariant) (hk : 1 ≤ t.ksize) (now : ℕ)
    (hb : b ∈ t.buckets) (hcov : b.covers target.longId = true) (hm : m ∈ b.nodes)
    (hcand : IsCandidate target exclude m) : m ∈ (t.findNeighbors now target exclude).1 := by
  rcases h.locate target.longId_lt with ⟨pre, b', post, hb', hcov', hpre⟩
  obtain rfl : b = b' := by
    rw [hb', List.mem_append, List.mem_cons] at hb
    have hother := h.not_covers_beside hb' hcov' b
    simp only [List.mem_append, hcov] at hother
    tauto
  rw [(findNeighbors_perm hk now target exclude).mem_iff, visitOrder_eq hb' hpre hcov']
  -- the candidates of the bucket come first, and there are at most `ksize` of them
  have hlen : (candidates target exclude [b]).length ≤ t.ksize := by
    have hnodes := (h.bucketOk b hb).valid.nodes_le
    rw [(h.bucketOk b hb).ksize_eq] at hnodes
    refine (List.length_filter_le _ _).trans ?_
    simpa using hnodes
  have hsplit : candidates target exclude (b :: alternate pre post) =
      candidates target exclude [b] ++ candidates target exclude (alternate pre post) := by
    simp [candidates]
  rw [hsplit, List.take_append, List.take_of_length_le hlen]
  exact List.mem_append_left _ (mem_candidates.mpr ⟨⟨b, by simp, hm⟩, hcand⟩)

/-- **The target's own bucket holds its nearest contacts.**  In a reachable table every
contact of the bucket that covers a position is nearer to the position than any contact of
another bucket.  So `find_neighbors` lists all eligible contacts of the bucket of the
target, and no contact of another bucket stands before one of them. -/
theorem ownBucket_nearest (localNode : Node) (ksize start : ℕ) (ops : List RoutingOp)
    (t : RoutingTable) (hrun : exec step (new localNode ksize start) ops = some t) :
    (∀ x < 2 ^ 128, ∀ (i j : ℕ) (b c : KBucket), t.buckets[i]? = some b →
      t.buckets[j]? = some c → i ≠ j → b.covers x = true →
        ∀ m ∈ b.contacts, ∀ n ∈ c.contacts, m.longId ^^^ x < n.longId ^^^ x) ∧
    (1 ≤ ksize → ∀ (now : ℕ) (target : Node) (exclude : Option Node),
      ∀ b ∈ t.buckets, b.covers target.longId = true →
        (∀ m ∈ b.nodes, m.id ≠ target.id → (∀ ex ∈ exclude, m.id ≠ ex.id) →
          m ∈ (t.findNeighbors now target exclude).1) ∧
        (t.findNeighbors now target exclude).1.Pairwise fun m n =>
          n ∈ b.nodes → m ∈ b.nodes) := by
  rcases Invariant.exec hrun with ⟨h, rfl, rfl⟩
  refine ⟨?_, ?_⟩
  · intro x _ i j b c hb hc hij hx m hm n hn
    exact h.xor_lt_of_covers hb hc hij hx hm hn
  · intro hk now target exclude b hb hcov
    refine ⟨?_, ?_⟩
    · intro m hm htarget hex
      exact h.mem_findNeighbors hk now hb hcov hm ⟨htarget, hex⟩
    · refine (findNeighbors_sorted hk now target exclude).imp_of_mem ?_
      intro m n hm _ hle hn
      by_contra hnot
      -- then `m` is of another bucket, and farther than `n`
      have hmem := List.mem_of_mem_take ((findNeighbors_perm hk now target exclude).mem_iff.mp hm)
      rcases mem_candidates.mp hmem with ⟨⟨c, hc, hmc⟩, -⟩
      rcases List.mem_iff_getElem?.mp hb with ⟨i, hi⟩
      rcases List.mem_iff_getElem?.mp ((h.visitOrder_perm target).mem_iff.mp hc) with ⟨j, hj⟩
      have hij : i ≠ j := by
        rintro rfl
        exact hnot (Option.some.inj (hi.symm.trans hj) ▸ hmc)
      exact absurd (h.xor_lt_of_covers hi hj hij hcov (List.mem_append_left _ hn)
        (List.mem_append_left _ hmc)) (Nat.not_lt_of_le hle)

/-- Seen from `0xd0`, the contact `0xc0` of its bucket is nearer than `0x80`, and it is found. -/
theorem ownBucket_threeBuckets :
    (nodeAt 0xc0).longId ^^^ (nodeAt 0xd0).longId < (nodeAt 0x80).longId ^^^ (nodeAt 0xd0).longId ∧
      nodeAt 0xc0 ∈ (threeBuckets.findNeighbors 0 (nodeAt 0xd0) none).1 := by
  have hb : threeBuckets.buckets[2]?.any (fun b => b.covers (nodeAt 0xd0).longId &&
      decide (nodeAt 0xc0 ∈ b.nodes)) = true := by decide +kernel
  have hc : threeBuckets.buckets[1]?.any (fun c => decide (nodeAt 0x80 ∈ c.nodes)) = true := by
    decide +kernel
  simp only [Option.any_eq_true, Bool.and_eq_true, decide_eq_true_eq] at hb hc
  rcases hb with ⟨b, hb, hcov, hm⟩
  rcases hc with ⟨c, hc, hn⟩
  have hall := ownBucket_nearest _ 1 0 _ _ exec_threeContacts
  refine ⟨hall.1 _ (Node.longId_lt _) 2 1 b c hb hc (by decide) hcov _
    (List.mem_append_left _ hm) _ (List.mem_append_left _ hn), ?_⟩
  exact (hall.2 le_rfl 0 (nodeAt 0xd0) none b (List.mem_of_getElem? hb) hcov).1 _ hm
    (by decide +kernel) (by simp)

end OwnBucket

/-! ## Are they the closest? -/

section Nearest

/-- The range of `b` is nearer to the target than that of `c`. -/
def IsNearer (target : Node) (b c : KBucket) : Prop :=
  b.lo ^^^ target.longId < c.lo ^^^ target.longId

/-- The quota of `ksize` candidates is met in `b`, after the buckets `seen` and before the
buckets `rest`, and nothing nearer is left out. -/
structure CutsNearFirst (ksize : ℕ) (target : Node) (exclude : Option Node)
    (seen : List KBucket) (b : KBucket) (rest : List KBucket) : Prop where
  /-- The buckets looked at are nearer than the others. -/
  rest_farther : ∀ c ∈ seen ++ [b], candidates target exclude [c] ≠ [] →
    ∀ u ∈ rest, candidates target exclude [u] ≠ [] → IsNearer target c u
  /-- If not all candidates of `b` fit, the buckets before it are nearer. -/
  seen_nearer : ksize < (candidates target exclude (seen ++ [b])).length →
    ∀ c ∈ seen, candidates target exclude [c] ≠ [] → IsNearer target c b
  /-- Of the candidates of `b`, the newest that fit are the nearest. -/
  newest_nearest : let fit := ksize - (candidates target exclude seen).length
    ∀ m ∈ (candidates target exclude [b]).take fit, ∀ n ∈ (candidates target exclude [b]).drop fit,
      m.distanceTo target ≤ n.distanceTo target

/-- Wherever in the order of visits the quota is met, nothing nearer is left out. -/
def NearFirst (t : RoutingTable) (target : Node) (exclude : Option Node) : Prop :=
  ∀ seen b rest, t.visitOrder target = seen ++ b :: rest →
    (candidates target exclude seen).length < t.ksize →
    t.ksize ≤ (candidates target exclude (seen ++ [b])).length →
    CutsNearFirst t.ksize target exclude seen b rest

variable {seen rest : List KBucket} {b c : KBucket} {m n : Node}

theorem candidates_append (bs cs : List KBucket) :
    candidates target exclude (bs ++ cs) =
      candidates target exclude bs ++ candidates target exclude cs := by
  simp [candidates]

theorem candidates_ne_nil : candidates target exclude [b] ≠ [] ↔
    ∃ n, n ∈ candidates target exclude [b] := by
  rw [← List.isEmpty_eq_false_iff, List.isEmpty_eq_false_iff_exists_mem]

theorem exists_mem_of_mem_candidates {bs : List KBucket} (h : n ∈ candidates target exclude bs) :
    ∃ b ∈ bs, n ∈ candidates target exclude [b] := by
  rcases mem_candidates.mp h with ⟨⟨b, hb, hn⟩, hcand⟩
  exact ⟨b, hb, mem_candidates.mpr ⟨⟨b, List.mem_singleton_self b, hn⟩, hcand⟩⟩

theorem mem_candidates_of_mem {bs : List KBucket} (hb : b ∈ bs)
    (h : n ∈ candidates target exclude [b]) : n ∈ candidates target exclude bs := by
  rcases mem_candidates.mp h with ⟨⟨c, hc, hn⟩, hcand⟩
  exact mem_candidates.mpr ⟨⟨b, hb, List.mem_singleton.mp hc ▸ hn⟩, hcand⟩

/-- If there are enough candidates, the quota is met somewhere. -/
theorem exists_quota {ksize : ℕ} (hk : 1 ≤ ksize) {bs : List KBucket}
    (h : ksize ≤ (candidates target exclude bs).length) :
    ∃ seen b rest, bs = seen ++ b :: rest ∧ (candidates target exclude seen).length < ksize ∧
      ksize ≤ (candidates target exclude (seen ++ [b])).length := by
  induction bs using List.reverseRecOn with
  | nil => simp [candidates] at h; omega
  | append_singleton bs b ih =>
      by_cases hbs : ksize ≤ (candidates target exclude bs).length
      · rcases ih hbs with ⟨seen, c, rest, rfl, hseen, hc⟩
        exact ⟨seen, c, rest ++ [b], by simp, hseen, hc⟩
      · exact ⟨bs, b, [], rfl, by omega, h⟩

/-- Buckets at different places of the visit are disjoint. -/
theorem Invariant.visitOrder_disjoint (h : t.Invariant) (target : Node) :
    (t.visitOrder target).Pairwise fun b c => b.hi < c.lo ∨ c.hi < b.lo := by
  refine ((h.visitOrder_perm target).pairwise_iff ?_).mpr ?_
  · intro b c hbc
    exact hbc.symm
  · exact h.pairwise_disjoint.imp Or.inl

/-- **Contacts of different buckets** compare like their buckets. -/
theorem Invariant.distanceTo_le_iff (h : t.Invariant) (hb : b ∈ t.buckets) (hc : c ∈ t.buckets)
    (hdisjoint : b.hi < c.lo ∨ c.hi < b.lo) (hm : m ∈ candidates target exclude [b])
    (hn : n ∈ candidates target exclude [c]) :
    m.distanceTo target ≤ n.distanceTo target ↔ IsNearer target b c := by
  have hokb := h.bucketOk b hb
  have hokc := h.bucketOk c hc
  have hmem : m ∈ b.contacts := by
    have := (mem_candidates.mp hm).1
    simp at this
    simp [KBucket.contacts, this]
  have hmem' : n ∈ c.contacts := by
    have := (mem_candidates.mp hn).1
    simp at this
    simp [KBucket.contacts, this]
  have hm' := hokb.valid.in_range m hmem
  have hn' := hokc.valid.in_range n hmem'
  have hlt := @IsDyadic.xor_lt_xor_iff _ _ _ _ target.longId _ _ hokb.dyadic hokc.dyadic
    hdisjoint hm' hn'
  have hgt := @IsDyadic.xor_lt_xor_iff _ _ _ _ target.longId _ _ hokc.dyadic hokb.dyadic
    hdisjoint.symm hn' hm'
  have hne : b.lo ^^^ target.longId ≠ c.lo ^^^ target.longId := by
    intro heq
    have := Nat.xor_left_injective heq
    have := hokb.dyadic.le
    have := hokc.dyadic.le
    omega
  simp only [Node.distanceTo, IsNearer]
  omega

/-- What is taken and what is left out when the quota is met in `b`. -/
theorem take_drop_candidates {ksize : ℕ}
    (hseen : (candidates target exclude seen).length < ksize)
    (hmet : ksize ≤ (candidates target exclude (seen ++ [b])).length) :
    let fit := ksize - (candidates target exclude seen).length
    (candidates target exclude (seen ++ b :: rest)).take ksize =
        candidates target exclude seen ++ (candidates target exclude [b]).take fit ∧
      (candidates target exclude (seen ++ b :: rest)).drop ksize =
        (candidates target exclude [b]).drop fit ++ candidates target exclude rest := by
  intro fit
  have hsplit : candidates target exclude (seen ++ b :: rest) =
      candidates target exclude seen ++
        (candidates target exclude [b] ++ candidates target exclude rest) := by
    rw [← candidates_append, ← candidates_append, List.singleton_append]
  have hfit : fit ≤ (candidates target exclude [b]).length := by
    rw [candidates_append, List.length_append] at hmet
    omega
  rw [hsplit, List.take_append, List.drop_append, List.take_of_length_le hseen.le,
    List.drop_of_length_le hseen.le, List.take_append_of_le_length hfit,
    List.drop_append_of_le_length hfit]
  exact ⟨rfl, rfl⟩

/-- Contacts of buckets that are visited one before the other compare like the buckets. -/
theorem Invariant.visited_le_iff (h : t.Invariant) {front back : List KBucket}
    (horder : t.visitOrder target = front ++ back) (hb : b ∈ front) (hc : c ∈ back)
    (hm : m ∈ candidates target exclude [b]) (hn : n ∈ candidates target exclude [c]) :
    m.distanceTo target ≤ n.distanceTo target ↔ IsNearer target b c := by
  have hmem : ∀ u ∈ front ++ back, u ∈ t.buckets := by
    intro u hu
    exact (h.visitOrder_perm target).mem_iff.mp (horder ▸ hu)
  have hdisjoint := h.visitOrder_disjoint target
  rw [horder, List.pairwise_append] at hdisjoint
  exact h.distanceTo_le_iff (hmem b (by simp [hb])) (hmem c (by simp [hc]))
    (hdisjoint.2.2 b hb c hc) hm hn

/-- Of every bucket looked at that has candidates, one is taken. -/
theorem exists_taken {fit : ℕ} (hfit : fit ≠ 0) (hc : c ∈ seen ++ [b])
    (hne : candidates target exclude [c] ≠ []) :
    ∃ m ∈ candidates target exclude [c],
      m ∈ candidates target exclude seen ++ (candidates target exclude [b]).take fit := by
  rcases List.mem_append.mp hc with hc | hc
  · rcases candidates_ne_nil.mp hne with ⟨m, hm⟩
    exact ⟨m, hm, List.mem_append_left _ (mem_candidates_of_mem hc hm)⟩
  · rw [List.mem_singleton.mp hc] at hne ⊢
    have htake : (candidates target exclude [b]).take fit ≠ [] :=
      mt List.take_eq_nil_iff.mp (not_or.mpr ⟨hfit, hne⟩)
    rcases List.exists_mem_of_ne_nil _ htake with ⟨m, hm⟩
    exact ⟨m, List.mem_of_mem_take hm, List.mem_append_right _ hm⟩

/-- What is taken is from a bucket looked at. -/
theorem bucket_of_taken {fit : ℕ}
    (hm : m ∈ candidates target exclude seen ++ (candidates target exclude [b]).take fit) :
    ∃ c ∈ seen ++ [b], m ∈ candidates target exclude [c] := by
  rcases List.mem_append.mp hm with hm | hm
  · rcases exists_mem_of_mem_candidates hm with ⟨c, hc, hm⟩
    exact ⟨c, List.mem_append_left _ hc, hm⟩
  · exact ⟨b, by simp, List.mem_of_mem_take hm⟩

/-- Some candidates of `b` are left out exactly if there are more than the quota. -/
theorem drop_fit_ne_nil_iff {ksize : ℕ} (hseen : (candidates target exclude seen).length < ksize) :
    (candidates target exclude [b]).drop (ksize - (candidates target exclude seen).length) ≠ [] ↔
      ksize < (candidates target exclude (seen ++ [b])).length := by
  rw [Ne, List.drop_eq_nil_iff, candidates_append, List.length_append]
  omega

/-- **One cut.**  Where the quota is met in `b`, the candidates taken are no farther than
those left out exactly if nothing nearer is left out. -/
theorem Invariant.cutsNearFirst_iff (h : t.Invariant)
    (horder : t.visitOrder target = seen ++ b :: rest)
    (hseen : (candidates target exclude seen).length < t.ksize)
    (hmet : t.ksize ≤ (candidates target exclude (seen ++ [b])).length) :
    (∀ m ∈ (candidates target exclude (t.visitOrder target)).take t.ksize,
      ∀ n ∈ (candidates target exclude (t.visitOrder target)).drop t.ksize,
        m.distanceTo target ≤ n.distanceTo target) ↔
      CutsNearFirst t.ksize target exclude seen b rest := by
  have horder' : t.visitOrder target = (seen ++ [b]) ++ rest := by simp [horder]
  have hfit : t.ksize - (candidates target exclude seen).length ≠ 0 := by omega
  rcases @take_drop_candidates target exclude seen rest b _ hseen hmet with ⟨htake, hdrop⟩
  have hsplit : candidates target exclude (t.visitOrder target) =
      candidates target exclude (seen ++ b :: rest) := by rw [horder]
  rw [hsplit, htake, hdrop]
  constructor
  · intro hall
    refine ⟨?_, ?_, ?_⟩
    · intro c hc hne u hu hne'
      rcases exists_taken hfit hc hne with ⟨m, hm, htaken⟩
      rcases candidates_ne_nil.mp hne' with ⟨n, hn⟩
      exact (h.visited_le_iff horder' hc hu hm hn).mp
        (hall m htaken n (List.mem_append_right _ (mem_candidates_of_mem hu hn)))
    · intro hover c hc hne
      rcases candidates_ne_nil.mp hne with ⟨m, hm⟩
      rcases List.exists_mem_of_ne_nil _ ((drop_fit_ne_nil_iff hseen).mpr hover) with ⟨n, hn⟩
      exact (h.visited_le_iff horder hc (by simp) hm (List.mem_of_mem_drop hn)).mp
        (hall m (List.mem_append_left _ (mem_candidates_of_mem hc hm)) n
          (List.mem_append_left _ hn))
    · intro fit m hm n hn
      exact hall m (List.mem_append_right _ hm) n (List.mem_append_left _ hn)
  · intro hcut m hm n hn
    rcases List.mem_append.mp hn with hn | hn
    · rcases List.mem_append.mp hm with hm | hm
      · rcases exists_mem_of_mem_candidates hm with ⟨c, hc, hm⟩
        have hover := (drop_fit_ne_nil_iff hseen).mp (List.ne_nil_of_mem hn)
        exact (h.visited_le_iff horder hc (by simp) hm (List.mem_of_mem_drop hn)).mpr
          (hcut.seen_nearer hover c hc (List.ne_nil_of_mem hm))
      · exact hcut.newest_nearest m hm n hn
    · rcases bucket_of_taken hm with ⟨c, hc, hm⟩
      rcases exists_mem_of_mem_candidates hn with ⟨u, hu, hn⟩
      exact (h.visited_le_iff horder' hc hu hm hn).mpr
        (hcut.rest_farther c hc (List.ne_nil_of_mem hm) u hu (List.ne_nil_of_mem hn))

/-- The same for the whole table: if the quota is met nowhere, nothing is left out. -/
theorem Invariant.nearFirst_iff (h : t.Invariant) (hk : 1 ≤ t.ksize) :
    (∀ m ∈ (candidates target exclude (t.visitOrder target)).take t.ksize,
      ∀ n ∈ (candidates target exclude (t.visitOrder target)).drop t.ksize,
        m.distanceTo target ≤ n.distanceTo target) ↔ t.NearFirst target exclude := by
  constructor
  · intro hall seen b rest horder hseen hmet
    exact (h.cutsNearFirst_iff horder hseen hmet).mp hall
  · intro hnear m hm n hn
    have hlen := List.length_pos_of_mem hn
    rw [List.length_drop] at hlen
    rcases @exists_quota target exclude _ hk _ (Nat.le_of_lt (Nat.lt_of_sub_pos hlen)) with
      ⟨seen, b, rest, horder, hseen, hmet⟩
    have hcuts := (h.cutsNearFirst_iff horder hseen hmet).mpr (hnear seen b rest horder hseen hmet)
    exact hcuts m hm n hn

/-- **When `find_neighbors` returns the closest contacts.**  In a reachable table no
candidate that is missing from the answer is closer to the target than one in it, if and
only if nothing nearer is left out where the quota is met. -/
theorem findNeighbors_closest_iff (localNode : Node) (ksize start : ℕ) (hk : 1 ≤ ksize)
    (ops : List RoutingOp) (t : RoutingTable)
    (hrun : exec step (new localNode ksize start) ops = some t) (now : ℕ) (target : Node)
    (exclude : Option Node) :
    (∀ n ∈ t.primaries, n.id ≠ target.id → (∀ ex ∈ exclude, n.id ≠ ex.id) →
      n ∉ (t.findNeighbors now target exclude).1 →
      ∀ m ∈ (t.findNeighbors now target exclude).1,
        ¬ n.distanceTo target < m.distanceTo target) ↔ t.NearFirst target exclude := by
  rcases Invariant.exec hrun with ⟨h, rfl, rfl⟩
  rw [← h.nearFirst_iff hk]
  have hperm := findNeighbors_perm hk now target exclude
  have hall := h.candidates_perm target exclude
  have hnodup := (h.nodup_candidates target exclude).of_map
  rw [← List.take_append_drop t.ksize (candidates target exclude (t.visitOrder target)),
    List.nodup_append] at hnodup
  constructor
  · intro hclosest m hm n hn
    rcases List.mem_filter.mp (hall.mem_iff.mp (List.mem_of_mem_drop hn)) with ⟨hprim, hcand⟩
    rcases of_decide_eq_true hcand with ⟨htarget, hex⟩
    refine Nat.le_of_not_lt (hclosest n hprim htarget hex ?_ m (hperm.mem_iff.mpr hm))
    intro hfound
    exact hnodup.2.2 n (hperm.mem_iff.mp hfound) n hn rfl
  · intro hle n hprim htarget hex hmiss m hm
    have hmem : n ∈ candidates target exclude (t.visitOrder target) :=
      hall.mem_iff.mpr (List.mem_filter.mpr ⟨hprim, decide_eq_true ⟨htarget, hex⟩⟩)
    rw [← List.take_append_drop t.ksize (candidates target exclude (t.visitOrder target))] at hmem
    rcases List.mem_append.mp hmem with hmem | hmem
    · exact absurd (hperm.mem_iff.mpr hmem) hmiss
    · exact Nat.not_lt_of_le (hle m (hperm.mem_iff.mp hm) n hmem)

/-- Both sides occur: around the first contact the answer is the closest one, around the
last one it is not. -/
theorem nearFirst_threeBuckets :
    threeBuckets.NearFirst (nodeAt 0x02) none ∧ ¬ threeBuckets.NearFirst (nodeAt 0xc0) none := by
  constructor
  · refine (findNeighbors_closest_iff _ 1 0 le_rfl _ _ exec_threeContacts 0 _ none).mp ?_
    decide +kernel
  · intro hnear
    have hclosest := (findNeighbors_closest_iff _ 1 0 le_rfl _ _ exec_threeContacts 0 _ none).mpr
      hnear (nodeAt 0x80)
    revert hclosest
    decide +kernel

/-- **The farthest bucket comes first.**  Asked for a neighbour of `0xc0`, the table
answers `0x01`, the contact of the first bucket of its list, though `0x80` is closer. -/
theorem findNeighbors_not_closest :
    exec step (new (nodeAt 0xe0) 1 0) threeContacts = some threeBuckets ∧
      nodeAt 0x80 ∈ threeBuckets.primaries ∧
      (threeBuckets.findNeighbors 0 (nodeAt 0xc0) none).1 = [nodeAt 0x01] ∧
      (nodeAt 0x80).distanceTo (nodeAt 0xc0) < (nodeAt 0x01).distanceTo (nodeAt 0xc0) := by
  decide +kernel

end Nearest

end RoutingTable

end AuthKademlia
