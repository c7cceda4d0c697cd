import AuthKademlia.RoutingInvariant

/-!
# When insertion terminates

`insert` splits the bucket of the new node until it fits, and each split halves
the block of the key space the node is in.  The descent ends at the latest when
the block is a single point, but a point cannot be split any further: if more than
`ksize` contacts share the node's `long_id` and the split rule still applies, the
recursion goes on for ever.  Folding 20-byte ids into a `u128` makes such
collisions easy to build.

`InsertReturns` says that a call returns; `Crowded` is the condition on the table under
which it does not; `addContact_returns_iff` shows that the two exclude each other
and leave nothing out.

The descent is followed on buckets of the form `KBucket.loaded`, because that is
what a split leaves behind; `addNode_eq_loaded` is the first step, in which the node is
queued in the bucket it finds.

## Main definitions

* `RoutingTable.InsertReturns` — some recursion depth is enough.
* `RoutingTable.Crowded` — the collision that makes `add_contact` diverge.
-/

namespace AuthKademlia

open Lib

namespace RoutingTable

variable {t : RoutingTable} {pre post : List KBucket} {b : KBucket} {node : Node}

/-- `insert` returns: some bound on the number of nested calls is enough. -/
def InsertReturns (now : ℕ) (t : RoutingTable) (node : Node) : Prop :=
  ∃ fuel, (insert now fuel t node).isSome = true

/-- The contacts of `l` in the block of size `2 ^ j` around `x`. -/
def inBlock (j x : ℕ) (l : List Node) : List Node :=
  l.filter fun n => blockLo j x ≤ n.longId ∧ n.longId ≤ blockHi j x

/-- The split rule for the bucket that holds the contacts `l` of the block of size
`2 ^ j` around `x`. -/
def splitsBlock (t : RoutingTable) (l : List Node) (j x : ℕ) : Bool :=
  t.mustSplit (KBucket.loaded (blockLo j x) (blockHi j x) t.ksize 0 (inBlock j x l))

/-! ## Contacts by block -/

theorem inBlock_inBlock {i j : ℕ} (h : i ≤ j) (x : ℕ) (l : List Node) :
    inBlock i x (inBlock j x l) = inBlock i x l := by
  simp only [inBlock, List.filter_filter]
  apply List.filter_congr
  intro n _
  have := block_mono h x
  simp only [← Bool.decide_and, decide_eq_decide]
  omega

theorem inBlock_eq_self {j x : ℕ} {l : List Node}
    (h : ∀ n ∈ l, blockLo j x ≤ n.longId ∧ n.longId ≤ blockHi j x) : inBlock j x l = l :=
  List.filter_eq_self.mpr fun n hn => by simpa using h n hn

theorem inBlock_concat {j : ℕ} {l : List Node} :
    inBlock j node.longId (l ++ [node]) = inBlock j node.longId l ++ [node] := by
  have h1 := blockLo_le j node.longId
  have h2 := le_blockHi j node.longId
  simp [inBlock, List.filter_append, h1, h2]

/-- Halving the block around `x` keeps exactly the contacts of the half with `x`. -/
theorem filter_half {j x : ℕ} {l : List Node}
    (h : ∀ n ∈ l, blockLo (j + 1) x ≤ n.longId ∧ n.longId ≤ blockHi (j + 1) x) {mid : ℕ}
    (hmid : mid = blockLo (j + 1) x + (blockHi (j + 1) x - blockLo (j + 1) x) / 2) :
    (x ≤ mid → (l.filter fun n => n.longId ≤ mid) = inBlock j x l) ∧
      (mid < x → (l.filter fun n => mid < n.longId) = inBlock j x l) := by
  obtain ⟨hlow, hhigh⟩ := block_half j x
  rw [← hmid] at hlow hhigh
  constructor
  · intro hx
    obtain ⟨h1, h2⟩ := hlow hx
    apply List.filter_congr
    intro n hn
    have := h n hn
    simp only [decide_eq_decide]
    omega
  · intro hx
    obtain ⟨h1, h2⟩ := hhigh hx
    apply List.filter_congr
    intro n hn
    have := h n hn
    simp only [decide_eq_decide]
    omega

/-! ## One level of the descent -/

/-- Whether a call returns, one unfolding at a time. -/
theorem insertReturns_iff (now : ℕ) (hb : t.buckets = pre ++ b :: post)
    (hpre : ∀ c ∈ pre, c.covers node.longId = false) (hcov : b.covers node.longId = true) :
    t.InsertReturns now node ↔
      (b.addNode node).1 = true ∨ t.mustSplit (b.addNode node).2 = false ∨
        ∃ halves, (b.addNode node).2.split now = some halves ∧
          InsertReturns now { t with buckets := pre ++ [halves.1, halves.2] ++ post } node := by
  constructor
  · rintro ⟨fuel, hfuel⟩
    cases fuel with
    | zero => simp [insert] at hfuel
    | succ fuel =>
        rw [insert_succ now fuel hb hpre hcov] at hfuel
        dsimp only at hfuel
        split at hfuel
        · next h => exact Or.inl h
        · split at hfuel
          · cases hsplit : (b.addNode node).2.split now with
            | none => simp [hsplit] at hfuel
            | some halves =>
                rw [hsplit, Option.bind_some] at hfuel
                exact Or.inr (Or.inr ⟨halves, rfl, fuel, hfuel⟩)
          · next h => exact Or.inr (Or.inl (by simpa using h))
  · intro h
    by_cases hadd : (b.addNode node).1 = true
    · refine ⟨1, ?_⟩
      rw [insert_succ now 0 hb hpre hcov]
      simp [hadd]
    · by_cases hrule : t.mustSplit (b.addNode node).2 = true
      · rcases h with h | h | ⟨halves, hsplit, fuel, hrec⟩
        · exact absurd h hadd
        · simp [h] at hrule
        · refine ⟨fuel + 1, ?_⟩
          rw [insert_succ now fuel hb hpre hcov]
          simpa [hadd, hrule, hsplit] using hrec
      · refine ⟨1, ?_⟩
        rw [insert_succ now 0 hb hpre hcov]
        simp [hadd, hrule]

/-- A loaded bucket whose last contact is `node` and that has room for it already
holds it as a primary contact. -/
theorem addNode_loaded_of_le {lo hi k lu : ℕ} {l : List Node} (hlen : l.length < k) :
    ((KBucket.loaded lo hi k lu (l ++ [node])).addNode node).1 = true := by
  rw [← Bool.not_eq_false, KBucket.addNode_fst_eq_false, not_and_or]
  left
  rw [Bool.not_eq_false, KBucket.contains_iff]
  have : (l ++ [node]).take k = l ++ [node] :=
    List.take_of_length_le (by simpa using Nat.succ_le_of_lt hlen)
  simp [KBucket.loaded, this]

/-- A loaded bucket whose last contact is `node` and that has no room for it does
not change when `node` is offered again. -/
theorem addNode_loaded_of_gt {lo hi k lu : ℕ} {l : List Node}
    (hnodup : node.id ∉ l.map Node.id) (hk : k ≤ l.length) (hlen : l.length < k + k * 5) :
    (KBucket.loaded lo hi k lu (l ++ [node])).addNode node =
      (false, KBucket.loaded lo hi k lu (l ++ [node])) := by
  have htake : (l ++ [node]).take k = l.take k := List.take_append_of_le_length hk
  have hdrop : (l ++ [node]).drop k = l.drop k ++ [node] := List.drop_append_of_le_length hk
  have hc : (KBucket.loaded lo hi k lu (l ++ [node])).contains node = false := by
    rw [← Bool.not_eq_true, KBucket.contains_iff]
    simp only [KBucket.loaded, htake]
    exact fun h => hnodup (((List.take_sublist k l).map Node.id).subset h)
  have hrepl : node.id ∉ (l.drop k).map Node.id :=
    fun h => hnodup (((List.drop_sublist k l).map Node.id).subset h)
  rw [KBucket.addNode_of_full hc (by
    simp only [KBucket.loaded, KBucket.new, htake, List.length_take]; omega)]
  have hq : (KBucket.loaded lo hi k lu (l ++ [node])).queueReplacement node =
      (l ++ [node]).drop k := by
    simp only [KBucket.queueReplacement, KBucket.loaded, KBucket.new, hdrop,
      KBucket.withoutFirst_concat hrepl]
    apply KBucket.evictOldest_of_le
    simp only [List.length_append, List.length_drop, List.length_singleton]
    omega
  rw [hq]
  rfl

theorem Invariant.not_covers_before (h : t.Invariant) (hb : t.buckets = pre ++ b :: post) {x : ℕ}
    (hcov : b.covers x = true) : ∀ c ∈ pre, c.covers x = false :=
  fun c hc => h.not_covers_beside hb hcov c (List.mem_append_left _ hc)

/-- One split of the descent: the half that covers `node` is loaded with the
contacts of the next smaller block. -/
theorem Invariant.split_descends (h : t.Invariant) {j lu : ℕ} {l : List Node}
    (hb : t.buckets = pre ++ KBucket.loaded (blockLo (j + 1) node.longId)
      (blockHi (j + 1) node.longId) t.ksize lu l :: post) (now : ℕ) :
    ∃ halves pre' post',
      (KBucket.loaded (blockLo (j + 1) node.longId) (blockHi (j + 1) node.longId)
        t.ksize lu l).split now = some halves ∧
      pre ++ [halves.1, halves.2] ++ post = pre' ++ KBucket.loaded (blockLo j node.longId)
        (blockHi j node.longId) t.ksize now (inBlock j node.longId l) :: post' ∧
      Invariant { t with buckets := pre ++ [halves.1, halves.2] ++ post } := by
  set x := node.longId with hx
  set c := KBucket.loaded (blockLo (j + 1) x) (blockHi (j + 1) x) t.ksize lu l with hc
  have hmem : c ∈ t.buckets := by simp [hb]
  have hok := h.bucketOk c hmem
  have hlt : c.lo < c.hi := by
    have hpos := Nat.two_pow_pos j
    have hpow : 2 ^ (j + 1) = 2 * 2 ^ j := by ring
    change blockLo (j + 1) x < blockHi (j + 1) x
    rw [blockHi_eq]
    omega
  have hrange : ∀ n ∈ l, blockLo (j + 1) x ≤ n.longId ∧ n.longId ≤ blockHi (j + 1) x := by
    intro n hn
    exact hok.valid.in_range n (by rw [hc, KBucket.contacts_loaded]; exact hn)
  obtain ⟨mid, hmid⟩ : ∃ mid, mid = c.lo + (c.hi - c.lo) / 2 := ⟨_, rfl⟩
  obtain ⟨-, hsplit, -, -⟩ := hok.split hlt (h.hi_le hmem) now hmid
  have hinv := h.splice_split hb rfl rfl hok hlt now hmid
  obtain ⟨hlow, hhigh⟩ := block_half j x
  obtain ⟨hflow, hfhigh⟩ := filter_half hrange hmid
  rw [show blockLo (j + 1) x + (blockHi (j + 1) x - blockLo (j + 1) x) / 2 = mid from hmid.symm]
    at hlow hhigh
  rcases le_or_gt x mid with hle | hgt
  · refine ⟨_, pre, highHalf c mid now :: post, hsplit, ?_, hinv⟩
    have hhalf : lowHalf c mid now =
        KBucket.loaded (blockLo j x) (blockHi j x) t.ksize now (inBlock j x l) := by
      rw [← hflow hle, (hlow hle).1, (hlow hle).2, lowHalf, hc, KBucket.contacts_loaded]
      rfl
    rw [hhalf]
    simp
  · refine ⟨_, pre ++ [lowHalf c mid now], post, hsplit, ?_, hinv⟩
    have hhalf : highHalf c mid now =
        KBucket.loaded (blockLo j x) (blockHi j x) t.ksize now (inBlock j x l) := by
      rw [← hfhigh hgt, (hhigh hgt).1, (hhigh hgt).2, highHalf, hc, KBucket.contacts_loaded]
      rfl
    rw [hhalf]
    simp

/-- What the invariant says about a loaded bucket whose last contact is `node`. -/
theorem Invariant.level (h : t.Invariant) {j lu : ℕ} {l : List Node}
    (hb : t.buckets = pre ++ KBucket.loaded (blockLo j node.longId)
      (blockHi j node.longId) t.ksize lu (l ++ [node]) :: post) :
    (KBucket.loaded (blockLo j node.longId) (blockHi j node.longId) t.ksize lu
        (l ++ [node])).Valid ∧
      inBlock j node.longId (l ++ [node]) = l ++ [node] ∧ node.id ∉ l.map Node.id ∧
      l.length < t.ksize + t.ksize * 5 := by
  set c := KBucket.loaded (blockLo j node.longId) (blockHi j node.longId) t.ksize lu (l ++ [node])
    with hc
  have hv : c.Valid := (h.bucketOk c (by simp [hb])).valid
  have hcontacts : c.contacts = l ++ [node] := by rw [hc, KBucket.contacts_loaded]
  refine ⟨hv, inBlock_eq_self fun n hn => hv.in_range n (hcontacts ▸ hn), ?_, ?_⟩
  · have := hv.ids_nodup
    rw [hcontacts, List.map_append, List.nodup_append] at this
    exact fun hmem => this.2.2 _ hmem _ (by simp) rfl
  · have h1 : c.nodes.length ≤ t.ksize := hv.nodes_le
    have h2 : c.replacementNodes.length ≤ t.ksize * 5 := hv.replacements_le
    have h3 := congrArg List.length hcontacts
    simp only [KBucket.contacts, List.length_append, List.length_singleton] at h3
    omega

/-- One level of the descent: the call returns at once unless the block overflows
and the split rule applies to it. -/
theorem Invariant.insertReturns_level (now : ℕ) (h : t.Invariant) {j lu : ℕ} {l : List Node}
    (hb : t.buckets = pre ++ KBucket.loaded (blockLo j node.longId)
      (blockHi j node.longId) t.ksize lu (l ++ [node]) :: post) :
    t.InsertReturns now node ↔
      ¬(t.ksize < (inBlock j node.longId (l ++ [node])).length ∧
        t.splitsBlock (l ++ [node]) j node.longId = true) ∨
      ∃ halves, (KBucket.loaded (blockLo j node.longId) (blockHi j node.longId) t.ksize lu
          (l ++ [node])).split now = some halves ∧
        InsertReturns now { t with buckets := pre ++ [halves.1, halves.2] ++ post } node := by
  obtain ⟨-, hin, hnew, hsize⟩ := h.level hb
  have hcov : (KBucket.loaded (blockLo j node.longId) (blockHi j node.longId) t.ksize lu
      (l ++ [node])).covers node.longId = true :=
    KBucket.covers_iff.mpr ⟨blockLo_le _ _, le_blockHi _ _⟩
  have hrule : t.splitsBlock (l ++ [node]) j node.longId = t.mustSplit
      (KBucket.loaded (blockLo j node.longId) (blockHi j node.longId) t.ksize lu
        (l ++ [node])) := by
    rw [splitsBlock, hin]
    rfl
  rw [insertReturns_iff now hb (h.not_covers_before hb hcov) hcov, hin, hrule]
  by_cases hroom : l.length < t.ksize
  · have hlen : ¬t.ksize < l.length + 1 := by omega
    simp [addNode_loaded_of_le hroom, hlen]
  · have hlen : t.ksize < l.length + 1 := by omega
    rw [addNode_loaded_of_gt hnew (Nat.le_of_not_lt hroom) hsize]
    simp [hlen]

/-- A bucket that has shrunk to a point and overflows is split for ever. -/
theorem Invariant.not_insertReturns_point (now : ℕ) (h : t.Invariant) {lu : ℕ} {l : List Node}
    (hb : t.buckets = pre ++ KBucket.loaded (blockLo 0 node.longId)
      (blockHi 0 node.longId) t.ksize lu (l ++ [node]) :: post)
    (hlen : t.ksize < (inBlock 0 node.longId (l ++ [node])).length)
    (hrule : t.splitsBlock (l ++ [node]) 0 node.longId = true) : ¬t.InsertReturns now node := by
  rintro ⟨fuel, hfuel⟩
  obtain ⟨hv, hin, hnew, hsize⟩ := h.level hb
  rw [hin] at hlen
  have hcov : (KBucket.loaded (blockLo 0 node.longId) (blockHi 0 node.longId) t.ksize lu
      (l ++ [node])).covers node.longId = true :=
    KBucket.covers_iff.mpr ⟨blockLo_le _ _, le_blockHi _ _⟩
  have hfull : (KBucket.loaded (blockLo 0 node.longId) (blockHi 0 node.longId) t.ksize lu
      (l ++ [node])).addNode node = (false, _) :=
    addNode_loaded_of_gt hnew (Nat.le_of_lt_succ (by simpa using hlen)) hsize
  rw [splitsBlock, hin] at hrule
  rw [insert_point_diverges now fuel hb (h.not_covers_before hb hcov) (blockLo_zero _)
    (blockHi_zero _) hv (by rw [hfull]) hrule] at hfuel
  simp at hfuel

/-- **The descent.**  Starting from a bucket loaded with contacts of which `node` is
the last, the call returns unless the block around `node` overflows and is split at
every level down to the point.  Induction on the size of the block. -/
theorem Invariant.descent (now : ℕ) (h : t.Invariant) {j lu : ℕ} {l : List Node}
    (hb : t.buckets = pre ++ KBucket.loaded (blockLo j node.longId)
      (blockHi j node.longId) t.ksize lu (l ++ [node]) :: post) :
    t.InsertReturns now node ↔
      ¬∀ i ≤ j, t.ksize < (inBlock i node.longId (l ++ [node])).length ∧
        t.splitsBlock (l ++ [node]) i node.longId = true := by
  induction j generalizing t pre post lu l with
  | zero =>
      simp only [Nat.le_zero, forall_eq]
      constructor
      · exact fun hreturns hbad => h.not_insertReturns_point now hb hbad.1 hbad.2 hreturns
      · exact fun hok => (h.insertReturns_level now hb).mpr (Or.inl hok)
  | succ j ih =>
      by_cases hbad : t.ksize < (inBlock (j + 1) node.longId (l ++ [node])).length ∧
          t.splitsBlock (l ++ [node]) (j + 1) node.longId = true
      · obtain ⟨halves, pre', post', hsplit, hhalf, hinv⟩ := h.split_descends hb now
        rw [inBlock_concat] at hhalf
        have hnext := ih hinv hhalf
        -- the contacts of a smaller block are the same before and after the split
        have hsame : ∀ i ≤ j, inBlock i node.longId (inBlock j node.longId l ++ [node]) =
            inBlock i node.longId (l ++ [node]) := by
          intro i hi
          rw [← inBlock_concat, inBlock_inBlock hi]
        have hlevel := h.insertReturns_level now hb
        simp only [hbad, and_self, not_true_eq_false, false_or, hsplit, Option.some.injEq,
          exists_eq_left'] at hlevel
        rw [hlevel, hnext]
        apply not_congr
        constructor
        · intro hall i hi
          rcases Nat.lt_or_eq_of_le hi with hlt | rfl
          · have := hall i (Nat.le_of_lt_succ hlt)
            simpa only [splitsBlock, mustSplit, hsame i (Nat.le_of_lt_succ hlt)] using this
          · exact hbad
        · intro hall i hi
          have := hall i (Nat.le_succ_of_le hi)
          simpa only [splitsBlock, mustSplit, hsame i hi] using this
      · refine ⟨fun _ hall => hbad (hall (j + 1) le_rfl), fun _ => ?_⟩
        exact (h.insertReturns_level now hb).mpr (Or.inl hbad)

/-! ## The first call -/

/-- The contacts of `b` with `node` queued behind them. -/
def queued (b : KBucket) (node : Node) : List Node := b.nodes ++ b.queueReplacement node

/-- In a full bucket with room for replacements, `node` is queued last. -/
theorem queued_eq_concat (hvalid : b.Valid) (hk : 1 ≤ b.ksize) :
    ∃ l, queued b node = b.nodes ++ l ++ [node] := by
  have hmax := hvalid.max_eq
  refine ⟨(KBucket.withoutFirst node b.replacementNodes).drop
    ((KBucket.withoutFirst node b.replacementNodes).length + 1 - b.maxReplacementNodes), ?_⟩
  rw [queued, KBucket.queueReplacement, KBucket.evictOldest_eq_drop, List.length_append,
    List.length_singleton, List.drop_append_of_le_length (by omega), List.append_assoc]

/-- **The first call settles the bucket**: a full bucket that takes `node` in its
replacement list is a bucket loaded with the queued contacts. -/
theorem addNode_eq_loaded (hvalid : b.Valid) (hfull : (b.addNode node).1 = false) :
    b.addNode node =
      (false, KBucket.loaded b.lo b.hi b.ksize b.lastUpdated (queued b node)) := by
  obtain ⟨hc, hk⟩ := KBucket.addNode_fst_eq_false.mp hfull
  have hlen : b.nodes.length = b.ksize := le_antisymm hvalid.nodes_le hk
  rw [KBucket.addNode_of_full hc hk]
  simp only [KBucket.loaded, KBucket.new, queued, List.take_left' hlen, List.drop_left' hlen,
    ← hvalid.max_eq]

/-- The condition under which `add_contact` does not return: the node is new to its
full bucket, more than `ksize` queued contacts share its `long_id`, and the split
rule applies to every block between the bucket's range and that point. -/
def Crowded (t : RoutingTable) (node : Node) : Prop :=
  node.id ≠ t.node.id ∧ ∃ b ∈ t.buckets[t.bucketIndexFor node.longId]?,
    b.contains node = false ∧ t.ksize ≤ b.nodes.length ∧
    t.ksize < ((queued b node).filter fun n => n.longId = node.longId).length ∧
    ∀ j ≤ 128, b.lo ≤ blockLo j node.longId → blockHi j node.longId ≤ b.hi →
      t.splitsBlock (queued b node) j node.longId = true

instance (t : RoutingTable) (node : Node) : Decidable (Crowded t node) :=
  inferInstanceAs (Decidable (_ ∧ _))

/-- Contacts that share the point are in every block around it. -/
theorem length_filter_point_le (j x : ℕ) (l : List Node) :
    (l.filter fun n => n.longId = x).length ≤ (inBlock j x l).length := by
  apply List.Sublist.length_le
  apply List.monotone_filter_right
  intro n hn
  have hx : n.longId = x := by simpa using hn
  have h1 := blockLo_le j x
  have h2 := le_blockHi j x
  simp only [hx, h1, h2, and_self, decide_true]

theorem inBlock_zero (x : ℕ) (l : List Node) :
    inBlock 0 x l = l.filter fun n => n.longId = x := by
  apply List.filter_congr
  intro n _
  simp only [blockLo_zero, blockHi_zero, decide_eq_decide]
  omega

/-- A bucket that is a block is at most the whole key space. -/
theorem Invariant.exponent_le (h : t.Invariant) {b : KBucket} (hb : b ∈ t.buckets) {J x : ℕ}
    (hhi : b.hi = blockHi J x) : J ≤ 128 := by
  by_contra hgt
  have hle := h.hi_le hb
  have hpow : 2 ^ 129 ≤ 2 ^ J := Nat.pow_le_pow_right (by norm_num) (by omega)
  rw [hhi, blockHi_eq] at hle
  simp only [u128Max] at hle
  omega

/-- **The first call on a full bucket** queues the node; the rest of the call descends
through the blocks of the bucket. -/
theorem Invariant.insertReturns_of_full (h : t.Invariant) (hk : 1 ≤ t.ksize) (now : ℕ)
    {b : KBucket} (hb : t.buckets = pre ++ b :: post)
    (hpre : ∀ c ∈ pre, c.covers node.longId = false) (hcov : b.covers node.longId = true)
    (hid : node.id ≠ t.node.id) (hfull : (b.addNode node).1 = false) {J : ℕ}
    (hlo : b.lo = blockLo J node.longId) (hhi : b.hi = blockHi J node.longId) :
    t.InsertReturns now node ↔
      ¬∀ i ≤ J, t.ksize < (inBlock i node.longId (queued b node)).length ∧
        t.splitsBlock (queued b node) i node.longId = true := by
  have hok := h.bucketOk b (by simp [hb])
  obtain ⟨-, hroom⟩ := KBucket.addNode_fst_eq_false.mp hfull
  rw [hok.ksize_eq] at hroom
  obtain ⟨l, hl⟩ : ∃ l, queued b node = b.nodes ++ l ++ [node] :=
    queued_eq_concat hok.valid (by rw [hok.ksize_eq]; exact hk)
  have hadd := addNode_eq_loaded hok.valid hfull
  rw [hok.ksize_eq, hl, hlo, hhi] at hadd
  set c := KBucket.loaded (blockLo J node.longId) (blockHi J node.longId) t.ksize b.lastUpdated
    (b.nodes ++ l ++ [node])
  have hinv : Invariant { t with buckets := pre ++ c :: post } := by
    have hframe := KBucket.addNode_frame b node
    have := h.replace hb hframe.1 hframe.2.1 (hok.addNode hcov hid)
    rwa [hadd] at this
  -- the bucket is loaded now, and a further call would leave it as it is
  have hsettle : t.InsertReturns now node ↔
      InsertReturns now { t with buckets := pre ++ c :: post } node := by
    obtain ⟨-, -, hnew, hsize⟩ := hinv.level rfl
    have hagain : c.addNode node = (false, c) :=
      addNode_loaded_of_gt hnew (by simp only [List.length_append]; omega) hsize
    rw [insertReturns_iff now hb hpre hcov, insertReturns_iff now rfl hpre
      (KBucket.covers_iff.mpr ⟨blockLo_le J _, le_blockHi J _⟩), hagain, hadd]
    rfl
  rw [hsettle, hinv.descent now rfl, hl]
  rfl

/-- **When `add_contact` returns**, for a table that satisfies the invariant. -/
theorem Invariant.returns_iff_not_crowded (h : t.Invariant) (hk : 1 ≤ t.ksize) (now : ℕ)
    (node : Node) :
    (∃ fuel, (addContact now fuel t node).isSome = true) ↔ ¬Crowded t node := by
  by_cases hid : node.id = t.node.id
  · simp [addContact, Crowded, hid]
  obtain ⟨pre, b, post, hb, hcov, hpre⟩ := h.locate node.longId_lt
  have hmem : b ∈ t.buckets := by simp [hb]
  have hok := h.bucketOk b hmem
  have hget : t.buckets[t.bucketIndexFor node.longId]? = some b := by
    simp [bucketIndexFor_eq hb hpre hcov, hb]
  have hreturns : (∃ fuel, (addContact now fuel t node).isSome = true) ↔
      t.InsertReturns now node := by simp [addContact, hid, InsertReturns]
  simp only [hreturns, Crowded, hid, hget, Option.mem_def, Option.some.injEq, exists_eq_left',
    ne_eq, not_false_eq_true, true_and]
  by_cases hfull : (b.addNode node).1 = false
  · obtain ⟨hc, hroom⟩ := KBucket.addNode_fst_eq_false.mp hfull
    rw [hok.ksize_eq] at hroom
    obtain ⟨h1, h2⟩ := KBucket.covers_iff.mp hcov
    obtain ⟨J, hlo, hhi⟩ := hok.dyadic.eq_block h1 h2
    rw [h.insertReturns_of_full hk now hb hpre hcov hid hfull hlo hhi]
    apply not_congr
    constructor
    · intro hall
      refine ⟨hc, hroom, ?_, ?_⟩
      · rw [← inBlock_zero]
        exact (hall 0 (Nat.zero_le J)).1
      · intro j _ hjlo hjhi
        rw [hlo] at hjlo
        rw [hhi] at hjhi
        exact (hall j (le_of_block_subset hjlo hjhi)).2
    · rintro ⟨-, -, hcount, hall⟩ j hj
      refine ⟨lt_of_lt_of_le hcount (length_filter_point_le j _ _), ?_⟩
      have hsub := block_mono hj node.longId
      exact hall j (hj.trans (h.exponent_le hmem hhi)) (hlo ▸ hsub.1) (hhi ▸ hsub.2)
  · have hadd : (b.addNode node).1 = true := by simpa using hfull
    refine iff_of_true ((insertReturns_iff now hb hpre hcov).mpr (Or.inl hadd)) ?_
    rintro ⟨hc, hroom, -⟩
    exact hfull (KBucket.addNode_fst_eq_false.mpr ⟨hc, hok.ksize_eq ▸ hroom⟩)

/-- **`add_contact` returns exactly when its bucket is not crowded**: for every table
reached by calls that returned and every node, some recursion depth is enough, and no
midpoint leaves `u128`, if and only if the node does not complete a collision that
the split rule cannot resolve. -/
theorem addContact_returns_iff (localNode : Node) (ksize start : ℕ) (hk : 1 ≤ ksize)
    (ops : List RoutingOp) (t : RoutingTable)
    (hrun : exec step (new localNode ksize start) ops = some t) (now : ℕ) (node : Node) :
    (∃ fuel, (addContact now fuel t node).isSome = true) ↔ ¬Crowded t node := by
  obtain ⟨h, -, rfl⟩ := Invariant.exec hrun
  exact h.returns_iff_not_crowded hk now node

/-! ## A collision -/

/-- A contact at point `0`: its last four bytes cancel its first four. -/
def collider (a : ℕ) : Node := Node.fromId (NodeId.ofNat (a * (2 ^ 128 + 1)))

/-- A local node in the upper half of the key space. -/
def upperNode : Node := Node.fromId (NodeId.ofNat (2 ^ 159))

/-- The table after two colliding contacts have been added. -/
def colliderTable : RoutingTable :=
  ⟨upperNode, 2,
    [{ KBucket.new 0 u128Max 2 0 with nodes := [collider 0x40000000, collider 0x60000000] }]⟩

/-- A third colliding contact, with a common id prefix of two bits, is never
inserted. -/
theorem addContact_collision_diverges :
    exec step (new upperNode 2 0)
        [.addContact 0 1 (collider 0x40000000), .addContact 0 1 (collider 0x60000000)] =
      some colliderTable ∧
      ∀ fuel, addContact 0 fuel colliderTable (collider 0x50000000) = none := by
  have hrun : exec step (new upperNode 2 0)
      [.addContact 0 1 (collider 0x40000000), .addContact 0 1 (collider 0x60000000)] =
        some colliderTable := by decide +kernel
  refine ⟨hrun, fun fuel => ?_⟩
  obtain ⟨h, -, -⟩ := Invariant.exec hrun
  have hcrowded : Crowded colliderTable (collider 0x50000000) := by decide +kernel
  have hnot := mt (h.returns_iff_not_crowded (by decide) 0 (collider 0x50000000)).mp
    (not_not_intro hcrowded)
  by_contra hsome
  exact hnot ⟨fuel, Option.isSome_iff_ne_none.mpr hsome⟩

/-- A contact elsewhere in the key space is inserted into the same table. -/
theorem addContact_returns_beside_collision :
    ∃ fuel, (addContact 0 fuel colliderTable (Node.fromId (NodeId.ofNat (2 ^ 158)))).isSome =
      true :=
  (addContact_returns_iff upperNode 2 0 (by decide)
    [.addContact 0 1 (collider 0x40000000), .addContact 0 1 (collider 0x60000000)] colliderTable
    (by decide +kernel) 0 _).mpr (by decide +kernel)

end RoutingTable

end AuthKademlia
