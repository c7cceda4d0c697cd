import AuthKademlia.Lib.Dyadic
import AuthKademlia.RoutingTable
import Mathlib.Data.List.Flatten

/-!
# The routing-table invariant

Every call that returns keeps the table well formed: the buckets tile the key
space with dyadic blocks, each bucket is valid and holds only contacts of its own
range, and the local node is nowhere.  `RoutingTable.Invariant` is the inductive
form and `RoutingTable.WellFormed` spells out what it means for a reader of the
table; the second follows from the first because two contacts with the same id sit
at the same point and therefore in the same bucket.

The one delicate case is a bucket that covers a single point.  Splitting it does
not separate anything: the lower half is the same bucket again.  So a call that
ever splits such a bucket never returns (`insert_point_diverges`), and a call that
does return only halves blocks of size at least two.

## Main definitions

* `RoutingTable.Invariant` — the invariant the induction carries.
* `RoutingTable.Invariant.insert_induction` — the induction over the splits of one call.
* `RoutingTable.WellFormed` — its consequences, clause by clause.
-/

namespace AuthKademlia

open Lib

namespace RoutingTable

variable {t t' : RoutingTable} {pre post : List KBucket} {b : KBucket} {node : Node}

/-- The ranges of the buckets, in list order. -/
def ranges (t : RoutingTable) : List (ℕ × ℕ) := t.buckets.map fun b => (b.lo, b.hi)

/-- What the invariant asks of a single bucket of the table. -/
structure BucketOk (localNode : Node) (ksize : ℕ) (b : KBucket) : Prop where
  dyadic : IsDyadic b.lo b.hi
  valid : b.Valid
  ksize_eq : b.ksize = ksize
  local_absent : ∀ n ∈ b.contacts, n.id ≠ localNode.id

/-- The invariant of a routing table. -/
structure Invariant (t : RoutingTable) : Prop where
  tiles : Tiles 0 t.ranges (2 ^ 128)
  bucketOk : ∀ b ∈ t.buckets, BucketOk t.node t.ksize b

theorem invariant_new (node : Node) (ksize now : ℕ) : (new node ksize now).Invariant where
  tiles := by simp [new, ranges, KBucket.new, Tiles, u128Max]
  bucketOk := by
    intro b hb
    obtain rfl : b = KBucket.new 0 u128Max ksize now := by simpa [new] using hb
    exact ⟨⟨0, 128, by simp [KBucket.new], by simp [KBucket.new, u128Max]⟩,
      KBucket.valid_new _ _ _ _, rfl, by simp [KBucket.new, KBucket.contacts]⟩

/-- The bucket responsible for a point: it covers the point, no earlier bucket
does, and `bucket_index_for` finds it. -/
theorem Invariant.locate (h : t.Invariant) {x : ℕ} (hx : x < 2 ^ 128) :
    ∃ pre b post, t.buckets = pre ++ b :: post ∧ b.covers x = true ∧
      ∀ c ∈ pre, c.covers x = false := by
  obtain ⟨rpre, r, rpost, heq, h1, h2, h3⟩ := h.tiles.exists_split (Nat.zero_le x) hx
  obtain ⟨pre, rest, hb, rfl, hrest⟩ := List.map_eq_append_iff.mp heq
  obtain ⟨b, post, rfl, rfl, rfl⟩ := List.map_eq_cons_iff.mp hrest
  refine ⟨pre, b, post, hb, KBucket.covers_iff.mpr ⟨h1, h2⟩, ?_⟩
  intro c hc
  have : c.hi < x := h3 (c.lo, c.hi) (List.mem_map_of_mem hc)
  simp only [KBucket.covers, decide_eq_false_iff_not]
  omega

theorem bucketIndexFor_eq {x : ℕ} (hb : t.buckets = pre ++ b :: post)
    (hpre : ∀ c ∈ pre, c.covers x = false) (hcov : b.covers x = true) :
    t.bucketIndexFor x = pre.length := by
  have : (t.buckets.findIdx? fun c => c.covers x) = some pre.length := by
    rw [hb, List.findIdx?_append, List.findIdx?_eq_none_iff.mpr (by simpa using hpre)]
    simp [List.findIdx?_cons, hcov]
  simp [bucketIndexFor, this]

/-- Buckets at different places cover different points. -/
theorem Invariant.pairwise_disjoint (h : t.Invariant) :
    t.buckets.Pairwise fun b c => b.hi < c.lo :=
  List.pairwise_map.mp h.tiles.pairwise

/-- No bucket beside the one that covers a point covers it. -/
theorem Invariant.not_covers_beside (h : t.Invariant) (hb : t.buckets = pre ++ b :: post) {x : ℕ}
    (hcov : b.covers x = true) : ∀ c ∈ pre ++ post, c.covers x = false := by
  have hpair := h.pairwise_disjoint
  rw [hb, List.pairwise_append, List.pairwise_cons] at hpair
  rcases hpair with ⟨-, ⟨hpost, -⟩, hpre⟩
  rcases KBucket.covers_iff.mp hcov with ⟨hlo, hhi⟩
  intro c hc
  rw [← Bool.not_eq_true, KBucket.covers_iff]
  rcases List.mem_append.mp hc with hc | hc
  · have := hpre c hc b List.mem_cons_self
    omega
  · have := hpost c hc
    omega

/-- A bucket may be replaced by buckets that tile its range. -/
theorem Invariant.splice (h : t.Invariant) (hb : t.buckets = pre ++ b :: post)
    {bs : List KBucket} (htiles : Tiles b.lo (bs.map fun c => (c.lo, c.hi)) (b.hi + 1))
    (hok : ∀ c ∈ bs, BucketOk t.node t.ksize c) :
    Invariant { t with buckets := pre ++ bs ++ post } where
  tiles := by
    have ht := h.tiles
    simp only [ranges, hb, List.map_append, List.map_cons] at ht ⊢
    obtain ⟨a, hpre, hlo, -, hpost⟩ := ht.of_append
    exact (hpre.append (hlo ▸ htiles)).append hpost
  bucketOk := by
    intro c hc
    have hmem : c ∈ pre ∨ c ∈ bs ∨ c ∈ post := by simpa using hc
    rcases hmem with hc | hc | hc
    · exact h.bucketOk c (by simp [hb, hc])
    · exact hok c hc
    · exact h.bucketOk c (by simp [hb, hc])

theorem Invariant.replace (h : t.Invariant) (hb : t.buckets = pre ++ b :: post) {c : KBucket}
    (hlo : c.lo = b.lo) (hhi : c.hi = b.hi) (hok : BucketOk t.node t.ksize c) :
    Invariant { t with buckets := pre ++ c :: post } := by
  have hb' := (h.bucketOk b (by simp [hb])).dyadic.le
  have htiles : Tiles b.lo ([c].map fun c => (c.lo, c.hi)) (b.hi + 1) :=
    ⟨hlo, hlo ▸ hhi ▸ hb', congrArg (· + 1) hhi⟩
  simpa using h.splice hb htiles (by simpa using hok)

/-! ## One call of `insert` -/

/-- The split rule reads the range and the primary contacts, which queueing leaves alone. -/
theorem mustSplit_addNode (t : RoutingTable) (hfull : (b.addNode node).1 = false) :
    t.mustSplit (b.addNode node).2 = t.mustSplit b := by
  simp only [mustSplit, KBucket.covers_addNode, KBucket.depth,
    KBucket.nodes_addNode_of_false hfull]

/-- One unfolding of `insert`, once the responsible bucket is known. -/
theorem insert_succ (now fuel : ℕ) (hb : t.buckets = pre ++ b :: post)
    (hpre : ∀ c ∈ pre, c.covers node.longId = false) (hcov : b.covers node.longId = true) :
    insert now (fuel + 1) t node =
      let b' := (b.addNode node).2
      let put := fun bs => { t with buckets := pre ++ bs ++ post }
      if (b.addNode node).1 = true then some (none, put [b'])
      else if t.mustSplit b' = true then
        (b'.split now).bind fun halves => insert now fuel (put [halves.1, halves.2]) node
      else some (b'.head, put [b']) := by
  have hidx := bucketIndexFor_eq hb hpre hcov
  have hget : t.buckets[t.bucketIndexFor node.longId]? = some b := by simp [hidx, hb]
  have hset : ∀ c, t.buckets.set (t.bucketIndexFor node.longId) c = pre ++ c :: post := by
    intro c
    simp [hidx, hb]
  rw [insert]
  simp only [hget, hset, List.append_assoc, List.cons_append, List.nil_append]
  congr 1
  simp only [splitBucket, mustSplit, hidx, List.getElem?_append_right (le_refl _), Nat.sub_self,
    List.getElem?_cons_zero, Option.bind_some, Option.bind_map]
  congr 1
  congr 1
  funext halves
  simp [Function.comp]

/-- **A single point cannot be split.**  If the bucket covering exactly the point of
`node` is full without it and the split rule applies, the call never returns: each
split reproduces the bucket. -/
theorem insert_point_diverges (now fuel : ℕ) (hb : t.buckets = pre ++ b :: post)
    (hpre : ∀ c ∈ pre, c.covers node.longId = false) (hlo : b.lo = node.longId)
    (hhi : b.hi = node.longId) (hvalid : b.Valid) (hfull : (b.addNode node).1 = false)
    (hsplit : t.mustSplit b = true) : insert now fuel t node = none := by
  induction fuel generalizing t pre b post with
  | zero => rfl
  | succ fuel ih =>
      have hcov : b.covers node.longId = true := by simp [KBucket.covers, hlo, hhi]
      have hframe := KBucket.addNode_frame b node
      have hnodes := KBucket.nodes_addNode_of_false hfull
      obtain ⟨hc, hk⟩ := KBucket.addNode_fst_eq_false.mp hfull
      have hlen : b.nodes.length = b.ksize := le_antisymm hvalid.nodes_le hk
      have hvalid' := hvalid.addNode (le_of_eq hlo) (le_of_eq hhi.symm)
      -- the rule only reads the range and the primary list
      have hrule : ∀ c : KBucket, c.lo = b.lo → c.hi = b.hi → c.nodes = b.nodes →
          t.mustSplit c = true := by
        intro c h1 h2 h3
        simpa only [mustSplit, KBucket.covers, KBucket.depth, h1, h2, h3] using hsplit
      rw [insert_succ now fuel hb hpre hcov]
      simp only [hfull, Bool.false_eq_true, if_false, hrule _ hframe.1 hframe.2.1 hnodes, if_true]
      generalize hb' : (b.addNode node).2 = b' at hframe hnodes hvalid' ⊢
      have hlo' : b'.lo = node.longId := by rw [hframe.1, hlo]
      have hhi' : b'.hi = node.longId := by rw [hframe.2.1, hhi]
      by_cases hfit : node.longId + 1 ≤ u128Max
      · -- every contact sits at the point, so the lower half is the bucket again
        rw [hvalid'.split_point now hlo' hhi' hfit, Option.bind_some]
        have hsame : (KBucket.loaded node.longId node.longId b'.ksize now b'.contacts).nodes =
            b.nodes := by
          simp only [KBucket.loaded, KBucket.contacts, hnodes, hframe.2.2.1]
          exact List.take_left' hlen
        refine ih (b := KBucket.loaded node.longId node.longId b'.ksize now b'.contacts)
          (List.append_assoc pre _ post) hpre rfl rfl ?_ ?_ ?_
        · refine KBucket.valid_loaded hvalid'.ids_nodup hvalid'.length_contacts_le fun n hn => ?_
          have := hvalid'.in_range n hn
          omega
        · refine KBucket.addNode_fst_eq_false.mpr ⟨?_, ?_⟩
          · simpa only [KBucket.contains, hsame] using hc
          · rw [hsame, hlen]
            exact le_of_eq hframe.2.2.1
        · exact hrule _ hlo.symm hhi.symm hsame
      · have hpanic : b'.split now = none := by
          rw [KBucket.split, if_neg]
          rw [hlo', hhi']
          omega
        rw [hpanic]
        rfl

/-- The lower half of a bucket split at `mid`. -/
def lowHalf (b : KBucket) (mid now : ℕ) : KBucket :=
  KBucket.loaded b.lo mid b.ksize now (b.contacts.filter fun n => n.longId ≤ mid)

/-- The upper half of a bucket split at `mid`. -/
def highHalf (b : KBucket) (mid now : ℕ) : KBucket :=
  KBucket.loaded (mid + 1) b.hi b.ksize now (b.contacts.filter fun n => mid < n.longId)

/-- **Splitting a block of size at least two** gives two buckets that satisfy the
invariant again. -/
theorem BucketOk.split {localNode : Node} {ksize : ℕ} (h : BucketOk localNode ksize b)
    (hlt : b.lo < b.hi) (hmax : b.hi ≤ u128Max) (now : ℕ) {mid : ℕ}
    (hmid : mid = b.lo + (b.hi - b.lo) / 2) :
    mid < b.hi ∧ b.split now = some (lowHalf b mid now, highHalf b mid now) ∧
      BucketOk localNode ksize (lowHalf b mid now) ∧
      BucketOk localNode ksize (highHalf b mid now) := by
  have hmidlt : mid < b.hi := by omega
  obtain ⟨hdlow, hdhigh⟩ : IsDyadic b.lo mid ∧ IsDyadic (mid + 1) b.hi := by
    obtain ⟨p, j, hp, hp'⟩ := h.dyadic
    cases j with
    | zero => simp only [pow_zero] at hp hp'; omega
    | succ j =>
        rw [hmid, hp, hp']
        exact isDyadic_halves.2
  have hside : ∀ p : Node → Bool, ((b.contacts.filter p).map Node.id).Nodup ∧
      (b.contacts.filter p).length ≤ b.ksize + b.ksize * 5 := fun p =>
    ⟨h.valid.ids_nodup.sublist (List.filter_sublist.map Node.id),
      (List.length_filter_le _ _).trans h.valid.length_contacts_le⟩
  have hlocal : ∀ p : Node → Bool, ∀ n ∈ b.contacts.filter p, n.id ≠ localNode.id :=
    fun p n hn => h.local_absent n (List.mem_filter.mp hn).1
  refine ⟨hmidlt, h.valid.split_eq now hmid (by omega) (by omega), ?_, ?_⟩
  · refine ⟨hdlow, KBucket.valid_loaded (hside _).1 (hside _).2 ?_, h.ksize_eq, ?_⟩
    · intro n hn
      obtain ⟨hmem, hle⟩ := List.mem_filter.mp hn
      exact ⟨(h.valid.in_range n hmem).1, by simpa using hle⟩
    · rw [lowHalf, KBucket.contacts_loaded]
      exact hlocal _
  · refine ⟨hdhigh, KBucket.valid_loaded (hside _).1 (hside _).2 ?_, h.ksize_eq, ?_⟩
    · intro n hn
      obtain ⟨hmem, hle⟩ := List.mem_filter.mp hn
      exact ⟨Nat.succ_le_of_lt (by simpa using hle), (h.valid.in_range n hmem).2⟩
    · rw [highHalf, KBucket.contacts_loaded]
      exact hlocal _

theorem BucketOk.addNode {localNode : Node} {ksize : ℕ} (h : BucketOk localNode ksize b)
    (hcov : b.covers node.longId = true) (hid : node.id ≠ localNode.id) :
    BucketOk localNode ksize (b.addNode node).2 := by
  have hframe := KBucket.addNode_frame b node
  obtain ⟨hlo, hhi⟩ := KBucket.covers_iff.mp hcov
  refine ⟨?_, h.valid.addNode hlo hhi, ?_, ?_⟩
  · rw [hframe.1, hframe.2.1]
    exact h.dyadic
  · rw [hframe.2.2.1]
    exact h.ksize_eq
  · intro m hm
    rcases KBucket.mem_contacts_addNode hm with rfl | hm
    · exact hid
    · exact h.local_absent m hm

theorem Invariant.hi_le (h : t.Invariant) (hb : b ∈ t.buckets) : b.hi ≤ u128Max := by
  have := (h.tiles.mem_bounds (List.mem_map_of_mem (f := fun b => (b.lo, b.hi)) hb)).2.2
  simp only [u128Max] at this ⊢
  omega

/-- Splitting one bucket of size at least two keeps the invariant of the table. -/
theorem Invariant.splice_split (h : t.Invariant) (hb : t.buckets = pre ++ b :: post)
    {c : KBucket} (hlo : c.lo = b.lo) (hhi : c.hi = b.hi) (hok : BucketOk t.node t.ksize c)
    (hlt : c.lo < c.hi) (now : ℕ) {mid : ℕ} (hmid : mid = c.lo + (c.hi - c.lo) / 2) :
    Invariant { t with buckets := pre ++ [lowHalf c mid now, highHalf c mid now] ++ post } := by
  have hmax : c.hi ≤ u128Max := hhi ▸ h.hi_le (by simp [hb])
  obtain ⟨hmidlt, -, hlow, hhigh⟩ := hok.split hlt hmax now hmid
  refine h.splice hb ?_ ?_
  · exact ⟨hlo, hlow.dyadic.le, rfl, hmidlt, congrArg (· + 1) hhi⟩
  · intro d hd
    rcases List.mem_pair.mp hd with rfl | rfl
    · exact hlow
    · exact hhigh

/-- The table with one bucket replaced by others. -/
def withBuckets (t : RoutingTable) (pre bs post : List KBucket) : RoutingTable :=
  { t with buckets := pre ++ bs ++ post }

/-- **What a call of `insert` that returns has done**: put the node among the primary
contacts of its bucket, queued it there without a split, or queued it, split the bucket
into two proper halves and called itself again. -/
inductive InsertCase (now fuel : ℕ) (node : Node) (t : RoutingTable) (pre : List KBucket)
    (b : KBucket) (post : List KBucket) (r : Option Node) (t' : RoutingTable) : Prop
  | added (h : (b.addNode node).1 = true) (hr : r = none)
      (ht : t' = t.withBuckets pre [(b.addNode node).2] post)
  | queued (h : (b.addNode node).1 = false) (hrule : t.mustSplit (b.addNode node).2 = false)
      (hr : r = (b.addNode node).2.head) (ht : t' = t.withBuckets pre [(b.addNode node).2] post)
  | descended (mid : ℕ) (h : (b.addNode node).1 = false) (hmid : b.lo ≤ mid ∧ mid < b.hi)
      (hinv : (t.withBuckets pre [lowHalf (b.addNode node).2 mid now,
        highHalf (b.addNode node).2 mid now] post).Invariant)
      (hret : RoutingTable.insert now fuel (t.withBuckets pre [lowHalf (b.addNode node).2 mid now,
        highHalf (b.addNode node).2 mid now] post) node = some (r, t'))

theorem Invariant.insert_cases {now fuel : ℕ} {r : Option Node} (h : t.Invariant)
    (hid : node.id ≠ t.node.id) (hret : insert now (fuel + 1) t node = some (r, t')) :
    ∃ pre b post, t.buckets = pre ++ b :: post ∧ b.covers node.longId = true ∧
      InsertCase now fuel node t pre b post r t' := by
  obtain ⟨pre, b, post, hb, hcov, hpre⟩ := h.locate node.longId_lt
  refine ⟨pre, b, post, hb, hcov, ?_⟩
  have hmem : b ∈ t.buckets := by simp [hb]
  have hok := h.bucketOk b hmem
  have hok' := hok.addNode hcov hid
  have hframe := KBucket.addNode_frame b node
  have hret' := hret
  rw [insert_succ now fuel hb hpre hcov] at hret'
  dsimp only at hret'
  split at hret'
  · next hadded =>
      obtain ⟨hr, ht⟩ : none = r ∧ _ = t' := by simpa using hret'
      exact .added hadded hr.symm (by simp [← ht, withBuckets])
  · next hfull =>
      have hfull' : (b.addNode node).1 = false := by simpa using hfull
      split at hret'
      · next hsplit =>
          -- a point would be split for ever, so the block has at least two elements
          have hlt : (b.addNode node).2.lo < (b.addNode node).2.hi := by
            rw [hframe.1, hframe.2.1]
            by_contra hge
            obtain ⟨h1, h2⟩ := KBucket.covers_iff.mp hcov
            have hnone := insert_point_diverges now (fuel + 1) hb hpre (by omega) (by omega)
              hok.valid hfull' (mustSplit_addNode t hfull' ▸ hsplit)
            rw [hnone] at hret
            exact absurd hret (by simp)
          have hmax : (b.addNode node).2.hi ≤ u128Max := hframe.2.1 ▸ h.hi_le hmem
          have hnext := h.splice_split hb hframe.1 hframe.2.1 hok' hlt now rfl
          rw [(hok'.split hlt hmax now rfl).2.1] at hret'
          rw [hframe.1, hframe.2.1] at hlt
          refine .descended _ hfull' ?_ hnext hret'
          rw [hframe.1, hframe.2.1]
          omega
      · next hsplit =>
          obtain ⟨hr, ht⟩ : _ = r ∧ _ = t' := by simpa using hret'
          exact .queued hfull' (by simpa using hsplit) hr.symm (by simp [← ht, withBuckets])

/-- A call of `insert` in a table with the invariant, at the bucket of the node. -/
structure InsertAt (node : Node) (t : RoutingTable) (pre : List KBucket) (b : KBucket)
    (post : List KBucket) : Prop where
  inv : t.Invariant
  not_local : node.id ≠ t.node.id
  buckets : t.buckets = pre ++ b :: post
  covers : b.covers node.longId = true

theorem InsertAt.mem (h : InsertAt node t pre b post) : b ∈ t.buckets := by simp [h.buckets]

/-- **Induction over the splits of a call of `insert`.**  The last call puts the node into
its bucket, among the primary contacts or the replacements; the calls before it split the
bucket. -/
theorem Invariant.insert_induction {now fuel : ℕ} {r : Option Node}
    {motive : RoutingTable → Prop} (h : t.Invariant) (hid : node.id ≠ t.node.id)
    (hret : insert now fuel t node = some (r, t'))
    (hput : ∀ {t pre b post}, InsertAt node t pre b post →
      t' = t.withBuckets pre [(b.addNode node).2] post → motive t)
    (hsplit : ∀ {t pre b post mid}, InsertAt node t pre b post → (b.addNode node).1 = false →
      t.mustSplit (b.addNode node).2 = true → b.lo ≤ mid ∧ mid < b.hi →
      (t.withBuckets pre [lowHalf (b.addNode node).2 mid now,
        highHalf (b.addNode node).2 mid now] post).Invariant →
      motive (t.withBuckets pre [lowHalf (b.addNode node).2 mid now,
        highHalf (b.addNode node).2 mid now] post) → motive t) :
    motive t := by
  induction fuel generalizing t with
  | zero => simp [RoutingTable.insert] at hret
  | succ fuel ih =>
      obtain ⟨pre, b, post, hb, hcov, hcase⟩ := h.insert_cases hid hret
      have hat : InsertAt node t pre b post := ⟨h, hid, hb, hcov⟩
      cases hcase with
      | added _ _ ht => exact hput hat ht
      | queued _ _ _ ht => exact hput hat ht
      | descended mid hfull hmid hhalves hrec =>
          by_cases hrule : t.mustSplit (b.addNode node).2 = true
          · exact hsplit hat hfull hrule hmid hhalves (ih hhalves hid hrec)
          · -- a bucket that must not be split is left as it is
            have hpre : ∀ c ∈ pre, c.covers node.longId = false := fun c hc =>
              h.not_covers_beside hb hcov c (List.mem_append_left _ hc)
            rw [insert_succ now fuel hb hpre hcov] at hret
            simp only [hfull, Bool.false_eq_true, if_false, hrule, Option.some.injEq,
              Prod.mk.injEq] at hret
            exact hput hat (by simp [← hret.2, withBuckets])

/-- **`insert` keeps the invariant**, for every node but the local one. -/
theorem Invariant.insert {now fuel : ℕ} {r : Option Node} (h : t.Invariant)
    (hid : node.id ≠ t.node.id) (hret : insert now fuel t node = some (r, t')) :
    t'.Invariant ∧ t'.node = t.node ∧ t'.ksize = t.ksize := by
  refine h.insert_induction (motive := fun t => t'.Invariant ∧ t'.node = t.node ∧
    t'.ksize = t.ksize) hid hret ?_ ?_
  · intro t pre b post hat ht
    have hframe := KBucket.addNode_frame b node
    have hok' := (hat.inv.bucketOk b hat.mem).addNode hat.covers hat.not_local
    have hput : (t.withBuckets pre [(b.addNode node).2] post).Invariant := by
      simpa [withBuckets] using hat.inv.replace hat.buckets hframe.1 hframe.2.1 hok'
    exact ht ▸ ⟨hput, rfl, rfl⟩
  · intro t pre b post mid _ _ _ _ _ hrest
    exact hrest

/-! ## Runs -/

/-- `modifyBucket` changes the one bucket that covers the point. -/
theorem modifyBucket_eq {x : ℕ} (hb : t.buckets = pre ++ b :: post)
    (hpre : ∀ c ∈ pre, c.covers x = false) (hcov : b.covers x = true) (f : KBucket → KBucket) :
    t.modifyBucket x f = t.withBuckets pre [f b] post := by
  simp only [RoutingTable.modifyBucket, withBuckets, bucketIndexFor_eq hb hpre hcov, hb]
  rw [List.modify_eq_take_cons_drop (by simp)]
  simp

theorem Invariant.modifyBucket (h : t.Invariant) {x : ℕ} (hx : x < 2 ^ 128)
    {f : KBucket → KBucket} (hrange : ∀ b, (f b).lo = b.lo ∧ (f b).hi = b.hi)
    (hok : ∀ b, BucketOk t.node t.ksize b → BucketOk t.node t.ksize (f b)) :
    (t.modifyBucket x f).Invariant := by
  obtain ⟨pre, b, post, hb, hcov, hpre⟩ := h.locate hx
  rw [modifyBucket_eq hb hpre hcov]
  simpa [withBuckets] using
    h.replace hb (hrange b).1 (hrange b).2 (hok b (h.bucketOk b (by simp [hb])))

/-- `add_contact` ignores the local node. -/
theorem addContact_cases {now fuel : ℕ} {r : Option Node}
    (h : t.addContact now fuel node = some (r, t')) :
    (node.id = t.node.id ∧ r = none ∧ t' = t) ∨
      (node.id ≠ t.node.id ∧ insert now fuel t node = some (r, t')) := by
  rw [addContact] at h
  split at h
  · next hid =>
      cases h
      exact .inl ⟨hid, rfl, rfl⟩
  · next hid => exact .inr ⟨hid, h⟩

/-- One call that returns keeps the invariant, the local node and `ksize`. -/
theorem Invariant.step (h : t.Invariant) {op : RoutingOp} (hret : t.step op = some t') :
    t'.Invariant ∧ t'.node = t.node ∧ t'.ksize = t.ksize := by
  cases op with
  | addContact now fuel node =>
      obtain ⟨⟨r, u⟩, hadd, rfl⟩ := Option.map_eq_some_iff.mp hret
      rcases addContact_cases hadd with ⟨-, -, rfl⟩ | ⟨hid, hinsert⟩
      · exact ⟨h, rfl, rfl⟩
      · exact h.insert hid hinsert
  | removeContact node =>
      obtain rfl : t.removeContact node = t' := by simpa [RoutingTable.step] using hret
      refine ⟨h.modifyBucket node.longId_lt (fun b => ?_) (fun b hb => ?_), rfl, rfl⟩
      · exact ⟨(b.removeNode_frame node).1, (b.removeNode_frame node).2.1⟩
      · have hframe := b.removeNode_frame node
        refine ⟨by rw [hframe.1, hframe.2.1]; exact hb.dyadic, hb.valid.removeNode node,
          by rw [hframe.2.2.1]; exact hb.ksize_eq, ?_⟩
        intro n hn
        exact hb.local_absent n (KBucket.mem_contacts_removeNode hn)
  | findNeighbors now target exclude =>
      obtain rfl : (t.findNeighbors now target exclude).2 = t' := by
        simpa [RoutingTable.step] using hret
      refine ⟨h.modifyBucket target.longId_lt (fun b => ⟨rfl, rfl⟩) (fun b hb => ?_), rfl, rfl⟩
      exact ⟨hb.dyadic, ⟨hb.valid.ids_nodup, hb.valid.max_eq, hb.valid.nodes_le,
        hb.valid.replacements_le, hb.valid.full_of_replacement, hb.valid.in_range⟩,
        hb.ksize_eq, hb.local_absent⟩

/-- Every table a run of returning calls reaches satisfies the invariant. -/
theorem Invariant.exec {localNode : Node} {ksize now : ℕ} {ops : List RoutingOp}
    (hrun : Lib.exec RoutingTable.step (new localNode ksize now) ops = some t) :
    t.Invariant ∧ t.node = localNode ∧ t.ksize = ksize := by
  refine exec_invariant (fun t => t.Invariant ∧ t.node = localNode ∧ t.ksize = ksize)
    ⟨invariant_new localNode ksize now, rfl, rfl⟩ ?_ hrun
  rintro r op u ⟨hr, hnode, hk⟩ hstep
  obtain ⟨hu, hnode', hk'⟩ := hr.step hstep
  exact ⟨hu, hnode'.trans hnode, hk'.trans hk⟩

/-! ## What the invariant says -/

/-- The clauses of the routing-table invariant, for a table around `localNode`. -/
structure WellFormed (localNode : Node) (ksize : ℕ) (t : RoutingTable) : Prop where
  /-- Every range is a non-empty dyadic interval `[p * 2^j, (p + 1) * 2^j - 1]`. -/
  dyadic : ∀ b ∈ t.buckets, ∃ p j, b.lo = p * 2 ^ j ∧ b.hi = (p + 1) * 2 ^ j - 1 ∧ b.lo ≤ b.hi
  /-- In list order the ranges are contiguous and partition `[0, 2^128 - 1]`. -/
  partition : Tiles 0 t.ranges (2 ^ 128)
  /-- Exactly one bucket covers a given point, ... -/
  unique_cover : ∀ x < 2 ^ 128, ∃! i : Fin t.buckets.length, (t.buckets.get i).covers x = true
  /-- ... so `bucket_index_for` never falls back. -/
  no_fallback : ∀ x < 2 ^ 128, (t.buckets.findIdx? fun b => b.covers x).isSome = true
  in_range : ∀ b ∈ t.buckets, ∀ n ∈ b.nodes ++ b.replacementNodes, b.covers n.longId = true
  /-- No id occurs twice anywhere in the table. -/
  ids_nodup : ((t.buckets.flatMap fun b => b.nodes ++ b.replacementNodes).map Node.id).Nodup
  nodes_le : ∀ b ∈ t.buckets, b.nodes.length ≤ ksize
  replacements_le : ∀ b ∈ t.buckets, b.replacementNodes.length ≤ 5 * ksize
  full_of_replacement : ∀ b ∈ t.buckets, b.replacementNodes ≠ [] → b.nodes.length = ksize
  local_absent : ∀ b ∈ t.buckets, ∀ n ∈ b.nodes ++ b.replacementNodes, n.id ≠ localNode.id

theorem Invariant.unique_cover (h : t.Invariant) {x : ℕ} (hx : x < 2 ^ 128) :
    ∃! i : Fin t.buckets.length, (t.buckets.get i).covers x = true := by
  obtain ⟨pre, b, post, hb, hcov, -⟩ := h.locate hx
  have hpw := List.pairwise_iff_get.mp h.pairwise_disjoint
  refine ⟨⟨pre.length, by simp [hb]⟩, by simpa [hb] using hcov, ?_⟩
  intro i hi
  have hj : (t.buckets.get ⟨pre.length, by simp [hb]⟩).covers x = true := by simpa [hb] using hcov
  obtain ⟨h1, h2⟩ := KBucket.covers_iff.mp hi
  obtain ⟨h3, h4⟩ := KBucket.covers_iff.mp hj
  rcases lt_trichotomy i ⟨pre.length, by simp [hb]⟩ with hlt | heq | hgt
  · have := hpw _ _ hlt
    omega
  · exact heq
  · have := hpw _ _ hgt
    omega

/-- Ids are distinct across buckets: equal ids sit at one point, and two buckets
never cover the same point. -/
theorem Invariant.ids_nodup (h : t.Invariant) :
    ((t.buckets.flatMap KBucket.contacts).map Node.id).Nodup := by
  rw [List.map_flatMap, List.nodup_flatMap]
  refine ⟨fun b hb => (h.bucketOk b hb).valid.ids_nodup, ?_⟩
  refine List.Pairwise.imp_of_mem ?_ h.pairwise_disjoint
  intro b c hb hc hlt id hidb hidc
  obtain ⟨m, hm, rfl⟩ := List.mem_map.mp hidb
  obtain ⟨n, hn, heq⟩ := List.mem_map.mp hidc
  have h1 := (h.bucketOk b hb).valid.in_range m hm
  have h2 := (h.bucketOk c hc).valid.in_range n hn
  have := Node.longId_congr heq
  omega

/-- The primary contacts of the table, bucket by bucket. -/
def primaries (t : RoutingTable) : List Node := t.buckets.flatMap KBucket.nodes

/-- All contacts of the table, bucket by bucket. -/
def contacts (t : RoutingTable) : List Node := t.buckets.flatMap KBucket.contacts

theorem primaries_sublist_contacts (t : RoutingTable) : t.primaries.Sublist t.contacts :=
  List.Sublist.flatMap_right _ fun _ _ => List.sublist_append_left _ _

theorem Invariant.nodup_primaries (h : t.Invariant) : (t.primaries.map Node.id).Nodup :=
  h.ids_nodup.sublist (t.primaries_sublist_contacts.map Node.id)

/-- **The routing-table invariant.**  Whatever sequence of `add_contact`,
`remove_contact` and `find_neighbors` calls returned, the table is well formed. -/
theorem wellFormed_of_exec (localNode : Node) (ksize now : ℕ) (ops : List RoutingOp)
    (t : RoutingTable) (hrun : exec step (new localNode ksize now) ops = some t) :
    t.WellFormed localNode ksize := by
  obtain ⟨h, rfl, rfl⟩ := Invariant.exec hrun
  have hok := h.bucketOk
  constructor
  case dyadic =>
    intro b hb
    obtain ⟨p, j, hlo, hhi⟩ := (hok b hb).dyadic
    have hpos := Nat.two_pow_pos j
    refine ⟨p, j, hlo, ?_, (hok b hb).dyadic.le⟩
    rw [hhi, Nat.add_mul, Nat.one_mul]
    omega
  case partition => exact h.tiles
  case unique_cover => exact fun x hx => h.unique_cover hx
  case no_fallback =>
    intro x hx
    obtain ⟨pre, b, post, hb, hcov, -⟩ := h.locate hx
    rw [List.findIdx?_isSome, List.any_eq_true]
    exact ⟨b, by simp [hb], hcov⟩
  case in_range => exact fun b hb n hn => KBucket.covers_iff.mpr ((hok b hb).valid.in_range n hn)
  case ids_nodup => exact h.ids_nodup
  case nodes_le => exact fun b hb => (hok b hb).ksize_eq ▸ (hok b hb).valid.nodes_le
  case replacements_le =>
    intro b hb
    have h1 := (hok b hb).valid.replacements_le
    rw [(hok b hb).valid.max_eq, (hok b hb).ksize_eq] at h1
    omega
  case full_of_replacement =>
    exact fun b hb hne => (hok b hb).ksize_eq ▸ (hok b hb).valid.full_of_replacement hne
  case local_absent => exact fun b hb => (hok b hb).local_absent

/-- A run in which a bucket splits, a lookup touches one and a contact leaves. -/
def splitRun : List RoutingOp :=
  [.addContact 0 9 (Node.fromId (NodeId.ofNat 1)),
    .addContact 0 9 (Node.fromId (NodeId.ofNat (2 ^ 158))),
    .findNeighbors 5 (Node.fromId (NodeId.ofNat 7)) none,
    .removeContact (Node.fromId (NodeId.ofNat 1))]

theorem wellFormed_splitRun :
    ∃ t, exec step (new (Node.fromId (NodeId.ofNat (2 ^ 159))) 1 0) splitRun = some t ∧
      t.WellFormed (Node.fromId (NodeId.ofNat (2 ^ 159))) 1 := by
  have hsome : (exec step (new (Node.fromId (NodeId.ofNat (2 ^ 159))) 1 0) splitRun).isSome =
      true := by decide +kernel
  obtain ⟨t, ht⟩ := Option.isSome_iff_exists.mp hsome
  exact ⟨t, ht, wellFormed_of_exec _ _ _ _ t ht⟩

/-! ## A table with three buckets -/

/-- A node whose top bits are those of `n`. -/
def nodeAt (n : ℕ) : Node := Node.fromId (NodeId.ofNat (n <<< 152))

/-- Three contacts, which end up in a bucket each. -/
def threeContacts : List RoutingOp := [0x01, 0x80, 0xc0].map fun n => .addContact 0 9 (nodeAt n)

/-- The table of `nodeAt 0xe0` for `ksize = 1` after `threeContacts`. -/
def threeBuckets : RoutingTable :=
  (exec step (new (nodeAt 0xe0) 1 0) threeContacts).getD (new (nodeAt 0xe0) 1 0)

theorem exec_threeContacts : exec step (new (nodeAt 0xe0) 1 0) threeContacts = some threeBuckets := by
  decide +kernel

end RoutingTable

end AuthKademlia
