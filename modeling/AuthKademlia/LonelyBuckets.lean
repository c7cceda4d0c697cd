import AuthKademlia.ContactChanges

/-!
# Lonely buckets and the refresh pass

A bucket is lonely if no lookup has touched it for an hour.  Once an hour the node draws a
random id in the range of every lonely bucket (`get_refresh_ids`) and looks each of them
up, which touches the bucket the id falls into.  As the buckets tile the key space and a
drawn id folds back to the number it was made of, that is the bucket it was drawn for, so
no bucket is lonely afterwards (`refresh_leaves_none_lonely`).

The timer is meant to be reset by lookups only.  But `split` builds its halves with
`KBucket::new`, which stamps them with the current time, and `add_contact` splits: a lonely
bucket that is split stops being lonely without a lookup.  `stampAt_of_splits` and
`stampAt_of_not_splits` say what a call does to the time stamp of every point of the key
space.

Here the clock is `now_secs()`, in seconds.

## Main definitions

* `KBucket.isLonely`, `RoutingTable.lonelyBuckets` — the hour without a lookup.
* `getRefreshIds`, `refreshPass` — the hourly pass.
* `RoutingTable.SplitsAt` — adding a node splits the bucket of a point.
-/

namespace AuthKademlia

open Lib

/-- A bucket is lonely if it has not been touched by a lookup in the last hour. -/
def KBucket.isLonely (b : KBucket) (now : ℕ) : Bool := decide (now - b.lastUpdated > 3600)

namespace RoutingTable

variable {t t' : RoutingTable} {pre post bs : List KBucket} {b c : KBucket} {node : Node}
  {x now : ℕ}

def lonelyBuckets (t : RoutingTable) (now : ℕ) : List KBucket :=
  t.buckets.filter fun b => b.isLonely now

/-- The bucket of a point. -/
def bucketOf (t : RoutingTable) (x : ℕ) : Option KBucket := t.buckets[t.bucketIndexFor x]?

/-- The bucket of `x` is lonely. -/
def lonelyAt (t : RoutingTable) (now x : ℕ) : Bool := (t.bucketOf x).any fun b => b.isLonely now

/-- The time stamp of the bucket of `x`. -/
def stampAt (t : RoutingTable) (x : ℕ) : Option ℕ := (t.bucketOf x).map KBucket.lastUpdated

theorem lonelyAt_eq (t : RoutingTable) (now x : ℕ) :
    t.lonelyAt now x = (t.stampAt x).any fun stamp => decide (now - stamp > 3600) := by
  simp only [lonelyAt, stampAt, Option.any_map]
  rfl

/-- The bucket that covers a point is the bucket of the point. -/
theorem Invariant.bucketOf_eq (h : t.Invariant) (hc : c ∈ t.buckets) (hx : c.covers x = true) :
    t.bucketOf x = some c := by
  have hlt : x < 2 ^ 128 := by
    have hhi := h.hi_le hc
    have hcov := KBucket.covers_iff.mp hx
    simp only [u128Max] at hhi
    omega
  rcases h.locate hlt with ⟨pre, b, post, hb, hcov, hpre⟩
  have hbc : b = c := h.eq_of_covers (by simp [hb]) hc hcov hx
  simp [bucketOf, bucketIndexFor_eq hb hpre hcov, hb, hbc]

theorem Invariant.stampAt_eq (h : t.Invariant) (hc : c ∈ t.buckets) (hx : c.covers x = true) :
    t.stampAt x = some c.lastUpdated := by
  simp [stampAt, h.bucketOf_eq hc hx]

/-! ## What adding a contact does to the time stamps -/

/-- Adding the node splits the bucket of `x`: it is the bucket of the node as well, it is
full without it, and the split rule applies. -/
def SplitsAt (t : RoutingTable) (node : Node) (x : ℕ) : Prop :=
  node.id ≠ t.node.id ∧ ∃ b ∈ t.buckets, b.covers x = true ∧ b.covers node.longId = true ∧
    b.contains node = false ∧ b.ksize ≤ b.nodes.length ∧ t.mustSplit b = true

/-- Replacing one bucket leaves the time stamps outside its range alone. -/
theorem Invariant.stampAt_beside (h : t.Invariant) (hb : t.buckets = pre ++ b :: post)
    (h' : (t.withBuckets pre bs post).Invariant) (hx : x < 2 ^ 128) (hout : b.covers x = false) :
    (t.withBuckets pre bs post).stampAt x = t.stampAt x := by
  rcases h.locate hx with ⟨pre', c, post', hc, hcov, -⟩
  have hmem : c ∈ t.buckets := by simp [hc]
  have hbeside : c ∈ (t.withBuckets pre bs post).buckets := by
    have hne : c ≠ b := by
      rintro rfl
      simp [hcov] at hout
    have hcases : c ∈ pre ∨ c ∈ post := by simpa [hb, hne] using hmem
    simp only [withBuckets, List.mem_append]
    tauto
  rw [h.stampAt_eq hmem hcov, h'.stampAt_eq hbeside hcov]

/-- A bucket that only takes the node in keeps its time stamp. -/
theorem Invariant.stampAt_put (h : t.Invariant) (hb : t.buckets = pre ++ b :: post)
    (h' : (t.withBuckets pre [(b.addNode node).2] post).Invariant) (hx : x < 2 ^ 128) :
    (t.withBuckets pre [(b.addNode node).2] post).stampAt x = t.stampAt x := by
  have hframe := KBucket.addNode_frame b node
  cases hcov : b.covers x with
  | false => exact h.stampAt_beside hb h' hx hcov
  | true =>
      have hcov' : (b.addNode node).2.covers x = true := by rw [KBucket.covers_addNode, hcov]
      rw [h.stampAt_eq (by simp [hb]) hcov, h'.stampAt_eq (by simp [withBuckets]) hcov']
      simp [hframe.2.2.2.2]

/-- A point of a bucket that is split is in one of the halves. -/
theorem covers_halves {mid : ℕ} (hcov : b.covers x = true) (now : ℕ) :
    (lowHalf b mid now).covers x = true ∨ (highHalf b mid now).covers x = true := by
  simp only [KBucket.covers_iff, lowHalf, highHalf, KBucket.loaded, KBucket.new] at hcov ⊢
  omega

/-- A point outside a bucket is outside its halves. -/
theorem not_covers_half {mid : ℕ} (hmid : b.lo ≤ mid ∧ mid < b.hi) (hout : b.covers x = false)
    (hhalf : c = lowHalf b mid now ∨ c = highHalf b mid now) : c.covers x = false := by
  rw [← Bool.not_eq_true, KBucket.covers_iff] at hout ⊢
  rcases hhalf with rfl | rfl
  · simp only [lowHalf, KBucket.loaded, KBucket.new]
    omega
  · simp only [highHalf, KBucket.loaded, KBucket.new]
    omega

/-- Both halves carry the time of the split. -/
theorem Invariant.stampAt_halves {mid : ℕ}
    (h' : (t.withBuckets pre [lowHalf b mid now, highHalf b mid now] post).Invariant)
    (hcov : b.covers x = true) :
    (t.withBuckets pre [lowHalf b mid now, highHalf b mid now] post).stampAt x = some now := by
  rcases @covers_halves b x mid hcov now with hlow | hhigh
  · exact h'.stampAt_eq (by simp [withBuckets]) hlow
  · exact h'.stampAt_eq (by simp [withBuckets]) hhigh

/-- **Time stamps through a cascade of splits.**  Outside the bucket of the node they stay
as they are, and inside they stay or become the current time. -/
theorem Invariant.stampAt_insert {fuel : ℕ} {r : Option Node} (h : t.Invariant)
    (hid : node.id ≠ t.node.id) (hret : RoutingTable.insert now fuel t node = some (r, t'))
    (hx : x < 2 ^ 128) :
    (t'.stampAt x = t.stampAt x ∨ t'.stampAt x = some now) ∧
      ∀ b ∈ t.buckets, b.covers node.longId = true → b.covers x = false →
        t'.stampAt x = t.stampAt x := by
  have hinv := (h.insert hid hret).1
  refine h.insert_induction (motive := fun t => (t'.stampAt x = t.stampAt x ∨
    t'.stampAt x = some now) ∧ ∀ b ∈ t.buckets, b.covers node.longId = true →
      b.covers x = false → t'.stampAt x = t.stampAt x) hid hret ?_ ?_
  · intro t pre b post hat ht
    subst ht
    have hput := hat.inv.stampAt_put hat.buckets hinv hx
    exact ⟨.inl hput, fun _ _ _ _ => hput⟩
  · intro t pre b post mid hat _ _ hmid hhalves hrest
    have hframe := KBucket.addNode_frame b node
    cases hin : b.covers x with
    | true =>
        -- the halves are stamped, and what follows keeps that
        have hin' : (b.addNode node).2.covers x = true := by rw [KBucket.covers_addNode, hin]
        rw [hhalves.stampAt_halves hin', or_self] at hrest
        refine ⟨.inr hrest.1, ?_⟩
        intro c hc hcnode hcx
        rw [← hat.inv.eq_of_covers hat.mem hc hat.covers hcnode, hin] at hcx
        cases hcx
    | false =>
        have hbeside := hat.inv.stampAt_beside hat.buckets hhalves hx hin
        have hnode : (b.addNode node).2.covers node.longId = true := by
          rw [KBucket.covers_addNode, hat.covers]
        have hout : (b.addNode node).2.covers x = false := by rw [KBucket.covers_addNode, hin]
        have hmid' : (b.addNode node).2.lo ≤ mid ∧ mid < (b.addNode node).2.hi := by
          rwa [hframe.1, hframe.2.1]
        have hsame : t'.stampAt x = t.stampAt x := by
          rw [← hbeside]
          rcases @covers_halves _ _ mid hnode now with hlow | hhigh
          · refine hrest.2 _ (by simp [withBuckets]) hlow ?_
            exact not_covers_half hmid' hout (.inl rfl)
          · refine hrest.2 _ (by simp [withBuckets]) hhigh ?_
            exact not_covers_half hmid' hout (.inr rfl)
        exact ⟨.inl hsame, fun _ _ _ _ => hsame⟩

/-- **A bucket that is split is stamped with the current time**, however often its halves
are split again. -/
theorem Invariant.stampAt_of_splits {fuel : ℕ} {r : Option Node} (h : t.Invariant)
    (hret : t.addContact now fuel node = some (r, t')) (hx : x < 2 ^ 128)
    (hsplits : t.SplitsAt node x) : t'.stampAt x = some now := by
  rcases hsplits with ⟨hid, b, hb, hbx, hnode, hnew, hfull, hrule⟩
  rcases addContact_cases hret with ⟨hlocal, -, -⟩ | ⟨-, hinsert⟩
  · exact absurd hlocal hid
  cases fuel with
  | zero => simp [RoutingTable.insert] at hinsert
  | succ fuel =>
      rcases h.insert_cases hid hinsert with ⟨pre, c, post, hc, hcov, hcase⟩
      obtain rfl : b = c := h.eq_of_covers hb (by simp [hc]) hnode hcov
      have hqueued := KBucket.addNode_fst_eq_false.mpr ⟨hnew, hfull⟩
      cases hcase with
      | added hadded => simp [hqueued] at hadded
      | queued _ hno => simp [mustSplit_addNode t hqueued, hrule] at hno
      | descended mid _ _ hhalves hrec =>
          have hin : (b.addNode node).2.covers x = true := by rw [KBucket.covers_addNode, hbx]
          have hrest := (hhalves.stampAt_insert hid hrec hx).1
          rwa [hhalves.stampAt_halves hin, or_self] at hrest

/-- **Otherwise it keeps its time stamp.** -/
theorem Invariant.stampAt_of_not_splits {fuel : ℕ} {r : Option Node} (h : t.Invariant)
    (hret : t.addContact now fuel node = some (r, t')) (hx : x < 2 ^ 128)
    (hsplits : ¬ t.SplitsAt node x) : t'.stampAt x = t.stampAt x := by
  rcases addContact_cases hret with ⟨-, -, rfl⟩ | ⟨hid, hinsert⟩
  · rfl
  have hall := (h.stampAt_insert hid hinsert hx).2
  rcases h.locate node.longId_lt with ⟨pre, b, post, hb, hcov, hpre⟩
  have hmem : b ∈ t.buckets := by simp [hb]
  cases hbx : b.covers x with
  | false => exact hall b hmem hcov hbx
  | true =>
      have hinv := (h.insert hid hinsert).1
      cases fuel with
      | zero => simp [RoutingTable.insert] at hinsert
      | succ fuel =>
          rw [insert_succ now fuel hb hpre hcov] at hinsert
          dsimp only at hinsert
          -- if the node is taken in or queued, only its bucket changes; a split is excluded
          have hput : t' = t.withBuckets pre [(b.addNode node).2] post := by
            split at hinsert
            · cases hinsert
              rfl
            · next hfull =>
                have hqueued : (b.addNode node).1 = false := by simpa using hfull
                have hfull := KBucket.addNode_fst_eq_false.mp hqueued
                split at hinsert
                · next hrule =>
                    rw [mustSplit_addNode t hqueued] at hrule
                    exact absurd ⟨hid, b, hmem, hbx, hcov, hfull.1, hfull.2, hrule⟩ hsplits
                · cases hinsert
                  rfl
          subst hput
          exact h.stampAt_put hb hinv hx

/-- **When adding a contact leaves the timer alone.**  In a reachable table, for a call of
`add_contact` that returns, the bucket of `x` is still lonely afterwards if it was before,
unless it is lonely and the call splits it. -/
theorem addContact_keeps_lonely_iff (localNode : Node) (ksize start : ℕ) (ops : List RoutingOp)
    (t : RoutingTable) (hrun : exec step (new localNode ksize start) ops = some t)
    (now fuel x : ℕ) (hx : x < 2 ^ 128) (node : Node) (r : Option Node) (t' : RoutingTable)
    (hret : t.addContact now fuel node = some (r, t')) :
    (t.lonelyAt now x = true → t'.lonelyAt now x = true) ↔
      ¬ (t.lonelyAt now x = true ∧ t.SplitsAt node x) := by
  have h := (Invariant.exec hrun).1
  constructor
  · rintro hkeeps ⟨hlonely, hsplits⟩
    have hlonely' := hkeeps hlonely
    rw [lonelyAt_eq, h.stampAt_of_splits hret hx hsplits] at hlonely'
    simp at hlonely'
  · intro hnot hlonely
    have hsame := h.stampAt_of_not_splits hret hx fun hsplits => hnot ⟨hlonely, hsplits⟩
    rw [lonelyAt_eq, hsame, ← lonelyAt_eq]
    exact hlonely

/-- The table of `nodeAt 0xe0` for `ksize = 1` that learned `0x01` at time zero. -/
def oneContact : RoutingTable :=
  (exec step (new (nodeAt 0xe0) 1 0) [.addContact 0 9 (nodeAt 0x01)]).getD (new (nodeAt 0xe0) 1 0)

theorem exec_oneContact :
    exec step (new (nodeAt 0xe0) 1 0) [.addContact 0 9 (nodeAt 0x01)] = some oneContact := by
  decide +kernel

/-- Hearing from the known contact after two hours leaves the bucket lonely. -/
theorem oneContact_stays_lonely :
    oneContact.lonelyAt 7200 0 = true ∧
      ∃ r t', oneContact.addContact 7200 9 (nodeAt 0x01) = some (r, t') ∧
        t'.lonelyAt 7200 0 = true := by
  have hlonely : oneContact.lonelyAt 7200 0 = true := by decide +kernel
  have hreturns : (oneContact.addContact 7200 9 (nodeAt 0x01)).isSome = true := by decide +kernel
  rcases Option.isSome_iff_exists.mp hreturns with ⟨⟨r, t'⟩, hret⟩
  refine ⟨hlonely, r, t', hret, ?_⟩
  refine (addContact_keeps_lonely_iff _ 1 0 _ _ exec_oneContact 7200 9 0 (by decide) _ r t'
    hret).mpr ?_ hlonely
  rintro ⟨-, -, b, hb, -, -, hnew, -⟩
  have hknown : ∀ c ∈ oneContact.buckets, c.contains (nodeAt 0x01) = true := by decide +kernel
  simp [hknown b hb] at hnew

/-- **A split resets the timer.**  After two hours without a lookup the only bucket is
lonely; a newcomer splits it, and none of the buckets is lonely any more. -/
theorem addContact_resets_timer :
    exec step (new (nodeAt 0xe0) 1 0) [.addContact 0 9 (nodeAt 0x01)] = some oneContact ∧
      oneContact.lonelyAt 7200 0 = true ∧
      ((oneContact.addContact 7200 9 (nodeAt 0x80)).map fun ret =>
        (ret.2.lonelyAt 7200 0, (ret.2.lonelyBuckets 7200).length)) = some (false, 0) := by
  decide +kernel

end RoutingTable

/-! ## The refresh pass -/

/-- `rand::Rng::gen_range` on closed ranges: the `i`-th call draws a number of the range it
is given. -/
structure RangeRng where
  genRange : (i lo hi : ℕ) → ℕ
  mem_range : ∀ i lo hi, lo ≤ hi → lo ≤ genRange i lo hi ∧ genRange i lo hi ≤ hi

/-- The id made of a number: its 16 big-endian bytes and four zeros. -/
def refreshId (r : ℕ) : NodeId :=
  ⟨toBeBytes 16 r ++ List.replicate 4 0, by simp [idLen]⟩

/-- A random id for every lonely bucket, drawn from its range. -/
def getRefreshIds (rng : RangeRng) (t : RoutingTable) (now : ℕ) : List NodeId :=
  (t.lonelyBuckets now).mapIdx fun i b => refreshId (rng.genRange i b.lo b.hi)

/-- The lookups in the routing table that `schedule_refresh` makes for the ids. -/
def refreshPass (t : RoutingTable) (now : ℕ) (ids : List NodeId) : RoutingTable :=
  ids.foldl (fun t rid => (t.findNeighbors now (Node.fromId rid) none).2) t

/-- An id made of a number folds back to the number. -/
theorem longId_refreshId {r : ℕ} (hr : r < 2 ^ 128) : (Node.fromId (refreshId r)).longId = r := by
  have htake : (refreshId r).bytes.take 16 = toBeBytes 16 r :=
    List.take_left' (length_toBeBytes 16 r)
  have hdrop : (refreshId r).bytes.drop 16 = List.replicate 4 0 :=
    List.drop_left' (length_toBeBytes 16 r)
  have hzero : fromBeBytes [0, 0, 0, 0] = 0 := by decide
  have hlt : r < 256 ^ 16 := by
    calc r < 2 ^ 128 := hr
      _ = 256 ^ 16 := by norm_num
  simp only [Node.longId, Node.fromId, idToU128, htake, hdrop, List.take_replicate,
    fromBeBytes_toBeBytes_of_lt hlt]
  simp [hzero]

namespace RoutingTable

variable {t : RoutingTable} {b : KBucket} {rest : List KBucket} {now : ℕ}

/-- Looking up a point of the first lonely bucket leaves the others. -/
theorem Invariant.lonelyBuckets_findNeighbors (h : t.Invariant)
    (hlonely : t.lonelyBuckets now = b :: rest) {target : Node}
    (hcov : b.covers target.longId = true) :
    (t.findNeighbors now target none).2.lonelyBuckets now = rest := by
  rcases h.locate target.longId_lt with ⟨pre, c, post, hc, hcov', hpre⟩
  have hb : b ∈ t.lonelyBuckets now := by simp [hlonely]
  have hb' := List.mem_filter.mp hb
  obtain rfl : b = c := h.eq_of_covers hb'.1 (by simp [hc]) hcov hcov'
  have htouch : (t.findNeighbors now target none).2 =
      t.withBuckets pre [b.touchLastUpdated now] post := modifyBucket_eq hc hpre hcov' _
  have hfresh : (b.touchLastUpdated now).isLonely now = false := by
    simp [KBucket.isLonely, KBucket.touchLastUpdated]
  have hsplit : t.lonelyBuckets now =
      pre.filter (fun c => c.isLonely now) ++ b :: post.filter fun c => c.isLonely now := by
    simp [lonelyBuckets, hc, List.filter_append, hb'.2]
  -- `b` is the first lonely bucket, so no bucket before it is lonely
  have hnone : pre.filter (fun c => c.isLonely now) = [] := by
    cases hfilter : pre.filter fun c => c.isLonely now with
    | nil => rfl
    | cons a l =>
        rw [hfilter, hlonely, List.cons_append] at hsplit
        have ha : a ∈ pre.filter fun c => c.isLonely now := by simp [hfilter]
        have hab : b = a := (List.cons.inj hsplit).1
        have hout := hpre a (List.mem_filter.mp ha).1
        rw [← hab, hcov] at hout
        cases hout
  rw [hnone, List.nil_append, hlonely] at hsplit
  rw [htouch, (List.cons.inj hsplit).2]
  simp [lonelyBuckets, withBuckets, List.filter_append, hnone, hfresh]

/-- By induction on the lonely buckets: each lookup settles the first of them. -/
theorem Invariant.lonelyBuckets_refreshPass (h : t.Invariant) {ids : List NodeId}
    (hids : List.Forall₂ (fun b rid => b.covers (Node.fromId rid).longId = true)
      (t.lonelyBuckets now) ids) : (refreshPass t now ids).lonelyBuckets now = [] := by
  generalize hlonely : t.lonelyBuckets now = lonely at hids
  induction hids generalizing t with
  | nil => exact hlonely
  | @cons b rid lonely ids hcov _ ih =>
      have hstep := @Invariant.step t _ h (.findNeighbors now (Node.fromId rid) none) rfl
      exact ih hstep.1 (h.lonelyBuckets_findNeighbors hlonely hcov)

/-- Every id is in the range of the bucket it was drawn for. -/
theorem Invariant.covers_getRefreshIds (h : t.Invariant) (rng : RangeRng) (now : ℕ) :
    List.Forall₂ (fun b rid => b.covers (Node.fromId rid).longId = true) (t.lonelyBuckets now)
      (getRefreshIds rng t now) := by
  rw [List.forall₂_iff_get]
  refine ⟨by simp [getRefreshIds], ?_⟩
  intro i hi hi'
  have hmem : (t.lonelyBuckets now)[i] ∈ t.buckets :=
    (List.mem_filter.mp (List.getElem_mem hi)).1
  have hle := (h.bucketOk _ hmem).dyadic.le
  have hdraw := rng.mem_range i _ _ hle
  have hmax := h.hi_le hmem
  simp only [u128Max] at hmax
  simp only [List.get_eq_getElem, getRefreshIds, List.getElem_mapIdx]
  rw [longId_refreshId (by omega), KBucket.covers_iff]
  exact hdraw

/-- **A refresh pass leaves no bucket lonely.**  In a reachable table, whatever is drawn,
every id of `get_refresh_ids` has its `long_id` in the range of its lonely bucket, and after
`find_neighbors` on all of them no bucket is lonely. -/
theorem refresh_leaves_none_lonely (localNode : Node) (ksize start : ℕ) (ops : List RoutingOp)
    (t : RoutingTable) (hrun : exec step (new localNode ksize start) ops = some t) (now : ℕ)
    (rng : RangeRng) :
    List.Forall₂ (fun b rid => b.covers (Node.fromId rid).longId = true) (t.lonelyBuckets now)
        (getRefreshIds rng t now) ∧
      (refreshPass t now (getRefreshIds rng t now)).lonelyBuckets now = [] := by
  have h := (Invariant.exec hrun).1
  have hids := h.covers_getRefreshIds rng now
  exact ⟨hids, h.lonelyBuckets_refreshPass hids⟩

/-- All three buckets are lonely after two hours, and none is after a pass. -/
theorem refresh_threeBuckets :
    (threeBuckets.lonelyBuckets 7200).length = 3 ∧
      (refreshPass threeBuckets 7200 (getRefreshIds ⟨fun _ lo _ => lo, by simp⟩ threeBuckets
        7200)).lonelyBuckets 7200 = [] :=
  ⟨by decide +kernel,
    (refresh_leaves_none_lonely _ 1 0 _ _ exec_threeContacts 7200 ⟨fun _ lo _ => lo, by simp⟩).2⟩

end RoutingTable

end AuthKademlia
