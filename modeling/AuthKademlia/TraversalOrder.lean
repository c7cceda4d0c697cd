import AuthKademlia.Neighbors

/-!
# The order of the traversal

The comments on `TableTraverser` say that both sides are stored in reverse so that `pop`
yields the bucket closest to the target first.  On the right this is so.  On the left the
buckets before the central one are reversed as well, and then the one at the end, which is
popped first, is bucket `0`, the farthest.

The traverser holds references to buckets.  `positionTraverser` is the same iterator with
the position of a bucket in the table as the reference to it, and every contact with the
position of the bucket it is taken from; without the positions it is the traverser of
`find_neighbors` (`ofTwoSided_positionTraverser`).  So one can say from which bucket each
contact came.

Left bucket `j` is visited at time `2 * j + 1` and should be at `2 * (i - 1 - j) + 1`, and
right bucket `i + 1 + k` at `2 * k + 2`; buckets without contacts do not show.  The two
orders look the same exactly if they agree on the buckets that have contacts.

## Main definitions

* `RoutingTable.positionTraverser` — the traverser with bucket positions.
* `outward`, `visited` — the positions in the order meant, and in the order taken.
* `RoutingTable.LeftUnnoticed` — the buckets on the left do not show the difference.
-/

namespace AuthKademlia

open Lib

/-- The positions of `n` buckets outward from `i`: `i`, then `i - 1`, `i + 1`, `i - 2`,
`i + 2` and so on; once one side is used up, the rest of the other. -/
def outward (i n : ℕ) : List ℕ :=
  i :: alternate (List.range i).reverse (List.range' (i + 1) (n - (i + 1)))

/-- The positions in the order in which the traverser takes them. -/
def visited (i n : ℕ) : List ℕ := i :: alternate (List.range i) (List.range' (i + 1) (n - (i + 1)))

theorem visited_perm_outward (i n : ℕ) : (visited i n).Perm (outward i n) := by
  refine List.Perm.cons i ((alternate_perm _ _).trans ?_)
  refine List.Perm.trans ?_ (alternate_perm _ _).symm
  exact (List.reverse_perm _).symm.append_right _

/-- When the traverser gets to a position. -/
def visitTime (i p : ℕ) : ℕ := if p = i then 0 else if p < i then 2 * p + 1 else 2 * (p - i)

/-- When it should. -/
def outwardTime (i p : ℕ) : ℕ :=
  if p = i then 0 else if p < i then 2 * (i - 1 - p) + 1 else 2 * (p - i)

/-- Positions taken from two sides in turn are sorted by time. -/
theorem sides_sorted {i n : ℕ} {time : ℕ → ℕ} {left : List ℕ} (hcentre : time i = 0)
    (hleft : left.map time = (List.range left.length).map fun j => 1 + 2 * j)
    (hright : ∀ k, time (i + 1 + k) = 2 + 2 * k) :
    (i :: alternate left (List.range' (i + 1) (n - (i + 1)))).Pairwise
      fun p q => time p < time q := by
  have hright' : (List.range' (i + 1) (n - (i + 1))).map time =
      (List.range (List.range' (i + 1) (n - (i + 1))).length).map fun k => 1 + 1 + 2 * k := by
    simp [List.range'_eq_map_range, hright]
  refine List.Pairwise.cons ?_ (alternate_pairwise_lt hleft hright')
  -- all other times are positive
  intro p hp
  have hmem : time p ∈ left.map time ++ (List.range' (i + 1) (n - (i + 1))).map time := by
    simpa using ((alternate_perm _ _).map time).mem_iff.mp (List.mem_map_of_mem hp)
  simp only [hleft, hright', List.mem_append, List.mem_map, List.mem_range] at hmem
  omega

theorem visited_sorted (i n : ℕ) :
    (visited i n).Pairwise fun p q => visitTime i p < visitTime i q := by
  refine sides_sorted (by simp [visitTime]) ?_ ?_
  · simp only [List.length_range]
    refine List.map_congr_left ?_
    intro j hj
    have := List.mem_range.mp hj
    simp only [visitTime]
    split_ifs <;> omega
  · intro k
    simp only [visitTime]
    split_ifs <;> omega

theorem outward_sorted (i n : ℕ) :
    (outward i n).Pairwise fun p q => outwardTime i p < outwardTime i q := by
  refine sides_sorted (by simp [outwardTime]) ?_ ?_
  · apply List.ext_getElem
    · simp
    · intro j hj _
      have hj' : j < i := by simpa using hj
      simp only [List.getElem_map, List.getElem_reverse, List.getElem_range, List.length_range,
        outwardTime]
      split_ifs <;> omega
  · intro k
    simp only [outwardTime]
    split_ifs <;> omega

namespace RoutingTable

variable {t : RoutingTable} {target : Node} {i : ℕ}

/-! ## The traverser with positions -/

/-- The contacts of the bucket at a position, each with the position. -/
def contactsAt (t : RoutingTable) (p : ℕ) : List (ℕ × Node) :=
  (((t.buckets[p]?).map KBucket.nodes).getD []).map fun n => (p, n)

/-- `TableTraverser::new`, with the position of a bucket as the reference to it. -/
def positionTraverser (t : RoutingTable) (target : Node) : TwoSided (ℕ × Node) ℕ :=
  let idx := t.bucketIndexFor target.longId
  { current := t.contactsAt idx
    left := (List.range idx).reverse
    right := (List.range' (idx + 1) (t.buckets.length - (idx + 1))).reverse
    takeLeft := true }

/-- The bucket at a position; positions outside the table do not occur. -/
def bucketAt (t : RoutingTable) (p : ℕ) : KBucket := (t.buckets[p]?).getD (KBucket.new 0 0 0 0)

theorem nodes_bucketAt (t : RoutingTable) (p : ℕ) :
    (t.bucketAt p).nodes = (t.contactsAt p).map Prod.snd := by
  cases h : t.buckets[p]? <;> simp [bucketAt, contactsAt, h, KBucket.new, Function.comp_def]

theorem bucketIndexFor_le (t : RoutingTable) (x : ℕ) : t.bucketIndexFor x ≤ t.buckets.length := by
  rw [bucketIndexFor]
  cases hfind : t.buckets.findIdx? fun b => b.covers x with
  | none => simp
  | some idx =>
      rcases List.findIdx?_eq_some_iff_getElem.mp hfind with ⟨hlt, -⟩
      exact hlt.le

/-- **Without the positions it is the traverser of `find_neighbors`.** -/
theorem ofTwoSided_positionTraverser (t : RoutingTable) (target : Node) :
    TableTraverser.ofTwoSided t.bucketAt Prod.snd (t.positionTraverser target) =
      t.traverser target := by
  have hbuckets : ∀ k,
      (List.range' k (t.buckets.length - k)).map t.bucketAt = t.buckets.drop k := by
    intro k
    apply List.ext_getElem
    · simp
    · intro p h1 h2
      have hp : k + p < t.buckets.length := by
        simp only [List.length_drop] at h2
        omega
      simp [bucketAt, hp]
  have htake : (List.range (t.bucketIndexFor target.longId)).map t.bucketAt =
      t.buckets.take (t.bucketIndexFor target.longId) := by
    have hle := t.bucketIndexFor_le target.longId
    apply List.ext_getElem
    · simpa using hle
    · intro p h1 _
      have hp : p < t.buckets.length := by
        simp only [List.length_map, List.length_range] at h1
        omega
      simp [bucketAt, hp]
  simp only [TableTraverser.ofTwoSided, positionTraverser, traverser, List.map_reverse, hbuckets,
    htake]
  simp [contactsAt, Function.comp_def]

/-- The contacts come bucket by bucket, in the order `visited`. -/
theorem yields_positionTraverser (t : RoutingTable) (target : Node) :
    Yields (TwoSided.next t.contactsAt) (t.positionTraverser target)
      ((visited (t.bucketIndexFor target.longId) t.buckets.length).flatMap
        fun p => (t.contactsAt p).reverse) := by
  have h := TwoSided.yields_contents t.contactsAt (t.positionTraverser target)
  simpa [TwoSided.contents, TwoSided.groupOrder, positionTraverser, visited] using h

/-- The positions alone: each bucket as often as it has contacts. -/
theorem map_fst_flatMap_contactsAt (t : RoutingTable) (l : List ℕ) :
    (l.flatMap fun p => (t.contactsAt p).reverse).map Prod.fst =
      l.flatMap fun p => List.replicate (t.contactsAt p).length p := by
  rw [List.map_flatMap]
  congr 1
  funext p
  simp [contactsAt]

/-! ## When the order does not show -/

/-- The bucket at the position has contacts. -/
def Occupied (t : RoutingTable) (p : ℕ) : Prop := ∃ b, t.buckets[p]? = some b ∧ b.nodes ≠ []

theorem occupied_iff (t : RoutingTable) (p : ℕ) : t.Occupied p ↔ 0 < (t.contactsAt p).length := by
  cases h : t.buckets[p]? <;> simp [Occupied, contactsAt, h, List.length_pos_iff]

/-- Every bucket with contacts is visited. -/
theorem Occupied.mem_visited {p : ℕ} (h : t.Occupied p) (i : ℕ) :
    p ∈ visited i t.buckets.length := by
  rcases h with ⟨b, hb, -⟩
  rcases List.getElem?_eq_some_iff.mp hb with ⟨hlt, -⟩
  rw [visited, List.mem_cons, (alternate_perm _ _).mem_iff, List.mem_append, List.mem_range,
    List.mem_range'_1]
  omega

/-- The buckets left of `i` do not show in which order they are visited: at most one of them
has contacts, and between the times at which it is visited and at which it should be no
bucket with contacts is visited on the right. -/
def LeftUnnoticed (t : RoutingTable) (i : ℕ) : Prop :=
  ∀ j < i, t.Occupied j → (∀ j' < i, t.Occupied j' → j' = j) ∧
    ∀ k, t.Occupied (i + 1 + k) → (j ≤ k ↔ i - 1 - j ≤ k)

@[simp] theorem visitTime_centre (i : ℕ) : visitTime i i = 0 := by simp [visitTime]

@[simp] theorem outwardTime_centre (i : ℕ) : outwardTime i i = 0 := by simp [outwardTime]

theorem visitTime_left {i j : ℕ} (h : j < i) : visitTime i j = 2 * j + 1 := by
  simp [visitTime, h, h.ne]

theorem outwardTime_left {i j : ℕ} (h : j < i) : outwardTime i j = 2 * (i - 1 - j) + 1 := by
  simp [outwardTime, h, h.ne]

theorem visitTime_right (i k : ℕ) : visitTime i (i + 1 + k) = 2 * k + 2 := by
  simp only [visitTime]
  split_ifs <;> omega

theorem outwardTime_right (i k : ℕ) : outwardTime i (i + 1 + k) = 2 * k + 2 := by
  simp only [outwardTime]
  split_ifs <;> omega

/-- A position is the centre, on the left or on the right. -/
theorem position_cases (i p : ℕ) : p = i ∨ p < i ∨ ∃ k, p = i + 1 + k := by
  by_cases h : i < p
  · exact .inr (.inr ⟨p - (i + 1), by omega⟩)
  · omega

/-- In terms of times: the two orders agree on the buckets with contacts. -/
theorem leftUnnoticed_iff (t : RoutingTable) (i : ℕ) :
    t.LeftUnnoticed i ↔ ∀ p q, t.Occupied p → t.Occupied q → visitTime i p < visitTime i q →
      outwardTime i p < outwardTime i q := by
  constructor
  · intro h p q hp hq hlt
    rcases position_cases i q with rfl | hqi | ⟨k, rfl⟩
    · simp at hlt
    · rcases position_cases i p with rfl | hpi | ⟨k, rfl⟩
      · simp [outwardTime_left hqi]
      · rw [(h q hqi hq).1 p hpi hp] at hlt
        exact absurd hlt (Nat.lt_irrefl _)
      · have := (h q hqi hq).2 k hp
        rw [visitTime_right, visitTime_left hqi] at hlt
        rw [outwardTime_right, outwardTime_left hqi]
        omega
    · rcases position_cases i p with rfl | hpi | ⟨k', rfl⟩
      · simp [outwardTime_right]
      · have := (h p hpi hp).2 k hq
        rw [visitTime_right, visitTime_left hpi] at hlt
        rw [outwardTime_right, outwardTime_left hpi]
        omega
      · rwa [outwardTime_right, outwardTime_right, ← visitTime_right i k', ← visitTime_right i k]
  · intro h j hj hoj
    refine ⟨?_, ?_⟩
    · -- of two left buckets the nearer one should come first, but comes last
      intro j' hj' hoj'
      have h1 := h j j' hoj hoj'
      have h2 := h j' j hoj' hoj
      rw [visitTime_left hj, visitTime_left hj', outwardTime_left hj, outwardTime_left hj'] at h1 h2
      omega
    · intro k hok
      have h1 := h j _ hoj hok
      have h2 := h _ j hok hoj
      rw [visitTime_left hj, visitTime_right, outwardTime_left hj, outwardTime_right] at h1 h2
      omega

/-- **When the traversal goes outward.**  The traverser of `find_neighbors` gives the contacts
of some list, and it takes them from the buckets `i`, `i - 1`, `i + 1`, `i - 2`, ..., where
`i` is the bucket of the target, if and only if the buckets on the left do not show in which
order they are visited. -/
theorem traversal_outward_iff (t : RoutingTable) (target : Node) :
    let i := t.bucketIndexFor target.longId
    ∃ l : List (ℕ × Node),
      Yields (TwoSided.next t.contactsAt) (t.positionTraverser target) l ∧
      Yields TableTraverser.next (t.traverser target) (l.map Prod.snd) ∧
      (l.map Prod.fst = ((outward i t.buckets.length).flatMap fun p =>
          List.replicate (t.contactsAt p).length p) ↔
        t.LeftUnnoticed i) := by
  intro i
  have hyields := t.yields_positionTraverser target
  refine ⟨_, hyields, ?_, ?_⟩
  · have hmap := hyields.map (TableTraverser.next_ofTwoSided t.nodes_bucketAt)
    rwa [ofTwoSided_positionTraverser] at hmap
  · rw [map_fst_flatMap_contactsAt, leftUnnoticed_iff,
      flatMap_replicate_eq_iff (visited_perm_outward _ _) (visited_sorted _ _)
        (outward_sorted _ _)]
    simp only [← occupied_iff]
    constructor
    · intro h p q hp hq
      exact h p (hp.mem_visited i) q (hq.mem_visited i) hp hq
    · intro h p _ q _ hp hq
      exact h p q hp hq

/-- **The farthest bucket on the left comes first.**  Around the last of three buckets the
contacts come from buckets `2`, `0` and `1`. -/
theorem traversal_not_outward :
    exec step (new (nodeAt 0xe0) 1 0) threeContacts = some threeBuckets ∧
      threeBuckets.bucketIndexFor (nodeAt 0xc0).longId = 2 ∧
      Yields (TwoSided.next threeBuckets.contactsAt)
        (threeBuckets.positionTraverser (nodeAt 0xc0))
        [(2, nodeAt 0xc0), (0, nodeAt 0x01), (1, nodeAt 0x80)] ∧
      outward 2 threeBuckets.buckets.length = [2, 1, 0] := by
  have hlist : (visited (threeBuckets.bucketIndexFor (nodeAt 0xc0).longId)
      threeBuckets.buckets.length).flatMap (fun p => (threeBuckets.contactsAt p).reverse) =
      [(2, nodeAt 0xc0), (0, nodeAt 0x01), (1, nodeAt 0x80)] := by decide +kernel
  refine ⟨exec_threeContacts, by decide +kernel, ?_, by decide +kernel⟩
  rw [← hlist]
  exact threeBuckets.yields_positionTraverser (nodeAt 0xc0)

end RoutingTable

end AuthKademlia
