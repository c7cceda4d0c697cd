import AuthKademlia.RoutingInvariant

/-!
# What adding and removing a contact changes

`add_contact` may split buckets many times over, and each split puts all contacts of a
bucket into two fresh ones.  Nothing is lost on the way: a split keeps the order of the
contacts, so the primary ones come first in both halves, and there is room for all.  The
only contact a call can displace is the oldest replacement of the bucket it finds, when
the newcomer is queued behind a full replacement list (`Valid.queueReplacement_cases`);
after that the newcomer is among the contacts and queueing it again displaces nothing.

`remove_contact` touches the one bucket that covers the node, and there filters its id
out of both lists.

## Main definitions

* `RoutingTable.Added` — the effect of a call of `insert`.
-/

namespace AuthKademlia

open Lib

/-! ## One bucket -/

namespace KBucket

variable {b : KBucket} {node m : Node}

/-- **Queueing a node** drops nothing, or the oldest replacement of a full list that does
not hold the node yet. -/
theorem Valid.queueReplacement_cases (hb : b.Valid) (hk : 1 ≤ b.ksize) (node : Node) :
    b.queueReplacement node = withoutFirst node b.replacementNodes ++ [node] ∨
      ∃ oldest rest, b.replacementNodes = oldest :: rest ∧
        node.id ∉ b.replacementNodes.map Node.id ∧
        b.replacementNodes.length = b.maxReplacementNodes ∧
        b.queueReplacement node = rest ++ [node] := by
  have hmax := hb.max_eq
  have hle := hb.replacements_le
  by_cases hknown : node.id ∈ b.replacementNodes.map Node.id
  · have hlen := (perm_map_id_refresh hknown).length_eq
    rw [List.length_map, List.length_map] at hlen
    exact Or.inl (evictOldest_of_le (hlen.trans_le hle))
  · simp only [queueReplacement, withoutFirst_of_notMem hknown]
    by_cases hroom : b.replacementNodes.length < b.maxReplacementNodes
    · exact Or.inl (evictOldest_of_le (by simpa using Nat.succ_le_of_lt hroom))
    · right
      cases hr : b.replacementNodes with
      | nil =>
          simp only [hr, List.length_nil] at hroom
          omega
      | cons oldest rest =>
          simp only [hr, List.length_cons] at hroom hle
          refine ⟨oldest, rest, rfl, hr ▸ hknown, by simp only [List.length_cons]; omega, ?_⟩
          have hover : (oldest :: rest ++ [node]).length - b.maxReplacementNodes = 1 := by
            simp only [List.length_append, List.length_cons, List.length_nil]
            omega
          rw [evictOldest_eq_drop, hover]
          rfl

/-- A queued node is the newest replacement. -/
theorem Valid.getLast?_queueReplacement (hb : b.Valid) (hk : 1 ≤ b.ksize) (node : Node) :
    (b.queueReplacement node).getLast? = some node := by
  rcases hb.queueReplacement_cases hk node with h | ⟨oldest, rest, -, -, -, h⟩ <;> simp [h]

/-- **What `addNode` does**: refresh, append or queue. -/
theorem addNode_cases (b : KBucket) (node : Node) :
    (b.contains node = true ∧
      b.addNode node = (true, { b with nodes := withoutFirst node b.nodes ++ [node] })) ∨
    (b.contains node = false ∧ b.nodes.length < b.ksize ∧
      b.addNode node = (true, { b with nodes := b.nodes ++ [node] })) ∨
    (b.contains node = false ∧ b.ksize ≤ b.nodes.length ∧
      b.addNode node = (false, { b with replacementNodes := b.queueReplacement node })) := by
  cases hc : b.contains node with
  | true => exact Or.inl ⟨rfl, addNode_of_contains hc⟩
  | false =>
      rcases Nat.lt_or_ge b.nodes.length b.ksize with hroom | hfull
      · exact Or.inr (Or.inl ⟨rfl, hroom, addNode_of_room hc hroom⟩)
      · exact Or.inr (Or.inr ⟨rfl, hfull, addNode_of_full hc hfull⟩)

/-- `addNode` leaves every primary id primary. -/
theorem mem_nodes_addNode (hm : m ∈ b.nodes) : m.id ∈ (b.addNode node).2.nodes.map Node.id := by
  have hid := List.mem_map_of_mem (f := Node.id) hm
  rcases addNode_cases b node with ⟨hc, h⟩ | ⟨-, -, h⟩ | ⟨-, -, h⟩ <;> rw [h]
  · exact (perm_map_id_refresh (contains_iff.mp hc)).mem_iff.mpr hid
  · rw [List.map_append]
    exact List.mem_append_left _ hid
  · exact hid

/-- `addNode` keeps a primary contact with another id as it is. -/
theorem mem_nodes_addNode_of_ne (hm : m ∈ b.nodes) (hid : m.id ≠ node.id) :
    m ∈ (b.addNode node).2.nodes := by
  rcases addNode_cases b node with ⟨-, h⟩ | ⟨-, -, h⟩ | ⟨-, -, h⟩ <;> rw [h]
  · exact List.mem_append_left _ ((List.mem_eraseP_of_neg (by simpa using hid)).mpr hm)
  · exact List.mem_append_left _ hm
  · exact hm

/-- **What `addNode` can displace**: the oldest replacement, if the list is full and the
node is new to the bucket. -/
theorem Valid.kept_or_oldest (hb : b.Valid) (hk : 1 ≤ b.ksize) (hm : m ∈ b.contacts) :
    m.id ∈ (b.addNode node).2.contacts.map Node.id ∨
      (node.id ∉ b.contacts.map Node.id ∧ b.replacementNodes.head? = some m ∧
        b.replacementNodes.length = b.maxReplacementNodes) := by
  simp only [contacts, List.map_append, List.mem_append]
  rcases List.mem_append.mp hm with hm | hm
  · exact Or.inl (Or.inl (mem_nodes_addNode hm))
  · have hid := List.mem_map_of_mem (f := Node.id) hm
    rcases addNode_cases b node with ⟨-, h⟩ | ⟨-, -, h⟩ | ⟨hc, -, h⟩ <;> rw [h]
    · exact Or.inl (Or.inr hid)
    · exact Or.inl (Or.inr hid)
    · have hnew : node.id ∉ b.nodes.map Node.id := fun h => by simp [contains_iff.mpr h] at hc
      rcases hb.queueReplacement_cases hk node with hq | ⟨oldest, rest, hr, hnew', hmax, hq⟩
      · left
        right
        simp only [hq]
        by_cases hknown : node.id ∈ b.replacementNodes.map Node.id
        · exact (perm_map_id_refresh hknown).mem_iff.mpr hid
        · rw [withoutFirst_of_notMem hknown, List.map_append]
          exact List.mem_append_left _ hid
      · rw [hr] at hm
        rcases List.mem_cons.mp hm with rfl | hm
        · exact Or.inr ⟨not_or.mpr ⟨hnew, hnew'⟩, by rw [hr]; rfl, hmax⟩
        · left
          right
          simp only [hq]
          exact List.mem_map_of_mem (List.mem_append_left _ hm)

/-- The node itself is there afterwards, among the primary contacts unless it had to be
queued. -/
theorem mem_nodes_of_added (h : (b.addNode node).1 = true) : node ∈ (b.addNode node).2.nodes := by
  rcases addNode_cases b node with ⟨-, heq⟩ | ⟨-, -, heq⟩ | ⟨-, -, heq⟩ <;> rw [heq] at h ⊢
  · simp
  · simp
  · cases h

theorem Valid.getLast?_of_queued (hb : b.Valid) (hk : 1 ≤ b.ksize)
    (h : (b.addNode node).1 = false) :
    (b.addNode node).2.replacementNodes.getLast? = some node := by
  rcases addNode_fst_eq_false.mp h with ⟨hc, hfull⟩
  rw [addNode_of_full hc hfull]
  exact hb.getLast?_queueReplacement hk node

/-- Among distinct contacts, the first entry with the node's id is the only one. -/
theorem withoutFirst_eq_filter {l : List Node} (h : (l.map Node.id).Nodup) :
    withoutFirst node l = l.filter fun n => n.id != node.id := by
  induction l with
  | nil => rfl
  | cons n l ih =>
      rcases List.nodup_cons.mp h with ⟨hn, hl⟩
      by_cases hid : n.id = node.id
      · have hrest : l.filter (fun n => n.id != node.id) = l := by
          refine List.filter_eq_self.mpr fun m hm => ?_
          simp only [bne_iff_ne, ne_eq]
          exact fun heq => hn (hid ▸ heq ▸ List.mem_map_of_mem hm)
        simp [withoutFirst, hid, hrest]
      · simpa [withoutFirst, hid] using ih hl

/-- **What `removeNode` keeps**: all contacts with another id. -/
theorem Valid.contacts_removeNode_perm (hb : b.Valid) (node : Node) :
    (b.removeNode node).contacts.Perm (b.contacts.filter fun n => n.id != node.id) := by
  have hnodup := hb.ids_nodup
  rw [contacts, List.map_append, List.nodup_append] at hnodup
  simp only [contacts, List.filter_append, ← @withoutFirst_eq_filter node _ hnodup.1,
    KBucket.removeNode]
  split
  · split
    · next r hr =>
        -- the newest replacement moves to the end of the primary list
        have hsplit := List.dropLast_append_getLast? r hr
        rw [List.append_assoc]
        refine List.Perm.append_left _ ?_
        conv_rhs => rw [← hsplit]
        exact List.perm_append_comm
    · exact List.Perm.refl _
  · next hc =>
      rw [withoutFirst_of_notMem fun h => hc (contains_iff.mpr h)]

/-- The other replacements of a bucket. -/
def otherReplacements (b : KBucket) (node : Node) : List Node :=
  b.replacementNodes.filter fun n => n.id != node.id

/-- **Promotion.**  If a primary contact is removed, the newest of the other replacements
takes the last place; only without one does the primary list get shorter. -/
theorem removeNode_promotes (h : b.contains node = true) :
    (∀ r, (b.otherReplacements node).getLast? = some r →
      (b.removeNode node).nodes.getLast? = some r ∧
        (b.removeNode node).nodes.length = b.nodes.length) ∧
    ((b.removeNode node).nodes.length < b.nodes.length → b.otherReplacements node = []) := by
  have hlen := length_withoutFirst h
  simp only [removeNode, if_pos h, otherReplacements]
  cases hr : (b.replacementNodes.filter fun n => n.id != node.id).getLast? with
  | none =>
      refine ⟨fun r hr => (by cases hr), fun _ => ?_⟩
      exact List.getLast?_eq_none_iff.mp hr
  | some r => simp [hlen]

theorem nodes_removeNode_of_not_contains (h : b.contains node = false) :
    (b.removeNode node).nodes = b.nodes := by
  simp [removeNode, h]

/-- `removeNode` keeps a primary contact with another id as it is. -/
theorem mem_nodes_removeNode_of_ne (hm : m ∈ b.nodes) (hid : m.id ≠ node.id) :
    m ∈ (b.removeNode node).nodes := by
  have hkept : m ∈ withoutFirst node b.nodes :=
    (List.mem_eraseP_of_neg (by simpa using hid)).mpr hm
  unfold removeNode
  dsimp only
  split
  · split
    · exact List.mem_append_left _ hkept
    · exact hkept
  · exact hm

end KBucket

/-! ## From a bucket to the table -/

namespace RoutingTable

variable {t t' : RoutingTable} {pre bs post : List KBucket} {b : KBucket} {node m : Node}

/-- What happens to the contacts of one bucket that is replaced by others happens to those
of the table; `f` is one of its lists. -/
theorem kept_withBuckets (f : KBucket → List Node) {P : Node → Prop}
    (hb : t.buckets = pre ++ b :: post)
    (h : ∀ m ∈ f b, m.id ∈ (bs.flatMap f).map Node.id ∨ P m) (hm : m ∈ t.buckets.flatMap f) :
    m.id ∈ ((t.withBuckets pre bs post).buckets.flatMap f).map Node.id ∨ P m := by
  simp only [hb, List.flatMap_append, List.flatMap_cons, List.mem_append] at hm
  simp only [withBuckets, List.flatMap_append, List.map_append, List.mem_append]
  rcases hm with hm | hm | hm
  · exact Or.inl (Or.inl (Or.inl (List.mem_map_of_mem hm)))
  · rcases h m hm with h | h
    · exact Or.inl (Or.inl (Or.inr h))
    · exact Or.inr h
  · exact Or.inl (Or.inr (List.mem_map_of_mem hm))

/-- A split keeps every contact. -/
theorem mem_contacts_halves (mid now : ℕ) (hm : m ∈ b.contacts) :
    m ∈ [lowHalf b mid now, highHalf b mid now].flatMap KBucket.contacts := by
  simp only [List.flatMap_cons, List.flatMap_nil, List.append_nil, lowHalf, highHalf,
    KBucket.contacts_loaded, List.mem_append, List.mem_filter, hm, true_and, decide_eq_true_eq]
  omega

/-- A split keeps primary contacts primary: they come first in both halves. -/
theorem mem_nodes_halves (hb : b.Valid) (mid now : ℕ) (hm : m ∈ b.nodes) :
    m ∈ [lowHalf b mid now, highHalf b mid now].flatMap KBucket.nodes := by
  have hside : ∀ p : Node → Bool, p m = true → m ∈ (b.contacts.filter p).take b.ksize := by
    intro p hp
    have hlen : (b.nodes.filter p).length ≤ b.ksize :=
      (List.length_filter_le _ _).trans hb.nodes_le
    rw [KBucket.contacts, List.filter_append, List.take_append, List.take_of_length_le hlen]
    exact List.mem_append_left _ (List.mem_filter.mpr ⟨hm, hp⟩)
  simp only [List.flatMap_cons, List.flatMap_nil, List.append_nil, lowHalf, highHalf,
    KBucket.loaded, List.mem_append]
  rcases Nat.lt_or_ge mid m.longId with h | h
  · exact Or.inr (hside _ (decide_eq_true h))
  · exact Or.inl (hside _ (decide_eq_true h))

/-- Only one bucket covers a point. -/
theorem Invariant.eq_of_covers (h : t.Invariant) {c : KBucket} {x : ℕ} (hb : b ∈ t.buckets)
    (hc : c ∈ t.buckets) (hbx : b.covers x = true) (hcx : c.covers x = true) : b = c := by
  have hx : x < 2 ^ 128 := by
    have h1 := KBucket.covers_iff.mp hbx
    have h2 := h.hi_le hb
    simp only [u128Max] at h2
    omega
  rcases List.get_of_mem hb with ⟨i, rfl⟩
  rcases List.get_of_mem hc with ⟨j, rfl⟩
  exact congrArg t.buckets.get ((h.unique_cover hx).unique hbx hcx)

/-- An id is known to the table only if it is known to the bucket that covers it. -/
theorem Invariant.mem_contacts_of_covers (h : t.Invariant) (hb : b ∈ t.buckets)
    (hcov : b.covers node.longId = true) (hm : node.id ∈ t.contacts.map Node.id) :
    node.id ∈ b.contacts.map Node.id := by
  rcases List.mem_map.mp hm with ⟨m, hm, hid⟩
  rcases List.mem_flatMap.mp hm with ⟨c, hc, hmc⟩
  have hrange := (h.bucketOk c hc).valid.in_range m hmc
  rw [Node.longId_congr hid] at hrange
  rw [h.eq_of_covers hb hc hcov (KBucket.covers_iff.mpr hrange), ← hid]
  exact List.mem_map_of_mem hmc

/-! ## Adding a contact -/

/-- `m` may have to go when `node` is added: it is the oldest replacement of the bucket of
`node`, the replacement list is full, and `node` is not in the table yet. -/
def MayGo (t : RoutingTable) (node m : Node) : Prop :=
  node.id ∉ t.contacts.map Node.id ∧
    ∃ b ∈ t.buckets, b.covers node.longId = true ∧ b.replacementNodes.head? = some m ∧
      b.replacementNodes.length = 5 * t.ksize

/-- The effect of a call of `insert` that returned `r`. -/
structure Added (node : Node) (t : RoutingTable) (r : Option Node) (t' : RoutingTable) : Prop where
  primary : ∀ m ∈ t.primaries, m.id ∈ t'.primaries.map Node.id
  kept : ∀ m ∈ t.contacts, m.id ∈ t'.contacts.map Node.id ∨ t.MayGo node m
  /-- The node is primary, or the newest replacement of a full bucket that is not split. -/
  answer : (r = none ∧ node ∈ t'.primaries) ∨
    ∃ b ∈ t'.buckets, b.replacementNodes.getLast? = some node ∧ b.nodes.length = t.ksize ∧
      r = b.head ∧ b.covers t.node.longId = false ∧ b.depth % 5 = 0

/-- `addNode` on one bucket, whatever buckets its contacts are put into afterwards, keeps
the primary contacts of the table ... -/
theorem primary_withBuckets (hb : t.buckets = pre ++ b :: post) (node : Node)
    (hbs : ∀ m ∈ (b.addNode node).2.nodes, m ∈ bs.flatMap KBucket.nodes) (hm : m ∈ t.primaries) :
    m.id ∈ (t.withBuckets pre bs post).primaries.map Node.id := by
  refine (kept_withBuckets (P := fun _ => False) KBucket.nodes hb ?_ hm).resolve_right id
  intro m hm
  rcases List.mem_map.mp (@KBucket.mem_nodes_addNode b node m hm) with ⟨m', hm', hid⟩
  exact Or.inl (hid ▸ List.mem_map_of_mem (hbs m' hm'))

/-- ... and all contacts but one. -/
theorem Invariant.contact_withBuckets (h : t.Invariant) (hb : t.buckets = pre ++ b :: post)
    (hk : 1 ≤ t.ksize) (hcov : b.covers node.longId = true)
    (hbs : ∀ m ∈ (b.addNode node).2.contacts, m ∈ bs.flatMap KBucket.contacts)
    (hm : m ∈ t.contacts) :
    m.id ∈ (t.withBuckets pre bs post).contacts.map Node.id ∨ t.MayGo node m := by
  have hmem : b ∈ t.buckets := by simp [hb]
  have hok := h.bucketOk b hmem
  refine kept_withBuckets KBucket.contacts hb ?_ hm
  intro m hm
  rcases @KBucket.Valid.kept_or_oldest b node m hok.valid (hok.ksize_eq ▸ hk) hm with
    hkept | ⟨hnew, hhead, hlen⟩
  · rcases List.mem_map.mp hkept with ⟨m', hm', hid⟩
    exact Or.inl (hid ▸ List.mem_map_of_mem (hbs m' hm'))
  · right
    refine ⟨fun hknown => hnew (h.mem_contacts_of_covers hmem hcov hknown), b, hmem, hcov, hhead, ?_⟩
    rw [hlen, hok.valid.max_eq, hok.ksize_eq, Nat.mul_comm]

/-- **One call of `insert`**, by induction on the splits: the first bucket may displace a
contact, and from then on the node is known. -/
theorem Invariant.added {now fuel : ℕ} {r : Option Node} (h : t.Invariant) (hk : 1 ≤ t.ksize)
    (hid : node.id ≠ t.node.id) (hret : RoutingTable.insert now fuel t node = some (r, t')) :
    Added node t r t' := by
  induction fuel generalizing t with
  | zero => simp [RoutingTable.insert] at hret
  | succ fuel ih =>
      rcases h.insert_cases hid hret with ⟨pre, b, post, hb, hcov, hcase⟩
      have hok := h.bucketOk b (by simp [hb])
      have hok' := hok.addNode hcov hid
      cases hcase with
      | added hadded hr ht =>
          subst ht
          refine ⟨fun m hm => primary_withBuckets hb node (by simp) hm,
            fun m hm => h.contact_withBuckets hb hk hcov (by simp) hm, Or.inl ⟨hr, ?_⟩⟩
          simp [primaries, withBuckets, KBucket.mem_nodes_of_added hadded]
      | queued hqueued hrule hr ht =>
          subst ht
          refine ⟨fun m hm => primary_withBuckets hb node (by simp) hm,
            fun m hm => h.contact_withBuckets hb hk hcov (by simp) hm,
            Or.inr ⟨(b.addNode node).2, by simp [withBuckets], ?_⟩⟩
          have hfull := (KBucket.addNode_fst_eq_false.mp hqueued).2
          have hrule' : (b.addNode node).2.covers t.node.longId = false ∧
              (b.addNode node).2.depth % 5 = 0 := by
            simpa [mustSplit] using hrule
          refine ⟨hok.valid.getLast?_of_queued (hok.ksize_eq ▸ hk) hqueued, ?_, hr, hrule'⟩
          rw [KBucket.nodes_addNode_of_false hqueued, ← hok.ksize_eq]
          exact le_antisymm hok.valid.nodes_le hfull
      | descended mid hqueued hmid hinv hrec =>
          have hrest := ih hinv hk hid hrec
          have hnode : node ∈ (b.addNode node).2.contacts :=
            List.mem_append_right _
              (List.mem_of_getLast? (hok.valid.getLast?_of_queued (hok.ksize_eq ▸ hk) hqueued))
          refine ⟨?_, ?_, hrest.answer⟩
          · intro m hm
            have hhalf := primary_withBuckets hb node
              (fun n hn => mem_nodes_halves hok'.valid mid now hn) hm
            rcases List.mem_map.mp hhalf with ⟨m', hm', hid'⟩
            exact hid' ▸ hrest.primary m' hm'
          · intro m hm
            rcases h.contact_withBuckets hb hk hcov
              (fun n hn => mem_contacts_halves mid now hn) hm with hhalf | hgo
            · rcases List.mem_map.mp hhalf with ⟨m', hm', hid'⟩
              -- the node is known to the halves, so nothing else has to go
              refine Or.inl (hid' ▸ (hrest.kept m' hm').resolve_right ?_)
              intro hgo
              refine hgo.1 (List.mem_map_of_mem (List.mem_flatMap.mpr ?_))
              rcases List.mem_flatMap.mp (mem_contacts_halves mid now hnode) with ⟨c, hc, hn⟩
              exact ⟨c, by simp only [withBuckets, List.mem_append]; exact Or.inl (Or.inr hc), hn⟩
            · exact Or.inr hgo

/-- A contact that stays in the buckets that replace one bucket stays in the table ... -/
theorem mem_withBuckets_of_imp (f : KBucket → List Node) (hb : t.buckets = pre ++ b :: post)
    (h : m ∈ f b → m ∈ bs.flatMap f) (hm : m ∈ t.buckets.flatMap f) :
    m ∈ (t.withBuckets pre bs post).buckets.flatMap f := by
  simp only [hb, withBuckets, List.flatMap_append, List.flatMap_cons, List.mem_append] at hm ⊢
  tauto

/-- ... and what is new in the table is new in them. -/
theorem mem_of_mem_withBuckets (f : KBucket → List Node) (hb : t.buckets = pre ++ b :: post)
    {P : Prop} (h : m ∈ bs.flatMap f → P ∨ m ∈ f b)
    (hm : m ∈ (t.withBuckets pre bs post).buckets.flatMap f) : P ∨ m ∈ t.buckets.flatMap f := by
  simp only [hb, withBuckets, List.flatMap_append, List.flatMap_cons, List.mem_append] at hm ⊢
  tauto

/-- A call of `insert` leaves the other primary contacts as they are. -/
theorem Invariant.mem_primaries_insert {now fuel : ℕ} {r : Option Node} (h : t.Invariant)
    (hid : node.id ≠ t.node.id) (hret : RoutingTable.insert now fuel t node = some (r, t'))
    (hm : m ∈ t.primaries) (hne : m.id ≠ node.id) : m ∈ t'.primaries := by
  have hadd : ∀ {b : KBucket}, m ∈ b.nodes → m ∈ (b.addNode node).2.nodes := fun hm =>
    KBucket.mem_nodes_addNode_of_ne hm hne
  revert hm
  refine h.insert_induction (motive := fun t => m ∈ t.primaries → m ∈ t'.primaries) hid hret ?_ ?_
  · intro t pre b post hat ht hm
    exact ht ▸ mem_withBuckets_of_imp KBucket.nodes hat.buckets (by simpa using hadd) hm
  · intro t pre b post mid hat _ _ _ _ hrest hm
    have hok' := (hat.inv.bucketOk b hat.mem).addNode hat.covers hat.not_local
    refine hrest (mem_withBuckets_of_imp KBucket.nodes hat.buckets ?_ hm)
    intro hm
    exact mem_nodes_halves hok'.valid mid now (hadd hm)

/-- A call of `insert` brings in no contact but the node. -/
theorem Invariant.mem_contacts_insert {now fuel : ℕ} {r : Option Node} (h : t.Invariant)
    (hid : node.id ≠ t.node.id) (hret : RoutingTable.insert now fuel t node = some (r, t'))
    (hm : m ∈ t'.contacts) : m = node ∨ m ∈ t.contacts := by
  have hadd : ∀ {b : KBucket}, m ∈ (b.addNode node).2.contacts → m = node ∨ m ∈ b.contacts :=
    KBucket.mem_contacts_addNode
  refine h.insert_induction (motive := fun t => m = node ∨ m ∈ t.contacts) hid hret ?_ ?_
  · intro t pre b post hat ht
    rw [ht] at hm
    exact mem_of_mem_withBuckets KBucket.contacts hat.buckets (by simpa using hadd) hm
  · intro t pre b post mid hat _ _ _ _ hrest
    rcases hrest with rfl | hhalf
    · exact .inl rfl
    · refine mem_of_mem_withBuckets KBucket.contacts hat.buckets ?_ hhalf
      intro hhalf
      simp only [List.flatMap_cons, List.flatMap_nil, List.append_nil, lowHalf, highHalf,
        KBucket.contacts_loaded, List.mem_append, List.mem_filter] at hhalf
      exact hadd (hhalf.elim And.left And.left)

/-- A replacement is not primary anywhere. -/
theorem Invariant.notMem_primaries (h : t.Invariant) (hb : b ∈ t.buckets)
    (hnode : node ∈ b.replacementNodes) : node.id ∉ t.primaries.map Node.id := by
  intro hmem
  rcases List.mem_map.mp hmem with ⟨m, hm, hid⟩
  rcases List.mem_flatMap.mp hm with ⟨c, hc, hmc⟩
  have hrange := (h.bucketOk b hb).valid.in_range node (List.mem_append_right _ hnode)
  have hrange' := (h.bucketOk c hc).valid.in_range m (List.mem_append_left _ hmc)
  rw [Node.longId_congr hid] at hrange'
  have heq : b = c :=
    h.eq_of_covers hb hc (KBucket.covers_iff.mpr hrange) (KBucket.covers_iff.mpr hrange')
  subst heq
  have hnodup := (h.bucketOk b hb).valid.ids_nodup
  rw [KBucket.contacts, List.map_append, List.nodup_append] at hnodup
  exact hnodup.2.2 _ (List.mem_map_of_mem hmc) _ (List.mem_map_of_mem hnode) hid

/-- **Adding a contact displaces none.**  In every reachable table, whatever node is added:
the local node changes nothing; for any other, primary contacts stay primary, the only
contact that may disappear is the oldest of a full replacement list, and the answer says
whether the node became primary.  A node to ping is returned only for a full bucket that
must not be split, with the newcomer as its newest replacement. -/
theorem addContact_displaces_none (localNode : Node) (ksize start : ℕ) (hk : 1 ≤ ksize)
    (ops : List RoutingOp) (t : RoutingTable)
    (hrun : exec step (new localNode ksize start) ops = some t) (now fuel : ℕ) (node : Node)
    (r : Option Node) (t' : RoutingTable) (hret : t.addContact now fuel node = some (r, t')) :
    (node.id = localNode.id → t' = t ∧ r = none) ∧
    (node.id ≠ localNode.id →
      (∀ m ∈ t.primaries, m.id ∈ t'.primaries.map Node.id) ∧
      (∀ m ∈ t.contacts, m.id ∉ t'.contacts.map Node.id →
        (∃ b ∈ t.buckets, b.replacementNodes.head? = some m ∧
          b.replacementNodes.length = 5 * ksize) ∧
        ∀ m' ∈ t.contacts, m'.id ∉ t'.contacts.map Node.id → m' = m) ∧
      (r = none ↔ node.id ∈ t'.primaries.map Node.id) ∧
      ∀ lru, r = some lru → ∃ b ∈ t'.buckets, b.replacementNodes.getLast? = some node ∧
        b.nodes.length = ksize ∧ b.head = some lru ∧ b.covers localNode.longId = false ∧
        b.depth % 5 = 0) := by
  rcases Invariant.exec hrun with ⟨h, rfl, rfl⟩
  rw [addContact] at hret
  constructor
  · intro hlocal
    rw [if_pos hlocal] at hret
    cases hret
    exact ⟨rfl, rfl⟩
  · intro hid
    rw [if_neg hid] at hret
    have hadded := h.added hk hid hret
    have hinv := (h.insert hid hret).1
    refine ⟨hadded.primary, ?_, ?_, ?_⟩
    · intro m hm hgone
      rcases (hadded.kept m hm).resolve_left hgone with ⟨-, b, hb, hcov, hhead, hlen⟩
      refine ⟨⟨b, hb, hhead, hlen⟩, ?_⟩
      intro m' hm' hgone'
      rcases (hadded.kept m' hm').resolve_left hgone' with ⟨-, c, hc, hcov', hhead', -⟩
      have heq : b = c := h.eq_of_covers hb hc hcov hcov'
      rw [heq, hhead'] at hhead
      exact Option.some.inj hhead
    · rcases hadded.answer with ⟨hr, hnode⟩ | ⟨b, hb, hlast, hlen, hr, -⟩
      · simp only [hr, true_iff]
        exact List.mem_map_of_mem hnode
      · have hnot := hinv.notMem_primaries hb (List.mem_of_getLast? hlast)
        simp only [hnot, iff_false, hr, KBucket.head, List.head?_eq_none_iff]
        intro hnil
        simp only [hnil, List.length_nil] at hlen
        omega
    · intro lru hlru
      rcases hadded.answer with ⟨hr, -⟩ | ⟨b, hb, hlast, hlen, hr, hrule⟩
      · rw [hr] at hlru
        cases hlru
      · exact ⟨b, hb, hlast, hlen, hr ▸ hlru, hrule⟩

/-- The fourth contact has to wait behind the first one. -/
def fourContacts : RoutingTable :=
  ((threeBuckets.addContact 0 9 (nodeAt 0x02)).map Prod.snd).getD threeBuckets

theorem addContact_fourContacts :
    threeBuckets.addContact 0 9 (nodeAt 0x02) = some (some (nodeAt 0x01), fourContacts) ∧
      ∃ b ∈ fourContacts.buckets, b.replacementNodes.getLast? = some (nodeAt 0x02) ∧
        b.head = some (nodeAt 0x01) := by
  have hret : threeBuckets.addContact 0 9 (nodeAt 0x02) =
      some (some (nodeAt 0x01), fourContacts) := by decide +kernel
  refine ⟨hret, ?_⟩
  have hall := (addContact_displaces_none _ 1 0 le_rfl _ _ exec_threeContacts 0 9 (nodeAt 0x02) _ _
    hret).2 (by decide +kernel)
  rcases hall.2.2.2 _ rfl with ⟨b, hb, hlast, -, hhead, -⟩
  exact ⟨b, hb, hlast, hhead⟩

/-! ## Removing a contact -/

/-- The buckets after a removal: the one that covers the node, without it, and the others as
they were. -/
theorem Invariant.exists_removeContact (h : t.Invariant) (node : Node) :
    ∃ pre b post, t.buckets = pre ++ b :: post ∧ b.covers node.longId = true ∧
      (∀ c ∈ pre ++ post, c.covers node.longId = false) ∧
      t.removeContact node = t.withBuckets pre [b.removeNode node] post := by
  rcases h.locate node.longId_lt with ⟨pre, b, post, hb, hcov, hpre⟩
  exact ⟨pre, b, post, hb, hcov, h.not_covers_beside hb hcov, modifyBucket_eq hb hpre hcov _⟩

/-- A removed id is in no list of any bucket. -/
theorem Invariant.removeContact_gone (h : t.Invariant) (node : Node) :
    ∀ c ∈ (t.removeContact node).buckets, ∀ m ∈ c.contacts, m.id ≠ node.id := by
  rcases h.exists_removeContact node with ⟨pre, b, post, hb, hcov, hbeside, hremove⟩
  intro c hc m hm hid
  rw [hremove] at hc
  have hcase : c = b.removeNode node ∨ c ∈ pre ++ post := by
    simpa [withBuckets, or_left_comm] using hc
  rcases hcase with rfl | hc
  · have hperm := (h.bucketOk b (by simp [hb])).valid.contacts_removeNode_perm node
    simpa [hid] using (List.mem_filter.mp (hperm.mem_iff.mp hm)).2
  · -- the other buckets cover other ids
    have hmem : c ∈ t.buckets := by
      rw [hb]
      rcases List.mem_append.mp hc with hc | hc <;> simp [hc]
    have hrange := (h.bucketOk c hmem).valid.in_range m hm
    rw [Node.longId_congr hid] at hrange
    simpa [hbeside c hc] using KBucket.covers_iff.mpr hrange

theorem Invariant.notMem_contacts_removeContact (h : t.Invariant) (node : Node) :
    node.id ∉ (t.removeContact node).contacts.map Node.id := by
  intro hmem
  rcases List.mem_map.mp hmem with ⟨m, hm, hid⟩
  rcases List.mem_flatMap.mp hm with ⟨b, hb, hmb⟩
  exact h.removeContact_gone node b hb m hmb hid

/-- Other primary contacts are left as they are ... -/
theorem Invariant.mem_primaries_removeContact (h : t.Invariant) (hm : m ∈ t.primaries)
    (hne : m.id ≠ node.id) : m ∈ (t.removeContact node).primaries := by
  rcases h.exists_removeContact node with ⟨pre, b, post, hb, -, -, hremove⟩
  rw [hremove]
  refine mem_withBuckets_of_imp KBucket.nodes hb ?_ hm
  simpa using fun hm => KBucket.mem_nodes_removeNode_of_ne hm hne

/-- ... all other contacts are kept ... -/
theorem Invariant.mem_contacts_removeContact_of_ne (h : t.Invariant) (hm : m ∈ t.contacts)
    (hne : m.id ≠ node.id) : m ∈ (t.removeContact node).contacts := by
  rcases h.exists_removeContact node with ⟨pre, b, post, hb, -, -, hremove⟩
  have hperm := (h.bucketOk b (by simp [hb])).valid.contacts_removeNode_perm node
  rw [hremove]
  refine mem_withBuckets_of_imp KBucket.contacts hb ?_ hm
  simpa using fun hm => hperm.mem_iff.mpr (List.mem_filter.mpr ⟨hm, by simpa using hne⟩)

/-- ... and nothing comes in. -/
theorem Invariant.mem_contacts_removeContact (h : t.Invariant)
    (hm : m ∈ (t.removeContact node).contacts) : m ∈ t.contacts := by
  rcases h.exists_removeContact node with ⟨pre, b, post, hb, -, -, hremove⟩
  rw [hremove] at hm
  refine (mem_of_mem_withBuckets (P := False) KBucket.contacts hb ?_ hm).resolve_left id
  simpa using KBucket.mem_contacts_removeNode

/-- **Removing a contact removes it everywhere and nothing else.**  After `remove_contact`
the id is in no list of any bucket, all other contacts are still there, and only the bucket
that covers the node has changed.  If the node was primary there, the newest other
replacement takes the last primary place. -/
theorem removeContact_exact (localNode : Node) (ksize start : ℕ) (ops : List RoutingOp)
    (t : RoutingTable) (hrun : exec step (new localNode ksize start) ops = some t) (node : Node) :
    (∀ b ∈ (t.removeContact node).buckets, ∀ m ∈ b.nodes ++ b.replacementNodes,
      m.id ≠ node.id) ∧
    (t.removeContact node).isNewNode node = true ∧
    (∀ m ∈ t.contacts, m.id ≠ node.id → m ∈ (t.removeContact node).contacts) ∧
    ∃ pre b b' post, t.buckets = pre ++ b :: post ∧ b.covers node.longId = true ∧
      (∀ c ∈ pre ++ post, c.covers node.longId = false) ∧
      t.removeContact node = { t with buckets := pre ++ b' :: post } ∧
      (b.contains node = false → b'.nodes = b.nodes) ∧
      (b.contains node = true →
        (∀ r, (b.otherReplacements node).getLast? = some r →
          b'.nodes.getLast? = some r ∧ b'.nodes.length = b.nodes.length) ∧
        (b'.nodes.length < b.nodes.length → b.otherReplacements node = [])) := by
  rcases Invariant.exec hrun with ⟨h, rfl, rfl⟩
  rcases h.exists_removeContact node with ⟨pre, b, post, hb, hcov, hbeside, hremove⟩
  have hgone := h.removeContact_gone node
  refine ⟨hgone, ?_, ?_, pre, b, b.removeNode node, post, hb, hcov, hbeside, ?_,
    KBucket.nodes_removeNode_of_not_contains, KBucket.removeNode_promotes⟩
  · -- a bucket that contains the node would have it among its contacts
    by_contra hknown
    simp only [isNewNode, Bool.not_eq_true', Bool.not_eq_false, Option.any_eq_true] at hknown
    rcases hknown with ⟨c, hc, hcontains⟩
    rcases List.mem_map.mp (KBucket.contains_iff.mp hcontains) with ⟨m, hm, hid⟩
    exact hgone c (List.mem_of_getElem? hc) m (List.mem_append_left _ hm) hid
  · exact fun m hm hid => h.mem_contacts_removeContact_of_ne hm hid
  · rw [hremove, withBuckets, List.append_assoc]
    rfl

/-- The contact that had to wait takes the place of the one that is removed. -/
theorem removeContact_fourContacts :
    (fourContacts.removeContact (nodeAt 0x01)).isNewNode (nodeAt 0x01) = true ∧
      nodeAt 0x02 ∈ (fourContacts.removeContact (nodeAt 0x01)).contacts ∧
      nodeAt 0x02 ∈ (fourContacts.removeContact (nodeAt 0x01)).primaries := by
  have hrun : exec step (new (nodeAt 0xe0) 1 0)
      (threeContacts ++ [.addContact 0 9 (nodeAt 0x02)]) = some fourContacts := by decide +kernel
  have hall := removeContact_exact _ 1 0 _ _ hrun (nodeAt 0x01)
  refine ⟨hall.2.1, hall.2.2.1 _ ?_ ?_, ?_⟩ <;> decide +kernel

end RoutingTable

end AuthKademlia
