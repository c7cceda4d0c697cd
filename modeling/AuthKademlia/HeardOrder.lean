import AuthKademlia.Newcomers

/-!
# The order of contacts in a bucket

The primary list of a bucket is meant to be in the order in which its contacts were last
heard from, so that the contact at its head is the one to ping.  `Listening` keeps, beside
the node, the ids of the senders heard so far, the latest first, and `LeastRecentFirst` is
the order.

`add_node` moves a contact to the end of the list, but `welcome_if_new` calls it only for
nodes that are not primary contacts.  A primary contact that is heard from stays where it
is.  `leastRecentFirst_exec` shows that the order holds in all runs in which this does no
harm (`AtTail`), a replacement is promoted only if it was heard after the contacts it joins
(`PromotesLatest`), and a bucket is split only if all its contacts are in order
(`SplitsOrdered`).

What the operations of the table do to an order is shown for any relation on nodes first.

## Main definitions

* `Listening`, `Listening.step` — a node and whom it heard.
* `HeardBefore`, `LeastRecentFirst` — the order.
* `KeepsOrder` — the condition on an event.
-/

namespace AuthKademlia

open Lib

/-! ## Orders on the contacts of a bucket -/

namespace KBucket

variable {b : KBucket} {node : Node} {R : Node → Node → Prop}

theorem Valid.nodup_nodes (hb : b.Valid) : (b.nodes.map Node.id).Nodup :=
  hb.ids_nodup.sublist ((List.sublist_append_left _ _).map Node.id)

theorem Valid.nodup_replacements (hb : b.Valid) : (b.replacementNodes.map Node.id).Nodup :=
  hb.ids_nodup.sublist ((List.sublist_append_right _ _).map Node.id)

/-- A list without the node, followed by a node that comes after everything else. -/
theorem pairwise_filter_concat {l : List Node} (hl : (l.filter fun m => m.id != node.id).Pairwise R)
    (hlast : ∀ m, m.id ≠ node.id → R m node) :
    ((l.filter fun m => m.id != node.id) ++ [node]).Pairwise R := by
  refine List.pairwise_append.mpr ⟨hl, by simp, ?_⟩
  intro m hm n hn
  rw [List.mem_singleton.mp hn]
  exact hlast m (by simpa using (List.mem_filter.mp hm).2)

/-- A list in which the node does not occur. -/
theorem filter_of_not_contains (h : b.contains node = false) :
    (b.nodes.filter fun m => m.id != node.id) = b.nodes := by
  refine List.filter_eq_self.mpr fun m hm => ?_
  have hnot : node.id ∉ b.nodes.map Node.id := fun hmem => by simp [contains_iff.mpr hmem] at h
  simp only [bne_iff_ne, ne_eq]
  exact fun heq => hnot (heq ▸ List.mem_map_of_mem hm)

/-- `addNode` keeps the primary list in an order in which the node comes last. -/
theorem Valid.pairwise_nodes_addNode (hb : b.Valid) (hord : b.nodes.Pairwise R)
    (hlast : ∀ m, m.id ≠ node.id → R m node) : (b.addNode node).2.nodes.Pairwise R := by
  have hmoved := @pairwise_filter_concat node R b.nodes (hord.filter _) hlast
  rcases addNode_cases b node with ⟨-, h⟩ | ⟨hc, -, h⟩ | ⟨-, -, h⟩ <;> rw [h]
  · rwa [← withoutFirst_eq_filter hb.nodup_nodes] at hmoved
  · rwa [filter_of_not_contains hc] at hmoved
  · exact hord

/-- A bucket that queues the node has all its contacts in such an order if the others
were. -/
theorem Valid.pairwise_contacts_addNode (hb : b.Valid) (hfull : (b.addNode node).1 = false)
    (hord : (b.contacts.filter fun m => m.id != node.id).Pairwise R)
    (hlast : ∀ m, m.id ≠ node.id → R m node) : (b.addNode node).2.contacts.Pairwise R := by
  rcases addNode_fst_eq_false.mp hfull with ⟨hc, hlen⟩
  refine (pairwise_filter_concat hord hlast).sublist ?_
  rw [addNode_of_full hc hlen, contacts, contacts, List.filter_append, filter_of_not_contains hc,
    ← @withoutFirst_eq_filter node _ hb.nodup_replacements, List.append_assoc]
  exact (evictOldest_sublist _ _).append_left _

/-- `removeNode` keeps the primary list in order if the promoted replacement comes last. -/
theorem Valid.pairwise_nodes_removeNode (hb : b.Valid) (hord : b.nodes.Pairwise R)
    (hpromoted : b.contains node = true → ∀ r ∈ (b.otherReplacements node).getLast?,
      ∀ m ∈ b.nodes, m.id ≠ node.id → R m r) : (b.removeNode node).nodes.Pairwise R := by
  have hrest : (withoutFirst node b.nodes).Pairwise R := hord.sublist (withoutFirst_sublist _ _)
  unfold KBucket.removeNode
  dsimp only
  split
  · next hc =>
      split
      · next r hr =>
          refine List.pairwise_append.mpr ⟨hrest, by simp, ?_⟩
          intro m hm n hn
          rw [List.mem_singleton.mp hn]
          rw [withoutFirst_eq_filter hb.nodup_nodes] at hm
          rcases List.mem_filter.mp hm with ⟨hm, hne⟩
          exact hpromoted hc r hr m hm (by simpa using hne)
      · exact hrest
  · exact hord

end KBucket

/-! ## Orders on the contacts of a table -/

namespace RoutingTable

variable {t t' : RoutingTable} {pre post : List KBucket} {b : KBucket} {node : Node}
  {R : Node → Node → Prop}

/-- Every primary list is in order. -/
def Ordered (R : Node → Node → Prop) (t : RoutingTable) : Prop :=
  ∀ b ∈ t.buckets, b.nodes.Pairwise R

theorem Ordered.congr (h : t.Ordered R) (ht : t'.untouched = t.untouched) : t'.Ordered R := by
  intro b hb
  rcases exists_bucket_congr ht hb with ⟨c, hc, heq⟩
  rw [heq]
  exact h c hc

theorem Ordered.withBuckets {bs : List KBucket} (h : t.Ordered R)
    (hb : t.buckets = pre ++ b :: post) (hbs : ∀ c ∈ bs, c.nodes.Pairwise R) :
    (t.withBuckets pre bs post).Ordered R := by
  intro c hc
  have hcase : c ∈ pre ∨ c ∈ bs ∨ c ∈ post := by simpa [RoutingTable.withBuckets] using hc
  rcases hcase with hc | hc | hc
  · exact h c (by simp [hb, hc])
  · exact hbs c hc
  · exact h c (by simp [hb, hc])

/-- All contacts of the bucket that is split for the node are in order, the node apart. -/
def SplitsOrdered (R : Node → Node → Prop) (t : RoutingTable) (node : Node) : Prop :=
  ∀ b ∈ t.buckets, b.covers node.longId = true → b.contains node = false →
    t.ksize ≤ b.nodes.length → t.mustSplit b = true →
    (b.contacts.filter fun m => m.id != node.id).Pairwise R

theorem SplitsOrdered.congr (h : t.SplitsOrdered R node) (ht : t'.untouched = t.untouched) :
    t'.SplitsOrdered R node := by
  intro b hb hcov hnew hfull hrule
  rcases exists_bucket_congr ht hb with ⟨c, hc, heq⟩
  rw [heq] at hcov hnew hfull hrule ⊢
  rw [mustSplit, node_congr ht] at hrule
  exact h c hc hcov hnew (ksize_congr ht ▸ hfull) hrule

/-- The halves of a bucket whose contacts are in order. -/
theorem ordered_halves (h : b.contacts.Pairwise R) (mid now : ℕ) :
    ∀ c ∈ [lowHalf b mid now, highHalf b mid now], c.nodes.Pairwise R := by
  intro c hc
  rcases List.mem_pair.mp hc with rfl | rfl
  · exact (h.filter _).sublist (List.take_sublist _ _)
  · exact (h.filter _).sublist (List.take_sublist _ _)

/-- After a split the bucket of the node is one of the halves. -/
theorem Invariant.splitsOrdered_halves {c : KBucket} {mid now : ℕ} (h : t.Invariant)
    (hb : t.buckets = pre ++ b :: post) (hcov : b.covers node.longId = true)
    (hc : c.contacts.Pairwise R) :
    (t.withBuckets pre [lowHalf c mid now, highHalf c mid now] post).SplitsOrdered R node := by
  intro d hd hdcov _ _ _
  have hcase : d ∈ pre ++ post ∨ d ∈ [lowHalf c mid now, highHalf c mid now] := by
    simp only [withBuckets, List.mem_append] at hd ⊢
    tauto
  rcases hcase with hd | hd
  · simp [h.not_covers_beside hb hcov d hd] at hdcov
  · have hcontacts : d.contacts.Pairwise R := by
      rcases List.mem_pair.mp hd with rfl | rfl
      · rw [lowHalf, KBucket.contacts_loaded]
        exact hc.filter _
      · rw [highHalf, KBucket.contacts_loaded]
        exact hc.filter _
    exact hcontacts.filter _

/-- **`insert` keeps an order** in which the node comes last.  After a split the halves hold
the contacts of the bucket in the same order, so only the first split needs a look at the
replacements. -/
theorem Invariant.ordered_insert {now fuel : ℕ} {r : Option Node} (h : t.Invariant)
    (hid : node.id ≠ t.node.id) (hret : RoutingTable.insert now fuel t node = some (r, t'))
    (hlast : ∀ m, m.id ≠ node.id → R m node) (hord : t.Ordered R)
    (hsplit : t.SplitsOrdered R node) : t'.Ordered R := by
  revert hord hsplit
  refine h.insert_induction (motive := fun t => t.Ordered R → t.SplitsOrdered R node →
    t'.Ordered R) hid hret ?_ ?_
  · intro t pre b post hat ht hord _
    rw [ht]
    refine hord.withBuckets hat.buckets fun c hc => ?_
    rw [List.mem_singleton.mp hc]
    have hok := hat.inv.bucketOk b hat.mem
    exact hok.valid.pairwise_nodes_addNode (hord b hat.mem) hlast
  · intro t pre b post mid hat hfull hrule _ _ hrest hord hsplit
    have hok := hat.inv.bucketOk b hat.mem
    rcases KBucket.addNode_fst_eq_false.mp hfull with ⟨hc, hlen⟩
    have hall := hok.valid.pairwise_contacts_addNode hfull (hsplit b hat.mem hat.covers hc
      (hok.ksize_eq ▸ hlen) (mustSplit_addNode t hfull ▸ hrule)) hlast
    exact hrest (hord.withBuckets hat.buckets (ordered_halves hall mid now))
      (hat.inv.splitsOrdered_halves hat.buckets hat.covers hall)

/-- **`remove_contact` keeps an order** if the promoted replacement comes last. -/
theorem Invariant.ordered_removeContact (h : t.Invariant) (hord : t.Ordered R)
    (hpromoted : ∀ b ∈ t.buckets, b.contains node = true →
      ∀ r ∈ (b.otherReplacements node).getLast?, ∀ m ∈ b.nodes, m.id ≠ node.id → R m r) :
    (t.removeContact node).Ordered R := by
  rcases h.exists_removeContact node with ⟨pre, b, post, hb, -, -, hremove⟩
  have hmem : b ∈ t.buckets := by simp [hb]
  rw [hremove]
  refine hord.withBuckets hb fun c hc => ?_
  rw [List.mem_singleton.mp hc]
  exact (h.bucketOk b hmem).valid.pairwise_nodes_removeNode (hord b hmem) (hpromoted b hmem)

end RoutingTable

/-! ## Who was heard last -/

/-- A node, and the senders heard so far, the latest first. -/
structure Listening where
  snapshot : Protocol.Snapshot
  heard : List NodeId

/-- The id heard in an event. -/
def ContactEvent.heardId : ContactEvent → Option NodeId
  | .hear m => m.sender.map Node.id
  | .remove _ => none

namespace Listening

def router (l : Listening) : RoutingTable := l.snapshot.state.router

/-- One event, with its sender noted. -/
def step (p : Protocol) (l : Listening) (e : ContactEvent) : Option Listening :=
  (p.contactStep l.snapshot e).map fun r => ⟨r, e.heardId.toList ++ l.heard⟩

/-- The notes do not change what happens. -/
theorem exec_snapshot (p : Protocol) (l : Listening) (run : List ContactEvent) :
    (exec (step p) l run).map snapshot = exec p.contactStep l.snapshot run := by
  induction run generalizing l with
  | nil => rfl
  | cons e run ih =>
      simp only [exec, step]
      cases p.contactStep l.snapshot e with
      | none => rfl
      | some r => exact ih _

end Listening

/-- `m` was last heard before `n`. -/
def HeardBefore (heard : List NodeId) (m n : Node) : Prop :=
  heard.idxOf n.id < heard.idxOf m.id

/-- **The order of the buckets.** -/
structure LeastRecentFirst (l : Listening) : Prop where
  ordered : ∀ b ∈ l.router.buckets, b.nodes.Pairwise (HeardBefore l.heard)
  /-- The contact that is pinged was heard before all others of its bucket. -/
  head_least : ∀ b ∈ l.router.buckets, ∀ m ∈ b.head, ∀ n ∈ b.nodes, n ≠ m →
    HeardBefore l.heard m n
  /-- The contact heard last, by its answer to the ping say, is not at the head of a bucket
  with others. -/
  answered : ∀ id ∈ l.heard.head?, ∀ b ∈ l.router.buckets, 2 ≤ b.nodes.length →
    ∀ m ∈ b.head, m.id ≠ id

/-! ## When the order is kept -/

/-- A primary contact with the id is the last of its bucket. -/
def AtTail (t : RoutingTable) (id : NodeId) : Prop :=
  ∀ b ∈ t.buckets, ∀ m ∈ b.nodes, m.id = id → b.nodes.getLast? = some m

/-- The replacement promoted when the node is removed was heard after the contacts it
joins. -/
def PromotesLatest (l : Listening) (node : Node) : Prop :=
  ∀ b ∈ l.router.buckets, b.contains node = true → ∀ r ∈ (b.otherReplacements node).getLast?,
    ∀ m ∈ b.nodes, m.id ≠ node.id → HeardBefore l.heard m r

/-- The condition on an event.  A sender that is not removed is the last contact of its
bucket or no primary contact; where a contact is removed, the replacement was heard last;
and a bucket that is split for a newcomer has all its contacts in order, replacements
included. -/
def KeepsOrder (p : Protocol) (l : Listening) : ContactEvent → Prop
  | .hear m => ∀ sender ∈ m.sender,
      (m.treatment p l.snapshot.state = .removed → PromotesLatest l sender) ∧
      (m.treatment p l.snapshot.state ≠ .removed → AtTail l.router sender.id) ∧
      (m.treatment p l.snapshot.state = .welcomed →
        l.router.SplitsOrdered (HeardBefore l.heard) sender)
  | .remove node => PromotesLatest l node

instance (heard : List NodeId) (m n : Node) : Decidable (HeardBefore heard m n) :=
  inferInstanceAs (Decidable (_ < _))

instance (t : RoutingTable) (id : NodeId) : Decidable (AtTail t id) :=
  inferInstanceAs (Decidable (∀ b ∈ t.buckets, _))

instance (l : Listening) (node : Node) : Decidable (PromotesLatest l node) :=
  inferInstanceAs (Decidable (∀ b ∈ l.router.buckets, _))

instance (R : Node → Node → Prop) [DecidableRel R] (t : RoutingTable) (node : Node) :
    Decidable (t.SplitsOrdered R node) :=
  inferInstanceAs (Decidable (∀ b ∈ t.buckets, _))

instance (p : Protocol) (l : Listening) : ∀ e, Decidable (KeepsOrder p l e)
  | .hear m => inferInstanceAs (Decidable (∀ sender ∈ m.sender, _))
  | .remove node => inferInstanceAs (Decidable (PromotesLatest l node))

section Order

variable {p : Protocol} {l l' : Listening} {heard : List NodeId} {m n : Node} {id : NodeId}

theorem heardBefore_cons (hm : m.id ≠ id) (hn : n.id ≠ id) :
    HeardBefore (id :: heard) m n ↔ HeardBefore heard m n := by
  simp [HeardBefore, List.idxOf_cons_ne _ hm.symm, List.idxOf_cons_ne _ hn.symm]

/-- Whoever is heard now was heard after everyone else. -/
theorem heardBefore_cons_self (hm : m.id ≠ id) (hn : n.id = id) :
    HeardBefore (id :: heard) m n := by
  simp [HeardBefore, hn, List.idxOf_cons_ne _ hm.symm]

theorem pairwise_heard_cons {ns : List Node} (h : ns.Pairwise (HeardBefore heard))
    (hne : ∀ m ∈ ns, m.id ≠ id) : ns.Pairwise (HeardBefore (id :: heard)) :=
  h.imp_of_mem fun hm hn hmn => (heardBefore_cons (hne _ hm) (hne _ hn)).mpr hmn

/-- **Hearing the last contact of a bucket** keeps the order. -/
theorem ordered_heard_cons {t : RoutingTable} (hinv : t.Invariant)
    (h : t.Ordered (HeardBefore heard)) (htail : AtTail t id) :
    t.Ordered (HeardBefore (id :: heard)) := by
  intro b hb
  have hnodup := (hinv.bucketOk b hb).valid.nodup_nodes
  by_cases hmem : ∃ m ∈ b.nodes, m.id = id
  · rcases hmem with ⟨m, hm, hid⟩
    rcases List.getLast?_eq_some_iff.mp (htail b hb m hm hid) with ⟨front, hfront⟩
    rw [hfront, List.map_append, List.nodup_append] at hnodup
    have hne : ∀ n ∈ front, n.id ≠ id := by
      intro n hn heq
      exact hnodup.2.2 _ (List.mem_map_of_mem hn) m.id (by simp) (heq.trans hid.symm)
    have hord := h b hb
    rw [hfront, List.pairwise_append] at hord
    rw [hfront]
    refine List.pairwise_append.mpr ⟨pairwise_heard_cons hord.1 hne, by simp, ?_⟩
    intro n hn m' hm'
    rw [List.mem_singleton.mp hm']
    exact heardBefore_cons_self (hne n hn) hid
  · exact pairwise_heard_cons (h b hb) fun m hm hid => hmem ⟨m, hm, hid⟩

theorem splitsOrdered_heard_cons {t : RoutingTable} {node : Node}
    (h : t.SplitsOrdered (HeardBefore heard) node) :
    t.SplitsOrdered (HeardBefore (node.id :: heard)) node := by
  intro b hb hcov hnew hfull hrule
  refine pairwise_heard_cons (h b hb hcov hnew hfull hrule) fun m hm => ?_
  simpa using (List.mem_filter.mp hm).2

/-- What is known at every point of a run. -/
structure InOrder (t : RoutingTable) (heard : List NodeId) : Prop where
  invariant : t.Invariant
  ordered : t.Ordered (HeardBefore heard)

theorem InOrder.congr {t t' : RoutingTable} (h : InOrder t heard)
    (ht : t'.untouched = t.untouched) : InOrder t' heard :=
  ⟨h.invariant.congr ht, h.ordered.congr ht⟩

theorem InOrder.removeContact {t : RoutingTable} {node : Node} (h : InOrder t heard)
    (hpromotes : ∀ b ∈ t.buckets, b.contains node = true →
      ∀ r ∈ (b.otherReplacements node).getLast?, ∀ m ∈ b.nodes, m.id ≠ node.id →
        HeardBefore heard m r) :
    InOrder (t.removeContact node) heard := by
  have hstep : t.step (.removeContact node) = some (t.removeContact node) := rfl
  exact ⟨(h.invariant.step hstep).1, h.invariant.ordered_removeContact h.ordered hpromotes⟩

/-- **A welcome** after its node was heard. -/
theorem InOrder.welcomeIfNew {now fuel : ℕ} {node : Node} {s s' : NodeState}
    (h : InOrder s.router (node.id :: heard))
    (hsplit : s.router.SplitsOrdered (HeardBefore heard) node)
    (hret : p.welcomeIfNew now fuel node s = some s') :
    InOrder s'.router (node.id :: heard) := by
  rcases Protocol.welcomeIfNew_cases hret with ⟨-, rfl⟩ | ⟨-, t, lru, ht, hadd, -, -⟩
  · exact h
  · have ht' := h.congr ht
    rcases RoutingTable.addContact_cases hadd with ⟨-, -, hsame⟩ | ⟨hid, hinsert⟩
    · rwa [hsame]
    · refine ⟨(ht'.invariant.insert hid hinsert).1, ht'.invariant.ordered_insert hid hinsert ?_
        ht'.ordered ((splitsOrdered_heard_cons hsplit).congr ht)⟩
      exact fun m hm => heardBefore_cons_self hm rfl

/-- **One message.** -/
theorem InOrder.hear {m : Incoming} {r : Protocol.Snapshot} (h : InOrder l.router l.heard)
    (hkeeps : KeepsOrder p l (.hear m)) (hret : p.hear l.snapshot m = some r) :
    InOrder r.state.router ((m.sender.map Node.id).toList ++ l.heard) := by
  have hheard : ∀ sender, m.sender = some sender →
      (m.sender.map Node.id).toList ++ l.heard = sender.id :: l.heard := by
    rintro sender hsender
    rw [hsender]
    rfl
  cases Protocol.hear_cases hret with
  | silent hsender hrouter =>
      rw [hsender, hrouter]
      exact h
  | removed sender hsender htreat hrouter =>
      rw [hheard sender hsender, hrouter]
      have hremoved := h.removeContact ((hkeeps sender hsender).1 htreat)
      refine ⟨hremoved.invariant, ordered_heard_cons hremoved.invariant hremoved.ordered ?_⟩
      intro b hb m' hm' hid
      exact absurd hid
        (h.invariant.removeContact_gone sender b hb m' (List.mem_append_left _ hm'))
  | ignored sender hsender htreat hrouter =>
      rw [hheard sender hsender, hrouter]
      have htail := (hkeeps sender hsender).2.1 (by simp [htreat])
      exact ⟨h.invariant, ordered_heard_cons h.invariant h.ordered htail⟩
  | welcomed sender hsender htreat before after hbefore _ hwelcome hrouter _ =>
      rw [hheard sender hsender]
      rcases hkeeps sender hsender with ⟨-, htail, hsplit⟩
      have hheardNow : InOrder l.router (sender.id :: l.heard) :=
        ⟨h.invariant, ordered_heard_cons h.invariant h.ordered (htail (by simp [htreat]))⟩
      exact ((hheardNow.congr hbefore).welcomeIfNew ((hsplit htreat).congr hbefore)
        hwelcome).congr hrouter

theorem InOrder.step {e : ContactEvent} (h : InOrder l.router l.heard) (hkeeps : KeepsOrder p l e)
    (hstep : Listening.step p l e = some l') : InOrder l'.router l'.heard := by
  rcases Option.map_eq_some_iff.mp hstep with ⟨r, hr, rfl⟩
  cases e with
  | hear m => exact h.hear hkeeps hr
  | remove node =>
      cases hr
      exact h.removeContact hkeeps

/-- The order of the lists says what the head is. -/
theorem InOrder.leastRecentFirst (h : InOrder l.router l.heard) : LeastRecentFirst l where
  ordered := h.ordered
  head_least := by
    intro b hb m hm n hn hne
    rcases List.head?_eq_some_iff.mp hm with ⟨rest, hrest⟩
    have hord := h.ordered b hb
    rw [hrest] at hord hn
    exact (List.pairwise_cons.mp hord).1 n ((List.mem_cons.mp hn).resolve_left hne)
  answered := by
    intro id hid b hb hlen m hm hmid
    rcases List.head?_eq_some_iff.mp hid with ⟨earlier, hearlier⟩
    rcases List.head?_eq_some_iff.mp hm with ⟨rest, hrest⟩
    have hord := h.ordered b hb
    rw [hrest] at hord hlen
    rcases List.exists_mem_of_ne_nil rest (by rintro rfl; simp at hlen) with ⟨n, hn⟩
    have hbefore := (List.pairwise_cons.mp hord).1 n hn
    simp [HeardBefore, hearlier, hmid] at hbefore

end Order

/-- **Buckets are in least-recently-heard order** in every state of every run whose events
meet the condition. -/
theorem leastRecentFirst_exec (p : Protocol) (ksize start : ℕ) (storage : ForgetfulStorage)
    (sigCache : Option SignatureCache) (run : List ContactEvent) (l : Listening)
    (hkeeps : EachStep (Listening.step p) (KeepsOrder p)
      ⟨p.start ksize storage sigCache start, []⟩ run)
    (hrun : exec (Listening.step p) ⟨p.start ksize storage sigCache start, []⟩ run = some l) :
    LeastRecentFirst l := by
  have hstart : InOrder (Listening.router ⟨p.start ksize storage sigCache start, []⟩) [] := by
    refine ⟨RoutingTable.invariant_new _ _ _, ?_⟩
    intro b hb
    cases List.mem_singleton.mp hb
    exact List.Pairwise.nil
  exact (exec_eachStep (fun l : Listening => InOrder l.router l.heard) hstart
    (fun _ _ _ h hkeeps hstep => h.step hkeeps hstep) hkeeps hrun).leastRecentFirst

open Sample

namespace Sample

/-- A node without contacts. -/
def listener : Listening := ⟨upperProtocol.start 20 (ForgetfulStorage.new (-1)) none 0, []⟩

/-- The newcomer answers a ping. -/
def pongOf (n : ℕ) : ContactEvent := .hear (.response 0 9 (.pong (RoutingTable.nodeAt n).id) peerAddr)

end Sample

/-- Two contacts are heard, the second answers, and the first is removed. -/
theorem leastRecentFirst_lastAnswers :
    ∃ l, exec (Listening.step upperProtocol) listener
        [pingOf 0x01, pingOf 0x02, pongOf 0x02, .remove (newcomer 0x01), pingOf 0x03] = some l ∧
      LeastRecentFirst l ∧ l.router.primaries = [newcomer 0x02, newcomer 0x03] := by
  have hprimaries : (exec (Listening.step upperProtocol) listener
      [pingOf 0x01, pingOf 0x02, pongOf 0x02, .remove (newcomer 0x01), pingOf 0x03]).map
        (fun l => l.router.primaries) = some [newcomer 0x02, newcomer 0x03] := by decide +kernel
  rcases Option.map_eq_some_iff.mp hprimaries with ⟨l, hl, hnodes⟩
  refine ⟨l, hl, leastRecentFirst_exec upperProtocol 20 0 _ none _ l ?_ hl, hnodes⟩
  decide +kernel

/-- **The contact that answered stays at the head**: two contacts are heard, the first
answers the ping, and it is still the one that would be pinged. -/
theorem answered_contact_at_head :
    (exec (Listening.step upperProtocol) listener
      [pingOf 0x01, pingOf 0x02, pongOf 0x01]).map (fun l =>
        (l.heard, l.router.buckets.map KBucket.nodes, l.router.buckets.map KBucket.head)) =
      some ([(newcomer 0x01).id, (newcomer 0x02).id, (newcomer 0x01).id],
        [[newcomer 0x01, newcomer 0x02]], [some (newcomer 0x01)]) := by
  decide +kernel

end AuthKademlia
