import AuthKademlia.Custody
import AuthKademlia.Welcome

/-!
# How often a newcomer is sent a key

`welcome_if_new` replicates records to a node that is not a primary contact, and adds it.
A newcomer that had to be queued as a replacement is still not a primary contact, so the
next message counts as its first again.  `replicated_once` says that this is the only way
in which a record is sent twice, as long as the node is not removed.

## Main definitions

* `NodeState.storesTo` — the `Store` requests with a key that wait for a node.
* `FromNewcomer` — events of a run in which one node is heard from.
-/

namespace AuthKademlia

open Lib

/-! ## Counting requests -/

/-- The task sends the key to the node. -/
def Task.sendsTo (node : Node) (key : NodeId) : Task → Bool
  | .callStoreRpc peer k _ => peer = node && k = key
  | _ => false

/-- The number of `Store` requests with the key that wait to be sent to the node. -/
def NodeState.storesTo (s : NodeState) (node : Node) (key : NodeId) : ℕ :=
  s.tasks.countP (Task.sendsTo node key)

namespace Protocol

variable {p : Protocol} {now : ℕ} {node : Node} {key : NodeId}

/-- The keys to replicate are keys of the store, in their order. -/
theorem keysToReplicate_sublist (node : Node) (router : RoutingTable)
    (entries : List (Bytes × Bytes)) :
    ((p.keysToReplicate now node router entries).1.map fun kv => kv.1.bytes).Sublist
      (entries.map Prod.fst) := by
  induction entries generalizing router with
  | nil => simp [keysToReplicate]
  | cons entry entries ih =>
      rcases entry with ⟨keyVec, value⟩
      unfold keysToReplicate
      split
      · dsimp only
        split
        · exact (ih _).cons_cons _
        · exact (ih _).cons _
      · exact (ih _).cons _

/-- **One welcome sends a key at most once.** -/
theorem countP_welcomeTasks_le (storage : ForgetfulStorage) (router : RoutingTable)
    (lru : Option Node) (node : Node) (key : NodeId) :
    (welcomeTasks node lru (p.keysToReplicate now node router (storage.iterAll now)).1).countP
      (Task.sendsTo node key) ≤ 1 := by
  have hnodup := (@ForgetfulStorage.nodup_iterAll storage now).sublist
    (@keysToReplicate_sublist p now node router _)
  generalize (p.keysToReplicate now node router (storage.iterAll now)).1 = keys at hnodup ⊢
  have hkeys : (keys.map Prod.fst).Nodup := by
    refine List.Nodup.of_map NodeId.bytes ?_
    simpa [Function.comp_def] using hnodup
  have hping : (lru.toList.map Task.callPingNode).countP (Task.sendsTo node key) = 0 := by
    cases lru <;> simp [Task.sendsTo]
  have hstores : (keys.map fun kv => Task.callStoreRpc node kv.1 kv.2).countP
      (Task.sendsTo node key) = (keys.map Prod.fst).count key := by
    simp [List.count, List.countP_map, Function.comp_def, Task.sendsTo, beq_eq_decide]
  rw [welcomeTasks, List.countP_append, hping, hstores, Nat.zero_add]
  exact List.nodup_iff_count_le_one.mp hkeys key

end Protocol

/-! ## One node is heard from -/

/-- The id is that of a replacement contact. -/
def RoutingTable.IsReplacement (t : RoutingTable) (id : NodeId) : Prop :=
  ∃ b ∈ t.buckets, id ∈ b.replacementNodes.map Node.id

instance (t : RoutingTable) (id : NodeId) : Decidable (t.IsReplacement id) :=
  inferInstanceAs (Decidable (∃ b ∈ t.buckets, _))

/-- A message of the node that is followed by its `welcome_if_new`, or the removal of
another contact. -/
def FromNewcomer (p : Protocol) (node : Node) (r : Protocol.Snapshot) : ContactEvent → Prop
  | .hear m => m.sender = some node ∧ m.treatment p r.state = .welcomed
  | .remove other => other.id ≠ node.id

section Once

variable {p : Protocol} {node : Node} {r r' : Protocol.Snapshot}

theorem primary_of_contact {t : RoutingTable} {id : NodeId} (h : id ∈ t.contacts.map Node.id)
    (hprimary : ¬t.IsReplacement id) : id ∈ t.primaries.map Node.id := by
  rcases List.mem_map.mp h with ⟨m, hm, rfl⟩
  rcases List.mem_flatMap.mp hm with ⟨b, hb, hmb⟩
  rcases List.mem_append.mp hmb with hmb | hmb
  · exact List.mem_map_of_mem (List.mem_flatMap.mpr ⟨b, hb, hmb⟩)
  · exact absurd ⟨b, hb, List.mem_map_of_mem hmb⟩ hprimary

/-- What holds of the table in every such run. -/
structure AroundLocal (p : Protocol) (t : RoutingTable) : Prop where
  invariant : t.Invariant
  node_eq : t.node = p.sourceNode
  ksize_pos : 1 ≤ t.ksize

theorem AroundLocal.congr {t t' : RoutingTable} (h : AroundLocal p t)
    (ht : t'.untouched = t.untouched) : AroundLocal p t' :=
  ⟨h.invariant.congr ht, (RoutingTable.node_congr ht).trans h.node_eq,
    (RoutingTable.ksize_congr ht).symm ▸ h.ksize_pos⟩

theorem AroundLocal.step {t t' : RoutingTable} (h : AroundLocal p t) {op : RoutingOp}
    (hstep : t.step op = some t') : AroundLocal p t' := by
  rcases h.invariant.step hstep with ⟨hinv, hnode, hksize⟩
  exact ⟨hinv, hnode.trans h.node_eq, hksize.symm ▸ h.ksize_pos⟩

/-- **A welcome** leaves the node among the contacts and sends every key at most once; to a
primary contact it sends nothing. -/
theorem welcome_newcomer {now fuel : ℕ} {s s' : NodeState} (h : AroundLocal p s.router)
    (hid : node.id ≠ p.sourceNode.id) (hret : p.welcomeIfNew now fuel node s = some s') :
    AroundLocal p s'.router ∧ node.id ∈ s'.router.contacts.map Node.id ∧
      (∀ key, s'.storesTo node key ≤ s.storesTo node key + 1) ∧
      (node.id ∈ s.router.primaries.map Node.id → s'.tasks = s.tasks) := by
  rcases Protocol.welcomeIfNew_cases hret with ⟨hknown, rfl⟩ | ⟨hnew, t, lru, ht, hadd, htasks, -⟩
  · have hprimary : node.id ∈ s'.router.primaries.map Node.id := by
      by_contra hnot
      simp [(h.invariant.isNewNode_iff node).mpr hnot] at hknown
    refine ⟨h, ?_, fun key => Nat.le_succ _, fun _ => rfl⟩
    rcases List.mem_map.mp hprimary with ⟨m, hm, hmid⟩
    rcases List.mem_flatMap.mp hm with ⟨b, hb, hmb⟩
    exact hmid ▸ List.mem_map_of_mem (List.mem_flatMap.mpr ⟨b, hb, List.mem_append_left _ hmb⟩)
  · have hnot := (h.invariant.isNewNode_iff node).mp hnew
    have haround := h.congr ht
    have hlocal : node.id ≠ t.node.id := haround.node_eq ▸ hid
    have hinsert : t.insert now fuel node = some (lru, s'.router) := by
      rwa [RoutingTable.addContact, if_neg hlocal] at hadd
    refine ⟨?_, ?_, ?_, fun hprimary => absurd hprimary hnot⟩
    · have hstep : t.step (.addContact now fuel node) = some s'.router := by
        simp [RoutingTable.step, hadd]
      exact haround.step hstep
    · rcases (haround.invariant.added haround.ksize_pos hlocal hinsert).answer with
        ⟨-, hmem⟩ | ⟨b, hb, hlast, -⟩
      · rcases List.mem_flatMap.mp hmem with ⟨b, hb, hmb⟩
        exact List.mem_map_of_mem (List.mem_flatMap.mpr ⟨b, hb, List.mem_append_left _ hmb⟩)
      · exact List.mem_map_of_mem (List.mem_flatMap.mpr
          ⟨b, hb, List.mem_append_right _ (List.mem_of_getLast? hlast)⟩)
    · intro key
      rw [NodeState.storesTo, htasks, List.countP_append]
      exact Nat.add_le_add_left (Protocol.countP_welcomeTasks_le ..) _

/-- What a run has done so far: before the first message nothing was sent, and after it the
node is known and every key was sent at most once. -/
structure OnceSoFar (p : Protocol) (node : Node) (r : Protocol.Snapshot) (pre : List ContactEvent)
    (r' : Protocol.Snapshot) : Prop where
  around : AroundLocal p r'.state.router
  unheard : (∀ m, ContactEvent.hear m ∉ pre) → r'.state.tasks = r.state.tasks
  known : (∃ m, ContactEvent.hear m ∈ pre) → node.id ∈ r'.state.router.contacts.map Node.id
  once : ∀ key, r'.state.storesTo node key ≤ r.state.storesTo node key + 1

theorem OnceSoFar.hear {pre : List ContactEvent} {r₁ r₂ : Protocol.Snapshot} {m : Incoming}
    (h : OnceSoFar p node r pre r₁) (hid : node.id ≠ p.sourceNode.id)
    (hfrom : FromNewcomer p node r₁ (.hear m))
    (hprimary : (∃ m', ContactEvent.hear m' ∈ pre) → ¬r₁.state.router.IsReplacement node.id)
    (hret : p.hear r₁ m = some r₂) : OnceSoFar p node r (pre ++ [.hear m]) r₂ := by
  rcases hfrom with ⟨hsender, htreat⟩
  have hheard : ¬∀ m', ContactEvent.hear m' ∉ pre ++ [.hear m] := fun hnone => hnone m (by simp)
  cases Protocol.hear_cases hret with
  | silent hnone => simp [hsender] at hnone
  | removed _ _ htreat' => simp [htreat] at htreat'
  | ignored _ _ htreat' => simp [htreat] at htreat'
  | welcomed sender hsender' _ before after hbefore hwaiting hwelcome hrouter htasks =>
      cases hsender.symm.trans hsender'
      rcases welcome_newcomer (h.around.congr hbefore) hid hwelcome with
        ⟨haround, hknown, hone, hnothing⟩
      have hstores : ∀ {s s' : NodeState}, s'.tasks = s.tasks → ∀ key,
          s'.storesTo node key = s.storesTo node key := by
        intro s s' heq key
        rw [NodeState.storesTo, heq, NodeState.storesTo]
      refine ⟨haround.congr hrouter, fun hnone => absurd hnone hheard, fun _ => ?_, fun key => ?_⟩
      · rwa [RoutingTable.contacts_congr hrouter]
      · rw [hstores htasks]
        by_cases hfirst : ∃ m', ContactEvent.hear m' ∈ pre
        · -- a known node that is no replacement is primary
          have hprim := primary_of_contact (h.known hfirst) (hprimary hfirst)
          rw [← RoutingTable.primaries_congr hbefore] at hprim
          rw [hstores (hnothing hprim), hstores hwaiting]
          exact h.once key
        · have hnothing := h.unheard fun m' hm' => hfirst ⟨m', hm'⟩
          have hle := hone key
          rwa [hstores hwaiting, hstores hnothing] at hle

theorem OnceSoFar.remove {pre : List ContactEvent} {r₁ : Protocol.Snapshot} {other : Node}
    (h : OnceSoFar p node r pre r₁) (hne : other.id ≠ node.id) :
    OnceSoFar p node r (pre ++ [.remove other])
      { r₁ with state := { r₁.state with router := r₁.state.router.removeContact other } } where
  around := h.around.step (show r₁.state.router.step (.removeContact other) = some _ from rfl)
  unheard hnone := h.unheard fun m hm => hnone m (List.mem_append_left _ hm)
  known hheard := by
    have hheard' : ∃ m, ContactEvent.hear m ∈ pre := by simpa using hheard
    rcases List.mem_map.mp (h.known hheard') with ⟨m, hm, hid⟩
    have hkept := h.around.invariant.mem_contacts_removeContact_of_ne hm (hid.trans_ne hne.symm)
    exact hid ▸ List.mem_map_of_mem hkept
  once := h.once

end Once

/-! ## Two newcomers -/

namespace Sample

open RoutingTable

/-- A node in the upper half of the key space. -/
def upperProtocol : Protocol := didProtocol (nodeAt 0xe0) sampleHash sampleLib (.ok issuerKey)

/-- One contact stays in the lower half, one comes and goes in the upper half. -/
def halvesRun : List RoutingOp :=
  [.addContact 0 9 (nodeAt 0x01), .addContact 0 9 (nodeAt 0x80), .removeContact (nodeAt 0x80)]

def halves : RoutingTable :=
  (exec step (new (nodeAt 0xe0) 1 0) halvesRun).getD (new (nodeAt 0xe0) 1 0)

theorem exec_halvesRun : exec step (new (nodeAt 0xe0) 1 0) halvesRun = some halves := by
  decide +kernel

/-- A key close to the node. -/
def nearKey : NodeId := (nodeAt 0xe2).id

/-- The node with this table and a record under the key. -/
def keeper : Protocol.Snapshot :=
  ⟨none, ⟨halves, (ForgetfulStorage.new (-1)).set 0 nearKey.bytes [7], none, ∅, []⟩⟩

/-- A newcomer. -/
def newcomer (n : ℕ) : Node := Protocol.source (nodeAt n).id peerAddr

/-- A ping of the newcomer. -/
def pingOf (n : ℕ) : ContactEvent := .hear (.request 0 9 (.ping (nodeAt n).id) peerAddr)

/-- After the first ping. -/
def keeperOnce (n : ℕ) : Protocol.Snapshot :=
  (upperProtocol.contactStep keeper (pingOf n)).getD keeper

theorem contactStep_pingOf {n : ℕ} (hn : n ∈ [0x02, 0x90]) :
    upperProtocol.contactStep keeper (pingOf n) = some (keeperOnce n) := by
  have hsome : ∀ k ∈ [0x02, 0x90],
      (upperProtocol.contactStep keeper (pingOf k)).isSome = true := by decide +kernel
  rcases Option.isSome_iff_exists.mp (hsome n hn) with ⟨r, hr⟩
  rw [keeperOnce, hr, Option.getD_some]

end Sample

open Sample

/-- **A newcomer is sent every key at most once**, whatever it sends and whichever other
contacts are removed, as long as no message after the first finds it held as a replacement
only.  The local node itself is never added, so its id is excluded. -/
theorem replicated_once (p : Protocol) (ksize start : ℕ) (hk : 1 ≤ ksize) (ops : List RoutingOp)
    (r : Protocol.Snapshot)
    (hreach : exec RoutingTable.step (RoutingTable.new p.sourceNode ksize start) ops =
      some r.state.router)
    (node : Node) (hlocal : node.id ≠ p.sourceNode.id) (run : List ContactEvent)
    (hfrom : EachStep p.contactStep (FromNewcomer p node) r run)
    (hprimary : ∀ pre m post r', run = pre ++ .hear m :: post →
      exec p.contactStep r pre = some r' → (∃ m', ContactEvent.hear m' ∈ pre) →
      ¬r'.state.router.IsReplacement node.id)
    (r' : Protocol.Snapshot) (hrun : exec p.contactStep r run = some r') (key : NodeId) :
    r'.state.storesTo node key ≤ r.state.storesTo node key + 1 := by
  rcases RoutingTable.Invariant.exec hreach with ⟨hinv, hnode, rfl⟩
  have hstart : OnceSoFar p node r [] r :=
    ⟨⟨hinv, hnode, hk⟩, fun _ => rfl, fun h => absurd h (by simp), fun _ => Nat.le_succ _⟩
  refine (exec_along (OnceSoFar p node r) hstart ?_ hrun).once key
  intro pre e post r₁ r₂ hsplit hpre h hstep
  have hfrom₁ := hfrom pre e post r₁ hsplit hpre
  cases e with
  | hear m => exact h.hear hlocal hfrom₁ (hprimary pre m post r₁ hsplit hpre) hstep
  | remove other =>
      cases hstep
      exact h.remove hfrom₁

/-- The bucket of this newcomer is empty: two pings, and the key is sent once. -/
theorem replicated_once_emptyBucket :
    ((exec upperProtocol.contactStep keeper [pingOf 0x90, pingOf 0x90]).map fun r =>
        r.state.router.primaries.map Node.id) = some [(RoutingTable.nodeAt 0x01).id,
          (newcomer 0x90).id] ∧
      ∀ r, exec upperProtocol.contactStep keeper [pingOf 0x90, pingOf 0x90] = some r →
        r.state.storesTo (newcomer 0x90) nearKey ≤ 1 := by
  refine ⟨by decide +kernel, ?_⟩
  intro r hr
  have hone := contactStep_pingOf (n := 0x90) (by decide)
  refine replicated_once upperProtocol 1 0 le_rfl halvesRun keeper exec_halvesRun (newcomer 0x90)
    (by decide +kernel) [pingOf 0x90, pingOf 0x90] ?_ ?_ r hr nearKey
  · exact EachStep.of_forall_mem fun e he t => by
      rcases List.mem_pair.mp he with rfl | rfl <;> exact ⟨rfl, rfl⟩
  · intro pre m post r' hsplit hpre hheard
    rcases pre with _ | ⟨e, _ | ⟨e', pre⟩⟩
    · simp at hheard
    · cases hsplit
      cases hone.symm.trans (by simpa [exec] using hpre)
      decide +kernel
    · simp at hsplit

/-- **A key is sent twice**: the bucket of the newcomer is full and must not be split, and
two pings are answered with two `Store` requests. -/
theorem replicated_twice :
    (exec upperProtocol.contactStep keeper [pingOf 0x02, pingOf 0x02]).map (fun r =>
        (r.state.storesTo (newcomer 0x02) nearKey, r.state.storage.data.entries.length,
          decide (r.state.router.IsReplacement (newcomer 0x02).id))) = some (2, 1, true) ∧
      keeper.state.storesTo (newcomer 0x02) nearKey = 0 := by
  decide +kernel

end AuthKademlia
