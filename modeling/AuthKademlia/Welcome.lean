import AuthKademlia.ContactChanges
import AuthKademlia.RequestEffects

/-!
# What a message does to the contacts

A message names its sender, and what the node does about the sender's entry in the routing
table depends on the message: it welcomes the sender, removes it, or leaves the entry
alone (`Treatment`).  `Protocol.hear` is a message with everything that follows from it
before the next one: the handler, and the `welcome_if_new` it spawned.  It is made of
events of `Protocol.step`.

`hear_cases` says what a message can do to the routing table and to the waiting tasks;
results about the contacts follow from it and do not look at the handlers.  Lookups write
the time of the visit into a bucket, so tables are compared without these times
(`RoutingTable.untouched`).

## Main definitions

* `Treatment`, `Protocol.treatment` — what becomes of the sender of a request.
* `Incoming`, `Protocol.hear` — a message and its `welcome_if_new`.
* `ContactEvent`, `Protocol.contactStep` — messages, and contacts that are removed.
-/

namespace AuthKademlia

open Lib

/-! ## Lookups -/

namespace RoutingTable

variable {t t' : RoutingTable}

/-- The table without the times of the last lookups. -/
def untouched (t : RoutingTable) : RoutingTable :=
  { t with buckets := t.buckets.map fun b => b.touchLastUpdated 0 }

theorem untouched_findNeighbors (t : RoutingTable) (now : ℕ) (target : Node)
    (exclude : Option Node) : (t.findNeighbors now target exclude).2.untouched = t.untouched := by
  have hmap : ∀ (l : List KBucket) (i : ℕ),
      (l.modify i fun b => b.touchLastUpdated now).map (fun b => b.touchLastUpdated 0) =
        l.map fun b => b.touchLastUpdated 0 := by
    intro l i
    induction l generalizing i with
    | nil => cases i <;> rfl
    | cons b l ih =>
        cases i with
        | zero => rfl
        | succ i => simp [ih]
  simp only [untouched, findNeighbors, modifyBucket, hmap]

/-- What does not depend on the times is the same in all buckets. -/
theorem map_buckets_congr {α : Type} {f : KBucket → α} (h : t'.untouched = t.untouched)
    (hf : ∀ b now, f (KBucket.touchLastUpdated b now) = f b) :
    t'.buckets.map f = t.buckets.map f := by
  have hmap : ∀ u : RoutingTable, u.untouched.buckets.map f = u.buckets.map f := by
    intro u
    simp [untouched, Function.comp_def, hf]
  rw [← hmap t', h, hmap t]

theorem primaries_congr (h : t'.untouched = t.untouched) : t'.primaries = t.primaries := by
  rw [primaries, primaries, List.flatMap_def, List.flatMap_def, map_buckets_congr h fun _ _ => rfl]

theorem contacts_congr (h : t'.untouched = t.untouched) : t'.contacts = t.contacts := by
  rw [contacts, contacts, List.flatMap_def, List.flatMap_def, map_buckets_congr h fun _ _ => rfl]

theorem node_congr (h : t'.untouched = t.untouched) : t'.node = t.node := by
  have hnode := congrArg RoutingTable.node h
  exact hnode

theorem ksize_congr (h : t'.untouched = t.untouched) : t'.ksize = t.ksize := by
  have hksize := congrArg RoutingTable.ksize h
  exact hksize

/-- Every bucket is one of the other table at another time. -/
theorem exists_bucket_congr (h : t'.untouched = t.untouched) {b : KBucket} (hb : b ∈ t'.buckets) :
    ∃ c ∈ t.buckets, b = c.touchLastUpdated b.lastUpdated := by
  have hmem : b.touchLastUpdated 0 ∈ t.untouched.buckets := h ▸ List.mem_map_of_mem hb
  rcases List.mem_map.mp hmem with ⟨c, hc, heq⟩
  refine ⟨c, hc, ?_⟩
  cases b
  cases c
  cases heq
  rfl

/-- The invariant does not see the times. -/
theorem Invariant.congr (h : t.Invariant) (ht : t'.untouched = t.untouched) : t'.Invariant where
  tiles := by
    rw [ranges, map_buckets_congr ht fun _ _ => rfl]
    exact h.tiles
  bucketOk := by
    intro b hb
    rcases exists_bucket_congr ht hb with ⟨c, hc, heq⟩
    have hok := h.bucketOk c hc
    rw [node_congr ht, ksize_congr ht, heq]
    exact ⟨hok.dyadic, ⟨hok.valid.ids_nodup, hok.valid.max_eq, hok.valid.nodes_le,
      hok.valid.replacements_le, hok.valid.full_of_replacement, hok.valid.in_range⟩, hok.ksize_eq,
      hok.local_absent⟩

/-- `is_new_node` asks whether the id is that of a primary contact. -/
theorem Invariant.isNewNode_iff (h : t.Invariant) (node : Node) :
    t.isNewNode node = true ↔ node.id ∉ t.primaries.map Node.id := by
  rcases h.locate node.longId_lt with ⟨pre, b, post, hb, hcov, hpre⟩
  have hget : t.buckets[t.bucketIndexFor node.longId]? = some b := by
    simp [bucketIndexFor_eq hb hpre hcov, hb]
  have hmem : b ∈ t.buckets := by simp [hb]
  simp only [isNewNode, hget, Option.any_some, Bool.not_eq_true', ← Bool.not_eq_true,
    KBucket.contains_iff, not_iff_not]
  constructor
  · intro hid
    simp only [primaries, hb, List.flatMap_append, List.flatMap_cons, List.map_append,
      List.mem_append]
    exact .inr (.inl hid)
  · intro hid
    rcases List.mem_map.mp hid with ⟨m, hm, hmid⟩
    rcases List.mem_flatMap.mp hm with ⟨c, hc, hmc⟩
    have hrange := (h.bucketOk c hc).valid.in_range m (List.mem_append_left _ hmc)
    rw [Node.longId_congr hmid] at hrange
    rw [h.eq_of_covers hmem hc hcov (KBucket.covers_iff.mpr hrange), ← hmid]
    exact List.mem_map_of_mem hmc

end RoutingTable

namespace Protocol

variable {p : Protocol} {now fuel : ℕ} {peer : SocketAddr} {s s' : NodeState}

/-! ## `welcome_if_new` -/

theorem untouched_keysToReplicate (node : Node) (router : RoutingTable)
    (entries : List (Bytes × Bytes)) :
    (p.keysToReplicate now node router entries).2.untouched = router.untouched := by
  induction entries generalizing router with
  | nil => rfl
  | cons entry entries ih =>
      rcases entry with ⟨keyVec, value⟩
      unfold keysToReplicate
      split
      · dsimp only
        split <;> exact (ih _).trans (router.untouched_findNeighbors ..)
      · exact ih router

/-- The tasks a `welcome_if_new` that adds its node spawns. -/
def welcomeTasks (node : Node) (lru : Option Node) (keys : List (NodeId × Bytes)) : List Task :=
  lru.toList.map .callPingNode ++ keys.map fun kv => .callStoreRpc node kv.1 kv.2

/-- **What `welcome_if_new` does**: nothing for a primary contact, and otherwise it adds the
node and spawns the ping and the replications. -/
theorem welcomeIfNew_cases {node : Node} (h : p.welcomeIfNew now fuel node s = some s') :
    (s.router.isNewNode node = false ∧ s' = s) ∨
      s.router.isNewNode node = true ∧ ∃ (t : RoutingTable) (lru : Option Node),
        t.untouched = s.router.untouched ∧
        t.addContact now fuel node = some (lru, s'.router) ∧
        s'.tasks = s.tasks ++ welcomeTasks node lru
          (p.keysToReplicate now node s.router (s.storage.iterAll now)).1 ∧
        s'.invalidSigStrikes = s.invalidSigStrikes := by
  unfold welcomeIfNew at h
  split at h
  · next hknown =>
      cases h
      exact .inl ⟨by simpa using hknown, rfl⟩
  · next hnew =>
      rcases Option.map_eq_some_iff.mp h with ⟨⟨lru, router⟩, hadd, rfl⟩
      simp only [foldl_spawn]
      refine .inr ⟨by simpa using hnew,
        (p.keysToReplicate now node s.router (s.storage.iterAll now)).2, lru,
        untouched_keysToReplicate node s.router _, ?_, ?_, ?_⟩
      · rw [hadd]
        cases lru <;> rfl
      · cases lru <;> simp [welcomeTasks, NodeState.spawn]
      · cases lru <;> rfl

/-! ## Requests -/

end Protocol

/-- The sender a request names. -/
def RpcMessage.requester : RpcMessage → Option NodeId
  | ping senderId => some senderId
  | store senderId _ _ => some senderId
  | update senderId _ _ _ => some senderId
  | updateStatusList senderId _ _ => some senderId
  | delete senderId _ _ _ => some senderId
  | findNode senderId _ => some senderId
  | findValue senderId _ => some senderId
  | leave senderId => some senderId
  | _ => none

/-- What becomes of the sender's entry in the routing table. -/
inductive Treatment where
  | welcomed
  | removed
  | ignored
  deriving DecidableEq

namespace Protocol

variable {p : Protocol} {now fuel : ℕ} {peer : SocketAddr} {s s' : NodeState}

/-- The treatment of the sender of a request.  A write that is refused is ignored, except
that an invalid signature in a `Store` is a strike: the sender is welcomed all the same, or
removed if it has too many. -/
def treatment (p : Protocol) (now : ℕ) (peer : SocketAddr) (s : NodeState) :
    RpcMessage → Treatment
  | .ping _ => .welcomed
  | .store senderId key value =>
      if (p.verifyForKey key value s).1 then
        if (p.rpcStore now senderId peer key value s).1 then .welcomed else .ignored
      else if (strike senderId s).1 ≥ invalidSigBanThreshold then .removed else .welcomed
  | .update senderId key value authSignature =>
      if (p.rpcUpdate now senderId peer key value authSignature s).1 then .welcomed else .ignored
  | .updateStatusList senderId key value =>
      if (p.rpcUpdateStatusList now senderId peer key value s).1 then .welcomed else .ignored
  | .delete senderId key authSignature deleteMsg =>
      if (p.rpcDelete now senderId peer key authSignature deleteMsg s).1 then .welcomed
      else .ignored
  | .findNode _ _ => .welcomed
  | .findValue _ _ => .welcomed
  | .leave _ => .removed
  | _ => .ignored

/-- The effect of a handler on the routing table and the tasks, by its treatment of the
sender. -/
inductive Handled (p : Protocol) (now fuel : ℕ) (sender : Node) (s s' : NodeState) :
    Treatment → Prop
  | removed (hrouter : s'.router = s.router.removeContact sender) (htasks : s'.tasks = s.tasks) :
      Handled p now fuel sender s s' .removed
  | ignored (hrouter : s'.router = s.router) (htasks : s'.tasks = s.tasks) :
      Handled p now fuel sender s s' .ignored
  | spawned (hrouter : s'.router.untouched = s.router.untouched)
      (htasks : s'.tasks = s.tasks ++ [.welcomeIfNew sender]) :
      Handled p now fuel sender s s' .welcomed
  | awaited (w : NodeState) (hw : p.welcomeIfNew now fuel sender s = some w)
      (hrouter : s'.router.untouched = w.router.untouched) (htasks : s'.tasks = w.tasks) :
      Handled p now fuel sender s s' .welcomed

theorem WelcomesIfAccepted.handled {sender : Node} {r : Bool × NodeState}
    (h : WelcomesIfAccepted sender s r) :
    Handled p now fuel sender s r.2 (if r.1 then .welcomed else .ignored) := by
  cases h with
  | refused => exact .ignored rfl rfl
  | accepted storage => exact .spawned rfl rfl

theorem rpcStore_handled (p : Protocol) (now fuel : ℕ) (senderId key : NodeId) (value : Bytes)
    (peer : SocketAddr) (s : NodeState) :
    Handled p now fuel (source senderId peer) s (p.rpcStore now senderId peer key value s).2
      (p.treatment now peer s (.store senderId key value)) := by
  have hstrike : (strike senderId (p.verifyForKey key value s).2).1 = (strike senderId s).1 := rfl
  simp only [treatment]
  cases hv : (p.verifyForKey key value s).1 with
  | false =>
      simp only [Bool.false_eq_true, if_false, rpcStore, hv, Bool.not_false, if_true, hstrike]
      split
      · exact .removed rfl rfl
      · exact .spawned rfl rfl
  | true =>
      simp only [if_true, rpcStore, hv, Bool.not_true, Bool.false_eq_true, if_false]
      cases ((p.verifyForKey key value s).2.storage.insertIfAbsent now key.bytes value).1 with
      | false => exact .ignored rfl rfl
      | true => exact .spawned rfl rfl

/-- **What a request does to its sender's entry.** -/
theorem dispatchRequest_handled {msg : RpcMessage} {senderId : NodeId} {answer : Option RpcMessage}
    (hsender : msg.requester = some senderId)
    (h : p.dispatchRequest now fuel msg peer s = some (answer, s')) :
    Handled p now fuel (source senderId peer) s s' (p.treatment now peer s msg) := by
  cases msg with
  | ping id =>
      cases hsender
      cases h
      exact .spawned rfl rfl
  | store id key value =>
      cases hsender
      cases h
      exact rpcStore_handled ..
  | update id key value authSignature =>
      cases hsender
      cases h
      exact rpcUpdate_welcomes.handled
  | updateStatusList id key value =>
      cases hsender
      cases h
      exact rpcUpdateStatusList_welcomes.handled
  | delete id key authSignature deleteMsg =>
      cases hsender
      cases h
      exact rpcDelete_welcomes.handled
  | findNode id key =>
      cases hsender
      cases h
      exact .spawned (s.router.untouched_findNeighbors now (Node.fromId key)
        (some (source senderId peer))) rfl
  | findValue id key =>
      cases hsender
      rcases Option.map_eq_some_iff.mp h with ⟨⟨result, r⟩, hr, heq⟩
      rcases Option.map_eq_some_iff.mp hr with ⟨w, hw, hwr⟩
      have heffect : s'.router.untouched = w.router.untouched ∧ s'.tasks = w.tasks := by
        split at hwr <;> cases hwr <;> cases heq
        · exact ⟨rfl, rfl⟩
        · exact ⟨w.router.untouched_findNeighbors now (Node.fromId key)
            (some (source senderId peer)), rfl⟩
      exact .awaited w hw heffect.1 heffect.2
  | leave id =>
      cases hsender
      cases h
      exact .removed rfl rfl
  | _ => cases hsender

/-- A message that is no request changes nothing. -/
theorem dispatchRequest_of_requester_none {msg : RpcMessage} {answer : Option RpcMessage}
    (hsender : msg.requester = none)
    (h : p.dispatchRequest now fuel msg peer s = some (answer, s')) : s' = s := by
  cases msg <;> cases hsender <;> cases h <;> rfl

end Protocol

/-! ## A message and its welcome -/

/-- A message that arrives: a request or a response, and the time it is dealt with. -/
inductive Incoming where
  | request (now fuel : ℕ) (msg : RpcMessage) (peer : SocketAddr)
  | response (now fuel : ℕ) (msg : RpcMessage) (peer : SocketAddr)

namespace Incoming

def now : Incoming → ℕ
  | request now _ _ _ => now
  | response now _ _ _ => now

def fuel : Incoming → ℕ
  | request _ fuel _ _ => fuel
  | response _ fuel _ _ => fuel

/-- The message as an event of the node. -/
def event : Incoming → Protocol.NodeEvent
  | request now fuel msg peer => .request now fuel msg peer
  | response _ _ msg peer => .response msg peer

/-- The sender of a request or of a pong; other responses name none. -/
def sender : Incoming → Option Node
  | request _ _ msg peer => msg.requester.map fun id => Protocol.source id peer
  | response _ _ (.pong id) peer => some (Protocol.source id peer)
  | response _ _ _ _ => none

/-- What becomes of the sender's entry. -/
def treatment (p : Protocol) (s : NodeState) : Incoming → Treatment
  | request now _ msg peer => p.treatment now peer s msg
  | response _ _ (.pong _) _ => .welcomed
  | response _ _ _ _ => .ignored

end Incoming

namespace Protocol

variable {p : Protocol} {r r' : Snapshot} {m : Incoming}

/-- A message, followed to its end by the `welcome_if_new` it spawned. -/
def hear (p : Protocol) (r : Snapshot) (m : Incoming) : Option Snapshot :=
  (p.step r m.event).bind fun r' =>
    match r'.state.tasks.drop r.state.tasks.length with
    | [.welcomeIfNew _] => p.step r' (.task m.now m.fuel r.state.tasks.length .noResponse)
    | _ => some r'

/-- The effect of a message on the routing table and the tasks. -/
inductive HearCase (p : Protocol) (s s' : NodeState) (m : Incoming) : Prop
  | silent (hsender : m.sender = none) (hrouter : s'.router = s.router)
      (htasks : s'.tasks = s.tasks)
  | removed (sender : Node) (hsender : m.sender = some sender)
      (htreat : m.treatment p s = .removed) (hrouter : s'.router = s.router.removeContact sender)
      (htasks : s'.tasks = s.tasks)
  | ignored (sender : Node) (hsender : m.sender = some sender)
      (htreat : m.treatment p s = .ignored) (hrouter : s'.router = s.router)
      (htasks : s'.tasks = s.tasks)
  | welcomed (sender : Node) (hsender : m.sender = some sender)
      (htreat : m.treatment p s = .welcomed) (before after : NodeState)
      (hbefore : before.router.untouched = s.router.untouched) (hwaiting : before.tasks = s.tasks)
      (hwelcome : p.welcomeIfNew m.now m.fuel sender before = some after)
      (hrouter : s'.router.untouched = after.router.untouched) (htasks : s'.tasks = after.tasks)

/-- Without a spawned welcome a message ends with its handler. -/
theorem hear_of_not_spawned (h : p.hear r m = some r')
    (hspawned : ∀ r₁ node, p.step r m.event = some r₁ →
      r₁.state.tasks.drop r.state.tasks.length ≠ [.welcomeIfNew node]) :
    p.step r m.event = some r' := by
  rcases Option.bind_eq_some_iff.mp h with ⟨r₁, hstep, hr⟩
  split at hr
  · next node hdrop => exact absurd hdrop (hspawned r₁ node hstep)
  · rw [hstep, ← hr]

/-- A spawned welcome runs next. -/
theorem hear_of_spawned {r₁ : Snapshot} {node : Node} (h : p.hear r m = some r')
    (hstep : p.step r m.event = some r₁)
    (htasks : r₁.state.tasks = r.state.tasks ++ [.welcomeIfNew node]) :
    p.welcomeIfNew m.now m.fuel node { r₁.state with tasks := r.state.tasks } =
      some r'.state := by
  have herase : r₁.state.tasks.eraseIdx r.state.tasks.length = r.state.tasks := by
    rw [htasks, List.eraseIdx_append_of_length_le (le_refl _)]
    simp
  have hget : r₁.state.tasks[r.state.tasks.length]? = some (.welcomeIfNew node) := by
    simp [htasks]
  rw [hear, hstep, Option.bind_some, htasks, List.drop_left] at h
  simp only [step, hget, herase, runTask] at h
  rcases Option.map_eq_some_iff.mp h with ⟨w, hw, rfl⟩
  exact hw

/-- A `welcome_if_new` spawns no other. -/
theorem drop_welcome_ne {now fuel : ℕ} {node node' : Node} {s w : NodeState}
    (h : p.welcomeIfNew now fuel node s = some w) :
    w.tasks.drop s.tasks.length ≠ [.welcomeIfNew node'] := by
  rcases welcomeIfNew_cases h with ⟨-, rfl⟩ | ⟨-, t, lru, -, -, htasks, -⟩
  · simp
  · rw [htasks, List.drop_left]
    intro heq
    have hmem : Task.welcomeIfNew node' ∈ welcomeTasks node lru
        (p.keysToReplicate now node s.router (s.storage.iterAll now)).1 := by simp [heq]
    simp [welcomeTasks] at hmem

/-- A request that names its sender. -/
theorem hear_request_cases {now fuel : ℕ} {msg : RpcMessage} {peer : SocketAddr}
    {senderId : NodeId} (hsender : msg.requester = some senderId)
    (h : p.hear r (.request now fuel msg peer) = some r') :
    HearCase p r.state r'.state (.request now fuel msg peer) := by
  have hnode : (Incoming.request now fuel msg peer).sender = some (source senderId peer) := by
    simp [Incoming.sender, hsender]
  rcases Option.bind_eq_some_iff.mp h with ⟨r₁, hr₁, -⟩
  have hhandled := dispatchRequest_handled hsender (step_request.mp hr₁)
  -- only a handler that spawned a welcome is followed by one
  have hend : (∀ node, r₁.state.tasks.drop r.state.tasks.length ≠ [.welcomeIfNew node]) →
      r' = r₁ := by
    intro hnone
    have hstep := hear_of_not_spawned h fun r₂ node hr₂ => by
      cases hr₁.symm.trans hr₂
      exact hnone node
    exact Option.some.inj (hstep.symm.trans hr₁)
  generalize htreat : p.treatment now peer r.state msg = treat at hhandled
  cases hhandled with
  | removed hrouter htasks =>
      cases hend fun node => by simp [htasks]
      exact .removed _ hnode htreat hrouter htasks
  | ignored hrouter htasks =>
      cases hend fun node => by simp [htasks]
      exact .ignored _ hnode htreat hrouter htasks
  | spawned hrouter htasks =>
      exact .welcomed _ hnode htreat { r₁.state with tasks := r.state.tasks } _ hrouter rfl
        (hear_of_spawned h hr₁ htasks) rfl rfl
  | awaited w hw hrouter htasks =>
      cases hend fun node => by
        rw [htasks]
        exact drop_welcome_ne hw
      exact .welcomed _ hnode htreat _ w rfl rfl hw hrouter htasks

/-- **What a message can do to the contacts.** -/
theorem hear_cases (h : p.hear r m = some r') : HearCase p r.state r'.state m := by
  cases m with
  | request now fuel msg peer =>
      cases hsender : msg.requester with
      | none =>
          have hsame : ∀ r₁, p.step r (.request now fuel msg peer) = some r₁ →
              r₁.state = r.state := fun r₁ hr₁ =>
            dispatchRequest_of_requester_none hsender (step_request.mp hr₁)
          have hstep := hear_of_not_spawned h fun r₁ node hr₁ => by simp [hsame r₁ hr₁]
          have heq := hsame r' hstep
          exact .silent (by simp [Incoming.sender, hsender]) (by rw [heq]) (by rw [heq])
      | some senderId => exact hear_request_cases hsender h
  | response now fuel msg peer =>
      cases msg with
      | pong senderId =>
          have hwelcome : p.welcomeIfNew now fuel (source senderId peer) r.state =
              some r'.state :=
            @hear_of_spawned p r r' _
              ⟨none, r.state.spawn (.welcomeIfNew (source senderId peer))⟩ _ h rfl rfl
          exact .welcomed (source senderId peer) rfl rfl r.state _ rfl rfl hwelcome rfl rfl
      | _ =>
          have hstep := hear_of_not_spawned h fun r₁ node hr₁ => by
            cases hr₁
            simp [receiveResponse]
          cases hstep
          exact .silent rfl rfl rfl

end Protocol

/-! ## Runs -/

/-- What changes the contacts: a message with its welcome, or the removal of a contact that
did not answer. -/
inductive ContactEvent where
  | hear (m : Incoming)
  | remove (node : Node)

namespace Protocol

def contactStep (p : Protocol) (r : Snapshot) : ContactEvent → Option Snapshot
  | .hear m => p.hear r m
  | .remove node =>
      some { r with state := { r.state with router := r.state.router.removeContact node } }

end Protocol

end AuthKademlia
