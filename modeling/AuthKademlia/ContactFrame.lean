import AuthKademlia.HeardOrder

/-!
# Whose entries a request can change

A request comes from a socket address and names its sender, and nothing ties the two
together.  The routing table is keyed by the id alone.  Adding a contact leaves all primary
contacts as they are, whatever id is claimed; removing one takes out whoever has the id.

`other_contacts_kept_iff` follows a request through its handler and the tasks it spawns: the
contacts at other addresses are left alone unless the request removes the id it claims and
that id has a contact elsewhere.

## Main definitions

* `Task.Succeeds` — the outgoing call of a task is answered as it should.
* `OwnTasks` — the event belongs to the tasks of a request, whose calls do not fail.
* `Holds` — the table is well formed and has these primary contacts.
-/

namespace AuthKademlia

open Lib Protocol

/-- The call of the task, if it makes one, gets the response it waits for. -/
def Task.Succeeds (result : CallResult) : Task → Prop
  | .welcomeIfNew _ => True
  | .callPingNode _ => ∃ id, result = .response (.pong id)
  | .callStoreRpc _ _ _ => ∃ ok, result = .response (.storeResult ok)

/-- The event runs a task that was spawned after the first `old` ones, and the call of the
task does not fail; or it is a response that comes in while there are such tasks. -/
def OwnTasks (old : ℕ) (r : Snapshot) : NodeEvent → Prop
  | .task _ _ i result => old ≤ i ∧ ∀ task ∈ r.state.tasks[i]?, task.Succeeds result
  | .response _ _ => old < r.state.tasks.length
  | _ => False

/-- The address a request came from, as a contact would have it. -/
def SocketAddr.address (peer : SocketAddr) : String × UInt16 := (peer.ip, peer.port)

section Frame

variable {p : Protocol} {now fuel : ℕ} {s s' : NodeState} {kept : List Node}

/-- The table is well formed and the contacts are primary. -/
structure Holds (kept : List Node) (t : RoutingTable) : Prop where
  invariant : t.Invariant
  primary : ∀ m ∈ kept, m ∈ t.primaries

theorem Holds.congr {t t' : RoutingTable} (h : Holds kept t) (ht : t'.untouched = t.untouched) :
    Holds kept t' :=
  ⟨h.invariant.congr ht, fun m hm => RoutingTable.primaries_congr ht ▸ h.primary m hm⟩

/-- **A welcome** leaves the primary contacts as they are: it adds no node whose id one of
them has. -/
theorem Holds.welcomeIfNew {node : Node} (h : Holds kept s.router)
    (hret : p.welcomeIfNew now fuel node s = some s') : Holds kept s'.router := by
  rcases welcomeIfNew_cases hret with ⟨-, rfl⟩ | ⟨hnew, t, lru, ht, hadd, -, -⟩
  · exact h
  · have hnot := (h.invariant.isNewNode_iff node).mp hnew
    have ht' := h.congr ht
    rcases RoutingTable.addContact_cases hadd with ⟨-, -, hsame⟩ | ⟨hid, hinsert⟩
    · rwa [hsame]
    · refine ⟨(ht'.invariant.insert hid hinsert).1, fun m hm => ?_⟩
      refine ht'.invariant.mem_primaries_insert hid hinsert (ht'.primary m hm) fun heq => ?_
      exact hnot (heq ▸ List.mem_map_of_mem (h.primary m hm))

theorem Holds.runTask {result : CallResult} {task : Task} (h : Holds kept s.router)
    (hok : task.Succeeds result) (hret : p.runTask now fuel result s task = some s') :
    Holds kept s'.router := by
  cases task with
  | welcomeIfNew node => exact h.welcomeIfNew hret
  | callPingNode node =>
      rcases hok with ⟨id, rfl⟩
      cases hret
      unfold callPingNode
      split <;> exact h
  | callStoreRpc peer key value =>
      rcases hok with ⟨ok, rfl⟩
      cases hret
      unfold callStoreRpc
      split <;> exact h

/-- **The tasks of a request** leave the primary contacts as they are. -/
theorem Holds.exec {r r' : Snapshot} {es : List NodeEvent} {old : ℕ}
    (h : Holds kept r.state.router) (hes : EachStep p.step (OwnTasks old) r es)
    (hrun : exec p.step r es = some r') : Holds kept r'.state.router := by
  refine exec_eachStep (fun r : Snapshot => Holds kept r.state.router) h ?_ hes hrun
  intro r e t hr he hstep
  cases e with
  | task now fuel i result =>
      simp only [step] at hstep
      split at hstep
      · cases hstep
        exact hr
      · next task htask =>
          rcases Option.map_eq_some_iff.mp hstep with ⟨s', hs', rfl⟩
          exact Holds.runTask (s := { r.state with tasks := r.state.tasks.eraseIdx i }) hr
            (he.2 task htask) hs'
  | response msg peer =>
      cases hstep
      cases msg <;> exact hr
  | _ => exact he.elim

/-- A request that spawned nothing has nothing left to do. -/
theorem exec_of_none_spawned {r r' : Snapshot} {es : List NodeEvent} {old : ℕ}
    (h : r.state.tasks.length = old) (hes : EachStep p.step (OwnTasks old) r es)
    (hrun : Lib.exec p.step r es = some r') : r'.state = r.state := by
  refine exec_eachStep (fun t : Snapshot => t.state = r.state) rfl ?_ hes hrun
  intro t e u ht he hstep
  cases e with
  | task now fuel i result =>
      have hnone : t.state.tasks[i]? = none := by
        rw [ht]
        exact List.getElem?_eq_none (h.trans_le he.1)
      simp only [step, hnone] at hstep
      cases hstep
      exact ht
  | response msg peer =>
      have hlt : old < t.state.tasks.length := he
      rw [ht, h] at hlt
      exact absurd hlt (lt_irrefl old)
  | _ => exact he.elim

end Frame

/-- A removal leaves some contacts alone exactly if none of them has the removed id. -/
theorem kept_removeContact_iff {t : RoutingTable} (h : t.Invariant) (node : Node)
    (q : Node → Prop) :
    (∀ m ∈ t.primaries, q m → m ∈ (t.removeContact node).primaries) ↔
      ¬∃ m ∈ t.primaries, node.id = m.id ∧ q m := by
  constructor
  · rintro hkept ⟨m, hm, hid, hq⟩
    have hmem := (t.removeContact node).primaries_sublist_contacts.subset (hkept m hm hq)
    exact h.notMem_contacts_removeContact node (hid ▸ List.mem_map_of_mem hmem)
  · intro hnone m hm hq
    refine h.mem_primaries_removeContact hm fun hid => ?_
    exact hnone ⟨m, hm, hid.symm, hq⟩

/-- **A request changes only the contacts at its own address**, unless it removes the id it
claims and a contact with this id is elsewhere.  `r₁` is the node after the handler and `r₂`
the node after the tasks that were spawned, in any order and any number of them, with the
responses that their calls get. -/
theorem other_contacts_kept_iff (p : Protocol) (ksize start : ℕ) (ops : List RoutingOp)
    (r : Snapshot)
    (hreach : exec RoutingTable.step (RoutingTable.new p.sourceNode ksize start) ops =
      some r.state.router)
    (now fuel : ℕ) (msg : RpcMessage) (peer : SocketAddr) (r₁ : Snapshot)
    (hreq : p.step r (.request now fuel msg peer) = some r₁) (es : List NodeEvent)
    (hes : EachStep p.step (OwnTasks r.state.tasks.length) r₁ es) (r₂ : Snapshot)
    (hrun : exec p.step r₁ es = some r₂) :
    (∀ m ∈ r.state.router.primaries, m.address ≠ some peer.address →
      m ∈ r₂.state.router.primaries) ↔
    ¬(p.treatment now peer r.state msg = .removed ∧ ∃ m ∈ r.state.router.primaries,
      msg.requester = some m.id ∧ m.address ≠ some peer.address) := by
  rcases RoutingTable.Invariant.exec hreach with ⟨h, -, -⟩
  have hall : Holds r.state.router.primaries r.state.router := ⟨h, fun _ hm => hm⟩
  have hdispatch := step_request.mp hreq
  cases hsender : msg.requester with
  | none =>
      have hsame := dispatchRequest_of_requester_none hsender hdispatch
      have hkept := Holds.exec (by rwa [hsame]) hes hrun
      simpa using fun m hm _ => hkept.primary m hm
  | some senderId =>
      have hhandled := dispatchRequest_handled hsender hdispatch
      generalize p.treatment now peer r.state msg = treat at hhandled
      cases hhandled with
      | removed hrouter htasks =>
          have hend := exec_of_none_spawned (congrArg List.length htasks) hes hrun
          rw [hend, hrouter, kept_removeContact_iff h]
          simp [source]
      | ignored hrouter htasks =>
          have hkept := Holds.exec (by rwa [hrouter]) hes hrun
          simpa using fun m hm _ => hkept.primary m hm
      | spawned hrouter htasks =>
          have hkept := Holds.exec (hall.congr hrouter) hes hrun
          simpa using fun m hm _ => hkept.primary m hm
      | awaited w hw hrouter htasks =>
          have hkept := Holds.exec ((hall.welcomeIfNew hw).congr hrouter) hes hrun
          simpa using fun m hm _ => hkept.primary m hm

namespace Sample

/-- A contact that was heard from another address. -/
def neighbour : Node := source (RoutingTable.nodeAt 0x01).id ⟨"10.0.0.2", 4000⟩

/-- A node that knows only this contact. -/
def acquainted : Snapshot :=
  ⟨none, { upperProtocol.new 20 (ForgetfulStorage.new (-1)) none 0 with
    router := (exec RoutingTable.step (RoutingTable.new upperProtocol.sourceNode 20 0)
      [.addContact 0 9 neighbour]).getD (RoutingTable.new upperProtocol.sourceNode 20 0) }⟩

theorem exec_acquainted :
    exec RoutingTable.step (RoutingTable.new upperProtocol.sourceNode 20 0)
      [.addContact 0 9 neighbour] = some acquainted.state.router := by
  decide +kernel

/-- A ping in the name of the contact, and the welcome it spawns. -/
def pinged : Snapshot :=
  (upperProtocol.step acquainted (.request 1 9 (.ping neighbour.id) peerAddr)).getD acquainted

def pingedTasks : List NodeEvent := [.task 2 9 0 .noResponse]

end Sample

open Sample

/-- A ping in the name of the contact leaves it where it is. -/
theorem other_contacts_kept_pinged :
    pinged.state.tasks.length = 1 ∧ neighbour.address ≠ some peerAddr.address ∧
      ∃ r, exec upperProtocol.step pinged pingedTasks = some r ∧
        neighbour ∈ r.state.router.primaries := by
  refine ⟨by decide +kernel, by decide +kernel, ?_⟩
  have hsome : (exec upperProtocol.step pinged pingedTasks).isSome = true := by decide +kernel
  rcases Option.isSome_iff_exists.mp hsome with ⟨r, hrun⟩
  refine ⟨r, hrun, ?_⟩
  have hes : EachStep upperProtocol.step (OwnTasks acquainted.state.tasks.length) pinged
      pingedTasks := by
    refine eachStep_cons.mpr ⟨⟨Nat.zero_le _, fun task htask => ?_⟩, fun t _ => eachStep_nil⟩
    cases htask
    trivial
  have hkept := (other_contacts_kept_iff upperProtocol 20 0 _ acquainted exec_acquainted 1 9
    (.ping neighbour.id) peerAddr pinged rfl pingedTasks hes r hrun).mpr (by simp [treatment])
  exact hkept neighbour (by decide +kernel) (by decide +kernel)

/-- **Anyone can remove a contact**: a `Leave` in its name does not come from its address. -/
theorem contact_removed_by_stranger :
    acquainted.state.router.primaries = [neighbour] ∧
      neighbour.address = some ("10.0.0.2", 4000) ∧ peerAddr.address = ("127.0.0.1", 5678) ∧
      (upperProtocol.step acquainted (.request 1 9 (.leave neighbour.id) peerAddr)).map
          (fun r => (r.state.router.primaries, r.state.tasks.length)) = some ([], 0) := by
  decide +kernel

end AuthKademlia
