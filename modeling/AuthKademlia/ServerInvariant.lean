import AuthKademlia.CallRules

/-!
# What the calls of a server keep

A call changes what it shares with the others in five ways: lookups and responses change
the routing table and welcome nodes (`Quiet`), and a call may write a record, delete one,
or send requests.  An invariant that survives each of these (`CallInvariant`) survives
every call, whatever else happens while it waits (`keeps_process`), because it survives the
parts the calls are built from (`callRules_keeps`).

The conditions under which a call writes and sends are those of its own checks
(`CallAllowed`).

## Main definitions

* `Quiet` — a change that leaves the store, the cache and the replications alone.
* `CallInvariant I R S` — `I` survives writes of records with `R` and `Store` requests of
  records with `S`.
* `LookupsMeet` — what a value lookup sends on has `S`.
-/

namespace AuthKademlia

open Lib Protocol

/-! ## Quiet changes -/

/-- The store and the cache are as before, and no replication has been decided. -/
structure Quiet (s s' : NodeState) : Prop where
  storage : s'.storage = s.storage
  sigCache : s'.sigCache = s.sigCache
  tasks : ∀ node key value, Task.callStoreRpc node key value ∈ s'.tasks →
    Task.callStoreRpc node key value ∈ s.tasks

namespace Quiet

variable {s s' s'' : NodeState}

theorem refl (s : NodeState) : Quiet s s := ⟨rfl, rfl, fun _ _ _ => id⟩

theorem trans (h : Quiet s s') (h' : Quiet s' s'') : Quiet s s'' where
  storage := h'.storage.trans h.storage
  sigCache := h'.sigCache.trans h.sigCache
  tasks node key value hmem := h.tasks node key value (h'.tasks node key value hmem)

theorem router (s : NodeState) (router : RoutingTable) : Quiet s { s with router := router } :=
  ⟨rfl, rfl, fun _ _ _ => id⟩

theorem welcome (s : NodeState) (node : Node) : Quiet s (s.spawn (.welcomeIfNew node)) := by
  refine ⟨rfl, rfl, ?_⟩
  intro node' key value hmem
  rcases List.mem_append.mp hmem with hmem | hmem
  · exact hmem
  · cases List.mem_singleton.mp hmem

theorem foldl {α : Type} {f : NodeState → α → NodeState} (hf : ∀ s a, Quiet s (f s a))
    (l : List α) (s : NodeState) : Quiet s (l.foldl f s) := by
  induction l generalizing s with
  | nil => exact .refl s
  | cons a l ih => exact (hf s a).trans (ih (f s a))

end Quiet

theorem quiet_afterQuery (undialable : Node → Bool) (peer : Node) (answered : Bool)
    (s : NodeState) : Quiet s (afterQuery undialable peer answered s) := by
  unfold afterQuery
  split
  · exact .refl s
  · split
    · exact .refl s
    · split
      · exact .welcome s peer
      · exact .router s _

theorem quiet_afterLookup (undialable : Node → Bool) (history : List Round) (s : NodeState) :
    Quiet s (afterLookup undialable history s) :=
  Quiet.foldl (fun s _ => Quiet.foldl (fun s _ => quiet_afterQuery undialable _ _ s) _ s) history s

theorem quiet_callRpc (peer : Node) (request : RpcMessage) (result : CallResult) (s : NodeState) :
    Quiet s (callRpc peer request result s).2 := by
  unfold callRpc
  split
  · exact .refl s
  · split
    · exact .refl s
    · exact .router s _
    · split
      · exact .refl s
      · exact .router s _

theorem quiet_settle (requests : List (Node × RpcMessage)) (results : ℕ → CallResult)
    (s : NodeState) : Quiet s (settle requests results s).2 := by
  induction requests generalizing results s with
  | nil => exact .refl s
  | cons r requests ih => exact (quiet_callRpc r.1 r.2 (results 0) s).trans (ih _ _)

/-! ## Invariants of the calls -/

/-- `I` survives everything a call does to the shared state, as long as it writes only
records with `R` and sends only `Store` requests of records with `S`; and the records in
the store have `S`. -/
structure CallInvariant (I : ServerState → Prop) (R S : NodeId → Bytes → Prop) : Prop where
  uncached : ∀ s, I s → s.node.sigCache = none
  clock : ∀ s now, I s → I { s with now := now }
  quiet : ∀ s node, I s → Quiet s.node node → I { s with node := node }
  written : ∀ s key value, I s → R key value →
    I { s with node := { s.node with storage := s.node.storage.set s.now key.bytes value } }
  deleted : ∀ s (key : NodeId), I s →
    I { s with node := { s.node with storage := s.node.storage.delete key.bytes } }
  sent : ∀ s requests, I s → (∀ peer senderId key value,
    (peer, .store senderId key value) ∈ requests → S key value) →
    I { s with outgoing := s.outgoing ++ requests }
  held : ∀ s key value written, I s → s.node.record key = some (value, written) → S key value

/-- If the lookup sends a value on, the value has `S`. -/
def ValueReply.Meets {sv : Server} {target : Node} {peers : List Node} (S : NodeId → Bytes → Prop)
    (reply : ValueReply sv target peers) : Prop :=
  ∀ v peer, reply.outcome.value = some v → reply.outcome.cachedAt = some peer → S target.id v

/-- Every value that a lookup sends on has `S`. -/
def LookupsMeet (sv : Server) (S : NodeId → Bytes → Prop) : ∀ q, Answer sv q → Prop
  | .valueLookup _ _, reply => ValueReply.Meets S reply
  | _, _ => True

namespace Server

variable {sv : Server} {I : ServerState → Prop} {R S : NodeId → Bytes → Prop}
  {key : String} {dkey : NodeId} {value : Bytes} {α : Type} {post : α → Prop}

/-- The record passes the check that `verify_value` makes for the key. -/
def verifies (sv : Server) (key : String) (value : Bytes) : Bool :=
  checkDirectly sv.protocol.signatureHandler (key = statusListKey) value

/-- The process keeps `I` if the lookups meet `S`. -/
def Keeps (sv : Server) (I : ServerState → Prop) (S : NodeId → Bytes → Prop) (post : α → Prop)
    (m : ServerProcess sv α) : Prop :=
  Process.Keeps I (fun _ => True) (LookupsMeet sv S) (fun _ _ => True) post m

theorem keeps_yield : sv.Keeps I S (fun _ => True) sv.yield :=
  Process.keeps_ask fun _ _ => trivial

section

variable (h : CallInvariant I R S)
include h

theorem keeps_storageSet (hR : R dkey value) :
    sv.Keeps I S (fun _ => True) (sv.storageSet dkey value) :=
  Process.keeps_lift fun s hs => ⟨h.written s dkey value hs hR, id, trivial⟩

theorem keeps_storageDelete (dkey : NodeId) :
    sv.Keeps I S (fun _ => True) (sv.storageDelete dkey) :=
  Process.keeps_lift fun s hs => ⟨h.deleted s dkey hs, id, trivial⟩

theorem keeps_findNeighbors (target : Node) :
    sv.Keeps I S (fun _ => True) (sv.findNeighbors target) :=
  Process.keeps_lift fun s hs => ⟨h.quiet s _ hs (.router s.node _), id, trivial⟩

/-- Without a cache a verification is the handler's check. -/
theorem keeps_verifyValue (key : String) (value : Bytes) :
    sv.Keeps I S (fun ok => ok = true → sv.verifies key value = true)
      (sv.verifyValue key value) := by
  refine keeps_yield.seq fun _ => Process.keeps_lift fun s hs => ?_
  have hnone := h.uncached s hs
  refine ⟨?_, id, ?_⟩
  · refine h.quiet s _ hs ⟨rfl, ?_, fun _ _ _ => id⟩
    simp [AuthKademlia.verifyValue, verifyCached, hnone]
  · intro hok
    simpa [AuthKademlia.verifyValue, verifyCached, hnone, verifies] using hok

theorem keeps_callAll {requests : List (Node × RpcMessage)}
    (hS : ∀ peer senderId key value, (peer, .store senderId key value) ∈ requests → S key value) :
    sv.Keeps I S (fun _ => True) (sv.callAll requests) := by
  refine Process.Keeps.seq
    (Process.keeps_lift fun s hs => ⟨h.sent s requests hs hS, id, trivial⟩) fun _ => ?_
  refine Process.Keeps.seq (Process.keeps_ask fun _ _ => trivial) fun results => ?_
  exact Process.keeps_lift fun s hs =>
    ⟨h.quiet s _ hs (quiet_settle requests results s.node), id, trivial⟩

theorem keeps_valueLookup {post : ValueOutcome → Prop} (hpost : ∀ outcome, post outcome)
    (target : Node) (peers : List Node) : sv.Keeps I S post (sv.valueLookup target peers) := by
  refine Process.Keeps.bind (Process.keeps_ask fun _ hreply => hreply) fun reply hreply => ?_
  refine Process.Keeps.seq (Process.keeps_lift fun s hs =>
    ⟨h.quiet s _ hs (quiet_afterLookup reply.undialable reply.outcome.history s.node), id, trivial⟩)
    fun _ => ?_
  -- The copy the lookup sends on is of the value it ends with.
  split
  · rename_i v peer hvalue hcached
    refine Process.Keeps.seq (keeps_callAll h ?_) fun _ => Process.keeps_pure (hpost _)
    intro peer' senderId key' value' hmem
    cases List.mem_singleton.mp hmem
    exact hreply v peer hvalue hcached
  · exact Process.keeps_pure (hpost _)

theorem keeps_nodeLookup (target : Node) (peers : List Node) :
    sv.Keeps I S (fun _ => True) (sv.nodeLookup target peers) := by
  refine Process.Keeps.seq (Process.keeps_ask fun _ _ => trivial) fun reply => ?_
  exact Process.keeps_lift fun s hs =>
    ⟨h.quiet s _ hs (quiet_afterLookup reply.undialable reply.history s.node), id, trivial⟩

theorem keeps_oldEntries :
    sv.Keeps I S (fun entries => ∀ (key : NodeId) value, (key.bytes, value) ∈ entries → S key value)
      (Process.lift fun s => (s.node.storage.iterOlderThan s.now 3600, s)) := by
  refine Process.keeps_lift fun s hs => ⟨hs, id, ?_⟩
  intro key value hmem
  rcases ForgetfulStorage.entry_of_mem_iterOlderThan hmem with ⟨written, hentry⟩
  exact h.held s key value written hs hentry

/-- **The parts of a call keep the invariant.** -/
theorem callRules_keeps :
    sv.CallRules (sv.Keeps I S) (fun _ => True) (fun key value => sv.verifies key value = true) R S
      (fun _ => True) where
  pure := Process.keeps_pure
  bind := Process.Keeps.bind
  yield := keeps_yield
  storageGet _ := Process.keeps_lift fun _ hs => ⟨hs, id, fun _ _ => trivial⟩
  findNeighbors := keeps_findNeighbors h
  verifyValue key value _ := keeps_verifyValue h key value
  storageSet := keeps_storageSet h
  storageDelete _ := keeps_storageDelete h _
  callAll := keeps_callAll h
  valueLookup := keeps_valueLookup h fun _ _ _ => trivial
  nodeLookup := keeps_nodeLookup h
  refreshIds := Process.keeps_ask fun _ _ => trivial
  oldEntries := keeps_oldEntries h

/-- **A call keeps the invariant**, at every point at which it waits. -/
theorem keeps_process {c : LocalCall}
    (hallowed : sv.CallAllowed (fun key value => sv.verifies key value = true) R S (fun _ => True)
      c) : sv.Keeps I S (fun _ => True) (sv.process c) :=
  (callRules_keeps h).process hallowed fun _ _ => trivial

end

end Server

end AuthKademlia
