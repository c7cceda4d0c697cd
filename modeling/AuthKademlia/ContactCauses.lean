import AuthKademlia.HostInvariant

/-!
# Why contacts come

A contact of a host is known first-hand (`contacts_firsthand`): it has sent the host a request
or a pong from the address it is known under, or it has answered a query of a local lookup.
What a peer merely reports about others never enters the table.

A segment changes the table in one of three ways (`TableChange`), and a future goes through
its points in a fixed order (`Follows`).

## Main definitions

* `TableChange` — what a segment does to the table.
* `Follows` — from which point to which a future goes.
* `Firsthand G` — all contacts, and all nodes that are to be welcomed, have `G`.
* `Cluster.LocalCallsMeet`, `Cluster.TasksMeet` — conditions on how calls end.
-/

namespace AuthKademlia

open Lib Protocol

/-! ## What a segment does to the table -/

/-- The node that the segment from this point removes. -/
def Point.removed : Point → Option Node
  | .banning sender _ => some sender
  | .leaving sender => some sender
  | .evicting node => some node
  | _ => none

/-- Buckets are touched, one node is removed, or one is added. -/
inductive TableChange (t t' : RoutingTable) : Option Node → Option Node → Prop
  | quiet (h : t'.untouched = t.untouched) : TableChange t t' none none
  | removed (node : Node) (h : t' = t.removeContact node) : TableChange t t' (some node) none
  | added (node : Node) (now fuel : ℕ) (lru : Option Node)
      (h : t.addContact now fuel node = some (lru, t')) : TableChange t t' none (some node)

namespace TableChange

variable {t t' : RoutingTable} {removed admitted : Option Node} {m : Node} {x : NodeId}

theorem invariant (h : TableChange t t' removed admitted) (hinv : t.Invariant) :
    t'.Invariant ∧ t'.ksize = t.ksize := by
  cases h with
  | quiet h => exact ⟨hinv.congr h, RoutingTable.ksize_congr h⟩
  | removed node h =>
      have hstep : t.step (.removeContact node) = some t' := by rw [h]; rfl
      exact ⟨(hinv.step hstep).1, (hinv.step hstep).2.2⟩
  | added node now fuel lru h =>
      have hstep : t.step (.addContact now fuel node) = some t' := by
        simp [RoutingTable.step, h]
      exact ⟨(hinv.step hstep).1, (hinv.step hstep).2.2⟩

/-- Nobody comes in but the node that is added. -/
theorem mem_contacts (h : TableChange t t' removed admitted) (hinv : t.Invariant)
    (hm : m ∈ t'.contacts) : m ∈ t.contacts ∨ m ∈ admitted := by
  cases h with
  | quiet h =>
      rw [RoutingTable.contacts_congr h] at hm
      exact .inl hm
  | removed node h =>
      rw [h] at hm
      exact .inl (hinv.mem_contacts_removeContact hm)
  | added node now fuel lru h =>
      obtain ⟨-, -, rfl⟩ | ⟨hid, hinsert⟩ := RoutingTable.addContact_cases h
      · exact .inl hm
      · exact (hinv.mem_contacts_insert hid hinsert hm).elim (fun hm => .inr (by simp [hm])) .inl

/-- No primary contact goes but the node that is removed. -/
theorem primary_kept (h : TableChange t t' removed admitted) (hinv : t.Invariant)
    (hk : 1 ≤ t.ksize) (hx : x ∈ t.primaries.map Node.id) (hne : ∀ node ∈ removed, node.id ≠ x) :
    x ∈ t'.primaries.map Node.id := by
  obtain ⟨m, hm, rfl⟩ := List.mem_map.mp hx
  cases h with
  | quiet h => rwa [RoutingTable.primaries_congr h]
  | removed node h =>
      rw [h]
      exact List.mem_map_of_mem (hinv.mem_primaries_removeContact hm (hne node rfl).symm)
  | added node now fuel lru h =>
      obtain ⟨-, -, rfl⟩ | ⟨hid, hinsert⟩ := RoutingTable.addContact_cases h
      · exact hx
      · exact (hinv.added hk hid hinsert).primary m hm

end TableChange

section Segments

variable {p : Protocol} {now fuel : ℕ} {result : CallResult} {s : NodeState}

@[simp] theorem afterWelcome_state (node : Node) (lookup : Option NodeId) :
    (afterWelcome now node lookup s).2 = s :=
  (afterWelcome_spec Prod.mk.eta.symm).1

/-- The end of a welcome: the node is added, and pings and replications are spawned. -/
theorem advance_adding {node : Node} {lookup : Option NodeId} {keys : List (NodeId × Bytes)}
    {r : Progress × NodeState}
    (h : p.advance now fuel result s (.adding node lookup keys) = some r) :
    ∃ lru router, s.router.addContact now fuel node = some (lru, router) ∧
      r.2 = { s with
        router := router
        tasks := s.tasks ++ lru.toList.map Task.callPingNode ++
          keys.map fun kv => Task.callStoreRpc node kv.1 kv.2 } := by
  obtain ⟨⟨lru, router⟩, hadd, rfl⟩ := Option.map_eq_some_iff.mp h
  refine ⟨lru, router, hadd, ?_⟩
  simp only [afterWelcome_state, foldl_spawn]
  cases lru <;> simp [NodeState.spawn]

theorem router_storeVerified (senderId : NodeId) (peer : SocketAddr) (key : NodeId)
    (value : Bytes) (valid : Bool) :
    (storeVerified now senderId peer key value valid s).2.router = s.router := by
  unfold storeVerified
  cases valid with
  | false =>
      simp only [Bool.not_false, if_true]
      split <;> rfl
  | true =>
      simp only [Bool.not_true, Bool.false_eq_true, if_false]
      split <;> rfl

theorem router_beginRequest (msg : RpcMessage) (peer : SocketAddr) :
    (p.beginRequest now msg peer s).2.router = s.router := by
  cases msg with
  | store senderId key value =>
      simp only [beginRequest]
      split
      · exact router_storeVerified senderId peer key value _
      · rfl
  | update senderId key value authSignature => exact congrArg _ (beginWrite_spec _).1
  | updateStatusList senderId key value => exact congrArg _ (beginWrite_spec _).1
  | delete senderId key authSignature deleteMsg => exact congrArg _ (beginWrite_spec _).1
  | _ => rfl

/-- **One segment** of a handler or a task. -/
theorem tableChange_advance {point : Point} {r : Progress × NodeState}
    (h : p.advance now fuel result s point = some r) :
    TableChange s.router r.2.router point.removed point.admitted := by
  cases point with
  | verifying senderId peer key value =>
      obtain ⟨cache, hcache⟩ := @verifyDirectly_state p s key value
      simp only [advance, hcache, Option.some.injEq] at h
      subst h
      exact .quiet (by rw [router_storeVerified])
  | banning sender strikes =>
      cases h
      exact .removed sender rfl
  | checking q old =>
      simp only [advance] at h
      split at h
      · cases h
        exact .quiet rfl
      · cases h
        exact .quiet (by rw [(writeStep_router q).1])
  | searching sender key =>
      cases h
      exact .quiet (s.router.untouched_findNeighbors now (Node.fromId key) (some sender))
  | lookingUp sender key =>
      cases h
      exact .quiet (s.router.untouched_findNeighbors now (Node.fromId key) (some sender))
  | leaving sender =>
      cases h
      exact .removed sender rfl
  | greeting node lookup =>
      simp only [advance] at h
      split at h
      · cases h
        exact .quiet (by rw [afterWelcome_state])
      · cases h
        exact .quiet rfl
  | sampling node lookup entries =>
      cases h
      exact .quiet (untouched_keysToReplicate ..)
  | adding node lookup keys =>
      obtain ⟨lru, router, hadd, hr⟩ := advance_adding h
      exact .added node now fuel lru (by rw [hadd, hr])
  | pinging node =>
      simp only [advance] at h
      split at h <;> cases h <;> exact .quiet rfl
  | storing peer =>
      simp only [advance] at h
      split at h <;> cases h <;> exact .quiet rfl
  | evicting node =>
      cases h
      exact .removed node rfl

theorem tableChange_afterQuery (undialable : Node → Bool) (peer : Node) (answered : Bool) :
    ∃ removed, TableChange s.router (afterQuery undialable peer answered s).router removed none ∧
      ∀ node ∈ removed, node = peer ∧ answered = false := by
  have hsame : ∃ removed, TableChange s.router s.router removed none ∧
      ∀ node ∈ removed, node = peer ∧ answered = false := ⟨none, .quiet rfl, by simp⟩
  unfold afterQuery
  split
  · exact hsame
  · split
    · exact hsame
    · split
      · exact hsame
      · rename_i hanswered
        exact ⟨some peer, .removed peer rfl, by simpa using hanswered⟩

/-- A request that was answered as it should be, or could not be sent. -/
def Acknowledged (request : RpcMessage) (result : CallResult) : Prop :=
  result = .badAddress ∨ ∃ msg ok, result = .response msg ∧ acknowledged request msg = some ok

theorem tableChange_callRpc (peer : Node) (request : RpcMessage) (result : CallResult) :
    ∃ removed, TableChange s.router (callRpc peer request result s).2.router removed none ∧
      ∀ node ∈ removed, node = peer ∧ ¬Acknowledged request result := by
  have hsame : ∃ removed, TableChange s.router s.router removed none ∧
      ∀ node ∈ removed, node = peer ∧ ¬Acknowledged request result := ⟨none, .quiet rfl, by simp⟩
  unfold callRpc
  split
  · exact hsame
  · split
    · exact hsame
    · exact ⟨some peer, .removed peer rfl, by simp [Acknowledged]⟩
    · split
      · exact hsame
      · rename_i hack
        exact ⟨some peer, .removed peer rfl, by simp [Acknowledged, hack]⟩

end Segments

/-! ## The points of a future -/

/-- The future goes on from one point to another. -/
inductive Follows (p : Protocol) (result : CallResult) : Point → Point → Prop
  | banning (senderId : NodeId) (peer : SocketAddr) (key : NodeId) (value : Bytes)
      (strikes : UInt32)
      (hinvalid : checkDirectly p.signatureHandler (key = digest p.hash statusListKey) value =
        false) :
      Follows p result (.verifying senderId peer key value)
        (.banning (source senderId peer) strikes)
  | known (node : Node) (key : NodeId) :
      Follows p result (.greeting node (some key)) (.lookingUp node key)
  | sampling (node : Node) (lookup : Option NodeId) (entries : List (Bytes × Bytes)) :
      Follows p result (.greeting node lookup) (.sampling node lookup entries)
  | adding (node : Node) (lookup : Option NodeId) (entries : List (Bytes × Bytes))
      (keys : List (NodeId × Bytes)) :
      Follows p result (.sampling node lookup entries) (.adding node lookup keys)
  | welcomed (node : Node) (key : NodeId) (keys : List (NodeId × Bytes)) :
      Follows p result (.adding node (some key) keys) (.lookingUp node key)
  | noPong (node : Node) (hresult : ∀ id, result ≠ .response (.pong id)) :
      Follows p result (.pinging node) (.evicting node)
  | noResult (peer : Node) (haddress : result ≠ .badAddress)
      (hresult : ∀ ok, result ≠ .response (.storeResult ok)) :
      Follows p result (.storing peer) (.evicting peer)

section Follows

variable {p : Protocol} {now fuel : ℕ} {result : CallResult} {s : NodeState} {point next : Point}

theorem pending_storeVerified {senderId : NodeId} {peer : SocketAddr} {key : NodeId} {value : Bytes}
    {valid : Bool}
    (h : next ∈ (storeVerified now senderId peer key value valid s).1.pending) :
    valid = false ∧ ∃ strikes, next = .banning (source senderId peer) strikes := by
  unfold storeVerified at h
  cases valid with
  | false =>
      simp only [Bool.not_false, if_true] at h
      split at h
      · exact ⟨rfl, _, List.mem_singleton.mp h⟩
      · cases h
  | true =>
      simp only [Bool.not_true, Bool.false_eq_true, if_false] at h
      split at h <;> cases h

theorem pending_afterWelcome {node : Node} {lookup : Option NodeId}
    (h : next ∈ (afterWelcome now node lookup s).1.pending) :
    ∃ key, lookup = some key ∧ next = .lookingUp node key := by
  cases lookup with
  | none => cases h
  | some key =>
      simp only [afterWelcome] at h
      split at h
      · cases h
      · exact ⟨key, rfl, List.mem_singleton.mp h⟩

theorem follows_advance {r : Progress × NodeState}
    (hadvance : p.advance now fuel result s point = some r) (hnext : next ∈ r.1.pending) :
    Follows p result point next := by
  cases point with
  | verifying senderId peer key value =>
      simp only [advance, Option.some.injEq] at hadvance
      subst hadvance
      obtain ⟨hinvalid, strikes, rfl⟩ := pending_storeVerified hnext
      refine .banning senderId peer key value strikes ?_
      simp only [verifyDirectly] at hinvalid
      split at hinvalid <;> exact hinvalid
  | checking q old =>
      simp only [advance] at hadvance
      split at hadvance <;> cases hadvance <;> cases hnext
  | greeting node lookup =>
      simp only [advance] at hadvance
      split at hadvance
      · cases hadvance
        obtain ⟨key, rfl, rfl⟩ := pending_afterWelcome hnext
        exact .known node key
      · cases hadvance
        rw [List.mem_singleton.mp hnext]
        exact .sampling node lookup _
  | sampling node lookup entries =>
      cases hadvance
      rw [List.mem_singleton.mp hnext]
      exact .adding node lookup entries _
  | adding node lookup keys =>
      obtain ⟨⟨lru, router⟩, -, rfl⟩ := Option.map_eq_some_iff.mp hadvance
      obtain ⟨key, rfl, rfl⟩ := pending_afterWelcome hnext
      exact .welcomed node key keys
  | pinging node =>
      simp only [advance] at hadvance
      split at hadvance
      · cases hadvance
        cases hnext
      · rename_i hresult
        cases hadvance
        rw [List.mem_singleton.mp hnext]
        exact .noPong node fun id => by simpa using hresult id
  | storing peer =>
      simp only [advance] at hadvance
      split at hadvance
      · cases hadvance
        cases hnext
      · cases hadvance
        cases hnext
      · rename_i haddress hresult
        cases hadvance
        rw [List.mem_singleton.mp hnext]
        exact .noResult peer (by simpa using haddress) fun ok => by simpa using hresult ok
  | banning sender strikes => cases hadvance; cases hnext
  | searching sender key => cases hadvance; cases hnext
  | lookingUp sender key => cases hadvance; cases hnext
  | leaving sender => cases hadvance; cases hnext
  | evicting node => cases hadvance; cases hnext

/-- The first point of a handler is one of its points. -/
theorem serves_beginRequest {msg : RpcMessage} {peer : SocketAddr}
    (h : next ∈ (p.beginRequest now msg peer s).1.pending) : Serves peer msg next := by
  have hproper : Proper p peer now s msg (p.beginRequest now msg peer s) := beginRequest_proper msg
  unfold Proper at hproper
  split at hproper
  · rename_i point hwaits
    rw [hwaits] at h
    rwa [List.mem_singleton.mp h]
  · rename_i answer hreturns
    rw [hreturns] at h
    cases h

end Follows

/-! ## Contacts are known first-hand -/

/-- The node that a frame from `peer` is welcomed as. -/
def Frame.introduces (peer : SocketAddr) (frame : Frame) : Option Node :=
  if frame.isRequest then frame.message.requester.map fun id => source id peer
  else
    match frame.message with
    | .pong id => some (source id peer)
    | _ => none

/-- The node that a future suspended here may welcome. -/
def Point.newcomer : Point → Option Node
  | .verifying senderId peer _ _ => some (source senderId peer)
  | .checking q _ => some (source q.senderId q.peer)
  | .greeting node _ => some node
  | .sampling node _ _ => some node
  | .adding node _ _ => some node
  | _ => none

/-- The nodes that spawned tasks are going to welcome have `G`. -/
def Greets (G : Node → Prop) (s : NodeState) : Prop :=
  ∀ node, Task.welcomeIfNew node ∈ s.tasks → G node

section Greets

variable {G : Node → Prop} {p : Protocol} {s s' : NodeState} {now : ℕ} {node : Node}

theorem Greets.congr (h : Greets G s) (htasks : s'.tasks = s.tasks) : Greets G s' := by
  unfold Greets
  rwa [htasks]

theorem Greets.welcome (h : Greets G s) (hnode : G node) (htasks : s'.tasks =
    s.tasks ++ [.welcomeIfNew node]) : Greets G s' := by
  intro n hn
  rw [htasks, List.mem_append, List.mem_singleton] at hn
  obtain hn | hn := hn
  · exact h n hn
  · cases hn
    exact hnode

theorem Greets.storeVerified (h : Greets G s) {senderId : NodeId} {peer : SocketAddr}
    (hsource : G (source senderId peer)) (key : NodeId) (value : Bytes) (valid : Bool) :
    Greets G (storeVerified now senderId peer key value valid s).2 := by
  unfold Protocol.storeVerified
  cases valid with
  | false =>
      simp only [Bool.not_false, if_true]
      split
      · exact h.congr rfl
      · exact h.welcome hsource rfl
  | true =>
      simp only [Bool.not_true, Bool.false_eq_true, if_false]
      split
      · exact h.congr rfl
      · exact h.welcome hsource rfl

theorem Greets.writeStep (h : Greets G s) (q : WriteRequest)
    (hsource : G (source q.senderId q.peer)) : Greets G (q.writeStep now s).2 := by
  obtain ⟨senderId, peer, op⟩ := q
  cases op with
  | store key value =>
      unfold WriteRequest.writeStep
      dsimp only
      split
      · exact h.congr rfl
      · exact h.welcome hsource rfl
  | _ => exact h.welcome hsource rfl

theorem Greets.advance {fuel : ℕ} {result : CallResult} {point : Point} {r : Progress × NodeState}
    (h : Greets G s) (hpoint : ∀ node ∈ point.newcomer, G node)
    (hadvance : p.advance now fuel result s point = some r) : Greets G r.2 := by
  cases point with
  | verifying senderId peer key value =>
      obtain ⟨cache, hcache⟩ := @verifyDirectly_state p s key value
      simp only [Protocol.advance, hcache, Option.some.injEq] at hadvance
      subst hadvance
      have hcached : Greets G { s with sigCache := cache } := h.congr rfl
      exact hcached.storeVerified (hpoint _ rfl) key value _
  | checking q old =>
      simp only [Protocol.advance] at hadvance
      split at hadvance
      · cases hadvance
        exact h
      · cases hadvance
        exact h.writeStep q (hpoint _ rfl)
  | greeting node lookup =>
      simp only [Protocol.advance] at hadvance
      split at hadvance
      · cases hadvance
        exact h.congr (by rw [afterWelcome_state])
      · cases hadvance
        exact h
  | adding node lookup keys =>
      -- pings and replications are spawned, but no welcome
      obtain ⟨lru, router, -, hr⟩ := advance_adding hadvance
      intro n hn
      exact h n (by simpa [hr] using hn)
  | pinging node =>
      simp only [Protocol.advance] at hadvance
      split at hadvance <;> cases hadvance <;> exact h
  | storing peer =>
      simp only [Protocol.advance] at hadvance
      split at hadvance <;> cases hadvance <;> exact h
  | banning sender strikes => cases hadvance; exact h.congr rfl
  | searching sender key => cases hadvance; exact h.congr rfl
  | lookingUp sender key => cases hadvance; exact h.congr rfl
  | leaving sender => cases hadvance; exact h.congr rfl
  | sampling node lookup entries => cases hadvance; exact h.congr rfl
  | evicting node => cases hadvance; exact h.congr rfl

end Greets

/-- All contacts, and all nodes that are going to be welcomed, have `G`. -/
structure Firsthand (G : Node → Prop) (s : NodeState) : Prop where
  table : s.router.Invariant
  contacts : ∀ m ∈ s.router.contacts, G m
  greets : Greets G s

section Firsthand

variable {G : Node → Prop} {p : Protocol} {s s' : NodeState}

theorem Firsthand.change {removed admitted : Option Node} (h : Firsthand G s)
    (hchange : TableChange s.router s'.router removed admitted) (hadmitted : ∀ m ∈ admitted, G m)
    (hgreets : Greets G s') : Firsthand G s' where
  table := (hchange.invariant h.table).1
  contacts m hm := (hchange.mem_contacts h.table hm).elim (h.contacts m) (hadmitted m)
  greets := hgreets

theorem Greets.beginRequest (h : Greets G s) (now : ℕ) {msg : RpcMessage} {peer : SocketAddr}
    (hsource : ∀ id ∈ msg.requester, G (source id peer)) :
    Greets G (p.beginRequest now msg peer s).2 := by
  cases msg with
  | ping senderId => exact h.welcome (hsource senderId rfl) rfl
  | store senderId key value =>
      simp only [Protocol.beginRequest]
      split
      · exact h.storeVerified (hsource senderId rfl) key value _
      · exact h
  | update senderId key value authSignature => exact h.congr (congrArg _ (beginWrite_spec _).1)
  | updateStatusList senderId key value => exact h.congr (congrArg _ (beginWrite_spec _).1)
  | delete senderId key authSignature deleteMsg => exact h.congr (congrArg _ (beginWrite_spec _).1)
  | findNode senderId key => exact h.welcome (hsource senderId rfl) rfl
  | _ => exact h

theorem Serves.newcomer {peer : SocketAddr} {msg : RpcMessage} {point : Point} {node : Node}
    (h : Serves peer msg point) (hnode : node ∈ point.newcomer) :
    ∃ id ∈ msg.requester, node = source id peer := by
  cases h <;> simp_all [Point.newcomer, RpcMessage.requester]

theorem Follows.newcomer {result : CallResult} {point next : Point} {node : Node}
    (h : Follows p result point next) (hnode : node ∈ next.newcomer) : node ∈ point.newcomer := by
  cases h <;> simp_all [Point.newcomer]

theorem Point.admitted_newcomer {point : Point} {node : Node} (h : node ∈ point.admitted) :
    node ∈ point.newcomer := by
  cases point <;> simp_all [Point.newcomer, Point.admitted]

/-- **Handlers and tasks add only nodes that they have heard from.** -/
theorem Firsthand.segmentRules (p : Protocol) (G : Node → Prop) :
    SegmentRules p (Firsthand G) (fun point => ∀ node ∈ point.newcomer, G node)
      (fun peer frame => ∀ node ∈ frame.introduces peer, G node) (fun _ _ => True) where
  request {now peer frame s} hrequest hheard hs := by
    have hsource : ∀ id ∈ frame.message.requester, G (source id peer) := by
      intro id hid
      exact hheard _ (by simp [Frame.introduces, hrequest, Option.mem_def.mp hid])
    refine ⟨hs.change (.quiet ?_) (by simp) (hs.greets.beginRequest now hsource), ?_⟩
    · rw [router_beginRequest]
    · intro point hpoint node hnode
      obtain ⟨id, hid, rfl⟩ := (serves_beginRequest hpoint).newcomer hnode
      exact hsource id hid
  response {peer frame s} hresponse hheard hs := by
    unfold receiveResponse
    split
    · rename_i id hmessage
      refine hs.change (.quiet rfl) (by simp) (hs.greets.welcome (hheard _ ?_) rfl)
      simp [Frame.introduces, hresponse, hmessage]
    · exact hs
  start {s i task} hs htask := by
    refine ⟨hs.change (.quiet rfl) (by simp) ?_, ?_⟩
    · exact fun node hnode => hs.greets node (List.mem_of_mem_eraseIdx hnode)
    · intro point hpoint node hnode
      obtain ⟨n, rfl, rfl⟩ | ⟨n, -, rfl⟩ | ⟨n, -, -, -, rfl⟩ := mem_startTask hpoint
      · cases hnode
        exact hs.greets node (List.mem_of_getElem? htask)
      · cases hnode
      · cases hnode
  advance hs hpoint _ h :=
    ⟨hs.change (tableChange_advance h) (fun m hm => hpoint m (Point.admitted_newcomer hm))
        (hs.greets.advance hpoint h),
      fun _ hnext node hnode => hpoint node ((follows_advance h hnext).newcomer hnode)⟩
  cacheDrop _ hs := hs.change (.quiet rfl) (by simp) (hs.greets.congr rfl)

/-- **Local calls add only nodes that have answered them.** -/
theorem Firsthand.localRules (sv : Server) (G : Node → Prop) :
    LocalRules sv (Firsthand G) (fun _ => True) (fun _ _ => True) (fun _ _ => True)
      (fun peer answered => answered = true → G peer) (fun _ _ _ => True) where
  stored _ _ _ := trivial
  touched {s} now target hs :=
    hs.change (.quiet (s.router.untouched_findNeighbors now target none)) (by simp)
      (hs.greets.congr rfl)
  verified _ _ _ hs := ⟨hs.change (.quiet rfl) (by simp) (hs.greets.congr rfl), fun _ => trivial⟩
  written _ _ _ _ hs := hs.change (.quiet rfl) (by simp) (hs.greets.congr rfl)
  deleted _ hs := hs.change (.quiet rfl) (by simp) (hs.greets.congr rfl)
  queried {s} undialable peer answered hanswers hs := by
    obtain ⟨removed, hchange, -⟩ := @tableChange_afterQuery s undialable peer answered
    refine hs.change hchange (by simp) ?_
    unfold afterQuery
    split
    · exact hs.greets
    · split
      · exact hs.greets
      · split
        · rename_i hanswered
          exact hs.greets.welcome (hanswers hanswered) rfl
        · exact hs.greets.congr rfl
  called {s} peer request result _ hs := by
    obtain ⟨removed, hchange, -⟩ := @tableChange_callRpc s peer request result
    refine hs.change hchange (by simp) ?_
    unfold callRpc
    split
    · exact hs.greets
    · split
      · exact hs.greets
      · exact hs.greets.congr rfl
      · split
        · exact hs.greets
        · exact hs.greets.congr rfl

end Firsthand

namespace Cluster

variable {servers : SocketAddr → Server} {pools : ∀ a, ServerPool (servers a)}
  {c : Cluster servers} {run : List (ClusterEvent servers)} {b : SocketAddr}

/-- The queries and requests of local calls of `b` end as the conditions allow, in a run that
starts in `c`. -/
def LocalCallsMeet (answers : Node → Bool → Prop) (acks : Node → RpcMessage → CallResult → Prop)
    (b : SocketAddr) (c : Cluster servers) (run : List (ClusterEvent servers)) : Prop :=
  EachStep step (fun d e => ∀ now i replies, e = .acts b (.server (.resume now i replies)) →
    ∀ q next cont, (d b).pool.processes[i]? = some (.wait q next cont) →
      AnswersMeet (servers b) (fun _ => True) answers acks q (replies q)) c run

/-- The calls of background tasks of `b` end as the condition allows, in a run that starts
in `c`. -/
def TasksMeet (gets : Point → CallResult → Prop) (b : SocketAddr) (c : Cluster servers)
    (run : List (ClusterEvent servers)) : Prop :=
  EachStep step (fun d e => ∀ now fuel i result,
    e = .acts b (.background (.resume now fuel i result)) →
    ∀ point ∈ (d b).tasks[i]?, point.calls = true → gets point result) c run

/-- For a property that says nothing about records these two are all there is to meet. -/
theorem ownEvents_of_meet {gets : Point → CallResult → Prop} {answers : Node → Bool → Prop}
    {acks : Node → RpcMessage → CallResult → Prop} (htasks : TasksMeet gets b c run)
    (hlocal : LocalCallsMeet answers acks b c run) :
    OwnEvents gets (fun _ => True) (fun _ _ => True) (fun _ _ => True) answers acks b c run := by
  rintro pre e post d hsplit hpre he rfl
  cases he with
  | background e =>
      cases e with
      | resume now fuel i result => exact htasks pre _ post d hsplit hpre now fuel i result rfl
      | _ => trivial
  | server e =>
      cases e with
      | node e => trivial
      | call now call => cases call <;> simp [Host.Meets, Server.CallAllowed]
      | resume now i replies => exact hlocal pre _ post d hsplit hpre now i replies rfl
  | _ => trivial

/-- Without conditions there is nothing to meet. -/
theorem ownEvents_unconditional (b : SocketAddr) (c : Cluster servers)
    (run : List (ClusterEvent servers)) :
    OwnEvents (fun _ _ => True) (fun _ => True) (fun _ _ => True) (fun _ _ => True)
      (fun _ _ => True) (fun _ _ _ => True) b c run := by
  refine ownEvents_of_meet ?_ ?_
  · intro pre e post d _ _ now fuel i result _ point _ _
    trivial
  · intro pre e post d _ _ now i replies _ q next cont _
    exact answersMeet_unconditional q _

/-- **Contacts are known first-hand.**  Let the contacts a host starts with have `G`, and every
node that a frame dispatched at the host is from, and every node that answers a query of a
lookup of the host.  Then all its contacts have `G`, whatever its peers report about others
and in whatever order its tasks run. -/
theorem contacts_firsthand {G : Node → Prop} (hidle : (pools b).processes = [])
    (hstart : Firsthand G (pools b).shared.node) (hrun : exec step (start pools) run = some c)
    (hheard : ∀ peer frame, Dispatched pools run b peer frame →
      ∀ node ∈ frame.introduces peer, G node)
    (hlookups : LocalCallsMeet (fun peer answered => answered = true → G peer)
      (fun _ _ _ => True) b (start pools) run) : ∀ m ∈ (c b).state.router.contacts, G m := by
  have hkept := kept_exec (Firsthand.segmentRules (servers b).protocol G)
    (Firsthand.localRules (servers b) G) hidle hstart hrun hheard
    (ownEvents_of_meet (fun _ _ _ _ _ _ _ _ _ _ _ _ _ _ => trivial) hlookups)
  exact hkept.contacts

/-! A stranger pings a node that knows nobody, and is welcomed. -/

/-- The only frame of a run that begins with an injected datagram, and goes on without. -/
theorem hears_of_inject {src dest : SocketAddr} {data : Bytes} {now accepted : ℕ}
    {hears : SocketAddr → Frame → Prop} {rest : List (ClusterEvent servers)}
    (hrest : ∀ e ∈ rest, ∃ a he, e = .acts a he)
    (h : ∀ frame, (receiveFrame (servers b).wire now (c b).reassembly src data).1 = some frame →
      hears src frame) : Hears hears b c (.inject src dest data now accepted :: rest) := by
  rintro pre e post d hsplit hpre peer frame ⟨data', now', accepted', harrives, hframe⟩
  cases pre with
  | nil =>
      cases hsplit
      cases hpre
      cases harrives
      exact h frame hframe
  | cons e' pre =>
      cases hsplit
      obtain ⟨a, he, rfl⟩ := hrest e (by simp)
      cases harrives

open Sample

def pingedAndWelcomed (addr : SocketAddr) (id : NodeId) :
    List (ClusterEvent fun _ => sampleServer) :=
  .inject addr keeper (datagram 0 (Frame.codec.write ⟨0, true, .ping id⟩) 0) 1 1 ::
    [.acts keeper (.background (.start 0)), .acts keeper (.background (.resume 2 1 0 .noResponse)),
      .acts keeper (.background (.resume 2 1 0 .noResponse)),
      .acts keeper (.background (.resume 2 1 0 .noResponse))]

theorem hears_pingedAndWelcomed {c : Cluster fun _ => sampleServer} {addr : SocketAddr}
    {id : NodeId}
    (hempty : (c b).reassembly = ∅)
    (hread : (receiveFrame bincode 1 ∅ addr
      (datagram 0 (Frame.codec.write ⟨0, true, .ping id⟩) 0)).1 = some ⟨0, true, .ping id⟩) :
    Hears (fun peer frame => peer = addr ∧ frame = ⟨0, true, .ping id⟩) b c
      (pingedAndWelcomed addr id) := by
  refine hears_of_inject (by simp) fun frame hframe => ⟨rfl, ?_⟩
  rw [hempty] at hframe
  exact Option.some.inj (hframe.symm.trans hread)

theorem contacts_firsthand_pingedAndWelcomed :
    ∃ c, exec step (start emptyPools) (pingedAndWelcomed peerAddr peerId) = some c ∧
      (c keeper).state.router.contacts.length = 1 ∧
      ∀ m ∈ (c keeper).state.router.contacts, m = source peerId peerAddr := by
  have hend : (exec step (start emptyPools) (pingedAndWelcomed peerAddr peerId)).map
      (fun c => (c keeper).state.router.contacts.length) = some 1 := by decide +kernel
  obtain ⟨c, hrun, hlength⟩ := Option.map_eq_some_iff.mp hend
  refine ⟨c, hrun, hlength, contacts_firsthand rfl ?_ hrun ?_ ?_⟩
  · refine ⟨RoutingTable.invariant_new _ _ _, ?_, ?_⟩
    · simp [emptyPools, Server.start, Protocol.new, RoutingTable.new, RoutingTable.contacts,
        KBucket.new, KBucket.contacts]
    · simp [Greets, emptyPools, Server.start, Protocol.new]
  · intro peer frame hframe node hnode
    have hheard := @hears_pingedAndWelcomed keeper (start emptyPools) peerAddr peerId rfl
      (by decide +kernel)
    obtain ⟨rfl, rfl⟩ := hears_start_iff.mp hheard peer frame hframe
    cases hnode
    rfl
  · refine EachStep.of_forall_mem ?_
    simp [pingedAndWelcomed]

end Cluster

end AuthKademlia
