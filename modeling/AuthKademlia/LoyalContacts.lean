import AuthKademlia.ContactCauses

/-!
# Primary contacts are lost for a cause

A contact that has become primary stays where it is until it says that it leaves, stores a record
that does not verify, or fails to answer (`loyal_contact_kept`): new contacts only ever queue up behind
it, however many there are and however their welcomes are interleaved.

The name of a sender is not verified, so the cause may be made up by somebody else: what has
to be excluded are frames in the name of the contact, wherever they come from.

## Main definitions

* `Orderly` — the table is sound, and no bad verdict is cached.
* `Primary` — an id is a primary contact.
* `Point.Spares`, `Frame.Spares` — nothing speaks against the id here.
* `Point.Succeeds` — a call to it ended well.
-/

namespace AuthKademlia

open Lib Protocol

/-- No bad verdict is in the cache. -/
def GoodVerdicts (s : NodeState) : Prop :=
  ∀ cache ∈ s.sigCache, ∀ k, SignatureCache.getByKey cache k ≠ some false

/-- The table is sound, and its buckets have room. -/
structure SoundTable (s : NodeState) : Prop where
  table : s.router.Invariant
  ksize : 1 ≤ s.router.ksize

/-- What holds of a node in every run. -/
def Orderly (s : NodeState) : Prop := SoundTable s ∧ GoodVerdicts s

/-- The id `x` is a primary contact. -/
def Primary (x : NodeId) (s : NodeState) : Prop := x ∈ s.router.primaries.map Node.id

/-- A future suspended here will not remove `x`, as long as its calls succeed. -/
structure Point.Spares (p : Protocol) (x : NodeId) (point : Point) : Prop where
  removed : ∀ node ∈ point.removed, node.id ≠ x
  verifying : ∀ peer key value, point = .verifying x peer key value →
    checkDirectly p.signatureHandler (key = digest p.hash statusListKey) value = true

/-- The frame is no `Leave` and no `Store` of an invalid record in the name of `x`. -/
def Frame.Spares (p : Protocol) (x : NodeId) (frame : Frame) : Prop :=
  frame.isRequest = true → frame.message ≠ .leave x ∧
    ∀ key value, frame.message = .store x key value →
      checkDirectly p.signatureHandler (key = digest p.hash statusListKey) value = true

/-- A call to `x` ended well. -/
def Point.Succeeds (x : NodeId) (result : CallResult) : Point → Prop
  | .pinging node => node.id = x → ∃ id, result = .response (.pong id)
  | .storing peer => peer.id = x →
      result = .badAddress ∨ ∃ ok, result = .response (.storeResult ok)
  | _ => True

/-! ## What holds in every run -/

section Orderly

variable {p : Protocol} {s s' : NodeState} {now : ℕ}

theorem SoundTable.change {removed admitted : Option Node} (h : SoundTable s)
    (hchange : TableChange s.router s'.router removed admitted) : SoundTable s' where
  table := (hchange.invariant h.table).1
  ksize := (hchange.invariant h.table).2 ▸ h.ksize

theorem SoundTable.segmentRules (p : Protocol) :
    SegmentRules p SoundTable (fun _ => True) (fun _ _ => True) (fun _ _ => True) where
  request _ _ hs := ⟨hs.change (.quiet (by rw [router_beginRequest])), fun _ _ => trivial⟩
  response _ _ hs := by
    unfold receiveResponse
    split
    · exact hs.change (.quiet rfl)
    · exact hs
  start hs _ := ⟨hs.change (.quiet rfl), fun _ _ => trivial⟩
  advance hs _ _ h := ⟨hs.change (tableChange_advance h), fun _ _ => trivial⟩
  cacheDrop _ hs := hs.change (.quiet rfl)

theorem SoundTable.localRules (sv : Server) :
    LocalRules sv SoundTable (fun _ => True) (fun _ _ => True) (fun _ _ => True)
      (fun _ _ => True) (fun _ _ _ => True) where
  stored _ _ _ := trivial
  touched {s} now target hs := hs.change (.quiet (s.router.untouched_findNeighbors now target none))
  verified _ _ _ hs := ⟨hs.change (.quiet rfl), fun _ => trivial⟩
  written _ _ _ _ hs := hs.change (.quiet rfl)
  deleted _ hs := hs.change (.quiet rfl)
  queried {s} undialable peer answered _ hs := by
    obtain ⟨removed, hchange, -⟩ := @tableChange_afterQuery s undialable peer answered
    exact hs.change hchange
  called {s} peer request result _ hs := by
    obtain ⟨removed, hchange, -⟩ := @tableChange_callRpc s peer request result
    exact hs.change hchange

theorem GoodVerdicts.congr (h : GoodVerdicts s) (hcache : s'.sigCache = s.sigCache) :
    GoodVerdicts s' := by
  unfold GoodVerdicts
  rwa [hcache]

theorem GoodVerdicts.insertByKey {cache : SignatureCache} {key : Bytes}
    (h : ∀ k, cache.getByKey k ≠ some false) (k : Bytes) :
    (cache.insertByKey key true).getByKey k ≠ some false := by
  by_cases hk : k = key
  · subst hk
    simp [SignatureCache.getByKey, SignatureCache.insertByKey]
  · rw [SignatureCache.getByKey, SignatureCache.insertByKey, AList.lookup_insert_ne hk]
    exact h k

theorem GoodVerdicts.erase (h : GoodVerdicts s) (key : Bytes) :
    GoodVerdicts { s with sigCache := s.sigCache.map fun c => c.erase key } := by
  intro cache hcache k
  obtain ⟨c, hc, rfl⟩ := Option.mem_map.mp hcache
  by_cases hk : k = key
  · subst hk
    simp [SignatureCache.getByKey]
  · rw [SignatureCache.getByKey, AList.lookup_erase_ne hk]
    exact h c hc k

/-- A verification caches nothing but a success. -/
theorem GoodVerdicts.verifyCached (h : GoodVerdicts s) (isStatus : Bool) (value : Bytes) :
    GoodVerdicts { s with
      sigCache := (verifyCached p.hash p.signatureHandler isStatus s.sigCache value).2 } := by
  unfold AuthKademlia.verifyCached
  split
  · simp [GoodVerdicts]
  · rename_i cache hcache
    have hgood := h cache hcache
    dsimp only
    split
    · rintro c ⟨⟩
      exact hgood
    · split
      · rename_i hcheck
        rintro c ⟨⟩
        rw [hcheck]
        exact insertByKey hgood
      · rintro c ⟨⟩
        exact hgood

theorem GoodVerdicts.verifyDirectly (h : GoodVerdicts s) (key : NodeId) (value : Bytes) :
    GoodVerdicts (p.verifyDirectly key value s).2 := by
  unfold Protocol.verifyDirectly
  dsimp only
  split
  · rename_i hcheck
    intro cache hcache
    obtain ⟨c, hc, rfl⟩ := Option.mem_map.mp hcache
    rw [hcheck]
    exact insertByKey (h c hc)
  · exact h

theorem sigCache_storeVerified (senderId : NodeId) (peer : SocketAddr) (key : NodeId)
    (value : Bytes) (valid : Bool) :
    (storeVerified now senderId peer key value valid s).2.sigCache = s.sigCache := by
  unfold storeVerified
  cases valid with
  | false =>
      simp only [Bool.not_false, if_true]
      split <;> rfl
  | true =>
      simp only [Bool.not_true, Bool.false_eq_true, if_false]
      split <;> rfl

theorem GoodVerdicts.beginRequest (h : GoodVerdicts s) (msg : RpcMessage) (peer : SocketAddr) :
    GoodVerdicts (p.beginRequest now msg peer s).2 := by
  cases msg with
  | store senderId key value =>
      simp only [Protocol.beginRequest]
      split
      · exact h.congr (sigCache_storeVerified senderId peer key value _)
      · exact h
  | update senderId key value authSignature => exact h.congr (congrArg _ (beginWrite_spec _).1)
  | updateStatusList senderId key value => exact h.congr (congrArg _ (beginWrite_spec _).1)
  | delete senderId key authSignature deleteMsg => exact h.congr (congrArg _ (beginWrite_spec _).1)
  | _ => exact h.congr rfl

theorem GoodVerdicts.advance {fuel : ℕ} {result : CallResult} {point : Point}
    {r : Progress × NodeState} (h : GoodVerdicts s)
    (hadvance : p.advance now fuel result s point = some r) : GoodVerdicts r.2 := by
  cases point with
  | verifying senderId peer key value =>
      simp only [Protocol.advance, Option.some.injEq] at hadvance
      subst hadvance
      exact (h.verifyDirectly key value).congr (sigCache_storeVerified senderId peer key value _)
  | checking q old =>
      simp only [Protocol.advance] at hadvance
      split at hadvance
      · cases hadvance
        exact h
      · cases hadvance
        refine h.congr ?_
        obtain ⟨senderId, peer, op⟩ := q
        cases op with
        | store key value =>
            unfold WriteRequest.writeStep
            dsimp only
            split <;> rfl
        | _ => rfl
  | greeting node lookup =>
      simp only [Protocol.advance] at hadvance
      split at hadvance
      · cases hadvance
        exact h.congr (by rw [afterWelcome_state])
      · cases hadvance
        exact h
  | adding node lookup keys =>
      obtain ⟨lru, router, -, hr⟩ := advance_adding hadvance
      exact h.congr (by rw [hr])
  | pinging node =>
      simp only [Protocol.advance] at hadvance
      split at hadvance <;> cases hadvance <;> exact h
  | storing peer =>
      simp only [Protocol.advance] at hadvance
      split at hadvance <;> cases hadvance <;> exact h
  | banning sender strikes => cases hadvance; exact h.congr rfl
  | searching sender key => cases hadvance; exact h.congr rfl
  | lookingUp sender key => cases hadvance; exact h.congr rfl
  | leaving sender => cases hadvance; exact h.congr rfl
  | sampling node lookup entries => cases hadvance; exact h.congr rfl
  | evicting node => cases hadvance; exact h.congr rfl

theorem GoodVerdicts.segmentRules (p : Protocol) :
    SegmentRules p GoodVerdicts (fun _ => True) (fun _ _ => True) (fun _ _ => True) where
  request _ _ hs := ⟨hs.beginRequest _ _, fun _ _ => trivial⟩
  response {peer frame s} _ _ hs := by
    unfold receiveResponse
    split
    · exact hs.congr rfl
    · exact hs
  start hs _ := ⟨hs.congr rfl, fun _ _ => trivial⟩
  advance hs _ _ h := ⟨hs.advance h, fun _ _ => trivial⟩
  cacheDrop key hs := hs.erase key

theorem GoodVerdicts.localRules (sv : Server) :
    LocalRules sv GoodVerdicts (fun _ => True) (fun _ _ => True) (fun _ _ => True)
      (fun _ _ => True) (fun _ _ _ => True) where
  stored _ _ _ := trivial
  touched _ _ hs := hs.congr rfl
  verified key value _ hs := ⟨hs.verifyCached (key = statusListKey) value, fun _ => trivial⟩
  written _ _ _ _ hs := hs.congr rfl
  deleted _ hs := hs.congr rfl
  queried {s} undialable peer answered _ hs :=
    hs.congr (quiet_afterQuery undialable peer answered s).2
  called {s} peer request result _ hs := hs.congr (quiet_callRpc peer request result s).2

theorem Orderly.segmentRules (p : Protocol) :
    SegmentRules p Orderly (fun _ => True) (fun _ _ => True) (fun _ _ => True) :=
  (SoundTable.segmentRules p).and (GoodVerdicts.segmentRules p)

theorem Orderly.localRules (sv : Server) :
    LocalRules sv Orderly (fun _ => True) (fun _ _ => True) (fun _ _ => True) (fun _ _ => True)
      (fun _ _ _ => True) :=
  (SoundTable.localRules sv).and (GoodVerdicts.localRules sv)

end Orderly

/-! ## What does not remove a contact -/

section Primary

variable {p : Protocol} {x : NodeId} {s s' : NodeState} {now : ℕ}

theorem Primary.change {removed admitted : Option Node} (h : Orderly s ∧ Primary x s)
    (hchange : TableChange s.router s'.router removed admitted)
    (hremoved : ∀ node ∈ removed, node.id ≠ x) : Primary x s' :=
  hchange.primary_kept h.1.1.table h.1.1.ksize h.2 hremoved

/-- The first point of a handler does not speak against `x` if the request does not. -/
theorem spares_beginRequest {msg : RpcMessage} {peer : SocketAddr} {point : Point}
    (h : GoodVerdicts s) (hleave : msg ≠ .leave x)
    (hstore : ∀ key value, msg = .store x key value →
      checkDirectly p.signatureHandler (key = digest p.hash statusListKey) value = true)
    (hpoint : point ∈ (p.beginRequest now msg peer s).1.pending) : point.Spares p x := by
  cases serves_beginRequest hpoint with
  | verifying i key value =>
      refine ⟨by simp [Point.removed], ?_⟩
      rintro peer key value ⟨⟩
      exact hstore key value rfl
  | banning i key value strikes =>
      refine ⟨?_, by simp⟩
      rintro node ⟨⟩ rfl
      -- the verdict came from the cache
      simp only [Protocol.beginRequest] at hpoint
      split at hpoint
      · rename_i valid hverdict
        obtain ⟨rfl, -⟩ := pending_storeVerified hpoint
        obtain ⟨cache, hcache, hget⟩ := Option.bind_eq_some_iff.mp hverdict
        exact h cache hcache _ hget
      · cases List.mem_singleton.mp hpoint
  | leaving i =>
      refine ⟨?_, by simp⟩
      rintro node ⟨⟩ rfl
      exact hleave rfl
  | _ => exact ⟨by simp [Point.removed], by simp⟩

theorem Follows.spares {result : CallResult} {point next : Point} (h : Follows p result point next)
    (hpoint : point.Spares p x) (hgets : point.calls = true → point.Succeeds x result) :
    next.Spares p x := by
  cases h with
  | banning senderId peer key value strikes hinvalid =>
      refine ⟨?_, by simp⟩
      rintro node ⟨⟩ rfl
      simp [hpoint.verifying peer key value rfl] at hinvalid
  | noPong node hresult =>
      refine ⟨?_, by simp⟩
      rintro n ⟨⟩ hid
      obtain ⟨id, hpong⟩ := hgets rfl hid
      exact hresult id hpong
  | noResult peer haddress hresult =>
      refine ⟨?_, by simp⟩
      rintro n ⟨⟩ hid
      obtain hbad | ⟨ok, hstored⟩ := hgets rfl hid
      · exact haddress hbad
      · exact hresult ok hstored
  | _ => exact ⟨by simp [Point.removed], by simp⟩

/-- **Handlers and tasks remove `x` only for a cause.** -/
theorem Primary.segmentRules (p : Protocol) (x : NodeId) :
    SegmentRules p (fun s => Orderly s ∧ Primary x s) (Point.Spares p x)
      (fun _ frame => frame.Spares p x) (fun point result => point.Succeeds x result) where
  request {now peer frame s} hrequest hheard hs :=
    have horderly := (Orderly.segmentRules p).request hrequest trivial hs.1
    ⟨⟨horderly.1, change hs (.quiet (by rw [router_beginRequest])) (by simp)⟩, fun _ hpoint =>
      spares_beginRequest hs.1.2 (hheard hrequest).1 (hheard hrequest).2 hpoint⟩
  response {peer frame s} hresponse _ hs := by
    refine ⟨(Orderly.segmentRules p).response hresponse trivial hs.1, ?_⟩
    unfold receiveResponse
    split
    · exact change hs (.quiet rfl) (by simp)
    · exact hs.2
  start {s i task} hs htask := by
    have horderly := (Orderly.segmentRules p).start hs.1 htask
    refine ⟨⟨horderly.1, change hs (.quiet rfl) (by simp)⟩, ?_⟩
    intro point hpoint
    obtain ⟨n, -, rfl⟩ | ⟨n, -, rfl⟩ | ⟨n, -, -, -, rfl⟩ := mem_startTask hpoint
    all_goals exact ⟨by simp [Point.removed], by simp⟩
  advance hs hpoint hgets h :=
    have horderly := (Orderly.segmentRules p).advance hs.1 trivial (fun _ => trivial) h
    ⟨⟨horderly.1, change hs (tableChange_advance h) hpoint.removed⟩,
      fun _ hnext => (follows_advance h hnext).spares hpoint hgets⟩
  cacheDrop key hs :=
    ⟨(Orderly.segmentRules p).cacheDrop key hs.1, change hs (.quiet rfl) (by simp)⟩

/-- **So do local calls.** -/
theorem Primary.localRules (sv : Server) (x : NodeId) :
    LocalRules sv (fun s => Orderly s ∧ Primary x s) (fun _ => True) (fun _ _ => True)
      (fun _ _ => True) (fun peer answered => peer.id = x → answered = true)
      (fun peer request result => peer.id = x → Acknowledged request result) where
  stored _ _ _ := trivial
  touched {s} now target hs :=
    ⟨(Orderly.localRules sv).touched now target hs.1,
      change hs (.quiet (s.router.untouched_findNeighbors now target none)) (by simp)⟩
  verified key value hT hs :=
    ⟨⟨((Orderly.localRules sv).verified key value hT hs.1).1, change hs (.quiet rfl) (by simp)⟩,
      fun _ => trivial⟩
  written now key value hW hs :=
    ⟨(Orderly.localRules sv).written now key value hW hs.1, change hs (.quiet rfl) (by simp)⟩
  deleted key hs := ⟨(Orderly.localRules sv).deleted key hs.1, change hs (.quiet rfl) (by simp)⟩
  queried {s} undialable peer answered hanswers hs := by
    refine ⟨(Orderly.localRules sv).queried undialable peer answered trivial hs.1, ?_⟩
    obtain ⟨removed, hchange, hremoved⟩ := @tableChange_afterQuery s undialable peer answered
    refine change hs hchange ?_
    intro node hnode hid
    obtain ⟨rfl, hanswered⟩ := hremoved node hnode
    simp [hanswers hid] at hanswered
  called {s} peer request result hacks hs := by
    refine ⟨(Orderly.localRules sv).called peer request result trivial hs.1, ?_⟩
    obtain ⟨removed, hchange, hremoved⟩ := @tableChange_callRpc s peer request result
    refine change hs hchange ?_
    intro node hnode hid
    obtain ⟨rfl, hfailed⟩ := hremoved node hnode
    exact hfailed (hacks hid)

end Primary

namespace Cluster

variable {servers : SocketAddr → Server} {pools : ∀ a, ServerPool (servers a)}
  {c c' : Cluster servers} {pre post : List (ClusterEvent servers)} {b : SocketAddr}

/-- **A contact is lost for a cause.**  Once a contact is primary and no future under way is
about to remove it, it stays primary as long as nobody says `Leave` or stores an invalid record
in its name, and it answers the calls and queries it gets; no other traffic displaces it. -/
theorem loyal_contact_kept {x : NodeId} (hidle : (pools b).processes = [])
    (hstart : Orderly (pools b).shared.node) (hpre : exec step (start pools) pre = some c)
    (hprimary : Primary x (c b).state)
    (hspares : ∀ point ∈ (c b).points, point.Spares (servers b).protocol x)
    (hpost : exec step c post = some c')
    (hheard : Hears (fun _ frame => frame.Spares (servers b).protocol x) b c post)
    (htasks : TasksMeet (fun point result => point.Succeeds x result) b c post)
    (hlocal : LocalCallsMeet (fun peer answered => peer.id = x → answered = true)
      (fun peer request result => peer.id = x → Acknowledged request result) b c post) :
    Primary x (c' b).state := by
  have hrules := Primary.localRules (servers b) x
  -- what is under way when the contact becomes primary keeps it from then on
  have hnothing : exec step (start pools) [] = some (start pools) := rfl
  have hreached := kept_exec_from (Orderly.segmentRules (servers b).protocol)
    (Orderly.localRules (servers b)) hrules hnothing (kept_start hidle hstart _ _) hpre
    (hears_start_iff.mpr fun _ _ _ => trivial) (ownEvents_unconditional b _ pre)
  exact (kept_exec_from (Primary.segmentRules (servers b).protocol x) hrules hrules.and_true hpre
    (hreached.and hprimary (fun q a _ => answersMeet_unconditional q a) hspares _) hpost hheard
    (ownEvents_of_meet htasks hlocal)).state.2

/-! A node that knows nobody welcomes a stranger, and then another one. -/

open Sample

theorem orderly_emptyPools (a : SocketAddr) : Orderly (emptyPools a).shared.node := by
  have hexec : exec RoutingTable.step (RoutingTable.new localNode 20 0) [] =
    some (emptyPools a).shared.node.router := rfl
  obtain ⟨hinv, -, hksize⟩ := RoutingTable.Invariant.exec hexec
  refine ⟨⟨hinv, by rw [hksize]; decide⟩, ?_⟩
  simp [GoodVerdicts, emptyPools, Server.start, Protocol.new]

def newcomerAddr : SocketAddr := ⟨"10.0.0.77", 5678⟩

theorem loyal_contact_kept_pingedAndWelcomed :
    ∃ c c', exec step (start emptyPools) (pingedAndWelcomed peerAddr peerId) = some c ∧
      exec step c (pingedAndWelcomed newcomerAddr (crawlNode 4).id) = some c' ∧
      (c' keeper).state.router.primaries.length = 2 ∧ Primary peerId (c' keeper).state := by
  have hend : (exec step (start emptyPools) (pingedAndWelcomed peerAddr peerId)).map
      (fun c => ((c keeper).state.router.primaries.map Node.id, (c keeper).points.length,
        (c keeper).reassembly.entries.length)) = some ([peerId], 0, 0) := by decide +kernel
  have hend' : (exec step (start emptyPools)
      (pingedAndWelcomed peerAddr peerId ++ pingedAndWelcomed newcomerAddr (crawlNode 4).id)).map
      (fun c => (c keeper).state.router.primaries.length) = some 2 := by decide +kernel
  obtain ⟨c, hpre, hc⟩ := Option.map_eq_some_iff.mp hend
  obtain ⟨c', hrun, hc'⟩ := Option.map_eq_some_iff.mp hend'
  simp only [Prod.mk.injEq, List.length_eq_zero_iff] at hc
  obtain ⟨hprimaries, hpoints, hempty⟩ := hc
  have hpost : exec step c (pingedAndWelcomed newcomerAddr (crawlNode 4).id) = some c' := by
    rwa [exec_append, hpre] at hrun
  refine ⟨c, c', hpre, hpost, hc', loyal_contact_kept rfl (orderly_emptyPools keeper) hpre ?_ ?_
    hpost ?_ ?_ ?_⟩
  · simp [Primary, hprimaries]
  · simp [hpoints]
  · have hheard := @hears_pingedAndWelcomed keeper c newcomerAddr (crawlNode 4).id
      (AList.ext hempty)
      (by decide +kernel)
    intro before e after d hsplit hbefore peer frame hdispatches
    obtain ⟨rfl, rfl⟩ := hheard before e after d hsplit hbefore peer frame hdispatches
    simp [Frame.Spares]
  · -- no task of this run makes a call
    have hquiet : EachStep step (fun c _ => (c keeper).tasks.all (!·.calls) = true)
        (start emptyPools) (pingedAndWelcomed peerAddr peerId ++
          pingedAndWelcomed newcomerAddr (crawlNode 4).id) := by decide +kernel
    intro before e after d hsplit hbefore now fuel i result _ point hpoint hcalls
    have hall := List.all_eq_true.mp (hquiet.drop hpre before e after d hsplit hbefore) point
      (List.mem_of_getElem? hpoint)
    simp [hcalls] at hall
  · refine EachStep.of_forall_mem ?_
    simp [pingedAndWelcomed]

end Cluster

end AuthKademlia
