import AuthKademlia.Interleaving
import AuthKademlia.ContactFrame

/-!
# Banned senders

A sender whose stores carry invalid signatures is struck, and from the third strike on it is
removed from the routing table.  The removal needs the lock of the table, so it comes some
time after the strike; and the strikes are not asked for when a contact is added.

A strike and the decision to ban are one segment.  So as soon as an id has enough strikes
there is a handler that is about to remove it, and the ban is complete when the handler of
the last strike is through (`LiveNode.BanComplete`).  After that only `add_contact` for the id
can bring it back: `banned_stays_out` holds for all interleavings in which none does.
`banned_sender_comes_back` is a run in which one does, spawned by the first of three stores.

## Main definitions

* `Effect` — what a segment does to the table, to the strikes, and to the pending bans.
* `LiveNode.BanComplete`, `BannedDuring` — the ban of an id.
* `LiveNode.Admits` — the event runs `add_contact` for an id.
-/

namespace AuthKademlia

open Lib Protocol

/-- The strikes of a sender. -/
def NodeState.strikes (s : NodeState) (x : NodeId) : UInt32 := (s.invalidSigStrikes.lookup x).getD 0

namespace Point

/-- The ban a handler is about to carry out: the sender and its strikes. -/
def ban : Point → Option (NodeId × UInt32)
  | banning sender strikes => some (sender.id, strikes)
  | _ => none

/-- The node a welcome is about to add. -/
def admitted : Point → Option Node
  | adding node _ _ => some node
  | _ => none

end Point

namespace LiveNode

/-- The bans that are decided and not carried out. -/
def bans (c : LiveNode) : List (NodeId × UInt32) := c.points.filterMap Point.ban

/-- The id has enough strikes, and the handler of the last one has removed it. -/
def BanComplete (c : LiveNode) (x : NodeId) : Prop :=
  invalidSigBanThreshold ≤ c.state.strikes x ∧ (x, c.state.strikes x) ∉ c.bans

instance (c : LiveNode) (x : NodeId) : Decidable (c.BanComplete x) :=
  inferInstanceAs (Decidable (_ ∧ _))

/-- The node that the event adds to the table. -/
def admitted (c : LiveNode) : LiveEvent → Option Node
  | .resume _ _ i _ => c.points[i]?.bind Point.admitted
  | _ => none

/-- The event runs `add_contact` for the id, which is not the local one. -/
def Admits (c : LiveNode) (x : NodeId) (e : LiveEvent) : Prop :=
  x ≠ c.state.router.node.id ∧ ∃ node ∈ c.admitted e, node.id = x

end LiveNode

/-! ## What a segment does -/

/-- What a segment does.  `own` is the ban it carries out, `new` the ban it decides on, and
`admitted` the node it adds. -/
inductive Effect (s s' : NodeState) :
    Option (NodeId × UInt32) → List (NodeId × UInt32) → Option Node → Prop
  | quiet (hrouter : s'.router.untouched = s.router.untouched)
      (hstrikes : s'.invalidSigStrikes = s.invalidSigStrikes) : Effect s s' none [] none
  | struck (senderId : NodeId) (hrouter : s'.router = s.router)
      (hstrikes : s'.invalidSigStrikes = (strike senderId s).2.invalidSigStrikes)
      (new : List (NodeId × UInt32))
      (hnew : new = if (strike senderId s).1 ≥ invalidSigBanThreshold
        then [(senderId, (strike senderId s).1)] else []) : Effect s s' none new none
  | removed (own : Option (NodeId × UInt32)) (node : Node) (hown : ∀ b ∈ own, b.1 = node.id)
      (hrouter : s'.router = s.router.removeContact node)
      (hstrikes : s'.invalidSigStrikes = s.invalidSigStrikes) : Effect s s' own [] none
  | added (node : Node) (now fuel : ℕ) (lru : Option Node)
      (hadd : s.router.addContact now fuel node = some (lru, s'.router))
      (hstrikes : s'.invalidSigStrikes = s.invalidSigStrikes) : Effect s s' none [] (some node)

/-- The bans among the points a future goes on to. -/
def Progress.bans (prog : Progress) : List (NodeId × UInt32) := prog.pending.filterMap Point.ban

section Segments

variable {p : Protocol} {now fuel : ℕ} {result : CallResult} {s : NodeState}

theorem storeVerified_effect (senderId : NodeId) (peer : SocketAddr) (key : NodeId) (value : Bytes)
    (valid : Bool) (cache : Option SignatureCache) :
    Effect s (storeVerified now senderId peer key value valid { s with sigCache := cache }).2 none
      (storeVerified now senderId peer key value valid { s with sigCache := cache }).1.bans
      none := by
  cases valid with
  | false =>
      simp only [storeVerified, Bool.not_false, if_true]
      split
      · next hban => refine .struck senderId ?_ ?_ _ (if_pos hban).symm <;> rfl
      · next hban => refine .struck senderId ?_ ?_ _ (if_neg hban).symm <;> rfl
  | true =>
      simp only [storeVerified, Bool.not_true, Bool.false_eq_true, if_false]
      split <;> exact .quiet rfl rfl

theorem verifyDirectly_state (key : NodeId) (value : Bytes) :
    ∃ cache, (p.verifyDirectly key value s).2 = { s with sigCache := cache } := by
  unfold verifyDirectly
  dsimp only
  split
  · exact ⟨_, rfl⟩
  · exact ⟨s.sigCache, rfl⟩

theorem afterWelcome_spec {node : Node} {lookup : Option NodeId} {prog : Progress} {s' : NodeState}
    (h : afterWelcome now node lookup s = (prog, s')) : s' = s ∧ prog.bans = [] := by
  cases lookup with
  | none =>
      cases h
      exact ⟨rfl, rfl⟩
  | some key =>
      unfold afterWelcome at h
      dsimp only at h
      split at h <;> cases h <;> exact ⟨rfl, rfl⟩

theorem beginWrite_spec (q : WriteRequest) :
    (beginWrite now q s).2 = s ∧ (beginWrite now q s).1.bans = [] := by
  unfold beginWrite
  split <;> exact ⟨rfl, rfl⟩

theorem writeStep_router (q : WriteRequest) :
    (q.writeStep now s).2.router = s.router ∧
      (q.writeStep now s).2.invalidSigStrikes = s.invalidSigStrikes := by
  rcases q with ⟨senderId, peer, op⟩
  cases op with
  | store key value =>
      unfold WriteRequest.writeStep
      dsimp only
      split <;> exact ⟨rfl, rfl⟩
  | _ => exact ⟨rfl, rfl⟩

/-- A segment that only reads the table, and ends or waits for something other than a ban. -/
theorem Effect.of_same {r : Progress × NodeState} (hstate : r.2 = s) (hbans : r.1.bans = []) :
    Effect s r.2 none r.1.bans none := by
  rw [hstate, hbans]
  exact .quiet rfl rfl

theorem beginRequest_effect (msg : RpcMessage) (peer : SocketAddr) :
    Effect s (p.beginRequest now msg peer s).2 none (p.beginRequest now msg peer s).1.bans
      none := by
  cases msg with
  | store senderId key value =>
      unfold beginRequest
      dsimp only
      split
      · exact storeVerified_effect senderId peer key value _ s.sigCache
      · exact .quiet rfl rfl
  | update senderId key value authSignature =>
      exact .of_same (beginWrite_spec _).1 (beginWrite_spec _).2
  | updateStatusList senderId key value =>
      exact .of_same (beginWrite_spec _).1 (beginWrite_spec _).2
  | delete senderId key authSignature deleteMsg =>
      exact .of_same (beginWrite_spec _).1 (beginWrite_spec _).2
  | _ => exact .quiet rfl rfl

theorem advance_effect {point : Point} {prog : Progress} {s' : NodeState}
    (h : p.advance now fuel result s point = some (prog, s')) :
    Effect s s' point.ban prog.bans point.admitted := by
  cases point with
  | verifying senderId peer key value =>
      rcases verifyDirectly_state (p := p) (s := s) key value with ⟨cache, hcache⟩
      simp only [advance, hcache, Option.some.injEq] at h
      have heffect := @storeVerified_effect now s senderId peer key value
        (p.verifyDirectly key value s).1 cache
      rwa [h] at heffect
  | banning sender strikes =>
      cases h
      exact .removed _ sender (by simp [Point.ban]) rfl rfl
  | checking q old =>
      simp only [advance] at h
      split at h
      · cases h
        exact .quiet rfl rfl
      · cases h
        exact .quiet (by rw [(writeStep_router q).1]) (writeStep_router q).2
  | searching sender key =>
      cases h
      exact .quiet (s.router.untouched_findNeighbors now (Node.fromId key) (some sender)) rfl
  | lookingUp sender key =>
      cases h
      exact .quiet (s.router.untouched_findNeighbors now (Node.fromId key) (some sender)) rfl
  | leaving sender =>
      cases h
      exact .removed _ sender (by simp [Point.ban]) rfl rfl
  | greeting node lookup =>
      simp only [advance] at h
      split at h
      · rcases afterWelcome_spec (Option.some.inj h) with ⟨rfl, hbans⟩
        rw [hbans]
        exact .quiet rfl rfl
      · cases h
        exact .quiet rfl rfl
  | sampling node lookup entries =>
      cases h
      exact .quiet (untouched_keysToReplicate ..) rfl
  | adding node lookup keys =>
      rcases Option.map_eq_some_iff.mp h with ⟨⟨lru, router⟩, hadd, hend⟩
      simp only [foldl_spawn] at hend
      rcases afterWelcome_spec hend with ⟨rfl, hbans⟩
      rw [hbans]
      refine .added node now fuel lru ?_ ?_
      · rw [hadd]
        cases lru <;> rfl
      · cases lru <;> rfl
  | pinging node =>
      simp only [advance] at h
      split at h <;> cases h <;> exact .quiet rfl rfl
  | storing peer =>
      simp only [advance] at h
      split at h <;> cases h <;> exact .quiet rfl rfl
  | evicting node =>
      cases h
      exact .removed _ node (by simp [Point.ban]) rfl rfl

end Segments

/-! ## What a step does -/

section Steps

variable {s s' : NodeState} {own : Option (NodeId × UInt32)} {new : List (NodeId × UInt32)}
  {admitted : Option Node} {x : NodeId}

theorem Effect.invariant (h : Effect s s' own new admitted) (hinv : s.router.Invariant) :
    s'.router.Invariant := by
  cases h with
  | quiet hrouter _ => exact hinv.congr hrouter
  | struck _ hrouter _ _ _ => rwa [hrouter]
  | removed _ node _ hrouter _ =>
      have hstep : s.router.step (.removeContact node) = some s'.router := by rw [hrouter]; rfl
      exact (hinv.step hstep).1
  | added node now fuel lru hadd _ =>
      have hstep : s.router.step (.addContact now fuel node) = some s'.router := by
        simp [RoutingTable.step, hadd]
      exact (hinv.step hstep).1

theorem NodeState.strikes_congr (h : s'.invalidSigStrikes = s.invalidSigStrikes) :
    s'.strikes x = s.strikes x := by
  rw [strikes, h, strikes]

/-- **An id that is out stays out**, unless the segment adds it. -/
theorem Effect.stays_out (h : Effect s s' own new admitted) (hinv : s.router.Invariant)
    (hx : x ∉ s.router.contacts.map Node.id)
    (hadd : x ≠ s.router.node.id → ∀ node ∈ admitted, node.id ≠ x) :
    x ∉ s'.router.contacts.map Node.id := by
  cases h with
  | quiet hrouter _ => rwa [RoutingTable.contacts_congr hrouter]
  | struck _ hrouter _ _ _ => rwa [hrouter]
  | removed _ node _ hrouter _ =>
      rw [hrouter]
      intro hmem
      rcases List.mem_map.mp hmem with ⟨m, hm, rfl⟩
      exact hx (List.mem_map_of_mem (hinv.mem_contacts_removeContact hm))
  | added node now fuel lru hret _ =>
      rcases RoutingTable.addContact_cases hret with ⟨-, -, hsame⟩ | ⟨hid, hinsert⟩
      · rwa [hsame]
      · intro hmem
        rcases List.mem_map.mp hmem with ⟨m, hm, rfl⟩
        rcases hinv.mem_contacts_insert hid hinsert hm with rfl | hm
        · exact hadd hid m rfl rfl
        · exact hx (List.mem_map_of_mem hm)

/-- **A ban is completed by the removal** of the id. -/
theorem Effect.ban_complete (h : Effect s s' own new admitted) (hinv : s.router.Invariant)
    {rest : List (NodeId × UInt32)} (hmany : invalidSigBanThreshold ≤ s'.strikes x)
    (hnone : (x, s'.strikes x) ∉ rest ++ new) :
    (invalidSigBanThreshold ≤ s.strikes x ∧ (x, s.strikes x) ∉ own.toList ++ rest) ∨
      x ∉ s'.router.contacts.map Node.id := by
  cases h with
  | quiet _ hstrikes =>
      rw [NodeState.strikes_congr hstrikes] at hmany hnone
      exact .inl ⟨hmany, by simpa using hnone⟩
  | struck senderId _ hstrikes _ hnew =>
      by_cases hid : x = senderId
      · -- the strike itself decided on a ban that is not carried out
        subst hid
        have hcount : s'.strikes x = (strike x s).1 := by simp [NodeState.strikes, hstrikes, strike]
        rw [hcount] at hmany hnone
        rw [hnew, if_pos hmany] at hnone
        simp at hnone
      · have hsame : s'.strikes x = s.strikes x := by
          simp [NodeState.strikes, hstrikes, strike, AList.lookup_insert_ne hid]
        rw [hsame] at hmany hnone
        exact .inl ⟨hmany, fun hmem => hnone (List.mem_append_left _ (by simpa using hmem))⟩
  | removed _ node hown hrouter hstrikes =>
      rw [NodeState.strikes_congr hstrikes] at hmany hnone
      by_cases hid : node.id = x
      · right
        rw [hrouter, ← hid]
        exact hinv.notMem_contacts_removeContact node
      · left
        refine ⟨hmany, fun hmem => ?_⟩
        rcases List.mem_append.mp hmem with hmem | hmem
        · exact hid (hown _ (by simpa using hmem)).symm
        · exact hnone (List.mem_append_left _ hmem)
  | added node now fuel lru _ hstrikes =>
      rw [NodeState.strikes_congr hstrikes] at hmany hnone
      exact .inl ⟨hmany, by simpa using hnone⟩

theorem bans_startTask (task : Task) : (startTask task).bans = [] := by
  cases task with
  | welcomeIfNew node => rfl
  | callPingNode node =>
      unfold startTask
      dsimp only
      split <;> rfl
  | callStoreRpc peer key value =>
      unfold startTask
      dsimp only
      split <;> rfl

/-- The pending bans are that of one point and those of the others. -/
theorem bans_perm {points : List Point} {i : ℕ} {point : Point} (h : points[i]? = some point) :
    (points.filterMap Point.ban).Perm
      (point.ban.toList ++ (points.eraseIdx i).filterMap Point.ban) := by
  rcases List.getElem?_eq_some_iff.mp h with ⟨hi, rfl⟩
  have hperm := ((List.getElem_cons_eraseIdx_perm hi).filterMap Point.ban).symm
  rw [List.filterMap_cons] at hperm
  cases hban : points[i].ban <;> simpa [hban] using hperm

/-- **One event** is one segment: it carries out at most one ban, decides on at most one, and
leaves the others pending. -/
theorem liveStep_effect {p : Protocol} {c c' : LiveNode} {e : LiveEvent}
    (h : p.liveStep c e = some c') :
    ∃ own new rest, Effect c.state c'.state own new (c.admitted e) ∧
      c.bans.Perm (own.toList ++ rest) ∧ c'.bans = rest ++ new := by
  cases e with
  | request now msg peer =>
      cases h
      exact ⟨none, _, c.bans, beginRequest_effect msg peer, .refl _, List.filterMap_append⟩
  | response msg peer =>
      cases h
      refine ⟨none, [], c.bans, ?_, .refl _, (List.append_nil _).symm⟩
      cases msg <;> exact .quiet rfl rfl
  | crawled peer answered =>
      cases answered <;> cases h
      · exact ⟨none, [], c.bans, .quiet rfl rfl, .refl _, List.filterMap_append⟩
      · exact ⟨none, [], c.bans, .quiet rfl rfl, .refl _, (List.append_nil _).symm⟩
  | start i =>
      simp only [liveStep] at h
      split at h
      · cases h
        exact ⟨none, [], c.bans, .quiet rfl rfl, .refl _, (List.append_nil _).symm⟩
      · next task _ =>
          cases h
          refine ⟨none, [], c.bans, .quiet rfl rfl, .refl _, ?_⟩
          rw [← bans_startTask task]
          exact List.filterMap_append
  | resume now fuel i result =>
      simp only [liveStep] at h
      split at h
      · next hnone =>
          cases h
          refine ⟨none, [], c.bans, ?_, .refl _, (List.append_nil _).symm⟩
          rw [LiveNode.admitted, hnone]
          exact .quiet rfl rfl
      · next point hpoint =>
          rcases Option.map_eq_some_iff.mp h with ⟨⟨prog, s'⟩, hadvance, rfl⟩
          refine ⟨point.ban, prog.bans, (c.points.eraseIdx i).filterMap Point.ban, ?_, ?_,
            List.filterMap_append⟩
          · rw [LiveNode.admitted, hpoint]
            exact advance_effect hadvance
          · exact bans_perm hpoint
  | cacheDrop key =>
      cases h
      exact ⟨none, [], c.bans, .quiet rfl rfl, .refl _, (List.append_nil _).symm⟩

end Steps

/-! ## Runs -/

/-- The ban of the id was complete at some time of the run. -/
def BannedDuring (p : Protocol) (c : LiveNode) (es : List LiveEvent) (x : NodeId) : Prop :=
  ∃ pre c', pre <+: es ∧ exec p.liveStep c pre = some c' ∧ c'.BanComplete x

/-- What holds after the events `es`: an id whose ban was complete is not in the table. -/
structure BansHold (p : Protocol) (c₀ : LiveNode) (es : List LiveEvent) (c : LiveNode) : Prop where
  invariant : c.state.router.Invariant
  out : ∀ x, BannedDuring p c₀ es x → x ∉ c.state.router.contacts.map Node.id

theorem bannedDuring_concat {p : Protocol} {c₀ c : LiveNode} {es : List LiveEvent} {e : LiveEvent}
    {x : NodeId} (hrun : exec p.liveStep c₀ (es ++ [e]) = some c)
    (h : BannedDuring p c₀ (es ++ [e]) x) : c.BanComplete x ∨ BannedDuring p c₀ es x := by
  rcases h with ⟨pre, c', hpre, hc', hban⟩
  rcases List.prefix_concat_iff.mp hpre with rfl | hpre
  · cases hrun.symm.trans hc'
    exact .inl hban
  · exact .inr ⟨pre, c', hpre, hc', hban⟩

/-- **One event** keeps the bans if it does not add a banned id. -/
theorem BansHold.step {p : Protocol} {c₀ c c' : LiveNode} {es : List LiveEvent} {e : LiveEvent}
    (h : BansHold p c₀ es c) (hrun : exec p.liveStep c₀ es = some c)
    (hbarred : ∀ x, BannedDuring p c₀ es x → ¬c.Admits x e) (hstep : p.liveStep c e = some c') :
    BansHold p c₀ (es ++ [e]) c' := by
  rcases liveStep_effect hstep with ⟨own, new, rest, heffect, hbans, hbans'⟩
  have hkept : ∀ x, BannedDuring p c₀ es x → x ∉ c'.state.router.contacts.map Node.id := by
    intro x hx
    refine heffect.stays_out h.invariant (h.out x hx) fun hlocal node hnode hid => ?_
    exact hbarred x hx ⟨hlocal, node, hnode, hid⟩
  refine ⟨heffect.invariant h.invariant, fun x hx => ?_⟩
  have hrun' : exec p.liveStep c₀ (es ++ [e]) = some c' := by
    rw [exec_concat, hrun]
    exact hstep
  rcases bannedDuring_concat hrun' hx with hban | hx
  · rcases heffect.ban_complete h.invariant hban.1 (hbans' ▸ hban.2) with ⟨hmany, hnone⟩ | hout
    · exact hkept x ⟨es, c, List.prefix_rfl, hrun, hmany, fun hmem => hnone (hbans.mem_iff.mp hmem)⟩
    · exact hout
  · exact hkept x hx

namespace Sample

/-- A store in the name of `neighbour` whose record is not signed, up to the verdict on it. -/
def unsignedStore : List LiveEvent :=
  [.request 1 (.store neighbour.id nearKey []) peerAddr, .resume 2 9 0 .noResponse]

/-- Three such stores.  The third handler goes on to remove the sender. -/
def banRun : List LiveEvent :=
  unsignedStore ++ unsignedStore ++ unsignedStore ++ [.resume 3 9 0 .noResponse]

/-- The welcome with number `i` on the list of tasks, from beginning to end. -/
def welcomeRun (i : ℕ) : List LiveEvent := .start i :: List.replicate 3 (.resume 4 9 0 .noResponse)

/-- Another node pings and is welcomed. -/
def visitRun : List LiveEvent :=
  .request 3 (.ping (newcomer 0x90).id) peerAddr :: welcomeRun 2

end Sample

open Sample

/-- **A banned sender stays out** of the routing table in every interleaving of handlers and
tasks, as long as no welcome reaches its `add_contact` for an id whose ban was complete
before.  The node starts with any reachable table and without strikes; the ban is complete
after the events `pre`. -/
theorem banned_stays_out (p : Protocol) (ksize start : ℕ) (ops : List RoutingOp) (s : NodeState)
    (hreach : exec RoutingTable.step (RoutingTable.new p.sourceNode ksize start) ops =
      some s.router)
    (hstrikes : s.invalidSigStrikes = ∅) (pre post : List LiveEvent)
    (hbarred : ∀ es e es' c, pre ++ post = es ++ e :: es' →
      exec p.liveStep ⟨s, []⟩ es = some c → ∀ x, BannedDuring p ⟨s, []⟩ es x → ¬c.Admits x e)
    (c : LiveNode) (hpre : exec p.liveStep ⟨s, []⟩ pre = some c) (x : NodeId)
    (hban : c.BanComplete x) (c' : LiveNode)
    (hrun : exec p.liveStep ⟨s, []⟩ (pre ++ post) = some c') :
    x ∉ c'.state.router.primaries.map Node.id := by
  have hstart : BansHold p ⟨s, []⟩ [] ⟨s, []⟩ := by
    refine ⟨(RoutingTable.Invariant.exec hreach).1, ?_⟩
    rintro y ⟨es, c₁, hes, hc₁, hmany, -⟩
    obtain rfl := List.prefix_nil.mp hes
    cases hc₁
    rw [NodeState.strikes, hstrikes] at hmany
    exact absurd hmany (by simp; decide)
  have hend : BansHold p ⟨s, []⟩ (pre ++ post) c' := by
    refine exec_along (BansHold p ⟨s, []⟩) hstart ?_ hrun
    intro es e es' c₁ c₂ hsplit hes h hstep
    exact h.step hes (hbarred es e es' c₁ hsplit hes) hstep
  intro hmem
  refine hend.out x ⟨pre, c, List.prefix_append pre post, hpre, hban⟩ ?_
  exact (c'.state.router.primaries_sublist_contacts.map Node.id).subset hmem

/-- Three invalid stores, the removal, and another node that is welcomed afterwards. -/
theorem banned_stays_out_visit :
    ((exec upperProtocol.liveStep ⟨acquainted.state, []⟩ (banRun ++ visitRun)).map fun c =>
        c.state.router.primaries.map Node.id) = some [(newcomer 0x90).id] ∧
      ∀ c, exec upperProtocol.liveStep ⟨acquainted.state, []⟩ (banRun ++ visitRun) = some c →
        neighbour.id ∉ c.state.router.primaries.map Node.id := by
  refine ⟨by decide +kernel, ?_⟩
  intro c hc
  have hsome : (exec upperProtocol.liveStep ⟨acquainted.state, []⟩ banRun).any
      (fun c => decide (c.BanComplete neighbour.id)) = true := by decide +kernel
  simp only [Option.any_eq_true] at hsome
  rcases hsome with ⟨c₁, hc₁, hban⟩
  refine banned_stays_out upperProtocol 20 0 [.addContact 0 9 neighbour] acquainted.state
    exec_acquainted rfl banRun visitRun ?_ c₁ hc₁ neighbour.id (of_decide_eq_true hban) c hc
  -- only the visitor is added, and it is never struck
  have hall : ∀ i < (banRun ++ visitRun).length, ∀ e ∈ (banRun ++ visitRun)[i]?,
      ∀ c ∈ exec upperProtocol.liveStep ⟨acquainted.state, []⟩ ((banRun ++ visitRun).take i),
        ∀ node ∈ c.admitted e, ∀ j ≤ i,
          ∀ c' ∈ exec upperProtocol.liveStep ⟨acquainted.state, []⟩ ((banRun ++ visitRun).take j),
            ¬c'.BanComplete node.id := by
    decide +kernel
  rintro es e es' c₂ hsplit hes x ⟨pre, c₃, hpre, hc₃, hban₃⟩ ⟨-, node, hnode, rfl⟩
  have hprefix : es <+: banRun ++ visitRun := ⟨e :: es', hsplit.symm⟩
  have hevent : (banRun ++ visitRun)[es.length]? = some e := by simp [hsplit]
  refine hall es.length (by simp [hsplit]) e hevent c₂ ?_ node hnode pre.length hpre.length_le c₃
    ?_ hban₃
  · rwa [← List.prefix_iff_eq_take.mp hprefix]
  · rwa [← List.prefix_iff_eq_take.mp (hpre.trans hprefix)]

/-- **A banned sender comes back** without sending anything more: the first of its three
stores spawned a welcome, which runs after the ban. -/
theorem banned_sender_comes_back :
    (exec upperProtocol.liveStep ⟨acquainted.state, []⟩ banRun).map (fun c =>
        (decide (c.BanComplete neighbour.id), c.state.strikes neighbour.id,
          c.state.router.primaries)) = some (true, 3, []) ∧
      (exec upperProtocol.liveStep ⟨acquainted.state, []⟩ (banRun ++ welcomeRun 0)).map (fun c =>
        (decide (c.BanComplete neighbour.id), c.state.strikes neighbour.id,
          c.state.router.primaries.map Node.id)) = some (true, 3, [neighbour.id]) := by
  decide +kernel

end AuthKademlia
