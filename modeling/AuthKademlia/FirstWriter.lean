import AuthKademlia.LocalCalls

/-!
# The first writer of a key

An incoming `Store` checks that its key is free and writes in one go.  A local `set` checks
first, then waits for a lookup and a verification, and then writes without looking again, so
what was stored in the meantime is replaced (`set_replaces_stored_record`).

That point is the only one.  A call leaves the record under a key alone unless it is a `set`
of that key that waits for the verification of its value (`awaitingSet`).  In every run in
which such a call finds no other value when it goes on, the first value stays
(`first_writer_wins`).

## Main definitions

* `Server.awaitingSet` — a `set` that waits for the verification of its value.
* `Server.SetsGuarded` — such a call finds no other value under the key.
* `ServerEvent.Rewrites`, `Server.Unexpired` — updates and deletions, and expiry.
-/

namespace AuthKademlia

open Lib Protocol

namespace Server

variable {sv : Server} {key : NodeId} {name : String} {value : Bytes} {nodes : List Node}

/-! ## What leaves a record alone -/

/-- The process leaves the record under `key` alone. -/
def Spares (sv : Server) (key : NodeId) {α : Type} (post : α → Prop) (m : ServerProcess sv α) :
    Prop :=
  m.Leaves (fun s => s.node.record key) (fun _ => False) post

theorem record_of_quiet {s s' : NodeState} (h : Quiet s s') : s'.record key = s.record key := by
  rw [NodeState.record, NodeState.record, h.storage]

theorem spares_ask (q : Question) :
    sv.Spares key (fun _ => True) (Process.ask q : ServerProcess sv (Answer sv q)) :=
  Process.leaves_ask q

theorem spares_callAll (requests : List (Node × RpcMessage)) :
    sv.Spares key (fun _ => True) (sv.callAll requests) := by
  refine Process.Leaves.seq (Process.leaves_lift fun s => ⟨rfl, trivial⟩) fun _ => ?_
  refine Process.Leaves.seq (spares_ask (.calls requests)) fun results => ?_
  exact Process.leaves_lift fun s =>
    ⟨record_of_quiet (quiet_settle requests results s.node), trivial⟩

theorem spares_valueLookup {post : ValueOutcome → Prop} (hpost : ∀ outcome, post outcome)
    (target : Node) (peers : List Node) : sv.Spares key post (sv.valueLookup target peers) := by
  refine Process.Leaves.seq (spares_ask (.valueLookup target peers)) fun reply => ?_
  refine Process.Leaves.seq (Process.leaves_lift fun s => ⟨record_of_quiet
    (quiet_afterLookup reply.undialable reply.outcome.history s.node), trivial⟩) fun _ => ?_
  split
  · exact Process.Leaves.seq (spares_callAll _) fun _ => Process.leaves_pure (hpost _)
  · exact Process.leaves_pure (hpost _)

theorem spares_nodeLookup (target : Node) (peers : List Node) :
    sv.Spares key (fun _ => True) (sv.nodeLookup target peers) := by
  refine Process.Leaves.seq (spares_ask (.nodeLookup target peers)) fun reply => ?_
  exact Process.leaves_lift fun s => ⟨record_of_quiet
    (quiet_afterLookup reply.undialable reply.history s.node), trivial⟩

theorem bytes_ne {dkey : NodeId} (h : dkey ≠ key) : key.bytes ≠ dkey.bytes :=
  fun hbytes => h (NodeId.ext hbytes.symm)

/-- **The parts of a call leave the record alone** if they write and delete other keys. -/
theorem callRules_spares (sv : Server) (key : NodeId) :
    sv.CallRules (sv.Spares key) (fun _ => True) (fun _ _ => True) (fun dkey _ => dkey ≠ key)
      (fun _ _ => True) (fun dkey => dkey ≠ key) where
  pure := Process.leaves_pure
  bind := Process.Leaves.bind
  yield := spares_ask .yield
  storageGet _ := Process.leaves_lift fun _ => ⟨rfl, fun _ _ => trivial⟩
  findNeighbors _ := Process.leaves_lift fun _ => ⟨rfl, trivial⟩
  verifyValue _ _ _ := Process.Leaves.seq (spares_ask .yield) fun _ =>
    Process.leaves_lift fun _ => ⟨rfl, fun _ => trivial⟩
  storageSet hne := Process.leaves_lift fun _ =>
    ⟨ForgetfulStorage.entry_set_ne (bytes_ne hne), trivial⟩
  storageDelete hne := Process.leaves_lift fun _ =>
    ⟨ForgetfulStorage.entry_delete_ne (bytes_ne hne), trivial⟩
  callAll _ := spares_callAll _
  valueLookup := spares_valueLookup fun _ _ _ => trivial
  nodeLookup := spares_nodeLookup
  refreshIds := spares_ask .refreshIds
  oldEntries := Process.leaves_lift fun _ => ⟨rfl, fun _ _ _ => trivial⟩

/-! ## The point at which `set` writes -/

/-- `set` after the verification of its value. -/
def finishSet (sv : Server) (name : String) (value : Bytes) (nodes : List Node) (ok : Bool) :
    ServerProcess sv (Option Bool) :=
  if !ok then pure none
  else do
    let published ← sv.setDigest (digest sv.protocol.hash name) value nodes
    pure (some published)

/-- `set` when its value has been verified on the blocking thread. -/
def resumedSet (sv : Server) (name : String) (value : Bytes) (nodes : List Node) :
    ServerProcess sv LocalResult := do
  let ok ← Process.lift fun s =>
    let (ok, cache) := AuthKademlia.verifyValue sv.protocol.hash sv.protocol.signatureHandler
      s.node.sigCache name value
    (ok, { s with node := { s.node with sigCache := cache } })
  let result ← sv.finishSet name value nodes ok
  pure (.published result)

/-- A `set` that has found no record and waits for the verification of its value. -/
def awaitingSet (sv : Server) (name : String) (value : Bytes) (nodes : List Node) :
    Suspended ServerState Question (Answer sv) LocalResult :=
  .wait .yield (fun _ s => (sv.resumedSet name value nodes s).1)
    fun _ s => (sv.resumedSet name value nodes s).2

/-- Wait for the verification. -/
def awaitSet (sv : Server) (name : String) (value : Bytes) (nodes : List Node) :
    ServerProcess sv LocalResult :=
  fun s => (s, sv.awaitingSet name value nodes)

/-- A `set` of the key waits for the verification of its value. -/
def AwaitsSet (sv : Server) (key : NodeId)
    (p : Suspended ServerState Question (Answer sv) LocalResult) : Prop :=
  ∃ name value nodes, digest sv.protocol.hash name = key ∧ p = sv.awaitingSet name value nodes

/-- `set` is the search, and then the wait for the verification. -/
theorem process_set (name : String) (value : Bytes) :
    sv.process (.set name value) = (do
      let found ← sv.checkExistsAndGetNodes name
      if found.1 then pure (.published none)
      else sv.awaitSet name value found.2) := by
  have hset : sv.process (.set name value) = (do
      let ok ← (do
        let found ← sv.checkExistsAndGetNodes name
        if found.1 then pure none
        else do
          let ok ← sv.verifyValue name value
          if !ok then pure none
          else do
            let published ← sv.setDigest (digest sv.protocol.hash name) value found.2
            pure (some published))
      pure (.published ok)) := rfl
  rw [hset, Process.bind_assoc]
  congr 1
  funext found
  cases hfound : found.1 with
  | true => rfl
  | false =>
      simp only [Bool.false_eq_true, if_false]
      rw [Process.bind_assoc, verifyValue, Process.bind_assoc]
      funext s
      exact @Process.ask_bind_apply ServerState Question (Answer sv) LocalResult .yield
        (fun _ => sv.resumedSet name value found.2) s

/-- One go of a `set` of the key: it writes its own copy only under a condition, and what
remains of it leaves the record alone. -/
structure SetEffect (sv : Server) (key : NodeId) (value : Bytes) (writes : Prop) (s : ServerState)
    (r : ServerState × Suspended ServerState Question (Answer sv) LocalResult) : Prop where
  rest : r.2.Leaves (fun s => s.node.record key) (sv.AwaitsSet key) fun _ => True
  record : r.1.node.record key = s.node.record key ∨
    writes ∧ r.1.node.record key = some (value, s.now)

theorem SetEffect.of_spares {writes : Prop} {s : ServerState} {m : ServerProcess sv LocalResult}
    (h : sv.Spares key (fun _ => True) m) : SetEffect sv key value writes s (m s) :=
  ⟨(h.weaken s).2, .inl (h s).1⟩

/-- The requests of `set`, and the result it returns. -/
theorem spares_published (requests : List (Node × RpcMessage)) :
    sv.Spares key (fun _ => True) (do
      let results ← sv.callAll requests
      (Pure.pure (LocalResult.published (some (results.any id))) : ServerProcess sv LocalResult)) :=
  Process.Leaves.seq (spares_callAll requests) fun _ => Process.leaves_pure trivial

/-- After the verification, `set` writes its own copy in the same go, and leaves the record
alone from then on. -/
theorem setEffect_finishSet (s : ServerState) (ok : Bool)
    (hname : digest sv.protocol.hash name = key) :
    SetEffect sv key value
      (ok = true ∧ sv.closerThanFarthest (Node.fromId key) nodes = true) s
      ((do
        let result ← sv.finishSet name value nodes ok
        (Pure.pure (.published result) : ServerProcess sv LocalResult)) s) := by
  have hpure : ∀ r : Option Bool, sv.Spares key (fun _ => True)
      (Pure.pure (LocalResult.published r) : ServerProcess sv LocalResult) :=
    fun _ => Process.leaves_pure trivial
  cases ok with
  | false => exact .of_spares (hpure none)
  | true =>
      cases hlistening : sv.listening with
      | false =>
          have hfails : sv.finishSet name value nodes true = pure (some false) := by
            simp [finishSet, setDigest, hlistening, Process.pure_bind]
          rw [hfails]
          exact .of_spares (hpure (some false))
      | true =>
          cases nodes with
          | nil =>
              have hfails : sv.finishSet name value [] true = pure (some false) := by
                simp [finishSet, setDigest, Process.pure_bind]
              rw [hfails]
              exact .of_spares (hpure (some false))
          | cons n ns =>
              have hfinish : (do
                  let result ← sv.finishSet name value (n :: ns) true
                  (Pure.pure (.published result) : ServerProcess sv LocalResult)) = (do
                  sv.storeLocally key value (n :: ns)
                  let results ← sv.callAll ((n :: ns).map (sv.storeRpc key value))
                  Pure.pure (.published (some (results.any id)))) := by
                simp only [finishSet, setDigest, hlistening, hname, Bool.not_true,
                  Bool.false_eq_true, if_false, List.isEmpty_cons, Process.bind_assoc,
                  Process.pure_bind]
              have hrest := @spares_published sv key ((n :: ns).map (sv.storeRpc key value))
              rw [hfinish, storeLocally]
              split
              · rename_i hcloser
                rcases @SetEffect.of_spares sv key value False { s with node :=
                    { s.node with storage := s.node.storage.set s.now key.bytes value } } _
                  hrest with ⟨hleaves, hrecord⟩
                refine ⟨hleaves, .inr ⟨⟨rfl, hcloser⟩, ?_⟩⟩
                exact (hrecord.resolve_right fun h => h.1).trans ForgetfulStorage.entry_set_self
              · exact .of_spares hrest

/-- **What `set` does when its value has been verified.** -/
theorem setEffect_resumedSet (s : ServerState) (hname : digest sv.protocol.hash name = key) :
    SetEffect sv key value
      (sv.passes s name value = true ∧ sv.closerThanFarthest (Node.fromId key) nodes = true) s
      (sv.resumedSet name value nodes s) := by
  rcases @setEffect_finishSet sv key name value nodes { s with node := { s.node with
    sigCache := (AuthKademlia.verifyValue sv.protocol.hash sv.protocol.signatureHandler
      s.node.sigCache name value).2 } } (sv.passes s name value) hname with ⟨hrest, hrecord⟩
  exact ⟨hrest, hrecord⟩

/-- **A call leaves the record under a key alone**, unless it is a `set` of the key that waits
for the verification of its value. -/
theorem leaves_process {c : LocalCall}
    (hupdate : ∀ name value authSignature, c = .update name value authSignature →
      digest sv.protocol.hash name ≠ key)
    (hdelete : ∀ name authSignature deleteMsg, c = .delete name authSignature deleteMsg →
      digest sv.protocol.hash name ≠ key) :
    (sv.process c).Leaves (fun s => s.node.record key) (sv.AwaitsSet key) fun _ => True := by
  have hrules := callRules_spares sv key
  by_cases hset : ∃ name value, c = .set name value ∧ digest sv.protocol.hash name = key
  · rcases hset with ⟨name, value, rfl, hname⟩
    rw [process_set]
    refine Process.Leaves.seq (hrules.checkExistsAndGetNodes name) fun found => ?_
    split
    · exact Process.leaves_pure trivial
    · intro s
      refine ⟨rfl, .inl ⟨name, value, found.2, hname, rfl⟩, ?_⟩
      intro _ s'
      exact (setEffect_resumedSet s' hname).rest
  · refine Process.Leaves.weaken (hrules.process ?_ fun _ _ => trivial)
    cases c with
    | set name value => exact fun _ => ⟨fun hname => hset ⟨name, value, rfl, hname⟩, trivial⟩
    | update name value authSignature => exact fun _ _ _ => hupdate name value authSignature rfl
    | delete name authSignature deleteMsg => exact hdelete name authSignature deleteMsg rfl
    | get name => trivial
    | refresh => trivial

end Server

/-! ## Runs -/

/-- The event updates or deletes the record under the key: as a request, or as a call. -/
def ServerEvent.Rewrites {sv : Server} (key : NodeId) : ServerEvent sv → Prop
  | .node (.request _ _ (.update _ k _ _) _) => k = key
  | .node (.request _ _ (.updateStatusList _ k _) _) => k = key
  | .node (.request _ _ (.delete _ k _ _) _) => k = key
  | .call _ (.update name _ _) => digest sv.protocol.hash name = key
  | .call _ (.delete name _ _) => digest sv.protocol.hash name = key
  | _ => False

/-- The clock reading of an event. -/
def ServerEvent.time {sv : Server} : ServerEvent sv → Option ℕ
  | .node (.request now _ _ _) => some now
  | .node (.task now _ _ _) => some now
  | .node _ => none
  | .call now _ => some now
  | .resume now _ _ => some now

namespace Server

variable {sv : Server} {key : NodeId} {pool pool' : ServerPool sv} {e : ServerEvent sv}

/-- The record under the key has not expired when the event occurs. -/
def Unexpired (sv : Server) (key : NodeId) (pool : ServerPool sv) (e : ServerEvent sv) : Prop :=
  ∀ now v written, e.time = some now → pool.shared.node.record key = some (v, written) →
    pool.shared.node.stored now key = some v

/-- A `set` of the key whose value passes and which is to keep a copy finds no other value
under the key when it goes on. -/
def SetsGuarded (sv : Server) (key : NodeId) (pool : ServerPool sv) : ServerEvent sv → Prop
  | .resume now i _ => ∀ name value nodes,
      pool.processes[i]? = some (sv.awaitingSet name value nodes) →
      digest sv.protocol.hash name = key → sv.passes pool.shared name value = true →
      sv.closerThanFarthest (Node.fromId key) nodes = true →
      ∀ v, pool.shared.node.stored now key = some v → v = value
  | _ => True

/-- The value under the key is the same as before. -/
def SameValue (key : NodeId) (s s' : ServerState) : Prop :=
  ∀ v, s.node.held key = some v → s'.node.held key = some v

theorem SameValue.of_record {s s' : ServerState}
    (h : s'.node.record key = s.node.record key) : SameValue key s s' := by
  intro v hv
  rwa [NodeState.held, h]

/-- The protocol layer leaves a record alone that is neither updated nor deleted. -/
theorem sameValue_node {e : NodeEvent} {r : Snapshot}
    (hplain : ¬(ServerEvent.node e : ServerEvent sv).Rewrites key)
    (hlive : sv.Unexpired key pool (.node e))
    (h : sv.protocol.step ⟨none, pool.shared.node⟩ e = some r) {outgoing : List (Node × RpcMessage)} :
    SameValue key pool.shared ⟨r.state, pool.shared.now, outgoing⟩ := by
  rcases step_storage h with ⟨-, hstorage⟩ | ⟨now, fuel, msg, peer, rfl, haccepts, -, hstorage⟩
  · exact .of_record (by simp only [NodeState.record, hstorage])
  · have hrecord : r.state.record key = (msg.applyTo now pool.shared.node.storage).entry key.bytes :=
      congrArg (fun st => ForgetfulStorage.entry st key.bytes) hstorage
    by_cases htarget : msg.target = some key
    · -- a request for the key is a `Store`, which is accepted only if nothing is stored
      intro v hv
      rcases Option.map_eq_some_iff.mp hv with ⟨⟨w, written⟩, hentry, rfl⟩
      have hstored := hlive now w written rfl hentry
      cases msg with
      | store senderId k value =>
          cases htarget
          have habsent := haccepts.2
          rw [hstored] at habsent
          cases habsent
      | update senderId k value authSignature => exact absurd (Option.some.inj htarget) hplain
      | updateStatusList senderId k value => exact absurd (Option.some.inj htarget) hplain
      | delete senderId k authSignature deleteMsg =>
          exact absurd (Option.some.inj htarget) hplain
      | _ => cases htarget
    · exact .of_record (hrecord.trans (RpcMessage.entry_applyTo_ne htarget))

/-- A resumed call leaves the value alone. -/
theorem sameValue_resume {now i : ℕ} {answers : ∀ q, Answer sv q}
    (hleaves : pool.Leaves (fun s => s.node.record key) (sv.AwaitsSet key))
    (hlive : sv.Unexpired key pool (.resume now i answers))
    (hguarded : sv.SetsGuarded key pool (.resume now i answers)) :
    SameValue key pool.shared
      (Pool.resume i answers { pool with shared := { pool.shared with now := now } }).shared := by
  have hleaves' : Pool.Leaves (fun s => s.node.record key) (sv.AwaitsSet key)
      { pool with shared := { pool.shared with now := now } } := hleaves
  rcases (hleaves'.resume i answers).2 with ⟨p, hi, name, value, nodes, hname, rfl⟩ | hsame
  · have hi' : pool.processes[i]? = some (sv.awaitingSet name value nodes) := hi
    have hresume : (Pool.resume i answers
        { pool with shared := { pool.shared with now := now } }).shared =
          (sv.resumedSet name value nodes { pool.shared with now := now }).1 := by
      simp only [Pool.resume, hi', awaitingSet]
    rw [hresume]
    rcases (@setEffect_resumedSet sv key name value nodes
      { pool.shared with now := now } hname).record with hsame | ⟨⟨hpasses, hcloser⟩, hwritten⟩
    · exact .of_record hsame
    · intro v hv
      rcases Option.map_eq_some_iff.mp hv with ⟨⟨w, written⟩, hentry, rfl⟩
      have hstored := hlive now w written rfl hentry
      have heq : w = value := hguarded name value nodes hi' hname hpasses hcloser w hstored
      rw [NodeState.held, hwritten, heq]
      rfl
  · exact .of_record hsame

/-- **One step.** -/
theorem sameValue_step (hleaves : pool.Leaves (fun s => s.node.record key) (sv.AwaitsSet key))
    (hplain : ¬e.Rewrites key) (hlive : sv.Unexpired key pool e)
    (hguarded : sv.SetsGuarded key pool e) (h : sv.step pool e = some pool') :
    pool'.Leaves (fun s => s.node.record key) (sv.AwaitsSet key) ∧
      SameValue key pool.shared pool'.shared := by
  cases e with
  | node e =>
      rcases Option.map_eq_some_iff.mp h with ⟨r, hr, rfl⟩
      exact ⟨hleaves, sameValue_node hplain hlive hr⟩
  | call now c =>
      cases Option.some.inj h
      have hc : (sv.process c).Leaves (fun s => s.node.record key) (sv.AwaitsSet key)
          fun _ => True := by
        refine leaves_process ?_ ?_
        · intro name value authSignature hupdate
          subst hupdate
          exact hplain
        · intro name authSignature deleteMsg hdelete
          subst hdelete
          exact hplain
      have hpool : Pool.Leaves (fun s => s.node.record key) (sv.AwaitsSet key)
          { pool with shared := { pool.shared with now := now } } := hleaves
      rcases hpool.spawn hc with ⟨hspawned, hsame⟩
      exact ⟨hspawned, .of_record hsame⟩
  | resume now i answers =>
      cases Option.some.inj h
      have hpool : Pool.Leaves (fun s => s.node.record key) (sv.AwaitsSet key)
          { pool with shared := { pool.shared with now := now } } := hleaves
      exact ⟨(hpool.resume i answers).1, sameValue_resume hleaves hlive hguarded⟩

/-- What every step of a run has to meet. -/
structure FirstWriterStep (sv : Server) (key : NodeId) (pool : ServerPool sv)
    (e : ServerEvent sv) : Prop where
  plain : ¬e.Rewrites key
  live : sv.Unexpired key pool e
  guarded : sv.SetsGuarded key pool e

/-- **The first writer wins**, in every run without updates, deletions and expiry in which no
`set` that goes on after its verification finds another value under the key: once a value is
stored, it is the value in every later state. -/
theorem first_writer_wins (sv : Server) (key : NodeId) (storage : ForgetfulStorage)
    (sigCache : Option SignatureCache) (begun : ℕ) (pre post : List (ServerEvent sv))
    (pool pool' : ServerPool sv)
    (hplain : ∀ e ∈ pre ++ post, ¬e.Rewrites key)
    (hlive : EachStep sv.step (sv.Unexpired key) (sv.start storage sigCache begun) (pre ++ post))
    (hguarded : EachStep sv.step (sv.SetsGuarded key) (sv.start storage sigCache begun)
      (pre ++ post))
    (hpre : exec sv.step (sv.start storage sigCache begun) pre = some pool)
    (hpost : exec sv.step pool post = some pool') :
    ∀ v, pool.shared.node.held key = some v → pool'.shared.node.held key = some v := by
  have hsteps : EachStep sv.step (sv.FirstWriterStep key) (sv.start storage sigCache begun)
      (pre ++ post) := by
    intro es e fs t hsplit hes
    exact ⟨hplain e (by simp [hsplit]), hlive es e fs t hsplit hes, hguarded es e fs t hsplit hes⟩
  have hleaves : pool.Leaves (fun s => s.node.record key) (sv.AwaitsSet key) := by
    refine exec_eachStep (Pool.Leaves (fun s => s.node.record key) (sv.AwaitsSet key)) ?_ ?_
      hsteps.of_append hpre
    · intro p hp
      cases hp
    · intro r e t hr he ht
      exact (sameValue_step hr he.plain he.live he.guarded ht).1
  -- from the state in which the value is there, it is there in every state
  have hboth := exec_eachStep (fun r => r.Leaves (fun s => s.node.record key) (sv.AwaitsSet key) ∧
    SameValue key pool.shared r.shared) ⟨hleaves, fun _ => id⟩ ?_ (hsteps.drop hpre) hpost
  · exact hboth.2
  · intro r e t hr he ht
    rcases sameValue_step hr.1 he.plain he.live he.guarded ht with ⟨ht', hsame⟩
    exact ⟨ht', fun v hv => hsame v (hr.2 v hv)⟩

end Server

namespace Sample

/-- The server learns of node 8 and starts to publish a record; while the lookup is out,
another record of the same key arrives. -/
def overtakenSet (value arriving : Bytes) : List (ServerEvent sampleServer) :=
  [.node (.request 0 1 (.ping (crawlNode 8).id) ⟨"10.0.0.1", 8⟩),
    .node (.task 1 1 0 .noResponse), .call 2 (.set deviceName value),
    .node (.request 3 1 (.store peerId deviceKey arriving) peerAddr)]

/-- The lookup ends without a value. -/
noncomputable def lookupEnds : ServerEvent sampleServer :=
  .resume 4 0 (sampleServer.answersFrom noValues 3)

/-- The verification is done. -/
noncomputable def verificationEnds : ServerEvent sampleServer :=
  .resume 5 0 (sampleServer.answersFrom noValues 3)

end Sample

open Sample

/-- A's record is stored while a local `set` of B's record under the same key looks for
nodes; the `set` goes on and replaces it. -/
theorem set_replaces_stored_record :
    ((exec sampleServer.step (sampleServer.start (.new (-1)) none 0)
        (overtakenSet recordB recordA0)).map fun pool => pool.shared.node.record deviceKey) =
      some (some (recordA0, 3)) ∧
    ((exec sampleServer.step (sampleServer.start (.new (-1)) none 0)
        (overtakenSet recordB recordA0 ++ [lookupEnds, verificationEnds])).map
          fun pool => pool.shared.node.record deviceKey) =
      some (some (recordB, 5)) := by
  decide +kernel

theorem unexpired_overtakenSet :
    EachStep sampleServer.step (sampleServer.Unexpired deviceKey)
      (sampleServer.start (.new (-1)) none 0) (overtakenSet recordB recordA0 ++ [lookupEnds]) := by
  have httl : ∀ n ≤ 5, (exec sampleServer.step (sampleServer.start (.new (-1)) none 0)
      ((overtakenSet recordB recordA0 ++ [lookupEnds]).take n)).map
        (fun pool => pool.shared.node.storage.ttl) = some (-1) := by
    decide +kernel
  intro pre e post t hsplit hpre now v written _ hrecord
  have hlength : pre.length ≤ 5 := by
    have h := congrArg List.length hsplit
    simp [overtakenSet] at h
    omega
  have htake : (overtakenSet recordB recordA0 ++ [lookupEnds]).take pre.length = pre := by
    rw [hsplit, List.take_left]
  have hforever := httl pre.length hlength
  rw [htake, hpre] at hforever
  rw [NodeState.stored_eq_held (Option.some.inj hforever), NodeState.held, hrecord]
  rfl

theorem setsGuarded_overtakenSet :
    EachStep sampleServer.step (sampleServer.SetsGuarded deviceKey)
      (sampleServer.start (.new (-1)) none 0) (overtakenSet recordB recordA0 ++ [lookupEnds]) := by
  have hwaits : (exec sampleServer.step (sampleServer.start (.new (-1)) none 0)
      (overtakenSet recordB recordA0)).map (fun pool => pool.processes.map Suspended.question) =
        some [some (.valueLookup (Node.fromId deviceKey) [crawlNode 8])] := by
    decide +kernel
  rcases Option.map_eq_some_iff.mp hwaits with ⟨pool, hexec, hquestions⟩
  refine EachStep.concat (EachStep.of_forall_mem ?_) hexec ?_
  · intro e he t
    simp only [overtakenSet, List.mem_cons, List.not_mem_nil, or_false] at he
    rcases he with rfl | rfl | rfl | rfl <;> trivial
  · -- the call still waits for its lookup
    intro name value nodes hi
    have hquestion : (pool.processes.map Suspended.question)[0]? = some (some .yield) := by
      rw [List.getElem?_map, hi]
      rfl
    rw [hquestions] at hquestion
    cases hquestion

/-- While the `set` is under way, the record that arrived first stays. -/
theorem first_writer_wins_overtakenSet :
    ∃ pool pool', exec sampleServer.step (sampleServer.start (.new (-1)) none 0)
        (overtakenSet recordB recordA0) = some pool ∧
      exec sampleServer.step pool [lookupEnds] = some pool' ∧
      pool.shared.node.held deviceKey = some recordA0 ∧
      pool'.shared.node.held deviceKey = some recordA0 := by
  have hheld : (exec sampleServer.step (sampleServer.start (.new (-1)) none 0)
      (overtakenSet recordB recordA0)).map (fun pool => pool.shared.node.held deviceKey) =
        some (some recordA0) := by
    decide +kernel
  rcases Option.map_eq_some_iff.mp hheld with ⟨pool, hpre, hrecord⟩
  have hpost : exec sampleServer.step pool [lookupEnds] = some (Pool.resume 0
      (sampleServer.answersFrom noValues 3) { pool with shared := { pool.shared with now := 4 } }) :=
    rfl
  have hplain : ∀ e ∈ overtakenSet recordB recordA0 ++ [lookupEnds], ¬e.Rewrites deviceKey := by
    intro e he
    simp only [overtakenSet, List.mem_append, List.mem_cons, List.not_mem_nil, or_false] at he
    rcases he with (rfl | rfl | rfl | rfl) | rfl <;> exact id
  refine ⟨pool, _, hpre, hpost, hrecord, ?_⟩
  exact Server.first_writer_wins sampleServer deviceKey (.new (-1)) none 0 _ _ pool _ hplain
    unexpired_overtakenSet setsGuarded_overtakenSet hpre hpost recordA0 hrecord

end AuthKademlia
