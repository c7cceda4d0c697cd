import AuthKademlia.ValueSelection

/-!
# Which records a server keeps and sends

Every key has a rule: the status list is signed by the issuer, every other record by its
own holder.  A server checks the rule when it stores a record, but not on every way a
record takes through it.

* An update is authorised by the record it replaces, also under the key of the status
  list: the issuer's signature is not looked at (`owner_replaces_status_list`).
* A value lookup sends the value it found on before anybody verifies it
  (`forged_value_sent_on`).

Elsewhere the rules hold in every run, whatever the other nodes do
(`status_list_issuer_signed`, `sent_records_valid`).  Both are read off one invariant,
`RecordsMeet`, of the server's state with all its calls under way.

## Main definitions

* `RecordsMeet R S` — records in the store have `R`, records on their way have `S`.
* `Server.EventMeets` — what an event has to meet so that they still do.
* `Server.StatusListGuarded`, `Server.CopiesGuarded` — the conditions on runs.
-/

namespace AuthKademlia

open Lib Protocol

/-! ## Records in the store and on their way -/

/-- The record an accepted request writes. -/
def RpcMessage.written : RpcMessage → Option (NodeId × Bytes)
  | store _ key value => some (key, value)
  | update _ key value _ => some (key, value)
  | updateStatusList _ key value => some (key, value)
  | _ => none

theorem RpcMessage.entry_of_applyTo {now : ℕ} {storage : ForgetfulStorage} {msg : RpcMessage}
    {key : NodeId} {e : Bytes × ℕ} (h : (msg.applyTo now storage).entry key.bytes = some e) :
    msg.written = some (key, e.1) ∨ storage.entry key.bytes = some e := by
  have hset : ∀ (key' : NodeId) (value : Bytes),
      (storage.set now key'.bytes value).entry key.bytes = some e →
        some (key', value) = some (key, e.1) ∨ storage.entry key.bytes = some e := by
    intro key' value hentry
    rcases ForgetfulStorage.entry_of_set hentry with ⟨hkey, hvalue⟩ | hold
    · rw [NodeId.ext hkey, hvalue]
      exact .inl rfl
    · exact .inr hold
  cases msg with
  | store _ key' value => exact hset key' value h
  | update _ key' value _ => exact hset key' value h
  | updateStatusList _ key' value => exact hset key' value h
  | delete _ key' _ _ => exact .inr (ForgetfulStorage.entry_of_delete h)
  | _ => exact .inr h

/-- Records in the store have `R`; records that wait to be replicated or were sent to be
stored have `S`. -/
structure RecordsMeet (R S : NodeId → Bytes → Prop) (s : ServerState) : Prop where
  uncached : s.node.sigCache = none
  stored : ∀ key e, s.node.record key = some e → R key e.1
  tasks : ∀ node key value, Task.callStoreRpc node key value ∈ s.node.tasks → S key value
  outgoing : ∀ peer senderId key value,
    (peer, RpcMessage.store senderId key value) ∈ s.outgoing → S key value

section

variable {R S : NodeId → Bytes → Prop} {s : ServerState}

theorem RecordsMeet.sent (h : RecordsMeet R S s) {requests : List (Node × RpcMessage)}
    (hrequests : ∀ peer senderId key value,
      (peer, RpcMessage.store senderId key value) ∈ requests → S key value) :
    RecordsMeet R S { s with outgoing := s.outgoing ++ requests } where
  uncached := h.uncached
  stored := h.stored
  tasks := h.tasks
  outgoing peer senderId key value hmem := by
    rcases List.mem_append.mp hmem with hmem | hmem
    · exact h.outgoing peer senderId key value hmem
    · exact hrequests peer senderId key value hmem

theorem callInvariant_recordsMeet (hRS : ∀ key value, R key value → S key value) :
    CallInvariant (RecordsMeet R S) R S where
  uncached _ h := h.uncached
  clock _ _ h := ⟨h.uncached, h.stored, h.tasks, h.outgoing⟩
  quiet s node h hquiet :=
    { uncached := hquiet.sigCache.trans h.uncached
      stored := by
        intro key e hentry
        refine h.stored key e ?_
        rwa [NodeState.record, ← hquiet.storage]
      tasks := fun n key value hmem => h.tasks n key value (hquiet.tasks n key value hmem)
      outgoing := h.outgoing }
  written s key value h hR :=
    { h with
      stored := by
        intro key' e hentry
        rcases ForgetfulStorage.entry_of_set hentry with ⟨hkey, hvalue⟩ | hold
        · rw [NodeId.ext hkey, hvalue]
          exact hR
        · exact h.stored key' e hold }
  deleted s key h :=
    { h with stored := fun key' e hentry =>
        h.stored key' e (ForgetfulStorage.entry_of_delete hentry) }
  sent _ _ h hrequests := h.sent hrequests
  held _ key value written h hentry := hRS key value (h.stored key (value, written) hentry)

/-- An event of the protocol layer. -/
theorem RecordsMeet.step {p : Protocol} {r : Snapshot} {e : NodeEvent} (h : RecordsMeet R S s)
    (hRS : ∀ key value, R key value → S key value)
    (hwrites : ∀ now fuel msg peer, e = .request now fuel msg peer → p.Accepts now s.node msg →
      ∀ key value, msg.written = some (key, value) → R key value)
    (hstep : p.step ⟨none, s.node⟩ e = some r) : RecordsMeet R S { s with node := r.state } where
  uncached := step_sigCache h.uncached hstep
  stored := by
    intro key entry hentry
    rcases step_storage hstep with ⟨-, hsame⟩ | ⟨now, fuel, msg, peer, he, haccepts, -, happly⟩
    · refine h.stored key entry ?_
      rwa [NodeState.record, ← hsame]
    · rw [NodeState.record, happly] at hentry
      rcases RpcMessage.entry_of_applyTo hentry with hwritten | hold
      · exact hwrites now fuel msg peer he haccepts key entry.1 hwritten
      · exact h.stored key entry hold
  tasks := by
    intro node key value hmem
    rcases step_replicates hstep node key value hmem with hold | ⟨written, hrecord⟩
    · exact h.tasks node key value hold
    · exact hRS key value (h.stored key (value, written) hrecord)
  outgoing := h.outgoing

end

namespace Server

variable {sv : Server} {R S : NodeId → Bytes → Prop} {pool pool' : ServerPool sv}

/-- What an event has to meet on a server without a cache: accepted requests write records
with `R`, calls write and send what they may, and lookups send on records with `S`. -/
def EventMeets (sv : Server) (R S : NodeId → Bytes → Prop) (pool : ServerPool sv) :
    ServerEvent sv → Prop
  | .node (.request now _ msg _) => pool.shared.node.sigCache = none →
      sv.protocol.Accepts now pool.shared.node msg →
      ∀ key value, msg.written = some (key, value) → R key value
  | .node _ => True
  | .call _ c =>
      sv.CallAllowed (fun key value => sv.verifies key value = true) R S (fun _ => True) c
  | .resume _ i answers => ∀ q next cont, pool.processes[i]? = some (.wait q next cont) →
      LookupsMeet sv S q (answers q)

/-- The requests a task sends are replications. -/
theorem store_of_mem_sentBy {s : NodeState} {e : NodeEvent} {peer : Node} {senderId key : NodeId}
    {value : Bytes} (h : (peer, RpcMessage.store senderId key value) ∈ sv.sentBy s e) :
    Task.callStoreRpc peer key value ∈ s.tasks := by
  cases e with
  | task now fuel i result =>
      simp only [sentBy] at h
      split at h
      · rename_i hi
        cases List.mem_singleton.mp h
        exact List.mem_of_getElem? hi
      · cases h
  | _ => cases h

/-- The records meet their rules, and will meet them whatever the calls under way do. -/
abbrev MeetingKept (sv : Server) (R S : NodeId → Bytes → Prop) (pool : ServerPool sv) : Prop :=
  Pool.Keeps (RecordsMeet R S) (fun _ => True) (LookupsMeet sv S) (fun _ _ => True) pool

/-- **One event** of a server with its calls under way. -/
theorem recordsMeet_step (hRS : ∀ key value, R key value → S key value) {e : ServerEvent sv}
    (h : sv.MeetingKept R S pool) (hmeets : sv.EventMeets R S pool e)
    (hstep : sv.step pool e = some pool') : sv.MeetingKept R S pool' := by
  have hcalls := callInvariant_recordsMeet hRS
  cases e with
  | node e =>
      rcases Option.map_eq_some_iff.mp hstep with ⟨r, hr, rfl⟩
      have hwrites : ∀ now fuel msg peer, e = .request now fuel msg peer →
          sv.protocol.Accepts now pool.shared.node msg →
          ∀ key value, msg.written = some (key, value) → R key value := by
        intro now fuel msg peer he
        subst he
        exact hmeets h.shared.uncached
      have hnode := h.shared.step hRS hwrites hr
      refine ⟨hnode.sent ?_, h.processes⟩
      intro peer senderId key value hmem
      exact h.shared.tasks peer key value (store_of_mem_sentBy hmem)
  | call now c =>
      cases hstep
      exact (h.change (hcalls.clock _ now h.shared)).spawn (keeps_process hcalls hmeets)
  | resume now i answers =>
      cases hstep
      exact (h.change (hcalls.clock _ now h.shared)).resume hmeets

/-- **Runs.** -/
theorem recordsMeet_exec (hRS : ∀ key value, R key value → S key value) {ttl : Int64} {now : ℕ}
    {run : List (ServerEvent sv)}
    (hmeets : EachStep sv.step (sv.EventMeets R S) (sv.start (.new ttl) none now) run)
    (h : exec sv.step (sv.start (.new ttl) none now) run = some pool) :
    RecordsMeet R S pool.shared := by
  have hkeeps : sv.MeetingKept R S pool := by
    refine exec_eachStep _ ?_ (fun _ _ _ hr he hs => recordsMeet_step hRS hr he hs) hmeets h
    refine ⟨⟨rfl, ?_, ?_, ?_⟩, ?_⟩
    · intro key e hentry
      cases hentry
    · intro node key value hmem
      cases hmem
    · intro peer senderId key value hmem
      cases hmem
    · intro p hp
      cases hp
  exact hkeeps.shared

/-! ## The rules -/

/-- The key of the status list. -/
def statusDigest (sv : Server) : NodeId := digest sv.protocol.hash statusListKey

/-- The record passes the issuer's check. -/
def IssuerSigned (sv : Server) (value : Bytes) : Prop :=
  sv.protocol.signatureHandler.handleIssuerNodeSignatureVerification value = .ok true

end Server

/-- The event is an `UpdateStatusList` request. -/
def ServerEvent.isStatusListUpdate {sv : Server} : ServerEvent sv → Bool
  | .node e => e.isStatusListUpdate
  | _ => false

/-- The record passes the check that `verify_for_key` makes for the key. -/
def Protocol.PassesRule (p : Protocol) (key : NodeId) (value : Bytes) : Prop :=
  checkDirectly p.signatureHandler (key = digest p.hash statusListKey) value = true

instance (p : Protocol) (key : NodeId) (value : Bytes) : Decidable (p.PassesRule key value) :=
  inferInstanceAs (Decidable (_ = true))

namespace Server

variable {sv : Server} {pool : ServerPool sv} {key : NodeId} {name : String} {value : Bytes}

theorem passesRule_statusDigest :
    sv.protocol.PassesRule sv.statusDigest value ↔ sv.IssuerSigned value := by
  simp [Protocol.PassesRule, statusDigest, checkDirectly, unwrapOrFalse_eq_true, IssuerSigned]

theorem passesRule_of_ne (h : key ≠ sv.statusDigest) :
    sv.protocol.PassesRule key value ↔
      sv.protocol.signatureHandler.handleSignatureVerification value = .ok true := by
  have hne : key ≠ digest sv.protocol.hash statusListKey := h
  simp [Protocol.PassesRule, checkDirectly, unwrapOrFalse_eq_true, hne]

/-- A record passes the rule of a key that is not the status list's if it is self-signed,
and the rule of the status list if the issuer has signed it. -/
theorem passesRule_of
    (hself : sv.protocol.signatureHandler.handleSignatureVerification value = .ok true)
    (hissuer : key = sv.statusDigest → sv.IssuerSigned value) :
    sv.protocol.PassesRule key value := by
  by_cases hkey : key = sv.statusDigest
  · rw [hkey]
    exact passesRule_statusDigest.mpr (hissuer hkey)
  · exact (passesRule_of_ne hkey).mpr hself

theorem verifies_statusListKey :
    sv.verifies statusListKey value = true ↔ sv.IssuerSigned value := by
  simp [verifies, checkDirectly, unwrapOrFalse_eq_true, IssuerSigned]

theorem verifies_of_ne (h : name ≠ statusListKey) :
    sv.verifies name value = true ↔
      sv.protocol.signatureHandler.handleSignatureVerification value = .ok true := by
  simp [verifies, checkDirectly, unwrapOrFalse_eq_true, h]

/-- The rule by which `update` checks a record. -/
theorem updateCheck_eq (value oldValue : Bytes) (authSignature : Option Bytes) :
    (name = statusListKey ∧ authSignature = none ∧
      sv.updateCheck name value oldValue authSignature =
        sv.protocol.signatureHandler.handleIssuerNodeSignatureVerification value) ∨
    (¬(name = statusListKey ∧ authSignature = none) ∧
      sv.updateCheck name value oldValue authSignature =
        sv.protocol.signatureHandler.handleUpdateVerification value oldValue
          (authSignature.getD [])) := by
  by_cases h : name = statusListKey ∧ authSignature = none
  · exact .inl ⟨h.1, h.2, by simp [updateCheck, h]⟩
  · refine .inr ⟨h, ?_⟩
    unfold updateCheck
    rw [if_neg]
    simpa using h

/-- A record that the owner's rule lets through to the key of the status list is signed by
the issuer.  That rule is applied to an incoming `Update`, to a local `set` or `update`
under another name with the same digest, and to a local `update` of the status list that
brings an authorisation. -/
def StatusListGuarded (sv : Server) (pool : ServerPool sv) : ServerEvent sv → Prop
  | .node (.request now _ (.update senderId key value authSignature) _) =>
      key = sv.statusDigest →
      sv.protocol.Accepts now pool.shared.node (.update senderId key value authSignature) →
      sv.IssuerSigned value
  | .call _ (.set name value) =>
      digest sv.protocol.hash name = sv.statusDigest → name ≠ statusListKey →
      sv.protocol.signatureHandler.handleSignatureVerification value = .ok true →
      sv.IssuerSigned value
  | .call _ (.update name value authSignature) =>
      digest sv.protocol.hash name = sv.statusDigest →
      ¬(name = statusListKey ∧ authSignature = none) →
      ∀ oldValue, sv.verifies name oldValue = true →
        sv.protocol.signatureHandler.handleUpdateVerification value oldValue
          (authSignature.getD []) = .ok true →
        sv.IssuerSigned value
  | _ => True

/-- An accepted `Store` carries a record that passes the rule of its key. -/
theorem passesRule_of_accepts_store {s : NodeState} {now : ℕ} {senderId : NodeId}
    (hnone : s.sigCache = none) (h : sv.protocol.Accepts now s (.store senderId key value)) :
    sv.protocol.PassesRule key value := by
  have hverify := h.1
  simpa [Protocol.PassesRule, Protocol.verifyForKey, AuthKademlia.verifyForKey, verifyCached,
    hnone] using hverify

/-- **How a record gets into the store.**  It passes the rule of its key; or it is
authorised by the record it replaces, and signed by the issuer if it becomes the status
list; or it is signed by the issuer and was sent as the status list, whatever its key. -/
theorem eventMeets_of_guarded {R S : NodeId → Bytes → Prop} {e : ServerEvent sv}
    (hguarded : sv.StatusListGuarded pool e)
    (hrule : ∀ key value, sv.protocol.PassesRule key value → R key value ∧ S key value)
    (howner : ∀ key value oldValue authSignature,
      sv.protocol.signatureHandler.handleUpdateVerification value oldValue authSignature =
        .ok true →
      (key = sv.statusDigest → sv.IssuerSigned value) → R key value)
    (hissuer : e.isStatusListUpdate = true → ∀ key value, sv.IssuerSigned value → R key value)
    (hlookup : ∀ now i answers, e = .resume now i answers → ∀ target peers next cont,
      pool.processes[i]? = some (.wait (.valueLookup target peers) next cont) →
      ValueReply.Meets S (answers (.valueLookup target peers))) :
    sv.EventMeets R S pool e := by
  cases e with
  | node e =>
      cases e with
      | request now fuel msg peer =>
          intro hnone haccepts key value hwritten
          cases msg with
          | store senderId key' value' =>
              cases hwritten
              exact (hrule _ _ (passesRule_of_accepts_store hnone haccepts)).1
          | update senderId key' value' authSignature =>
              cases hwritten
              rcases haccepts with ⟨old, hold, hcheck⟩
              exact howner _ _ old authSignature hcheck fun hkey =>
                hguarded hkey ⟨old, hold, hcheck⟩
          | updateStatusList senderId key' value' =>
              cases hwritten
              exact hissuer rfl _ _ haccepts.2
          | _ => cases hwritten
      | _ => trivial
  | call now c =>
      cases c with
      | set name value =>
          intro hverifies
          refine hrule _ _ ?_
          by_cases hname : name = statusListKey
          · subst hname
            exact passesRule_statusDigest.mpr (verifies_statusListKey.mp hverifies)
          · have hself := (verifies_of_ne hname).mp hverifies
            exact passesRule_of hself fun hkey => hguarded hkey hname hself
      | update name value authSignature =>
          intro oldValue hold hcheck
          rcases @updateCheck_eq sv name value oldValue authSignature with
            ⟨hname, -, heq⟩ | ⟨hbyOwner, heq⟩
          · subst hname
            exact (hrule _ _ (passesRule_statusDigest.mpr (heq.symm.trans hcheck))).1
          · have hrotation := heq.symm.trans hcheck
            exact howner _ _ oldValue _ hrotation fun hkey =>
              hguarded hkey hbyOwner oldValue hold hrotation
      | _ => trivial
  | resume now i answers =>
      intro q next cont hi
      cases q with
      | valueLookup target peers => exact hlookup now i answers rfl target peers next cont hi
      | _ => trivial

/-! ## The status list -/

/-- The record is signed by the issuer if it is the status list. -/
def StatusRule (sv : Server) (key : NodeId) (value : Bytes) : Prop :=
  key = sv.statusDigest → sv.IssuerSigned value

theorem eventMeets_statusRule {e : ServerEvent sv} (h : sv.StatusListGuarded pool e) :
    sv.EventMeets sv.StatusRule (fun _ _ => True) pool e := by
  refine eventMeets_of_guarded h ?_ ?_ ?_ ?_
  · intro key value hpass
    refine ⟨fun hkey => ?_, trivial⟩
    subst hkey
    exact passesRule_statusDigest.mp hpass
  · intro key value oldValue authSignature _ hissuer
    exact hissuer
  · intro _ key value hsigned _
    exact hsigned
  · intro now i answers _ target peers next cont _ v peer _ _
    trivial

/-- **The status list is signed by the issuer**, in every state that a server without a
cache reaches from an empty store, as long as no record passes to its key by the owner's
rule that the issuer has not signed. -/
theorem status_list_issuer_signed (sv : Server) (ttl : Int64) (begun : ℕ)
    (run : List (ServerEvent sv)) (pool : ServerPool sv)
    (hguarded : EachStep sv.step sv.StatusListGuarded (sv.start (.new ttl) none begun) run)
    (hrun : exec sv.step (sv.start (.new ttl) none begun) run = some pool) :
    ∀ value written, pool.shared.node.record sv.statusDigest = some (value, written) →
      sv.IssuerSigned value := by
  intro value written hentry
  have hmeets : EachStep sv.step (sv.EventMeets sv.StatusRule fun _ _ => True)
      (sv.start (.new ttl) none begun) run :=
    fun pre e post t hsplit hpre => eventMeets_statusRule (hguarded pre e post t hsplit hpre)
  have hrecords := recordsMeet_exec (fun _ _ _ => trivial) hmeets hrun
  exact hrecords.stored sv.statusDigest (value, written) hentry rfl

end Server

namespace Sample

/-- Holder A is also the issuer. -/
def issuerServer : Server :=
  ⟨20, 3, didProtocol localNode sampleHash sampleLib (.ok keyA), true, .plain, bincode⟩

/-- A's record becomes the status list, and A authorises B's record in its place. -/
def handOver : List (ServerEvent issuerServer) :=
  [.node (.request 0 1 (.store peerId statusKey recordA0) peerAddr),
    .node (.request 1 1 (.update peerId statusKey recordB authB) peerAddr)]

/-- The status list is stored, and published again by a local call and by two kinds of
request; an ordinary record is stored and updated. -/
def statusRun : List (ServerEvent sampleServer) :=
  [.node (.request 0 1 (.store peerId statusKey statusRecord) peerAddr),
    .call 1 (.update statusListKey statusRecord none),
    .node (.request 2 1 (.update peerId statusKey statusRecord authB) peerAddr),
    .node (.request 3 1 (.updateStatusList peerId statusKey statusRecord) peerAddr),
    .node (.request 4 1 (.store peerId deviceKey recordA0) peerAddr),
    .node (.request 5 1 (.update peerId deviceKey recordA1 authA1) peerAddr)]

end Sample

open Sample

/-- The key of the status list holds a record that the issuer has not signed. -/
theorem owner_replaces_status_list :
    ∃ pool, exec issuerServer.step (issuerServer.start (.new (-1)) none 0) handOver = some pool ∧
      pool.shared.node.record issuerServer.statusDigest = some (recordB, 1) ∧
      ¬issuerServer.IssuerSigned recordB := by
  have hlast : (exec issuerServer.step (issuerServer.start (.new (-1)) none 0) handOver).map
      (fun pool => pool.shared.node.record issuerServer.statusDigest) =
        some (some (recordB, 1)) := by
    decide +kernel
  rcases Option.map_eq_some_iff.mp hlast with ⟨pool, hrun, hentry⟩
  refine ⟨pool, hrun, hentry, fun hsigned => ?_⟩
  have hfails : unwrapOrFalse
      (issuerServer.protocol.signatureHandler.handleIssuerNodeSignatureVerification recordB) =
        false := by
    decide +kernel
  rw [unwrapOrFalse_eq_true.mpr hsigned] at hfails
  cases hfails

theorem issuerSigned_statusRecord : sampleServer.IssuerSigned statusRecord :=
  unwrapOrFalse_eq_true.mp (by decide +kernel)

theorem statusListGuarded_statusRun :
    EachStep sampleServer.step sampleServer.StatusListGuarded
      (sampleServer.start (.new (-1)) none 0) statusRun := by
  refine EachStep.of_forall_mem fun e he pool => ?_
  have hne : deviceKey ≠ sampleServer.statusDigest := by decide +kernel
  simp only [statusRun, List.mem_cons, List.not_mem_nil, or_false] at he
  rcases he with rfl | rfl | rfl | rfl | rfl | rfl
  · trivial
  · exact fun _ howner => absurd ⟨rfl, rfl⟩ howner
  · exact fun _ _ => issuerSigned_statusRecord
  · trivial
  · trivial
  · exact fun hkey => absurd hkey hne

theorem status_list_issuer_signed_statusRun :
    ∃ pool, exec sampleServer.step (sampleServer.start (.new (-1)) none 0) statusRun = some pool ∧
      pool.shared.node.record sampleServer.statusDigest = some (statusRecord, 3) ∧
      sampleServer.IssuerSigned statusRecord := by
  have hlast : (exec sampleServer.step (sampleServer.start (.new (-1)) none 0) statusRun).map
      (fun pool => pool.shared.node.record sampleServer.statusDigest) =
        some (some (statusRecord, 3)) := by
    decide +kernel
  rcases Option.map_eq_some_iff.mp hlast with ⟨pool, hrun, hentry⟩
  exact ⟨pool, hrun, hentry, Server.status_list_issuer_signed sampleServer (-1) 0 statusRun pool
    statusListGuarded_statusRun hrun statusRecord 3 hentry⟩

/-! ## What is sent to others -/

/-- After an answer without a value, every value received most often has `S`. -/
def ValueReply.Guarded {sv : Server} {target : Node} {peers : List Node}
    (S : NodeId → Bytes → Prop) (reply : ValueReply sv target peers) : Prop :=
  AnsweredWithout reply.outcome.history →
    ∀ v, MostReceived (firstValues reply.outcome.history) v → S target.id v

theorem ValueReply.Guarded.meets {sv : Server} {target : Node} {peers : List Node}
    {S : NodeId → Bytes → Prop} {reply : ValueReply sv target peers}
    (h : reply.Guarded S) : reply.Meets S := by
  intro v peer hvalue hcached
  have hwithout := ValueSpiderCrawl.answeredWithout_of_cachedAt reply.ends hcached
  rcases ValueSpiderCrawl.value_of_find reply.ends with ⟨-, hnone⟩ | ⟨w, hw, hmost⟩
  · rw [hvalue] at hnone
    cases hnone
  · rw [hvalue] at hw
    cases hw
    exact h hwithout v hmost

/-- **An honest receiver does not strike the sender of a valid record.**  Its cache, if it
has one, holds successes only. -/
theorem Protocol.strikes_rpcStore {p : Protocol} {now : ℕ} {senderId key : NodeId}
    {peer : SocketAddr} {value : Bytes} {s : NodeState} (h : p.PassesRule key value)
    (hcache : ∀ c, s.sigCache = some c → ∀ k b, c.lookup k = some b → b = true) :
    (p.rpcStore now senderId peer key value s).2.invalidSigStrikes = s.invalidSigStrikes := by
  have hvalid : (p.verifyForKey key value s).1 = true := by
    simp only [Protocol.verifyForKey]
    cases hs : s.sigCache with
    | none => exact h
    | some c =>
        have hrun := @VerifyCall.run_some p.hash p.signatureHandler c (.forKey key value)
          (hcache c hs)
        have hcheck : VerifyCall.check p.hash p.signatureHandler (.forKey key value) = true := h
        rw [hcheck, Bool.or_true] at hrun
        exact hrun
  simp only [rpcStore, hvalid, Bool.not_true, Bool.false_eq_true, if_false]
  split <;> rfl

namespace Server

variable {sv : Server} {pool : ServerPool sv} {lib : CryptoLib} {issuerFile : Except String Bytes}

/-- The copies that a lookup may send on pass the rule of the key. -/
def CopiesGuarded (sv : Server) (pool : ServerPool sv) : ServerEvent sv → Prop
  | .resume _ i answers => ∀ target peers next cont,
      pool.processes[i]? = some (.wait (.valueLookup target peers) next cont) →
      ValueReply.Guarded sv.protocol.PassesRule (answers (.valueLookup target peers))
  | _ => True

theorem selfSigned_of_update
    (hhandler : sv.protocol.signatureHandler = didSignatureVerifierHandler lib issuerFile)
    {value oldValue authSignature : Bytes}
    (h : sv.protocol.signatureHandler.handleUpdateVerification value oldValue authSignature =
      .ok true) :
    sv.protocol.signatureHandler.handleSignatureVerification value = .ok true := by
  rw [hhandler] at h ⊢
  exact (verifyKeyRotation_eq_ok_true.mp h).2

theorem eventMeets_passesRule
    (hhandler : sv.protocol.signatureHandler = didSignatureVerifierHandler lib issuerFile)
    {e : ServerEvent sv} (hguarded : sv.StatusListGuarded pool e)
    (hcopies : sv.CopiesGuarded pool e) (hkind : e.isStatusListUpdate = false) :
    sv.EventMeets sv.protocol.PassesRule sv.protocol.PassesRule pool e := by
  refine eventMeets_of_guarded hguarded ?_ ?_ ?_ ?_
  · intro key value hpass
    exact ⟨hpass, hpass⟩
  · intro key value oldValue authSignature hcheck hissuer
    exact passesRule_of (selfSigned_of_update hhandler hcheck) hissuer
  · intro hstatus
    rw [hkind] at hstatus
    cases hstatus
  · intro now i answers he target peers next cont hi
    subst he
    exact ValueReply.Guarded.meets (hcopies target peers next cont hi)

/-- **A server only sends valid records**, and collects no strikes at honest nodes, in every
run without `UpdateStatusList` requests in which no record passes to the status list by the
owner's rule that the issuer has not signed, and in which the values that a lookup may send
on are valid. -/
theorem sent_records_valid (sv : Server)
    (hhandler : sv.protocol.signatureHandler = didSignatureVerifierHandler lib issuerFile)
    (ttl : Int64) (begun : ℕ) (run : List (ServerEvent sv)) (pool : ServerPool sv)
    (hkind : ∀ e ∈ run, e.isStatusListUpdate = false)
    (hguarded : EachStep sv.step sv.StatusListGuarded (sv.start (.new ttl) none begun) run)
    (hcopies : EachStep sv.step sv.CopiesGuarded (sv.start (.new ttl) none begun) run)
    (hrun : exec sv.step (sv.start (.new ttl) none begun) run = some pool) :
    ∀ peer senderId key value,
      (peer, RpcMessage.store senderId key value) ∈ pool.shared.outgoing →
      sv.protocol.PassesRule key value ∧
      ∀ (receiver : Protocol) (now : ℕ) (addr : SocketAddr) (s : NodeState),
        receiver.signatureHandler = sv.protocol.signatureHandler →
        receiver.hash = sv.protocol.hash →
        (∀ c, s.sigCache = some c → ∀ k b, c.lookup k = some b → b = true) →
        (receiver.rpcStore now senderId addr key value s).2.invalidSigStrikes =
          s.invalidSigStrikes := by
  intro peer senderId key value hmem
  have hmeets : EachStep sv.step
      (sv.EventMeets sv.protocol.PassesRule sv.protocol.PassesRule)
      (sv.start (.new ttl) none begun) run := by
    intro pre e post t hsplit hpre
    exact eventMeets_passesRule hhandler (hguarded pre e post t hsplit hpre)
      (hcopies pre e post t hsplit hpre) (hkind e (by simp [hsplit]))
  have hrecords := recordsMeet_exec (fun _ _ h => h) hmeets hrun
  have hpass := hrecords.outgoing peer senderId key value hmem
  refine ⟨hpass, ?_⟩
  intro receiver now addr s hsame hhash hcache
  refine Protocol.strikes_rpcStore ?_ hcache
  rwa [Protocol.PassesRule, hsame, hhash]

end Server

namespace Sample

/-- Node 4 has a value for every key, and the others name node 4. -/
def lateValue (v : Bytes) : Network :=
  .fixed fun id => if id = (crawlNode 4).id then ⟨true, .value v⟩ else naming [4]

/-- The server learns of node 2 and starts to look a key up. -/
def lookupRun : List (ServerEvent sampleServer) :=
  [.node (.request 0 1 (.ping (crawlNode 2).id) ⟨"10.0.0.1", 2⟩),
    .node (.task 1 1 0 .noResponse), .call 2 (.get deviceName)]

/-- The lookup ends. -/
noncomputable def copyRun (v : Bytes) : List (ServerEvent sampleServer) :=
  lookupRun ++ [.resume 3 0 (sampleServer.answersFrom (lateValue v) 2)]

end Sample

/-- Node 4 answers with bytes that are no record; the server sends them on to node 2, and
an honest node 2 strikes the server for it. -/
theorem forged_value_sent_on :
    ∃ pool, exec sampleServer.step (sampleServer.start (.new (-1)) none 0) (copyRun forged) =
        some pool ∧
      pool.shared.outgoing = [(crawlNode 2, .store localNode.id deviceKey forged)] ∧
      ¬sampleProtocol.PassesRule deviceKey forged ∧
      (sampleProtocol.rpcStore 4 localNode.id peerAddr deviceKey forged
        (sampleProtocol.new 20 (.new (-1)) none 0)).2.invalidSigStrikes.lookup localNode.id =
          some 1 := by
  have hlast : (exec sampleServer.step (sampleServer.start (.new (-1)) none 0)
      (copyRun forged)).map (fun pool => pool.shared.outgoing) =
        some [(crawlNode 2, .store localNode.id deviceKey forged)] := by
    decide +kernel
  rcases Option.map_eq_some_iff.mp hlast with ⟨pool, hrun, hsent⟩
  exact ⟨pool, hrun, hsent, by decide +kernel, by decide +kernel⟩

theorem copiesGuarded_copyRun :
    EachStep sampleServer.step sampleServer.CopiesGuarded
      (sampleServer.start (.new (-1)) none 0) (copyRun recordA0) := by
  have hwaits : (exec sampleServer.step (sampleServer.start (.new (-1)) none 0) lookupRun).map
      (fun pool => pool.processes.map Suspended.question) =
        some [some (.valueLookup (Node.fromId deviceKey) [crawlNode 2])] := by
    decide +kernel
  rcases Option.map_eq_some_iff.mp hwaits with ⟨pool, hexec, hquestions⟩
  refine EachStep.concat (EachStep.of_forall_mem ?_) hexec ?_
  · intro e he t
    simp only [lookupRun, List.mem_cons, List.not_mem_nil, or_false] at he
    rcases he with rfl | rfl | rfl <;> trivial
  · intro target peers next cont hi _ v hv
    have hquestion : (pool.processes.map Suspended.question)[0]? =
        some (some (.valueLookup target peers)) := by
      rw [List.getElem?_map, hi]
      rfl
    rw [hquestions] at hquestion
    cases hquestion
    have hvalues : firstValues (ValueReply.outcome (sampleServer.answersFrom (lateValue recordA0) 2
        (.valueLookup (Node.fromId deviceKey) [crawlNode 2]))).history = [recordA0] := by
      decide +kernel
    rw [hvalues] at hv
    rw [List.mem_singleton.mp hv.1]
    decide +kernel

theorem sent_records_valid_copyRun :
    ∃ pool, exec sampleServer.step (sampleServer.start (.new (-1)) none 0) (copyRun recordA0) =
        some pool ∧
      (crawlNode 2, RpcMessage.store localNode.id deviceKey recordA0) ∈ pool.shared.outgoing ∧
      sampleProtocol.PassesRule deviceKey recordA0 := by
  have hlast : (exec sampleServer.step (sampleServer.start (.new (-1)) none 0)
      (copyRun recordA0)).map (fun pool => pool.shared.outgoing) =
        some [(crawlNode 2, .store localNode.id deviceKey recordA0)] := by
    decide +kernel
  rcases Option.map_eq_some_iff.mp hlast with ⟨pool, hrun, hsent⟩
  have hmem : (crawlNode 2, RpcMessage.store localNode.id deviceKey recordA0) ∈
      pool.shared.outgoing := by
    simp [hsent]
  have hkind : ∀ e ∈ copyRun recordA0, e.isStatusListUpdate = false := by
    intro e he
    simp only [copyRun, lookupRun, List.mem_append, List.mem_cons, List.not_mem_nil, or_false] at he
    rcases he with (rfl | rfl | rfl) | rfl <;> rfl
  have hguarded : EachStep sampleServer.step sampleServer.StatusListGuarded
      (sampleServer.start (.new (-1)) none 0) (copyRun recordA0) := by
    refine EachStep.of_forall_mem ?_
    intro e he t
    simp only [copyRun, lookupRun, List.mem_append, List.mem_cons, List.not_mem_nil, or_false] at he
    rcases he with (rfl | rfl | rfl) | rfl <;> trivial
  exact ⟨pool, hrun, hmem, (Server.sent_records_valid sampleServer rfl (-1) 0 (copyRun recordA0)
    pool hkind hguarded copiesGuarded_copyRun hrun _ _ _ _ hmem).1⟩

end AuthKademlia
