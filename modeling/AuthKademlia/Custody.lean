import AuthKademlia.RequestEffects

/-!
# Chain of custody

On a node without a cache and without expiry, and without `UpdateStatusList` requests, a
record changes hands only with the consent of its holder: what is stored under a key was
either stored there when the key was empty, or authorised by the record it replaced, and
a record disappears only by a deletion it authorised.

`Custody key log chain` reads this off the log of a run, entry by entry.  `chain` lists
the values held under the key since it was last empty, oldest first.  An accepted request
about the key must be one of the three constructors that check it; everything else must
leave the slot alone.
-/

namespace AuthKademlia

open Lib Protocol

/-- A node that verifies DID records. -/
def didProtocol (sourceNode : Node) (hash : HashLib) (lib : CryptoLib)
    (issuerFile : Except String Bytes) : Protocol :=
  ⟨sourceNode, didSignatureVerifierHandler lib issuerFile, hash⟩

/-- The value under a key, whatever its age. -/
def NodeState.held (s : NodeState) (key : NodeId) : Option Bytes := (s.record key).map Prod.fst

theorem NodeState.stored_eq_held {s : NodeState} (h : s.storage.ttl = -1) (now : ℕ)
    (key : NodeId) : s.stored now key = s.held key :=
  ForgetfulStorage.get_of_forever h

/-- The event is a request to write `key`, and it was accepted. -/
def AcceptedWrite (key : NodeId) (e : NodeEvent) (answer : Option RpcMessage) : Prop :=
  ∃ now fuel msg peer, e = .request now fuel msg peer ∧ msg.target = some key ∧
    answer.any RpcMessage.isAccept = true

/-- An event, its answer, and what the key holds afterwards. -/
abbrev LogEntry := NodeEvent × Option RpcMessage × Option Bytes

/-- The log of a run, as far as `key` is concerned. -/
def keyLog (key : NodeId) (tr : List (NodeEvent × Snapshot)) : List LogEntry :=
  tr.map fun (e, r) => (e, r.answer, r.state.held key)

/-- The slot of `key` went through the log in good order and holds the last value of the
chain. -/
inductive Custody (p : Protocol) (lib : CryptoLib) (key : NodeId) :
    List LogEntry → List Bytes → Prop
  | start : Custody p lib key [] []
  | other {log chain e answer} (h : Custody p lib key log chain)
      (hnot : ¬AcceptedWrite key e answer) :
      Custody p lib key (log ++ [(e, answer, chain.getLast?)]) chain
  | store {log now fuel senderId peer value} (h : Custody p lib key log [])
      (hverify : (AuthKademlia.verifyForKey p.hash p.signatureHandler none key value).1 = true) :
      Custody p lib key
        (log ++ [(.request now fuel (.store senderId key value) peer, some (.storeResult true),
          some value)]) [value]
  | update {log chain old now fuel senderId peer value authSignature}
      (h : Custody p lib key log (chain ++ [old]))
      (hself : verifySelfSigned lib value = .ok true)
      (hauth : VerifiesUnder lib old authSignature value) :
      Custody p lib key
        (log ++ [(.request now fuel (.update senderId key value authSignature) peer,
          some (.updateResult true), some value)]) (chain ++ [old, value])
  | delete {log chain old now fuel senderId peer authSignature deleteMsg}
      (h : Custody p lib key log (chain ++ [old]))
      (hauth : VerifiesUnder lib old authSignature deleteMsg) :
      Custody p lib key
        (log ++ [(.request now fuel (.delete senderId key authSignature deleteMsg) peer,
          some (.deleteResult true), none)]) []

/-- The event is an `UpdateStatusList` request. -/
def Protocol.NodeEvent.isStatusListUpdate : NodeEvent → Bool
  | .request _ _ msg _ => msg.isStatusListUpdate
  | _ => false

section Custody

variable {sourceNode : Node} {hash : HashLib} {lib : CryptoLib}
  {issuerFile : Except String Bytes}

theorem exists_eq_append_of_getLast? {chain : List Bytes} {old : Bytes}
    (h : chain.getLast? = some old) : ∃ chain', chain = chain' ++ [old] :=
  ⟨chain.dropLast, (List.dropLast_append_getLast? old h).symm⟩

/-- A request that writes a key is answered by the matching result. -/
theorem answer_of_accepted {p : Protocol} {now fuel : ℕ} {msg : RpcMessage} {peer : SocketAddr}
    {r r' : Snapshot} (h : p.step r (.request now fuel msg peer) = some r')
    (hacc : r'.answer.any RpcMessage.isAccept = true) :
    match msg with
    | .store .. => r'.answer = some (.storeResult true)
    | .update .. => r'.answer = some (.updateResult true)
    | .delete .. => r'.answer = some (.deleteResult true)
    | _ => True := by
  have hd := step_request.mp h
  obtain ⟨answer, s'⟩ := r'
  cases msg with
  | store =>
      obtain ⟨rfl, -⟩ := Prod.mk.inj (Option.some.inj hd)
      simpa [RpcMessage.isAccept] using hacc
  | update =>
      obtain ⟨rfl, -⟩ := Prod.mk.inj (Option.some.inj hd)
      simpa [RpcMessage.isAccept] using hacc
  | delete =>
      obtain ⟨rfl, -⟩ := Prod.mk.inj (Option.some.inj hd)
      simpa [RpcMessage.isAccept] using hacc
  | _ => trivial

/-- The key is in custody along the log, and holds the last value of its chain. -/
def InCustody (p : Protocol) (lib : CryptoLib) (key : NodeId) (log : List LogEntry)
    (held : Option Bytes) : Prop :=
  ∃ chain, Custody p lib key log chain ∧ held = chain.getLast?

theorem InCustody.other {p : Protocol} {key : NodeId} {log : List LogEntry} {held held' : Option Bytes}
    {e : NodeEvent} {answer : Option RpcMessage} (h : InCustody p lib key log held)
    (hsame : held' = held) (hnot : ¬AcceptedWrite key e answer) :
    InCustody p lib key (log ++ [(e, answer, held')]) held' := by
  rcases h with ⟨chain, hc, rfl⟩
  subst hsame
  exact ⟨chain, hc.other hnot, rfl⟩

/-- An accepted request to write the key, other than an `UpdateStatusList`. -/
theorem InCustody.write {key : NodeId} {log : List LogEntry} {r r' : Snapshot} {now fuel : ℕ}
    {msg : RpcMessage} {peer : SocketAddr}
    (h : InCustody (didProtocol sourceNode hash lib issuerFile) lib key log (r.state.stored now key))
    (hcache : r.state.sigCache = none) (hkind : msg.isStatusListUpdate = false)
    (htarget : msg.target = some key)
    (haccepts : (didProtocol sourceNode hash lib issuerFile).Accepts now r.state msg)
    (hacc : r'.answer.any RpcMessage.isAccept = true)
    (hst : r'.state.storage = msg.applyTo now r.state.storage)
    (hstep : (didProtocol sourceNode hash lib issuerFile).step r (.request now fuel msg peer) =
      some r') :
    InCustody (didProtocol sourceNode hash lib issuerFile) lib key
      (log ++ [(.request now fuel msg peer, r'.answer, r'.state.held key)])
      (r'.state.held key) := by
  have hans := answer_of_accepted hstep hacc
  rcases h with ⟨chain, hc, hstored⟩
  cases msg with
  | store senderId key' value =>
      cases htarget
      rcases haccepts with ⟨hverify, hnone⟩
      have hheld : r'.state.held key = some value := by
        simp [NodeState.held, NodeState.record, hst, RpcMessage.applyTo]
      have hchain : chain = [] := by
        rw [hstored] at hnone
        exact List.getLast?_eq_none_iff.mp hnone
      subst hchain
      rw [hans, hheld]
      refine ⟨[value], hc.store ?_, rfl⟩
      simpa [Protocol.verifyForKey, hcache] using hverify
  | update senderId key' value authSignature =>
      cases htarget
      rcases haccepts with ⟨old, hold, hok⟩
      rcases verifyKeyRotation_eq_ok_true.mp hok with ⟨hauth, hself⟩
      rcases exists_eq_append_of_getLast? (hstored.symm.trans hold) with ⟨chain', rfl⟩
      have hheld : r'.state.held key = some value := by
        simp [NodeState.held, NodeState.record, hst, RpcMessage.applyTo]
      rw [hans, hheld]
      exact ⟨chain' ++ [old, value], hc.update hself hauth, by simp⟩
  | delete senderId key' authSignature deleteMsg =>
      cases htarget
      rcases haccepts with ⟨old, hold, hok⟩
      have hauth := deleteOperation_eq_ok_true.mp hok
      rcases exists_eq_append_of_getLast? (hstored.symm.trans hold) with ⟨chain', rfl⟩
      have hheld : r'.state.held key = none := by
        simp [NodeState.held, NodeState.record, hst, RpcMessage.applyTo]
      rw [hans, hheld]
      exact ⟨[], hc.delete hauth, rfl⟩
  | updateStatusList => cases hkind
  | _ => cases htarget

/-- **One event** extends the custody of every key. -/
theorem InCustody.step {key : NodeId} {log : List LogEntry} {r r' : Snapshot} {e : NodeEvent}
    (h : InCustody (didProtocol sourceNode hash lib issuerFile) lib key log (r.state.held key))
    (httl : r.state.storage.ttl = -1) (hcache : r.state.sigCache = none)
    (he : e.isStatusListUpdate = false)
    (hstep : (didProtocol sourceNode hash lib issuerFile).step r e = some r') :
    InCustody (didProtocol sourceNode hash lib issuerFile) lib key
      (log ++ [(e, r'.answer, r'.state.held key)]) (r'.state.held key) := by
  rcases step_storage hstep with ⟨hrej, hst⟩ | ⟨now, fuel, msg, peer, rfl, haccepts, hacc, hst⟩
  · refine h.other (by simp only [NodeState.held, NodeState.record, hst]) ?_
    intro hwrite
    rcases hwrite with ⟨_, _, _, _, -, -, hacc⟩
    rw [hrej] at hacc
    cases hacc
  · by_cases htarget : msg.target = some key
    · rw [← NodeState.stored_eq_held httl now key] at h
      exact h.write hcache he htarget haccepts hacc hst hstep
    · refine h.other ?_ ?_
      · simp only [NodeState.held, NodeState.record, hst, RpcMessage.entry_applyTo_ne htarget]
      · intro hwrite
        rcases hwrite with ⟨_, _, _, _, heq, htarget', -⟩
        cases heq
        exact htarget htarget'

/-- **Chain of custody.**  On a node without a cache and without expiry, started with an
empty store and never sent an `UpdateStatusList`: every key is in custody along the whole
run and holds the last value of its chain; and a further request that is answered
`ok = false` leaves the store as it is, and one about another key leaves the key as it
is. -/
theorem chain_of_custody (sourceNode : Node) (hash : HashLib) (lib : CryptoLib)
    (issuerFile : Except String Bytes) (ksize begun : ℕ) {es : List NodeEvent} {r : Snapshot}
    (hes : ∀ e ∈ es, e.isStatusListUpdate = false)
    (h : exec (didProtocol sourceNode hash lib issuerFile).step
      ((didProtocol sourceNode hash lib issuerFile).start ksize (.new (-1)) none begun) es =
        some r) :
    (∀ key, ∃ chain,
      Custody (didProtocol sourceNode hash lib issuerFile) lib key
        (keyLog key (trace (didProtocol sourceNode hash lib issuerFile).step
          ((didProtocol sourceNode hash lib issuerFile).start ksize (.new (-1)) none begun) es))
        chain ∧
      ∀ now, r.state.stored now key = chain.getLast?) ∧
    (∀ now fuel msg peer r',
      (didProtocol sourceNode hash lib issuerFile).step r (.request now fuel msg peer) = some r' →
      (r'.answer.any RpcMessage.isReject = true → r'.state.storage = r.state.storage) ∧
      ∀ key, msg.target ≠ some key → r'.state.record key = r.state.record key) := by
  set p := didProtocol sourceNode hash lib issuerFile with hp
  set init := p.start ksize (.new (-1)) none begun with hinit
  constructor
  · -- the run keeps the cache off and the `ttl` at `-1`, which the step lemma needs
    have hrun := exec_history (fun es r => (∀ e ∈ es, e.isStatusListUpdate = false) →
        r.state.storage.ttl = -1 ∧ r.state.sigCache = none ∧
        ∀ key, InCustody p lib key (keyLog key (trace p.step init es)) (r.state.held key))
      (fun _ => ⟨rfl, rfl, fun key => ⟨[], Custody.start, rfl⟩⟩) ?_ h hes
    · obtain ⟨httl, -, hcustody⟩ := hrun
      intro key
      obtain ⟨chain, hc, hheld⟩ := hcustody key
      exact ⟨chain, hc, fun now => (NodeState.stored_eq_held httl now key).trans hheld⟩
    · intro es r e r' hexec ih hstep hes
      obtain ⟨httl, hcache, hcustody⟩ := ih fun d hd => hes d (List.mem_append_left _ hd)
      refine ⟨(step_ttl hstep).trans httl, step_sigCache hcache hstep, fun key => ?_⟩
      rw [trace_concat hexec hstep, keyLog, List.map_append]
      exact (hcustody key).step httl hcache (hes e (by simp)) hstep
  · intro now fuel msg peer r' hstep
    rcases step_storage hstep with ⟨-, hst⟩ | ⟨now', fuel', msg', peer', heq, -, hacc, hst⟩
    · exact ⟨fun _ => hst, fun key _ => by rw [NodeState.record, hst]; rfl⟩
    · obtain ⟨rfl, rfl, rfl, rfl⟩ := NodeEvent.request.inj heq
      constructor
      · intro hrej
        rw [isAccept_eq_false_of_isReject hrej] at hacc
        cases hacc
      · intro key htarget
        rw [NodeState.record, hst, RpcMessage.entry_applyTo_ne htarget]
        rfl

end Custody

open Sample

namespace Sample

/-- A node that knows the sample records. -/
def localNode : Node := Node.fromId (NodeId.ofNat 1)
def peerId : NodeId := NodeId.ofNat 2
def peerAddr : SocketAddr := ⟨"127.0.0.1", 5678⟩

/-- A life of one record: stored, rotated, read, deleted, and stored anew by another
holder. -/
def lifeOfRecord : List NodeEvent :=
  [.request 0 1 (.store peerId deviceKey recordA0) peerAddr, .task 1 1 0 .noResponse,
    .request 2 1 (.update peerId deviceKey recordA1 authA1) peerAddr,
    .request 3 1 (.findValue peerId deviceKey) peerAddr,
    .request 4 1 (.delete peerId deviceKey sigA1 (didDoc xBytesA 1)) peerAddr,
    .request 5 1 (.store peerId deviceKey recordB) peerAddr]

def sampleProtocol : Protocol := didProtocol localNode sampleHash sampleLib (.ok issuerKey)

end Sample

theorem chain_of_custody_lifeOfRecord :
    ∃ r, exec sampleProtocol.step (sampleProtocol.start 20 (.new (-1)) none 0) lifeOfRecord =
        some r ∧ r.state.stored 6 deviceKey = some recordB ∧
      ∃ chain, Custody sampleProtocol sampleLib deviceKey
        (keyLog deviceKey (trace sampleProtocol.step
          (sampleProtocol.start 20 (.new (-1)) none 0) lifeOfRecord)) chain ∧
        chain.getLast? = some recordB := by
  have hlast : (exec sampleProtocol.step (sampleProtocol.start 20 (.new (-1)) none 0)
      lifeOfRecord).map (fun r => r.state.stored 6 deviceKey) = some (some recordB) := by
    decide +kernel
  obtain ⟨r, hr, hstored⟩ := Option.map_eq_some_iff.mp hlast
  obtain ⟨hcustody, -⟩ := chain_of_custody localNode sampleHash sampleLib (.ok issuerKey) 20 0
    (by decide) hr
  obtain ⟨chain, hc, hheld⟩ := hcustody deviceKey
  exact ⟨r, hr, hstored, chain, hc, (hheld 6).symm.trans hstored⟩

end AuthKademlia
