import AuthKademlia.ContactCauses
import AuthKademlia.RecordRules

/-!
# Every record in a cluster is signed

A node verifies a record before it stores it, but in several places, for several reasons and
through a cache: a `Store` is checked for its key, an update against the record it replaces,
a status list against the issuer, and a local call checks before it publishes.  A verdict in
the cache is used for every record with the same hash, whatever key it was given for.

All of them together let only signed records into the store, in every run of a cluster and
whatever is injected (`records_signed`).  For a node with a cache this takes a hash that tells
the records apart that the node was given in the course of the run (`Presented`).

## Main definitions

* `Signed` — signed by its own holder, or by the issuer.
* `Protocol.Vouches` — what passes the checks of a node has a property.
* `OnlySigned` — the invariant of a node.
* `Presented` — the records a node was given.
-/

namespace AuthKademlia

open Lib Protocol

/-- Signed by its own holder, or by the issuer. -/
def Signed (lib : CryptoLib) (issuerFile : Except String Bytes) (value : Bytes) : Prop :=
  verifySelfSigned lib value = .ok true ∨
    handleIssuerNodeSignatureVerification lib issuerFile value = .ok true

/-- What passes a check has `S`. -/
structure Protocol.Vouches (p : Protocol) (S : Bytes → Prop) : Prop where
  direct : ∀ {isStatus value}, checkDirectly p.signatureHandler isStatus value = true → S value
  update : ∀ {value oldValue authSignature},
    p.signatureHandler.handleUpdateVerification value oldValue authSignature = .ok true → S value

/-- The issuer's check is the one for the status list. -/
theorem Protocol.Vouches.issuer {p : Protocol} {S : Bytes → Prop} (hp : p.Vouches S) {value : Bytes}
    (h : p.signatureHandler.handleIssuerNodeSignatureVerification value = .ok true) : S value := by
  have hdirect : checkDirectly p.signatureHandler true value = true := by simp [checkDirectly, h]
  exact hp.direct hdirect

theorem Signed.vouches {p : Protocol} {lib : CryptoLib} {issuerFile : Except String Bytes}
    (hhandler : p.signatureHandler = didSignatureVerifierHandler lib issuerFile) :
    p.Vouches (Signed lib issuerFile) where
  direct {isStatus value} h := by
    rw [hhandler] at h
    cases isStatus with
    | false => exact .inl (by simpa [checkDirectly, didSignatureVerifierHandler] using h)
    | true => exact .inr (by simpa [checkDirectly, didSignatureVerifierHandler] using h)
  update h := by
    rw [hhandler] at h
    exact .inl (verifyKeyRotation_eq_ok_true.mp h).2

/-- Of the records with `T`, which are all that the node is given, those in the store have `S`,
and so have those with a good verdict in the cache.  Where there is a cache, no record with `S`
shares its hash with one without. -/
structure OnlySigned (p : Protocol) (T S : Bytes → Prop) (s : NodeState) : Prop where
  stored : ∀ key e, s.storage.entry key = some e → S e.1 ∧ T e.1
  cached : ∀ cache ∈ s.sigCache, ∀ value, T value →
    cache.getByKey (SignatureCache.computeKey p.hash value) = some true → S value
  collision : s.sigCache.isSome = true → ∀ v w, T v → T w →
    SignatureCache.computeKey p.hash v = SignatureCache.computeKey p.hash w → S v → S w

/-- The record that a handler suspended here is going to verify. -/
def Point.presented : Point → Option Bytes
  | .verifying _ _ _ value | .checking ⟨_, _, .store _ value⟩ _
  | .checking ⟨_, _, .update _ value _⟩ _ | .checking ⟨_, _, .updateStatusList _ value⟩ _ =>
      some value
  | _ => none

/-- It is the record of the request. -/
theorem Serves.written {peer : SocketAddr} {msg : RpcMessage} {point : Point} {value : Bytes}
    (h : Serves peer msg point) (hvalue : point.presented = some value) :
    ∃ key, msg.written = some (key, value) := by
  cases h <;> cases hvalue <;> exact ⟨_, rfl⟩

theorem Follows.presented_eq_none {p : Protocol} {result : CallResult} {point next : Point}
    (h : Follows p result point next) : next.presented = none := by
  cases h <;> rfl

namespace OnlySigned

variable {p : Protocol} {T S : Bytes → Prop} {s s' : NodeState} {now : ℕ} {key : NodeId}
  {value : Bytes}

theorem congr (hs : OnlySigned p T S s) (hstorage : s'.storage = s.storage)
    (hcache : s'.sigCache = s.sigCache) : OnlySigned p T S s' :=
  ⟨by rw [hstorage]; exact hs.stored, by rw [hcache]; exact hs.cached,
    by rw [hcache]; exact hs.collision⟩

theorem set (hs : OnlySigned p T S s) (hvalue : S value ∧ T value)
    (hcache : s'.sigCache = s.sigCache)
    (hstorage : s'.storage = s.storage.set now key.bytes value) : OnlySigned p T S s' := by
  refine ⟨?_, by rw [hcache]; exact hs.cached, by rw [hcache]; exact hs.collision⟩
  intro key' e he
  rw [hstorage] at he
  obtain ⟨-, rfl⟩ | he := ForgetfulStorage.entry_of_set he
  · exact hvalue
  · exact hs.stored key' e he

theorem delete (hs : OnlySigned p T S s) (hcache : s'.sigCache = s.sigCache)
    (hstorage : s'.storage = s.storage.delete key.bytes) : OnlySigned p T S s' := by
  refine ⟨?_, by rw [hcache]; exact hs.cached, by rw [hcache]; exact hs.collision⟩
  intro key' e he
  rw [hstorage] at he
  exact hs.stored key' e (ForgetfulStorage.entry_of_delete he)

/-- The cache may gain good verdicts on records with `S` ... -/
theorem insertByKey (hs : OnlySigned p T S s) (hT : T value) (hvalue : S value) :
    OnlySigned p T S { s with
      sigCache := s.sigCache.map fun cache =>
        cache.insertByKey (SignatureCache.computeKey p.hash value) true } := by
  refine ⟨hs.stored, ?_, by simpa using hs.collision⟩
  intro cache hcache v hv hget
  obtain ⟨cache, hmem, rfl⟩ := Option.mem_map.mp hcache
  by_cases hkey : SignatureCache.computeKey p.hash v = SignatureCache.computeKey p.hash value
  · exact hs.collision (Option.isSome_of_mem hmem) value v hT hv hkey.symm hvalue
  · refine hs.cached cache hmem v hv ?_
    rwa [SignatureCache.getByKey, SignatureCache.insertByKey, AList.lookup_insert_ne hkey] at hget

/-- ... and lose entries. -/
theorem erase (hs : OnlySigned p T S s) (k : Bytes) :
    OnlySigned p T S { s with sigCache := s.sigCache.map fun cache => cache.erase k } := by
  refine ⟨hs.stored, ?_, by simpa using hs.collision⟩
  intro cache hcache v hv hget
  obtain ⟨cache, hmem, rfl⟩ := Option.mem_map.mp hcache
  refine hs.cached cache hmem v hv ?_
  by_cases hkey : SignatureCache.computeKey p.hash v = k
  · rw [SignatureCache.getByKey, hkey, AList.lookup_erase] at hget
    cases hget
  · rwa [SignatureCache.getByKey, AList.lookup_erase_ne hkey] at hget

/-- **A verification through the cache** lets through only what has `S`. -/
theorem verifyCached (hs : OnlySigned p T S s) (hp : p.Vouches S) (isStatus : Bool) (hT : T value) :
    OnlySigned p T S { s with sigCache :=
      (verifyCached p.hash p.signatureHandler isStatus s.sigCache value).2 } ∧
    ((AuthKademlia.verifyCached p.hash p.signatureHandler isStatus s.sigCache value).1 = true →
      S value) := by
  unfold AuthKademlia.verifyCached
  split
  · rename_i hnone
    exact ⟨hs.congr rfl (by rw [hnone]), hp.direct⟩
  · rename_i cache hcache
    dsimp only
    split
    · rename_i verdict hverdict
      refine ⟨hs.congr rfl (by rw [hcache]), ?_⟩
      rintro rfl
      exact hs.cached cache hcache value hT hverdict
    · refine ⟨?_, hp.direct⟩
      split
      · rename_i hcheck
        have hinsert := hs.insertByKey hT (hp.direct hcheck)
        rw [hcache] at hinsert
        rwa [hcheck]
      · exact hs.congr rfl (by rw [hcache])

theorem cachedVerdict (hs : OnlySigned p T S s) (hT : T value)
    (h : p.cachedVerdict value s = some true) : S value := by
  obtain ⟨cache, hcache, hverdict⟩ := Option.bind_eq_some_iff.mp h
  exact hs.cached cache hcache value hT hverdict

theorem verifyDirectly (hs : OnlySigned p T S s) (hp : p.Vouches S) (key : NodeId) (hT : T value) :
    OnlySigned p T S (p.verifyDirectly key value s).2 ∧
      ((p.verifyDirectly key value s).1 = true → S value) := by
  unfold Protocol.verifyDirectly
  dsimp only
  split
  · rename_i hcheck
    rw [hcheck]
    exact ⟨hs.insertByKey hT (hp.direct hcheck), fun _ => hp.direct hcheck⟩
  · exact ⟨hs, hp.direct⟩

theorem storeVerified (hs : OnlySigned p T S s) {valid : Bool} (hT : T value)
    (hvalid : valid = true → S value) (senderId : NodeId) (peer : SocketAddr) (key : NodeId) :
    OnlySigned p T S (storeVerified now senderId peer key value valid s).2 := by
  unfold Protocol.storeVerified
  cases valid with
  | false =>
      simp only [Bool.not_false, if_true]
      split <;> exact hs.congr rfl rfl
  | true =>
      simp only [Bool.not_true, Bool.false_eq_true, if_false, ForgetfulStorage.insertIfAbsent_eq]
      by_cases hnone : s.storage.get now key.bytes = none
      · simp only [hnone, if_true, Bool.not_true, Bool.false_eq_true, if_false]
        exact hs.set ⟨hvalid rfl, hT⟩ rfl rfl
      · simp only [hnone, if_false, Bool.not_false, if_true]
        exact hs

theorem writeStep (hs : OnlySigned p T S s) (hp : p.Vouches S) {q : WriteRequest} {old : Bytes}
    (hT : ∀ value, (Point.checking q old).presented = some value → T value)
    (hcheck : q.op.verification p s.sigCache (some old) = true) :
    OnlySigned p T S (q.writeStep now s).2 := by
  obtain ⟨senderId, peer, op⟩ := q
  cases op with
  | store key value =>
      have hvalue :=
        (hs.verifyCached hp (key = digest p.hash statusListKey) (hT value rfl)).2 hcheck
      simp only [WriteRequest.writeStep, ForgetfulStorage.insertIfAbsent_eq]
      by_cases hnone : s.storage.get now key.bytes = none
      · simp only [hnone, if_true, Bool.not_true, Bool.false_eq_true, if_false]
        exact hs.set ⟨hvalue, hT value rfl⟩ rfl rfl
      · simp only [hnone, if_false, Bool.not_false, if_true]
        exact hs
  | update key value authSignature =>
      have hvalue : S value := by
        simp only [WriteOp.verification, Option.any_some, unwrapOrFalse_eq_true] at hcheck
        exact hp.update hcheck
      exact hs.set ⟨hvalue, hT value rfl⟩ rfl rfl
  | updateStatusList key value =>
      have hvalue : S value := by
        simp only [WriteOp.verification, unwrapOrFalse_eq_true] at hcheck
        exact hp.issuer hcheck
      exact hs.set ⟨hvalue, hT value rfl⟩ rfl rfl
  | delete key authSignature deleteMsg => exact hs.delete rfl rfl

end OnlySigned

section Rules

variable {p : Protocol} {T S : Bytes → Prop}

theorem OnlySigned.afterWelcome {s : NodeState} (hs : OnlySigned p T S s) (now : ℕ) (node : Node)
    (lookup : Option NodeId) : OnlySigned p T S (afterWelcome now node lookup s).2 := by
  unfold Protocol.afterWelcome
  split
  · exact hs
  · split <;> exact hs

theorem OnlySigned.advance {now fuel : ℕ} {result : CallResult} {s : NodeState} {point : Point}
    {r : Progress × NodeState} (hs : OnlySigned p T S s) (hp : p.Vouches S)
    (hT : ∀ value, point.presented = some value → T value)
    (h : p.advance now fuel result s point = some r) : OnlySigned p T S r.2 := by
  cases point with
  | verifying senderId peer key value =>
      cases h
      obtain ⟨hstate, hvalid⟩ := hs.verifyDirectly hp key (hT value rfl)
      exact hstate.storeVerified (hT value rfl) hvalid senderId peer key
  | checking q old =>
      simp only [Protocol.advance] at h
      split at h
      · cases h
        exact hs
      · rename_i hcheck
        cases h
        exact hs.writeStep hp hT (by simpa using hcheck)
  | greeting node lookup =>
      simp only [Protocol.advance] at h
      split at h
      · cases h
        exact hs.afterWelcome now node lookup
      · cases h
        exact hs
  | adding node lookup keys =>
      obtain ⟨⟨lru, router⟩, -, rfl⟩ := Option.map_eq_some_iff.mp h
      refine (OnlySigned.congr hs ?_ ?_).afterWelcome now node lookup
      · rw [foldl_spawn]
        cases lru <;> rfl
      · rw [foldl_spawn]
        cases lru <;> rfl
  | pinging node =>
      simp only [Protocol.advance] at h
      split at h <;> cases h <;> exact hs
  | storing peer =>
      simp only [Protocol.advance] at h
      split at h <;> cases h <;> exact hs
  | banning sender strikes => cases h; exact hs.congr rfl rfl
  | searching sender key => cases h; exact hs.congr rfl rfl
  | lookingUp sender key => cases h; exact hs.congr rfl rfl
  | leaving sender => cases h; exact hs.congr rfl rfl
  | sampling node lookup entries => cases h; exact hs.congr rfl rfl
  | evicting node => cases h; exact hs.congr rfl rfl

theorem OnlySigned.beginRequest {now : ℕ} {message : RpcMessage} {peer : SocketAddr}
    {s : NodeState} (hs : OnlySigned p T S s)
    (hT : ∀ key value, message.written = some (key, value) → T value) :
    OnlySigned p T S (p.beginRequest now message peer s).2 := by
  cases message with
  | store senderId key value =>
      have hvalue := hT key value rfl
      simp only [Protocol.beginRequest]
      split
      · rename_i valid hverdict
        refine hs.storeVerified hvalue (fun hvalid => hs.cachedVerdict hvalue ?_) senderId peer key
        rw [hverdict, hvalid]
      · exact hs
  | update senderId key value authSignature =>
      simp only [Protocol.beginRequest, beginWrite]
      split <;> exact hs
  | updateStatusList senderId key value =>
      simp only [Protocol.beginRequest, beginWrite]
      split <;> exact hs
  | delete senderId key authSignature deleteMsg =>
      simp only [Protocol.beginRequest, beginWrite]
      split <;> exact hs
  | _ => exact hs.congr rfl rfl

/-- **Handlers and tasks let only signed records in**, whatever else they hear and get. -/
theorem OnlySigned.segmentRules (hp : p.Vouches S) :
    SegmentRules p (OnlySigned p T S) (fun point => ∀ value, point.presented = some value → T value)
      (fun _ frame => frame.isRequest = true →
        ∀ key value, frame.message.written = some (key, value) → T value)
      (fun _ _ => True) where
  request {now peer frame s} hrequest hheard hs := by
    refine ⟨hs.beginRequest (hheard hrequest), fun point hpoint value hvalue => ?_⟩
    obtain ⟨key, hwritten⟩ := (serves_beginRequest hpoint).written hvalue
    exact hheard hrequest key value hwritten
  response {peer frame s} _ _ hs := by
    unfold receiveResponse
    split
    · exact hs.congr rfl rfl
    · exact hs
  start {s i task} hs _ := by
    refine ⟨hs.congr rfl rfl, ?_⟩
    intro point hpoint value hvalue
    obtain ⟨n, -, rfl⟩ | ⟨n, -, rfl⟩ | ⟨n, -, -, -, rfl⟩ := mem_startTask hpoint
    all_goals cases hvalue
  advance hs hpoint _ h := by
    refine ⟨hs.advance hp hpoint h, fun next hnext value hvalue => ?_⟩
    rw [(follows_advance h hnext).presented_eq_none] at hvalue
    cases hvalue
  cacheDrop key hs := hs.erase key

/-- **So do local calls.** -/
theorem OnlySigned.localRules {sv : Server} (hp : sv.protocol.Vouches S) :
    LocalRules sv (OnlySigned sv.protocol T S) T (fun _ => S) (fun _ value => S value ∧ T value)
      (fun _ _ => True) (fun _ _ _ => True) where
  stored key hs hget := by
    obtain ⟨written, hentry, -⟩ := ForgetfulStorage.get_eq_some.mp hget
    exact (hs.stored key.bytes _ hentry).2
  touched _ _ hs := hs.congr rfl rfl
  verified key value hT hs := hs.verifyCached hp (key = statusListKey) hT
  written _ _ _ hvalue hs := hs.set hvalue rfl rfl
  deleted _ hs := hs.delete rfl rfl
  queried undialable peer answered _ hs :=
    hs.congr (quiet_afterQuery undialable peer answered _).storage
      (quiet_afterQuery undialable peer answered _).sigCache
  called peer request result _ hs :=
    hs.congr (quiet_callRpc peer request result _).storage
      (quiet_callRpc peer request result _).sigCache

theorem OnlySigned.callAllowed {sv : Server} (hp : sv.protocol.Vouches S) {c : LocalCall}
    (hT : ∀ value, c.written = some value → T value) :
    sv.CallAllowed (fun _ => S) (fun _ value => S value ∧ T value) (fun _ _ => True)
      (fun _ => True) c := by
  cases c with
  | set key value => exact fun hvalue => ⟨⟨hvalue, hT value rfl⟩, trivial⟩
  | update key value authSignature =>
      intro oldValue _ hcheck
      refine ⟨?_, hT value rfl⟩
      unfold Server.updateCheck at hcheck
      split at hcheck
      · exact hp.issuer hcheck
      · exact hp.update hcheck
  | get key => trivial
  | delete key authSignature deleteMsg => trivial
  | refresh => trivial

end Rules

namespace Cluster

variable {servers : SocketAddr → Server} {pools : ∀ a, ServerPool (servers a)}
  {c : Cluster servers} {run : List (ClusterEvent servers)} {b : SocketAddr} {S : Bytes → Prop}

theorem onlySigned_start {p : Protocol} {T : Bytes → Prop} {ttl : Int64}
    {cache : Option SignatureCache} {ksize begun : ℕ}
    (hcollision : cache.isSome = true → ∀ v w, T v → T w →
      SignatureCache.computeKey p.hash v = SignatureCache.computeKey p.hash w → S v → S w)
    (hcache : ∀ m ∈ cache, m = ∅) :
    OnlySigned p T S (p.new ksize (.new ttl) cache begun) := by
  refine ⟨?_, ?_, hcollision⟩
  · intro key e he
    simp [Protocol.new, ForgetfulStorage.new, ForgetfulStorage.entry] at he
  · intro m hm v _ hv
    rw [hcache m hm] at hv
    simp [SignatureCache.getByKey] at hv

/-- The records that `b` is given in the run: by a request, by a local call, and by a lookup of
a local call. -/
inductive Presented (pools : ∀ a, ServerPool (servers a)) (run : List (ClusterEvent servers))
    (b : SocketAddr) : Bytes → Prop
  | heard {peer : SocketAddr} {frame : Frame} {key : NodeId} {value : Bytes}
      (h : Dispatched pools run b peer frame) (hrequest : frame.isRequest = true)
      (hwritten : frame.message.written = some (key, value)) : Presented pools run b value
  | called {now : ℕ} {call : LocalCall} {value : Bytes}
      (h : .acts b (.server (.call now call)) ∈ run) (hwritten : call.written = some value) :
      Presented pools run b value
  | found {pre post : List (ClusterEvent servers)} {d : Cluster servers} {now i : ℕ}
      {replies : ∀ q, Answer (servers b) q} {target : Node} {peers : List Node} {next cont}
      {value : Bytes} (hsplit : run = pre ++ .acts b (.server (.resume now i replies)) :: post)
      (hpre : exec step (start pools) pre = some d)
      (hwaits : (d b).pool.processes[i]? = some (.wait (.valueLookup target peers) next cont))
      (hvalue : (replies (.valueLookup target peers)).outcome.value = some value) :
      Presented pools run b value

theorem hears_presented : Hears (fun _ frame => frame.isRequest = true → ∀ key value,
    frame.message.written = some (key, value) → Presented pools run b value) b (start pools) run :=
  hears_start_iff.mpr fun _ _ h hrequest _ _ hwritten => .heard h hrequest hwritten

theorem ownEvents_presented (hp : (servers b).protocol.Vouches S) :
    OwnEvents (fun _ _ => True) (Presented pools run b) (fun _ => S)
      (fun _ value => S value ∧ Presented pools run b value) (fun _ _ => True) (fun _ _ _ => True)
      b (start pools) run := by
  rintro pre e post d hsplit hpre he rfl
  cases he with
  | background e => cases e <;> simp [Host.Meets]
  | server e =>
      cases e with
      | node e => trivial
      | call now call =>
          have hmem : .acts b (.server (.call now call)) ∈ run := by simp [hsplit]
          have hT : ∀ value, call.written = some value → Presented pools run b value :=
            fun _ hwritten => .called hmem hwritten
          exact ⟨OnlySigned.callAllowed hp hT, hT⟩
      | resume now i replies =>
          intro q next cont hwaits
          cases q with
          | valueLookup target peers =>
              refine ⟨by simp [HistoryMeets], fun value hvalue => ?_⟩
              exact .found hsplit hpre hwaits hvalue
          | _ => simp [AnswersMeet, HistoryMeets]
  | _ => trivial

/-- **Only signed records are stored and handed out.**  A node that started with an empty
store and an empty cache, or none, holds and answers lookups with records that are signed by
their holder or by the issuer, whatever its peers, the local application and anybody who
injects datagrams do.  If there is a cache, no signed record among those the node is given may
have the hash of an unsigned one. -/
theorem records_signed {lib : CryptoLib} {issuerFile : Except String Bytes} {ttl : Int64}
    {cache : Option SignatureCache} {begun : ℕ}
    (hhandler : (servers b).protocol.signatureHandler = didSignatureVerifierHandler lib issuerFile)
    (hcollision : cache.isSome = true → ∀ v w, Presented pools run b v → Presented pools run b w →
      SignatureCache.computeKey (servers b).protocol.hash v =
        SignatureCache.computeKey (servers b).protocol.hash w →
      Signed lib issuerFile v → Signed lib issuerFile w)
    (hstart : pools b = (servers b).start (.new ttl) cache begun) (hcache : ∀ m ∈ cache, m = ∅)
    (hrun : exec step (start pools) run = some c) :
    (∀ key value written, (c b).state.storage.entry key = some (value, written) →
      Signed lib issuerFile value) ∧
    ∀ s ∈ (c b).sends, s.frame.isRequest = false → ∀ value, s.frame.message = .findValueHit value →
      Signed lib issuerFile value := by
  have hp := Signed.vouches hhandler
  have hidle : (pools b).processes = [] := by rw [hstart]; rfl
  have hempty : OnlySigned (servers b).protocol (Presented pools run b) (Signed lib issuerFile)
      (pools b).shared.node := by
    rw [hstart]
    exact onlySigned_start hcollision hcache
  -- the invariant holds after every part of the run
  have hkept : ∀ pre post d, run = pre ++ post → exec step (start pools) pre = some d →
      OnlySigned (servers b).protocol (Presented pools run b) (Signed lib issuerFile)
        (d b).state := by
    intro pre post d hsplit hpre
    have hpart : ∀ P : Cluster servers → ClusterEvent servers → Prop,
        EachStep step P (start pools) run → EachStep step P (start pools) pre := by
      intro P h
      rw [hsplit] at h
      exact h.of_append
    exact kept_exec (OnlySigned.segmentRules hp) (OnlySigned.localRules hp) hidle hempty hpre
      (hears_start_iff.mp (hpart _ hears_presented)) (hpart _ (ownEvents_presented hp))
  constructor
  · intro key value written hentry
    exact ((hkept run [] c (List.append_nil run).symm hrun).stored key _ hentry).1
  · intro s hs hresponse value hvalue
    obtain ⟨pre, e, post, d, d', now, message, hsplit, hpre, hstep, hanswers⟩ :=
      (recorded_exec hrun b).answered s hs hresponse
    have htruthful := hanswers.truthful
    rw [hvalue] at htruthful
    -- the value was in the store when it was handed out
    have hd' : exec step (start pools) (pre ++ [e]) = some d' := by
      rw [exec_concat, hpre]
      exact hstep
    cases htruthful with
    | hit i key value hstored =>
        obtain ⟨written, hentry, -⟩ := ForgetfulStorage.get_eq_some.mp hstored
        exact ((hkept (pre ++ [e]) post d' (by simp [hsplit]) hd').stored _ _ hentry).1

/-! A node with a cache is sent a record and asked for it. -/

open Sample

def cachingPools (_ : SocketAddr) : ServerPool sampleServer :=
  sampleServer.start (.new (-1)) (some ∅) 0

/-- The datagram of a short request. -/
def injected (msgId : UInt32) (message : RpcMessage) : ClusterEvent fun _ => sampleServer :=
  .inject peerAddr keeper (datagram msgId (Frame.codec.write ⟨msgId, true, message⟩) 0) 1 1

def storedAndFound : List (ClusterEvent fun _ => sampleServer) :=
  [injected 0 (.store peerId deviceKey recordA0), .acts keeper (.serve 2 1 0 1),
    injected 1 (.findValue peerId deviceKey), .acts keeper (.serve 3 1 0 1),
    .acts keeper (.serve 3 1 0 1), .acts keeper (.serve 3 1 0 1)]

/-- The only record of the run. -/
theorem presented_storedAndFound {value : Bytes}
    (h : Presented cachingPools storedAndFound keeper value) : value = recordA0 := by
  cases h with
  | @heard peer frame key value h _ hwritten =>
      obtain ⟨pre, e, post, d, hsplit, hpre, data, now, accepted, harrives, hframe⟩ := h
      have hempty : EachStep step (fun d _ => (d keeper).reassembly.entries.length = 0)
          (start cachingPools) storedAndFound := by decide +kernel
      rw [AList.ext (List.length_eq_zero_iff.mp (hempty pre e post d hsplit hpre)) (t := ∅)]
        at hframe
      have hmem : e ∈ storedAndFound := by simp [hsplit]
      have hstore : (receiveFrame bincode 1 ∅ peerAddr (datagram 0
          (Frame.codec.write ⟨0, true, .store peerId deviceKey recordA0⟩) 0)).1 =
            some ⟨0, true, .store peerId deviceKey recordA0⟩ := by decide +kernel
      have hfind : (receiveFrame bincode 1 ∅ peerAddr (datagram 1
          (Frame.codec.write ⟨1, true, .findValue peerId deviceKey⟩) 0)).1 =
            some ⟨1, true, .findValue peerId deviceKey⟩ := by decide +kernel
      simp only [storedAndFound, injected, List.mem_cons, List.not_mem_nil, or_false] at hmem
      rcases hmem with rfl | rfl | rfl | rfl | rfl | rfl <;> cases harrives
      · cases hstore.symm.trans hframe
        cases hwritten
        rfl
      · cases hfind.symm.trans hframe
        cases hwritten
  | called h _ => simp [storedAndFound, injected] at h
  | @found pre post d now i replies _ _ _ _ _ hsplit _ _ _ =>
      have hmem : .acts keeper (.server (.resume now i replies)) ∈ storedAndFound := by
        simp [hsplit]
      simp [storedAndFound, injected] at hmem

theorem records_signed_storedAndFound :
    ∃ c, exec step (start cachingPools) storedAndFound = some c ∧
      (c keeper).state.storage.entry deviceKey.bytes = some (recordA0, 2) ∧
      (c keeper).sends.map (fun s => s.frame.message) =
        [.storeResult true, .findValueHit recordA0] ∧
      ∀ key value written, (c keeper).state.storage.entry key = some (value, written) →
        Signed sampleLib (.ok issuerKey) value := by
  have hend : (exec step (start cachingPools) storedAndFound).map (fun c =>
      ((c keeper).state.storage.entry deviceKey.bytes,
        (c keeper).sends.map (fun s => s.frame.message))) =
      some (some (recordA0, 2), [.storeResult true, .findValueHit recordA0]) := by decide +kernel
  obtain ⟨c, hrun, hc⟩ := Option.map_eq_some_iff.mp hend
  obtain ⟨hentry, hsends⟩ := Prod.mk.inj hc
  refine ⟨c, hrun, hentry, hsends, (records_signed rfl ?_ rfl ?_ hrun).1⟩
  · intro _ v w hv hw _
    rw [presented_storedAndFound hv, presented_storedAndFound hw]
    exact id
  · simp

end Cluster

end AuthKademlia
