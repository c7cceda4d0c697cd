import AuthKademlia.Bans

/-!
# What an answer says

A handler is suspended between its segments and others change the node meanwhile.  An
answer is therefore no statement about the node while the request was handled, only about
one moment: the segment in which the handler returned.  `Truthful` says what each answer
means in terms of the states before and after that segment, and `advance_proper` that every
handler, however it is interrupted, ends with such an answer.

## Main definitions

* `Serves` — the points at which the handler of a message can be suspended.
* `Truthful` — an answer that agrees with the node.
* `Proper` — a segment that goes on to such a point or returns such an answer.
-/

namespace AuthKademlia

open Protocol

/-- The handler of the message of `peer` can be suspended here. -/
inductive Serves (peer : SocketAddr) : RpcMessage → Point → Prop
  | verifying (i key : NodeId) (value : Bytes) :
      Serves peer (.store i key value) (.verifying i peer key value)
  | banning (i key : NodeId) (value : Bytes) (strikes : UInt32) :
      Serves peer (.store i key value) (.banning (source i peer) strikes)
  | update (i key : NodeId) (value sig old : Bytes) :
      Serves peer (.update i key value sig) (.checking ⟨i, peer, .update key value sig⟩ old)
  | updateStatusList (i key : NodeId) (value old : Bytes) :
      Serves peer (.updateStatusList i key value)
        (.checking ⟨i, peer, .updateStatusList key value⟩ old)
  | delete (i key : NodeId) (sig msg old : Bytes) :
      Serves peer (.delete i key sig msg) (.checking ⟨i, peer, .delete key sig msg⟩ old)
  | searching (i key : NodeId) :
      Serves peer (.findNode i key) (.searching (source i peer) key)
  | greeting (i key : NodeId) :
      Serves peer (.findValue i key) (.greeting (source i peer) (some key))
  | sampling (i key : NodeId) (entries : List (Bytes × Bytes)) :
      Serves peer (.findValue i key) (.sampling (source i peer) (some key) entries)
  | adding (i key : NodeId) (keys : List (NodeId × Bytes)) :
      Serves peer (.findValue i key) (.adding (source i peer) (some key) keys)
  | lookingUp (i key : NodeId) :
      Serves peer (.findValue i key) (.lookingUp (source i peer) key)
  | leaving (i : NodeId) : Serves peer (.leave i) (.leaving (source i peer))

/-- The nodes a lookup of `key` is answered with. -/
def neighborsFor (now : ℕ) (key i : NodeId) (peer : SocketAddr) (s : NodeState) : List WireNode :=
  (s.router.findNeighbors now (Node.fromId key) (some (source i peer))).1.map WireNode.ofNode

/-- An answer to a message of `peer`, with the states before and after the segment that
returned it. -/
inductive Truthful (p : Protocol) (peer : SocketAddr) (now : ℕ) (s s' : NodeState) :
    RpcMessage → RpcMessage → Prop
  | pong (i : NodeId) : Truthful p peer now s s' (.ping i) (.pong p.sourceNode.id)
  | stored (i key : NodeId) (value : Bytes) (h : s'.record key = some (value, now)) :
      Truthful p peer now s s' (.store i key value) (.storeResult true)
  | notStored (i key : NodeId) (value : Bytes) (h : s'.storage = s.storage) :
      Truthful p peer now s s' (.store i key value) (.storeResult false)
  | updated (i key : NodeId) (value sig : Bytes) (h : s'.record key = some (value, now)) :
      Truthful p peer now s s' (.update i key value sig) (.updateResult true)
  | notUpdated (i key : NodeId) (value sig : Bytes) (h : s'.storage = s.storage) :
      Truthful p peer now s s' (.update i key value sig) (.updateResult false)
  | listUpdated (i key : NodeId) (value : Bytes) (h : s'.record key = some (value, now)) :
      Truthful p peer now s s' (.updateStatusList i key value) (.updateStatusListResult true)
  | listNotUpdated (i key : NodeId) (value : Bytes) (h : s'.storage = s.storage) :
      Truthful p peer now s s' (.updateStatusList i key value) (.updateStatusListResult false)
  | deleted (i key : NodeId) (sig msg : Bytes) (h : s'.record key = none) :
      Truthful p peer now s s' (.delete i key sig msg) (.deleteResult true)
  | notDeleted (i key : NodeId) (sig msg : Bytes) (h : s'.storage = s.storage) :
      Truthful p peer now s s' (.delete i key sig msg) (.deleteResult false)
  | neighbors (i key : NodeId) :
      Truthful p peer now s s' (.findNode i key) (.findNodeResult (neighborsFor now key i peer s))
  | hit (i key : NodeId) (value : Bytes) (h : s'.stored now key = some value) :
      Truthful p peer now s s' (.findValue i key) (.findValueHit value)
  | miss (i key : NodeId) :
      Truthful p peer now s s' (.findValue i key) (.findValueNodes (neighborsFor now key i peer s))

/-- The segment leads to a point of the handler, or returns a truthful answer. -/
def Proper (p : Protocol) (peer : SocketAddr) (now : ℕ) (s : NodeState) (msg : RpcMessage)
    (r : Progress × NodeState) : Prop :=
  match r.1 with
  | .waits point => Serves peer msg point
  | .returns answer => ∀ a ∈ answer, Truthful p peer now s r.2 msg a

section Proper

variable {p : Protocol} {peer : SocketAddr} {now fuel : ℕ} {s : NodeState}

/-- A segment that changes nothing but the cache before it acts. -/
theorem storeVerified_proper (i key : NodeId) (value : Bytes) (valid : Bool) {t : NodeState}
    (ht : t.storage = s.storage) :
    Proper p peer now s (.store i key value) (storeVerified now i peer key value valid t) := by
  cases valid with
  | false =>
      simp only [storeVerified, Bool.not_false, if_true]
      split
      · exact .banning i key value _
      · rintro a ⟨⟩
        exact .notStored i key value ht
  | true =>
      simp only [storeVerified, Bool.not_true, Bool.false_eq_true, if_false]
      rw [ForgetfulStorage.insertIfAbsent_eq]
      split
      · rintro a ⟨⟩
        exact .stored i key value ForgetfulStorage.entry_set_self
      · rintro a ⟨⟩
        exact .notStored i key value ht

/-- A writing handler up to its await: it refuses, or waits for the verification. -/
theorem beginWrite_proper {q : WriteRequest} {msg : RpcMessage}
    (hwait : ∀ old, Serves peer msg (.checking q old))
    (hrefuse : ∀ s', s'.storage = s.storage → Truthful p peer now s s' msg (q.op.answer false)) :
    Proper p peer now s msg (beginWrite now q s) := by
  unfold beginWrite
  split
  · rintro a ⟨⟩
    exact hrefuse s rfl
  · exact hwait _

/-- **The first segment of a handler.** -/
theorem beginRequest_proper (msg : RpcMessage) :
    Proper p peer now s msg (p.beginRequest now msg peer s) := by
  cases msg with
  | ping i =>
      rintro a ⟨⟩
      exact .pong i
  | store i key value =>
      unfold beginRequest
      dsimp only
      split
      · exact storeVerified_proper i key value _ rfl
      · exact .verifying i key value
  | update i key value sig =>
      exact beginWrite_proper (.update i key value sig) fun _ => .notUpdated i key value sig
  | updateStatusList i key value =>
      exact beginWrite_proper (.updateStatusList i key value) fun _ => .listNotUpdated i key value
  | delete i key sig del =>
      exact beginWrite_proper (.delete i key sig del) fun _ => .notDeleted i key sig del
  | findNode i key => exact .searching i key
  | findValue i key => exact .greeting i key
  | leave i => exact .leaving i
  | _ => exact fun a ha => nomatch ha

/-- The end of a welcome in `rpc_find_value`. -/
theorem afterWelcome_proper (i key : NodeId) (t : NodeState) :
    Proper p peer now s (.findValue i key) (afterWelcome now (source i peer) (some key) t) := by
  simp only [afterWelcome]
  split
  · rename_i value hvalue
    rintro a ⟨⟩
    exact .hit i key value hvalue
  · exact .lookingUp i key

/-- A writing handler after its await. -/
theorem checking_proper {q : WriteRequest} {msg : RpcMessage} {old : Bytes} {result : CallResult}
    {r : Progress × NodeState} (hop : (q.writeStep now s).1 = true)
    (hrefuse : ∀ s', s'.storage = s.storage → Truthful p peer now s s' msg (q.op.answer false))
    (hwrite : Truthful p peer now s (q.writeStep now s).2 msg (q.op.answer true))
    (h : p.advance now fuel result s (.checking q old) = some r) : Proper p peer now s msg r := by
  simp only [advance] at h
  split at h
  · cases h
    rintro a ⟨⟩
    exact hrefuse s rfl
  · cases h
    rintro a ⟨⟩
    rw [hop]
    exact hwrite

/-- **Every later segment of a handler.** -/
theorem advance_proper {msg : RpcMessage} {point : Point} {result : CallResult}
    {r : Progress × NodeState} (hserves : Serves peer msg point)
    (h : p.advance now fuel result s point = some r) : Proper p peer now s msg r := by
  cases hserves with
  | verifying i key value =>
      obtain ⟨cache, hcache⟩ := @verifyDirectly_state p s key value
      simp only [advance, Option.some.injEq] at h
      subst h
      apply storeVerified_proper
      rw [hcache]
  | banning i key value strikes =>
      cases h
      rintro a ⟨⟩
      exact .notStored i key value rfl
  | update i key value sig old =>
      refine checking_proper rfl (fun _ => .notUpdated i key value sig) ?_ h
      exact .updated i key value sig ForgetfulStorage.entry_set_self
  | updateStatusList i key value old =>
      refine checking_proper rfl (fun _ => .listNotUpdated i key value) ?_ h
      exact .listUpdated i key value ForgetfulStorage.entry_set_self
  | delete i key sig del old =>
      refine checking_proper rfl (fun _ => .notDeleted i key sig del) ?_ h
      exact .deleted i key sig del ForgetfulStorage.entry_delete_self
  | searching i key =>
      cases h
      rintro a ⟨⟩
      exact .neighbors i key
  | greeting i key =>
      simp only [advance] at h
      split at h
      · cases h
        exact afterWelcome_proper i key s
      · cases h
        exact .sampling i key _
  | sampling i key entries =>
      cases h
      exact .adding i key _
  | adding i key keys =>
      obtain ⟨⟨lru, router⟩, -, rfl⟩ := Option.map_eq_some_iff.mp h
      exact afterWelcome_proper i key _
  | lookingUp i key =>
      cases h
      rintro a ⟨⟩
      exact .miss i key
  | leaving i =>
      cases h
      rintro a ⟨⟩

end Proper

end AuthKademlia
