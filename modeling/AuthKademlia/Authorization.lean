import AuthKademlia.Custody

/-!
# What a signature authorises

Three ways in which the checks of the handlers are looser than the operations they guard.

* `rpc_update_status_list` checks the issuer's signature over the new value but not that
  the key is the status list's.  An issuer-signed value therefore replaces any record
  (`updateStatusList_confined_iff`).
* `rpc_delete` accepts any signed message as a deletion message.  The signature and the
  document inside a record are such a pair, so a record carries its own deletion
  (`own_signature_deletes`).
* `rpc_update` has no notion of version.  An update that was accepted once is accepted
  again as long as the stored record has the same key (`replay_harmless_iff`).
-/

namespace AuthKademlia

open Lib Protocol

variable {p : Protocol} {now fuel : ℕ} {senderId key : NodeId} {peer : SocketAddr}
  {s s' : NodeState} {answer : Option RpcMessage}

/-! ## Status-list updates -/

/-- **When a status-list update is confined to the status list.**  Every other key keeps
its entry exactly if the request is about the status list, or the key holds nothing, or
the issuer did not sign the value, or the entry is already the one written. -/
theorem updateStatusList_confined_iff {value : Bytes}
    (h : p.dispatchRequest now fuel (.updateStatusList senderId key value) peer s =
      some (answer, s')) :
    (∀ key', key' ≠ digest p.hash statusListKey → s'.record key' = s.record key') ↔
      (key = digest p.hash statusListKey ∨ s.stored now key = none ∨
        p.signatureHandler.handleIssuerNodeSignatureVerification value ≠ .ok true ∨
        s.record key = some (value, now)) := by
  have hst := dispatchRequest_storage h
  have hacc := dispatchRequest_accepted_iff h
  simp only [Accepts, ← Option.ne_none_iff_exists'] at hacc
  by_cases hok : answer.any RpcMessage.isAccept = true
  · obtain ⟨hlive, hissuer⟩ := hacc.mp hok
    rw [if_pos hok] at hst
    have hself : s'.record key = some (value, now) := by
      rw [NodeState.record, hst]
      exact ForgetfulStorage.entry_set_self
    simp only [hlive, hissuer, ne_eq, not_true_eq_false, false_or]
    constructor
    · intro hframe
      by_cases hkey : key = digest p.hash statusListKey
      · exact Or.inl hkey
      · exact Or.inr ((hframe key hkey).symm.trans hself)
    · intro hcond key' hkey'
      by_cases heq : key' = key
      · rw [heq] at hkey' ⊢
        rcases hcond with hkey | hsame
        · exact absurd hkey hkey'
        · exact hself.trans hsame.symm
      · have htarget : (RpcMessage.updateStatusList senderId key value).target ≠ some key' :=
          fun h => heq (Option.some.inj h).symm
        rw [NodeState.record, hst, RpcMessage.entry_applyTo_ne htarget]
        rfl
  · rw [if_neg hok] at hst
    have hrefused := mt hacc.mpr hok
    constructor
    · intro _
      by_cases hlive : s.stored now key = none
      · exact Or.inr (Or.inl hlive)
      · exact Or.inr (Or.inr (Or.inl fun hissuer => hrefused ⟨hlive, hissuer⟩))
    · intro _ key' _
      rw [NodeState.record, hst]
      rfl

open Sample

/-- The issuer's status list, sent for an ordinary key, replaces the record there. -/
theorem status_list_replaces_record :
    deviceKey ≠ digest sampleHash statusListKey ∧
    (exec sampleProtocol.step (sampleProtocol.start 20 (.new (-1)) none 0)
        [.request 0 1 (.store peerId deviceKey recordA0) peerAddr]).map
      (fun r => r.state.record deviceKey) = some (some (recordA0, 0)) ∧
    (exec sampleProtocol.step (sampleProtocol.start 20 (.new (-1)) none 0)
        [.request 0 1 (.store peerId deviceKey recordA0) peerAddr,
          .request 1 1 (.updateStatusList peerId deviceKey statusRecord) peerAddr]).map
      (fun r => (r.answer, r.state.record deviceKey)) =
        some (some (.updateStatusListResult true), some (statusRecord, 1)) := by
  decide +kernel

namespace Sample

/-- A node that holds one record, written at time zero. -/
def holding (key : NodeId) (value : Bytes) : NodeState :=
  sampleProtocol.new 20 ⟨AList.singleton key.bytes (value, 0), -1⟩ none 0

end Sample

/-- A status-list update of the status list itself. -/
theorem updateStatusList_confined_sample :
    ∃ s' answer, sampleProtocol.dispatchRequest 1 1
        (.updateStatusList peerId statusKey statusRecord) peerAddr
        (holding statusKey statusRecord) = some (answer, s') ∧
      ∀ key', key' ≠ digest sampleHash statusListKey →
        s'.record key' = (holding statusKey statusRecord).record key' := by
  obtain ⟨⟨answer, s'⟩, h⟩ : ∃ result, sampleProtocol.dispatchRequest 1 1
      (.updateStatusList peerId statusKey statusRecord) peerAddr
      (holding statusKey statusRecord) = some result := ⟨_, rfl⟩
  have hkey : statusKey = digest sampleProtocol.hash statusListKey := by decide +kernel
  exact ⟨s', answer, h, (updateStatusList_confined_iff h).mpr (Or.inl hkey)⟩

/-! ## Deletions -/

/-- Signatures cannot be forged: what verifies under a key was signed by its holder. -/
def Unforgeable (lib : CryptoLib) (signed : Bytes → Set Bytes) : Prop :=
  ∀ (verifier : Verifier) (pubKey signature message : Bytes),
    verifier.verify lib pubKey signature message = .ok true → message ∈ signed pubKey

/-- Every deletion of `key` is refused and `value` stays. -/
def DeletionsRefused (p : Protocol) (now : ℕ) (s : NodeState) (key : NodeId) (value : Bytes) :
    Prop :=
  ∀ fuel senderId authSignature deleteMsg peer answer s',
    p.dispatchRequest now fuel (.delete senderId key authSignature deleteMsg) peer s =
      some (answer, s') →
    answer = some (.deleteResult false) ∧ s'.stored now key = some value

/-- A deletion that passes the handler's check is carried out, whoever sends it. -/
theorem dispatchRequest_delete_accepted {value authSignature deleteMsg : Bytes}
    (hstored : s.stored now key = some value)
    (hok : p.signatureHandler.handleSignatureDeleteOperation value authSignature deleteMsg =
      .ok true) (fuel : ℕ) (senderId : NodeId) (peer : SocketAddr) :
    ∃ s', p.dispatchRequest now fuel (.delete senderId key authSignature deleteMsg) peer s =
        some (some (.deleteResult true), s') ∧ s'.stored now key = none := by
  obtain ⟨hiff, hst⟩ := @rpcDelete_spec p now senderId key peer authSignature deleteMsg s
  have haccepted := hiff.mpr ⟨value, hstored, hok⟩
  rw [if_pos haccepted] at hst
  refine ⟨(p.rpcDelete now senderId peer key authSignature deleteMsg s).2, ?_, ?_⟩
  · rw [← haccepted]
    rfl
  · rw [NodeState.stored, hst]
    exact ForgetfulStorage.get_delete_self

/-- **A record carries its own deletion.**  Take any accepted record that is stored, in a
world where signatures cannot be forged and the holder of its key has signed nothing but
the document inside it.  Then that document is all the holder has signed, and still not
every deletion is refused: the record's own signature and document make one up. -/
theorem own_signature_deletes {sourceNode : Node} {hash : HashLib} {lib : CryptoLib}
    {issuerFile : Except String Bytes} {signed : Bytes → Set Bytes}
    {value signature document pubKey : Bytes} {alg : String}
    (hunforgeable : Unforgeable lib signed)
    (haccepted : (didSignatureVerifierHandler lib issuerFile).handleSignatureVerification value =
      .ok true)
    (hsplit : splitRecord lib value = .ok (signature, document))
    (hholder : holder lib value = .ok (alg, pubKey))
    (honly : ∀ message ∈ signed pubKey, message = document)
    (hstored : s.stored now key = some value) :
    signed pubKey = {document} ∧
      ¬DeletionsRefused (didProtocol sourceNode hash lib issuerFile) now s key value := by
  obtain ⟨signature', document', hsplit', hverifies⟩ := verifySelfSigned_eq_ok_true.mp haccepted
  obtain ⟨rfl, rfl⟩ := Prod.mk.inj (Except.ok.inj (hsplit.symm.trans hsplit'))
  constructor
  · obtain ⟨alg', pubKey', verifier, hholder', -, hok⟩ := hverifies
    obtain ⟨rfl, rfl⟩ := Prod.mk.inj (Except.ok.inj (hholder.symm.trans hholder'))
    exact Set.eq_singleton_iff_unique_mem.mpr ⟨hunforgeable _ _ _ _ hok, honly⟩
  · intro hrefused
    obtain ⟨s', hdelete, -⟩ := @dispatchRequest_delete_accepted
      (didProtocol sourceNode hash lib issuerFile) now key s value signature document hstored
      (deleteOperation_eq_ok_true.mpr hverifies) 0 key ⟨"127.0.0.1", 0⟩
    obtain ⟨hanswer, -⟩ := hrefused _ _ _ _ _ _ _ hdelete
    cases hanswer

namespace Sample

/-- What the holders have signed: the messages of the genuine signatures. -/
def signedBy (pubKey : Bytes) : Set Bytes := {m | ∃ sig, (pubKey, m, sig) ∈ valid}

theorem unforgeable_sampleLib : Unforgeable sampleLib signedBy := by
  intro verifier pubKey signature message hok
  cases verifier with
  | rsa =>
      obtain ⟨pk, hpk, -⟩ := bind_eq_ok.mp hok
      obtain ⟨pem, -, hpem⟩ := bind_eq_ok.mp hpk
      cases hpem
  | ed25519 =>
      simp only [Verifier.verify, verifyEd25519] at hok
      split at hok
      · cases hok
      · split at hok
        · cases hok
        · obtain ⟨key, hkey, hverify⟩ := bind_eq_ok.mp hok
          rw [mapError_eq_ok] at hkey
          simp only [sampleLib] at hkey
          split at hkey
          · obtain rfl := Except.ok.inj hkey
            have hmem : sampleLib.ed25519Verify pubKey message signature = true :=
              Except.ok.inj hverify
            exact ⟨signature, of_decide_eq_true hmem⟩
          · cases hkey
  | dilithium =>
      have hnone : ∀ level, verifyDilithiumAt level sampleLib pubKey signature message =
          .error (.invalidKeyLength pubKey.length) := fun _ => rfl
      simp only [Verifier.verify, verifyDilithium, verifyD2, verifyD3, verifyD5, hnone] at hok
      split at hok
      · cases hok
      · split at hok
        · cases hok
        · split at hok <;> cases hok

theorem signed_only_recordB : ∀ message ∈ signedBy keyB, message = didDoc xBytesB 3 := by
  have hall : ∀ e ∈ valid, e.1 = keyB → e.2.1 = didDoc xBytesB 3 := by decide +kernel
  rintro message ⟨sig, hmem⟩
  exact hall _ hmem rfl

theorem recordB_accepted : sampleHandler.handleSignatureVerification recordB = .ok true := by
  decide +kernel

theorem splitRecord_recordB : splitRecord sampleLib recordB = .ok (sigB, didDoc xBytesB 3) := by
  decide +kernel

theorem holder_recordB : holder sampleLib recordB = .ok ("Ed25519", keyB) := by
  decide +kernel

theorem stored_recordB : (holding deviceKey recordB).stored 1 deviceKey = some recordB := by
  decide +kernel

end Sample

/-- Signatures cannot be forged, and holder B has signed one document and nothing else.
The signature and the document in B's record, sent as a deletion, remove it. -/
theorem public_bytes_delete_record :
    deviceKey ≠ digest sampleHash statusListKey ∧ Unforgeable sampleLib signedBy ∧
    sampleHandler.handleSignatureVerification recordB = .ok true ∧
    holder sampleLib recordB = .ok ("Ed25519", keyB) ∧
    splitRecord sampleLib recordB = .ok (sigB, didDoc xBytesB 3) ∧
    signedBy keyB = {didDoc xBytesB 3} ∧
    (holding deviceKey recordB).stored 1 deviceKey = some recordB ∧
    (sampleProtocol.dispatchRequest 1 1 (.delete peerId deviceKey sigB (didDoc xBytesB 3)) peerAddr
      (holding deviceKey recordB)).map (fun (answer, s) => (answer, s.stored 1 deviceKey)) =
        some (some (.deleteResult true), none) := by
  have hsigned : signedBy keyB = {didDoc xBytesB 3} :=
    Set.eq_singleton_iff_unique_mem.mpr ⟨⟨sigB, by decide +kernel⟩, signed_only_recordB⟩
  exact ⟨by decide +kernel, unforgeable_sampleLib, recordB_accepted, holder_recordB,
    splitRecord_recordB, hsigned, stored_recordB, by decide +kernel⟩

/-- In the same world the general statement applies to B's record. -/
theorem own_signature_deletes_sample :
    signedBy keyB = {didDoc xBytesB 3} ∧
      ¬DeletionsRefused sampleProtocol 1 (holding deviceKey recordB) deviceKey recordB :=
  own_signature_deletes unforgeable_sampleLib recordB_accepted splitRecord_recordB holder_recordB
    signed_only_recordB stored_recordB

/-! ## Replayed updates -/

/-- A run in which the update of `key` to `value` was accepted, and a later one replaced
`value` by another value. -/
inductive ReplacedUpdate (p : Protocol) (init : Snapshot) (key : NodeId)
    (value authSignature : Bytes) : Snapshot → Prop
  | intro {pre mid post r₁ r₂ r₃ r₄ r₅ now₁ fuel₁ senderId₁ peer₁ now₂ fuel₂ senderId₂ peer₂
        value₂ authSignature₂}
      (before : exec p.step init pre = some r₁)
      (first : p.step r₁ (.request now₁ fuel₁ (.update senderId₁ key value authSignature) peer₁) =
        some r₂)
      (first_ok : r₂.answer = some (.updateResult true))
      (between : exec p.step r₂ mid = some r₃)
      (held : r₃.state.stored now₂ key = some value)
      (second : p.step r₃
        (.request now₂ fuel₂ (.update senderId₂ key value₂ authSignature₂) peer₂) = some r₄)
      (second_ok : r₄.answer = some (.updateResult true))
      (replaced : value₂ ≠ value)
      (after : exec p.step r₄ post = some r₅) :
      ReplacedUpdate p init key value authSignature r₅

/-- The value of an accepted update is self-signed. -/
theorem selfSigned_of_accepted {sourceNode : Node} {hash : HashLib} {lib : CryptoLib}
    {issuerFile : Except String Bytes} {value authSignature : Bytes} {r r' : Snapshot}
    (h : (didProtocol sourceNode hash lib issuerFile).step r
      (.request now fuel (.update senderId key value authSignature) peer) = some r')
    (hok : r'.answer = some (.updateResult true)) : verifySelfSigned lib value = .ok true := by
  have haccepted := dispatchRequest_accepted_iff (step_request.mp h)
  rw [hok] at haccepted
  obtain ⟨old, -, hcheck⟩ := haccepted.mp rfl
  exact (verifyKeyRotation_eq_ok_true.mp hcheck).2

/-- **When a replayed update has no effect.**  After a run in which an update was
accepted and its value later replaced, sending the update again leaves the stored record
as it is if and only if the stored record is the update's own value again, or the
authorising signature does not verify under the key and algorithm of the stored
record. -/
theorem replay_harmless_iff {sourceNode : Node} {hash : HashLib} {lib : CryptoLib}
    {issuerFile : Except String Bytes} {ksize begun : ℕ} {ttl : Int64}
    {sigCache : Option SignatureCache} {value authSignature : Bytes} {r r' : Snapshot}
    (h : ReplacedUpdate (didProtocol sourceNode hash lib issuerFile)
      ((didProtocol sourceNode hash lib issuerFile).start ksize (.new ttl) sigCache begun)
      key value authSignature r)
    (hreplay : (didProtocol sourceNode hash lib issuerFile).step r
      (.request now fuel (.update senderId key value authSignature) peer) = some r') :
    r'.state.stored now key = r.state.stored now key ↔
      ∀ current, r.state.stored now key = some current →
        current = value ∨ ¬VerifiesUnder lib current authSignature value := by
  obtain ⟨-, first, first_ok, -, -, -, -, -, -⟩ := h
  have hself := selfSigned_of_accepted first first_ok
  have hst := dispatchRequest_storage (step_request.mp hreplay)
  have hacc := dispatchRequest_accepted_iff (step_request.mp hreplay)
  by_cases hok : r'.answer.any RpcMessage.isAccept = true
  · obtain ⟨current, hcurrent, hcheck⟩ := hacc.mp hok
    have hauth := (verifyKeyRotation_eq_ok_true.mp hcheck).1
    rw [if_pos hok] at hst
    have hnew : r'.state.stored now key = some value := by
      rw [NodeState.stored, hst]
      exact ForgetfulStorage.get_set_self
    simp only [hnew, hcurrent, Option.some.injEq, forall_eq', hauth, not_true_eq_false, or_false]
    exact eq_comm
  · rw [if_neg hok] at hst
    have hsame : r'.state.stored now key = r.state.stored now key := by
      rw [NodeState.stored, hst]
      rfl
    refine ⟨fun _ current hcurrent => Or.inr fun hauth => hok (hacc.mpr ?_), fun _ => hsame⟩
    exact ⟨current, hcurrent, verifyKeyRotation_eq_ok_true.mpr ⟨hauth, hself⟩⟩

namespace Sample

def initial : Snapshot := sampleProtocol.start 20 (.new (-1)) none 0

/-- The record is stored and updated to version one. -/
def toVersionOne : List NodeEvent :=
  [.request 0 1 (.store peerId deviceKey recordA0) peerAddr,
    .request 1 1 (.update peerId deviceKey recordA1 authA1) peerAddr]

/-- The update to version one, as it was sent the first time. -/
def replay : NodeEvent := .request 3 1 (.update peerId deviceKey recordA1 authA1) peerAddr

/-- Any accepted update of version one, after `toVersionOne`, replaces its value. -/
theorem replacedUpdate_of_accepted {value authSignature : Bytes} {r : Snapshot}
    (h : exec sampleProtocol.step initial (toVersionOne ++
      [.request 2 1 (.update peerId deviceKey value authSignature) peerAddr]) = some r)
    (hok : r.answer = some (.updateResult true)) (hne : value ≠ recordA1) :
    ReplacedUpdate sampleProtocol initial deviceKey recordA1 authA1 r := by
  obtain ⟨r₂, h₂, hsecond⟩ := exec_concat_eq_some h
  obtain ⟨r₁, h₁, hfirst⟩ : ∃ r₁, exec sampleProtocol.step initial
        [.request 0 1 (.store peerId deviceKey recordA0) peerAddr] = some r₁ ∧
      sampleProtocol.step r₁ (.request 1 1 (.update peerId deviceKey recordA1 authA1) peerAddr) =
        some r₂ := exec_concat_eq_some h₂
  have hrun : (exec sampleProtocol.step initial toVersionOne).map
      (fun r => (r.answer, r.state.stored 2 deviceKey)) =
        some (some (.updateResult true), some recordA1) := by decide +kernel
  rw [h₂, Option.map_some, Option.some.injEq, Prod.mk.injEq] at hrun
  exact .intro h₁ hfirst hrun.1 (exec_nil _ _) hrun.2 hsecond hok hne (exec_nil _ _)

end Sample

/-- Holder A edits the document twice and keeps the key.  Replaying the first edit then
brings version one back. -/
theorem replay_restores_old_version :
    ∃ r r', ReplacedUpdate sampleProtocol initial deviceKey recordA1 authA1 r ∧
      sampleProtocol.step r replay = some r' ∧
      r.state.stored 3 deviceKey = some recordA2 ∧ r'.state.stored 3 deviceKey = some recordA1 := by
  have hrun : (exec sampleProtocol.step initial (toVersionOne ++
      [.request 2 1 (.update peerId deviceKey recordA2 authA2) peerAddr])).map
      (fun r => (r.answer, r.state.stored 3 deviceKey,
        (sampleProtocol.step r replay).map fun r' => r'.state.stored 3 deviceKey)) =
        some (some (.updateResult true), some recordA2, some (some recordA1)) := by
    decide +kernel
  obtain ⟨r, hr, heq⟩ := Option.map_eq_some_iff.mp hrun
  simp only [Prod.mk.injEq] at heq
  obtain ⟨hok, hstored, hnext⟩ := heq
  obtain ⟨r', hr', hstored'⟩ := Option.map_eq_some_iff.mp hnext
  exact ⟨r, r', replacedUpdate_of_accepted hr hok (by decide +kernel), hr', hstored, hstored'⟩

/-- After a rotation to holder B's key the same replay is refused. -/
theorem replay_harmless_after_rotation :
    ∃ r r', ReplacedUpdate sampleProtocol initial deviceKey recordA1 authA1 r ∧
      sampleProtocol.step r replay = some r' ∧
      r'.state.stored 3 deviceKey = r.state.stored 3 deviceKey := by
  have hrun : (exec sampleProtocol.step initial (toVersionOne ++
      [.request 2 1 (.update peerId deviceKey recordB authB) peerAddr])).map
      (fun r => (r.answer, r.state.stored 3 deviceKey,
        (sampleProtocol.step r replay).isSome)) =
        some (some (.updateResult true), some recordB, true) := by
    decide +kernel
  obtain ⟨r, hr, heq⟩ := Option.map_eq_some_iff.mp hrun
  simp only [Prod.mk.injEq] at heq
  obtain ⟨hok, hstored, hnext⟩ := heq
  obtain ⟨r', hr'⟩ := Option.isSome_iff_exists.mp hnext
  have hupdate := replacedUpdate_of_accepted hr hok (by decide +kernel)
  have hrefused : ¬VerifiesUnder sampleLib recordB authA1 recordA1 := by
    rw [← deleteOperation_eq_ok_true]
    decide +kernel
  refine ⟨r, r', hupdate, hr', (replay_harmless_iff hupdate hr').mpr fun current hcurrent => ?_⟩
  obtain rfl : recordB = current := Option.some.inj (hstored.symm.trans hcurrent)
  exact Or.inr hrefused

end AuthKademlia
