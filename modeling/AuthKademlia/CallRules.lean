import AuthKademlia.RequestEffects
import AuthKademlia.Server

/-!
# How the calls of a server are built

Whatever is to be proved about every call of a server is proved about the few parts the calls
are built from, and about sequencing.  `CallRules J` says that a judgement `J` on processes
obeys these rules, and then it holds of every call (`CallRules.process`): the calls are
unfolded here and nowhere else.

A judgement also says something about results: `J post m`.  The rules have conditions on what
is presented for verification (`T`), what passes it (`V`), and what is written (`W`), deleted
(`D`) and sent in a `Store` (`S`), and these are handed from the checks of a call to its writes.

## Main definitions

* `Server.CallRules` — the rules.
* `Server.CallAllowed` — what a call has to meet before it is made.
-/

namespace AuthKademlia

open Lib Protocol

/-- The record a call publishes. -/
def LocalCall.written : LocalCall → Option Bytes
  | .set _ value | .update _ value _ => some value
  | .get _ | .delete _ _ _ | .refresh => none

namespace Server

/-- The judgement holds of the parts of the calls: of a verification of records with `T`, which
are those that are stored and found, that lets through only what has `V`, of writes of records
with `W` and deletions of keys with `D`, and of `Store` requests for records with `S`. -/
structure CallRules (sv : Server) (J : ∀ {α : Type}, (α → Prop) → ServerProcess sv α → Prop)
    (T : Bytes → Prop) (V : String → Bytes → Prop) (W S : NodeId → Bytes → Prop)
    (D : NodeId → Prop) : Prop where
  pure : ∀ {α : Type} {post : α → Prop} {a : α}, post a → J post (pure a)
  bind : ∀ {α β : Type} {post : α → Prop} {post' : β → Prop} {m : ServerProcess sv α}
    {f : α → ServerProcess sv β}, J post m → (∀ a, post a → J post' (f a)) → J post' (m >>= f)
  yield : J (fun _ => True) sv.yield
  storageGet : ∀ key, J (fun found => ∀ v, found = some v → T v) (sv.storageGet key)
  findNeighbors : ∀ target, J (fun _ => True) (sv.findNeighbors target)
  verifyValue : ∀ key {value}, T value →
    J (fun ok => ok = true → V key value) (sv.verifyValue key value)
  storageSet : ∀ {key value}, W key value → J (fun _ => True) (sv.storageSet key value)
  storageDelete : ∀ {key}, D key → J (fun _ => True) (sv.storageDelete key)
  callAll : ∀ {requests : List (Node × RpcMessage)},
    (∀ peer senderId key value, (peer, .store senderId key value) ∈ requests → S key value) →
    J (fun _ => True) (sv.callAll requests)
  valueLookup : ∀ target peers,
    J (fun outcome => ∀ v, outcome.value = some v → T v) (sv.valueLookup target peers)
  nodeLookup : ∀ target peers, J (fun _ => True) (sv.nodeLookup target peers)
  refreshIds : J (fun _ => True) (Process.ask Question.refreshIds : ServerProcess sv (List NodeId))
  oldEntries : J (fun entries => ∀ (key : NodeId) value, (key.bytes, value) ∈ entries → S key value)
    (Process.lift fun s => (s.node.storage.iterOlderThan s.now 3600, s))

/-- What a call has to meet before it is made: a value that passes the check of `set` may be
written and sent, and one that passes the check of `update` may be written. -/
def CallAllowed (sv : Server) (V : String → Bytes → Prop) (W S : NodeId → Bytes → Prop)
    (D : NodeId → Prop) : LocalCall → Prop
  | .set key value => V key value →
      W (digest sv.protocol.hash key) value ∧ S (digest sv.protocol.hash key) value
  | .update key value authSignature => ∀ oldValue, V key oldValue →
      sv.updateCheck key value oldValue authSignature = .ok true →
      W (digest sv.protocol.hash key) value
  | .delete key _ _ => D (digest sv.protocol.hash key)
  | _ => True

namespace CallRules

variable {sv : Server} {J : ∀ {α : Type}, (α → Prop) → ServerProcess sv α → Prop}
  {T : Bytes → Prop} {V : String → Bytes → Prop} {W S : NodeId → Bytes → Prop} {D : NodeId → Prop}
  {key : String} {dkey : NodeId} {value : Bytes} {authSignature : Option Bytes}
  {α β : Type} {post : α → Prop} {post' : β → Prop}

variable (h : CallRules sv J T V W S D)
include h

/-- Sequencing when nothing need be known about the first result. -/
theorem seq {m : ServerProcess sv α} {f : α → ServerProcess sv β}
    (hm : J (fun _ => True) m) (hf : ∀ a, J post' (f a)) : J post' (m >>= f) :=
  h.bind hm fun a _ => hf a

theorem blocking (check : Except AuthHandlerError Bool) :
    J (fun ok => ok = true → check = .ok true) (sv.blocking check) :=
  h.seq h.yield fun _ => h.pure unwrapOrFalse_eq_true.mp

theorem stores {nodes : List Node} (hS : S dkey value) :
    J (fun _ => True) (sv.callAll (nodes.map (sv.storeRpc dkey value))) := by
  refine h.callAll ?_
  intro peer senderId key value' hmem
  rcases List.mem_map.mp hmem with ⟨n, -, heq⟩
  cases heq
  exact hS

theorem storeLocally (nodes : List Node) (hW : W dkey value) :
    J (fun _ => True) (sv.storeLocally dkey value nodes) := by
  unfold Server.storeLocally
  split
  · exact h.storageSet hW
  · exact h.pure trivial

/-- The check at the end of `get`. -/
theorem verified (key : String) {v : Bytes} (hT : T v) :
    J (fun r => ∀ w, r = some w → V key w) (do
      let ok ← sv.verifyValue key v
      Pure.pure (if ok then some v else none)) := by
  refine h.bind (h.verifyValue key hT) fun ok hok => h.pure ?_
  intro w hw
  split at hw
  · rename_i hpass
    exact Option.some.inj hw ▸ hok hpass
  · cases hw

/-- The search that `get` and `set` begin with: here, and then in the network. -/
theorem search {hit : Bytes → ServerProcess sv α} {miss : ServerProcess sv α}
    {found : ValueOutcome → ServerProcess sv α} (hhit : ∀ v, T v → J post (hit v))
    (hmiss : J post miss)
    (hfound : ∀ outcome, (∀ v, outcome.value = some v → T v) → J post (found outcome)) :
    J post (do
      match ← sv.storageGet dkey with
      | some result => hit result
      | none =>
          if !sv.listening then miss
          else do
            let nearest ← sv.findNeighbors (Node.fromId dkey)
            if nearest.isEmpty then miss
            else do
              let outcome ← sv.valueLookup (Node.fromId dkey) nearest
              found outcome) := by
  refine h.bind (h.storageGet _) fun result hresult => ?_
  cases result with
  | some v => exact hhit v (hresult v rfl)
  | none =>
      dsimp only
      split
      · exact hmiss
      · refine h.seq (h.findNeighbors _) fun nearest => ?_
        split
        · exact hmiss
        · exact h.bind (h.valueLookup _ nearest) hfound

/-! ## The calls -/

/-- What `get` returns has passed the check of its key. -/
theorem get (key : String) : J (fun r => ∀ v, r = some v → V key v) (sv.get key) := by
  have hnone : J (fun r => ∀ v, r = some v → V key v)
      (Pure.pure none : ServerProcess sv (Option Bytes)) :=
    h.pure fun _ hv => by cases hv
  refine h.search (fun _ => h.verified key) hnone fun outcome hT => ?_
  cases hvalue : outcome.value with
  | some v => exact h.verified key (hT v hvalue)
  | none => exact hnone

theorem checkExistsAndGetNodes (key : String) :
    J (fun _ => True) (sv.checkExistsAndGetNodes key) := by
  refine h.search (fun _ _ => h.pure trivial) (h.pure trivial) fun outcome hT => ?_
  cases hvalue : outcome.value with
  | some v => exact h.bind (h.verifyValue key (hT v hvalue)) fun _ _ => h.pure trivial
  | none => exact h.pure trivial

theorem setDigest (nodes : List Node) (hW : W dkey value) (hS : S dkey value) :
    J (fun _ => True) (sv.setDigest dkey value nodes) := by
  unfold Server.setDigest
  split
  · exact h.pure trivial
  · split
    · exact h.pure trivial
    · refine h.seq (h.storeLocally nodes hW) fun _ => ?_
      exact h.seq (h.stores hS) fun _ => h.pure trivial

theorem set (hallowed : sv.CallAllowed V W S D (.set key value)) (hT : T value) :
    J (fun _ => True) (sv.set key value) := by
  refine h.seq (h.checkExistsAndGetNodes key) fun found => ?_
  dsimp only
  split
  · exact h.pure trivial
  · refine h.bind (h.verifyValue key hT) fun ok hok => ?_
    split
    · exact h.pure trivial
    · rename_i hvalid
      rcases hallowed (hok (by simpa using hvalid)) with ⟨hW, hS⟩
      exact h.seq (h.setDigest found.2 hW hS) fun _ => h.pure trivial

theorem updateDigest (authSignature : Option Bytes) (hW : W dkey value) :
    J (fun _ => True) (sv.updateDigest key dkey value authSignature) := by
  unfold Server.updateDigest
  split
  · exact h.pure trivial
  · refine h.seq (h.findNeighbors _) fun nearest => ?_
    split
    · exact h.pure trivial
    · refine h.seq (h.nodeLookup _ nearest) fun nodes => ?_
      refine h.seq (h.storeLocally nodes hW) fun _ => ?_
      refine h.seq (h.callAll ?_) fun _ => h.pure trivial
      intro peer senderId key' value' hmem
      rcases List.mem_map.mp hmem with ⟨n, -, heq⟩
      unfold updateRpc at heq
      split at heq <;> cases heq

theorem update (hallowed : sv.CallAllowed V W S D (.update key value authSignature)) :
    J (fun _ => True) (sv.update key value authSignature) := by
  refine h.bind (h.get key) fun found hfound => ?_
  cases found with
  | none => exact h.pure trivial
  | some oldValue =>
      refine h.bind (h.blocking _) fun ok hok => ?_
      split
      · exact h.pure trivial
      · rename_i hvalid
        have hW := hallowed oldValue (hfound oldValue rfl) (hok (by simpa using hvalid))
        exact h.seq (h.updateDigest authSignature hW) fun _ => h.pure trivial

theorem deleteDigest (authSignature deleteMsg : Bytes) (hD : D dkey) :
    J (fun _ => True) (sv.deleteDigest dkey authSignature deleteMsg) := by
  unfold Server.deleteDigest
  split
  · exact h.pure trivial
  · refine h.seq (h.storageDelete hD) fun _ => ?_
    refine h.seq (h.findNeighbors _) fun nearest => ?_
    split
    · exact h.pure trivial
    · refine h.seq (h.nodeLookup _ nearest) fun nodes => ?_
      refine h.seq (h.callAll ?_) fun _ => h.pure trivial
      intro peer senderId key' value' hmem
      rcases List.mem_map.mp hmem with ⟨n, -, heq⟩
      cases heq

theorem delete {authSignature deleteMsg : Bytes}
    (hallowed : sv.CallAllowed V W S D (.delete key authSignature deleteMsg)) :
    J (fun _ => True) (sv.delete key authSignature deleteMsg) := by
  refine h.bind (h.get key) fun found _ => ?_
  cases found with
  | none => exact h.pure trivial
  | some oldValue =>
      refine h.bind (h.blocking _) fun ok _ => ?_
      split
      · exact h.pure trivial
      · exact h.seq (h.deleteDigest authSignature deleteMsg hallowed) fun _ => h.pure trivial

theorem refreshBuckets (ids : List NodeId) : J (fun _ => True) (sv.refreshBuckets ids) := by
  induction ids with
  | nil => exact h.pure trivial
  | cons id ids ih =>
      refine h.seq (h.findNeighbors _) fun neighbors => ?_
      exact h.seq (h.nodeLookup _ neighbors) fun _ => ih

theorem republish {entries : List (Bytes × Bytes)}
    (hS : ∀ (key : NodeId) value, (key.bytes, value) ∈ entries → S key value) :
    J (fun _ => True) (sv.republish entries) := by
  induction entries with
  | nil => exact h.pure trivial
  | cons entry entries ih =>
      have hrest := ih fun key value hmem => hS key value (List.mem_cons_of_mem _ hmem)
      rcases entry with ⟨keyVec, v⟩
      unfold Server.republish
      split
      · rename_i hlen
        refine h.seq (h.findNeighbors _) fun neighbors => ?_
        split
        · exact hrest
        · refine h.seq (h.nodeLookup _ neighbors) fun nodes => ?_
          exact h.seq (h.stores (hS ⟨keyVec, hlen⟩ v List.mem_cons_self)) fun _ => hrest
      · exact hrest

theorem refresh : J (fun _ => True) sv.refresh := by
  refine h.seq h.refreshIds fun ids => ?_
  refine h.seq (h.refreshBuckets ids) fun _ => ?_
  exact h.bind h.oldEntries fun entries hentries => h.republish hentries

/-- **The judgement holds of every call.** -/
theorem process {c : LocalCall} (hallowed : sv.CallAllowed V W S D c)
    (hT : ∀ value, c.written = some value → T value) : J (fun _ => True) (sv.process c) := by
  cases c with
  | get key => exact h.bind (h.get key) fun _ _ => h.pure trivial
  | set key value => exact h.seq (h.set hallowed (hT value rfl)) fun _ => h.pure trivial
  | update key value authSignature => exact h.seq (h.update hallowed) fun _ => h.pure trivial
  | delete key authSignature deleteMsg => exact h.seq (h.delete hallowed) fun _ => h.pure trivial
  | refresh => exact h.seq h.refresh fun _ => h.pure trivial

end CallRules

end Server

end AuthKademlia
