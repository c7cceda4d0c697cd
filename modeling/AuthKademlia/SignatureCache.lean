import AuthKademlia.AuthHandler
import Mathlib.Data.List.AList
import Mathlib.Data.List.Induction
import Mathlib.Data.Set.Function

/-!
# The signature cache

Both the protocol layer (`verify_for_key`) and the server layer (`verify_value`) verify
records through one cache, keyed by the SHA-256 of the record bytes.  The cache knows
nothing of the key a record was presented under, while the rule that was applied depends
on it: the issuer's signature for the status list, the record's own for everything else.
A result of one rule is therefore returned for the other.

`cache_transparent_iff` says exactly when a call still gets the answer it would get
without the cache.

## Main definitions

* `verifyForKey`, `verifyValue` — the two cached verifications.
* `VerifyCall`, `CacheEvent`, `cacheAfter` — histories of calls against one cache.
-/

namespace AuthKademlia

/-- The SHA-1 and SHA-256 hash functions. -/
structure HashLib where
  sha1 : Bytes → NodeId
  sha256 : Bytes → Bytes

/-- The SHA-1 digest of a string. -/
def digest (hash : HashLib) (s : String) : NodeId := hash.sha1 (asBytes s)

def statusListKey : String := "did:iiot:status-list"

/-- Verification results by the SHA-256 of the record. -/
abbrev SignatureCache := AList fun _ : Bytes => Bool

namespace SignatureCache

def computeKey (hash : HashLib) (value : Bytes) : Bytes := hash.sha256 value

def getByKey (cache : SignatureCache) (key : Bytes) : Option Bool := cache.lookup key

def insertByKey (cache : SignatureCache) (key : Bytes) (result : Bool) : SignatureCache :=
  cache.insert key result

end SignatureCache

section Verify

variable (hash : HashLib) (handler : SignatureVerifierHandler)

/-- The handler's check: the issuer's signature for the status list, the record's own
otherwise. -/
def checkDirectly (isStatus : Bool) (value : Bytes) : Bool :=
  if isStatus then unwrapOrFalse (handler.handleIssuerNodeSignatureVerification value)
  else unwrapOrFalse (handler.handleSignatureVerification value)

/-- Verify through the cache, if there is one; only successes are cached. -/
def verifyCached (isStatus : Bool) (cache : Option SignatureCache) (value : Bytes) :
    Bool × Option SignatureCache :=
  match cache with
  | none => (checkDirectly handler isStatus value, none)
  | some c =>
      let key := SignatureCache.computeKey hash value
      match c.getByKey key with
      | some cached => (cached, some c)
      | none =>
          let result := checkDirectly handler isStatus value
          (result, some (if result then c.insertByKey key result else c))

/-- `KademliaProtocol::verify_for_key`: the key is a digest. -/
def verifyForKey (cache : Option SignatureCache) (key : NodeId) (value : Bytes) :
    Bool × Option SignatureCache :=
  verifyCached hash handler (key = digest hash statusListKey) cache value

/-- `Server::verify_value`: the key is the text before hashing. -/
def verifyValue (cache : Option SignatureCache) (key : String) (value : Bytes) :
    Bool × Option SignatureCache :=
  verifyCached hash handler (key = statusListKey) cache value

end Verify

/-! ## Histories -/

/-- A call of one of the two layers. -/
inductive VerifyCall where
  | forKey (key : NodeId) (value : Bytes)
  | value (key : String) (value : Bytes)

namespace VerifyCall

def record : VerifyCall → Bytes
  | forKey _ v => v
  | value _ v => v

/-- The call is about the status list. -/
def isStatus (hash : HashLib) : VerifyCall → Bool
  | forKey key _ => key = digest hash statusListKey
  | value key _ => key = statusListKey

def run (hash : HashLib) (handler : SignatureVerifierHandler) (cache : Option SignatureCache) :
    VerifyCall → Bool × Option SignatureCache
  | forKey key v => verifyForKey hash handler cache key v
  | value key v => verifyValue hash handler cache key v

/-- The handler's check for the call. -/
def check (hash : HashLib) (handler : SignatureVerifierHandler) (c : VerifyCall) : Bool :=
  checkDirectly handler (c.isStatus hash) c.record

end VerifyCall

/-- What happens to a cache: a call is made, or the cache drops an entry. -/
inductive CacheEvent where
  | call (c : VerifyCall)
  | dropped (key : Bytes)

/-- The call of an event, if it is one. -/
def CacheEvent.asCall : CacheEvent → Option VerifyCall
  | .call c => some c
  | .dropped _ => none

section History

variable (hash : HashLib) (handler : SignatureVerifierHandler)

/-- One event on the shared cache. -/
def cacheStep (cache : SignatureCache) : CacheEvent → SignatureCache
  | .call c => ((c.run hash handler (some cache)).2).getD cache
  | .dropped key => cache.erase key

/-- The cache after a history. -/
def cacheAfter (es : List CacheEvent) : SignatureCache :=
  es.foldl (cacheStep hash handler) ∅

variable {hash handler} {cache : SignatureCache} {c : VerifyCall}

theorem VerifyCall.run_eq (cache : Option SignatureCache) (c : VerifyCall) :
    c.run hash handler cache = verifyCached hash handler (c.isStatus hash) cache c.record := by
  cases c <;> rfl

/-- Without a cache a call is answered by the handler. -/
theorem VerifyCall.run_none : (c.run hash handler none).1 = c.check hash handler := by
  rw [run_eq]
  rfl

/-- A call on a cache without false entries: answered by the entry if there is one. -/
theorem VerifyCall.run_some (hcache : ∀ k b, cache.lookup k = some b → b = true) :
    (c.run hash handler (some cache)).1 =
      ((cache.lookup (hash.sha256 c.record)).isSome || c.check hash handler) := by
  rw [run_eq, verifyCached]
  simp only [SignatureCache.getByKey, SignatureCache.computeKey]
  cases hl : cache.lookup (hash.sha256 c.record) with
  | none => simp [check]
  | some b => simp [hcache _ _ hl]

/-- **One call** adds at most the entry of its own record, and only if the record passes
its own check. -/
theorem lookup_cacheStep_call (k : Bytes) :
    (cacheStep hash handler cache (.call c)).lookup k =
      if k = hash.sha256 c.record ∧ cache.lookup k = none ∧ c.check hash handler = true then
        some true
      else cache.lookup k := by
  rw [cacheStep, VerifyCall.run_eq, verifyCached]
  simp only [SignatureCache.getByKey, SignatureCache.computeKey]
  cases hl : cache.lookup (hash.sha256 c.record) with
  | some b =>
      have hold : ¬(k = hash.sha256 c.record ∧ cache.lookup k = none ∧
          c.check hash handler = true) := by
        rintro ⟨rfl, hnone, -⟩
        rw [hl] at hnone
        cases hnone
      rw [if_neg hold]
      rfl
  | none =>
      have hcheck : c.check hash handler = checkDirectly handler (c.isStatus hash) c.record := rfl
      rw [← hcheck]
      by_cases hpass : c.check hash handler = true
      · simp only [hpass, if_true, Option.getD_some, SignatureCache.insertByKey, and_true]
        by_cases hk : k = hash.sha256 c.record
        · rw [if_pos ⟨hk, hk ▸ hl⟩, hk, AList.lookup_insert]
        · rw [if_neg fun h => hk h.1, AList.lookup_insert_ne hk]
      · simp [hpass]

/-- **Whatever was dropped, an entry stands for a record that passed a check.** -/
theorem exists_of_lookup_cacheAfter {es : List CacheEvent} {k : Bytes} {b : Bool}
    (h : (cacheAfter hash handler es).lookup k = some b) :
    b = true ∧ ∃ c ∈ es.filterMap CacheEvent.asCall,
      hash.sha256 c.record = k ∧ c.check hash handler = true := by
  induction es using List.reverseRecOn with
  | nil => simp [cacheAfter] at h
  | append_singleton es e ih =>
      simp only [cacheAfter, List.foldl_append, List.foldl_cons, List.foldl_nil] at h ih
      rw [List.filterMap_append]
      cases e with
      | dropped key =>
          have hold : (List.foldl (cacheStep hash handler) ∅ es).lookup k = some b := by
            rw [cacheStep] at h
            by_cases hk : k = key
            · rw [hk, AList.lookup_erase] at h
              cases h
            · rwa [AList.lookup_erase_ne hk] at h
          obtain ⟨hb, c, hc, hrest⟩ := ih hold
          exact ⟨hb, c, List.mem_append_left _ hc, hrest⟩
      | call d =>
          rw [lookup_cacheStep_call] at h
          split at h
          · rename_i hnew
            exact ⟨(Option.some.inj h).symm, d, by simp [CacheEvent.asCall], hnew.1.symm, hnew.2.2⟩
          · obtain ⟨hb, c, hc, hrest⟩ := ih h
            exact ⟨hb, c, List.mem_append_left _ hc, hrest⟩

/-- **If nothing is dropped, every record that passed a check has its entry.** -/
theorem lookup_cacheAfter_calls {history : List VerifyCall} (hc : c ∈ history)
    (hpass : c.check hash handler = true) :
    ((cacheAfter hash handler (history.map .call)).lookup (hash.sha256 c.record)).isSome := by
  induction history using List.reverseRecOn with
  | nil => simp at hc
  | append_singleton history d ih =>
      simp only [cacheAfter, List.map_append, List.map_cons, List.map_nil, List.foldl_append,
        List.foldl_cons, List.foldl_nil] at ih ⊢
      rw [lookup_cacheStep_call]
      split
      · rfl
      · rename_i hold
        rcases List.mem_append.mp hc with hc | hc
        · exact ih hc
        · obtain rfl := List.mem_singleton.mp hc
          rw [Option.isSome_iff_ne_none]
          exact fun hnone => hold ⟨rfl, hnone, hpass⟩

/-- **When the cache is transparent.**  After a history of calls, and whatever the cache
has dropped meanwhile, a call is answered as without a cache if and only if it passes its
own check or no earlier call presented the same bytes and passed its own. -/
theorem cache_transparent_iff (hash : HashLib) (handler : SignatureVerifierHandler)
    (history : List VerifyCall) (c : VerifyCall)
    (hinj : Set.InjOn hash.sha256 {v | ∃ c' ∈ c :: history, c'.record = v}) :
    (∀ es : List CacheEvent, es.filterMap CacheEvent.asCall = history →
        (c.run hash handler (some (cacheAfter hash handler es))).1 =
          (c.run hash handler none).1) ↔
      (c.check hash handler = true ∨
        ∀ c' ∈ history, c'.record = c.record → c'.check hash handler = false) := by
  have hrun : ∀ es, (c.run hash handler (some (cacheAfter hash handler es))).1 =
      (((cacheAfter hash handler es).lookup (hash.sha256 c.record)).isSome ||
        c.check hash handler) := fun es =>
    VerifyCall.run_some fun k b h => (exists_of_lookup_cacheAfter h).1
  simp only [hrun, VerifyCall.run_none]
  constructor
  · intro h
    by_contra hnot
    push Not at hnot
    obtain ⟨hfail, c', hc', hsame, hpass⟩ := hnot
    -- keep every entry: the earlier success answers the later call
    have hcalls : (history.map CacheEvent.call).filterMap CacheEvent.asCall = history := by
      rw [List.filterMap_map]
      exact List.filterMap_some
    have hentry := lookup_cacheAfter_calls hc' (by simpa using hpass)
    rw [hsame] at hentry
    have := h _ hcalls
    rw [hentry, Bool.true_or] at this
    exact hfail this.symm
  · rintro (hpass | hnone) es rfl
    · rw [hpass, Bool.or_true]
    · cases hl : (cacheAfter hash handler es).lookup (hash.sha256 c.record) with
      | none => simp
      | some b =>
          obtain ⟨-, c', hc', hkey, hpass⟩ := exists_of_lookup_cacheAfter hl
          have hsame : c'.record = c.record :=
            hinj ⟨c', List.mem_cons_of_mem _ hc', rfl⟩ ⟨c, List.mem_cons_self, rfl⟩ hkey
          rw [hnone c' hc' hsame] at hpass
          cases hpass

end History

namespace Sample

def deviceName : String := "did:iiot:device-1"

def statusKey : NodeId := NodeId.ofNat 0x1c07dfb72b9c0cb9d2339a4a244c6ff5c3d2b308
def deviceKey : NodeId := NodeId.ofNat 0x8d87c02b4f0daf701ceabceeb930e4f338975929

/-- The hash values of the names and records used here. -/
def sampleHash : HashLib where
  sha1 b := if b = asBytes statusListKey then statusKey else deviceKey
  sha256 v := Lib.toBeBytes 32 <|
    if v = statusRecord then 0x4f413e2ae7fe59c7f3fe47e5929537910d7128a06f55dd446a573b6e022bb54a
    else 0xb93068751e9c77fc12921dcb5183f22c6f588b719bdec2105c7caf8f03ff2cfb

end Sample

open Sample

/-- A status list that was verified as such is then accepted as an ordinary record,
although it carries no key of its own. -/
theorem status_list_cached_as_record :
    ((VerifyCall.forKey deviceKey statusRecord).run sampleHash sampleHandler
      (some (cacheAfter sampleHash sampleHandler
        [.call (.forKey (digest sampleHash statusListKey) statusRecord)]))).1 = true ∧
    ((VerifyCall.forKey deviceKey statusRecord).run sampleHash sampleHandler none).1 = false := by
  decide +kernel

/-- A record presented twice as what it is gets the same answer, cache or not. -/
theorem cache_transparent_for_device :
    Set.InjOn sampleHash.sha256
      {v | ∃ c ∈ [VerifyCall.value deviceName recordA0, .forKey deviceKey recordA0],
        c.record = v} ∧
    ∀ es : List CacheEvent, es.filterMap CacheEvent.asCall = [.forKey deviceKey recordA0] →
      ((VerifyCall.value deviceName recordA0).run sampleHash sampleHandler
          (some (cacheAfter sampleHash sampleHandler es))).1 =
        ((VerifyCall.value deviceName recordA0).run sampleHash sampleHandler none).1 := by
  have hinj : Set.InjOn sampleHash.sha256
      {v | ∃ c ∈ [VerifyCall.value deviceName recordA0, .forKey deviceKey recordA0],
        c.record = v} := by
    rintro v ⟨c, hc, rfl⟩ w ⟨d, hd, rfl⟩ -
    simp only [List.mem_cons, List.not_mem_nil, or_false] at hc hd
    rcases hc with rfl | rfl <;> rcases hd with rfl | rfl <;> rfl
  have hpass : (VerifyCall.value deviceName recordA0).check sampleHash sampleHandler = true := by
    decide +kernel
  exact ⟨hinj, (cache_transparent_iff sampleHash sampleHandler _ _ hinj).mpr (Or.inl hpass)⟩

end AuthKademlia
