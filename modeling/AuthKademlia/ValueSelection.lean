import AuthKademlia.CrawlAnswers
import AuthKademlia.Custody
import AuthKademlia.ServerInvariant

/-!
# Which of the received values a lookup returns

A value lookup ends with the first round in which values arrive, and returns one that was
received most often in that round; among several, the iteration order of a hash map
decides.  Nothing is verified before that, and `get` verifies only the value returned.

So a valid record that arrived is not enough for `get` to return one.  It is exactly if
every value received most often is valid (`valid_record_returned_iff`); a single forged
answer against a single valid one already leaves it to the hash map
(`forged_answer_hides_record`).

## Main definitions

* `firstValues`, `MostReceived` — the values of the deciding round, and those that can win.
* `Network.preferring` — the same network, with a hash map that lets a given value win.
-/

namespace AuthKademlia

open Lib

/-- The values of the first round in which any arrived. -/
def firstValues (history : List Round) : List Bytes :=
  ((history.map fun r => r.responses.values).find? fun vs => !vs.isEmpty).getD []

/-- No other value was received more often. -/
def MostReceived (values : List Bytes) (v : Bytes) : Prop :=
  v ∈ values ∧ ∀ w ∈ values, values.count w ≤ values.count v

theorem firstValues_concat {history : List Round} (h : ∀ r ∈ history, r.responses.values = [])
    (r : Round) : firstValues (history ++ [r]) = r.responses.values := by
  have hnone : (history.map fun r => r.responses.values).find? (fun vs => !vs.isEmpty) = none := by
    rw [List.find?_eq_none]
    intro vs hvs
    rcases List.mem_map.mp hvs with ⟨r', hr', rfl⟩
    simp [h r' hr']
  rw [firstValues, List.map_append, List.find?_append, hnone, Option.none_or]
  cases hvalues : r.responses.values with
  | nil => simp [hvalues]
  | cons v vs => simp [hvalues]

/-- Some peer answered without a value. -/
def AnsweredWithout (history : List Round) : Prop :=
  ∃ round ∈ history, ∃ r ∈ round.responses, r.2.happened = true ∧ r.2.getValue = none

theorem answeredWithout_concat {history : List Round} {round : Round} :
    AnsweredWithout (history ++ [round]) ↔ AnsweredWithout history ∨
      ∃ r ∈ round.responses, r.2.happened = true ∧ r.2.getValue = none := by
  simp only [AnsweredWithout, List.mem_append, List.mem_singleton, or_and_right, exists_or,
    exists_eq_left]

namespace ValueSpiderCrawl

variable {lib : HeapLib} {net : Network} {fuel : ℕ} {target : Node} {peers : List Node}
  {ksize alpha : ℕ}

theorem history_round (v : ValueSpiderCrawl) :
    (round lib net v).base.history = v.base.history ++ [v.base.nextRound lib net] := by
  rw [base_round, NodeSpiderCrawl.round_eq]

/-- **The lookup stops at the first values.** -/
theorem firstValues_of_loop {t : ValueSpiderCrawl}
    (h : loopUntil (round lib net) (done lib) fuel (new lib target peers ksize alpha) = some t) :
    firstValues t.base.history = t.foundValues := by
  refine loopUntil_invariant (fun v : ValueSpiderCrawl => ∀ r ∈ v.base.history,
    r.responses.values = []) (fun v => firstValues v.base.history = v.foundValues) ?_ ?_ ?_ h
  · intro v hv hgo r hr
    rw [history_round] at hr
    rcases List.mem_append.mp hr with hr | hr
    · exact hv r hr
    · rw [List.mem_singleton.mp hr, ← foundValues_round]
      simp only [done, Bool.or_eq_false_iff] at hgo
      simpa using hgo.1
  · intro v hv _
    rw [history_round, firstValues_concat hv, foundValues_round]
  · intro r hr
    cases hr

/-- A lookup that received values returns one of those received most often, and otherwise
none. -/
theorem value_of_find {o : ValueOutcome}
    (h : find lib net fuel (new lib target peers ksize alpha) = some o) :
    (firstValues o.history = [] ∧ o.value = none) ∨
      ∃ v, o.value = some v ∧ MostReceived (firstValues o.history) v := by
  rcases Option.map_eq_some_iff.mp h with ⟨t, ht, rfl⟩
  rw [history_outcome, firstValues_of_loop ht]
  cases hfound : t.foundValues with
  | nil => exact .inl ⟨rfl, by simp [outcome, hfound]⟩
  | cons w ws =>
      right
      rcases @exists_majority net t (by simp [hfound]) with ⟨v, hv, hmajority, hmost⟩
      rw [hfound] at hv hmost
      exact ⟨v, by simp [outcome, hfound, hmajority], hv, hmost⟩

/-- Only an answer without a value is remembered as one. -/
theorem nearestWithoutValue_foldl {rs : Responses}
    (h : ∀ r ∈ rs, r.2.happened = true → r.2.getValue ≠ none) (acc : Tally) :
    (rs.foldl (absorb lib) acc).nearestWithoutValue = acc.nearestWithoutValue := by
  induction rs generalizing acc with
  | nil => rfl
  | cons r rs ih =>
      have hrest := ih (fun r' hr' => h r' (List.mem_cons_of_mem _ hr')) (absorb lib acc r)
      rw [List.foldl_cons, hrest]
      cases hhap : r.2.happened with
      | false => simp [absorb, hhap]
      | true =>
          cases hvalue : r.2.getValue with
          | none => exact absurd hvalue (h r List.mem_cons_self hhap)
          | some v => simp [absorb, hhap, hvalue]

/-- **A value is sent on only after an answer without it.** -/
theorem answeredWithout_of_cachedAt {o : ValueOutcome} {peer : Node}
    (h : find lib net fuel (new lib target peers ksize alpha) = some o)
    (hcached : o.cachedAt = some peer) : AnsweredWithout o.history := by
  rcases Option.map_eq_some_iff.mp h with ⟨t, ht, rfl⟩
  rw [history_outcome]
  by_contra hnever
  have hround : ∀ v : ValueSpiderCrawl,
      (¬AnsweredWithout v.base.history → v.nearestWithoutValue = NodeHeap.new target 1) →
      ¬AnsweredWithout (round lib net v).base.history →
        (round lib net v).nearestWithoutValue = NodeHeap.new target 1 := by
    intro v hv hnone
    rw [history_round, answeredWithout_concat, not_or] at hnone
    rw [← hv hnone.1]
    refine nearestWithoutValue_foldl ?_ _
    intro r hr hhap hvalue
    exact hnone.2 ⟨r, hr, hhap, hvalue⟩
  have hempty := loopUntil_invariant
    (fun v => ¬AnsweredWithout v.base.history → v.nearestWithoutValue = NodeHeap.new target 1)
    (fun v => ¬AnsweredWithout v.base.history → v.nearestWithoutValue = NodeHeap.new target 1)
    (fun v hv _ => hround v hv) (fun v hv _ => hround v hv) (fun _ => rfl) ht hnever
  have hpop : t.nearestWithoutValue.popleft lib = none := by
    rw [hempty]
    exact congrArg (Option.map Prod.fst) ((lib.pop_eq_none _ _).mpr rfl)
  simp only [outcome, hpop] at hcached
  split at hcached
  · simp at hcached
  · cases hcached

end ValueSpiderCrawl

/-! ## The order of the hash map -/

/-- Move the entry of `v` to the end. -/
def moveLast (v : Bytes) (counts : List (Bytes × ℕ)) : List (Bytes × ℕ) :=
  match counts.find? fun e => e.1 = v with
  | none => counts
  | some e => counts.erase e ++ [e]

theorem perm_moveLast (v : Bytes) (counts : List (Bytes × ℕ)) :
    (moveLast v counts).Perm counts := by
  unfold moveLast
  split
  · exact .refl _
  · rename_i e he
    have hmem := List.mem_of_find?_eq_some he
    exact (List.perm_append_singleton e _).trans (List.perm_cons_erase hmem).symm

/-- The same network, with hash maps that iterate over the count of `v` last. -/
def Network.preferring (net : Network) (v : Bytes) : Network :=
  { net with
    countOrder := fun _ counts => moveLast v counts
    countOrder_perm := fun _ counts => perm_moveLast v counts }

/-- Of entries with the greatest count the last one wins. -/
theorem maxByCount_moveLast {values : List Bytes} {v : Bytes} (h : MostReceived values v) :
    maxByCount (moveLast v (countValues values)) = some (v, values.count v) := by
  have hcount : ∀ e ∈ countValues values, e.1 ∈ values ∧ e.2 = values.count e.1 := by
    intro e he
    rcases List.mem_map.mp he with ⟨w, hw, rfl⟩
    exact ⟨List.mem_dedup.mp hw, rfl⟩
  have hv : (v, values.count v) ∈ countValues values :=
    List.mem_map.mpr ⟨v, List.mem_dedup.mpr h.1, rfl⟩
  unfold moveLast
  split
  · rename_i hnone
    have hno := List.find?_eq_none.mp hnone _ hv
    simp at hno
  · rename_i e he
    have hmem := List.mem_of_find?_eq_some he
    have hfst : e.1 = v := by simpa using List.find?_some he
    have heq : e = (v, values.count v) := Prod.ext hfst (by rw [(hcount e hmem).2, hfst])
    subst heq
    rw [maxByCount_concat]
    by_cases hrest : (countValues values).erase (v, values.count v) = []
    · rw [hrest]
      rfl
    · rcases maxByCount_spec hrest with ⟨b, hb, hmax, -⟩
      have hb' := hcount b (List.mem_of_mem_erase hb)
      rw [hmax]
      dsimp only
      rw [if_pos (by rw [hb'.2]; exact h.2 b.1 hb'.1)]

namespace ValueSpiderCrawl

variable {lib : HeapLib} {net net' : Network} {fuel : ℕ} {v t : ValueSpiderCrawl}

/-- The rounds of a lookup do not depend on the order of the counts. -/
theorem round_congr (hanswer : net'.answer = net.answer)
    (horder : net'.responseOrder = net.responseOrder) : round lib net' = round lib net := by
  rcases net with ⟨answer, responseOrder, hperm, countOrder, hcount⟩
  rcases net' with ⟨answer', responseOrder', hperm', countOrder', hcount'⟩
  cases hanswer
  cases horder
  rfl

theorem find_unique {fuel' : ℕ} {o o' : ValueOutcome} (h : find lib net fuel v = some o)
    (h' : find lib net fuel' v = some o') : o = o' := by
  rcases Option.map_eq_some_iff.mp h with ⟨t, ht, rfl⟩
  rcases Option.map_eq_some_iff.mp h' with ⟨t', ht', rfl⟩
  rw [loopUntil_unique ht ht']

/-- Any value received most often can be the one returned. -/
theorem value_preferring {value : Bytes} (h : MostReceived v.foundValues value) :
    (v.outcome lib (net.preferring value)).value = some value := by
  have hne : v.foundValues ≠ [] := List.ne_nil_of_mem h.1
  have hmajority : v.majority (net.preferring value) = some value := by
    rw [majority, Network.preferring, maxByCount_moveLast h]
    rfl
  simp [outcome, hne, hmajority]

end ValueSpiderCrawl

/-! ## What `get` returns -/

/-- A value lookup ends against every network. -/
theorem exists_valueReply (sv : Server) (target : Node) (peers : List Node) (net : Network) :
    ∃ reply : ValueReply sv target peers, reply.net = net := by
  rcases Option.isSome_iff_exists.mp (ValueSpiderCrawl.loop_isSome sv.heap net
    (ValueSpiderCrawl.new sv.heap target peers sv.ksize sv.alpha)) with ⟨t, ht⟩
  exact ⟨⟨net, fun _ => false, roundBound, t.outcome sv.heap net,
    Option.map_eq_some_iff.mpr ⟨t, ht, rfl⟩⟩, rfl⟩

/-- A node lookup ends against every network. -/
theorem exists_nodeReply (sv : Server) (target : Node) (peers : List Node) (net : Network) :
    ∃ reply : NodeReply sv target peers, reply.net = net := by
  rcases Option.isSome_iff_exists.mp (NodeSpiderCrawl.loop_isSome sv.heap net
    (SpiderCrawl.new sv.heap target peers sv.ksize sv.alpha)) with ⟨t, ht⟩
  exact ⟨⟨net, fun _ => false, roundBound, _, _, Option.map_eq_some_iff.mpr ⟨t, ht, rfl⟩⟩, rfl⟩

/-- The answers of a network to everything a call can ask; nobody responds to requests to
write.  Lookups that end within `fuel` rounds can be evaluated. -/
noncomputable def Server.answersFrom (sv : Server) (net : Network) (fuel : ℕ) : ∀ q, Answer sv q
  | .yield => ()
  | .valueLookup target peers =>
      match h : ValueSpiderCrawl.find sv.heap net fuel
          (ValueSpiderCrawl.new sv.heap target peers sv.ksize sv.alpha) with
      | some o => ⟨net, fun _ => false, fuel, o, h⟩
      | none => Classical.choose (exists_valueReply sv target peers net)
  | .nodeLookup target peers =>
      match h : NodeSpiderCrawl.find sv.heap net fuel
          (SpiderCrawl.new sv.heap target peers sv.ksize sv.alpha) with
      | some (nodes, history) => ⟨net, fun _ => false, fuel, nodes, history, h⟩
      | none => Classical.choose (exists_nodeReply sv target peers net)
  | .calls _ => fun _ => .noResponse
  | .refreshIds => []

/-- The answer to a lookup can be any end of it. -/
theorem exists_answers {sv : Server} {target : Node} {peers : List Node}
    (reply : ValueReply sv target peers) :
    ∃ answers : ∀ q, Answer sv q, answers (.valueLookup target peers) = reply := by
  exact ⟨Function.update (sv.answersFrom reply.net 0) (.valueLookup target peers) reply,
    Function.update_self ..⟩

/-- Two ends of a lookup against the same answers, processed in the same order; only the
counts may have been iterated differently. -/
def ValueReply.SameAnswers {sv : Server} {target : Node} {peers : List Node}
    (r r' : ValueReply sv target peers) : Prop :=
  r'.net.answer = r.net.answer ∧ r'.net.responseOrder = r.net.responseOrder

theorem ValueReply.SameAnswers.history_eq {sv : Server} {target : Node} {peers : List Node}
    {r r' : ValueReply sv target peers} (h : r.SameAnswers r') :
    r'.outcome.history = r.outcome.history := by
  rcases Option.map_eq_some_iff.mp r.ends with ⟨t, ht, houtcome⟩
  rcases Option.map_eq_some_iff.mp r'.ends with ⟨t', ht', houtcome'⟩
  rw [ValueSpiderCrawl.round_congr h.1 h.2] at ht'
  rw [← houtcome, ← houtcome', ValueSpiderCrawl.history_outcome, ValueSpiderCrawl.history_outcome,
    loopUntil_unique ht ht']

/-- Against the same answers, any value received most often can be the one returned. -/
theorem ValueReply.exists_preferring {sv : Server} {target : Node} {peers : List Node}
    (reply : ValueReply sv target peers) {v : Bytes}
    (h : MostReceived (firstValues reply.outcome.history) v) :
    ∃ reply' : ValueReply sv target peers,
      reply.SameAnswers reply' ∧ reply'.outcome.value = some v := by
  rcases Option.map_eq_some_iff.mp reply.ends with ⟨t, ht, houtcome⟩
  rw [← houtcome, ValueSpiderCrawl.history_outcome, ValueSpiderCrawl.firstValues_of_loop ht] at h
  refine ⟨⟨reply.net.preferring v, reply.undialable, reply.fuel,
    t.outcome sv.heap (reply.net.preferring v), ?_⟩, ⟨rfl, rfl⟩,
    ValueSpiderCrawl.value_preferring h⟩
  have hround := @ValueSpiderCrawl.round_congr sv.heap reply.net (reply.net.preferring v) rfl rfl
  rw [ValueSpiderCrawl.find, hround, ht]
  rfl

namespace Server

variable {sv : Server} {key : String} {s : ServerState} {answers : ∀ q, Answer sv q}

/-- What `get` looks up, and the peers it starts from. -/
def lookupTarget (sv : Server) (key : String) : Node :=
  Node.fromId (digest sv.protocol.hash key)

def lookupPeers (sv : Server) (key : String) (s : ServerState) : List Node :=
  (s.node.router.findNeighbors s.now (sv.lookupTarget key) none).1

/-- The key is not stored here, and there is somebody to ask. -/
structure AsksNetwork (sv : Server) (key : String) (s : ServerState) : Prop where
  uncached : s.node.sigCache = none
  absent : s.node.stored s.now (digest sv.protocol.hash key) = none
  listening : sv.listening = true
  peers : sv.lookupPeers key s ≠ []

theorem callInvariant_uncached :
    CallInvariant (fun s => s.node.sigCache = none) (fun _ _ => True) (fun _ _ => True) where
  uncached _ h := h
  clock _ _ h := h
  quiet _ _ h hquiet := hquiet.sigCache.trans h
  written _ _ _ h _ := h
  deleted _ _ h := h
  sent _ _ h _ := h
  held _ _ _ _ _ _ := trivial

theorem lookupsMeet_true : ∀ q (a : Answer sv q), LookupsMeet sv (fun _ _ => True) q a
  | .valueLookup _ _, _ => fun _ _ _ _ => trivial
  | .yield, _ => trivial
  | .nodeLookup _ _, _ => trivial
  | .calls _, _ => trivial
  | .refreshIds, _ => trivial

theorem run_valueLookup (target : Node) (peers : List Node) (s : ServerState) :
    ((sv.valueLookup target peers).run answers s).2 =
      ValueReply.outcome (answers (.valueLookup target peers)) := by
  simp only [valueLookup, Process.run_bind, Process.run_ask, Process.run_lift]
  split <;> simp

theorem uncached_valueLookup {target : Node} {peers : List Node} (h : s.node.sigCache = none) :
    ((sv.valueLookup target peers).run answers s).1.node.sigCache = none :=
  ((keeps_valueLookup callInvariant_uncached (fun _ => trivial) target peers).run
    (fun q => lookupsMeet_true q (answers q)) h).1

theorem run_verifyValue {value : Bytes} (h : s.node.sigCache = none) :
    ((sv.verifyValue key value).run answers s).2 = sv.verifies key value := by
  simp [verifyValue, yield, AuthKademlia.verifyValue, verifyCached, h, verifies]

/-- The answer the lookup of `get` ends with. -/
def getReply (sv : Server) (key : String) (s : ServerState) (answers : ∀ q, Answer sv q) :
    ValueReply sv (sv.lookupTarget key) (sv.lookupPeers key s) :=
  answers (.valueLookup (sv.lookupTarget key) (sv.lookupPeers key s))

/-- **`get` returns what the lookup returns, if that is valid.** -/
theorem run_get (h : sv.AsksNetwork key s) :
    ((sv.get key).run answers s).2 =
      (sv.getReply key s answers).outcome.value.filter (sv.verifies key) := by
  have habsent : s.node.storage.get s.now (digest sv.protocol.hash key).bytes = none := h.absent
  have hpeers : (s.node.router.findNeighbors s.now
      (Node.fromId (digest sv.protocol.hash key)) none).1 ≠ [] := h.peers
  simp only [get, Process.run_bind, storageGet, Process.run_lift, habsent, h.listening,
    Bool.not_true, Bool.false_eq_true, if_false, findNeighbors, List.isEmpty_iff, hpeers,
    run_valueLookup, getReply, lookupTarget, lookupPeers]
  cases (ValueReply.outcome (answers (.valueLookup (Node.fromId (digest sv.protocol.hash key))
    (s.node.router.findNeighbors s.now (Node.fromId (digest sv.protocol.hash key))
      none).1))).value with
  | none => rfl
  | some v =>
      rw [Process.run_bind, Process.run_pure,
        run_verifyValue (by exact uncached_valueLookup h.uncached)]
      rfl

/-- **Whether a valid record that arrived is returned.**  The lookup ends against every
network.  If a valid record is among the values of the round it ends with, then `get`
returns a valid one, in whatever order the counts are iterated over, exactly if every value
received most often is valid. -/
theorem valid_record_returned_iff (h : sv.AsksNetwork key s) (net : Network) :
    ∃ reply : ValueReply sv (sv.lookupTarget key) (sv.lookupPeers key s), reply.net = net ∧
      ((∃ v ∈ firstValues reply.outcome.history, sv.verifies key v = true) →
        ((∀ answers, reply.SameAnswers (sv.getReply key s answers) →
            ∃ v, ((sv.get key).run answers s).2 = some v ∧ sv.verifies key v = true) ↔
          ∀ v, MostReceived (firstValues reply.outcome.history) v → sv.verifies key v = true)) := by
  rcases exists_valueReply sv (sv.lookupTarget key) (sv.lookupPeers key s) net with ⟨reply, hnet⟩
  refine ⟨reply, hnet, fun hvalid => ⟨fun hreturned v hv => ?_, fun hmost answers hsame => ?_⟩⟩
  · -- let the hash map prefer `v`
    rcases reply.exists_preferring hv with ⟨reply', hsame, hvalue⟩
    rcases exists_answers reply' with ⟨answers, hanswers⟩
    rcases hreturned answers (by rwa [getReply, hanswers]) with ⟨w, hw, hverifies⟩
    rw [run_get h, getReply, hanswers, hvalue] at hw
    rcases Option.filter_eq_some_iff.mp hw with ⟨hvw, hpass⟩
    exact Option.some.inj hvw ▸ hpass
  · rcases ValueSpiderCrawl.value_of_find (sv.getReply key s answers).ends with
      ⟨hnone, -⟩ | ⟨v, hvalue, hv⟩
    · rcases hvalid with ⟨w, hw, -⟩
      rw [← hsame.history_eq, hnone] at hw
      cases hw
    · rw [hsame.history_eq] at hv
      refine ⟨v, ?_, hmost v hv⟩
      rw [run_get h, hvalue, Option.filter_some, if_pos (hmost v hv)]

end Server

namespace Sample

def sampleServer : Server := ⟨20, 3, sampleProtocol, true, .plain, bincode⟩

/-- An empty store, and some contacts. -/
def knowing (peers : List Node) : ServerState where
  node :=
    { sampleProtocol.new 20 (.new (-1)) none 0 with
      router := peers.foldl (fun t n => ((t.addContact 0 1 n).map Prod.snd).getD t)
        (RoutingTable.new localNode 20 0) }
  now := 0
  outgoing := []

/-- Bytes that are no record at all. -/
def forged : Bytes := [0]

/-- Node 4 answers with the forged bytes, the others with the record. -/
def oneForger : Network :=
  .fixed fun id => ⟨true, .value (if id = (crawlNode 4).id then forged else recordA0)⟩

/-- The state from which `get` asks nodes 2 and 4, and the one from which it asks node 3
as well. -/
def twoPeers : ServerState := knowing [crawlNode 2, crawlNode 4]
def threePeers : ServerState := knowing [crawlNode 2, crawlNode 3, crawlNode 4]

theorem asksNetwork_twoPeers : sampleServer.AsksNetwork deviceName twoPeers :=
  ⟨rfl, by decide +kernel, rfl, by decide +kernel⟩

theorem asksNetwork_threePeers : sampleServer.AsksNetwork deviceName threePeers :=
  ⟨rfl, by decide +kernel, rfl, by decide +kernel⟩

/-- The lookup from `s`, against a network. -/
def sampleLookup (net : Network) (s : ServerState) : Option ValueOutcome :=
  ValueSpiderCrawl.find .plain net 1 (ValueSpiderCrawl.new .plain
    (sampleServer.lookupTarget deviceName) (sampleServer.lookupPeers deviceName s) 20 3)

end Sample

open Sample

/-- Two peers answer, one with a valid record and one with bytes that are no record; the
hash map lets the bytes win, and `get` returns nothing. -/
theorem forged_answer_hides_record :
    sampleServer.AsksNetwork deviceName twoPeers ∧
      ∃ answers : ∀ q, Answer sampleServer q,
        firstValues (sampleServer.getReply deviceName twoPeers answers).outcome.history =
          [recordA0, forged] ∧
        sampleServer.verifies deviceName recordA0 = true ∧
        ((sampleServer.get deviceName).run answers twoPeers).2 = none := by
  have hlookup : (sampleLookup (oneForger.preferring forged) twoPeers).map
      (fun o => (firstValues o.history, o.value)) = some ([recordA0, forged], some forged) := by
    decide +kernel
  rcases Option.map_eq_some_iff.mp hlookup with ⟨o, hfind, ho⟩
  rcases Prod.mk.inj ho with ⟨hvalues, hvalue⟩
  rcases exists_answers (⟨_, fun _ => false, 1, o, hfind⟩ : ValueReply sampleServer
    (sampleServer.lookupTarget deviceName) (sampleServer.lookupPeers deviceName twoPeers)) with
    ⟨answers, hanswers⟩
  refine ⟨asksNetwork_twoPeers, answers, ?_, by decide +kernel, ?_⟩
  · rw [Server.getReply, hanswers]
    exact hvalues
  · rw [Server.run_get asksNetwork_twoPeers, Server.getReply, hanswers]
    change o.value.filter _ = none
    rw [hvalue]
    decide +kernel

/-- With a third peer the record is received twice, and `get` returns it. -/
theorem valid_record_returned_threePeers :
    sampleServer.AsksNetwork deviceName threePeers ∧
      ∃ reply : ValueReply sampleServer (sampleServer.lookupTarget deviceName)
          (sampleServer.lookupPeers deviceName threePeers),
        reply.net = oneForger ∧ forged ∈ firstValues reply.outcome.history ∧
          ∀ answers, reply.SameAnswers (sampleServer.getReply deviceName threePeers answers) →
            ∃ v, ((sampleServer.get deviceName).run answers threePeers).2 = some v ∧
              sampleServer.verifies deviceName v = true := by
  rcases Server.valid_record_returned_iff asksNetwork_threePeers oneForger with
    ⟨reply, hnet, hiff⟩
  have hlookup : (sampleLookup oneForger threePeers).map (fun o => firstValues o.history) =
      some [recordA0, recordA0, forged] := by
    decide +kernel
  rcases Option.map_eq_some_iff.mp hlookup with ⟨o, hfind, ho⟩
  have hends := reply.ends
  rw [hnet] at hends
  have hvalues : firstValues reply.outcome.history = [recordA0, recordA0, forged] := by
    rw [ValueSpiderCrawl.find_unique hends hfind, ho]
  have hpass : sampleServer.verifies deviceName recordA0 = true := by decide +kernel
  refine ⟨asksNetwork_threePeers, reply, hnet, by simp [hvalues], ?_⟩
  refine (hiff ⟨recordA0, by simp [hvalues], hpass⟩).mpr ?_
  intro v hv
  rw [hvalues] at hv
  have hcount : ([recordA0, recordA0, forged] : List Bytes).count forged <
      [recordA0, recordA0, forged].count recordA0 := by decide +kernel
  have hcases : v = recordA0 ∨ v = forged := by simpa using hv.1
  rcases hcases with rfl | rfl
  · exact hpass
  · exact absurd (hv.2 recordA0 (by simp)) (by omega)

end AuthKademlia
