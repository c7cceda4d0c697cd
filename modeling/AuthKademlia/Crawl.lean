import AuthKademlia.Lib.Loop
import AuthKademlia.NodeHeap
import Mathlib.Data.List.Induction

/-!
# The iterative lookup

A lookup (`SpiderCrawl`) queries the closest known nodes it has not contacted, `alpha` at
a time, or all of them when a round has not changed the known ids; pushes the nodes named
in the answers; removes the peers that did not answer; and ends when every known node has
been contacted.  `ValueSpiderCrawl` also ends when a value has been received, with the
value received most often in that round.

What a lookup cannot control is a `Network`: the peers' answers, each a function of
everything that happened before, and the iteration order of the two hash maps.
`SpiderCrawl.history` records the rounds; the source keeps no such record.

## Main definitions

* `RawResponse`, `Round`, `Network` — answers, what happened in a round, the environment.
* `SpiderCrawl.findRound` — one round of queries.
* `NodeSpiderCrawl.find`, `ValueSpiderCrawl.find` — the two lookups.
-/

namespace AuthKademlia

open Lib

/-! ## Responses -/

/-- The payload of a response. -/
inductive FindPayload where
  | nodes (tuples : List (Bytes × Option String × Option UInt16))
  | value (v : Bytes)
  | empty
  deriving DecidableEq

/-- What a `call_find_*` method returns: whether a response came, and its payload. -/
structure RawResponse where
  happened : Bool
  payload : FindPayload
  deriving DecidableEq

namespace RawResponse

def getValue (r : RawResponse) : Option Bytes :=
  match r.payload with
  | .value v => some v
  | _ => none

/-- The node list of a response; entries whose id has the wrong length are dropped. -/
def getNodeList (r : RawResponse) : List Node :=
  match r.payload with
  | .nodes tuples =>
      tuples.filterMap fun (idBytes, ip, port) =>
        if h : idBytes.length = idLen then some ⟨⟨idBytes, h⟩, ip, port⟩ else none
  | _ => []

end RawResponse

/-- Responses by peer id. -/
abbrev Responses := List (NodeId × RawResponse)

/-- The peers queried in a round, and the responses in the order they were processed. -/
structure Round where
  queried : List Node
  responses : Responses
  deriving DecidableEq

/-- The environment of a lookup. -/
structure Network where
  /-- A peer's answer, which may depend on everything that happened before the round. -/
  answer : List Round → Node → RawResponse
  /-- The iteration order of the responses of a round. -/
  responseOrder : List Round → Responses → Responses
  responseOrder_perm : ∀ history l, (responseOrder history l).Perm l
  /-- The iteration order of the counted values of a round. -/
  countOrder : List Round → List (Bytes × ℕ) → List (Bytes × ℕ)
  countOrder_perm : ∀ history l, (countOrder history l).Perm l

/-- Peers that answer by a fixed rule, and hash maps that iterate in insertion order. -/
def Network.fixed (answer : NodeId → RawResponse) : Network where
  answer _ p := answer p.id
  responseOrder _ l := l
  responseOrder_perm _ l := List.Perm.refl l
  countOrder _ l := l
  countOrder_perm _ l := List.Perm.refl l

/-- The responses to the queries of a round; the ids are distinct, so collecting them
into a hash map loses nothing. -/
def Network.responses (net : Network) (history : List Round) (peers : List Node) : Responses :=
  net.responseOrder history (peers.map fun p => (p.id, net.answer history p))

/-! ## Rounds -/

/-- The state shared by the two lookups. -/
structure SpiderCrawl where
  alpha : ℕ
  node : Node
  nearest : NodeHeap
  lastIdsCrawled : List NodeId
  history : List Round

namespace SpiderCrawl

variable (lib : HeapLib) (net : Network)

def new (node : Node) (peers : List Node) (ksize alpha : ℕ) : SpiderCrawl :=
  ⟨alpha, node, (NodeHeap.new node ksize).push lib peers, [], []⟩

/-- The peers to query: all uncontacted ones if the known ids are those of the last round,
else the closest `alpha` of them. -/
def selectPeers (c : SpiderCrawl) : List Node :=
  let count := if c.nearest.getIds lib = c.lastIdsCrawled then c.nearest.len else c.alpha
  (c.nearest.getUncontacted lib).take count

/-- Select the peers of a round, mark them contacted and query them. -/
def findRound (c : SpiderCrawl) : Responses × SpiderCrawl :=
  let peers := c.selectPeers lib
  let responses := net.responses c.history peers
  (responses,
    { c with
      lastIdsCrawled := c.nearest.getIds lib
      nearest := peers.foldl NodeHeap.markContacted c.nearest
      history := c.history ++ [⟨peers, responses⟩] })

end SpiderCrawl

/-! ## Node lookup -/

namespace NodeSpiderCrawl

variable (lib : HeapLib) (net : Network)

/-- One response: push the nodes it names, or note the peer for removal. -/
def absorb (acc : NodeHeap × List NodeId) (response : NodeId × RawResponse) :
    NodeHeap × List NodeId :=
  if !response.2.happened then (acc.1, acc.2 ++ [response.1])
  else (acc.1.push lib response.2.getNodeList, acc.2)

/-- The body of the loop. -/
def round (c : SpiderCrawl) : SpiderCrawl :=
  let (responses, c) := c.findRound lib net
  let (nearest, toRemove) := responses.foldl (absorb lib) (c.nearest, [])
  { c with nearest := nearest.remove lib toRemove }

/-- The loop ends when every known node has been contacted. -/
def done (c : SpiderCrawl) : Bool := c.nearest.haveContactedAll lib

/-- Run the lookup; the nodes found, and what happened. -/
def find (fuel : ℕ) (c : SpiderCrawl) : Option (List Node × List Round) :=
  (loopUntil (round lib net) (done lib) fuel c).map fun c => (c.nearest.toVec lib, c.history)

end NodeSpiderCrawl

/-! ## Value lookup -/

/-- The state of a value lookup; `foundValues` are the values of the latest round. -/
structure ValueSpiderCrawl where
  base : SpiderCrawl
  nearestWithoutValue : NodeHeap
  foundValues : List Bytes

/-- What a value lookup returns: the value, or the closest nodes; the peer that was sent
a copy of the value; and what happened. -/
structure ValueOutcome where
  value : Option Bytes
  nodes : List Node
  cachedAt : Option Node
  history : List Round
  deriving DecidableEq

/-- How often each value occurs. -/
def countValues (values : List Bytes) : List (Bytes × ℕ) :=
  values.dedup.map fun v => (v, values.count v)

/-- `max_by_key`: the last of the entries with the greatest count. -/
def maxByCount (counts : List (Bytes × ℕ)) : Option (Bytes × ℕ) :=
  counts.foldl (fun best entry =>
    match best with
    | none => some entry
    | some b => if b.2 ≤ entry.2 then some entry else some b) none

theorem maxByCount_concat (counts : List (Bytes × ℕ)) (entry : Bytes × ℕ) :
    maxByCount (counts ++ [entry]) =
      match maxByCount counts with
      | none => some entry
      | some b => if b.2 ≤ entry.2 then some entry else some b := by
  rw [maxByCount, List.foldl_append]
  rfl

/-- **`max_by_key` finds an entry with the greatest count**, if there is an entry. -/
theorem maxByCount_spec {counts : List (Bytes × ℕ)} (h : counts ≠ []) :
    ∃ b ∈ counts, maxByCount counts = some b ∧ ∀ e ∈ counts, e.2 ≤ b.2 := by
  induction counts using List.reverseRecOn with
  | nil => exact absurd rfl h
  | append_singleton counts entry ih =>
      rw [maxByCount_concat]
      by_cases hnil : counts = []
      · subst hnil
        exact ⟨entry, by simp, rfl, by simp⟩
      · obtain ⟨b, hb, hmax, hle⟩ := ih hnil
        rw [hmax]
        by_cases hbe : b.2 ≤ entry.2
        · refine ⟨entry, by simp, by simp [hbe], ?_⟩
          intro e he
          rcases List.mem_append.mp he with he | he
          · exact (hle e he).trans hbe
          · rw [List.mem_singleton.mp he]
        · refine ⟨b, by simp [hb], by simp [hbe], ?_⟩
          intro e he
          rcases List.mem_append.mp he with he | he
          · exact hle e he
          · rw [List.mem_singleton.mp he]
            omega

namespace ValueSpiderCrawl

variable (lib : HeapLib) (net : Network)

def new (node : Node) (peers : List Node) (ksize alpha : ℕ) : ValueSpiderCrawl :=
  ⟨SpiderCrawl.new lib node peers ksize alpha, NodeHeap.new node 1, []⟩

/-- The variables of the loop over the responses. -/
structure Tally where
  nearest : NodeHeap
  nearestWithoutValue : NodeHeap
  toRemove : List NodeId
  foundValues : List Bytes

/-- One response: note the peer for removal, take the value, or remember the peer as one
without the value and push the nodes it names. -/
def absorb (acc : Tally) (response : NodeId × RawResponse) : Tally :=
  if !response.2.happened then { acc with toRemove := acc.toRemove ++ [response.1] }
  else
    match response.2.getValue with
    | some v => { acc with foundValues := acc.foundValues ++ [v] }
    | none =>
        { acc with
          nearestWithoutValue :=
            match acc.nearest.getNode response.1 with
            | some peer => acc.nearestWithoutValue.pushOne lib peer
            | none => acc.nearestWithoutValue
          nearest := acc.nearest.push lib response.2.getNodeList }

/-- The body of the loop up to its exits. -/
def round (v : ValueSpiderCrawl) : ValueSpiderCrawl :=
  let (responses, c) := v.base.findRound lib net
  let acc := responses.foldl (absorb lib) ⟨c.nearest, v.nearestWithoutValue, [], []⟩
  ⟨{ c with nearest := acc.nearest.remove lib acc.toRemove }, acc.nearestWithoutValue,
    acc.foundValues⟩

/-- The loop ends with a value, or when every known node has been contacted. -/
def done (v : ValueSpiderCrawl) : Bool :=
  !v.foundValues.isEmpty || NodeSpiderCrawl.done lib v.base

/-- The value found most often in the latest round. -/
def majority (v : ValueSpiderCrawl) : Option Bytes :=
  (maxByCount (net.countOrder v.base.history (countValues v.foundValues))).map Prod.fst

/-- The exits of the loop.  A value is sent on to the closest peer that did not have it,
and it is not verified before that. -/
def outcome (v : ValueSpiderCrawl) : ValueOutcome :=
  if !v.foundValues.isEmpty then
    let value := v.majority net
    { value := value
      nodes := []
      cachedAt := value.bind fun _ => v.nearestWithoutValue.popleft lib
      history := v.base.history }
  else
    { value := none
      nodes := v.base.nearest.toVec lib
      cachedAt := none
      history := v.base.history }

/-- Run the lookup. -/
def find (fuel : ℕ) (v : ValueSpiderCrawl) : Option ValueOutcome :=
  (loopUntil (round lib net) (done lib) fuel v).map (outcome lib net)

variable {net} in
/-- A round with values has a majority. -/
theorem exists_majority {v : ValueSpiderCrawl} (h : v.foundValues ≠ []) :
    ∃ value ∈ v.foundValues, v.majority net = some value ∧
      ∀ w ∈ v.foundValues, v.foundValues.count w ≤ v.foundValues.count value := by
  have hmem : ∀ e, e ∈ net.countOrder v.base.history (countValues v.foundValues) ↔
      ∃ w ∈ v.foundValues, (w, v.foundValues.count w) = e := by
    intro e
    rw [(net.countOrder_perm _ _).mem_iff, countValues, List.mem_map]
    simp only [List.mem_dedup]
  have hne : net.countOrder v.base.history (countValues v.foundValues) ≠ [] := by
    obtain ⟨w, hw⟩ := List.exists_mem_of_ne_nil _ h
    exact List.ne_nil_of_mem ((hmem _).mpr ⟨w, hw, rfl⟩)
  obtain ⟨b, hb, hmax, hle⟩ := maxByCount_spec hne
  obtain ⟨value, hvalue, rfl⟩ := (hmem b).mp hb
  refine ⟨value, hvalue, by rw [majority, hmax]; rfl, fun w hw => ?_⟩
  exact hle _ ((hmem _).mpr ⟨w, hw, rfl⟩)

end ValueSpiderCrawl

end AuthKademlia
