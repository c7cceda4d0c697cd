import AuthKademlia.Correlation
import AuthKademlia.ServerInvariant

/-!
# Invariants of a host

Whatever is to hold of the state of a host in every run of a cluster has to survive the code
between any two awaits: of a handler, of a background task, and of a local call.
`SegmentRules` and `LocalRules` list these pieces, and `Cluster.kept_exec` says that they are
all: a property with these rules holds in every run, whatever the other hosts do and the
network does with the datagrams.

A property may need something from outside.  The rules have conditions on the frames that
are dispatched (`hears`), on how the calls of the background tasks end (`gets`), and on the
queries of lookups and the requests of local calls (`answers`, `acks`); what a local call
presents for verification has `T`, what passes it has `V`, and what is written has `W`.

A property may also come about only in the course of a run, while local calls are waiting.
So the rules for these are given twice: for `I`, and for `I` together with a property `J` that
stays once it is there (`Host.Kept.and`).

## Main definitions

* `SegmentRules` — handlers and tasks keep `I`, and stop at points with `Q`.
* `LocalRules` — local calls keep `I`.
* `Host.Kept` — the invariant of a host.
* `Host.Meets` — what an event of the host itself has to meet.
-/

namespace AuthKademlia

open Lib Protocol

/-! ## The code between awaits -/

/-- A call is waited for. -/
def Point.calls : Point → Bool
  | .pinging _ | .storing _ => true
  | _ => false

/-- A handler calls nobody. -/
theorem Serves.calls_eq_false {peer : SocketAddr} {msg : RpcMessage} {point : Point}
    (h : Serves peer msg point) : point.calls = false := by
  cases h <;> rfl

/-- The segment leaves a state with `I` and stops at a point with `Q`, or is the last. -/
def Segment (I : NodeState → Prop) (Q : Point → Prop) (r : Progress × NodeState) : Prop :=
  I r.2 ∧ ∀ point ∈ r.1.pending, Q point

/-- Handlers and tasks keep `I`, if what they hear and get meets the conditions. -/
structure SegmentRules (p : Protocol) (I : NodeState → Prop) (Q : Point → Prop)
    (hears : SocketAddr → Frame → Prop) (gets : Point → CallResult → Prop) : Prop where
  request : ∀ {now peer frame s}, frame.isRequest = true → hears peer frame → I s →
    Segment I Q (p.beginRequest now frame.message peer s)
  response : ∀ {peer frame s}, frame.isRequest = false → hears peer frame → I s →
    I (receiveResponse frame.message peer s)
  start : ∀ {s i task}, I s → s.tasks[i]? = some task →
    Segment I Q (startTask task, { s with tasks := s.tasks.eraseIdx i })
  advance : ∀ {now fuel result s point r}, I s → Q point →
    (point.calls = true → gets point result) → p.advance now fuel result s point = some r →
    Segment I Q r
  cacheDrop : ∀ {s} key, I s → I { s with sigCache := s.sigCache.map fun c => c.erase key }

/-- Two properties that are kept are kept together. -/
theorem SegmentRules.and {p : Protocol} {I J : NodeState → Prop} {Q : Point → Prop}
    {hears : SocketAddr → Frame → Prop} {gets : Point → CallResult → Prop}
    (h : SegmentRules p I Q hears gets) (h' : SegmentRules p J Q hears gets) :
    SegmentRules p (fun s => I s ∧ J s) Q hears gets where
  request hrequest hheard hs :=
    have hI := h.request hrequest hheard hs.1
    ⟨⟨hI.1, (h'.request hrequest hheard hs.2).1⟩, hI.2⟩
  response hresponse hheard hs :=
    ⟨h.response hresponse hheard hs.1, h'.response hresponse hheard hs.2⟩
  start hs htask :=
    have hI := h.start hs.1 htask
    ⟨⟨hI.1, (h'.start hs.2 htask).1⟩, hI.2⟩
  advance hs hpoint hgets hadvance :=
    have hI := h.advance hs.1 hpoint hgets hadvance
    ⟨⟨hI.1, (h'.advance hs.2 hpoint hgets hadvance).1⟩, hI.2⟩
  cacheDrop key hs := ⟨h.cacheDrop key hs.1, h'.cacheDrop key hs.2⟩

/-! ## Local calls -/

/-- Every query of the lookup ended as `answers` allows. -/
def HistoryMeets (answers : Node → Bool → Prop) (history : List Round) : Prop :=
  ∀ round ∈ history, ∀ peer ∈ round.queried,
    answers peer ((round.responses.lookup peer.id).any (·.happened))

/-- The queries of lookups ended as `answers` allows, and requests as `acks` allows; what is
found has `T`. -/
def AnswersMeet (sv : Server) (T : Bytes → Prop) (answers : Node → Bool → Prop)
    (acks : Node → RpcMessage → CallResult → Prop) : ∀ q, Answer sv q → Prop
  | .valueLookup _ _, reply =>
      HistoryMeets answers reply.outcome.history ∧ ∀ v, reply.outcome.value = some v → T v
  | .nodeLookup _ _, reply => HistoryMeets answers reply.history
  | .calls requests, results =>
      ∀ (i : ℕ) peer request, requests[i]? = some (peer, request) → acks peer request (results i)
  | _, _ => True

theorem answersMeet_unconditional {sv : Server} (q : Question) (a : Answer sv q) :
    AnswersMeet sv (fun _ => True) (fun _ _ => True) (fun _ _ _ => True) q a := by
  cases q <;> simp [AnswersMeet, HistoryMeets]

/-- Local calls keep `I`: the parts they are built from do. -/
structure LocalRules (sv : Server) (I : NodeState → Prop) (T : Bytes → Prop)
    (V : String → Bytes → Prop) (W : NodeId → Bytes → Prop) (answers : Node → Bool → Prop)
    (acks : Node → RpcMessage → CallResult → Prop) : Prop where
  stored : ∀ {s now v} (key : NodeId), I s → s.storage.get now key.bytes = some v → T v
  touched : ∀ {s} now target, I s →
    I { s with router := (s.router.findNeighbors now target none).2 }
  verified : ∀ {s} key value, T value → I s →
    I { s with sigCache :=
      (verifyValue sv.protocol.hash sv.protocol.signatureHandler s.sigCache key value).2 } ∧
    ((verifyValue sv.protocol.hash sv.protocol.signatureHandler s.sigCache key value).1 = true →
      V key value)
  written : ∀ {s} now key value, W key value → I s →
    I { s with storage := s.storage.set now key.bytes value }
  deleted : ∀ {s} (key : NodeId), I s → I { s with storage := s.storage.delete key.bytes }
  queried : ∀ {s} undialable peer answered, answers peer answered → I s →
    I (afterQuery undialable peer answered s)
  called : ∀ {s} peer request result, acks peer request result → I s →
    I (callRpc peer request result s).2

namespace LocalRules

variable {sv : Server} {I : NodeState → Prop} {T : Bytes → Prop} {V : String → Bytes → Prop}
  {W : NodeId → Bytes → Prop} {answers : Node → Bool → Prop}
  {acks : Node → RpcMessage → CallResult → Prop} {s : NodeState}

theorem afterRound (h : LocalRules sv I T V W answers acks) (undialable : Node → Bool)
    {round : Round}
    (hround : ∀ peer ∈ round.queried,
      answers peer ((round.responses.lookup peer.id).any (·.happened))) (hs : I s) :
    I (afterRound undialable s round) := by
  unfold AuthKademlia.afterRound
  generalize round.queried = queried at hround
  induction queried generalizing s with
  | nil => exact hs
  | cons peer queried ih =>
      refine ih ?_ fun p hp => hround p (List.mem_cons_of_mem _ hp)
      exact h.queried undialable peer _ (hround peer List.mem_cons_self) hs

theorem afterLookup (h : LocalRules sv I T V W answers acks) (undialable : Node → Bool)
    {history : List Round} (hhistory : HistoryMeets answers history) (hs : I s) :
    I (afterLookup undialable history s) := by
  induction history generalizing s with
  | nil => exact hs
  | cons round history ih =>
      refine ih (fun r hr => hhistory r (List.mem_cons_of_mem _ hr)) ?_
      exact h.afterRound undialable (hhistory round List.mem_cons_self) hs

theorem settle (h : LocalRules sv I T V W answers acks) {requests : List (Node × RpcMessage)}
    {results : ℕ → CallResult} (hresults : AnswersMeet sv T answers acks (.calls requests) results)
    (hs : I s) : I (settle requests results s).2 := by
  induction requests generalizing results s with
  | nil => exact hs
  | cons r requests ih =>
      refine ih (fun i peer request hi => hresults (i + 1) peer request hi) ?_
      exact h.called r.1 r.2 (results 0) (hresults 0 r.1 r.2 rfl) hs

/-- Two properties that are kept are kept together. -/
theorem and {J : NodeState → Prop} {V' : String → Bytes → Prop}
    (h : LocalRules sv I T V W answers acks) (h' : LocalRules sv J T V' W answers acks) :
    LocalRules sv (fun s => I s ∧ J s) T V W answers acks where
  touched now target hs := ⟨h.touched now target hs.1, h'.touched now target hs.2⟩
  stored key hs hget := h.stored key hs.1 hget
  verified key value hT hs :=
    have hI := h.verified key value hT hs.1
    ⟨⟨hI.1, (h'.verified key value hT hs.2).1⟩, hI.2⟩
  written now key value hW hs := ⟨h.written now key value hW hs.1, h'.written now key value hW hs.2⟩
  deleted key hs := ⟨h.deleted key hs.1, h'.deleted key hs.2⟩
  queried undialable peer answered ha hs :=
    ⟨h.queried undialable peer answered ha hs.1, h'.queried undialable peer answered ha hs.2⟩
  called peer request result ha hs :=
    ⟨h.called peer request result ha hs.1, h'.called peer request result ha hs.2⟩

theorem and_true (h : LocalRules sv I T V W answers acks) :
    LocalRules sv (fun s => I s ∧ True) T V W answers acks where
  stored key hs hget := h.stored key hs.1 hget
  touched now target hs := ⟨h.touched now target hs.1, trivial⟩
  verified key value hT hs :=
    have hI := h.verified key value hT hs.1
    ⟨⟨hI.1, trivial⟩, hI.2⟩
  written now key value hW hs := ⟨h.written now key value hW hs.1, trivial⟩
  deleted key hs := ⟨h.deleted key hs.1, trivial⟩
  queried undialable peer answered ha hs := ⟨h.queried undialable peer answered ha hs.1, trivial⟩
  called peer request result ha hs := ⟨h.called peer request result ha hs.1, trivial⟩

/-- The judgement of the call rules: the process keeps `I`, and `J` if it is there, if the
answers meet the conditions. -/
def Judgement (sv : Server) (I J : NodeState → Prop) (ok good : ∀ q, Answer sv q → Prop) {α : Type}
    (post : α → Prop) (m : ServerProcess sv α) : Prop :=
  m.Keeps (fun s => I s.node) (fun s => J s.node) ok good post

section Judgement

variable {J : NodeState → Prop} {V' : String → Bytes → Prop} {answers' : Node → Bool → Prop}
  {acks' : Node → RpcMessage → CallResult → Prop}

variable (h : LocalRules sv I T V W answers acks)
  (h' : LocalRules sv (fun s => I s ∧ J s) T V' W answers' acks')
include h h'

theorem callAll (requests : List (Node × RpcMessage)) :
    Judgement sv I J (AnswersMeet sv T answers acks) (AnswersMeet sv T answers' acks')
      (fun _ => True) (sv.callAll requests) := by
  refine Process.Keeps.seq (Process.keeps_lift fun s hs => ⟨hs, id, trivial⟩) fun _ => ?_
  refine Process.keeps_ask_act fun results s hresults hs => ⟨h.settle hresults hs, ?_⟩
  exact fun hgood hJ => (h'.settle hgood ⟨hs, hJ⟩).2

theorem callRules :
    sv.CallRules
      (Judgement sv I J (AnswersMeet sv T answers acks) (AnswersMeet sv T answers' acks')) T V W (fun _ _ => True) (fun _ => True) where
  pure := Process.keeps_pure
  bind := Process.Keeps.bind
  yield := Process.keeps_ask fun _ _ => trivial
  storageGet key := Process.keeps_lift fun s hs => ⟨hs, id, fun _ hget => h.stored key hs hget⟩
  findNeighbors target := Process.keeps_lift fun s hs =>
    ⟨h.touched s.now target hs, fun hJ => (h'.touched s.now target ⟨hs, hJ⟩).2, trivial⟩
  verifyValue key value hT :=
    Process.Keeps.seq (Process.keeps_ask fun _ _ => trivial) fun _ =>
      Process.keeps_lift fun s hs => ⟨(h.verified key value hT hs).1,
        fun hJ => (h'.verified key value hT ⟨hs, hJ⟩).1.2, (h.verified key value hT hs).2⟩
  storageSet hW := Process.keeps_lift fun s hs =>
    ⟨h.written s.now _ _ hW hs, fun hJ => (h'.written s.now _ _ hW ⟨hs, hJ⟩).2, trivial⟩
  storageDelete _ := Process.keeps_lift fun s hs =>
    ⟨h.deleted _ hs, fun hJ => (h'.deleted _ ⟨hs, hJ⟩).2, trivial⟩
  callAll _ := h.callAll h' _
  valueLookup target peers := by
    refine Process.keeps_ask_lift (fun reply s hreply hs =>
      ⟨h.afterLookup reply.undialable hreply.1 hs, ?_⟩) fun reply hreply _ => ?_
    · exact fun hgood hJ => (h'.afterLookup reply.undialable hgood.1 ⟨hs, hJ⟩).2
    · split
      · exact Process.Keeps.seq (h.callAll h' _) fun _ => Process.keeps_pure hreply.2
      · exact Process.keeps_pure hreply.2
  nodeLookup target peers := by
    refine Process.keeps_ask_act fun reply s hreply hs =>
      ⟨h.afterLookup reply.undialable hreply hs, ?_⟩
    exact fun hgood hJ => (h'.afterLookup reply.undialable hgood ⟨hs, hJ⟩).2
  refreshIds := Process.keeps_ask fun _ _ => trivial
  oldEntries := Process.keeps_lift fun s hs => ⟨hs, id, fun _ _ _ => trivial⟩

/-- The calls to join and to leave write nothing and only use lookups. -/
theorem memberProcess (c : MemberCall) :
    Judgement sv I J (AnswersMeet sv T answers acks) (AnswersMeet sv T answers' acks')
      (fun _ => True) (sv.memberProcess c) := by
  have hcalls : ∀ requests, Judgement sv I J (AnswersMeet sv T answers acks)
      (AnswersMeet sv T answers' acks') (fun _ => True) (Process.ask (Question.calls requests)) :=
    fun _ => Process.keeps_ask fun _ _ => trivial
  have hrules := h.callRules h'
  have hneighbors := hrules.findNeighbors sv.protocol.sourceNode
  cases c with
  | bootstrap addrs =>
      refine Process.Keeps.seq ?_ fun _ => Process.keeps_pure trivial
      unfold Server.bootstrap
      split
      · exact Process.Keeps.seq (hcalls _) fun _ => hrules.nodeLookup _ _
      · exact Process.keeps_pure trivial
  | stop =>
      refine Process.Keeps.seq ?_ fun _ => Process.keeps_pure trivial
      unfold Server.stop
      split
      · refine Process.Keeps.seq hneighbors fun _ => ?_
        exact Process.Keeps.seq (hcalls _) fun _ => Process.keeps_pure trivial
      · exact Process.keeps_pure trivial
  | saveState =>
      refine Process.Keeps.seq ?_ fun _ => Process.keeps_pure trivial
      unfold Server.saveState Server.bootstrappableNeighbors
      refine Process.Keeps.seq ?_ fun _ => ?_
      · split
        · exact Process.Keeps.seq hneighbors fun _ => Process.keeps_pure trivial
        · exact Process.keeps_pure trivial
      · split <;> exact Process.keeps_pure trivial

end Judgement

end LocalRules

/-! ## Hosts -/

section Hosts

variable (gets : Point → CallResult → Prop) (T : Bytes → Prop) (V : String → Bytes → Prop)
  (W : NodeId → Bytes → Prop) (answers : Node → Bool → Prop)
  (acks : Node → RpcMessage → CallResult → Prop)

/-- The state has `I` and will have it after every segment, and every suspended future is at
a point with `Q`; the local calls under way also keep `J` if it is there. -/
structure Host.Kept {sv : Server} (I J : NodeState → Prop) (Q : Point → Prop)
    (ok good : ∀ q, Answer sv q → Prop) (h : Host sv) : Prop where
  pool : h.pool.Keeps (fun s => I s.node) (fun s => J s.node) ok good
  serving : ∀ q ∈ h.serving, Q q.point
  tasks : ∀ point ∈ h.tasks, Q point

/-- What an event of a host's own has to meet: the results of calls and lookups are as the
conditions allow, and a local call is one that writes what has `W`. -/
def Host.Meets {sv : Server} (h : Host sv) : HostEvent sv → Prop
  | .background (.resume _ _ i result) =>
      ∀ point ∈ h.tasks[i]?, point.calls = true → gets point result
  | .server (.call _ c) => sv.CallAllowed V W (fun _ _ => True) (fun _ => True) c ∧
      ∀ value, c.written = some value → T value
  | .server (.resume _ i replies) => ∀ q next cont,
      h.pool.processes[i]? = some (.wait q next cont) → AnswersMeet sv T answers acks q (replies q)
  | _ => True

end Hosts

namespace Host

variable {sv : Server} {h h' : Host sv} {I J : NodeState → Prop} {Q : Point → Prop}
  {ok good : ∀ q, Answer sv q → Prop} {hears : SocketAddr → Frame → Prop}
  {gets : Point → CallResult → Prop}

theorem Kept.state (hk : h.Kept I J Q ok good) : I h.state := hk.pool.shared

/-- **Once `J` holds it is part of the invariant**, and the futures that are suspended then may
have more in common than before. -/
theorem Kept.and (hk : h.Kept I J Q ok good) (hJ : J h.state) (hok : ∀ q a, good q a → ok q a)
    {Q' : Point → Prop} (hQ : ∀ point ∈ h.points, Q' point) (good' : ∀ q, Answer sv q → Prop) :
    h.Kept (fun s => I s ∧ J s) (fun _ => True) Q' good good' where
  pool := hk.pool.and hJ hok good'
  serving q hq := hQ q.point (List.mem_append_left _ (List.mem_map_of_mem hq))
  tasks point hpoint := hQ point (List.mem_append_right _ hpoint)

theorem Kept.send (hk : h.Kept I J Q ok good) (dest : SocketAddr) (frame : Frame)
    (accepted : ℕ) : (h.send dest frame accepted).2.Kept I J Q ok good := by
  obtain heq | ⟨datagrams, heq, -⟩ := send_cases h dest frame accepted
  · rw [heq]
    exact hk
  · rw [heq]
    exact ⟨hk.pool, hk.serving, hk.tasks⟩

theorem Kept.withState (hk : h.Kept I J Q ok good) {s : NodeState} (hs : I s) :
    (h.withState s).Kept I J Q ok good :=
  ⟨hk.pool.change hs, hk.serving, hk.tasks⟩

theorem Kept.progress (hk : h.Kept I J Q ok good) {r : Progress × NodeState}
    (hr : Segment I Q r) (peer : SocketAddr) (msgId : UInt32) (message : RpcMessage)
    (accepted : ℕ) : (h.progress peer msgId message accepted r).Kept I J Q ok good := by
  have hstate := hk.withState hr.1
  unfold Host.progress
  split
  · rename_i point hwaits
    refine ⟨hstate.pool, ?_, hstate.tasks⟩
    intro q hq
    obtain hq | hq := List.mem_append.mp hq
    · exact hk.serving q hq
    · rw [List.mem_singleton.mp hq]
      exact hr.2 point (by simp [hwaits, Progress.pending])
  · exact hstate
  · exact hstate.send _ _ _

/-- **A background task** does a segment. -/
theorem Kept.background (hk : h.Kept I J Q ok good)
    (hrules : SegmentRules sv.protocol I Q hears gets) {e : LiveEvent}
    (hmeets : ∀ now fuel i result, e = .resume now fuel i result →
      ∀ point ∈ h.tasks[i]?, point.calls = true → gets point result)
    (hstep : h.step (.background e) = some h') : h'.Kept I J Q ok good := by
  have hjoin : ∀ {points : List Point} {r : Progress × NodeState}, (∀ point ∈ points, Q point) →
      Segment I Q r → { h.withState r.2 with tasks := points ++ r.1.pending }.Kept I J Q ok
        good := by
    intro points r hpoints hr
    refine ⟨(hk.withState hr.1).pool, hk.serving, ?_⟩
    intro point hpoint
    exact (List.mem_append.mp hpoint).elim (hpoints point) (hr.2 point)
  obtain ⟨n, hlive, rfl⟩ := live_of_background hstep
  cases e with
  | request now msg peer => cases hstep
  | response msg peer => cases hstep
  | crawled peer answered => cases hstep
  | start i =>
      simp only [liveStep] at hlive
      split at hlive
      · cases hlive
        exact ⟨hk.pool, hk.serving, hk.tasks⟩
      · rename_i task htask
        cases hlive
        exact hjoin hk.tasks (hrules.start hk.state htask)
  | resume now fuel i result =>
      simp only [liveStep] at hlive
      split at hlive
      · cases hlive
        exact ⟨hk.pool, hk.serving, hk.tasks⟩
      · rename_i point hpoint
        obtain ⟨r, hr, rfl⟩ := Option.map_eq_some_iff.mp hlive
        have hQ := hk.tasks point (List.mem_of_getElem? hpoint)
        refine hjoin (fun point hmem => hk.tasks point (List.mem_of_mem_eraseIdx hmem)) ?_
        exact hrules.advance hk.state hQ (hmeets now fuel i result rfl point hpoint) hr
  | cacheDrop key =>
      cases hlive
      exact ⟨hk.pool.change (hrules.cacheDrop key hk.state), hk.serving, hk.tasks⟩

/-- The clock of a host goes on. -/
theorem Kept.clock (hk : h.Kept I J Q ok good) (now : ℕ) :
    Pool.Keeps (fun s : ServerState => I s.node) (fun s => J s.node) ok good
      { h.pool with shared := { h.pool.shared with now := now } } :=
  hk.pool.change hk.pool.shared

section Step

variable {T : Bytes → Prop} {V V' : String → Bytes → Prop} {W : NodeId → Bytes → Prop}
  {answers answers' : Node → Bool → Prop}
  {acks acks' : Node → RpcMessage → CallResult → Prop}

/-- **A local call** starts or goes on. -/
theorem Kept.server
    (hk : h.Kept I J Q (AnswersMeet sv T answers acks) (AnswersMeet sv T answers' acks'))
    (hlocal : LocalRules sv I T V W answers acks)
    (hstays : LocalRules sv (fun s => I s ∧ J s) T V' W answers' acks') {e : ServerEvent sv}
    (hmeets : h.Meets gets T V W answers acks (.server e)) (hstep : h.step (.server e) = some h') :
    h'.Kept I J Q (AnswersMeet sv T answers acks) (AnswersMeet sv T answers' acks') := by
  cases e with
  | node e => cases hstep
  | call now c =>
      cases hstep
      refine ⟨?_, hk.serving, hk.tasks⟩
      exact (hk.clock now).spawn ((hlocal.callRules hstays).process hmeets.1 hmeets.2)
  | resume now i replies =>
      cases hstep
      refine ⟨?_, hk.serving, hk.tasks⟩
      exact (hk.clock now).resume hmeets

theorem Kept.step
    (hk : h.Kept I J Q (AnswersMeet sv T answers acks) (AnswersMeet sv T answers' acks'))
    (hw : h.WellFormed) (hrules : SegmentRules sv.protocol I Q hears gets)
    (hlocal : LocalRules sv I T V W answers acks)
    (hstays : LocalRules sv (fun s => I s ∧ J s) T V' W answers' acks') {e : HostEvent sv}
    (hmeets : h.Meets gets T V W answers acks e) (hstep : h.step e = some h') :
    h'.Kept I J Q (AnswersMeet sv T answers acks) (AnswersMeet sv T answers' acks') := by
  cases e with
  | background e =>
      refine hk.background hrules ?_ hstep
      rintro now fuel i result rfl
      exact hmeets
  | server e => exact hk.server hlocal hstays hmeets hstep
  | member now c =>
      cases hstep
      exact ⟨(hk.clock now).spawn (hlocal.memberProcess hstays c), hk.serving, hk.tasks⟩
  | serve now fuel i accepted =>
      obtain ⟨q, r, hq, -, hr, rfl⟩ := step_serve_eq_some.mp hstep
      have hmem := List.mem_of_getElem? hq
      have hrest : { h with serving := h.serving.eraseIdx i }.Kept I J Q
          (AnswersMeet sv T answers acks) (AnswersMeet sv T answers' acks') :=
        ⟨hk.pool, fun q hq => hk.serving q (List.mem_of_mem_eraseIdx hq), hk.tasks⟩
      refine hrest.progress (hrules.advance hk.state (hk.serving q hmem) ?_ hr) _ _ _ _
      simp [(hw.serving q hmem).calls_eq_false]
  | hang i =>
      obtain ⟨point, -, -, -, rfl⟩ := step_hang_eq_some.mp hstep
      exact ⟨hk.pool, hk.serving, hk.tasks⟩
  | ask c accepted =>
      obtain ⟨call, -, hstep⟩ := Option.bind_eq_some_iff.mp hstep
      obtain ⟨calls, -, rfl⟩ := Option.map_eq_some_iff.mp hstep
      have hsent := hk.send call.addr call.frame accepted
      exact ⟨hsent.pool, hsent.serving, hsent.tasks⟩
  | collect now =>
      cases hstep
      exact ⟨hk.pool, hk.serving, hk.tasks⟩
  | calls e =>
      cases e with
      | sendFrame c ok => cases hstep
      | receive peer frame => cases hstep
      | _ =>
          simp only [Host.step, Option.map_eq_some_iff] at hstep
          obtain ⟨calls, -, rfl⟩ := hstep
          exact ⟨hk.pool, hk.serving, hk.tasks⟩

end Step

theorem Kept.receive (hk : h.Kept I J Q ok good)
    (hrules : SegmentRules sv.protocol I Q hears gets) {now accepted : ℕ} {peer : SocketAddr}
    {data : Bytes}
    (hheard : ∀ frame, (receiveFrame sv.wire now h.reassembly peer data).1 = some frame →
      hears peer frame) : (h.receive now accepted peer data).Kept I J Q ok good := by
  unfold Host.receive
  dsimp only
  have hmap : { h with reassembly := (receiveFrame sv.wire now h.reassembly peer data).2 }.Kept I J
      Q ok good := ⟨hk.pool, hk.serving, hk.tasks⟩
  split
  · exact hmap
  · rename_i frame hframe
    unfold Host.dispatch
    split
    · rename_i hrequest
      exact hmap.progress (hrules.request hrequest (hheard frame hframe) hk.state) _ _ _ _
    · rename_i hresponse
      have hs := hrules.response (by simpa using hresponse) (hheard frame hframe) hk.state
      have hstate := hmap.withState hs
      exact ⟨hstate.pool, hstate.serving, hstate.tasks⟩

end Host

/-! ## Clusters -/

namespace Cluster

variable {servers : SocketAddr → Server} {pools : ∀ a, ServerPool (servers a)}
  {c c' : Cluster servers} {run pre post : List (ClusterEvent servers)} {b : SocketAddr}
  {I J : NodeState → Prop} {Q : Point → Prop} {hears : SocketAddr → Frame → Prop}
  {gets : Point → CallResult → Prop} {T : Bytes → Prop} {V V' : String → Bytes → Prop}
  {W : NodeId → Bytes → Prop}
  {answers answers' : Node → Bool → Prop} {acks acks' : Node → RpcMessage → CallResult → Prop}

/-- Whatever the host `b` does itself meets the conditions, in a run that starts in `c`. -/
def OwnEvents (gets : Point → CallResult → Prop) (T : Bytes → Prop) (V : String → Bytes → Prop)
    (W : NodeId → Bytes → Prop) (answers : Node → Bool → Prop)
    (acks : Node → RpcMessage → CallResult → Prop) (b : SocketAddr) (c : Cluster servers)
    (run : List (ClusterEvent servers)) : Prop :=
  EachStep step (fun d e => ∀ he, e = .acts b he → (d b).Meets gets T V W answers acks he) c run

/-- Whatever is dispatched at `b` meets the condition, in a run that starts in `c`. -/
def Hears (hears : SocketAddr → Frame → Prop) (b : SocketAddr) (c : Cluster servers)
    (run : List (ClusterEvent servers)) : Prop :=
  EachStep step (fun d e => ∀ peer frame, Dispatches d e b peer frame → hears peer frame) c run

/-- **The invariant rule for a host.**  What the code between awaits keeps holds in every run
of the cluster, from any state that has been reached. -/
theorem kept_exec_from (hrules : SegmentRules (servers b).protocol I Q hears gets)
    (hlocal : LocalRules (servers b) I T V W answers acks)
    (hstays : LocalRules (servers b) (fun s => I s ∧ J s) T V' W answers' acks')
    (hpre : exec step (start pools) pre = some c)
    (hkept : (c b).Kept I J Q (AnswersMeet _ T answers acks) (AnswersMeet _ T answers' acks'))
    (hpost : exec step c post = some c') (hheard : Hears hears b c post)
    (hown : OwnEvents gets T V W answers acks b c post) :
    (c' b).Kept I J Q (AnswersMeet _ T answers acks) (AnswersMeet _ T answers' acks') := by
  refine exec_along (fun _ d => (d b).Kept I J Q (AnswersMeet _ T answers acks)
    (AnswersMeet _ T answers' acks')) hkept ?_ hpost
  intro pre' e post' d d' hsplit hpre' hk hstep
  have hreached : exec step (start pools) (pre ++ pre') = some d := by
    rw [exec_append, hpre]
    exact hpre'
  obtain ⟨a, h', rfl, hcases⟩ := step_cases hstep
  by_cases hab : b = a
  · subst hab
    rw [Function.update_self]
    obtain ⟨he, rfl, hact⟩ | ⟨src, data, now, accepted, harrives, rfl⟩ := hcases
    · exact hk.step (wellFormed_exec hreached b) hrules hlocal hstays
        (hown pre' _ post' d hsplit hpre' he rfl) hact
    · exact hk.receive hrules fun frame hframe => hheard pre' e post' d hsplit hpre' src frame
        ⟨data, now, accepted, harrives, hframe⟩
  · rw [Function.update_of_ne hab]
    exact hk

theorem kept_start (hidle : (pools b).processes = []) (hI : I (pools b).shared.node)
    (ok good : ∀ q, Answer (servers b) q → Prop) :
    ((start pools : Cluster servers) b).Kept I J Q ok good := by
  refine ⟨⟨hI, ?_⟩, ?_, ?_⟩
  · simp [start, Host.start, hidle]
  · simp [start, Host.start]
  · simp [start, Host.start]

theorem hears_start_iff : Hears hears b (start pools) run ↔
    ∀ peer frame, Dispatched pools run b peer frame → hears peer frame := by
  constructor
  · rintro h peer frame ⟨pre, e, post, d, hsplit, hpre, hdispatches⟩
    exact h pre e post d hsplit hpre peer frame hdispatches
  · intro h pre e post d hsplit hpre peer frame hdispatches
    exact h peer frame ⟨pre, e, post, d, hsplit, hpre, hdispatches⟩

/-- **From the start**, for a property that holds there. -/
theorem kept_exec (hrules : SegmentRules (servers b).protocol I Q hears gets)
    (hlocal : LocalRules (servers b) I T V W answers acks)
    (hidle : (pools b).processes = []) (hI : I (pools b).shared.node)
    (hrun : exec step (start pools) run = some c)
    (hheard : ∀ peer frame, Dispatched pools run b peer frame → hears peer frame)
    (hown : OwnEvents gets T V W answers acks b (start pools) run) : I (c b).state := by
  have hstart : exec step (start pools) [] = some (start pools) := rfl
  exact (kept_exec_from hrules hlocal hlocal.and_true hstart (kept_start hidle hI _ _) hrun
    (hears_start_iff.mpr hheard) hown).state

end Cluster

end AuthKademlia
