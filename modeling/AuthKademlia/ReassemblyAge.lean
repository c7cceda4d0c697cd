import AuthKademlia.ReassemblyBound

/-!
# The age of reassembled messages

A payload that `handle_datagram` puts together comes from fragments that arrived at
different times.  `TrackedMap` keeps, beside every buffer, the fragments whose chunks it
holds; a tracked run is a run of the receiver (`exec_map`), and what is tracked is what is
in the buffers (`Tracks`).

`REASSEMBLY_TTL` is checked by the collections alone.  They run after an incomplete
fragment has been put into its buffer, so a buffer of any age may still be completed.
`fresh_iff_inTime` says when the fragments of every payload are close in time: exactly if
no fragment fills the last free slot of a buffer that is too old.

## Main definitions

* `TrackedMap`, `TrackedMap.step` — the receiver with the fragments of every buffer.
* `ReceiveStep.DeliversFresh` — what a step delivers came within `REASSEMBLY_TTL`.
* `ReceiveStep.InTime` — the step does not complete a buffer that is too old.
-/

namespace AuthKademlia

open Lib

/-! ## One fragment -/

/-- The buffer with a chunk put into a free slot. -/
def ReassemblyEntry.fill (e : ReassemblyEntry) (index : UInt16) (chunk : Bytes) : ReassemblyEntry :=
  { e with chunks := e.chunks.set index.toNat (some chunk), received := e.received + 1 }

/-- The buffer a fragment goes to. -/
def bufferFor (now : ℕ) (map : ReassemblyMap) (peer : SocketAddr) (header : FragHeader) :
    ReassemblyEntry :=
  (map.lookup (peer, header.fragId)).getD (.new header.total now)

/-- The fragment goes to a free slot of its buffer. -/
def fills (now : ℕ) (map : ReassemblyMap) (peer : SocketAddr) (header : FragHeader) : Bool :=
  header.total ≠ 1 && header.total.toNat * fragChunkSize ≤ maxMessageSize &&
    (bufferFor now map peer header).total = header.total &&
    (bufferFor now map peer header).chunks[header.index.toNat]? = some none

section Fragment

variable {map : ReassemblyMap} {now : ℕ} {peer : SocketAddr} {data chunk : Bytes}
  {header : FragHeader}

theorem insert_of_free {e : ReassemblyEntry} {index : UInt16}
    (hfree : e.chunks[index.toNat]? = some none) (chunk : Bytes) :
    e.insert index chunk = (e.received + 1 == e.total, e.fill index chunk) := by
  simp [ReassemblyEntry.insert, hfree, ReassemblyEntry.fill]

/-- A chunk for a slot that is taken does not complete a buffer in progress. -/
theorem insert_of_taken {e : ReassemblyEntry} {index : UInt16} (h : e.InProgress)
    (htaken : e.chunks[index.toNat]? ≠ some none) (chunk : Bytes) :
    e.insert index chunk = (false, e) := by
  have hun : e.received ≠ e.total := UInt16.ne_of_lt h.unfinished
  simp only [ReassemblyEntry.insert]
  split
  · rfl
  · rename_i slot hslot
    cases slot with
    | none => exact absurd hslot htaken
    | some c => simpa using hun

/-- Writing back what is there changes no lookup. -/
theorem lookup_insert_same {key key' : SocketAddr × UInt32} {e : ReassemblyEntry}
    (h : map.lookup key = some e) : (map.insert key e).lookup key' = map.lookup key' := by
  by_cases hkey : key' = key
  · rw [hkey, AList.lookup_insert, h]
  · exact AList.lookup_insert_ne hkey

/-- A fragment that fills no slot delivers nothing and leaves the buffers alone. -/
theorem reassemble_of_not_fills (hmap : map.InProgress)
    (hp : parseFragment data = some (header, chunk)) (hfills : fills now map peer header = false) :
    (∀ key, (reassemble now map peer data).2.lookup key = map.lookup key) ∧
      (header.total ≠ 1 → ∀ payload, (reassemble now map peer data).1 ≠ .frame payload) := by
  by_cases hone : header.total = 1
  · simp [reassemble, hp, hone]
  by_cases hsize : header.total.toNat * fragChunkSize ≤ maxMessageSize
  case neg => simp [reassemble, hp, hone, Nat.not_le.mp hsize]
  have hindex := index_lt_of_parseFragment hp
  cases hl : map.lookup (peer, header.fragId) with
  | none =>
      -- a new buffer has every slot free
      simp [fills, bufferFor, hl, hone, hsize, ReassemblyEntry.new, hindex] at hfills
  | some e =>
      have hgoing := hmap _ e hl
      by_cases htotal : e.total = header.total
      · have hslot : e.chunks[header.index.toNat]? ≠ some none := by
          intro hfree
          simp [fills, bufferFor, hl, hone, hsize, htotal, hfree] at hfills
        have hinsert := insert_of_taken hgoing hslot chunk
        have hentry : (map.lookup (peer, header.fragId)).getD (.new header.total now) = e := by
          rw [hl, Option.getD_some]
        rw [reassemble_more hp hone hsize hentry htotal (by rw [hinsert]), hinsert]
        exact ⟨fun key => lookup_insert_same hl, fun _ payload => by simp⟩
      · have hreject : reassemble now map peer data = (.discarded
            (.inconsistentTotal header.total e.total), map.insert (peer, header.fragId) e) := by
          simp [reassemble, hp, hone, Nat.not_lt.mpr hsize, hl, htotal]
        rw [hreject]
        exact ⟨fun key => lookup_insert_same hl, fun _ payload => by simp⟩

/-- **A fragment that fills a slot** leaves a longer buffer, or completes the message. -/
theorem reassemble_of_fills (hmap : map.InProgress)
    (hp : parseFragment data = some (header, chunk)) (hfills : fills now map peer header = true) :
    let e := bufferFor now map peer header
    (e.received + 1 ≠ e.total ∧ reassemble now map peer data =
        (.incomplete, map.insert (peer, header.fragId) (e.fill header.index chunk))) ∨
      (e.received + 1 = e.total ∧ ∃ payload, (e.fill header.index chunk).assemble = some payload ∧
        reassemble now map peer data = (.frame payload, map.erase (peer, header.fragId))) := by
  simp only [fills, Bool.and_eq_true, decide_eq_true_eq] at hfills
  obtain ⟨⟨⟨hone, hsize⟩, htotal⟩, hfree⟩ := hfills
  have hinsert := insert_of_free hfree chunk
  have hgoing : (bufferFor now map peer header).InProgress := by
    have hmany : 2 ≤ header.total.toNat := by
      have hne : header.total.toNat ≠ 1 := fun heq => hone (UInt16.toNat_inj.mp heq)
      have hindex := index_lt_of_parseFragment hp
      omega
    exact (inProgress_getD hmap _ (ReassemblyEntry.inProgress_new hmany hsize now)).1
  have hindex : header.index.toNat < (bufferFor now map peer header).total.toNat :=
    htotal ▸ index_lt_of_parseFragment hp
  have hcases := @ReassemblyEntry.InProgress.insert _ header.index chunk hgoing hindex
  rw [hinsert] at hcases
  simp only [beq_eq_false_iff_ne, beq_iff_eq] at hcases
  rcases hcases with ⟨hmore, -⟩ | ⟨hdone, hsome⟩
  · left
    refine ⟨hmore, ?_⟩
    rw [reassemble_more hp hone hsize rfl htotal, ← bufferFor, hinsert]
    rw [← bufferFor, hinsert]
    simpa using hmore
  · right
    obtain ⟨payload, hpayload⟩ := Option.isSome_iff_exists.mp hsome
    refine ⟨hdone, payload, hpayload, reassemble_done hp hone hsize rfl htotal ?_ ?_⟩
    · rw [← bufferFor, hinsert]
      simpa using hdone
    · rw [← bufferFor, hinsert, hpayload]

end Fragment

/-! ## Tracked runs -/

/-- A fragment and the time it arrived. -/
structure FragmentArrival where
  index : UInt16
  chunk : Bytes
  arrivedAt : ℕ
  deriving DecidableEq

/-- The buffers, and for each the fragments whose chunks it holds, in order of arrival. -/
structure TrackedMap where
  map : ReassemblyMap
  sources : SocketAddr × UInt32 → List FragmentArrival

namespace TrackedMap

def start : TrackedMap := ⟨∅, fun _ => []⟩

/-- The fragments of a message with the one that arrives, if its chunk is used. -/
def sourcesAfter (st : TrackedMap) (s : ReceiveStep) (key : SocketAddr × UInt32) :
    List FragmentArrival :=
  match s with
  | .gc _ => st.sources key
  | .datagram now peer data =>
      match parseFragment data with
      | none => st.sources key
      | some (header, chunk) =>
          if key = (peer, header.fragId) ∧ fills now st.map peer header then
            st.sources key ++ [⟨header.index, chunk, now⟩]
          else st.sources key

/-- One critical section; the fragments of a buffer go with it. -/
def step (st : TrackedMap) (s : ReceiveStep) : Option TrackedMap :=
  (receiveStep st.map s).map fun map =>
    ⟨map, fun key => if (map.lookup key).isSome then st.sourcesAfter s key else []⟩

/-- A tracked run is a run of the receiver. -/
theorem exec_map {st st' : TrackedMap} {run : List ReceiveStep}
    (h : exec step st run = some st') : exec receiveStep st.map run = some st'.map := by
  induction run generalizing st with
  | nil =>
      cases h
      rfl
  | cons s run ih =>
      obtain ⟨r, hr, hrun⟩ := Option.bind_eq_some_iff.mp h
      obtain ⟨map, hmap, rfl⟩ := Option.map_eq_some_iff.mp hr
      rw [exec, hmap]
      exact ih hrun

end TrackedMap

/-- What is known of the fragments `fs` beside a buffer, after the steps `es`. -/
structure BufferTracked (es : List ReceiveStep) (key : SocketAddr × UInt32)
    (entry : Option ReassemblyEntry) (fs : List FragmentArrival) : Prop where
  gone : entry = none → fs = []
  /-- The filled slots hold the chunks of these fragments. -/
  chunks : ∀ e ∈ entry, ∀ (i : ℕ) (c : Bytes), e.chunks[i]? = some (some c) ↔
    ∃ f ∈ fs, f.index.toNat = i ∧ f.chunk = c
  /-- The buffer was created with the first of them. -/
  first : ∀ e ∈ entry, ∃ f ∈ fs, f.arrivedAt = e.createdAt
  since : ∀ e ∈ entry, ∀ f ∈ fs, e.createdAt ≤ f.arrivedAt
  /-- Each came in a datagram of its message. -/
  arrived : ∀ f ∈ fs, ∃ data header, .datagram f.arrivedAt key.1 data ∈ es ∧
    parseFragment data = some (header, f.chunk) ∧ header.fragId = key.2 ∧ header.index = f.index

/-- The invariant of a tracked run. -/
structure Tracks (es : List ReceiveStep) (st : TrackedMap) : Prop where
  inProgress : st.map.InProgress
  tracked : ∀ key, BufferTracked es key (st.map.lookup key) (st.sources key)

section Invariant

variable {es : List ReceiveStep} {st st' : TrackedMap} {s : ReceiveStep}
  {key : SocketAddr × UInt32} {entry : Option ReassemblyEntry} {fs : List FragmentArrival}

theorem bufferTracked_none (es : List ReceiveStep) (key : SocketAddr × UInt32) :
    BufferTracked es key none [] := by
  constructor <;> simp

theorem BufferTracked.mono (h : BufferTracked es key entry fs) (s : ReceiveStep) :
    BufferTracked (es ++ [s]) key entry fs where
  gone := h.gone
  chunks := h.chunks
  first := h.first
  since := h.since
  arrived f hf := by
    obtain ⟨data, header, hmem, hrest⟩ := h.arrived f hf
    exact ⟨data, header, List.mem_append_left _ hmem, hrest⟩

section Fill

variable (now : ℕ) {peer : SocketAddr} {data chunk : Bytes} {header : FragHeader}
  {map : ReassemblyMap}
  (h : BufferTracked es (peer, header.fragId) (map.lookup (peer, header.fragId)) fs)
include h

/-- The buffer a fragment goes to, be it new or not. -/
theorem BufferTracked.bufferFor_chunks (i : ℕ) (c : Bytes) :
    (bufferFor now map peer header).chunks[i]? = some (some c) ↔
      ∃ f ∈ fs, f.index.toNat = i ∧ f.chunk = c := by
  cases hl : map.lookup (peer, header.fragId) with
  | none => simp [bufferFor, hl, ReassemblyEntry.new, h.gone hl, List.getElem?_replicate]
  | some e =>
      rw [bufferFor, hl, Option.getD_some]
      exact h.chunks e hl i c

theorem BufferTracked.bufferFor_createdAt :
    (fs = [] ∧ (bufferFor now map peer header).createdAt = now) ∨
      ((∃ f ∈ fs, f.arrivedAt = (bufferFor now map peer header).createdAt) ∧
        ∀ f ∈ fs, (bufferFor now map peer header).createdAt ≤ f.arrivedAt) := by
  cases hl : map.lookup (peer, header.fragId) with
  | none => exact .inl ⟨h.gone hl, by simp [bufferFor, hl, ReassemblyEntry.new]⟩
  | some e =>
      rw [bufferFor, hl, Option.getD_some]
      exact .inr ⟨h.first e hl, h.since e hl⟩

variable {now}

/-- **The filled buffer** is made of the fragments that were there and the new one. -/
theorem BufferTracked.fill (hp : parseFragment data = some (header, chunk))
    (hfree : (bufferFor now map peer header).chunks[header.index.toNat]? = some none)
    (hclock : ∀ f ∈ fs, f.arrivedAt ≤ now) :
    BufferTracked (es ++ [.datagram now peer data]) (peer, header.fragId)
      (some ((bufferFor now map peer header).fill header.index chunk))
      (fs ++ [⟨header.index, chunk, now⟩]) := by
  have hcreated := h.bufferFor_createdAt now
  constructor <;> simp only [Option.mem_some_iff, forall_eq', ReassemblyEntry.fill]
  case gone => simp
  case chunks =>
    intro i c
    simp only [List.mem_append, List.mem_singleton, or_and_right, exists_or, exists_eq_left,
      ← h.bufferFor_chunks now]
    by_cases hi : header.index.toNat = i
    · obtain ⟨hlt, -⟩ := List.getElem?_eq_some_iff.mp hfree
      rw [← hi, List.getElem?_set_self hlt, hfree]
      simp
    · simp [List.getElem?_set_ne hi, hi]
  case first =>
    rcases hcreated with ⟨-, hnow⟩ | ⟨⟨f, hf, hfirst⟩, -⟩
    · exact ⟨⟨header.index, chunk, now⟩, by simp, hnow.symm⟩
    · exact ⟨f, by simp [hf], hfirst⟩
  case since =>
    intro f hf
    rcases hcreated with ⟨hnil, hnow⟩ | ⟨⟨g, hg, hfirst⟩, hsince⟩
    · obtain rfl : f = ⟨header.index, chunk, now⟩ := by simpa [hnil] using hf
      exact hnow.le
    · rcases List.mem_append.mp hf with hf | hf
      · exact hsince f hf
      · rw [List.mem_singleton.mp hf, ← hfirst]
        exact hclock g hg
  case arrived =>
    intro f hf
    rcases List.mem_append.mp hf with hf | hf
    · exact (h.mono _).arrived f hf
    · rw [List.mem_singleton.mp hf]
      exact ⟨data, header, by simp, hp, rfl, rfl⟩

end Fill

/-- The fragments of every buffer so far arrived before the step. -/
def ReceiveStep.After (es : List ReceiveStep) : ReceiveStep → Prop
  | .datagram now _ _ => ∀ t peer data, .datagram t peer data ∈ es → t ≤ now
  | .gc _ => True

theorem tracks_start : Tracks [] TrackedMap.start where
  inProgress key entry hentry := by cases hentry
  tracked key := bufferTracked_none [] key

theorem tracked_ite {entry' : Option ReassemblyEntry} {fs' : List FragmentArrival}
    (h : entry' ≠ none → BufferTracked es key entry' fs') :
    BufferTracked es key entry' (if entry'.isSome then fs' else []) := by
  cases entry' with
  | none => exact bufferTracked_none es key
  | some e => exact h (by simp)

section Own

variable {now : ℕ} {peer : SocketAddr} {data chunk : Bytes} {header : FragHeader}

theorem sourcesAfter_own (hp : parseFragment data = some (header, chunk)) :
    st.sourcesAfter (.datagram now peer data) (peer, header.fragId) =
      if fills now st.map peer header then
        st.sources (peer, header.fragId) ++ [⟨header.index, chunk, now⟩]
      else st.sources (peer, header.fragId) := by
  simp [TrackedMap.sourcesAfter, hp]

theorem Tracks.fragments_before (h : Tracks es st)
    (hclock : (ReceiveStep.datagram now peer data).After es) (key : SocketAddr × UInt32) :
    ∀ f ∈ st.sources key, f.arrivedAt ≤ now := by
  intro f hf
  obtain ⟨data', header', hmem, -⟩ := (h.tracked key).arrived f hf
  exact hclock f.arrivedAt key.1 data' hmem

/-- A fragment of the message leaves its buffer tracked, if there still is one. -/
theorem Tracks.own (h : Tracks es st) (hp : parseFragment data = some (header, chunk))
    (hclock : (ReceiveStep.datagram now peer data).After es)
    (hkept : (reassemble now st.map peer data).2.lookup (peer, header.fragId) ≠ none) :
    BufferTracked (es ++ [.datagram now peer data]) (peer, header.fragId)
      ((reassemble now st.map peer data).2.lookup (peer, header.fragId))
      (st.sourcesAfter (.datagram now peer data) (peer, header.fragId)) := by
  have htracked := h.tracked (peer, header.fragId)
  cases hfills : fills now st.map peer header with
  | false =>
      obtain ⟨hlookup, -⟩ := reassemble_of_not_fills h.inProgress hp hfills
      rw [hlookup, sourcesAfter_own hp, hfills]
      exact htracked.mono _
  | true =>
      rw [sourcesAfter_own hp, hfills, if_pos rfl]
      rcases reassemble_of_fills h.inProgress hp hfills with
        ⟨-, hmore⟩ | ⟨-, payload, -, hdone⟩
      · rw [hmore, AList.lookup_insert]
        simp only [fills, Bool.and_eq_true, decide_eq_true_eq] at hfills
        exact htracked.fill hp hfills.2 (h.fragments_before hclock _)
      · rw [hdone, AList.lookup_erase] at hkept
        exact absurd rfl hkept

end Own

/-- **One step keeps track.** -/
theorem Tracks.step (h : Tracks es st) (hs : s.After es) (hstep : st.step s = some st') :
    Tracks (es ++ [s]) st' := by
  rw [TrackedMap.step, receiveStep_eq, Option.map_some, Option.some.injEq] at hstep
  subst hstep
  refine ⟨inProgress_apply h.inProgress s, fun key => tracked_ite fun hkept => ?_⟩
  have hsame : (s.apply st.map).lookup key = st.map.lookup key →
      st.sourcesAfter s key = st.sources key → BufferTracked (es ++ [s]) key
        ((s.apply st.map).lookup key) (st.sourcesAfter s key) := by
    intro hlookup hsources
    rw [hlookup, hsources]
    exact (h.tracked key).mono s
  cases s with
  | gc now =>
      obtain ⟨e, he⟩ := Option.ne_none_iff_exists'.mp hkept
      exact hsame (by rw [he, (lookup_gc_eq_some.mp he).1]) rfl
  | datagram now peer data =>
      cases hp : parseFragment data with
      | none => exact hsame (by simp [ReceiveStep.apply, reassemble, hp]) (by
          simp [TrackedMap.sourcesAfter, hp])
      | some parts =>
          obtain ⟨header, chunk⟩ := parts
          by_cases hkey : key = (peer, header.fragId)
          · subst hkey
            exact h.own hp hs hkept
          · refine hsame ?_ (by simp [TrackedMap.sourcesAfter, hp, hkey])
            refine lookup_reassemble_ne now st.map peer data ?_
            rintro header' chunk' hp' rfl
            cases hp.symm.trans hp'
            exact hkey rfl

end Invariant

/-! ## Fresh payloads -/

/-- The fragments of a payload that the step puts together arrived less than
`REASSEMBLY_TTL` after each other. -/
def ReceiveStep.DeliversFresh (st : TrackedMap) : ReceiveStep → Prop
  | .datagram now peer data => ∀ header chunk payload, parseFragment data = some (header, chunk) →
      header.total ≠ 1 → (reassemble now st.map peer data).1 = .frame payload →
      ∀ f ∈ st.sourcesAfter (.datagram now peer data) (peer, header.fragId),
      ∀ g ∈ st.sourcesAfter (.datagram now peer data) (peer, header.fragId),
        g.arrivedAt < f.arrivedAt + reassemblyTtl
  | .gc _ => True

/-- A fragment for the last free slot of a buffer arrives less than `REASSEMBLY_TTL` after
the buffer was created. -/
def ReceiveStep.InTime (map : ReassemblyMap) : ReceiveStep → Prop
  | .datagram now peer data => ∀ header chunk, parseFragment data = some (header, chunk) →
      ∀ entry ∈ map.lookup (peer, header.fragId), entry.total = header.total →
        entry.chunks[header.index.toNat]? = some none → entry.received + 1 = entry.total →
        now < entry.createdAt + reassemblyTtl
  | .gc _ => True

/-- The datagrams of a run arrive one after the other. -/
def Chronological (run : List ReceiveStep) : Prop :=
  run.Pairwise fun s s' => ∀ now peer data now' peer' data', s = .datagram now peer data →
    s' = .datagram now' peer' data' → now ≤ now'

section Delivery

variable {es : List ReceiveStep} {st : TrackedMap} {now : ℕ} {peer : SocketAddr}
  {data chunk payload : Bytes} {header : FragHeader}

/-- What is delivered in parts was missing one fragment. -/
theorem fills_of_frame (h : Tracks es st) (hp : parseFragment data = some (header, chunk))
    (hmany : header.total ≠ 1) (hframe : (reassemble now st.map peer data).1 = .frame payload) :
    fills now st.map peer header = true ∧
      (bufferFor now st.map peer header).received + 1 = (bufferFor now st.map peer header).total ∧
      ((bufferFor now st.map peer header).fill header.index chunk).assemble = some payload := by
  cases hfills : fills now st.map peer header with
  | false =>
      obtain ⟨-, hnone⟩ := reassemble_of_not_fills h.inProgress hp hfills
      exact absurd hframe (hnone hmany payload)
  | true =>
      rcases reassemble_of_fills h.inProgress hp hfills with
        ⟨-, hmore⟩ | ⟨hlast, payload', hpayload, hdone⟩
      · rw [hmore] at hframe
        cases hframe
      · rw [hdone] at hframe
        cases hframe
        exact ⟨rfl, hlast, hpayload⟩

theorem exists_chunks_of_assembleFrom {cs : List (Option Bytes)} {out : Bytes}
    (h : ReassemblyEntry.assembleFrom out cs = some payload) :
    ∃ ds : List Bytes, cs = ds.map some ∧ payload = out ++ ds.flatten := by
  induction cs generalizing out with
  | nil => exact ⟨[], rfl, by simpa [ReassemblyEntry.assembleFrom] using h.symm⟩
  | cons c cs ih =>
      cases c with
      | none => simp [ReassemblyEntry.assembleFrom] at h
      | some c =>
          obtain ⟨ds, rfl, rfl⟩ := ih h
          exact ⟨c :: ds, rfl, by simp⟩

/-- **A payload delivered in parts** is made of the chunks of its fragments, in the order of
their indices. -/
theorem payload_of_fragments (h : Tracks es st) (hp : parseFragment data = some (header, chunk))
    (hclock : (ReceiveStep.datagram now peer data).After es) (hmany : header.total ≠ 1)
    (hframe : (reassemble now st.map peer data).1 = .frame payload) :
    ∃ cs : List Bytes, payload = cs.flatten ∧ ∀ i c, cs[i]? = some c ↔
      ∃ f ∈ st.sourcesAfter (.datagram now peer data) (peer, header.fragId),
        f.index.toNat = i ∧ f.chunk = c := by
  obtain ⟨hfills, -, hpayload⟩ := fills_of_frame h hp hmany hframe
  rw [sourcesAfter_own hp, hfills, if_pos rfl]
  simp only [fills, Bool.and_eq_true, decide_eq_true_eq] at hfills
  have htracked := (h.tracked (peer, header.fragId)).fill hp hfills.2 (h.fragments_before hclock _)
  obtain ⟨cs, hcs, rfl⟩ := exists_chunks_of_assembleFrom hpayload
  refine ⟨cs, by simp, fun i c => ?_⟩
  rw [← htracked.chunks _ rfl, hcs]
  simp

/-- A payload is delivered when the last slot is filled, and with it the fragment the buffer
was created for. -/
theorem inTime_of_deliversFresh (h : Tracks es st)
    (hfresh : (ReceiveStep.datagram now peer data).DeliversFresh st) :
    (ReceiveStep.datagram now peer data).InTime st.map := by
  intro header chunk hp entry hentry htotal hfree hlast
  have hgoing := h.inProgress _ entry hentry
  have hone : header.total ≠ 1 := by
    intro heq
    have hmany := hgoing.many
    rw [htotal, heq] at hmany
    exact absurd hmany (by decide)
  have hbuffer : bufferFor now st.map peer header = entry := by
    rw [bufferFor, Option.mem_def.mp hentry, Option.getD_some]
  have hfills : fills now st.map peer header = true := by
    simp [fills, hbuffer, hone, htotal, hfree, htotal ▸ hgoing.bounded]
  rcases reassemble_of_fills h.inProgress hp hfills with ⟨hmore, -⟩ | ⟨-, payload, -, hdone⟩
  · rw [hbuffer] at hmore
    exact absurd hlast hmore
  · obtain ⟨f, hf, hfirst⟩ := (h.tracked _).first entry hentry
    have hpair := hfresh header chunk payload hp hone (by rw [hdone]) f
    rw [sourcesAfter_own hp, hfills, if_pos rfl, hfirst] at hpair
    exact hpair (List.mem_append_left _ hf) ⟨header.index, chunk, now⟩ (by simp)

/-- The fragments of a payload arrived between the creation of its buffer and now. -/
theorem deliversFresh_of_inTime (h : Tracks es st)
    (hs : (ReceiveStep.datagram now peer data).After es)
    (hinTime : (ReceiveStep.datagram now peer data).InTime st.map) :
    (ReceiveStep.datagram now peer data).DeliversFresh st := by
  intro header chunk payload hp hmany hframe f hf g hg
  obtain ⟨hfills, hlast, -⟩ := fills_of_frame h hp hmany hframe
  rw [sourcesAfter_own hp, hfills, if_pos rfl] at hf hg
  simp only [fills, Bool.and_eq_true, decide_eq_true_eq] at hfills
  obtain ⟨⟨-, htotal⟩, hfree⟩ := hfills
  have hbefore := h.fragments_before hs (peer, header.fragId)
  have hsince : (bufferFor now st.map peer header).createdAt ≤ f.arrivedAt :=
    ((h.tracked (peer, header.fragId)).fill hp hfree hbefore).since _ rfl f hf
  have hnow : g.arrivedAt ≤ now := by
    rcases List.mem_append.mp hg with hg | hg
    · exact hbefore g hg
    · rw [List.mem_singleton.mp hg]
  have hage : now < (bufferFor now st.map peer header).createdAt + reassemblyTtl := by
    cases hl : st.map.lookup (peer, header.fragId) with
    | none =>
        -- the first of several fragments does not complete a message
        simp only [bufferFor, hl, Option.getD_none, ReassemblyEntry.new] at hlast
        exact absurd hlast.symm (by simpa using hmany)
    | some entry =>
        simp only [bufferFor, hl, Option.getD_some] at hlast htotal hfree ⊢
        exact hinTime header chunk hp entry hl htotal hfree hlast
  omega

/-- **One step**: what it delivers is fresh exactly if it completes no old buffer. -/
theorem deliversFresh_iff {s : ReceiveStep} (h : Tracks es st) (hs : s.After es) :
    s.DeliversFresh st ↔ s.InTime st.map := by
  cases s with
  | gc now => simp [ReceiveStep.DeliversFresh, ReceiveStep.InTime]
  | datagram now peer data => exact ⟨inTime_of_deliversFresh h, deliversFresh_of_inTime h hs⟩

end Delivery

theorem Chronological.of_concat {es : List ReceiveStep} {s : ReceiveStep}
    (h : Chronological (es ++ [s])) : Chronological es ∧ s.After es := by
  obtain ⟨hes, -, hbefore⟩ := List.pairwise_append.mp h
  refine ⟨hes, ?_⟩
  cases s with
  | gc now => trivial
  | datagram now peer data =>
      intro t peer' data' hmem
      exact hbefore _ hmem _ (by simp) t peer' data' now peer data rfl rfl

/-- The invariant holds after every run in the order of time. -/
theorem tracks_exec {run : List ReceiveStep} {st : TrackedMap} (hclock : Chronological run)
    (hexec : exec TrackedMap.step .start run = some st) : Tracks run st := by
  refine exec_history (fun es st => Chronological es → Tracks es st) (fun _ => tracks_start) ?_
    hexec hclock
  intro es st s st' _ ih hstep hclock
  obtain ⟨hclock, hafter⟩ := hclock.of_concat
  exact (ih hclock).step hafter hstep

/-- **When stale fragments are not used.**  In a run of datagrams in the order of time, the
fragments of every payload put together arrived less than `REASSEMBLY_TTL` after each
other, if and only if no fragment fills the last free slot of a buffer that is as old. -/
theorem fresh_iff_inTime (run : List ReceiveStep) (hclock : Chronological run) :
    EachStep TrackedMap.step (fun st s => s.DeliversFresh st) .start run ↔
      EachStep TrackedMap.step (fun st s => s.InTime st.map) .start run := by
  have hone : ∀ pre s post st, run = pre ++ s :: post →
      exec TrackedMap.step .start pre = some st → (s.DeliversFresh st ↔ s.InTime st.map) := by
    intro pre s post st hsplit hexec
    have hprefix : Chronological (pre ++ [s]) := by
      refine List.Pairwise.sublist ?_ hclock
      rw [hsplit]
      exact List.Sublist.append_left (by simp) pre
    obtain ⟨hpre, hafter⟩ := hprefix.of_concat
    exact deliversFresh_iff (tracks_exec hpre hexec) hafter
  constructor
  · intro h pre s post st hsplit hexec
    exact (hone pre s post st hsplit hexec).mp (h pre s post st hsplit hexec)
  · intro h pre s post st hsplit hexec
    exact (hone pre s post st hsplit hexec).mpr (h pre s post st hsplit hexec)

/-! ## A late fragment -/

/-- The first of two fragments, and the collection after it. -/
def firstHalf : List ReceiveStep := [.datagram 0 longSender (fragment 7 0 2 [1]), .gc 0]

/-- The second fragment, `late` seconds after the first. -/
def secondHalf (late : ℕ) : ReceiveStep :=
  .datagram (fromSecs late) longSender (fragment 7 1 2 [2])

/-- The state in between. -/
def halfway : TrackedMap := (exec TrackedMap.step .start firstHalf).getD .start

theorem exec_firstHalf : exec TrackedMap.step .start firstHalf = some halfway := by
  have hsome : (exec TrackedMap.step .start firstHalf).isSome = true := by decide +kernel
  obtain ⟨st, hst⟩ := Option.isSome_iff_exists.mp hsome
  rw [halfway, hst, Option.getD_some]

theorem chronological_halves (late : ℕ) : Chronological (firstHalf ++ [secondHalf late]) := by
  simp only [Chronological, firstHalf, secondHalf, List.cons_append, List.nil_append,
    List.pairwise_cons, List.mem_cons, List.not_mem_nil, or_false, forall_eq_or_imp, forall_eq,
    reduceCtorEq, false_implies, implies_true, and_true, ReceiveStep.datagram.injEq,
    List.Pairwise.nil, true_and]
  rintro now peer data now' peer' data' ⟨rfl, -, -⟩ -
  exact Nat.zero_le now'

/-- A second fragment within ten seconds completes no old buffer. -/
theorem inTime_halves {late : ℕ} (hlate : late < 10) :
    EachStep TrackedMap.step (fun st s => s.InTime st.map) .start
      (firstHalf ++ [secondHalf late]) := by
  have hfirst : EachStep TrackedMap.step (fun st s => s.InTime st.map) .start
      [.datagram 0 longSender (fragment 7 0 2 [1])] := by
    refine (EachStep.of_forall_mem (by simp)).concat (exec_nil _ _) ?_
    intro header chunk _ entry hentry
    cases hentry
  obtain ⟨st, hst⟩ : ∃ st, exec TrackedMap.step .start
      [.datagram 0 longSender (fragment 7 0 2 [1])] = some st := ⟨_, rfl⟩
  have hhalf : EachStep TrackedMap.step (fun st s => s.InTime st.map) .start firstHalf :=
    hfirst.concat hst (show (ReceiveStep.gc 0).InTime st.map from trivial)
  refine hhalf.concat exec_firstHalf ?_
  intro header chunk hp entry hentry _ _ _
  cases (@parseFragment_fragment 7 1 2 (by decide) [2]).symm.trans hp
  have hlookup : halfway.map.lookup (longSender, 7) = some ⟨2, 1, [some [1], none], 0⟩ := by
    decide +kernel
  cases hlookup.symm.trans hentry
  simp only [fromSecs, reassemblyTtl]
  omega

/-- The second fragment arrives nine seconds after the first: what is delivered is fresh. -/
theorem fresh_after_nine_seconds :
    (secondHalf 9).DeliversFresh halfway ∧
      (reassemble (fromSecs 9) halfway.map longSender (fragment 7 1 2 [2])).1 = .frame [1, 2] := by
  have hfresh := (fresh_iff_inTime _ (chronological_halves 9)).mpr (inTime_halves (by decide))
  exact ⟨hfresh firstHalf _ [] halfway rfl exec_firstHalf, by decide +kernel⟩

/-- **A stale fragment is used**: the second fragment arrives an hour after the first, and
the two are put together. -/
theorem stale_fragment_used :
    exec TrackedMap.step .start firstHalf = some halfway ∧
      Chronological (firstHalf ++ [secondHalf 3600]) ∧
      (reassemble (fromSecs 3600) halfway.map longSender (fragment 7 1 2 [2])).1 =
        .frame [1, 2] ∧
      (halfway.sourcesAfter (secondHalf 3600) (longSender, 7)).map FragmentArrival.arrivedAt =
        [0, fromSecs 3600] ∧
      reassemblyTtl ≤ fromSecs 3600 := by
  refine ⟨exec_firstHalf, chronological_halves 3600, ?_⟩
  decide +kernel

end AuthKademlia
