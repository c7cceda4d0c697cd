import AuthKademlia.Lib.Simulation
import AuthKademlia.Storage
import Mathlib.Data.Multiset.Defs

/-!
# Lazy expiry against eager expiry

`EagerStorage` says what a store with a time to live is for: before every call it drops the
entries that are older than `ttl`, and then it is a plain map.  `ForgetfulStorage` drops
nothing and masks what is too old.

The two are related by masking: what the eager store holds under a key is what the lazy
store holds there, unless that is expired by now (`Masks`).  Time only moves forward, so
one call preserves the relation.  The comparison is about every `i64`: `ttl as u64` makes a
negative `ttl` below `-1` a very long one, while every entry is older than it.

## Main definitions

* `StorageCall`, `StorageAnswer` — the calls of `IStorage`.
* `EagerStorage` — the reference store.
* `lazy_eq_eager_iff` — for which `ttl` the two answer alike.
-/

namespace AuthKademlia

open Lib

/-! ## Calls -/

inductive StorageOp where
  | set (key value : Bytes)
  | insertIfAbsent (key value : Bytes)
  | getDefault (key : Bytes) (default : Option Bytes)
  | get (key : Bytes)
  | delete (key : Bytes)
  | iterOlderThan (secondsOld : ℕ)
  | iterAll

/-- A call and the clock it reads. -/
structure StorageCall where
  now : ℕ
  op : StorageOp

/-- The order of an iteration is not specified, so it is a multiset. -/
inductive StorageAnswer where
  | unit
  | inserted (ok : Bool)
  | value (v : Option Bytes)
  | pairs (entries : Multiset (Bytes × Bytes))
  deriving DecidableEq

def ForgetfulStorage.call (s : ForgetfulStorage) (c : StorageCall) :
    StorageAnswer × ForgetfulStorage :=
  match c.op with
  | .set key value => (.unit, s.set c.now key value)
  | .insertIfAbsent key value =>
      let (ok, s) := s.insertIfAbsent c.now key value
      (.inserted ok, s)
  | .getDefault key default => (.value (s.getDefault c.now key default), s)
  | .get key => (.value (s.get c.now key), s)
  | .delete key => (.unit, s.delete key)
  | .iterOlderThan secondsOld => (.pairs (s.iterOlderThan c.now secondsOld), s)
  | .iterAll => (.pairs (s.iterAll c.now), s)

/-! ## The reference store -/

/-- A store that holds no entry older than `ttl` seconds. -/
structure EagerStorage where
  data : AList fun _ : Bytes => Bytes × ℕ
  ttl : Int64

namespace EagerStorage

def new (ttl : Int64) : EagerStorage := ⟨∅, ttl⟩

/-- The entry was written more than `ttl` seconds ago; with `-1` none is too old. -/
def olderThan (ttl : Int64) (now insertedAt : ℕ) : Bool :=
  ttl ≠ -1 && decide (ttl.toInt * (fromSecs 1 : ℤ) < ((now - insertedAt : ℕ) : ℤ))

/-- Drop the entries that are too old. -/
def sweep (s : EagerStorage) (now : ℕ) : EagerStorage :=
  { s with data := retain (fun _ e => !olderThan s.ttl now e.2) s.data }

/-- A call on the plain map. -/
def serve (s : EagerStorage) (c : StorageCall) : StorageAnswer × EagerStorage :=
  match c.op with
  | .set key value => (.unit, { s with data := s.data.insert key (value, c.now) })
  | .insertIfAbsent key value =>
      match s.data.lookup key with
      | none => (.inserted true, { s with data := s.data.insert key (value, c.now) })
      | some _ => (.inserted false, s)
  | .getDefault key default => (.value (((s.data.lookup key).map Prod.fst).or default), s)
  | .get key => (.value ((s.data.lookup key).map Prod.fst), s)
  | .delete key => (.unit, { s with data := s.data.erase key })
  | .iterOlderThan secondsOld =>
      (.pairs ((s.data.entries.filter fun e => decide (fromSecs secondsOld ≤ c.now - e.2.2)).map
        fun e => (e.1, e.2.1)), s)
  | .iterAll => (.pairs (s.data.entries.map fun e => (e.1, e.2.1)), s)

def call (s : EagerStorage) (c : StorageCall) : StorageAnswer × EagerStorage :=
  (s.sweep c.now).serve c

end EagerStorage

/-! ## Masking -/

/-- From time `t` on the eager store holds what the lazy one does not mask. -/
structure Masks (ttl : Int64) (t : ℕ) (s : ForgetfulStorage) (u : EagerStorage) : Prop where
  ttl_lazy : s.ttl = ttl
  ttl_eager : u.ttl = ttl
  lookup : ∀ key, u.data.lookup key = (s.data.lookup key).filter fun e => !s.isExpired t e.2

section Mask

variable {ttl : Int64} {t now w : ℕ} {s : ForgetfulStorage} {u : EagerStorage}

/-- The two readings of `ttl` agree from `-1` on. -/
theorem olderThan_eq_isExpired (h : -1 ≤ s.ttl) :
    EagerStorage.olderThan s.ttl now w = s.isExpired now w := by
  by_cases hforever : s.ttl = -1
  · simp [EagerStorage.olderThan, ForgetfulStorage.isExpired, hforever]
  · have hnat : (s.ttl.toUInt64.toNat : ℤ) = s.ttl.toInt := by
      have hle := Int64.le_iff_toInt_le.mp h
      have hne : s.ttl.toInt ≠ -1 := fun heq => hforever (Int64.toInt_inj.mp heq)
      have hone : (-1 : Int64).toInt = -1 := by decide
      have hcond := BitVec.toInt_eq_toNat_cond s.ttl.toBitVec
      rw [Int64.toInt_toBitVec, Int64.toNat_toBitVec] at hcond
      have hlt := s.ttl.toUInt64.toNat_lt
      split at hcond <;> omega
    rw [Bool.eq_iff_iff]
    simp only [EagerStorage.olderThan, ForgetfulStorage.isExpired, hforever, fromSecs, ← hnat,
      if_false, ne_eq, not_false_eq_true, decide_true, Bool.true_and, decide_eq_true_eq, gt_iff_lt,
      one_mul]
    norm_cast

/-- What is expired stays so. -/
theorem isExpired_mono (hle : t ≤ now) (h : s.isExpired t w = true) : s.isExpired now w = true := by
  by_cases hforever : s.ttl = -1
  · simp [ForgetfulStorage.isExpired, hforever] at h
  · simp only [ForgetfulStorage.isExpired, hforever, if_false, decide_eq_true_eq] at h ⊢
    omega

/-- Sweeping brings the masked view up to date. -/
theorem Masks.sweep (h : Masks ttl t s u) (httl : -1 ≤ ttl) (hle : t ≤ now) :
    Masks ttl now s (u.sweep now) := by
  refine ⟨h.ttl_lazy, h.ttl_eager, fun key => ?_⟩
  have holder : ∀ w, EagerStorage.olderThan u.ttl now w = s.isExpired now w := by
    intro w
    rw [h.ttl_eager, ← h.ttl_lazy]
    exact olderThan_eq_isExpired (h.ttl_lazy ▸ httl)
  simp only [EagerStorage.sweep, lookup_retain, h.lookup, holder]
  cases s.data.lookup key with
  | none => rfl
  | some e =>
      cases hnow : s.isExpired now e.2 with
      | true => cases ht : s.isExpired t e.2 <;> simp [Option.filter, ht, hnow]
      | false =>
          have ht : s.isExpired t e.2 = false := by
            rw [← Bool.not_eq_true]
            intro ht
            simp [isExpired_mono hle ht] at hnow
          simp [Option.filter, ht, hnow]

variable {key value : Bytes}

/-- A key reads the same in both stores. -/
theorem Masks.get (h : Masks ttl now s u) : s.get now key = (u.data.lookup key).map Prod.fst := by
  rw [ForgetfulStorage.get_eq, h.lookup, ForgetfulStorage.entry]

theorem Masks.insert (h : Masks ttl now s u) :
    Masks ttl now (s.set now key value) { u with data := u.data.insert key (value, now) } := by
  refine ⟨h.ttl_lazy, h.ttl_eager, fun key' => ?_⟩
  by_cases hkey : key' = key
  · subst hkey
    simp [ForgetfulStorage.set, Option.filter]
  · simp [ForgetfulStorage.set, AList.lookup_insert_ne hkey, h.lookup, ForgetfulStorage.isExpired]

theorem Masks.erase (h : Masks ttl now s u) :
    Masks ttl now (s.delete key) { u with data := u.data.erase key } := by
  refine ⟨h.ttl_lazy, h.ttl_eager, fun key' => ?_⟩
  by_cases hkey : key' = key
  · subst hkey
    simp [ForgetfulStorage.delete]
  · simp [ForgetfulStorage.delete, AList.lookup_erase_ne hkey, h.lookup,
      ForgetfulStorage.isExpired]

/-- The entries of the eager store are the live ones of the lazy store. -/
theorem Masks.entries_perm (h : Masks ttl now s u) :
    u.data.entries.Perm (s.data.entries.filter fun e => !s.isExpired now e.2.2) := by
  let live : Bytes → Bytes × ℕ → Bool := fun _ e => !s.isExpired now e.2
  refine List.lookup_ext u.data.nodupKeys (retain live s.data).nodupKeys fun key e => ?_
  have hlookup : u.data.lookup key = (retain live s.data).lookup key := by
    rw [h.lookup, lookup_retain]
  exact iff_of_eq (congrArg (e ∈ ·) hlookup)

/-- **One call on a swept store** is answered as by the lazy store. -/
theorem Masks.serve {c : StorageCall} (h : Masks ttl c.now s u) :
    (s.call c).1 = (u.serve c).1 ∧ Masks ttl c.now (s.call c).2 (u.serve c).2 := by
  obtain ⟨now, op⟩ := c
  cases op with
  | set key value => exact ⟨rfl, h.insert⟩
  | insertIfAbsent key value =>
      simp only [ForgetfulStorage.call, EagerStorage.serve, ForgetfulStorage.insertIfAbsent_eq,
        h.get]
      cases u.data.lookup key with
      | none => exact ⟨rfl, h.insert⟩
      | some e => exact ⟨rfl, h⟩
  | getDefault key default =>
      refine ⟨congrArg StorageAnswer.value ?_, h⟩
      simp only [ForgetfulStorage.getDefault, h.lookup]
      cases s.data.lookup key with
      | none => rfl
      | some e => cases hx : s.isExpired now e.2 <;> simp [hx, Option.filter]
  | get key => exact ⟨congrArg StorageAnswer.value h.get, h⟩
  | delete key => exact ⟨rfl, h.erase⟩
  | iterOlderThan secondsOld =>
      refine ⟨congrArg StorageAnswer.pairs (Multiset.coe_eq_coe.mpr ?_), h⟩
      rw [ForgetfulStorage.iterOlderThan, ← List.filter_filter]
      exact ((h.entries_perm.filter _).map _).symm
  | iterAll =>
      refine ⟨congrArg StorageAnswer.pairs (Multiset.coe_eq_coe.mpr ?_), h⟩
      exact (h.entries_perm.map _).symm

theorem masks_simulation (httl : -1 ≤ ttl) :
    TimedSimulation StorageCall.now ForgetfulStorage.call EagerStorage.call (Masks ttl) where
  answer h hle := (h.sweep httl hle).serve.1
  next h hle := (h.sweep httl hle).serve.2

end Mask

/-- **Lazy expiry is eager expiry** for every `ttl` from `-1` on, whatever is called as
time goes by, and for no other.  Insertion succeeds exactly where nothing would be read. -/
theorem lazy_eq_eager_iff (ttl : Int64) :
    ((∀ calls : List StorageCall, (calls.Pairwise fun c c' => c.now ≤ c'.now) →
        answersTo ForgetfulStorage.call (ForgetfulStorage.new ttl) calls =
          answersTo EagerStorage.call (EagerStorage.new ttl) calls) ∧
      ∀ (s : ForgetfulStorage) (now : ℕ) (key value : Bytes), s.ttl = ttl →
        ((s.insertIfAbsent now key value).1 = true ↔ s.get now key = none)) ↔
    -1 ≤ ttl := by
  constructor
  · rintro ⟨hall, -⟩
    by_contra hneg
    -- an entry just written is older than a negative number of seconds
    have hdropped : EagerStorage.olderThan ttl 0 0 = true := by
      have hlt : ttl.toInt < -1 := by
        rw [Int64.le_iff_toInt_le] at hneg
        have hone : (-1 : Int64).toInt = -1 := by decide
        omega
      have hne : ttl ≠ -1 := by
        rintro rfl
        simp at hneg
      refine Bool.and_eq_true_iff.mpr ⟨decide_eq_true hne, decide_eq_true ?_⟩
      simp only [fromSecs]
      omega
    have hrun := hall [⟨0, .set [] []⟩, ⟨0, .get []⟩] (by simp)
    simp only [answersTo, ForgetfulStorage.call, EagerStorage.call, EagerStorage.serve,
      ForgetfulStorage.get_set_self] at hrun
    simp [EagerStorage.sweep, EagerStorage.new, hdropped, Option.filter] at hrun
  · intro httl
    refine ⟨fun calls horder => ?_, fun s now key value _ => ?_⟩
    · have hstart : Masks ttl 0 (ForgetfulStorage.new ttl) (EagerStorage.new ttl) :=
        ⟨rfl, rfl, fun key => rfl⟩
      exact (masks_simulation httl).answersTo_eq hstart (fun _ _ => Nat.zero_le _) horder
    · rw [ForgetfulStorage.insertIfAbsent_eq]
      by_cases hnone : s.get now key = none <;> simp [hnone]

/-- With `ttl = -2` the store still returns what it was given, long after. -/
theorem negative_ttl_kept :
    answersTo ForgetfulStorage.call (ForgetfulStorage.new (-2))
        [⟨0, .set [1] [2]⟩, ⟨fromSecs 3600, .get [1]⟩] = [.unit, .value (some [2])] ∧
      answersTo EagerStorage.call (EagerStorage.new (-2))
        [⟨0, .set [1] [2]⟩, ⟨fromSecs 3600, .get [1]⟩] = [.unit, .value none] := by
  decide +kernel

end AuthKademlia
