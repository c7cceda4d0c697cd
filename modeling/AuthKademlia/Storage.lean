import AuthKademlia.Node
import AuthKademlia.Lib.AssocMap

/-!
# The key-value store

`ForgetfulStorage` keeps each value with the time it was written.  Expiry is lazy: a
read treats an entry that is too old as absent, and nothing removes it.  A `ttl` of `-1`
disables expiry.

The store is used through `get`, `set`, `insertIfAbsent` and `delete`; each comes with
the lemmas that say what `get` and the raw entry (`entry`) of every key are afterwards.
-/

namespace AuthKademlia

/-- A store with lazy expiry. -/
structure ForgetfulStorage where
  data : AList fun _ : Bytes => Bytes × ℕ
  ttl : Int64
  deriving DecidableEq

namespace ForgetfulStorage

def new (ttl : Int64) : ForgetfulStorage := ⟨∅, ttl⟩

/-- `ttl as u64` wraps, so a negative `ttl` other than `-1` is a very long one. -/
def isExpired (s : ForgetfulStorage) (now insertedAt : ℕ) : Bool :=
  if s.ttl = -1 then false else now - insertedAt > fromSecs s.ttl.toUInt64.toNat

def set (s : ForgetfulStorage) (now : ℕ) (key value : Bytes) : ForgetfulStorage :=
  { s with data := s.data.insert key (value, now) }

/-- Insert unless the key holds an entry that is not expired. -/
def insertIfAbsent (s : ForgetfulStorage) (now : ℕ) (key value : Bytes) :
    Bool × ForgetfulStorage :=
  match s.data.lookup key with
  | none => (true, { s with data := s.data.insert key (value, now) })
  | some (_, insertedAt) =>
      if s.isExpired now insertedAt then
        (true, { s with data := s.data.insert key (value, now) })
      else (false, s)

def getDefault (s : ForgetfulStorage) (now : ℕ) (key : Bytes) (default : Option Bytes) :
    Option Bytes :=
  match s.data.lookup key with
  | some (value, insertedAt) => if !s.isExpired now insertedAt then some value else default
  | none => default

def get (s : ForgetfulStorage) (now : ℕ) (key : Bytes) : Option Bytes := s.getDefault now key none

def delete (s : ForgetfulStorage) (key : Bytes) : ForgetfulStorage :=
  { s with data := s.data.erase key }

/-- All entries that are not expired. -/
def iterAll (s : ForgetfulStorage) (now : ℕ) : List (Bytes × Bytes) :=
  (s.data.entries.filter fun e => !s.isExpired now e.2.2).map fun e => (e.1, e.2.1)

/-- The entries that are at least `secondsOld` seconds old and not expired. -/
def iterOlderThan (s : ForgetfulStorage) (now secondsOld : ℕ) : List (Bytes × Bytes) :=
  (s.data.entries.filter fun e =>
    decide (fromSecs secondsOld ≤ now - e.2.2) && !s.isExpired now e.2.2).map
      fun e => (e.1, e.2.1)

/-! ## What the operations leave behind -/

/-- The raw entry of a key, expired or not. -/
def entry (s : ForgetfulStorage) (key : Bytes) : Option (Bytes × ℕ) := s.data.lookup key

variable {s : ForgetfulStorage} {now t : ℕ} {key key' value : Bytes}

theorem get_eq :
    s.get now key = ((s.entry key).filter fun e => !s.isExpired now e.2).map Prod.fst := by
  rw [get, getDefault, entry]
  cases s.data.lookup key with
  | none => rfl
  | some e => cases hx : s.isExpired now e.2 <;> simp [hx, Option.filter]

theorem get_eq_some :
    s.get now key = some value ↔
      ∃ written, s.entry key = some (value, written) ∧ s.isExpired now written = false := by
  simp [get_eq, Option.map_eq_some_iff, Option.filter_eq_some_iff]

/-- An entry just written is not expired. -/
@[simp] theorem isExpired_self : s.isExpired now now = false := by
  simp [isExpired]

@[simp] theorem entry_set_self : (s.set now key value).entry key = some (value, now) :=
  AList.lookup_insert _

@[simp] theorem entry_set_ne (h : key' ≠ key) : (s.set now key value).entry key' = s.entry key' :=
  AList.lookup_insert_ne h

@[simp] theorem entry_delete_self : (s.delete key).entry key = none := AList.lookup_erase _ _

@[simp] theorem entry_delete_ne (h : key' ≠ key) : (s.delete key).entry key' = s.entry key' :=
  AList.lookup_erase_ne h

/-- What is in the store after a write was written or was there. -/
theorem entry_of_set {e : Bytes × ℕ} (h : (s.set now key value).entry key' = some e) :
    (key' = key ∧ e.1 = value) ∨ s.entry key' = some e := by
  by_cases hkey : key' = key
  · subst hkey
    rw [entry_set_self] at h
    cases h
    exact .inl ⟨rfl, rfl⟩
  · rw [entry_set_ne hkey] at h
    exact .inr h

theorem entry_of_delete {e : Bytes × ℕ} (h : (s.delete key).entry key' = some e) :
    s.entry key' = some e := by
  by_cases hkey : key' = key
  · subst hkey
    rw [entry_delete_self] at h
    cases h
  · rwa [entry_delete_ne hkey] at h

@[simp] theorem get_set_self : (s.set now key value).get now key = some value :=
  get_eq_some.mpr ⟨now, entry_set_self, isExpired_self⟩

@[simp] theorem get_delete_self : (s.delete key).get now key = none := by
  rw [Option.eq_none_iff_forall_ne_some]
  intro v hv
  obtain ⟨_, hentry, -⟩ := get_eq_some.mp hv
  rw [entry_delete_self] at hentry
  cases hentry

/-- **`insert_if_absent` writes exactly when the key holds nothing live.** -/
theorem insertIfAbsent_eq :
    s.insertIfAbsent now key value =
      if s.get now key = none then (true, s.set now key value) else (false, s) := by
  rw [insertIfAbsent, get, getDefault]
  cases s.data.lookup key with
  | none => rfl
  | some e => cases hx : s.isExpired now e.2 <;> simp [hx, set]

/-- Every key is listed once. -/
theorem nodup_iterAll : ((s.iterAll now).map Prod.fst).Nodup := by
  have hkeys : (s.data.entries.map Sigma.fst).Nodup := s.data.nodupKeys
  rw [iterAll, List.map_map]
  exact hkeys.sublist (List.filter_sublist.map _)

/-- The entries listed are those that are read. -/
theorem mem_iterAll_iff : (key, value) ∈ s.iterAll now ↔ s.get now key = some value := by
  simp only [iterAll, List.mem_map, List.mem_filter, get_eq_some, entry]
  constructor
  · rintro ⟨e, ⟨he, hlive⟩, heq⟩
    cases heq
    exact ⟨e.2.2, AList.mem_lookup_iff.mpr he, by simpa using hlive⟩
  · rintro ⟨written, hentry, hlive⟩
    exact ⟨⟨key, value, written⟩, ⟨AList.mem_lookup_iff.mp hentry, by simpa using hlive⟩, rfl⟩

theorem entry_of_mem_iterAll (h : (key, value) ∈ s.iterAll now) :
    ∃ written, s.entry key = some (value, written) := by
  rcases get_eq_some.mp (mem_iterAll_iff.mp h) with ⟨written, hentry, -⟩
  exact ⟨written, hentry⟩

theorem entry_of_mem_iterOlderThan {secondsOld : ℕ}
    (h : (key, value) ∈ s.iterOlderThan now secondsOld) :
    ∃ written, s.entry key = some (value, written) := by
  rcases List.mem_map.mp h with ⟨e, he, heq⟩
  cases heq
  exact ⟨e.2.2, AList.mem_lookup_iff.mpr (List.mem_of_mem_filter he)⟩

/-- A store that never expires reads what was last written. -/
theorem get_of_forever (h : s.ttl = -1) : s.get now key = (s.entry key).map Prod.fst := by
  rw [get_eq]
  cases s.entry key with
  | none => rfl
  | some e => simp [isExpired, h, Option.filter]

end ForgetfulStorage

end AuthKademlia
