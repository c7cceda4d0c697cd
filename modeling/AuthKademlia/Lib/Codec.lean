import AuthKademlia.Lib.BigEndian
import AuthKademlia.Lib.Text
import Mathlib.Data.List.Basic

/-!
# Binary formats

A `Codec` writes values as bytes and reads them off the front of a byte string.  It has one
law: of a value that fits the format, what was written is read back whatever follows it.

A value may fail to fit: a count of eight bytes holds no list of `2 ^ 64` elements.

## Main definitions

* `Codec` — a format with its law.
* `Codec.bytes`, `Codec.prod`, `Codec.refine`, `Codec.sigma`, `Codec.times` — the
  combinators.
* `Codec.littleEndian`, `Codec.blob`, `Codec.text`, `Codec.list`, `Codec.option` — formats
  built from them.
* `Codec.FitsBelow` — every value whose encoding is short enough fits.
-/

namespace AuthKademlia.Lib

/-- A binary format. -/
structure Codec (α : Type*) where
  fits : α → Prop
  write : α → List UInt8
  read : List UInt8 → Option (α × List UInt8)
  read_write : ∀ {a}, fits a → ∀ rest, read (write a ++ rest) = some (a, rest)

namespace Codec

variable {α β ι : Type*}

/-! ## Combinators -/

/-- Exactly `n` bytes. -/
def bytes (n : ℕ) : Codec (List UInt8) where
  fits bs := bs.length = n
  write bs := bs
  read bs := if n ≤ bs.length then some (bs.take n, bs.drop n) else none
  read_write := by
    rintro bs rfl rest
    simp

/-- One value after the other. -/
def prod (c : Codec α) (d : Codec β) : Codec (α × β) where
  fits x := c.fits x.1 ∧ d.fits x.2
  write x := c.write x.1 ++ d.write x.2
  read bs := (c.read bs).bind fun (a, bs) => (d.read bs).map fun (b, bs) => ((a, b), bs)
  read_write := by
    rintro ⟨a, b⟩ ⟨ha, hb⟩ rest
    simp [List.append_assoc, c.read_write ha, d.read_write hb]

/-- Values that are represented by those of another format; `decode` may refuse. -/
def refine (c : Codec α) (decode : α → Option β) (encode : β → α) : Codec β where
  fits b := c.fits (encode b) ∧ decode (encode b) = some b
  write b := c.write (encode b)
  read bs := (c.read bs).bind fun (a, bs) => (decode a).map fun b => (b, bs)
  read_write := by
    rintro b ⟨hfits, hdecode⟩ rest
    simp [c.read_write hfits, hdecode]

/-- A tag that says what follows. -/
def sigma {γ : ι → Type*} (tag : Codec ι) (c : ∀ i, Codec (γ i)) : Codec (Σ i, γ i) where
  fits x := tag.fits x.1 ∧ (c x.1).fits x.2
  write x := tag.write x.1 ++ (c x.1).write x.2
  read bs := (tag.read bs).bind fun (i, bs) => ((c i).read bs).map fun (x, bs) => (⟨i, x⟩, bs)
  read_write := by
    rintro ⟨i, x⟩ ⟨hi, hx⟩ rest
    simp [List.append_assoc, tag.read_write hi, (c i).read_write hx]

/-- `n` values in a row. -/
def readTimes (c : Codec α) : ℕ → List UInt8 → Option (List α × List UInt8)
  | 0, bs => some ([], bs)
  | n + 1, bs =>
      (c.read bs).bind fun (a, bs) => (readTimes c n bs).map fun (as, bs) => (a :: as, bs)

theorem readTimes_write (c : Codec α) {as : List α} (h : ∀ a ∈ as, c.fits a) (rest : List UInt8) :
    c.readTimes as.length (as.flatMap c.write ++ rest) = some (as, rest) := by
  induction as with
  | nil => rfl
  | cons a as ih =>
      simp only [List.mem_cons, forall_eq_or_imp] at h
      simp [readTimes, List.append_assoc, c.read_write h.1, ih h.2]

def times (c : Codec α) (n : ℕ) : Codec {as : List α // as.length = n} where
  fits as := ∀ a ∈ as.1, c.fits a
  write as := as.1.flatMap c.write
  read bs := (c.readTimes n bs).bind fun (as, bs) =>
    if h : as.length = n then some (⟨as, h⟩, bs) else none
  read_write := by
    rintro ⟨as, rfl⟩ h rest
    simp [c.readTimes_write h]

/-! ## Numbers -/

/-- A number in `w` bytes, least significant first. -/
def littleEndian (w : ℕ) : Codec ℕ :=
  (bytes w).refine (fun bs => some (fromBeBytes bs.reverse)) fun n => (toBeBytes w n).reverse

@[simp] theorem fits_littleEndian (w n : ℕ) : (littleEndian w).fits n ↔ n < 256 ^ w := by
  have hpos : 0 < 256 ^ w := Nat.pow_pos (by decide)
  simp only [littleEndian, refine, bytes, List.length_reverse, length_toBeBytes, true_and,
    List.reverse_reverse, fromBeBytes_toBeBytes, Option.some.injEq]
  exact ⟨fun h => h ▸ Nat.mod_lt n hpos, Nat.mod_eq_of_lt⟩

@[simp] theorem length_write_littleEndian (w n : ℕ) :
    ((littleEndian w).write n).length = w := by
  simp [littleEndian, refine, bytes]

def u16 : Codec UInt16 := (littleEndian 2).refine (fun n => some (UInt16.ofNat n)) UInt16.toNat

@[simp] theorem fits_u16 (n : UInt16) : u16.fits n :=
  ⟨(fits_littleEndian 2 n.toNat).mpr n.toNat_lt, by simp⟩

def u32 : Codec UInt32 := (littleEndian 4).refine (fun n => some (UInt32.ofNat n)) UInt32.toNat

@[simp] theorem fits_u32 (n : UInt32) : u32.fits n :=
  ⟨(fits_littleEndian 4 n.toNat).mpr n.toNat_lt, by simp⟩

@[simp] theorem length_write_u32 (n : UInt32) : (u32.write n).length = 4 :=
  length_write_littleEndian 4 n.toNat

/-! ## Lists and options -/

/-- A byte string, with its length in front. -/
def blob (w : ℕ) : Codec (List UInt8) :=
  ((littleEndian w).sigma bytes).refine (fun x => some x.2) fun bs => ⟨bs.length, bs⟩

@[simp] theorem fits_blob (w : ℕ) (bs : List UInt8) : (blob w).fits bs ↔ bs.length < 256 ^ w := by
  simp [blob, refine, sigma, bytes]

theorem write_blob (w : ℕ) (bs : List UInt8) :
    (blob w).write bs = (littleEndian w).write bs.length ++ bs :=
  rfl

/-- A text as its UTF-8 bytes, with their number in front. -/
def text (w : ℕ) : Codec String :=
  (blob w).refine (fun bs => String.fromUTF8? ⟨bs.toArray⟩) fun s => s.toUTF8.toList

@[simp] theorem fits_text (w : ℕ) (s : String) :
    (text w).fits s ↔ s.toUTF8.toList.length < 256 ^ w := by
  simp only [text, refine, fits_blob, fromUTF8_toUTF8, and_true]

/-- A list, with its length in front. -/
def list (w : ℕ) (c : Codec α) : Codec (List α) :=
  ((littleEndian w).sigma c.times).refine (fun x => some x.2.1) fun as => ⟨as.length, as, rfl⟩

@[simp] theorem fits_list (w : ℕ) (c : Codec α) (as : List α) :
    (list w c).fits as ↔ as.length < 256 ^ w ∧ ∀ a ∈ as, c.fits a := by
  simp [list, refine, sigma, times]

theorem write_list (w : ℕ) (c : Codec α) (as : List α) :
    (list w c).write as = (littleEndian w).write as.length ++ as.flatMap c.write :=
  rfl

/-- A truth value is one byte, and no byte but zero and one is a truth value. -/
def bool : Codec Bool :=
  (littleEndian 1).refine (fun n => if n = 0 then some false else if n = 1 then some true else none)
    Bool.toNat

@[simp] theorem fits_bool (b : Bool) : bool.fits b := by
  cases b <;> simp [bool, refine]

@[simp] theorem length_write_bool (b : Bool) : (bool.write b).length = 1 :=
  length_write_littleEndian 1 b.toNat

/-- An optional value, after a byte that says whether it is there. -/
def option (c : Codec α) : Codec (Option α) :=
  (bool.sigma fun b => c.times b.toNat).refine (fun x => some x.2.1.head?) fun
    | none => ⟨false, [], rfl⟩
    | some a => ⟨true, [a], rfl⟩

@[simp] theorem fits_option (c : Codec α) (a : Option α) :
    (option c).fits a ↔ ∀ x ∈ a, c.fits x := by
  cases a <;> simp [option, refine, sigma, times]

theorem length_write_option_some (c : Codec α) (a : α) :
    ((option c).write (some a)).length = 1 + (c.write a).length := by
  simp [option, refine, sigma, times]

/-! ## Values that fit by their size -/

/-- Every value whose encoding is shorter than `n` bytes fits. -/
def FitsBelow (n : ℕ) (c : Codec α) : Prop := ∀ a, (c.write a).length < n → c.fits a

section FitsBelow

variable {n : ℕ} {c : Codec α} {d : Codec β}

theorem FitsBelow.of_forall (h : ∀ a, c.fits a) : FitsBelow n c := fun a _ => h a

theorem FitsBelow.prod (hc : FitsBelow n c) (hd : FitsBelow n d) : FitsBelow n (c.prod d) := by
  rintro ⟨a, b⟩ hlen
  simp only [Codec.prod, List.length_append] at hlen
  exact ⟨hc a (by omega), hd b (by omega)⟩

theorem FitsBelow.refine {decode : α → Option β} {encode : β → α} (hc : FitsBelow n c)
    (hdecode : ∀ b, decode (encode b) = some b) : FitsBelow n (c.refine decode encode) :=
  fun b hlen => ⟨hc (encode b) hlen, hdecode b⟩

theorem FitsBelow.sigma {γ : ι → Type*} {tag : Codec ι} {c : ∀ i, Codec (γ i)}
    (htag : FitsBelow n tag) (hc : ∀ i, FitsBelow n (c i)) : FitsBelow n (tag.sigma c) := by
  rintro ⟨i, x⟩ hlen
  simp only [Codec.sigma, List.length_append] at hlen
  exact ⟨htag i (by omega), hc i x (by omega)⟩

theorem FitsBelow.blob {w : ℕ} (hw : n ≤ 256 ^ w) : FitsBelow n (blob w) := by
  intro bs hlen
  rw [write_blob, List.length_append] at hlen
  exact (fits_blob w bs).mpr (by omega)

theorem FitsBelow.text {w : ℕ} (hw : n ≤ 256 ^ w) : FitsBelow n (text w) := by
  intro s hlen
  have hbytes := FitsBelow.blob hw s.toUTF8.toList hlen
  exact (fits_text w s).mpr ((fits_blob w _).mp hbytes)

/-- Elements that take a byte at least are no more than the bytes of the list. -/
theorem FitsBelow.list {w : ℕ} (hw : n ≤ 256 ^ w) (hc : FitsBelow n c)
    (hpos : ∀ a, 0 < (c.write a).length) : FitsBelow n (list w c) := by
  intro as hlen
  rw [write_list, List.length_append] at hlen
  have hcount : as.length ≤ (as.flatMap c.write).length := by
    clear hlen
    induction as with
    | nil => simp
    | cons a as ih =>
        have := hpos a
        simp only [List.flatMap_cons, List.length_append, List.length_cons]
        omega
  refine (fits_list w c as).mpr ⟨by omega, fun a ha => hc a ?_⟩
  have hsub : (c.write a).Sublist (as.flatMap c.write) := by
    rw [List.flatMap_def]
    exact List.sublist_flatten_of_mem (List.mem_map_of_mem ha)
  have := hsub.length_le
  omega

theorem FitsBelow.option (hc : FitsBelow n c) : FitsBelow n (option c) := by
  intro a hlen
  rw [fits_option]
  rintro x ⟨⟩
  rw [length_write_option_some] at hlen
  exact hc x (by omega)

end FitsBelow

end Codec

end AuthKademlia.Lib
