import Mathlib.Algebra.Order.Ring.Nat
import Mathlib.Tactic.NormNum
import Mathlib.Tactic.Ring

/-!
# Fixed-width big-endian byte strings

`toBeBytes w n` writes `n` as exactly `w` bytes, most significant first, dropping
what does not fit; `fromBeBytes` reads a byte string of any width back.

## Main definitions

* `toBeBytes w n`, `fromBeBytes` — the two directions.
* `fromBeBytes_toBeBytes` — reading back what was written, modulo `256 ^ w`.
* `fromBeBytes_inj` — byte strings of one length are determined by their number.
* `toBeBytes_fromBeBytes` — writing back what was read.
* `beBit bs i` — bit `i` of a byte string, most significant first.
* `testBit_fromBeBytes` — the bits of the number are those of the bytes.
-/

namespace AuthKademlia.Lib

/-- The `w` big-endian bytes of `n`; bits above `8 * w` are dropped. -/
def toBeBytes : ℕ → ℕ → List UInt8
  | 0, _ => []
  | w + 1, n => UInt8.ofNat (n / 256 ^ w) :: toBeBytes w n

/-- The natural number with the given big-endian bytes. -/
def fromBeBytes : List UInt8 → ℕ
  | [] => 0
  | b :: bs => b.toNat * 256 ^ bs.length + fromBeBytes bs

@[simp] theorem length_toBeBytes (w n : ℕ) : (toBeBytes w n).length = w := by
  induction w with
  | zero => rfl
  | succ w ih => simp [toBeBytes, ih]

theorem fromBeBytes_lt (bs : List UInt8) : fromBeBytes bs < 256 ^ bs.length := by
  induction bs with
  | nil => simp [fromBeBytes]
  | cons b bs ih =>
      have hb : b.toNat + 1 ≤ 256 := b.toNat_lt
      calc
        fromBeBytes (b :: bs) < b.toNat * 256 ^ bs.length + 256 ^ bs.length := by
          simpa [fromBeBytes] using ih
        _ = (b.toNat + 1) * 256 ^ bs.length := by ring
        _ ≤ 256 * 256 ^ bs.length := Nat.mul_le_mul_right _ hb
        _ = 256 ^ (b :: bs).length := by rw [List.length_cons, pow_succ]; ring

/-- **Reading back what was written** gives the number modulo the width. -/
theorem fromBeBytes_toBeBytes (w n : ℕ) : fromBeBytes (toBeBytes w n) = n % 256 ^ w := by
  induction w with
  | zero => simp [toBeBytes, fromBeBytes, Nat.mod_one]
  | succ w ih =>
      simp only [toBeBytes, fromBeBytes, length_toBeBytes, ih, UInt8.toNat_ofNat']
      rw [pow_succ 256 w, Nat.mod_mul]
      ring

theorem fromBeBytes_toBeBytes_of_lt {w n : ℕ} (h : n < 256 ^ w) :
    fromBeBytes (toBeBytes w n) = n := by
  rw [fromBeBytes_toBeBytes, Nat.mod_eq_of_lt h]

theorem fromBeBytes_append (bs cs : List UInt8) :
    fromBeBytes (bs ++ cs) = fromBeBytes bs * 256 ^ cs.length + fromBeBytes cs := by
  induction bs with
  | nil => simp [fromBeBytes]
  | cons b bs ih =>
      simp only [List.cons_append, fromBeBytes, ih, List.length_append, pow_add]
      ring

/-- Byte strings of one length are determined by their number. -/
theorem fromBeBytes_inj {bs cs : List UInt8} (hlen : bs.length = cs.length) :
    fromBeBytes bs = fromBeBytes cs ↔ bs = cs := by
  refine ⟨fun h => ?_, fun h => h ▸ rfl⟩
  induction bs generalizing cs with
  | nil => simpa using hlen.symm
  | cons b bs ih =>
      cases cs with
      | nil => simp at hlen
      | cons c cs =>
          have hlen' : bs.length = cs.length := by simpa using hlen
          have hb := fromBeBytes_lt bs
          have hc := fromBeBytes_lt cs
          simp only [fromBeBytes, hlen'] at h hb
          -- the first byte is the quotient by the weight of the rest
          have hquot : ∀ p r : ℕ, r < 256 ^ cs.length →
              (p * 256 ^ cs.length + r) / 256 ^ cs.length = p := by
            intro p r hr
            rw [Nat.add_comm, Nat.add_mul_div_right _ _ (Nat.zero_lt_of_lt hr),
              Nat.div_eq_of_lt hr, Nat.zero_add]
          have hbyte : b.toNat = c.toNat := by rw [← hquot b.toNat _ hb, h, hquot _ _ hc]
          have hrest : fromBeBytes bs = fromBeBytes cs := by
            rw [hbyte] at h
            omega
          rw [UInt8.toNat_inj.mp hbyte, ih hlen' hrest]

/-- **Writing back what was read** gives the bytes. -/
theorem toBeBytes_fromBeBytes {w : ℕ} {bs : List UInt8} (hlen : bs.length = w) :
    toBeBytes w (fromBeBytes bs) = bs := by
  rw [← fromBeBytes_inj (by simp [hlen])]
  exact fromBeBytes_toBeBytes_of_lt (hlen ▸ fromBeBytes_lt bs)

/-! ## Bits -/

/-- Shifting a byte and masking reads one bit of it. -/
theorem shiftRight_and_one (b : UInt8) {s : ℕ} (hs : s < 8) :
    (b >>> UInt8.ofNat s) &&& 1 = UInt8.ofNat (b.toNat.testBit s).toNat := by
  have hshift : s % 2 ^ 8 % 8 = s := by omega
  rw [← UInt8.toNat_inj, UInt8.toNat_and, UInt8.toNat_shiftRight, UInt8.toNat_ofNat', hshift,
    UInt8.toNat_one, Nat.and_one_is_mod, Nat.shiftRight_eq_div_pow, UInt8.toNat_ofNat',
    Nat.toNat_testBit]
  omega

/-- Bit `i` of a byte string, counted from the most significant one. -/
def beBit (bs : List UInt8) (i : ℕ) : Bool := (bs.getD (i / 8) 0).toNat.testBit (7 - i % 8)

theorem beBit_take (bs : List UInt8) {w i : ℕ} (hi : i < 8 * w) :
    beBit (bs.take w) i = beBit bs i := by
  simp only [beBit, List.getD_eq_getElem?_getD]
  rw [List.getElem?_take_of_lt (by omega)]

theorem beBit_drop (bs : List UInt8) (k i : ℕ) :
    beBit (bs.drop k) i = beBit bs (8 * k + i) := by
  simp only [beBit, List.getD_eq_getElem?_getD, List.getElem?_drop]
  rw [Nat.mul_add_div (by decide), Nat.mul_add_mod]

/-- **The bits of the number are those of the bytes**, in the same order. -/
theorem testBit_fromBeBytes (bs : List UInt8) {i : ℕ} (hi : i < 8 * bs.length) :
    (fromBeBytes bs).testBit (8 * bs.length - 1 - i) = beBit bs i := by
  induction bs generalizing i with
  | nil => simp at hi
  | cons b bs ih =>
      have hpow : 256 ^ bs.length = 2 ^ (8 * bs.length) := by rw [pow_mul]; norm_num
      have hlt : fromBeBytes bs < 2 ^ (8 * bs.length) := hpow ▸ fromBeBytes_lt bs
      rw [List.length_cons] at hi ⊢
      rw [fromBeBytes, hpow, Nat.mul_comm, Nat.testBit_two_pow_mul_add _ hlt]
      -- the first eight bits are those of `b`
      by_cases h8 : i < 8
      · have hindex : 8 * (bs.length + 1) - 1 - i - 8 * bs.length = 7 - i := by omega
        rw [if_neg (by omega), hindex]
        simp [beBit, Nat.div_eq_of_lt h8, Nat.mod_eq_of_lt h8]
      · have hindex : 8 * (bs.length + 1) - 1 - i = 8 * bs.length - 1 - (i - 8) := by omega
        rw [if_pos (by omega), hindex, ih (by omega)]
        have hrest := beBit_drop (b :: bs) 1 (i - 8)
        rwa [Nat.mul_one, Nat.add_sub_cancel' (Nat.le_of_not_lt h8)] at hrest

end AuthKademlia.Lib
