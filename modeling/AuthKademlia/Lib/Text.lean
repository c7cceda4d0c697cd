import Mathlib.Algebra.Order.Ring.Nat
import Mathlib.Data.List.Basic

/-!
# The bytes of a text

The UTF-8 bytes of a text are those of its characters, one after the other.  A number
written with zeros in front has in every place the digit of that place.

## Main definitions

* `toUTF8_toList` — the bytes of a text from its characters.
* `fromUTF8_toUTF8` — the text from its bytes.
* `replicate_append_toDigits` — a number padded with zeros, place by place.
-/

namespace AuthKademlia.Lib

/-- The loop of `ByteArray.toList` adds the bytes from `i` on to those it has. -/
theorem toList_loop (bs : ByteArray) (i : ℕ) (acc : List UInt8) :
    ByteArray.toList.loop bs i acc = acc.reverse ++ bs.data.toList.drop i := by
  fun_induction ByteArray.toList.loop bs i acc with
  | case1 i acc hlt ih =>
      have hi : i < bs.data.toList.length := by simpa using hlt
      rw [ih, List.drop_eq_getElem_cons hi]
      simp [ByteArray.get!, hlt]
  | case2 i acc hge =>
      have hlen : bs.data.toList.length ≤ i := by simpa using hge
      simp [List.drop_eq_nil_of_le hlen]

theorem toList_byteArray (bs : ByteArray) : bs.toList = bs.data.toList := by
  simp [ByteArray.toList, toList_loop]

/-- **The bytes of a text** are those of its characters. -/
theorem toUTF8_toList (s : String) : s.toUTF8.toList = s.toList.flatMap String.utf8EncodeChar := by
  have hbytes : s.toUTF8 = (s.toList.flatMap String.utf8EncodeChar).toByteArray :=
    String.utf8Encode_toList.symm
  rw [hbytes, toList_byteArray, List.data_toByteArray]

/-- A text is read back from its bytes. -/
theorem fromUTF8_toUTF8 (s : String) : String.fromUTF8? ⟨s.toUTF8.toList.toArray⟩ = some s := by
  rw [toList_byteArray]
  exact dif_pos s.isValidUTF8

/-- **A number padded with zeros**, place by place. -/
theorem replicate_append_toDigits {b : ℕ} (hb : 1 < b) {w n : ℕ} (hn : n < b ^ (w + 1)) :
    List.replicate (w + 1 - (Nat.toDigits b n).length) '0' ++ Nat.toDigits b n =
      (List.range (w + 1)).reverse.map fun s => Nat.digitChar (n / b ^ s % b) := by
  induction w generalizing n with
  | zero =>
      have hlt : n < b := by simpa using hn
      simp [Nat.toDigits_of_lt_base hlt, Nat.mod_eq_of_lt hlt]
  | succ w ih =>
      have hdiv : n / b < b ^ (w + 1) := by
        rw [Nat.div_lt_iff_lt_mul (Nat.zero_lt_of_lt hb)]
        simpa [Nat.pow_succ] using hn
      -- the places above the last one are those of `n / b`
      have hplaces : (List.range (w + 2)).reverse.map (fun s => Nat.digitChar (n / b ^ s % b)) =
          (List.range (w + 1)).reverse.map (fun s => Nat.digitChar (n / b / b ^ s % b)) ++
            [Nat.digitChar (n % b)] := by
        rw [List.range_succ_eq_map, List.reverse_cons, List.map_append]
        simp [List.map_reverse, Nat.pow_succ', Nat.div_div_eq_div_mul]
      rw [hplaces, ← ih hdiv]
      by_cases hlt : n < b
      · have hzero : n / b = 0 := Nat.div_eq_of_lt hlt
        simp [Nat.toDigits_of_lt_base hlt, hzero, Nat.mod_eq_of_lt hlt, List.replicate_succ']
      · rw [Nat.toDigits_eq_if hb, if_neg hlt]
        simp

end AuthKademlia.Lib
