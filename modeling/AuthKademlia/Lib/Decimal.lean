import Mathlib.Data.List.Basic
import Mathlib.Data.List.TakeWhile
import Mathlib.Tactic.IntervalCases

/-!
# Decimal numbers in a text

`readNumber` reads a decimal number off the front of a text: all the digits there, under a
limit on their count, on leading zeros and on the value.  It reads back what
`Nat.toDigits 10` writes.

## Main definitions

* `readNumber`, `readGivenChar` — the two readers.
* `readNumber_toDigits_append` — a written number is read back.
-/

namespace AuthKademlia.Lib

/-- Read a number below `size`, of at most `maxDigits` digits if that is given. -/
def readNumber (maxDigits : Option ℕ) (allowZeroPrefix : Bool) (size : ℕ) (cs : List Char) :
    Option (ℕ × List Char) :=
  let digits := cs.takeWhile Char.isDigit
  let value := Nat.ofDigitChars 10 digits 0
  if digits = [] then none
  else if maxDigits.any (· < digits.length) then none
  else if !allowZeroPrefix && digits.head? == some '0' && 1 < digits.length then none
  else if value < size then some (value, cs.dropWhile Char.isDigit)
  else none

def readGivenChar (c : Char) : List Char → Option (List Char)
  | [] => none
  | d :: cs => if d = c then some cs else none

@[simp] theorem readGivenChar_cons_self (c : Char) (cs : List Char) :
    readGivenChar c (c :: cs) = some cs := by
  simp [readGivenChar]

/-- What is left after a number starts behind its digits. -/
theorem rest_of_readNumber {maxDigits : Option ℕ} {allowZeroPrefix : Bool} {size value : ℕ}
    {cs rest : List Char} (h : readNumber maxDigits allowZeroPrefix size cs = some (value, rest)) :
    rest = cs.dropWhile Char.isDigit := by
  simp only [readNumber] at h
  split_ifs at h
  simp_all

theorem toDigits_head_ne_zero {n : ℕ} (hn : 0 < n) : (Nat.toDigits 10 n).head? ≠ some '0' := by
  induction n using Nat.strong_induction_on with
  | _ n ih =>
      rw [Nat.toDigits_eq_if (by omega)]
      split
      · interval_cases n <;> decide
      · rw [List.head?_append_of_ne_nil _ (by simp)]
        exact ih (n / 10) (by omega) (by omega)

theorem takeWhile_isDigit_toDigits (n : ℕ) {rest : List Char}
    (hrest : rest.takeWhile Char.isDigit = []) :
    (Nat.toDigits 10 n ++ rest).takeWhile Char.isDigit = Nat.toDigits 10 n := by
  rw [List.takeWhile_append_of_pos fun c hc => Nat.isDigit_of_mem_toDigits (by omega) (by omega) hc,
    hrest, List.append_nil]

/-- **A written number is read back**, with the text behind it. -/
theorem readNumber_toDigits_append {maxDigits : Option ℕ} {allowZeroPrefix : Bool} {size n : ℕ}
    {rest : List Char} (hsize : n < size) (hdigits : ∀ k ∈ maxDigits, 0 < k ∧ n < 10 ^ k)
    (hrest : rest.takeWhile Char.isDigit = []) :
    readNumber maxDigits allowZeroPrefix size (Nat.toDigits 10 n ++ rest) = some (n, rest) := by
  have htake := takeWhile_isDigit_toDigits n hrest
  have hdrop : (Nat.toDigits 10 n ++ rest).dropWhile Char.isDigit = rest := by
    have hsplit := List.takeWhile_append_dropWhile (p := Char.isDigit)
      (l := Nat.toDigits 10 n ++ rest)
    rw [htake] at hsplit
    exact List.append_cancel_left hsplit
  have hcount : ¬ (maxDigits.any (· < (Nat.toDigits 10 n).length)) = true := by
    cases maxDigits with
    | none => simp
    | some k =>
        obtain ⟨hk, hn⟩ := hdigits k rfl
        have hlen := (Nat.length_toDigits_le_iff (by omega) hk).2 hn
        simpa using hlen
  -- a second digit means that the first is not zero
  have hzero : ¬ ((Nat.toDigits 10 n).head? = some '0' ∧ 1 < (Nat.toDigits 10 n).length) := by
    intro ⟨hhead, hlong⟩
    have hn : 10 ≤ n := by
      by_contra hlt
      rw [Nat.toDigits_of_lt_base (by omega)] at hlong
      simp at hlong
    exact toDigits_head_ne_zero (by omega) hhead
  have hnil : Nat.toDigits 10 n ≠ [] := by simp
  simp only [readNumber, htake, hdrop, hnil, hcount, if_false, Bool.false_eq_true]
  rw [Nat.ofDigitChars_toDigits (by omega) (by omega), if_pos hsize, if_neg]
  simp only [Bool.and_eq_true, decide_eq_true_eq, beq_iff_eq]
  intro hlead
  exact hzero ⟨hlead.1.2, hlead.2⟩

end AuthKademlia.Lib
