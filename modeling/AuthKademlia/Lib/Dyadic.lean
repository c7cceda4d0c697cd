import Mathlib.Algebra.Order.Ring.Nat
import Mathlib.Data.Nat.Bitwise
import Mathlib.Tactic.Ring

/-!
# Dyadic blocks and tilings

The dyadic block of size `2 ^ j` around `x` is the set of numbers that agree with
`x` once their `j` low bits are dropped.  Halving a block of size `2 ^ (j + 1)` at
its midpoint gives two blocks of size `2 ^ j`, and the one that still contains `x`
is the block of size `2 ^ j` around `x`: repeated halving towards `x` walks down
the chain of blocks around it and reaches `{x}` after `j` steps.

The distance of `y` from `x` is `y ^^^ x`.  It respects blocks: of two disjoint blocks one
is nearer to `x` as a whole, and comparing any two elements shows which
(`IsDyadic.xor_lt_xor_iff`); the nearest is the block of `x` (`IsDyadic.xor_lt_xor_of_mem`).

`Tiles a l b` says that the closed intervals of `l`, in list order, are non-empty,
contiguous, and together cover `[a, b)`.

## Main definitions

* `blockLo j x`, `blockHi j x` — the ends of the block of size `2 ^ j` around `x`.
* `IsDyadic lo hi` — the closed interval `[lo, hi]` is a dyadic block.
* `Tiles a l b` — the intervals of `l` tile `[a, b)`.
-/

namespace AuthKademlia.Lib

/-! ## Blocks -/

/-- The least element of the block of size `2 ^ j` around `x`. -/
def blockLo (j x : ℕ) : ℕ := x / 2 ^ j * 2 ^ j

/-- The greatest element of the block of size `2 ^ j` around `x`. -/
def blockHi (j x : ℕ) : ℕ := x / 2 ^ j * 2 ^ j + (2 ^ j - 1)

/-- The closed interval `[lo, hi]` is a dyadic block. -/
def IsDyadic (lo hi : ℕ) : Prop := ∃ p j, lo = p * 2 ^ j ∧ hi = p * 2 ^ j + (2 ^ j - 1)

theorem blockLo_le (j x : ℕ) : blockLo j x ≤ x := Nat.div_mul_le_self x (2 ^ j)

theorem le_blockHi (j x : ℕ) : x ≤ blockHi j x := by
  have hpos := Nat.two_pow_pos j
  have hmod : x % 2 ^ j < 2 ^ j := Nat.mod_lt x hpos
  have hdiv := Nat.div_add_mod' x (2 ^ j)
  simp only [blockHi]
  omega

@[simp] theorem blockLo_zero (x : ℕ) : blockLo 0 x = x := by simp [blockLo]

@[simp] theorem blockHi_zero (x : ℕ) : blockHi 0 x = x := by simp [blockHi]

/-- A dyadic block is the block around any of its elements. -/
theorem IsDyadic.eq_block {lo hi x : ℕ} (h : IsDyadic lo hi) (hlo : lo ≤ x) (hhi : x ≤ hi) :
    ∃ j, lo = blockLo j x ∧ hi = blockHi j x := by
  obtain ⟨p, j, rfl, rfl⟩ := h
  have hpos := Nat.two_pow_pos j
  have hp : x / 2 ^ j = p := by
    rw [Nat.div_eq_iff hpos]
    constructor <;> omega
  exact ⟨j, by simp [blockLo, hp], by simp [blockHi, hp]⟩

theorem IsDyadic.le {lo hi : ℕ} (h : IsDyadic lo hi) : lo ≤ hi := by
  obtain ⟨p, j, rfl, rfl⟩ := h
  omega

/-- The midpoint of a block of size `2 ^ (j + 1)` splits it into two blocks of
size `2 ^ j`. -/
theorem isDyadic_halves {p j : ℕ} :
    let lo := p * 2 ^ (j + 1)
    let hi := p * 2 ^ (j + 1) + (2 ^ (j + 1) - 1)
    let mid := lo + (hi - lo) / 2
    mid < hi ∧ IsDyadic lo mid ∧ IsDyadic (mid + 1) hi := by
  intro lo hi mid
  have hpos := Nat.two_pow_pos j
  have hpow : 2 ^ (j + 1) = 2 * 2 ^ j := by ring
  have hmid : mid = p * 2 ^ (j + 1) + (2 ^ j - 1) := by simp only [mid, lo, hi]; omega
  refine ⟨by simp only [hi]; omega, ⟨2 * p, j, ?_, ?_⟩, ⟨2 * p + 1, j, ?_, ?_⟩⟩
  · simp only [lo, hpow]; ring
  · rw [hmid, hpow]; ring
  · have heq : (2 * p + 1) * 2 ^ j = p * 2 ^ (j + 1) + 2 ^ j := by rw [hpow]; ring
    omega
  · have heq : (2 * p + 1) * 2 ^ j = p * 2 ^ (j + 1) + 2 ^ j := by rw [hpow]; ring
    simp only [hi]
    omega

/-- Halving towards `x`: below the midpoint, the block of size `2 ^ j` around `x`
is the lower half of the one of size `2 ^ (j + 1)`, above it the upper half. -/
theorem block_half (j x : ℕ) :
    let mid := blockLo (j + 1) x + (blockHi (j + 1) x - blockLo (j + 1) x) / 2
    (x ≤ mid → blockLo j x = blockLo (j + 1) x ∧ blockHi j x = mid) ∧
      (mid < x → blockLo j x = mid + 1 ∧ blockHi j x = blockHi (j + 1) x) := by
  intro mid
  have hpos := Nat.two_pow_pos j
  have hpow : 2 ^ (j + 1) = 2 * 2 ^ j := by ring
  have hmod : x % 2 ^ j < 2 ^ j := Nat.mod_lt x hpos
  have hx := Nat.div_add_mod' x (2 ^ j)
  have hlo : blockLo (j + 1) x = 2 * (x / 2 ^ j / 2) * 2 ^ j := by
    rw [blockLo, pow_succ, ← Nat.div_div_eq_div_mul]; ring
  have hhi : blockHi (j + 1) x = 2 * (x / 2 ^ j / 2) * 2 ^ j + (2 * 2 ^ j - 1) := by
    rw [← hlo, ← hpow]; rfl
  have hmid : mid = 2 * (x / 2 ^ j / 2) * 2 ^ j + (2 ^ j - 1) := by
    simp only [mid]
    omega
  have hself : blockLo j x = x / 2 ^ j * 2 ^ j := rfl
  have hself' : blockHi j x = x / 2 ^ j * 2 ^ j + (2 ^ j - 1) := rfl
  -- the parity of `x / 2 ^ j` says in which half `x` lies
  rcases Nat.mod_two_eq_zero_or_one (x / 2 ^ j) with heven | hodd
  · have hq : 2 * (x / 2 ^ j / 2) = x / 2 ^ j := by omega
    rw [hq] at hlo hhi hmid
    refine ⟨fun _ => ⟨?_, ?_⟩, fun h => ?_⟩ <;> omega
  · have hq : x / 2 ^ j * 2 ^ j = 2 * (x / 2 ^ j / 2) * 2 ^ j + 2 ^ j := by
      conv_lhs => rw [show x / 2 ^ j = 2 * (x / 2 ^ j / 2) + 1 by omega]
      ring
    refine ⟨fun h => ?_, fun _ => ⟨?_, ?_⟩⟩ <;> omega

theorem blockHi_eq (j x : ℕ) : blockHi j x = blockLo j x + (2 ^ j - 1) := rfl

/-- The blocks around `x` are nested. -/
theorem block_mono {i j : ℕ} (h : i ≤ j) (x : ℕ) :
    blockLo j x ≤ blockLo i x ∧ blockHi i x ≤ blockHi j x := by
  induction j, h using Nat.le_induction with
  | base => exact ⟨le_rfl, le_rfl⟩
  | succ j _ ih =>
      have hlo := blockLo_le (j + 1) x
      have hhi := le_blockHi (j + 1) x
      obtain ⟨hlow, hhigh⟩ := block_half j x
      rcases le_or_gt x (blockLo (j + 1) x + (blockHi (j + 1) x - blockLo (j + 1) x) / 2)
        with hx | hx
      · have := hlow hx
        omega
      · have := hhigh hx
        omega

/-- A block around `x` inside another is the smaller one. -/
theorem le_of_block_subset {i j x : ℕ} (hlo : blockLo j x ≤ blockLo i x)
    (hhi : blockHi i x ≤ blockHi j x) : i ≤ j := by
  rw [blockHi_eq, blockHi_eq] at hhi
  have hi := Nat.two_pow_pos i
  have hj := Nat.two_pow_pos j
  exact (Nat.pow_le_pow_iff_right Nat.one_lt_two).mp (by omega)

/-! ## Distances -/

/-- All elements of a block agree above the block's size, and so above any larger one. -/
theorem div_two_pow_eq {p i j y : ℕ} (hij : i ≤ j) (hlo : p * 2 ^ i ≤ y)
    (hhi : y ≤ p * 2 ^ i + (2 ^ i - 1)) : y / 2 ^ j = p * 2 ^ i / 2 ^ j := by
  have hpos := Nat.two_pow_pos i
  have hy : y / 2 ^ i = p := by
    rw [Nat.div_eq_iff hpos]
    constructor <;> omega
  have hpow : 2 ^ j = 2 ^ i * 2 ^ (j - i) := by rw [← pow_add, Nat.add_sub_cancel' hij]
  rw [hpow, ← Nat.div_div_eq_div_mul, ← Nat.div_div_eq_div_mul, hy, Nat.mul_div_cancel _ hpos]

/-- The elements of a block of size `2 ^ k` agree above the `k` low bits. -/
theorem IsDyadic.div_eq_div {lo hi k x y : ℕ} (h : IsDyadic lo hi) (hsize : hi + 1 = lo + 2 ^ k)
    (hx : lo ≤ x ∧ x ≤ hi) (hy : lo ≤ y ∧ y ≤ hi) : x / 2 ^ k = y / 2 ^ k := by
  obtain ⟨p, j, rfl, rfl⟩ := h
  have hpos := Nat.two_pow_pos j
  have hpow : 2 ^ j = 2 ^ k := by omega
  obtain rfl : j = k := Nat.pow_right_injective le_rfl hpow
  rw [div_two_pow_eq le_rfl hx.1 hx.2, div_two_pow_eq le_rfl hy.1 hy.2]

/-- A number outside a block differs from it above the block's size. -/
theorem div_two_pow_ne {p j y : ℕ} (h : y < p * 2 ^ j ∨ p * 2 ^ j + (2 ^ j - 1) < y) :
    y / 2 ^ j ≠ p * 2 ^ j / 2 ^ j := by
  have hpos := Nat.two_pow_pos j
  rw [Nat.mul_div_cancel _ hpos, Ne, Nat.div_eq_iff hpos]
  omega

theorem xor_le_add (x y : ℕ) : x ^^^ y ≤ x + y := by
  induction x using Nat.strong_induction_on generalizing y with
  | _ x ih =>
      rcases Nat.eq_zero_or_pos x with rfl | hx
      · simp
      · have hhalf := ih (x / 2) (by omega) (y / 2)
        have hdiv : (x ^^^ y) / 2 = x / 2 ^^^ y / 2 := Nat.xor_div_two
        have hmod : (x ^^^ y) % 2 = (x + y) % 2 := Nat.xor_mod_two_eq
        omega

/-- The triangle inequality for the XOR distance. -/
theorem xor_triangle (x y z : ℕ) : x ^^^ z ≤ (x ^^^ y) + (y ^^^ z) := by
  have h := xor_le_add (x ^^^ y) (y ^^^ z)
  rwa [Nat.xor_assoc, Nat.xor_xor_cancel_left] at h

/-- XOR with a multiple of `2 ^ k` acts on what is above the `k` low bits. -/
theorem xor_mul_two_pow {h m t k : ℕ} (hm : m < 2 ^ k) :
    ((h * 2 ^ k + m) ^^^ (t * 2 ^ k)) / 2 ^ k = h ^^^ t ∧
      ((h * 2 ^ k + m) ^^^ (t * 2 ^ k)) % 2 ^ k = m := by
  have hpos := Nat.two_pow_pos k
  have hdiv : (h * 2 ^ k + m) / 2 ^ k = h := by
    rw [Nat.add_comm, Nat.add_mul_div_right _ _ hpos, Nat.div_eq_of_lt hm, Nat.zero_add]
  have hmod : (h * 2 ^ k + m) % 2 ^ k = m := by
    rw [Nat.add_comm, Nat.add_mul_mod_self_right, Nat.mod_eq_of_lt hm]
  constructor
  · rw [Nat.xor_div_two_pow, Nat.mul_div_cancel _ hpos, hdiv]
  · rw [Nat.xor_mod_two_pow, Nat.mul_mod_left, Nat.xor_zero, hmod]

/-- Two distances are compared by their high parts when these differ. -/
theorem xor_lt_xor_iff_div {x y y' j : ℕ} (hne : y / 2 ^ j ≠ y' / 2 ^ j) :
    y ^^^ x < y' ^^^ x ↔ y / 2 ^ j ^^^ x / 2 ^ j < y' / 2 ^ j ^^^ x / 2 ^ j := by
  have hdiv : ∀ a, (a ^^^ x) / 2 ^ j = a / 2 ^ j ^^^ x / 2 ^ j := by
    intro a
    simp only [← Nat.shiftRight_eq_div_pow, Nat.shiftRight_xor_distrib]
  have hne' : (y ^^^ x) / 2 ^ j ≠ (y' ^^^ x) / 2 ^ j := by
    rw [hdiv, hdiv]
    exact fun h => hne (Nat.xor_left_injective h)
  rw [← hdiv, ← hdiv]
  constructor
  · intro h
    exact lt_of_le_of_ne (Nat.div_le_div_right h.le) hne'
  · intro h
    by_contra hge
    exact absurd (Nat.div_le_div_right (Nat.le_of_not_lt hge)) (Nat.not_le_of_lt h)

/-- **Disjoint blocks are ordered by distance as a whole**: the distances of any two
elements from `x` compare like those of the lower ends. -/
theorem IsDyadic.xor_lt_xor_iff {lo hi lo' hi' x y y' : ℕ} (h : IsDyadic lo hi)
    (h' : IsDyadic lo' hi') (hdisjoint : hi < lo' ∨ hi' < lo) (hy : lo ≤ y ∧ y ≤ hi)
    (hy' : lo' ≤ y' ∧ y' ≤ hi') : y ^^^ x < y' ^^^ x ↔ lo ^^^ x < lo' ^^^ x := by
  rcases h with ⟨p, i, rfl, rfl⟩
  rcases h' with ⟨p', i', rfl, rfl⟩
  -- drop the low bits of the larger of the two blocks
  have hle : p * 2 ^ i ≤ p * 2 ^ i + (2 ^ i - 1) := by omega
  have hle' : p' * 2 ^ i' ≤ p' * 2 ^ i' + (2 ^ i' - 1) := by omega
  have hj : y / 2 ^ max i i' = p * 2 ^ i / 2 ^ max i i' :=
    div_two_pow_eq (le_max_left i i') hy.1 hy.2
  have hj' : y' / 2 ^ max i i' = p' * 2 ^ i' / 2 ^ max i i' :=
    div_two_pow_eq (le_max_right i i') hy'.1 hy'.2
  have hne : p * 2 ^ i / 2 ^ max i i' ≠ p' * 2 ^ i' / 2 ^ max i i' := by
    rcases le_total i i' with hij | hij
    · rw [max_eq_right hij]
      exact div_two_pow_ne (by omega)
    · rw [max_eq_left hij]
      exact (div_two_pow_ne (by omega)).symm
  rw [xor_lt_xor_iff_div (hj ▸ hj' ▸ hne), xor_lt_xor_iff_div hne, hj, hj']

/-- **The block of `x` is the nearest to it**: all its elements are nearer to `x` than any
element of a disjoint block. -/
theorem IsDyadic.xor_lt_xor_of_mem {lo hi lo' hi' x y y' : ℕ} (h : IsDyadic lo hi)
    (h' : IsDyadic lo' hi') (hdisjoint : hi < lo' ∨ hi' < lo) (hx : lo ≤ x ∧ x ≤ hi)
    (hy : lo ≤ y ∧ y ≤ hi) (hy' : lo' ≤ y' ∧ y' ≤ hi') : y ^^^ x < y' ^^^ x := by
  have hne : y' ^^^ x ≠ 0 := by
    rw [Ne, Nat.xor_eq_zero_iff]
    omega
  -- `x` itself is in the block, at distance zero
  rw [h.xor_lt_xor_iff h' hdisjoint hy hy', ← h.xor_lt_xor_iff h' hdisjoint hx hy', Nat.xor_self]
  exact Nat.pos_of_ne_zero hne

/-! ## Tilings -/

/-- The closed intervals of `l` are non-empty, contiguous in list order, and cover
exactly `[a, b)`. -/
def Tiles : ℕ → List (ℕ × ℕ) → ℕ → Prop
  | a, [], b => a = b
  | a, (lo, hi) :: l, b => lo = a ∧ lo ≤ hi ∧ Tiles (hi + 1) l b

theorem Tiles.append {a b c : ℕ} {l m : List (ℕ × ℕ)} (hl : Tiles a l b) (hm : Tiles b m c) :
    Tiles a (l ++ m) c := by
  induction l generalizing a with
  | nil =>
      obtain rfl : a = b := hl
      exact hm
  | cons r l ih => exact ⟨hl.1, hl.2.1, ih hl.2.2⟩

theorem Tiles.of_append {a c : ℕ} {l m : List (ℕ × ℕ)} (h : Tiles a (l ++ m) c) :
    ∃ b, Tiles a l b ∧ Tiles b m c := by
  induction l generalizing a with
  | nil => exact ⟨a, rfl, h⟩
  | cons r l ih =>
      obtain ⟨b, hl, hm⟩ := ih h.2.2
      exact ⟨b, ⟨h.1, h.2.1, hl⟩, hm⟩

theorem Tiles.le {a b : ℕ} {l : List (ℕ × ℕ)} (h : Tiles a l b) : a ≤ b := by
  induction l generalizing a with
  | nil => exact le_of_eq h
  | cons r l ih =>
      have hlo : r.1 = a := h.1
      have hle : r.1 ≤ r.2 := h.2.1
      have := ih h.2.2
      omega

theorem Tiles.mem_bounds {a b : ℕ} {l : List (ℕ × ℕ)} (h : Tiles a l b) {r : ℕ × ℕ}
    (hr : r ∈ l) : a ≤ r.1 ∧ r.1 ≤ r.2 ∧ r.2 < b := by
  induction l generalizing a with
  | nil => simp at hr
  | cons s l ih =>
      have hlo : s.1 = a := h.1
      have hle : s.1 ≤ s.2 := h.2.1
      have hend := Tiles.le h.2.2
      rcases List.mem_cons.mp hr with rfl | hr
      · omega
      · have := ih h.2.2 hr
        omega

/-- Every point of `[a, b)` lies in a tile, and the tiles before it lie strictly
below the point. -/
theorem Tiles.exists_split {a b x : ℕ} {l : List (ℕ × ℕ)} (h : Tiles a l b) (ha : a ≤ x)
    (hb : x < b) :
    ∃ pre r post, l = pre ++ r :: post ∧ r.1 ≤ x ∧ x ≤ r.2 ∧ (∀ s ∈ pre, s.2 < x) := by
  induction l generalizing a with
  | nil =>
      have : a = b := h
      omega
  | cons s l ih =>
      have hlo : s.1 = a := h.1
      by_cases hx : x ≤ s.2
      · exact ⟨[], s, l, rfl, by omega, hx, by simp⟩
      · obtain ⟨pre, r, post, rfl, h1, h2, h3⟩ := ih h.2.2 (by omega)
        refine ⟨s :: pre, r, post, rfl, h1, h2, ?_⟩
        intro t ht
        rcases List.mem_cons.mp ht with rfl | ht
        · omega
        · exact h3 t ht

/-- Two tiles at different places are disjoint. -/
theorem Tiles.pairwise {a b : ℕ} {l : List (ℕ × ℕ)} (h : Tiles a l b) :
    l.Pairwise fun r s => r.2 < s.1 := by
  induction l generalizing a with
  | nil => exact List.Pairwise.nil
  | cons r l ih =>
      refine List.Pairwise.cons ?_ (ih h.2.2)
      intro s hs
      have := Tiles.mem_bounds h.2.2 hs
      omega

end AuthKademlia.Lib
