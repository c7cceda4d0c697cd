import Mathlib.Data.Finset.Max
import Mathlib.Data.List.Sort

/-!
# The nearest elements of a finite set

`nearest key k s` are the elements of `s` with fewer than `k` others strictly closer.  If
`key` separates the elements of `s` these are the `k` elements of least key, and a list
sorted by `key` and cut after `k` elements holds exactly them (`toFinset_take`).

Selections compose: selecting from a set and from a superset of its selection is the same
(`nearest_union`), so a bounded buffer that is trimmed after every insertion ends with
what one selection at the end would give.

With equal keys "the `k` of least key" is not one set.  `IsSelection key k s i` says that `i`
is one of them; selections compose in the same way (`IsSelection.union`), and their keys are
the first `k` of all keys in order (`IsSelection.map_key`).

## Main definitions

* `closer key s x` — the elements of `s` strictly closer than `x`.
* `nearest key k s` — the elements with fewer than `k` closer ones.
* `IsSelection key k s i` — `i` is `k` elements of `s` of least key.
-/

namespace AuthKademlia.Lib

open Finset

variable {ι κ : Type*} [LinearOrder κ] (key : ι → κ)

/-- The elements of `s` strictly closer than `x`. -/
def closer (s : Finset ι) (x : ι) : Finset ι := s.filter fun y => key y < key x

/-- The elements of `s` with fewer than `k` elements strictly closer. -/
def nearest (k : ℕ) (s : Finset ι) : Finset ι := s.filter fun x => #(closer key s x) < k

variable {key} {k : ℕ} {s t : Finset ι} {x y : ι}

@[simp] theorem mem_closer : y ∈ closer key s x ↔ y ∈ s ∧ key y < key x := mem_filter

@[simp] theorem mem_nearest : x ∈ nearest key k s ↔ x ∈ s ∧ #(closer key s x) < k := mem_filter

theorem nearest_subset : nearest key k s ⊆ s := filter_subset _ _

theorem closer_subset_closer (h : s ⊆ t) : closer key s x ⊆ closer key t x :=
  filter_subset_filter _ h

/-- An element selected from a set is selected from every subset it is in. -/
theorem mem_nearest_of_subset (h : s ⊆ t) (hs : x ∈ s) (ht : x ∈ nearest key k t) :
    x ∈ nearest key k s := by
  rw [mem_nearest] at ht ⊢
  exact ⟨hs, lt_of_le_of_lt (card_le_card (closer_subset_closer h)) ht.2⟩

/-- A set of at most `k` elements is selected whole. -/
theorem nearest_eq_self (h : #s ≤ k) : nearest key k s = s := by
  refine subset_antisymm nearest_subset fun x hx => ?_
  have hlt : #(closer key s x) < #s := by
    apply card_lt_card
    refine ⟨filter_subset _ _, fun hsub => ?_⟩
    have := hsub hx
    simp at this
  exact mem_nearest.mpr ⟨hx, hlt.trans_le h⟩

section SortedEnds

variable {l : List ι} {bound : κ}

/-- The first element of a sorted list is beyond a bound exactly if all are. -/
theorem head?_all_lt_iff (h : l.Pairwise fun a b => key a ≤ key b) :
    (l.head?.all fun a => bound < key a) = true ↔ ∀ a ∈ l, bound < key a := by
  cases l with
  | nil => simp
  | cons a l =>
      have hle := (List.pairwise_cons.mp h).1
      simp only [List.head?_cons, Option.all_some, decide_eq_true_eq, List.forall_mem_cons]
      exact ⟨fun ha => ⟨ha, fun b hb => ha.trans_le (hle b hb)⟩, And.left⟩

/-- The last element of a sorted list is beyond a bound exactly if some element is. -/
theorem getLast?_all_lt_iff (h : l.Pairwise fun a b => key a ≤ key b) :
    (l.getLast?.all fun a => bound < key a) = true ↔ l = [] ∨ ∃ a ∈ l, bound < key a := by
  rcases l.eq_nil_or_concat with rfl | ⟨l, a, rfl⟩
  · simp
  · rw [List.concat_eq_append] at h ⊢
    have hle := (List.pairwise_append.mp h).2.2
    simp only [List.getLast?_append, List.getLast?_singleton, Option.some_or, Option.all_some,
      decide_eq_true_eq]
    constructor
    · intro ha
      exact .inr ⟨a, by simp, ha⟩
    · rintro (hnil | ⟨b, hb, hlt⟩)
      · simp at hnil
      · rcases List.mem_append.mp hb with hb | hb
        · exact hlt.trans_le (hle b hb a (by simp))
        · rwa [← List.mem_singleton.mp hb]

end SortedEnds

variable [DecidableEq ι]

/-- `k` closer elements are `k` closer selected elements. -/
theorem le_card_closer_nearest (h : k ≤ #(closer key s x)) :
    k ≤ #(closer key (nearest key k s) x) := by
  by_cases hall : closer key s x ⊆ nearest key k s
  · refine h.trans (card_le_card fun y hy => ?_)
    exact mem_closer.mpr ⟨hall hy, (mem_closer.mp hy).2⟩
  · -- below a closest element that is not selected everything is, and that is `k` elements
    have hne : (closer key s x \ nearest key k s).Nonempty := sdiff_nonempty.mpr hall
    obtain ⟨z, hz, hmin⟩ := exists_min_image _ key hne
    obtain ⟨hzx, hznot⟩ := mem_sdiff.mp hz
    obtain ⟨hzs, hlt⟩ := mem_closer.mp hzx
    have hk : k ≤ #(closer key s z) := by
      by_contra hfew
      exact hznot (mem_nearest.mpr ⟨hzs, not_le.mp hfew⟩)
    refine hk.trans (card_le_card fun y hy => ?_)
    obtain ⟨hys, hyz⟩ := mem_closer.mp hy
    have hyx : key y < key x := hyz.trans hlt
    refine mem_closer.mpr ⟨?_, hyx⟩
    by_contra hnot
    exact absurd hyz (not_lt.mpr (hmin y (mem_sdiff.mpr ⟨mem_closer.mpr ⟨hys, hyx⟩, hnot⟩)))

/-- **Trimming early changes nothing.** -/
theorem nearest_union (s t : Finset ι) :
    nearest key k (nearest key k s ∪ t) = nearest key k (s ∪ t) := by
  have hsub : nearest key k s ∪ t ⊆ s ∪ t := union_subset_union nearest_subset subset_rfl
  apply subset_antisymm
  · intro x hx
    obtain ⟨hmem, hfew⟩ := mem_nearest.mp hx
    have hs : closer key s x ⊆ nearest key k s := by
      -- an unselected closer element would have `k` closer selected ones
      intro y hy
      obtain ⟨hys, hyx⟩ := mem_closer.mp hy
      by_contra hnot
      have hk : k ≤ #(closer key s y) := by
        by_contra hlt
        exact hnot (mem_nearest.mpr ⟨hys, not_le.mp hlt⟩)
      have hle : #(closer key (nearest key k s) y) ≤ #(closer key (nearest key k s ∪ t) x) := by
        refine card_le_card fun z hz => ?_
        obtain ⟨hzs, hzy⟩ := mem_closer.mp hz
        exact mem_closer.mpr ⟨mem_union_left _ hzs, hzy.trans hyx⟩
      have := le_card_closer_nearest hk
      omega
    refine mem_nearest.mpr ⟨hsub hmem, lt_of_le_of_lt (card_le_card fun y hy => ?_) hfew⟩
    obtain ⟨hyst, hyx⟩ := mem_closer.mp hy
    refine mem_closer.mpr ⟨?_, hyx⟩
    rcases mem_union.mp hyst with hys | hyt
    · exact mem_union_left _ (hs (mem_closer.mpr ⟨hys, hyx⟩))
    · exact mem_union_right _ hyt
  · intro x hx
    refine mem_nearest_of_subset hsub ?_ hx
    rcases mem_union.mp (nearest_subset hx) with hxs | hxt
    · exact mem_union_left _ (mem_nearest_of_subset subset_union_left hxs hx)
    · exact mem_union_right _ hxt

/-- What lies between a set and its selection has the same selection. -/
theorem nearest_eq_of_subset (h : nearest key k s ⊆ t) (hts : t ⊆ s) :
    nearest key k t = nearest key k s := by
  have hunion := @nearest_union ι κ _ key k _ s t
  rwa [union_eq_right.mpr h, union_eq_left.mpr hts] at hunion

/-! ## Sorted lists -/

variable {l l' : List ι}

omit [DecidableEq ι] in
theorem nodup_of_sorted (h : l.Pairwise fun a b => key a < key b) : l.Nodup :=
  h.imp fun hlt heq => absurd hlt (by rw [heq]; exact lt_irrefl _)

/-- In a sorted list the closer elements are those in front. -/
theorem card_closer_getElem (h : l.Pairwise fun a b => key a < key b) {i : ℕ}
    (hi : i < l.length) : #(closer key l.toFinset l[i]) = i := by
  have heq : closer key l.toFinset l[i] = (l.take i).toFinset := by
    ext y
    rw [mem_closer, List.mem_toFinset, List.mem_toFinset, List.mem_take_iff_getElem]
    constructor
    · rintro ⟨hy, hlt⟩
      obtain ⟨j, hj, rfl⟩ := List.mem_iff_getElem.mp hy
      refine ⟨j, ?_, rfl⟩
      by_contra hle
      rcases Nat.lt_or_ge i j with hij | hji
      · exact absurd (List.pairwise_iff_getElem.mp h i j hi hj hij) (not_lt_of_gt hlt)
      · obtain rfl : i = j := by omega
        exact lt_irrefl _ hlt
    · rintro ⟨j, hj, rfl⟩
      exact ⟨List.getElem_mem _, List.pairwise_iff_getElem.mp h j i _ hi (by omega)⟩
  rw [heq, List.toFinset_card_of_nodup ((nodup_of_sorted h).sublist (List.take_sublist i l)),
    List.length_take]
  omega

/-- **Cutting a sorted list selects the nearest elements.** -/
theorem toFinset_take (h : l.Pairwise fun a b => key a < key b) (k : ℕ) :
    (l.take k).toFinset = nearest key k l.toFinset := by
  ext x
  rw [mem_nearest, List.mem_toFinset, List.mem_toFinset, List.mem_take_iff_getElem]
  constructor
  · rintro ⟨i, hi, rfl⟩
    have hlen : i < l.length := by omega
    exact ⟨List.getElem_mem hlen, by rw [card_closer_getElem h hlen]; omega⟩
  · rintro ⟨hx, hfew⟩
    obtain ⟨i, hi, rfl⟩ := List.mem_iff_getElem.mp hx
    rw [card_closer_getElem h hi] at hfew
    exact ⟨i, by omega, rfl⟩

/-- Two sorted lists of the same elements are equal. -/
theorem eq_of_sorted (h : l.Pairwise fun a b => key a < key b)
    (h' : l'.Pairwise fun a b => key a < key b) (heq : l.toFinset = l'.toFinset) : l = l' := by
  have hperm : l.Perm l' :=
    List.perm_of_nodup_nodup_toFinset_eq (nodup_of_sorted h) (nodup_of_sorted h') heq
  exact hperm.eq_of_pairwise (fun a b _ _ hab hba => absurd hab (not_lt_of_gt hba)) h h'

/-! ## Selections -/

/-- `i` consists of `k` elements of `s` of least key, or of all of them when there are fewer.
With equal keys there may be several selections. -/
structure IsSelection (key : ι → κ) (k : ℕ) (s i : Finset ι) : Prop where
  subset : i ⊆ s
  card_eq : #i = min k #s
  le : ∀ y ∈ i, ∀ x ∈ s, x ∉ i → key y ≤ key x

variable {i j : Finset ι}

omit [DecidableEq ι] in
/-- A selection leaves something out only if it is full. -/
theorem IsSelection.card_eq_of_notMem (h : IsSelection key k s i) (hx : x ∈ s) (hnot : x ∉ i) :
    #i = k := by
  have hlt : #i < #s := card_lt_card ⟨h.subset, fun hsub => hnot (hsub hx)⟩
  have := h.card_eq
  omega

/-- **Trimming early is still a selection.** -/
theorem IsSelection.union (h : IsSelection key k s i) (h' : IsSelection key k (i ∪ t) j) :
    IsSelection key k (s ∪ t) j where
  subset := h'.subset.trans (union_subset_union h.subset subset_rfl)
  card_eq := by
    by_cases hall : s ⊆ i
    · rw [subset_antisymm hall h.subset]
      exact h'.card_eq
    · rcases not_subset.mp hall with ⟨x, hx, hnot⟩
      have hfull := h.card_eq_of_notMem hx hnot
      have hit : #i ≤ #(i ∪ t) := card_le_card subset_union_left
      have hst : #(i ∪ t) ≤ #(s ∪ t) := card_le_card (union_subset_union h.subset subset_rfl)
      have := h'.card_eq
      omega
  le := by
    intro y hy x hx hnot
    by_cases hxit : x ∈ i ∪ t
    · exact h'.le y hy x hxit hnot
    · -- `x` was left out before, when `i` was full
      have hxi : x ∉ i := fun hmem => hxit (mem_union_left _ hmem)
      have hxs : x ∈ s := (mem_union.mp hx).resolve_right fun hmem => hxit (mem_union_right _ hmem)
      by_cases hyi : y ∈ i
      · exact h.le y hyi x hxs hxi
      · -- some element of `i` had to go for `y`, so `y` is no farther than it
        have hcard : #j ≤ #i := by
          rw [h.card_eq_of_notMem hxs hxi, h'.card_eq]
          exact min_le_left _ _
        have hgone : ¬ i ⊆ j := fun hsub => hyi (eq_of_subset_of_card_le hsub hcard ▸ hy)
        rcases not_subset.mp hgone with ⟨z, hz, hzj⟩
        exact (h'.le y hy z (mem_union_left _ hz) hzj).trans (h.le z hz x hxs hxi)

/-- Cutting a sorted list is a selection. -/
theorem isSelection_take (hnodup : l.Nodup) (hsorted : l.Pairwise fun a b => key a ≤ key b)
    (k : ℕ) : IsSelection key k l.toFinset (l.take k).toFinset where
  subset := by
    intro x hx
    rw [List.mem_toFinset] at hx ⊢
    exact List.mem_of_mem_take hx
  card_eq := by
    rw [List.toFinset_card_of_nodup (hnodup.sublist (List.take_sublist k l)),
      List.toFinset_card_of_nodup hnodup, List.length_take]
  le := by
    intro y hy x hx hnot
    rw [List.mem_toFinset] at hy hx hnot
    rw [← List.take_append_drop k l, List.pairwise_append] at hsorted
    rw [← List.take_append_drop k l, List.mem_append] at hx
    exact hsorted.2.2 y hy x (hx.resolve_left hnot)

/-- **The keys of a selection** are the first `k` of the sorted keys. -/
theorem IsSelection.map_key (hnodup : l.Nodup) (hnodup' : l'.Nodup)
    (h : IsSelection key k l.toFinset l'.toFinset)
    (hsorted : l'.Pairwise fun a b => key a ≤ key b) :
    l'.map key = ((l.map key).insertionSort (· ≤ ·)).take k := by
  have hperm : (l' ++ l.filter fun x => x ∉ l').Perm l := by
    refine List.perm_of_nodup_nodup_toFinset_eq ?_ hnodup ?_
    · refine List.nodup_append.mpr ⟨hnodup', hnodup.filter _, ?_⟩
      rintro x hx y hy rfl
      simp [hx] at hy
    · ext x
      have := @h.subset x
      simp only [List.mem_toFinset] at this
      simp only [List.toFinset_append, mem_union, List.mem_toFinset, List.mem_filter,
        decide_eq_true_eq]
      tauto
  -- the keys of the selection, then the others in order, are all keys in order
  have hsort : (l.map key).insertionSort (· ≤ ·) =
      l'.map key ++ ((l.filter fun x => x ∉ l').map key).insertionSort (· ≤ ·) := by
    refine List.Perm.eq_of_pairwise' (r := (· ≤ ·)) (List.pairwise_insertionSort _ _) ?_ ?_
    · refine List.pairwise_append.mpr
        ⟨List.pairwise_map.mpr hsorted, List.pairwise_insertionSort _ _, ?_⟩
      intro a ha b hb
      rw [List.mem_insertionSort] at hb
      rcases List.mem_map.mp ha with ⟨y, hy, rfl⟩
      rcases List.mem_map.mp hb with ⟨x, hx, rfl⟩
      simp only [List.mem_filter, decide_eq_true_eq] at hx
      exact h.le y (by simpa using hy) x (by simpa using hx.1) (by simpa using hx.2)
    · refine (List.perm_insertionSort _ _).trans (List.Perm.trans (hperm.symm.map key) ?_)
      rw [List.map_append]
      exact (List.perm_insertionSort _ _).symm.append_left _
  have hcard := h.card_eq
  rw [List.toFinset_card_of_nodup hnodup, List.toFinset_card_of_nodup hnodup'] at hcard
  have hlen := congrArg List.length hsort
  simp only [List.length_insertionSort, List.length_append, List.length_map] at hlen
  have hnil : (((l.filter fun x => x ∉ l').map key).insertionSort (· ≤ ·)).take
      (k - l'.length) = [] := by
    apply List.eq_nil_of_length_eq_zero
    simp only [List.length_take, List.length_insertionSort, List.length_map]
    omega
  rw [hsort, List.take_append, List.length_map, hnil, List.append_nil,
    List.take_of_length_le (by rw [List.length_map]; omega)]

end AuthKademlia.Lib
