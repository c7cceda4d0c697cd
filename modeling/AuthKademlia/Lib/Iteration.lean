import Mathlib.Data.List.Flatten
import Mathlib.Data.List.Sort

/-!
# Iterators and alternation

An iterator is a state with a `next` function that gives an element and a new state, or
ends.  `Yields next s l` says that from `s` it gives the elements of `l` in this order and
then ends, so that a loop over the iterator is a fact about `l`.

`alternate l r` takes from two lists in turn and, once one is used up, takes what is left
of the other.

## Main definitions

* `Yields` — what an iterator gives.
* `alternate` — two lists in turn.
* `flatMap_replicate_eq_iff` — when two orders of visits look the same.
-/

namespace AuthKademlia.Lib

variable {σ α : Type}

/-- From `s` the iterator gives the elements of the list and then ends. -/
inductive Yields (next : σ → Option (α × σ)) : σ → List α → Prop
  | nil {s : σ} (h : next s = none) : Yields next s []
  | cons {s s' : σ} {a : α} {l : List α} (h : next s = some (a, s')) (hs : Yields next s' l) :
      Yields next s (a :: l)

/-- **A description of the state is enough.**  If `contents` of a state is empty when the
iterator ends and otherwise loses its first element, the iterator yields it. -/
theorem yields_of_contents {next : σ → Option (α × σ)} {contents : σ → List α}
    (hnone : ∀ s, next s = none → contents s = [])
    (hsome : ∀ s a s', next s = some (a, s') → contents s = a :: contents s') (s : σ) :
    Yields next s (contents s) := by
  generalize hl : contents s = l
  induction l generalizing s with
  | nil =>
      cases hs : next s with
      | none => exact .nil hs
      | some step => simp [hsome s step.1 step.2 hs] at hl
  | cons a l ih =>
      cases hs : next s with
      | none => simp [hnone s hs] at hl
      | some step =>
          have h := hl.symm.trans (hsome s step.1 step.2 hs)
          rw [(List.cons.inj h).1]
          exact .cons hs (ih step.2 (List.cons.inj h).2.symm)

/-- A map of states along which the iterators correspond carries what is given over. -/
theorem Yields.map {σ' β : Type} {next : σ → Option (α × σ)} {next' : σ' → Option (β × σ')}
    {f : σ → σ'} {g : α → β} (h : ∀ s, next' (f s) = (next s).map (Prod.map g f)) {s : σ}
    {l : List α} (hs : Yields next s l) : Yields next' (f s) (l.map g) := by
  induction hs with
  | nil hend => exact .nil (by simp [h, hend])
  | cons hnext _ ih => exact .cons (by simp [h, hnext]) ih

/-! ## Two lists in turn -/

/-- Take from `l` and `r` in turn, from `l` first; the end of the longer one is taken as
it is. -/
def alternate : List α → List α → List α
  | [], r => r
  | a :: l, [] => a :: l
  | a :: l, b :: r => a :: b :: alternate l r

@[simp] theorem alternate_nil_left (r : List α) : alternate [] r = r := rfl

@[simp] theorem alternate_nil_right (l : List α) : alternate l [] = l := by cases l <;> rfl

/-- After one element it is the turn of the other list. -/
@[simp] theorem alternate_cons (a : α) (l r : List α) :
    alternate (a :: l) r = a :: alternate r l := by
  induction r generalizing a l with
  | nil => rfl
  | cons b r ih =>
      cases l with
      | nil => simp [alternate]
      | cons c l => simp [alternate, ih]

/-- Nothing is lost and nothing is taken twice. -/
theorem alternate_perm : ∀ l r : List α, (alternate l r).Perm (l ++ r)
  | [], r => List.Perm.refl r
  | a :: l, [] => by simp
  | a :: l, b :: r => (((alternate_perm l r).cons b).cons a).trans (List.perm_middle.symm.cons a)

theorem map_alternate {β : Type} (f : α → β) :
    ∀ l r : List α, (alternate l r).map f = alternate (l.map f) (r.map f)
  | [], _ => rfl
  | _ :: _, [] => rfl
  | _ :: l, _ :: r => by simp [alternate, map_alternate f l r]

/-- **Two lists in turn are sorted** if the keys of the one are `c`, `c + 2`, ... and those
of the other `c + 1`, `c + 3`, .... -/
theorem alternate_pairwise_lt {key : α → ℕ} {l r : List α} {c : ℕ}
    (hl : l.map key = (List.range l.length).map fun i => c + 2 * i)
    (hr : r.map key = (List.range r.length).map fun i => c + 1 + 2 * i) :
    (alternate l r).Pairwise fun a b => key a < key b := by
  induction hn : l.length + r.length using Nat.strong_induction_on generalizing l r c with
  | _ n ih =>
  cases l with
  | nil =>
      rw [alternate_nil_left, ← List.pairwise_map (f := key) (R := (· < ·)), hr, List.pairwise_map]
      refine (List.pairwise_lt_range).imp ?_
      intro i j hij
      omega
  | cons a l =>
      rw [alternate_cons]
      simp only [List.length_cons, List.range_succ_eq_map, List.map_cons, List.map_map,
        List.cons.injEq] at hl
      have hl' : l.map key = (List.range l.length).map fun i => c + 1 + 1 + 2 * i := by
        rw [hl.2]
        refine List.map_congr_left ?_
        intro i _
        simp only [Function.comp, Nat.succ_eq_add_one]
        omega
      have hrest := ih (r.length + l.length) (by simp at hn; omega) hr hl' rfl
      refine List.Pairwise.cons ?_ hrest
      intro b hb
      have hmem : key b ∈ r.map key ++ l.map key := by
        simpa using ((alternate_perm r l).map key).mem_iff.mp (List.mem_map_of_mem hb)
      simp only [hr, hl', List.mem_append, List.mem_map, List.mem_range] at hmem
      omega

/-! ## Sorted lists of groups -/

/-- In a sorted list the element with the smaller key comes first. -/
theorem pair_sublist {key : α → ℕ} {l : List α} (hl : l.Pairwise fun a b => key a < key b)
    {p q : α} (hp : p ∈ l) (hq : q ∈ l) (hlt : key p < key q) : [p, q].Sublist l := by
  induction hl with
  | nil => simp at hp
  | @cons a l ha _ ih =>
      rcases List.mem_cons.mp hp with rfl | hp
      · refine List.Sublist.cons_cons _ (List.singleton_sublist.mpr ?_)
        rcases List.mem_cons.mp hq with rfl | hq
        · omega
        · exact hq
      · refine (ih hp ?_).cons _
        rcases List.mem_cons.mp hq with rfl | hq
        · exact absurd hlt (Nat.not_lt_of_lt (ha p ‹_›))
        · exact hq

/-- **When two orders of groups cannot be told apart by the items.**  A list of groups is
visited in the order of `τ` and in the order of `σ`, and every group `p` shows up `count p`
times.  What is seen is the same exactly if the two orders agree on the groups that show up
at all. -/
theorem flatMap_replicate_eq_iff {τ σ count : α → ℕ} {v o : List α} (hperm : v.Perm o)
    (hv : v.Pairwise fun p q => τ p < τ q) (ho : o.Pairwise fun p q => σ p < σ q) :
    (v.flatMap fun p => List.replicate (count p) p) =
        (o.flatMap fun p => List.replicate (count p) p) ↔
      ∀ p ∈ v, ∀ q ∈ v, 0 < count p → 0 < count q → τ p < τ q → σ p < σ q := by
  constructor
  · intro heq p hp q hq hcp hcq hlt
    have hsorted : (v.flatMap fun p => List.replicate (count p) p).Pairwise
        fun p q => σ p ≤ σ q := by
      rw [heq, List.pairwise_flatMap]
      refine ⟨?_, ho.imp ?_⟩
      · intro a _
        exact List.pairwise_replicate.mpr (.inr le_rfl)
      · intro a b hab x hx y hy
        rw [List.eq_of_mem_replicate hx, List.eq_of_mem_replicate hy]
        exact hab.le
    have hpair : [p, q].Sublist (v.flatMap fun p => List.replicate (count p) p) := by
      refine List.Sublist.trans ?_ ((pair_sublist hv hp hq hlt).flatMap _)
      have hone : ∀ a, 0 < count a → [a].Sublist (List.replicate (count a) a) := by
        intro a ha
        simpa using ha.ne'
      simpa using (hone p hcp).append (hone q hcq)
    have hle : σ p ≤ σ q := by simpa using hsorted.sublist hpair
    have hnodup : (o.map σ).Nodup := List.pairwise_map.mpr (ho.imp ne_of_lt)
    refine lt_of_le_of_ne hle fun heq => ?_
    rw [List.inj_on_of_nodup_map hnodup (hperm.subset hp) (hperm.subset hq) heq] at hlt
    exact lt_irrefl _ hlt
  · intro hall
    have hfilter : ∀ l : List α, (l.flatMap fun p => List.replicate (count p) p) =
        (l.filter fun p => 0 < count p).flatMap fun p => List.replicate (count p) p := by
      intro l
      induction l with
      | nil => rfl
      | cons a l ih =>
          rcases Nat.eq_zero_or_pos (count a) with h0 | hpos
          · simp [h0, ih]
          · simp [hpos, ih]
    rw [hfilter v, hfilter o]
    congr 1
    refine List.Perm.eq_of_pairwise ?_ ?_ (ho.filter _) (hperm.filter _)
    · intro a b _ _ hab hba
      omega
    · refine (hv.filter _).imp_of_mem ?_
      intro a b ha hb hab
      simp only [List.mem_filter, decide_eq_true_eq] at ha hb
      exact hall a ha.1 b hb.1 ha.2 hb.2 hab

end AuthKademlia.Lib
