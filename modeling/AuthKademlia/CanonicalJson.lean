import AuthKademlia.Lib.KeyOrder
import AuthKademlia.SignatureVerifier
import Mathlib.Data.String.Basic

/-!
# The canonical form of a JSON value

Before a publisher serializes its document it sorts the members of every object.
`sortJsonKeys` is a canonical form: two values are sorted to the same value exactly if they
differ in nothing but the order of members, at any depth (`sortJsonKeys_eq_iff`).

The crate depends on `serde_json` without its feature `preserve_order`, so a `Value` there is in
order from the beginning, and in order sorting does nothing (`sortJsonKeys_eq_self_iff`).  Here a
`Json` has its members in the order in which the source writes them, and sorting is what puts them
where the map of `serde_json` has them.

## Main definitions

* `sortJsonKeys`.
* `Json.Distinct` — no object has a key twice.
* `Json.InOrder` — every object has its members in the order of their keys.
* `Reordered` — the same value up to the order of members.
-/

namespace AuthKademlia

open Lib

mutual

/-- Sort the members of every object by their keys.  The source sorts the members before it
goes into them; they are the same members either way, since no key changes. -/
def sortJsonKeys : Json → Json
  | .object fields => .object (sortByKey (sortMembers fields))
  | .array elems => .array (sortElems elems)
  | .null => .null
  | .bool b => .bool b
  | .number text => .number text
  | .string s => .string s

/-- The members of an object, each with its value sorted. -/
def sortMembers : List (String × Json) → List (String × Json)
  | [] => []
  | (key, value) :: rest => (key, sortJsonKeys value) :: sortMembers rest

/-- The elements of an array, each sorted. -/
def sortElems : List Json → List Json
  | [] => []
  | elem :: rest => sortJsonKeys elem :: sortElems rest

end

mutual

/-- No key occurs twice in an object. -/
def Json.Distinct : Json → Prop
  | .object fields => (fields.map Prod.fst).Nodup ∧ membersDistinct fields
  | .array elems => elemsDistinct elems
  | .null | .bool _ | .number _ | .string _ => True

def membersDistinct : List (String × Json) → Prop
  | [] => True
  | (_, value) :: rest => value.Distinct ∧ membersDistinct rest

def elemsDistinct : List Json → Prop
  | [] => True
  | elem :: rest => elem.Distinct ∧ elemsDistinct rest

end

mutual

/-- The members of every object are in the order of their keys. -/
def Json.InOrder : Json → Prop
  | .object fields => (fields.Pairwise fun m m' => m.1 ≤ m'.1) ∧ membersInOrder fields
  | .array elems => elemsInOrder elems
  | .null | .bool _ | .number _ | .string _ => True

def membersInOrder : List (String × Json) → Prop
  | [] => True
  | (_, value) :: rest => value.InOrder ∧ membersInOrder rest

def elemsInOrder : List Json → Prop
  | [] => True
  | elem :: rest => elem.InOrder ∧ elemsInOrder rest

end

/-- The values are the same up to the order of the members of their objects. -/
inductive Reordered : Json → Json → Prop
  | refl (j : Json) : Reordered j j
  | symm {j j' : Json} (h : Reordered j j') : Reordered j' j
  | trans {j₁ j₂ j₃ : Json} (h : Reordered j₁ j₂) (h' : Reordered j₂ j₃) : Reordered j₁ j₃
  | members {fields fields' : List (String × Json)} (hnodup : (fields.map Prod.fst).Nodup)
      (h : fields.Perm fields') : Reordered (.object fields) (.object fields')
  | inMember (before : List (String × Json)) (key : String) {value value' : Json}
      (after : List (String × Json)) (h : Reordered value value') :
      Reordered (.object (before ++ (key, value) :: after))
        (.object (before ++ (key, value') :: after))
  | inElem (before : List Json) {elem elem' : Json} (after : List Json)
      (h : Reordered elem elem') :
      Reordered (.array (before ++ elem :: after)) (.array (before ++ elem' :: after))

/-! ## What sorting does at one level -/

section Level

variable {fields : List (String × Json)}

theorem sortMembers_eq_map (fields : List (String × Json)) :
    sortMembers fields = fields.map fun m => (m.1, sortJsonKeys m.2) := by
  induction fields with
  | nil => simp [sortMembers]
  | cons m rest ih => simp [sortMembers, ih]

theorem sortElems_eq_map (elems : List Json) : sortElems elems = elems.map sortJsonKeys := by
  induction elems with
  | nil => simp [sortElems]
  | cons elem rest ih => simp [sortElems, ih]

theorem keys_sortMembers (fields : List (String × Json)) :
    (sortMembers fields).map Prod.fst = fields.map Prod.fst := by
  simp [sortMembers_eq_map]

theorem lookup_sortMembers (fields : List (String × Json)) (key : String) :
    (sortMembers fields).lookup key = (fields.lookup key).map sortJsonKeys := by
  induction fields with
  | nil => simp [sortMembers]
  | cons m rest ih =>
      obtain ⟨k, v⟩ := m
      rw [sortMembers, List.lookup_cons, List.lookup_cons, ih]
      split <;> rfl

/-- A member is where it was. -/
theorem field_sortJsonKeys (h : (fields.map Prod.fst).Nodup) (key : String) :
    (sortJsonKeys (.object fields)).field key = sortJsonKeys ((Json.object fields).field key) := by
  rw [sortJsonKeys, Json.field, lookup_sortByKey (by rwa [keys_sortMembers]), lookup_sortMembers,
    Json.field]
  cases fields.lookup key <;> simp [sortJsonKeys]

/-- So is an element. -/
theorem elem_sortJsonKeys (elems : List Json) (i : ℕ) :
    (sortJsonKeys (.array elems)).elem i = sortJsonKeys ((Json.array elems).elem i) := by
  rw [sortJsonKeys, Json.elem, sortElems_eq_map, List.getElem?_map, Json.elem]
  cases elems[i]? <;> simp [sortJsonKeys]

theorem membersInOrder_iff : membersInOrder fields ↔ ∀ m ∈ fields, m.2.InOrder := by
  induction fields with
  | nil => simp [membersInOrder]
  | cons m rest ih => simp [membersInOrder, ih]

end Level

/-! ## Values in order -/

mutual

theorem inOrder_sortJsonKeys : ∀ j : Json, (sortJsonKeys j).InOrder
  | .object fields => by
      rw [sortJsonKeys, Json.InOrder, membersInOrder_iff]
      refine ⟨sortByKey_pairwise _, fun m hm => ?_⟩
      exact membersInOrder_iff.mp (inOrder_sortMembers fields) m ((sortByKey_perm _).mem_iff.mp hm)
  | .array elems => by
      rw [sortJsonKeys]
      exact inOrder_sortElems elems
  | .null => by rw [sortJsonKeys]; trivial
  | .bool _ => by rw [sortJsonKeys]; trivial
  | .number _ => by rw [sortJsonKeys]; trivial
  | .string _ => by rw [sortJsonKeys]; trivial

theorem inOrder_sortMembers : ∀ fields, membersInOrder (sortMembers fields)
  | [] => by rw [sortMembers]; trivial
  | (_, value) :: rest => by
      rw [sortMembers]
      exact ⟨inOrder_sortJsonKeys value, inOrder_sortMembers rest⟩

theorem inOrder_sortElems : ∀ elems, elemsInOrder (sortElems elems)
  | [] => by rw [sortElems]; trivial
  | elem :: rest => by
      rw [sortElems]
      exact ⟨inOrder_sortJsonKeys elem, inOrder_sortElems rest⟩

end

mutual

theorem sortJsonKeys_of_inOrder : ∀ j : Json, j.InOrder → sortJsonKeys j = j
  | .object fields, h => by
      rw [sortJsonKeys, sortMembers_of_inOrder fields h.2, sortByKey_eq_self_iff.mpr h.1]
  | .array elems, h => by rw [sortJsonKeys, sortElems_of_inOrder elems h]
  | .null, _ => by rw [sortJsonKeys]
  | .bool _, _ => by rw [sortJsonKeys]
  | .number _, _ => by rw [sortJsonKeys]
  | .string _, _ => by rw [sortJsonKeys]

theorem sortMembers_of_inOrder : ∀ fields, membersInOrder fields → sortMembers fields = fields
  | [], _ => by rw [sortMembers]
  | (_, value) :: rest, h => by
      rw [sortMembers, sortJsonKeys_of_inOrder value h.1, sortMembers_of_inOrder rest h.2]

theorem sortElems_of_inOrder : ∀ elems, elemsInOrder elems → sortElems elems = elems
  | [], _ => by rw [sortElems]
  | elem :: rest, h => by
      rw [sortElems, sortJsonKeys_of_inOrder elem h.1, sortElems_of_inOrder rest h.2]

end

/-- **In a build without `preserve_order` sorting does nothing.** -/
theorem sortJsonKeys_eq_self_iff {j : Json} : sortJsonKeys j = j ↔ j.InOrder := by
  constructor
  · intro h
    have hsorted := inOrder_sortJsonKeys j
    rwa [h] at hsorted
  · exact sortJsonKeys_of_inOrder j

/-! ## The canonical form -/

/-- Values that differ in order are sorted to the same value. -/
theorem sortJsonKeys_eq_of_reordered {j j' : Json} (h : Reordered j j') :
    sortJsonKeys j = sortJsonKeys j' := by
  induction h with
  | refl j => rfl
  | symm _ ih => exact ih.symm
  | trans _ _ ih ih' => exact ih.trans ih'
  | members hnodup h =>
      rw [sortJsonKeys, sortJsonKeys, sortByKey_eq_of_perm (by rwa [keys_sortMembers])]
      rw [sortMembers_eq_map, sortMembers_eq_map]
      exact h.map _
  | inMember before key after _ ih => simp [sortJsonKeys, sortMembers_eq_map, ih]
  | inElem before after _ ih => simp [sortJsonKeys, sortElems_eq_map, ih]

mutual

/-- A value and its sorted form differ in order only. -/
theorem reordered_sortJsonKeys : ∀ j : Json, j.Distinct → Reordered j (sortJsonKeys j)
  | .object fields, h => by
      rw [sortJsonKeys]
      refine (reordered_sortMembers fields [] h.2).trans (.members ?_ (sortByKey_perm _).symm)
      rw [List.nil_append, keys_sortMembers]
      exact h.1
  | .array elems, h => by
      rw [sortJsonKeys]
      exact reordered_sortElems elems [] h
  | .null, _ => by rw [sortJsonKeys]; exact .refl _
  | .bool b, _ => by rw [sortJsonKeys]; exact .refl _
  | .number text, _ => by rw [sortJsonKeys]; exact .refl _
  | .string s, _ => by rw [sortJsonKeys]; exact .refl _

theorem reordered_sortMembers : ∀ (fields before : List (String × Json)), membersDistinct fields →
    Reordered (.object (before ++ fields)) (.object (before ++ sortMembers fields))
  | [], before, _ => by rw [sortMembers]; exact .refl _
  | (key, value) :: rest, before, h => by
      have hfirst := Reordered.inMember before key rest (reordered_sortJsonKeys value h.1)
      have hrest := reordered_sortMembers rest (before ++ [(key, sortJsonKeys value)]) h.2
      rw [List.append_assoc, List.append_assoc] at hrest
      rw [sortMembers]
      exact hfirst.trans hrest

theorem reordered_sortElems : ∀ (elems before : List Json), elemsDistinct elems →
    Reordered (.array (before ++ elems)) (.array (before ++ sortElems elems))
  | [], before, _ => by rw [sortElems]; exact .refl _
  | elem :: rest, before, h => by
      have hfirst := Reordered.inElem before rest (reordered_sortJsonKeys elem h.1)
      have hrest := reordered_sortElems rest (before ++ [sortJsonKeys elem]) h.2
      rw [List.append_assoc, List.append_assoc] at hrest
      rw [sortElems]
      exact hfirst.trans hrest

end

/-- **Sorting is a canonical form**: the sorted values are equal exactly if the values are the
same up to the order of members. -/
theorem sortJsonKeys_eq_iff {j j' : Json} (h : j.Distinct) (h' : j'.Distinct) :
    sortJsonKeys j = sortJsonKeys j' ↔ Reordered j j' := by
  constructor
  · intro heq
    have hsorted := reordered_sortJsonKeys j h
    rw [heq] at hsorted
    exact hsorted.trans (reordered_sortJsonKeys j' h').symm
  · exact sortJsonKeys_eq_of_reordered

/-! Two spellings of one nested object. -/

theorem sortJsonKeys_eq_iff_nested :
    Reordered (.object [("b", .array [.object [("y", .null), ("x", .bool true)]]), ("a", .null)])
      (.object [("a", .null), ("b", .array [.object [("x", .bool true), ("y", .null)]])]) := by
  refine (sortJsonKeys_eq_iff ?_ ?_).mp ?_
  · simp [Json.Distinct, membersDistinct, elemsDistinct]
  · simp [Json.Distinct, membersDistinct, elemsDistinct]
  · rfl

end AuthKademlia
