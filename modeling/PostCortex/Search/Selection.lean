import Mathlib.Data.List.Sort

/-!
# Selecting the first items

A selection moves the first `k` items of an order to the front, in no order of their
own.  Where the order tells any two items apart, the front sorted is the start of the
whole list sorted; a comparison by the number of an item after a comparison of the
items does tell them apart, and sorts as a stable sort by the items alone does.
-/

namespace PostCortex
namespace Search

open Std

variable {item : Type}

def sortBy (cmp : item -> item -> Ordering) (xs : List item) : List item :=
  xs.insertionSort (fun a b => (cmp a b).isLE)

def indexed (cmp : item -> item -> Ordering) : item × Nat -> item × Nat -> Ordering :=
  compareLex (fun a b => cmp a.1 b.1) (compareOn Prod.snd)

/-- No item before the `k`-th is greater than it, and none after it smaller. -/
structure Selected (cmp : item -> item -> Ordering) (k : Nat) (xs ys : List item) :
    Prop where
  perm : ys.Perm xs
  before : forall {pivot : item}, ys[k]? = some pivot ->
    forall x, x ∈ ys.take k -> cmp x pivot ≠ .gt
  after : forall {pivot : item}, ys[k]? = some pivot ->
    forall x, x ∈ ys.drop (k + 1) -> cmp x pivot ≠ .lt

/-- A selection of the `k`-th item of a list in an order. -/
structure SelectNth where
  run : forall {item : Type}, List item -> Nat -> (item -> item -> Ordering) -> List item

def SelectNth.Partitions (select : SelectNth) : Prop :=
  forall {item : Type} (cmp : item -> item -> Ordering) [TransCmp cmp] (k : Nat)
    (xs : List item), k < xs.length -> Selected cmp k xs (select.run xs k cmp)

def Separates (cmp : item -> item -> Ordering) (xs : List item) : Prop :=
  forall a, a ∈ xs -> forall b, b ∈ xs -> cmp a b = .eq -> a = b

/-!
# Sorting
-/

section

variable (cmp : item -> item -> Ordering)

theorem sortBy_perm (xs : List item) : (sortBy cmp xs).Perm xs :=
  List.perm_insertionSort _ xs

theorem sortBy_pairwise [TransCmp cmp] (xs : List item) :
    (sortBy cmp xs).Pairwise (fun a b => (cmp a b).isLE) := by
  have : IsTrans item (fun a b => (cmp a b).isLE) :=
    ⟨fun _ _ _ => TransCmp.isLE_trans⟩
  have : Std.Total (fun a b => ((cmp a b).isLE : Prop)) := by
    constructor
    intro a b
    cases h : cmp a b with
    | lt | eq => exact Or.inl rfl
    | gt =>
        right
        rw [OrientedCmp.gt_iff_lt.mp h]
        rfl
  exact List.pairwise_insertionSort _ xs

end

variable {cmp : item -> item -> Ordering}

theorem eq_sortBy [TransCmp cmp] {xs ys : List item} (hexact : Separates cmp xs)
    (hperm : ys.Perm xs) (hys : ys.Pairwise (fun a b => (cmp a b).isLE)) :
    ys = sortBy cmp xs := by
  have hsorted := (sortBy_perm cmp xs).symm
  refine (hperm.trans hsorted).eq_of_pairwise ?_ hys (sortBy_pairwise cmp xs)
  intro a b ha hb hab hba
  exact hexact a (hperm.mem_iff.mp ha) b (hsorted.mem_iff.mpr hb)
    (OrientedCmp.isLE_antisymm hab hba)

/-!
# Selections
-/

namespace Selected

variable {k : Nat} {xs ys : List item}

theorem front_le [TransCmp cmp] (h : Selected cmp k xs ys) {a b : item}
    (ha : a ∈ ys.take (k + 1)) (hb : b ∈ ys.drop (k + 1)) : (cmp a b).isLE := by
  have hk : k < ys.length := by
    have := List.length_pos_of_mem hb
    rw [List.length_drop] at this
    omega
  have hpivot : ys[k]? = some ys[k] := List.getElem?_eq_getElem hk
  have hle : (cmp a ys[k]).isLE := by
    rw [List.take_succ_eq_append_getElem hk] at ha
    cases List.mem_append.mp ha with
    | inl ha => exact Ordering.isLE_iff_ne_gt.mpr (h.before hpivot a ha)
    | inr ha =>
        rw [List.mem_singleton.mp ha]
        exact ReflCmp.isLE_rfl
  have hge : (cmp ys[k] b).isLE := by
    rw [Ordering.isLE_iff_ne_gt]
    intro hgt
    exact h.after hpivot b hb (OrientedCmp.gt_iff_lt.mp hgt)
  exact TransCmp.isLE_trans hle hge

theorem sortBy_take [TransCmp cmp] (h : Selected cmp k xs ys)
    (hexact : Separates cmp xs) (hk : k < xs.length) :
    sortBy cmp (ys.take (k + 1)) = (sortBy cmp xs).take (k + 1) := by
  have hwhole :
      sortBy cmp (ys.take (k + 1)) ++ sortBy cmp (ys.drop (k + 1)) = sortBy cmp xs := by
    apply eq_sortBy hexact
    · have hparts := (sortBy_perm cmp (ys.take (k + 1))).append
        (sortBy_perm cmp (ys.drop (k + 1)))
      rw [List.take_append_drop] at hparts
      exact hparts.trans h.perm
    · apply List.pairwise_append.mpr
      refine ⟨sortBy_pairwise cmp _, sortBy_pairwise cmp _, ?_⟩
      intro a ha b hb
      exact h.front_le ((sortBy_perm cmp _).mem_iff.mp ha)
        ((sortBy_perm cmp _).mem_iff.mp hb)
  have hlength : (sortBy cmp (ys.take (k + 1))).length = k + 1 := by
    rw [(sortBy_perm cmp _).length_eq, List.length_take, h.perm.length_eq]
    omega
  rw [← hwhole, List.take_left' hlength]

end Selected

theorem selected_sortBy [TransCmp cmp] (k : Nat) (xs : List item) :
    Selected cmp k xs (sortBy cmp xs) where
  perm := sortBy_perm cmp xs
  before := by
    intro pivot hpivot x hx
    obtain ⟨hk, hpivot⟩ := List.getElem?_eq_some_iff.mp hpivot
    obtain ⟨i, hi, hx⟩ := List.mem_take_iff_getElem.mp hx
    have hlt := List.pairwise_iff_getElem.mp (sortBy_pairwise cmp xs) i k (by omega) hk
      (by omega)
    rw [hx, hpivot] at hlt
    exact Ordering.isLE_iff_ne_gt.mp hlt
  after := by
    intro pivot hpivot x hx
    obtain ⟨hk, hpivot⟩ := List.getElem?_eq_some_iff.mp hpivot
    obtain ⟨i, hi, hx⟩ := List.mem_drop_iff_getElem.mp hx
    have hlt := List.pairwise_iff_getElem.mp (sortBy_pairwise cmp xs) k (k + 1 + i) hk
      (by omega) (by omega)
    rw [hx, hpivot] at hlt
    intro h
    rw [OrientedCmp.gt_of_lt h] at hlt
    cases hlt

namespace SelectNth

def sorting : SelectNth where
  run xs _ cmp := sortBy cmp xs

theorem partitions_sorting : sorting.Partitions := by
  intro item cmp _ k xs _
  exact selected_sortBy k xs

end SelectNth

/-!
# Numbered items
-/

instance transCmp_fst [TransCmp cmp] : TransCmp (fun a b : item × Nat => cmp a.1 b.1) where
  eq_swap := OrientedCmp.eq_swap
  isLE_trans := TransCmp.isLE_trans

instance [TransCmp cmp] : TransCmp (indexed cmp) :=
  inferInstanceAs (TransCmp (compareLex (fun a b : item × Nat => cmp a.1 b.1) _))

theorem indexed_isLE (cmp : item -> item -> Ordering) {a b : item × Nat}
    (h : a.2 < b.2) :
    (indexed cmp a b).isLE = (cmp a.1 b.1).isLE := by
  have hnumber : compareOn Prod.snd a b = Ordering.lt := Nat.compare_eq_lt.mpr h
  simp only [indexed, compareLex, hnumber]
  cases cmp a.1 b.1 with
  | lt | eq | gt =>
      rfl

theorem pairwise_zipIdx (xs : List item) : xs.zipIdx.Pairwise (fun a b => a.2 < b.2) := by
  rw [← List.pairwise_map, List.zipIdx_map_snd]
  exact List.pairwise_lt_range'

variable {xs : List (item × Nat)}

theorem separates_indexed (h : xs.Pairwise (fun a b => a.2 < b.2)) :
    Separates (indexed cmp) xs := by
  have hnodup : (xs.map Prod.snd).Nodup := by
    rw [List.Nodup, List.pairwise_map]
    exact h.imp Nat.ne_of_lt
  intro a ha b hb hab
  simp only [indexed, compareLex, Ordering.then_eq_eq] at hab
  exact List.inj_on_of_nodup_map hnodup ha hb (Nat.compare_eq_eq.mp hab.2)

theorem insert_indexed (cmp : item -> item -> Ordering) {x : item × Nat}
    (h : forall y, y ∈ xs -> x.2 < y.2) :
    (xs.orderedInsert (fun a b => (indexed cmp a b).isLE) x).map Prod.fst =
      (xs.map Prod.fst).orderedInsert (fun a b => (cmp a b).isLE) x.1 := by
  induction xs with
  | nil => rfl
  | cons y rest ih =>
      have hy := indexed_isLE cmp (h y List.mem_cons_self)
      have ih := ih (fun z hz => h z (List.mem_cons_of_mem y hz))
      simp only [List.map_cons, List.orderedInsert_cons, hy]
      split
      · rfl
      · rw [List.map_cons, ih]

theorem sortBy_indexed (h : xs.Pairwise (fun a b => a.2 < b.2)) :
    (sortBy (indexed cmp) xs).map Prod.fst = sortBy cmp (xs.map Prod.fst) := by
  induction xs with
  | nil => rfl
  | cons x rest ih =>
      have hrest := (sortBy_perm (indexed cmp) rest)
      have hinsert := insert_indexed cmp
        (fun y hy => List.rel_of_pairwise_cons h (hrest.mem_iff.mp hy))
      rw [ih h.of_cons] at hinsert
      exact hinsert

end Search
end PostCortex
