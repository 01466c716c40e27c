import Mathlib.Data.List.Induction
import Mathlib.Data.List.Sort

/-!
# The greatest items of a stream

A heap of at most `k` items, the least of them first: an item is put in while there is
room, and in place of the least one if it is greater.  After any stream the heap holds
the first `k` items of the stream in descending order.
-/

namespace PostCortex
namespace Search

variable {item : Type} [LinearOrder item]

def descending (xs : List item) : List item :=
  xs.insertionSort (fun a b => b ≤ a)

def offer (k : Nat) (heap : List item) (x : item) : List item :=
  if k = 0 then heap
  else if heap.length < k then heap.orderedInsert (fun a b => a ≤ b) x
  else
    match heap with
    | [] => heap
    | worst :: rest =>
        if worst < x then rest.orderedInsert (fun a b => a ≤ b) x else heap

def offerAll (k : Nat) (xs : List item) : List item :=
  xs.foldl (offer k) []

theorem pairwise_descending (xs : List item) :
    (descending xs).Pairwise (fun a b => b ≤ a) :=
  List.pairwise_insertionSort _ xs

theorem perm_descending (xs : List item) : (descending xs).Perm xs :=
  List.perm_insertionSort _ xs

variable {xs ys : List item}

theorem eq_of_descending (h : xs.Perm ys) (hxs : xs.Pairwise (fun a b => b ≤ a))
    (hys : ys.Pairwise (fun a b => b ≤ a)) :
    xs = ys := by
  refine h.eq_of_pairwise ?_ hxs hys
  intro a b _ _ hab hba
  exact le_antisymm hba hab

theorem descending_eq (h : ys.Perm xs) (hys : ys.Pairwise (fun a b => b ≤ a)) :
    descending xs = ys :=
  eq_of_descending ((perm_descending xs).trans h.symm) (pairwise_descending xs) hys

theorem descending_perm (h : xs.Perm ys) :
    descending xs = descending ys :=
  descending_eq ((perm_descending ys).trans h.symm) (pairwise_descending ys)

theorem pairwise_insert (x : item) (h : xs.Pairwise (fun a b => b ≤ a)) :
    (xs.orderedInsert (fun a b => b ≤ a) x).Pairwise (fun a b => b ≤ a) :=
  h.orderedInsert x xs

theorem descending_concat (xs : List item) (x : item) :
    descending (xs ++ [x]) =
      (descending xs).orderedInsert (fun a b => b ≤ a) x := by
  apply descending_eq
  · have hinsert : ((descending xs).orderedInsert (fun a b => b ≤ a) x).Perm
        (x :: descending xs) := List.perm_orderedInsert _ _ _
    exact hinsert.trans (((perm_descending xs).cons x).trans
      (List.perm_append_singleton x xs).symm)
  · exact pairwise_insert x (pairwise_descending xs)

theorem take_insert (k : Nat) (x : item) (xs : List item) :
    (xs.orderedInsert (fun a b => b ≤ a) x).take k =
      ((xs.take k).orderedInsert (fun a b => b ≤ a) x).take k := by
  induction xs generalizing k with
  | nil => rw [List.take_nil]
  | cons y rest ih =>
      cases k with
      | zero => rw [List.take_zero, List.take_zero]
      | succ k =>
          rw [List.take_succ_cons, List.orderedInsert_cons, List.orderedInsert_cons]
          by_cases hle : y ≤ x
          · rw [if_pos hle, if_pos hle, List.take_succ_cons, List.take_succ_cons]
            cases k with
            | zero => rfl
            | succ k =>
                rw [List.take_succ_cons, List.take_succ_cons, List.take_take,
                  Nat.min_eq_left (Nat.le_succ k)]
          · rw [if_neg hle, if_neg hle, List.take_succ_cons, List.take_succ_cons, ih k]

theorem insert_reverse (x : item) (h : xs.Pairwise (fun a b => b ≤ a)) :
    xs.reverse.orderedInsert (fun a b => a ≤ b) x =
      (xs.orderedInsert (fun a b => b ≤ a) x).reverse := by
  rw [← List.reverse_inj, List.reverse_reverse]
  apply eq_of_descending
  · exact (List.reverse_perm _).trans ((List.perm_orderedInsert _ x xs.reverse).trans
      (((List.reverse_perm xs).cons x).trans (List.perm_orderedInsert _ x xs).symm))
  · rw [List.pairwise_reverse]
    exact (List.pairwise_reverse.mpr h).orderedInsert x xs.reverse
  · exact pairwise_insert x h

theorem offer_full_cons {k : Nat} {worst : item} {rest : List item}
    (hlength : rest.length + 1 = k) (x : item) :
    offer k (worst :: rest) x =
      if worst < x then rest.orderedInsert (fun a b => a ≤ b) x
      else worst :: rest := by
  unfold offer
  rw [if_neg (by omega), if_neg (by
    rw [List.length_cons]
    omega)]

theorem offer_full {k : Nat} (h : xs.Pairwise (fun a b => b ≤ a))
    (hlength : xs.length = k) (x : item) :
    offer k xs.reverse x =
      ((xs.orderedInsert (fun a b => b ≤ a) x).take k).reverse := by
  cases xs using List.reverseRecOn with
  | nil =>
      rw [List.length_nil] at hlength
      unfold offer
      rw [if_pos hlength.symm, ← hlength]
      rfl
  | append_singleton front worst =>
      rw [List.length_append, List.length_singleton] at hlength
      obtain ⟨hfront, _, hworst⟩ := List.pairwise_append.mp h
      rw [List.reverse_append, List.reverse_singleton, List.singleton_append,
        offer_full_cons (by rw [List.length_reverse, hlength])]
      by_cases hless : worst < x
      · rw [if_pos hless, insert_reverse x hfront]
        have hinsert : (front ++ [worst]).orderedInsert (fun a b => b ≤ a) x =
            front.orderedInsert (fun a b => b ≤ a) x ++ [worst] := by
          apply eq_of_descending
          · exact (List.perm_orderedInsert _ _ _).trans
              ((List.perm_orderedInsert _ x front).symm.append_right [worst])
          · exact pairwise_insert x h
          · refine List.pairwise_append.mpr
              ⟨pairwise_insert x hfront, List.pairwise_singleton _ _, ?_⟩
            intro a ha b hb
            rw [List.mem_singleton.mp hb]
            rcases (List.mem_orderedInsert _).mp ha with rfl | ha
            · exact le_of_lt hless
            · exact hworst a ha worst (List.mem_singleton.mpr rfl)
        have hcut : (front.orderedInsert (fun a b => b ≤ a) x).length = k := by
          rw [List.orderedInsert_length, hlength]
        rw [hinsert, List.take_append_of_le_length hcut.ge,
          List.take_of_length_le hcut.le]
      · rw [if_neg hless]
        have hinsert : (front ++ [worst]).orderedInsert (fun a b => b ≤ a) x =
            (front ++ [worst]) ++ [x] := by
          apply eq_of_descending
          · exact (List.perm_orderedInsert _ _ _).trans
              (List.perm_append_singleton x _).symm
          · exact pairwise_insert x h
          · refine List.pairwise_append.mpr ⟨h, List.pairwise_singleton _ _, ?_⟩
            intro a ha b hb
            rw [List.mem_singleton.mp hb]
            rcases List.mem_append.mp ha with ha | ha
            · exact (not_lt.mp hless).trans
                (hworst a ha worst (List.mem_singleton.mpr rfl))
            · rw [List.mem_singleton.mp ha]
              exact not_lt.mp hless
        have hcut : (front ++ [worst]).length = k := by
          rw [List.length_append, List.length_singleton, hlength]
        rw [hinsert, List.take_append_of_le_length hcut.ge,
          List.take_of_length_le hcut.le, List.reverse_append, List.reverse_singleton,
          List.singleton_append]

theorem offerAll_eq (k : Nat) (xs : List item) :
    offerAll k xs = ((descending xs).take k).reverse := by
  induction xs using List.reverseRecOn with
  | nil => rw [offerAll, descending, List.foldl_nil, List.insertionSort_nil,
      List.take_nil, List.reverse_nil]
  | append_singleton xs x ih =>
      rw [offerAll] at ih
      rw [offerAll, List.foldl_append, ih, List.foldl_cons, List.foldl_nil,
        descending_concat, take_insert]
      have hsorted : ((descending xs).take k).Pairwise (fun a b => b ≤ a) :=
        (pairwise_descending xs).sublist (List.take_sublist k _)
      have hbound : ((descending xs).take k).length ≤ k := by
        rw [List.length_take]
        exact Nat.min_le_left _ _
      rcases Nat.lt_or_eq_of_le hbound with hroom | hfull
      · have hcut : (((descending xs).take k).orderedInsert
            (fun a b => b ≤ a) x).length ≤ k := by
          rw [List.orderedInsert_length]
          exact hroom
        rw [List.take_of_length_le hcut, ← insert_reverse x hsorted]
        unfold offer
        rw [if_neg (by omega), List.length_reverse, if_pos hroom]
      · exact offer_full hsorted hfull x

end Search
end PostCortex
