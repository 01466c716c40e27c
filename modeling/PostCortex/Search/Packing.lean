import Mathlib.Algebra.GroupWithZero.Nat
import Mathlib.Data.List.Basic

/-!
# Packing within a budget

Items are taken in their order as long as their costs fit into a budget; one that does
not fit is skipped.
-/

namespace PostCortex
namespace Search

variable {item : Type}

def costOf (cost : item -> Nat) (xs : List item) : Nat :=
  (xs.map cost).sum

def pack (cost : item -> Nat) (budget : Nat) : Nat -> List item -> List item
  | _, [] => []
  | used, x :: rest =>
      if budget < used + cost x then pack cost budget used rest
      else x :: pack cost budget (used + cost x) rest

variable {cost : item -> Nat} {budget : Nat}

@[simp]
theorem costOf_nil : costOf cost [] = 0 :=
  rfl

@[simp]
theorem costOf_cons (x : item) (xs : List item) :
    costOf cost (x :: xs) = cost x + costOf cost xs := by
  simp [costOf]

@[simp]
theorem costOf_append (xs ys : List item) :
    costOf cost (xs ++ ys) = costOf cost xs + costOf cost ys := by
  simp [costOf]

theorem costOf_le {weight : item -> Nat} {factor : Nat} {xs : List item}
    (h : forall x, x ∈ xs -> weight x ≤ factor * cost x) :
    costOf weight xs ≤ factor * costOf cost xs := by
  induction xs with
  | nil => exact Nat.zero_le _
  | cons x rest ih =>
      have hx := h x List.mem_cons_self
      have hrest := ih (fun y hy => h y (List.mem_cons_of_mem x hy))
      rw [costOf_cons, costOf_cons, Nat.mul_add]
      omega

theorem costOf_filter (keep : item -> Bool) (xs : List item) :
    costOf cost (xs.filter (fun x => !keep x)) + costOf cost (xs.filter keep) =
      costOf cost xs := by
  induction xs with
  | nil => rfl
  | cons x rest ih =>
      simp only [costOf_cons, ← ih, List.filter_cons]
      cases keep x with
      | true =>
          simp only [Bool.not_true, Bool.false_eq_true, if_false, if_true, costOf_cons]
          omega
      | false =>
          simp only [Bool.not_false, Bool.false_eq_true, if_false, if_true, costOf_cons]
          omega

theorem costOf_pack_le {used : Nat} (h : used ≤ budget) (xs : List item) :
    used + costOf cost (pack cost budget used xs) ≤ budget := by
  induction xs generalizing used with
  | nil => exact h
  | cons x rest ih =>
      unfold pack
      split
      · exact ih h
      · next hfits =>
        have hrest := ih (Nat.le_of_not_lt hfits)
        rw [costOf_cons]
        omega

theorem pack_eq_nil {used : Nat} (h : budget < used) (xs : List item) :
    pack cost budget used xs = [] := by
  induction xs with
  | nil => rfl
  | cons x rest ih =>
      rw [pack, if_pos (Nat.lt_add_right _ h)]
      exact ih

theorem costOf_pack_le_max (used : Nat) (xs : List item) :
    used + costOf cost (pack cost budget used xs) ≤ max budget used := by
  by_cases h : used ≤ budget
  · exact Nat.le_trans (costOf_pack_le h xs) (Nat.le_max_left budget used)
  · rw [pack_eq_nil (Nat.lt_of_not_le h)]
    exact Nat.le_max_right budget used

theorem mem_pack {used : Nat} {xs : List item} {x : item}
    (h : x ∈ pack cost budget used xs) : x ∈ xs := by
  induction xs generalizing used with
  | nil => cases h
  | cons y rest ih =>
      unfold pack at h
      split at h
      · exact List.mem_cons_of_mem y (ih h)
      · rcases List.mem_cons.mp h with rfl | hrest
        · exact List.mem_cons_self
        · exact List.mem_cons_of_mem y (ih hrest)

end Search
end PostCortex
