import Mathlib.Data.List.Basic

/-!
# Calls in progress

A system with calls keeps them in a list, numbered in the order they arrive,
and a step replaces one of them.  What holds of every call afterwards has to be
shown of the call that moved and of each other call.
-/

namespace PostCortex
namespace Transition

variable {call : Type}

variable {calls : List call} {i : Nat} {c c' : call}

theorem getElem?_set_cases {j : Nat} {other : call} (hi : calls[i]? = some c)
    (hj : (calls.set i c')[j]? = some other) :
    j = i ∧ other = c' ∨ j ≠ i ∧ calls[j]? = some other := by
  by_cases hji : j = i
  · subst hji
    rw [List.getElem?_set_self (List.getElem?_eq_some_iff.mp hi).1] at hj
    exact Or.inl ⟨rfl, (Option.some.inj hj).symm⟩
  · rw [List.getElem?_set_ne (Ne.symm hji)] at hj
    exact Or.inr ⟨hji, hj⟩

variable {P : Nat -> call -> Prop}

theorem forall_getElem?_set (hi : calls[i]? = some c) (hown : P i c')
    (hothers : forall j other, j ≠ i -> calls[j]? = some other -> P j other) :
    forall j other, (calls.set i c')[j]? = some other -> P j other := by
  intro j other hj
  rcases getElem?_set_cases hi hj with ⟨rfl, rfl⟩ | ⟨hji, hother⟩
  · exact hown
  · exact hothers j other hji hother

theorem forall_mem_set {P : call -> Prop} (hi : calls[i]? = some c) (hown : P c')
    (hothers : forall j other, j ≠ i -> calls[j]? = some other -> P other) :
    forall other, other ∈ calls.set i c' -> P other := by
  intro other hmem
  obtain ⟨j, hj⟩ := List.getElem?_of_mem hmem
  exact forall_getElem?_set hi hown hothers j other hj

theorem forall_getElem?_snoc (hnew : P calls.length c)
    (hold : forall j other, calls[j]? = some other -> P j other) :
    forall j other, (calls ++ [c])[j]? = some other -> P j other := by
  intro j other hj
  rcases Nat.lt_trichotomy j calls.length with hlt | heq | hgt
  · rw [List.getElem?_append_left hlt] at hj
    exact hold j other hj
  · subst heq
    rw [List.getElem?_append_right (Nat.le_refl _), Nat.sub_self] at hj
    cases hj
    exact hnew
  · rw [List.getElem?_eq_none (by simp; omega)] at hj
    cases hj

theorem countP_set_add {p : call -> Bool} (hi : calls[i]? = some c) (c' : call) :
    (calls.set i c').countP p + (if p c then 1 else 0) =
      calls.countP p + (if p c' then 1 else 0) := by
  induction calls generalizing i with
  | nil => cases hi
  | cons first rest ih =>
      cases i with
      | zero =>
          cases hi
          rw [List.set_cons_zero, List.countP_cons, List.countP_cons]
          omega
      | succ i =>
          have hrest : rest[i]? = some c := hi
          rw [List.set_cons_succ, List.countP_cons, List.countP_cons]
          have hset := ih hrest
          omega

end Transition
end PostCortex
