import Mathlib.Algebra.BigOperators.Field
import Mathlib.Algebra.BigOperators.Ring.Finset
import Mathlib.Algebra.Order.BigOperators.Group.Finset
import Mathlib.Algebra.Order.Field.Basic
import Mathlib.Tactic.Ring

/-!
# Damped walks

A walk along weighted edges that is interrupted with a fixed probability and then
goes on anywhere, after a distribution of its own; so does the mass of places
without edges.  One round of the walk takes a positive distribution to a positive
distribution.
-/

namespace PostCortex
namespace Numeric

open Finset

variable {place K : Type} [Field K] [LinearOrder K] [IsStrictOrderedRing K]

structure Distribution (places : Finset place) (mass : place -> K) : Prop where
  pos : forall i, i ∈ places -> 0 < mass i
  total : ∑ i ∈ places, mass i = 1

def outflow (places : Finset place) (weight : place -> place -> K) (i : place) : K :=
  ∑ j ∈ places, weight i j

def walk (places : Finset place) (damping : K) (weight : place -> place -> K)
    (restart mass : place -> K) (j : place) : K :=
  (1 - damping + damping * ∑ i ∈ places with outflow places weight i = 0, mass i) *
      restart j +
    ∑ i ∈ places with outflow places weight i ≠ 0,
      damping * mass i / outflow places weight i * weight i j

variable {places : Finset place} {damping : K} {weight : place -> place -> K}
  {restart mass : place -> K}

omit [IsStrictOrderedRing K] in
theorem walk_total (hrestart : ∑ j ∈ places, restart j = 1) :
    ∑ j ∈ places, walk places damping weight restart mass j =
      1 - damping + damping * ∑ i ∈ places, mass i := by
  have hpassed : forall i, i ∈ places.filter (fun i => outflow places weight i ≠ 0) ->
      ∑ j ∈ places, damping * mass i / outflow places weight i * weight i j =
        damping * mass i := by
    intro i hi
    have hne := (mem_filter.mp hi).2
    rw [← mul_sum]
    exact div_mul_cancel₀ _ hne
  calc ∑ j ∈ places, walk places damping weight restart mass j
      = (1 - damping + damping *
            ∑ i ∈ places with outflow places weight i = 0, mass i) *
          ∑ j ∈ places, restart j +
        ∑ i ∈ places with outflow places weight i ≠ 0,
          ∑ j ∈ places, damping * mass i / outflow places weight i * weight i j := by
        unfold walk
        rw [sum_add_distrib, ← mul_sum, sum_comm]
    _ = 1 - damping + damping *
          (∑ i ∈ places with outflow places weight i = 0, mass i +
            ∑ i ∈ places with outflow places weight i ≠ 0, mass i) := by
        rw [hrestart, sum_congr rfl hpassed, ← mul_sum]
        ring
    _ = 1 - damping + damping * ∑ i ∈ places, mass i := by
        exact congrArg (fun m => 1 - damping + damping * m)
          (sum_filter_add_sum_filter_not _ _ _)

theorem walk_pos (h0 : 0 ≤ damping) (h1 : damping < 1)
    (hweight : forall i j, i ∈ places -> j ∈ places -> 0 ≤ weight i j)
    (hrestart : forall j, j ∈ places -> 0 < restart j)
    (hmass : forall i, i ∈ places -> 0 < mass i) {j : place} (hj : j ∈ places) :
    0 < walk places damping weight restart mass j := by
  have hflow : forall i, i ∈ places -> 0 ≤ outflow places weight i :=
    fun i hi => sum_nonneg (fun j hj => hweight i j hi hj)
  have hdangling : 0 ≤ ∑ i ∈ places with outflow places weight i = 0, mass i :=
    sum_nonneg (fun i hi => (hmass i (mem_filter.mp hi).1).le)
  have hstep : 0 ≤ ∑ i ∈ places with outflow places weight i ≠ 0,
      damping * mass i / outflow places weight i * weight i j := by
    refine sum_nonneg ?_
    intro i hi
    have hi := (mem_filter.mp hi).1
    have hm := (hmass i hi).le
    exact mul_nonneg (div_nonneg (mul_nonneg h0 hm) (hflow i hi)) (hweight i j hi hj)
  have hkept : 0 < 1 - damping := sub_pos.mpr h1
  have hscale : 0 < 1 - damping + damping *
      ∑ i ∈ places with outflow places weight i = 0, mass i :=
    add_pos_of_pos_of_nonneg hkept (mul_nonneg h0 hdangling)
  exact add_pos_of_pos_of_nonneg (mul_pos hscale (hrestart j hj)) hstep

theorem Distribution.walk (h0 : 0 ≤ damping) (h1 : damping < 1)
    (hweight : forall i j, i ∈ places -> j ∈ places -> 0 ≤ weight i j)
    (hrestart : Distribution places restart) (hmass : Distribution places mass) :
    Distribution places (walk places damping weight restart mass) where
  pos := fun _ hj => walk_pos h0 h1 hweight hrestart.pos hmass.pos hj
  total := by
    rw [walk_total hrestart.total, hmass.total]
    ring

omit [IsStrictOrderedRing K] in
theorem Distribution.congr {other : place -> K} (h : Distribution places mass)
    (heq : forall i, i ∈ places -> other i = mass i) :
    Distribution places other where
  pos := fun i hi => (heq i hi).symm ▸ h.pos i hi
  total := (sum_congr rfl heq).trans h.total

theorem Distribution.normalize (hne : places.Nonempty)
    (hpos : forall i, i ∈ places -> 0 < mass i) :
    Distribution places (fun i => mass i / ∑ k ∈ places, mass k) where
  pos := fun i hi => div_pos (hpos i hi) (sum_pos hpos hne)
  total := by
    rw [← sum_div]
    exact div_self (sum_pos hpos hne).ne'

end Numeric
end PostCortex
