import PostCortex.Numeric.DampedWalk

/-!
# Walks from seeds

A walk along weighted edges that goes on from its seeds with a fixed probability, and
whose mass is lost at places without edges.  The mass never grows, and after some
rounds it lies on the places that so many edges reach from a seed.
-/

namespace PostCortex
namespace Numeric

open Finset

variable {place K : Type} [Field K] [LinearOrder K] [IsStrictOrderedRing K]

structure Subdistribution (places : Finset place) (mass : place -> K) : Prop where
  nonneg : forall i, i ∈ places -> 0 ≤ mass i
  total : ∑ i ∈ places, mass i ≤ 1

def restartedWalk (places : Finset place) (damping : K) (weight : place -> place -> K)
    (restart mass : place -> K) (j : place) : K :=
  (1 - damping) * restart j +
    ∑ i ∈ places with outflow places weight i ≠ 0,
      damping * mass i / outflow places weight i * weight i j

def restartedRun (places : Finset place) (damping : K) (weight : place -> place -> K)
    (restart : place -> K) : Nat -> place -> K
  | 0 => restart
  | rounds + 1 =>
      restartedWalk places damping weight restart
        (restartedRun places damping weight restart rounds)

def ReachedBy (places : Finset place) (weight : place -> place -> K)
    (restart : place -> K) : Nat -> place -> Prop
  | 0, j => 0 < restart j
  | rounds + 1, j =>
      exists i, i ∈ places ∧ ReachedBy places weight restart rounds i ∧ 0 < weight i j

variable {places : Finset place} {damping : K} {weight : place -> place -> K}
  {restart mass : place -> K}

section

variable (hweight : forall i j, i ∈ places -> j ∈ places -> 0 ≤ weight i j)

include hweight

theorem passed_nonneg (h0 : 0 ≤ damping) (hmass : forall i, i ∈ places -> 0 ≤ mass i)
    {i j : place} (hi : i ∈ places) (hj : j ∈ places) :
    0 ≤ damping * mass i / outflow places weight i * weight i j := by
  have hflow : 0 ≤ outflow places weight i :=
    sum_nonneg (fun k hk => hweight i k hi hk)
  exact mul_nonneg (div_nonneg (mul_nonneg h0 (hmass i hi)) hflow) (hweight i j hi hj)

theorem Subdistribution.restartedWalk (h0 : 0 ≤ damping) (h1 : damping ≤ 1)
    (hrestart : Subdistribution places restart) (hmass : Subdistribution places mass) :
    Subdistribution places (restartedWalk places damping weight restart mass) where
  nonneg := by
    intro j hj
    refine add_nonneg (mul_nonneg (sub_nonneg.mpr h1) (hrestart.nonneg j hj)) ?_
    refine sum_nonneg ?_
    intro i hi
    exact passed_nonneg hweight h0 hmass.nonneg (mem_filter.mp hi).1 hj
  total := by
    have hpassed : forall i, i ∈ places.filter (fun i => outflow places weight i ≠ 0) ->
        ∑ j ∈ places, damping * mass i / outflow places weight i * weight i j =
          damping * mass i := by
      intro i hi
      rw [← mul_sum]
      exact div_mul_cancel₀ _ (mem_filter.mp hi).2
    have hkept : ∑ i ∈ places with outflow places weight i ≠ 0, mass i ≤ 1 :=
      (sum_le_sum_of_subset_of_nonneg (filter_subset _ _)
        (fun i hi _ => hmass.nonneg i hi)).trans hmass.total
    calc ∑ j ∈ places, Numeric.restartedWalk places damping weight restart mass j
        = (1 - damping) * ∑ j ∈ places, restart j +
            damping * ∑ i ∈ places with outflow places weight i ≠ 0, mass i := by
          unfold Numeric.restartedWalk
          rw [sum_add_distrib, ← mul_sum, sum_comm, sum_congr rfl hpassed, ← mul_sum]
      _ ≤ (1 - damping) * 1 + damping * 1 :=
          add_le_add (mul_le_mul_of_nonneg_left hrestart.total (sub_nonneg.mpr h1))
            (mul_le_mul_of_nonneg_left hkept h0)
      _ = 1 := by ring

theorem Subdistribution.restartedRun (h0 : 0 ≤ damping) (h1 : damping ≤ 1)
    (hrestart : Subdistribution places restart) (rounds : Nat) :
    Subdistribution places (restartedRun places damping weight restart rounds) := by
  induction rounds with
  | zero => exact hrestart
  | succ rounds ih => exact hrestart.restartedWalk hweight h0 h1 ih

theorem restartedWalk_pos_iff (h0 : 0 < damping) (h1 : damping < 1)
    (hrestart : forall j, j ∈ places -> 0 ≤ restart j)
    (hmass : forall i, i ∈ places -> 0 ≤ mass i) {j : place} (hj : j ∈ places) :
    0 < restartedWalk places damping weight restart mass j ↔
      0 < restart j ∨ exists i, i ∈ places ∧ 0 < mass i ∧ 0 < weight i j := by
  have hterm : forall i, i ∈ places.filter (fun i => outflow places weight i ≠ 0) ->
      0 ≤ damping * mass i / outflow places weight i * weight i j :=
    fun i hi => passed_nonneg hweight h0.le hmass (mem_filter.mp hi).1 hj
  have hkept : 0 ≤ (1 - damping) * restart j :=
    mul_nonneg (sub_nonneg.mpr h1.le) (hrestart j hj)
  constructor
  · intro hpos
    by_contra hnone
    rw [not_or, not_lt, not_exists] at hnone
    refine absurd hpos (not_lt.mpr (le_of_eq ?_))
    have hzero : restart j = 0 := le_antisymm hnone.1 (hrestart j hj)
    rw [restartedWalk, hzero, mul_zero, zero_add]
    refine sum_eq_zero ?_
    intro i hi
    have hi := (mem_filter.mp hi).1
    by_cases hmass0 : 0 < mass i
    · have hweight0 : weight i j = 0 :=
        le_antisymm (not_lt.mp (fun hw => hnone.2 i ⟨hi, hmass0, hw⟩)) (hweight i j hi hj)
      rw [hweight0, mul_zero]
    · have hmass0 : mass i = 0 := le_antisymm (not_lt.mp hmass0) (hmass i hi)
      rw [hmass0, mul_zero, zero_div, zero_mul]
  · rintro (hseed | ⟨i, hi, hmi, hwi⟩)
    · exact add_pos_of_pos_of_nonneg (mul_pos (sub_pos.mpr h1) hseed)
        (sum_nonneg hterm)
    · have hflow : 0 < outflow places weight i :=
        sum_pos' (fun k hk => hweight i k hi hk) ⟨j, hj, hwi⟩
      refine add_pos_of_nonneg_of_pos hkept ?_
      refine sum_pos' hterm ⟨i, mem_filter.mpr ⟨hi, hflow.ne'⟩, ?_⟩
      exact mul_pos (div_pos (mul_pos h0 hmi) hflow) hwi

theorem restartedRun_pos_iff (h0 : 0 < damping) (h1 : damping < 1)
    (hrestart : Subdistribution places restart) (rounds : Nat) {j : place}
    (hj : j ∈ places) :
    0 < restartedRun places damping weight restart rounds j ↔
      exists n, n ≤ rounds ∧ ReachedBy places weight restart n j := by
  induction rounds generalizing j with
  | zero =>
      constructor
      · exact fun h => ⟨0, le_rfl, h⟩
      · rintro ⟨n, hn, h⟩
        rw [Nat.le_zero.mp hn] at h
        exact h
  | succ rounds ih =>
      have hrun := hrestart.restartedRun hweight h0.le h1.le rounds
      rw [restartedRun, restartedWalk_pos_iff hweight h0 h1 hrestart.nonneg hrun.nonneg hj]
      constructor
      · rintro (hseed | ⟨i, hi, hmi, hwi⟩)
        · exact ⟨0, Nat.zero_le _, hseed⟩
        · obtain ⟨n, hn, hreached⟩ := (ih hi).mp hmi
          exact ⟨n + 1, Nat.succ_le_succ hn, i, hi, hreached, hwi⟩
      · rintro ⟨n, hn, hreached⟩
        cases n with
        | zero => exact Or.inl hreached
        | succ n =>
            obtain ⟨i, hi, hreached, hwi⟩ := hreached
            exact Or.inr ⟨i, hi, (ih hi).mpr ⟨n, Nat.le_of_succ_le_succ hn, hreached⟩, hwi⟩

end

end Numeric
end PostCortex
