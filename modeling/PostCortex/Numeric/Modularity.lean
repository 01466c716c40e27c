import Mathlib.Algebra.BigOperators.Field
import Mathlib.Algebra.BigOperators.Ring.Finset
import Mathlib.Algebra.Order.BigOperators.Group.Finset
import Mathlib.Algebra.Order.Field.Basic
import Mathlib.Tactic.Ring

/-!
# Modularity

How much more weight the groups of a partition hold than their degrees let expect.
Weights are symmetric, with both directions of an edge and so twice the weight of a
loop on the diagonal.  Moving one node changes the modularity by the difference of
its pulls, and joining groups into nodes does not change it.
-/

namespace PostCortex
namespace Numeric

open Finset

variable {node group K : Type} [DecidableEq node] [DecidableEq group] [Field K]

def degree (nodes : Finset node) (weight : node -> node -> K) (i : node) : K :=
  ∑ j ∈ nodes, weight i j

def totalDegree (nodes : Finset node) (weight : node -> node -> K) : K :=
  ∑ i ∈ nodes, degree nodes weight i

def excess (nodes : Finset node) (weight : node -> node -> K) (i j : node) : K :=
  weight i j -
    degree nodes weight i * degree nodes weight j / totalDegree nodes weight

def within (nodes : Finset node) (between : node -> node -> K)
    (partition : node -> group) : K :=
  ∑ i ∈ nodes, ∑ j ∈ nodes, if partition i = partition j then between i j else 0

def modularity (nodes : Finset node) (weight : node -> node -> K)
    (partition : node -> group) : K :=
  within nodes (excess nodes weight) partition / totalDegree nodes weight

def pull (nodes : Finset node) (weight : node -> node -> K) (partition : node -> group)
    (i : node) (g : group) : K :=
  ∑ j ∈ nodes.erase i, if partition j = g then excess nodes weight i j else 0

/-!
# Moving a node
-/

omit [DecidableEq node] in
theorem excess_symm {nodes : Finset node} {weight : node -> node -> K}
    (hsymm : forall i j, weight i j = weight j i) (i j : node) :
    excess nodes weight i j = excess nodes weight j i := by
  unfold excess
  rw [hsymm i j, mul_comm]

theorem within_split {nodes : Finset node} {between : node -> node -> K}
    (hsymm : forall i j, between i j = between j i) (partition : node -> group)
    {i : node} (hi : i ∈ nodes) :
    within nodes between partition =
      within (nodes.erase i) between partition + between i i +
        2 * ∑ j ∈ nodes.erase i,
          if partition j = partition i then between i j else 0 := by
  have hrow : forall k, k ∈ nodes.erase i ->
      ∑ j ∈ nodes, (if partition k = partition j then between k j else 0) =
        (if partition k = partition i then between i k else 0) +
          ∑ j ∈ nodes.erase i, if partition k = partition j then between k j else 0 := by
    intro k _
    rw [← add_sum_erase nodes _ hi, hsymm k i]
  have hcolumn : ∑ j ∈ nodes.erase i,
      (if partition i = partition j then between i j else 0) =
        ∑ j ∈ nodes.erase i, if partition j = partition i then between i j else 0 :=
    sum_congr rfl (fun j _ => if_congr eq_comm rfl rfl)
  unfold within
  rw [← add_sum_erase nodes _ hi, sum_congr rfl hrow, sum_add_distrib,
    ← add_sum_erase nodes _ hi, hcolumn, if_pos rfl]
  ring

theorem modularity_update {nodes : Finset node} {weight : node -> node -> K}
    (hsymm : forall i j, weight i j = weight j i) (partition : node -> group)
    {i : node} (hi : i ∈ nodes) (g : group) :
    modularity nodes weight (Function.update partition i g) =
      modularity nodes weight partition +
        2 / totalDegree nodes weight *
          (pull nodes weight partition i g -
            pull nodes weight partition i (partition i)) := by
  have hkept : forall j, j ∈ nodes.erase i ->
      Function.update partition i g j = partition j :=
    fun j hj => Function.update_of_ne (ne_of_mem_erase hj) _ _
  have hrest : within (nodes.erase i) (excess nodes weight)
      (Function.update partition i g) =
        within (nodes.erase i) (excess nodes weight) partition := by
    refine sum_congr rfl ?_
    intro j hj
    refine sum_congr rfl ?_
    intro k hk
    rw [hkept j hj, hkept k hk]
  have hpull : ∑ j ∈ nodes.erase i,
      (if Function.update partition i g j = Function.update partition i g i then
        excess nodes weight i j else 0) = pull nodes weight partition i g := by
    refine sum_congr rfl ?_
    intro j hj
    rw [hkept j hj, Function.update_self]
  unfold modularity
  rw [within_split (excess_symm hsymm) (Function.update partition i g) hi,
    within_split (excess_symm hsymm) partition hi, hrest, hpull]
  unfold pull
  ring

/-!
# Joining groups
-/

def joined (nodes : Finset node) (weight : node -> node -> K)
    (partition : node -> group) (a b : group) : K :=
  ∑ i ∈ nodes with partition i = a, ∑ j ∈ nodes with partition j = b, weight i j

variable {nodes : Finset node} {weight : node -> node -> K} {groups : Finset group}
  {partition : node -> group}

omit [DecidableEq node] in
theorem degree_joined (hmaps : forall i, i ∈ nodes -> partition i ∈ groups) (a : group) :
    degree groups (joined nodes weight partition) a =
      ∑ i ∈ nodes with partition i = a, degree nodes weight i := by
  unfold degree joined
  rw [sum_comm]
  exact sum_congr rfl (fun i _ => sum_fiberwise_of_maps_to hmaps (weight i))

omit [DecidableEq node] in
theorem totalDegree_joined (hmaps : forall i, i ∈ nodes -> partition i ∈ groups) :
    totalDegree groups (joined nodes weight partition) = totalDegree nodes weight := by
  unfold totalDegree
  rw [sum_congr rfl (fun a _ => degree_joined hmaps a)]
  exact sum_fiberwise_of_maps_to hmaps _

omit [DecidableEq node] in
theorem excess_joined (hmaps : forall i, i ∈ nodes -> partition i ∈ groups)
    (a b : group) :
    excess groups (joined nodes weight partition) a b =
      ∑ i ∈ nodes with partition i = a, ∑ j ∈ nodes with partition j = b,
        excess nodes weight i j := by
  unfold excess
  rw [degree_joined hmaps, degree_joined hmaps, totalDegree_joined hmaps, sum_mul_sum,
    sum_div]
  simp only [sum_div, sum_sub_distrib]
  rfl

omit [DecidableEq node] in
theorem modularity_joined {other : Type} [DecidableEq other]
    (hmaps : forall i, i ∈ nodes -> partition i ∈ groups) (next : group -> other) :
    modularity groups (joined nodes weight partition) next =
      modularity nodes weight (fun i => next (partition i)) := by
  have hinner : forall a, a ∈ groups ->
      ∑ b ∈ groups, (if next a = next b then
        excess groups (joined nodes weight partition) a b else 0) =
      ∑ i ∈ nodes with partition i = a, ∑ j ∈ nodes,
        if next (partition i) = next (partition j) then excess nodes weight i j
          else 0 := by
    intro a _
    calc ∑ b ∈ groups, (if next a = next b then
            excess groups (joined nodes weight partition) a b else 0)
        = ∑ b ∈ groups, ∑ i ∈ nodes with partition i = a,
            ∑ j ∈ nodes with partition j = b,
              if next (partition i) = next (partition j) then excess nodes weight i j
                else 0 := by
          refine sum_congr rfl ?_
          intro b _
          have hsame : forall i j, i ∈ nodes.filter (fun i => partition i = a) ->
              j ∈ nodes.filter (fun j => partition j = b) ->
              (next (partition i) = next (partition j) ↔ next a = next b) := by
            intro i j hi hj
            rw [(mem_filter.mp hi).2, (mem_filter.mp hj).2]
          rw [excess_joined hmaps]
          split
          · next heq =>
            refine sum_congr rfl (fun i hi => sum_congr rfl (fun j hj => ?_))
            exact (if_pos ((hsame i j hi hj).mpr heq)).symm
          · next hne =>
            symm
            refine sum_eq_zero (fun i hi => sum_eq_zero (fun j hj => ?_))
            exact if_neg (fun heq => hne ((hsame i j hi hj).mp heq))
      _ = ∑ i ∈ nodes with partition i = a, ∑ j ∈ nodes,
            if next (partition i) = next (partition j) then excess nodes weight i j
              else 0 := by
          rw [sum_comm]
          exact sum_congr rfl (fun i _ => sum_fiberwise_of_maps_to hmaps _)
  unfold modularity within
  rw [totalDegree_joined hmaps, sum_congr rfl hinner]
  congr 1
  exact sum_fiberwise_of_maps_to hmaps _

omit [DecidableEq node] in
theorem modularity_congr {other : Type} [DecidableEq other] {first : node -> group}
    {second : node -> other}
    (h : forall i j, i ∈ nodes -> j ∈ nodes ->
      (first i = first j ↔ second i = second j)) :
    modularity nodes weight first = modularity nodes weight second := by
  unfold modularity within
  congr 1
  exact sum_congr rfl (fun i hi => sum_congr rfl (fun j hj =>
    if_congr (h i j hi hj) rfl rfl))

omit [DecidableEq group] in
/-- Symmetric weights over the pairs in order, a loop once, are the weights of both
directions, a loop twice. -/
theorem sum_ordered {place : Type} [LinearOrder place] {places : Finset place}
    {between : place -> place -> K} (hsymm : forall i j, between i j = between j i)
    (factor : place -> place -> K) :
    ∑ i ∈ places, ∑ j ∈ places,
        (if i ≤ j then factor i j + factor j i else 0) * between i j =
      ∑ i ∈ places, ∑ j ∈ places,
        factor i j * ((if j = i then 2 else 1) * between i j) := by
  have hparts : ∑ i ∈ places, ∑ j ∈ places,
      (if i ≤ j then factor i j + factor j i else 0) * between i j =
        ∑ i ∈ places, ∑ j ∈ places, (if i ≤ j then factor i j else 0) * between i j +
          ∑ i ∈ places, ∑ j ∈ places,
            (if i ≤ j then factor j i else 0) * between i j := by
    rw [← sum_add_distrib]
    refine sum_congr rfl (fun i _ => ?_)
    rw [← sum_add_distrib]
    refine sum_congr rfl (fun j _ => ?_)
    rw [← add_mul]
    by_cases hij : i ≤ j
    · rw [if_pos hij, if_pos hij, if_pos hij]
    · rw [if_neg hij, if_neg hij, if_neg hij, add_zero]
  have hswap : ∑ i ∈ places, ∑ j ∈ places,
      (if i ≤ j then factor j i else 0) * between i j =
        ∑ i ∈ places, ∑ j ∈ places,
          (if j ≤ i then factor i j else 0) * between i j := by
    rw [sum_comm]
    refine sum_congr rfl (fun i _ => sum_congr rfl (fun j _ => ?_))
    rw [hsymm j i]
  rw [hparts, hswap, ← sum_add_distrib]
  refine sum_congr rfl (fun i _ => ?_)
  rw [← sum_add_distrib]
  refine sum_congr rfl (fun j _ => ?_)
  rcases lt_trichotomy i j with hlt | heq | hgt
  · rw [if_pos hlt.le, if_neg hlt.not_ge, if_neg hlt.ne']
    ring
  · rw [if_pos heq.le, if_pos heq.ge, if_pos heq.symm]
    ring
  · rw [if_neg hgt.not_ge, if_pos hgt.le, if_neg hgt.ne]
    ring

end Numeric
end PostCortex
