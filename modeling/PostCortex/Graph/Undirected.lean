import Mathlib.Algebra.BigOperators.Ring.Finset
import Mathlib.Algebra.Order.BigOperators.Group.List
import Mathlib.Algebra.Order.Field.Rat
import Mathlib.Tactic.Ring
import PostCortex.Graph.RoundTrip
import PostCortex.KeyValue.Accumulation

/-!
# Weighted adjacency

The undirected view of an entity graph that `graph/analytics.rs` works on: nodes are
the entities in the order of their names, and the weight between two of them is the
sum of the weights of their relations.  Floats are exact rationals, and a vector over
the nodes is a function of the node.
-/

namespace PostCortex
namespace Graph

open PostCortex.Core
open PostCortex.KeyValue

attribute [local instance] lexOrd

def relationWeight : RelationType -> Rat
  | RelationType.dependsOn => 1
  | RelationType.implements => 1
  | RelationType.solves => 1
  | RelationType.causedBy => 1
  | RelationType.requiredBy => 4 / 5
  | RelationType.leadsTo => 4 / 5
  | RelationType.conflictsWith => 3 / 5
  | RelationType.relatedTo => 2 / 5

theorem relationWeight_pos (t : RelationType) : 0 < relationWeight t := by
  cases t <;> decide +kernel

abbrev Adjacency : Type :=
  Nat -> List (Nat × Rat)

abbrev Pairs : Type :=
  Database (Nat × Nat) Rat

namespace Adjacency

def push (adjacency : Adjacency) (i : Nat) (entry : Nat × Rat) : Adjacency :=
  Function.update adjacency i (adjacency i ++ [entry])

def link (adjacency : Adjacency) (pair : (Nat × Nat) × Rat) : Adjacency :=
  (adjacency.push pair.1.1 (pair.1.2, pair.2)).push pair.1.2 (pair.1.1, pair.2)

def around (adjacency : Adjacency) (i : Nat) (factor : Nat -> Rat) : Rat :=
  ((adjacency i).map (fun e => factor e.1 * e.2)).sum

def between (adjacency : Adjacency) (i j : Nat) : Rat :=
  adjacency.around i (fun k => if k = j then 1 else 0)

end Adjacency

def addPair (pairs : Pairs) (a b : Nat) (w : Rat) : Pairs :=
  pairs.accumulate (min a b, max a b) w

structure Undirected where
  names : List String
  adjacency : Adjacency

namespace Undirected

def addRelation (names : List String) (pairs : Pairs) (rel : EntityRelationship) :
    Pairs :=
  match names.idxOf? rel.fromEntity, names.idxOf? rel.toEntity with
  | some a, some b =>
      if a ≠ b then addPair pairs a b (relationWeight rel.relationType) else pairs
  | _, _ => pairs

def pairsOf (g : EntityGraph) : Pairs :=
  g.relations.foldl (addRelation g.entities.keys) ∅

def new (g : EntityGraph) : Undirected where
  names := g.entities.keys
  adjacency := (pairsOf g).toList.foldl Adjacency.link (fun _ => [])

def size (u : Undirected) : Nat :=
  u.names.length

def strength (u : Undirected) (node : Nat) : Rat :=
  ((u.adjacency node).map Prod.snd).sum

end Undirected

/-!
# Entries
-/

namespace Adjacency

theorem around_push (adjacency : Adjacency) (i k : Nat) (entry : Nat × Rat)
    (factor : Nat -> Rat) :
    (adjacency.push i entry).around k factor =
      adjacency.around k factor + if k = i then factor entry.1 * entry.2 else 0 := by
  unfold around push
  by_cases hk : k = i
  · subst hk
    rw [Function.update_self, if_pos rfl, List.map_append, List.sum_append]
    simp
  · rw [Function.update_of_ne hk, if_neg hk, add_zero]

variable {adjacency : Adjacency} {i : Nat} {e : Nat × Rat}

theorem mem_push {k : Nat} {entry : Nat × Rat} :
    e ∈ adjacency.push i entry k ↔ e ∈ adjacency k ∨ k = i ∧ e = entry := by
  unfold push
  by_cases hk : k = i
  · subst hk
    simp
  · rw [Function.update_of_ne hk]
    simp [hk]

def incident (k : Nat) (factor : Nat -> Rat) (pair : Nat × Nat) : Rat :=
  (if k = pair.1 then factor pair.2 else 0) + if k = pair.2 then factor pair.1 else 0

theorem around_link (adjacency : Adjacency) (pair : (Nat × Nat) × Rat) (k : Nat)
    (factor : Nat -> Rat) :
    (adjacency.link pair).around k factor =
      adjacency.around k factor + incident k factor pair.1 * pair.2 := by
  unfold link incident
  rw [around_push, around_push, add_mul, ite_mul, ite_mul, zero_mul, add_assoc]

theorem around_foldl {step : Adjacency -> (Nat × Nat) × Rat -> Adjacency}
    {share : Nat × Nat -> Rat} {k : Nat} {factor : Nat -> Rat}
    (hstep : forall adjacency pair, (step adjacency pair).around k factor =
      adjacency.around k factor + share pair.1 * pair.2)
    (pairs : List ((Nat × Nat) × Rat)) (adjacency : Adjacency) :
    (pairs.foldl step adjacency).around k factor =
      adjacency.around k factor + (pairs.map (fun e => share e.1 * e.2)).sum := by
  induction pairs generalizing adjacency with
  | nil =>
      simp
  | cons pair rest ih =>
      rw [List.foldl_cons, ih, hstep, List.map_cons, List.sum_cons, add_assoc]

theorem mem_foldl_link {pairs : List ((Nat × Nat) × Rat)} {k : Nat} :
    e ∈ pairs.foldl link adjacency k ↔
      e ∈ adjacency k ∨ exists pair, pair ∈ pairs ∧ e.2 = pair.2 ∧
        (k = pair.1.1 ∧ e.1 = pair.1.2 ∨ k = pair.1.2 ∧ e.1 = pair.1.1) := by
  induction pairs generalizing adjacency with
  | nil =>
      simp
  | cons pair rest ih =>
      rw [List.foldl_cons, ih, link, mem_push, mem_push, Prod.ext_iff, Prod.ext_iff]
      simp only [List.mem_cons, exists_eq_or_imp]
      grind

theorem around_eq_sum {n : Nat} (hrange : forall e, e ∈ adjacency i -> e.1 < n)
    (factor : Nat -> Rat) :
    adjacency.around i factor =
      ∑ j ∈ Finset.range n, factor j * adjacency.between i j := by
  unfold between around
  generalize adjacency i = entries at hrange
  induction entries with
  | nil =>
      simp
  | cons e rest ih =>
      have hrest := ih (fun e he => hrange e (List.mem_cons_of_mem _ he))
      have he := Finset.mem_range.mpr (hrange e List.mem_cons_self)
      simp only [List.map_cons, List.sum_cons, mul_add, Finset.sum_add_distrib]
      rw [hrest]
      congr 1
      rw [Finset.sum_eq_single_of_mem e.1 he]
      · simp
      · intro j _ hj
        simp [hj.symm]

theorem between_nonneg (hpos : forall e, e ∈ adjacency i -> 0 < e.2) (j : Nat) :
    0 ≤ adjacency.between i j := by
  refine List.sum_nonneg ?_
  intro w hw
  obtain ⟨e, he, rfl⟩ := List.mem_map.mp hw
  refine mul_nonneg ?_ (hpos e he).le
  dsimp only
  split <;> decide

end Adjacency

/-!
# The adjacency of an entity graph
-/

namespace Undirected

/-- The keys of the pairs are two nodes in order, with a positive weight. -/
structure Sound (n : Nat) (pairs : Pairs) : Prop where
  entry : forall (k : Nat × Nat) (w : Rat), pairs[k]? = some w ->
    k.1 < k.2 ∧ k.2 < n ∧ 0 < w

theorem sound_pairsOf (g : EntityGraph) :
    Sound g.entities.keys.length (pairsOf g) := by
  have hrun : forall (rels : List EntityRelationship) (pairs : Pairs),
      Sound g.entities.keys.length pairs ->
      Sound g.entities.keys.length
        (rels.foldl (addRelation g.entities.keys) pairs) := by
    intro rels
    induction rels with
    | nil =>
        exact fun _ h => h
    | cons rel rest ih =>
        intro pairs h
        refine ih _ ?_
        unfold addRelation
        split
        · next a b ha hb =>
          split
          · next hab =>
            have hlt : forall {n : String} {i : Nat},
                g.entities.keys.idxOf? n = some i -> i < g.entities.keys.length := by
              intro n i hi
              exact (List.findIdx?_eq_some_iff_getElem.mp hi).1
            have ha := hlt ha
            have hb := hlt hb
            have hpos := relationWeight_pos rel.relationType
            constructor
            intro k w hk
            refine Database.accumulate_forall h.entry ?_ ?_ hk
            · exact ⟨by omega, by omega, hpos⟩
            · intro v hv
              exact ⟨hv.1, hv.2.1, add_pos hv.2.2 hpos⟩
          · exact h
        · exact h
  refine hrun g.relations ∅ ⟨?_⟩
  intro k w hk
  simp at hk

theorem mem_adjacency {g : EntityGraph} {i : Nat} {e : Nat × Rat}
    (he : e ∈ (new g).adjacency i) :
    e.1 < (new g).size ∧ e.1 ≠ i ∧ 0 < e.2 := by
  rcases Adjacency.mem_foldl_link.mp he with hnil | ⟨pair, hpair, hw, hends⟩
  · cases hnil
  · have hentry := (sound_pairsOf g).entry pair.1 pair.2
      (Std.ExtTreeMap.mem_toList_iff_getElem?_eq_some.mp hpair)
    have hlength : (new g).size = g.entities.keys.length := rfl
    rw [hw]
    refine ⟨?_, ?_, hentry.2.2⟩
    · omega
    · omega

theorem between_nonneg (g : EntityGraph) (i j : Nat) :
    0 ≤ (new g).adjacency.between i j :=
  Adjacency.between_nonneg (fun _ he => (mem_adjacency he).2.2) j

theorem strength_eq_sum (g : EntityGraph) (i : Nat) :
    (new g).strength i =
      ∑ j ∈ Finset.range (new g).size, (new g).adjacency.between i j := by
  have hsum := Adjacency.around_eq_sum
    (fun e he => (mem_adjacency (g := g) (i := i) he).1) (fun _ => 1)
  simp only [one_mul] at hsum
  rw [← hsum, strength, Adjacency.around]
  simp only [one_mul]

end Undirected
end Graph
end PostCortex
