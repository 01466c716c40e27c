import PostCortex.Graph.EntityGraph
import PostCortex.Search.Selection

/-!
# The most important entities

`top_k_by` and `analyze_entity_importance_top` of `graph/entity_graph.rs`.
`select_nth_unstable_by` is a parameter that partitions what it is given, and so are the
scores of `centrality`: machine numbers compared by `total_cmp`.
-/

namespace PostCortex
namespace Graph

open PostCortex.Core
open PostCortex.Search
open Std

/-- `f32`: `compare` is `total_cmp`, `ge` is `>=`, and `ofRat` gives the value a number
stands for. -/
class Floating (f32 : Type) extends Ord f32 where
  ge : f32 -> f32 -> Bool
  ofRat : Rat -> f32

def topKBy {item : Type} (select : SelectNth) (items : List item) (limit : Nat)
    (cmp : item -> item -> Ordering) : List item :=
  if limit = 0 then []
  else
    let items :=
      if limit < items.length then (select.run items (limit - 1) cmp).take limit
      else items
    sortBy cmp items

structure EntityAnalysis (f32 : Type) where
  entityName : String
  importanceScore : f32
  mentionCount : Nat
  relationshipCount : Nat
  updateReferences : Nat
  firstSeen : Timestamp
  lastSeen : Timestamp

structure Scored (f32 : Type) where
  score : f32
  name : String
  entity : EntityData
  relationshipCount : Nat
  updateReferences : Nat

namespace Scored

def analysis {f32 : Type} (s : Scored f32) : EntityAnalysis f32 where
  entityName := s.name
  importanceScore := s.score
  mentionCount := s.entity.mentionCount
  relationshipCount := s.relationshipCount
  updateReferences := s.updateReferences
  firstSeen := s.entity.firstMentioned
  lastSeen := s.entity.lastMentioned

def byImportance {f32 : Type} [Ord f32] (a b : Scored f32) : Ordering :=
  (compare b.score a.score).then (compare a.name b.name)

end Scored

namespace EntityGraph

variable {f32 : Type} [Floating f32]

def relationshipCount (g : EntityGraph) (name : String) : Nat :=
  match g.entityToNode name with
  | some n =>
      g.graph.edges.countP (fun e => decide (e.source = n)) +
        g.graph.edges.countP (fun e => decide (e.target = n))
  | none => 0

def scored (centrality : EntityGraph -> Std.ExtTreeMap String f32) (g : EntityGraph) :
    List (Scored f32) :=
  let centrality := centrality g
  g.entities.toList.map (fun e =>
    { score := centrality[e.1]?.getD (Floating.ofRat 0)
      name := e.1
      entity := e.2
      relationshipCount := g.relationshipCount e.1
      updateReferences :=
        match g.entityMentions[e.1]? with
        | some mentions => mentions.length
        | none => 0 })

def analyzeEntityImportanceTop (select : SelectNth)
    (centrality : EntityGraph -> Std.ExtTreeMap String f32) (g : EntityGraph)
    (limit : Nat) : List (EntityAnalysis f32) :=
  (topKBy select (g.scored centrality) limit Scored.byImportance).map Scored.analysis

end EntityGraph

/-!
# The first items of the sorted list
-/

theorem topKBy_eq {item : Type} {select : SelectNth} (hselect : select.Partitions)
    {items : List item} {cmp : item -> item -> Ordering} [TransCmp cmp]
    (hexact : Separates cmp items) (limit : Nat) :
    topKBy select items limit cmp = (sortBy cmp items).take limit := by
  unfold topKBy
  split
  case isTrue hlimit => rw [hlimit, List.take_zero]
  case isFalse hlimit =>
    split
    case isTrue hshort =>
      have hplace : limit - 1 + 1 = limit := by omega
      have hselected := hselect cmp (limit - 1) items (by omega)
      have h := hselected.sortBy_take hexact (by omega)
      rw [hplace] at h
      exact h
    case isFalse hlong =>
      rw [List.take_of_length_le]
      rw [(sortBy_perm cmp items).length_eq]
      omega

variable {f32 : Type} [Floating f32]

instance [TransOrd f32] : TransCmp (@Scored.byImportance f32 _) :=
  inferInstanceAs
    (TransCmp (compareLex (fun a b : Scored f32 => compareOn Scored.score b a)
      (compareOn Scored.name)))

namespace EntityGraph

theorem separates_scored (centrality : EntityGraph -> Std.ExtTreeMap String f32)
    (g : EntityGraph) : Separates Scored.byImportance (g.scored centrality) := by
  intro a ha b hb hab
  obtain ⟨e, he, rfl⟩ := List.mem_map.mp ha
  obtain ⟨d, hd, rfl⟩ := List.mem_map.mp hb
  simp only [Scored.byImportance, Ordering.then_eq_eq] at hab
  have hname : e.1 = d.1 := LawfulEqOrd.eq_of_compare hab.2
  have he := Std.ExtTreeMap.mem_toList_iff_getElem?_eq_some.mp he
  have hd := Std.ExtTreeMap.mem_toList_iff_getElem?_eq_some.mp hd
  rw [hname, hd] at he
  have hdata : e = d := Prod.ext hname (Option.some.inj he).symm
  rw [hdata]

theorem analyzeEntityImportanceTop_eq [TransOrd f32] {select : SelectNth}
    (hselect : select.Partitions)
    (centrality : EntityGraph -> Std.ExtTreeMap String f32) (g : EntityGraph)
    (limit : Nat) :
    g.analyzeEntityImportanceTop select centrality limit =
      ((sortBy Scored.byImportance (g.scored centrality)).take limit).map
        Scored.analysis := by
  rw [analyzeEntityImportanceTop, topKBy_eq hselect (g.separates_scored centrality)]

end EntityGraph

end Graph
end PostCortex
