import PostCortex.Search.ShortestPath
import PostCortex.Storage.GraphRows

/-!
# Paths along stored relationships

`find_shortest_path` of `rocksdb_storage/graph.rs`: the relationships of a session,
read in both directions, are searched breadth first.
-/

namespace PostCortex
namespace Storage
namespace GraphRows

open PostCortex.Core
open PostCortex.Search
open KeyValue

/-!
# Adjacency
-/

section

variable {item : Type}

def joinEnds (entry : String -> StoredRelationship -> item)
    (adjacency : Database String (List item)) (rel : StoredRelationship) :
    Database String (List item) :=
  (adjacency.alter rel.fromEntity (push (entry rel.toEntity rel))).alter rel.toEntity
    (push (entry rel.fromEntity rel))

def adjacency (entry : String -> StoredRelationship -> item)
    (relationships : List StoredRelationship) : Database String (List item) :=
  relationships.foldl (joinEnds entry) ∅

def Joined (relationships : List StoredRelationship) (x y : String) : Prop :=
  exists r, r ∈ relationships ∧
    (r.fromEntity = x ∧ r.toEntity = y ∨ r.toEntity = x ∧ r.fromEntity = y)

theorem mem_push {x y : item} {entry : Option (List item)} :
    y ∈ (push x entry).getD [] ↔ y ∈ entry.getD [] ∨ y = x := by
  cases entry with
  | none | some xs => simp [push]

theorem mem_alter_push {db : Database String (List item)} {k x : String} {i j : item} :
    j ∈ ((db.alter k (push i))[x]?).getD [] ↔
      j ∈ (db[x]?).getD [] ∨ k = x ∧ j = i := by
  rw [Database.get_alter]
  by_cases hk : k = x
  · simp [hk, mem_push]
  · simp [hk]

theorem mem_adjacency {entry : String -> StoredRelationship -> item}
    {relationships : List StoredRelationship} {x : String} {i : item} :
    i ∈ ((adjacency entry relationships)[x]?).getD [] ↔
      exists r, r ∈ relationships ∧
        (r.fromEntity = x ∧ i = entry r.toEntity r ∨
          r.toEntity = x ∧ i = entry r.fromEntity r) := by
  have hfold : forall (rels : List StoredRelationship)
      (db : Database String (List item)),
      i ∈ ((rels.foldl (joinEnds entry) db)[x]?).getD [] ↔
        i ∈ (db[x]?).getD [] ∨ exists r, r ∈ rels ∧
          (r.fromEntity = x ∧ i = entry r.toEntity r ∨
            r.toEntity = x ∧ i = entry r.fromEntity r) := by
    intro rels
    induction rels with
    | nil =>
        intro db
        simp
    | cons r rest ih =>
        intro db
        rw [List.foldl_cons, ih, joinEnds, mem_alter_push, mem_alter_push, or_assoc,
          or_assoc]
        simp only [List.mem_cons, exists_eq_or_imp, or_assoc]
  unfold adjacency
  rw [hfold]
  simp

end

section

variable [UuidText]

def neighbourNames (db : GraphDb) (sessionId : Uuid) (name : String) : List String :=
  ((adjacency (fun neighbour _ => neighbour)
    (loadSessionRelationships db sessionId))[name]?).getD []

def joinedNamesFrom (db : GraphDb) (sessionId : Uuid) (name : String) : List String :=
  name :: (loadSessionRelationships db sessionId).flatMap
    (fun r => [r.fromEntity, r.toEntity])

def findShortestPath (db : GraphDb) (sessionId : Uuid) (fromEntity toEntity : String) :
    Option (Option (List String)) :=
  if fromEntity = toEntity then some (some [fromEntity])
  else
    searchPath (neighbourNames db sessionId) toEntity
      (joinedNamesFrom db sessionId fromEntity).length (Frontier.start fromEntity)

def storedGraph (db : GraphDb) (sessionId : Uuid) : SimpleGraph String :=
  SimpleGraph.fromRel (fun x y =>
    exists r, r ∈ loadSessionRelationships db sessionId ∧
      r.fromEntity = x ∧ r.toEntity = y)

variable {db : GraphDb} {s : Uuid} {x : String}

theorem mem_neighbourNames {y : String} :
    y ∈ neighbourNames db s x ↔ Joined (loadSessionRelationships db s) x y := by
  unfold neighbourNames Joined
  rw [mem_adjacency]
  simp only [eq_comm (a := y)]

theorem storedGraph_adj {y : String} :
    (storedGraph db s).Adj x y ↔ x ≠ y ∧ y ∈ neighbourNames db s x := by
  rw [storedGraph, SimpleGraph.fromRel_adj, mem_neighbourNames]
  refine and_congr_right ?_
  intro _
  rw [← exists_or]
  refine exists_congr ?_
  intro r
  rw [← and_or_left, and_comm (a := r.fromEntity = y)]

theorem path_joinedNames {a : String} {n : Nat}
    (h : Path (neighbourNames db s) a n x) :
    x ∈ joinedNamesFrom db s a := by
  cases h with
  | nil => exact List.mem_cons_self
  | snoc _ hx =>
      obtain ⟨r, hr, hends⟩ := mem_neighbourNames.mp hx
      refine List.mem_cons_of_mem _ (List.mem_flatMap.mpr ⟨r, hr, ?_⟩)
      rcases hends with ⟨_, rfl⟩ | ⟨_, rfl⟩
      · simp
      · simp

/-- The answer is a shortest path in the graph of the stored relationships, or none
when they join the two entities by no path. -/
theorem findShortestPath_geodesic (db : GraphDb) (sessionId : Uuid)
    (fromEntity toEntity : String) :
    exists answer, findShortestPath db sessionId fromEntity toEntity = some answer ∧
      Geodesic (storedGraph db sessionId) fromEntity toEntity answer := by
  unfold findShortestPath
  by_cases hsame : fromEntity = toEntity
  · rw [if_pos hsame, ← hsame]
    exact ⟨some [fromEntity], rfl, geodesic_start _ _⟩
  · rw [if_neg hsame]
    obtain ⟨answer, hsearch, hanswers⟩ := searchPath_answers
      (fun n x (hpath : Path (neighbourNames db sessionId) fromEntity n x) =>
        path_joinedNames hpath) hsame
    refine ⟨answer, hsearch, hanswers.geodesic ?_ ?_⟩
    · exact fun x y hxy => (storedGraph_adj.mp hxy).2
    · intro x y hy
      by_cases hxy : x = y
      · exact Or.inl hxy
      · exact Or.inr (storedGraph_adj.mpr ⟨hxy, hy⟩)

end

attribute [local instance] hyphenatedText

example :
    findShortestPath
        (run [Operation.createRelationship 1 ⟨"api", "auth", RelationType.dependsOn, ""⟩,
          Operation.createRelationship 1 ⟨"db", "auth", RelationType.requiredBy, ""⟩,
          Operation.createRelationship 1 ⟨"db", "api", RelationType.leadsTo, ""⟩,
          Operation.createRelationship 1 ⟨"logs", "auth", RelationType.relatedTo, ""⟩])
        1 "api" "logs" =
      some (some ["api", "auth", "logs"]) := by
  decide +kernel

end GraphRows
end Storage
end PostCortex
