import Mathlib.Data.List.Sort
import Mathlib.Tactic.IntervalCases
import PostCortex.Graph.Neighbours
import PostCortex.Search.DepthFirst

/-!
# Related entities for enrichment

`graph/graph_rag.rs` walks the relations of an entity depth first, with one visited
set for all branches, down to a greatest depth.
-/

namespace PostCortex
namespace Graph

open PostCortex.Core
open PostCortex.Search

/-- The part of the configuration that the lookup reads. -/
structure GraphRagConfig where
  maxDepth : Nat
  maxRelationsPerEntity : Nat
  relationPriority : List RelationType
  deriving DecidableEq, Repr

namespace GraphRagConfig

def default : GraphRagConfig where
  maxDepth := 2
  maxRelationsPerEntity := 10
  relationPriority :=
    [RelationType.causedBy, RelationType.dependsOn, RelationType.implements,
      RelationType.leadsTo, RelationType.solves, RelationType.relatedTo]

end GraphRagConfig

structure RelationInfo where
  targetEntity : String
  relationType : RelationType
  context : String
  depth : Nat
  deriving DecidableEq, Repr

structure Traversal where
  visited : List String
  results : List RelationInfo
  deriving DecidableEq, Repr

namespace EntityGraph

def traverseRelations (g : EntityGraph) :
    Nat -> String -> Nat -> Traversal -> Traversal
  | 0, _, _, s => s
  | left + 1, entity, currentDepth, s =>
      (g.relationshipsOf entity).foldl
        (fun s rel =>
          let target := otherEnd entity rel
          if target ∈ s.visited then s
          else
            traverseRelations g left target (currentDepth + 1)
              { visited := target :: s.visited
                results :=
                  s.results ++
                    [⟨target, rel.relationType, rel.context, currentDepth⟩] })
        s

end EntityGraph

namespace GraphRagConfig

def getRelationPriority (config : GraphRagConfig) (relType : RelationType) : Nat :=
  (config.relationPriority.findIdx? (fun r => decide (r = relType))).getD
    18446744073709551615

/-- The sorted results of `find_related_with_depth`, before the limit. -/
def relatedWithDepth (config : GraphRagConfig) (g : EntityGraph)
    (startEntity : String) (maxDepth : Nat) : List RelationInfo :=
  (g.traverseRelations maxDepth startEntity 1 ⟨[startEntity], []⟩).results.insertionSort
    (fun a b =>
      config.getRelationPriority a.relationType <
          config.getRelationPriority b.relationType ∨
        config.getRelationPriority a.relationType =
            config.getRelationPriority b.relationType ∧
          a.depth ≤ b.depth)

def findRelatedWithDepth (config : GraphRagConfig) (g : EntityGraph)
    (startEntity : String) (maxDepth : Nat) : List RelationInfo :=
  (config.relatedWithDepth g startEntity maxDepth).take config.maxRelationsPerEntity

end GraphRagConfig

/-!
# The search behind the traversal
-/

def RelationInfo.entry (r : RelationInfo) : String × Nat :=
  (r.targetEntity, r.depth)

def Traversal.trail (s : Traversal) (start : String) : List (String × Nat) :=
  (start, 0) :: s.results.map RelationInfo.entry

/-- The visited set has the start and the targets of the results. -/
def Traversal.Consistent (s : Traversal) (start : String) : Prop :=
  forall x, x ∈ s.visited ↔ x ∈ nodes (s.trail start)

namespace EntityGraph

theorem traverseRelations_trail (g : EntityGraph) (start : String) (left : Nat)
    (entity : String) (depth : Nat) (s : Traversal) (hs : s.Consistent start) :
    (g.traverseRelations left entity (depth + 1) s).Consistent start ∧
      (g.traverseRelations left entity (depth + 1) s).trail start =
        descend g.neighbours left entity depth (s.trail start) := by
  induction left generalizing entity depth s with
  | zero =>
      exact ⟨hs, rfl⟩
  | succ left ih =>
      rw [traverseRelations, descend, neighbours, List.foldl_map]
      generalize g.relationshipsOf entity = rels
      induction rels generalizing s with
      | nil =>
          exact ⟨hs, rfl⟩
      | cons rel rest ihrest =>
          rw [List.foldl_cons, List.foldl_cons]
          by_cases hseen : otherEnd entity rel ∈ s.visited
          · rw [if_pos hseen, if_pos ((hs _).mp hseen)]
            exact ihrest s hs
          · rw [if_neg hseen, if_neg (fun h => hseen ((hs _).mpr h))]
            obtain ⟨hconsistent, htrail⟩ :=
              ih (otherEnd entity rel) (depth + 1)
                { visited := otherEnd entity rel :: s.visited
                  results :=
                    s.results ++ [⟨otherEnd entity rel, rel.relationType,
                      rel.context, depth + 1⟩] }
                (by
                  intro x
                  have hx := hs x
                  simp only [Traversal.trail, nodes, List.map_append, List.map_cons,
                    List.map_nil, List.mem_cons, List.mem_append, RelationInfo.entry,
                    List.not_mem_nil, or_false] at hx ⊢
                  rw [hx]
                  tauto)
            have happend : (Traversal.mk (otherEnd entity rel :: s.visited)
                (s.results ++ [⟨otherEnd entity rel, rel.relationType,
                  rel.context, depth + 1⟩])).trail start =
                s.trail start ++ [(otherEnd entity rel, depth + 1)] := by
              simp [Traversal.trail, RelationInfo.entry]
            rw [happend] at htrail
            rw [← htrail]
            exact ihrest _ hconsistent

end EntityGraph

/-!
# The related entities found
-/

theorem ExactlyWithin.perm {next : String -> List String} {deepest : Nat} {a : String}
    {xs ys : List (String × Nat)} (hperm : xs.Perm ys) :
    ExactlyWithin next deepest a xs ↔ ExactlyWithin next deepest a ys := by
  unfold ExactlyWithin
  rw [show (nodes xs).Nodup ↔ (nodes ys).Nodup from (hperm.map Prod.fst).nodup_iff]
  simp only [hperm.mem_iff]

/-- The lookup lists the other entities within the depth, each once and with its
distance, exactly when the entities nearer than the depth form a tree. -/
theorem GraphRagConfig.related_exact_iff (config : GraphRagConfig) {g : EntityGraph}
    (h : EntityGraph.Indexed g) (startEntity : String) (maxDepth : Nat) :
    ExactlyWithin g.neighbours maxDepth startEntity
        ((config.relatedWithDepth g startEntity maxDepth).map RelationInfo.entry) ↔
      Treelike g.neighbours maxDepth startEntity := by
  obtain ⟨found, hfound, hsearched⟩ :=
    descend_searched g.neighbours maxDepth startEntity
  have hstart : (Traversal.mk [startEntity] []).Consistent startEntity := by
    intro x
    simp [Traversal.trail, nodes]
  have htrail :=
    (g.traverseRelations_trail startEntity maxDepth startEntity 0 _ hstart).2
  have hresults : (g.traverseRelations maxDepth startEntity 1
      ⟨[startEntity], []⟩).results.map RelationInfo.entry = found := by
    have heq := htrail.trans hfound
    injection heq
  have hsorted : ((config.relatedWithDepth g startEntity maxDepth).map
      RelationInfo.entry).Perm found := by
    rw [← hresults]
    exact (List.perm_insertionSort _ _).map _
  rw [ExactlyWithin.perm hsorted]
  exact hsearched.exact_iff (fun _ _ => h.neighbours_symm)

/-!
# A lookup on concrete graphs
-/

attribute [local instance] EntityGraph.asciiTables

namespace EntityGraph

theorem related_exact_linked :
    ExactlyWithin linkedGraph.neighbours 2 "redis"
      ((GraphRagConfig.default.relatedWithDepth linkedGraph "redis" 2).map
        RelationInfo.entry) := by
  refine (GraphRagConfig.default.related_exact_iff linkedGraph_reached.indexed
    "redis" 2).mpr ?_
  have hredis : linkedGraph.neighbours "redis" = ["kafka"] := by decide +kernel
  have hkafka : linkedGraph.neighbours "kafka" = ["cache", "redis"] := by
    decide +kernel
  have hone : forall x, Path linkedGraph.neighbours "redis" 1 x -> x = "kafka" := by
    intro x hx
    obtain ⟨y, hy, hx⟩ := hx.last
    rw [hy.eq_start, hredis] at hx
    exact List.mem_singleton.mp hx
  have hback : forall u, Nearby linkedGraph.neighbours "redis" 1 "kafka" u ->
      u = "redis" := by
    rintro u ⟨hne, hu, m, hm, hdist⟩
    interval_cases m
    · exact hdist.1.eq_start
    · exact absurd (hone u hdist.1) hne
  intro v n hpos hn hv u w hu hw
  have hn : n = 1 := by omega
  subst hn
  rw [hone v hv.1] at hu hw
  rw [hback u hu, hback w hw]

/-- Two ways from `api` to `db`. -/
def serviceGraph : EntityGraph :=
  addRelationship 0
    (addRelationship 0
      (addRelationship 0
        (addRelationship 0 new ⟨"db", "disk", RelationType.dependsOn, "volume"⟩)
        ⟨"auth", "db", RelationType.dependsOn, "accounts"⟩)
      ⟨"api", "db", RelationType.dependsOn, "orders"⟩)
    ⟨"api", "auth", RelationType.dependsOn, "login"⟩

theorem serviceGraph_reached : Reached serviceGraph :=
  (((Reached.new.step 0 (RelationOp.addRelationship
    ⟨"db", "disk", RelationType.dependsOn, "volume"⟩)).step 0
      (RelationOp.addRelationship
        ⟨"auth", "db", RelationType.dependsOn, "accounts"⟩)).step 0
          (RelationOp.addRelationship
            ⟨"api", "db", RelationType.dependsOn, "orders"⟩)).step 0
              (RelationOp.addRelationship
                ⟨"api", "auth", RelationType.dependsOn, "login"⟩)

/-- The walk enters `db` through `auth` at the depth limit: `db` has depth two, not
one, and `disk` two relations away is missed. -/
theorem related_depth_first_misses :
    exists g, Reached g ∧
      (GraphRagConfig.default.relatedWithDepth g "api" 2).map RelationInfo.entry =
        [("auth", 1), ("db", 2)] ∧
      Distance g.neighbours "api" 1 "db" ∧ Distance g.neighbours "api" 2 "disk" ∧
      ¬ ExactlyWithin g.neighbours 2 "api"
        ((GraphRagConfig.default.relatedWithDepth g "api" 2).map
          RelationInfo.entry) := by
  have hfound : (GraphRagConfig.default.relatedWithDepth serviceGraph "api" 2).map
      RelationInfo.entry = [("auth", 1), ("db", 2)] := by
    decide +kernel
  have hapi : serviceGraph.neighbours "api" = ["auth", "db"] := by decide +kernel
  have hdb : "disk" ∈ serviceGraph.neighbours "db" := by decide +kernel
  have hpath : Path serviceGraph.neighbours "api" 1 "db" :=
    Path.snoc Path.nil (by rw [hapi]; decide)
  have hnear : Distance serviceGraph.neighbours "api" 1 "db" := by
    refine ⟨hpath, ?_⟩
    intro m hm
    cases m with
    | zero => exact absurd hm.eq_start (by decide)
    | succ m => omega
  have hfar : Distance serviceGraph.neighbours "api" 2 "disk" := by
    refine ⟨Path.snoc hpath hdb, ?_⟩
    intro m hm
    by_contra hlt
    have hm2 : m < 2 := Nat.not_le.mp hlt
    interval_cases m
    · exact absurd hm.eq_start (by decide)
    · obtain ⟨y, hy, hmem⟩ := hm.last
      rw [hy.eq_start, hapi] at hmem
      exact absurd hmem (by decide)
  refine ⟨serviceGraph, serviceGraph_reached, hfound, hnear, hfar, ?_⟩
  intro hexact
  have hmem := (hexact.2 "disk" 2).mpr ⟨by decide, Nat.le_refl 2, hfar⟩
  rw [hfound] at hmem
  exact absurd hmem (by decide)

end EntityGraph
end Graph
end PostCortex
