import PostCortex.Search.PathAnswers
import PostCortex.Storage.StoredNetworks

/-!
# Paths in memory and in the store

`find_shortest_path` of `entity_graph.rs` beside the one of the store to which the graph
was written.  In memory a path follows the relations from source to target, in the store
in both directions.  Petgraph's `astar` with unit costs and no heuristic is a parameter.
-/

namespace PostCortex
namespace Graph

open PostCortex.Core
open PostCortex.Search

def DiGraph.successors (G : DiGraph) (i : Nat) : List Nat :=
  (G.edges.filter (fun e => e.source = i)).map Edge.target

abbrev Astar := DiGraph -> Nat -> Nat -> Option (Nat × List Nat)

/-- The path is a shortest one along the edges, and found if there is any. -/
def FindsShortest (astar : Astar) : Prop :=
  forall G a goal, Answers G.successors a goal ((astar G a goal).map Prod.snd)

namespace EntityGraph

section

variable [CharTables]

def findNode (g : EntityGraph) (listed : List String) (name : String) : Option Nat :=
  match g.entityToNode name with
  | some node => some node
  | none =>
      (listed.find? (fun k => CharTables.lowercase k = CharTables.lowercase name)).bind
        g.entityToNode

def findShortestPath (astar : Astar) (g : EntityGraph) (listed : List String)
    (fromEntity toEntity : String) : Option (List String) :=
  (g.findNode listed fromEntity).bind (fun a =>
    (g.findNode listed toEntity).bind (fun b =>
      (astar g.graph a b).map (fun result => result.2.filterMap g.nodeToEntity)))

end

def followers (g : EntityGraph) (name : String) : List String :=
  (g.relations.filter (fun r => r.fromEntity = name)).map EntityRelationship.toEntity

variable {g : EntityGraph}

theorem mem_followers {x y : String} :
    y ∈ g.followers x ↔
      exists r, r ∈ g.relations ∧ r.fromEntity = x ∧ r.toEntity = y := by
  unfold followers
  rw [List.mem_map]
  constructor
  · rintro ⟨r, hr, hy⟩
    obtain ⟨hmem, hx⟩ := List.mem_filter.mp hr
    exact ⟨r, hmem, of_decide_eq_true hx, hy⟩
  · rintro ⟨r, hmem, hx, hy⟩
    exact ⟨r, List.mem_filter.mpr ⟨hmem, decide_eq_true hx⟩, hy⟩

theorem Coherent.renaming (h : Coherent g) :
    Renaming g.graph.successors g.followers g.nodeToEntity where
  inj := by
    intro x y n hx hy
    have hx' := (h.inverse n x).mpr hx
    rw [(h.inverse n y).mpr hy] at hx'
    exact (Option.some.inj hx').symm
  edge := by
    intro x n hx y hy
    obtain ⟨e, he, rfl⟩ := List.mem_map.mp hy
    obtain ⟨hmem, hsource⟩ := List.mem_filter.mp he
    have hsource := of_decide_eq_true hsource
    obtain ⟨_, m, hm⟩ := h.joined e hmem
    have hfrom := h.weight n e.source (hsource ▸ (h.inverse n x).mpr hx)
    have hto := h.weight m e.target ((h.inverse m e.target).mpr hm)
    refine ⟨m, hm, mem_followers.mpr ⟨⟨n, m, e.weight.relationType, e.weight.context⟩, ?_,
      rfl, rfl⟩⟩
    refine mem_relations.mpr ⟨e, hmem, ?_⟩
    rw [relationRef, hfrom, hto]
    rfl
  back := by
    intro x n hx m hm
    obtain ⟨r, hr, hfrom, hto⟩ := mem_followers.mp hm
    obtain ⟨e, he, href⟩ := mem_relations.mp hr
    obtain ⟨⟨n', hn'⟩, m', hm'⟩ := h.joined e he
    have hsource := h.weight n' e.source ((h.inverse n' e.source).mpr hn')
    have htarget := h.weight m' e.target ((h.inverse m' e.target).mpr hm')
    rw [relationRef, hsource, htarget] at href
    cases href
    have hx' : e.source = x := by
      have hnode := (h.inverse n' e.source).mpr hn'
      have hnode' := (h.inverse n x).mpr hx
      rw [← hfrom, hnode] at hnode'
      exact Option.some.inj hnode'
    refine ⟨e.target, hto ▸ hm', List.mem_map_of_mem
      (List.mem_filter.mpr ⟨he, decide_eq_true hx'⟩)⟩

theorem findShortestPath_answers [CharTables] {astar : Astar}
    (hastar : FindsShortest astar) (h : Coherent g) (listed : List String)
    {x y : String} (hx : x ∈ g.entities) (hy : y ∈ g.entities) :
    Answers g.followers x y (findShortestPath astar g listed x y) := by
  have hnode : forall {n : String}, n ∈ g.entities ->
      exists i, g.findNode listed n = some i ∧ g.nodeToEntity i = some n := by
    intro n hn
    obtain ⟨i, hi⟩ := (h.domain n).mpr (mem_entities.mp hn)
    refine ⟨i, ?_, (h.inverse n i).mp hi⟩
    rw [findNode, hi]
  obtain ⟨a, ha, hax⟩ := hnode hx
  obtain ⟨b, hb, hby⟩ := hnode hy
  have hanswers := h.renaming.answers hax hby (hastar g.graph a b)
  rw [Option.map_map] at hanswers
  rw [findShortestPath, ha, hb]
  exact hanswers

section

attribute [local instance] asciiTables

def oneWay : EntityGraph :=
  addRelationship 0 new ⟨"api", "auth", RelationType.dependsOn, "login"⟩

theorem oneWay_reached : Reached oneWay :=
  Reached.new.step 0 (RelationOp.addRelationship
    ⟨"api", "auth", RelationType.dependsOn, "login"⟩)

end

end EntityGraph
end Graph

namespace Storage
namespace GraphRows

open PostCortex.Core
open PostCortex.Graph
open PostCortex.Search

section

variable [UuidText]

theorem stored_answers (db : GraphDb) (s : Uuid) (x y : String) :
    exists answer, findShortestPath db s x y = some answer ∧
      Answers (neighbourNames db s) x y answer := by
  unfold findShortestPath
  by_cases hsame : x = y
  · rw [if_pos hsame, ← hsame]
    exact ⟨some [x], rfl, answers_start _ x⟩
  · rw [if_neg hsame]
    exact searchPath_answers (fun _ _ hpath => path_joinedNames hpath) hsame

theorem neighbourNames_iff {db : GraphDb} {s : Uuid} {x y : String} :
    y ∈ neighbourNames db s x ↔ y ∈ networkNeighbours db s x := by
  rw [mem_neighbourNames, networkNeighbours, List.mem_map]
  constructor
  · rintro ⟨r, hr, ⟨hx, hy⟩ | ⟨hx, hy⟩⟩
    · exact ⟨(r.toEntity, r), mem_adjacency.mpr ⟨r, hr, Or.inl ⟨hx, rfl⟩⟩, hy⟩
    · exact ⟨(r.fromEntity, r), mem_adjacency.mpr ⟨r, hr, Or.inr ⟨hx, rfl⟩⟩, hy⟩
  · rintro ⟨p, hp, rfl⟩
    obtain ⟨r, hr, ⟨hx, rfl⟩ | ⟨hx, rfl⟩⟩ := mem_adjacency.mp hp
    · exact ⟨r, hr, Or.inl ⟨hx, rfl⟩⟩
    · exact ⟨r, hr, Or.inr ⟨hx, rfl⟩⟩

/-- Both searches answer as they should; the store finds a path whenever the graph does,
and no longer one; and the two are of one length exactly when relations followed forward
are as short as relations taken in both directions. -/
structure Compared (g : EntityGraph) (x y : String)
    (answer stored : Option (List String)) : Prop where
  forward : Answers g.followers x y answer
  both : Answers g.neighbours x y stored
  shorter : forall p, answer = some p -> exists q, stored = some q ∧ q.length ≤ p.length
  same : answer.map List.length = stored.map List.length ↔
    forall n, Distance g.neighbours x n y -> Path g.followers x n y

variable [LawfulUuidText] [CharTables]

theorem paths_compared {astar : Astar} (hastar : FindsShortest astar) {db : GraphDb}
    {s : Uuid} {g : EntityGraph} (hrows : NoRows db s) (h : EntityGraph.Coherent g)
    (hdistinguished : Distinguished g.relations) (listed : List String) {x y : String}
    (hx : x ∈ g.entities) (hy : y ∈ g.entities) :
    exists stored, findShortestPath (writeGraph db s g) s x y = some stored ∧
      Compared g x y (EntityGraph.findShortestPath astar g listed x y) stored := by
  have hlatest := (latest_writeGraph hrows h).mpr hdistinguished
  obtain ⟨stored, hstored, hanswers⟩ := stored_answers (writeGraph db s g) s x y
  have hboth : Answers g.neighbours x y stored := hanswers.congr
    (fun x y => neighbourNames_iff.trans (mem_networkNeighbours h hlatest))
  have hforward := EntityGraph.findShortestPath_answers hastar h listed hx hy
  have hedges : forall x y, y ∈ g.followers x -> y ∈ g.neighbours x := by
    intro x y hy
    obtain ⟨r, hr, hends⟩ := EntityGraph.mem_followers.mp hy
    exact (mem_neighbours h).mpr ⟨r, hr, Or.inl hends⟩
  refine ⟨stored, hstored, hforward, hboth, ?_, hforward.same_length_iff hedges hboth⟩
  exact fun p hp => hforward.shorter hedges hboth hp

end

/-!
# A relation in one direction
-/

def breadthFirst : Astar := fun G a goal =>
  if a = goal then some (0, [a])
  else
    ((searchPath G.successors goal (a :: G.edges.map Edge.target).length
      (Frontier.start a)).getD none).map (fun p => (p.length - 1, p))

theorem findsShortest_breadthFirst : FindsShortest breadthFirst := by
  intro G a goal
  unfold breadthFirst
  by_cases hsame : a = goal
  · rw [if_pos hsame, ← hsame]
    exact answers_start _ a
  · rw [if_neg hsame]
    have hnodes : forall n x, Path G.successors a n x ->
        x ∈ a :: G.edges.map Edge.target := by
      intro n x hpath
      cases hpath with
      | nil => exact List.mem_cons_self
      | snoc _ hx =>
          obtain ⟨e, he, rfl⟩ := List.mem_map.mp hx
          exact List.mem_cons_of_mem _ (List.mem_map_of_mem (List.mem_filter.mp he).1)
    obtain ⟨answer, hsearch, hanswers⟩ := searchPath_answers hnodes hsame
    rw [hsearch, Option.getD_some, Option.map_map]
    have hid : (Prod.snd ∘ fun p : List Nat => (p.length - 1, p)) = id := rfl
    rw [hid, Option.map_id]
    exact hanswers

attribute [local instance] hyphenatedText lawful_hyphenatedText EntityGraph.asciiTables

theorem ring_paths_compared :
    exists stored, findShortestPath (writeGraph ∅ 1 EntityGraph.ringGraph) 1 "api" "db" =
        some stored ∧
      Compared EntityGraph.ringGraph "api" "db"
        (EntityGraph.findShortestPath breadthFirst EntityGraph.ringGraph [] "api" "db")
        stored :=
  paths_compared findsShortest_breadthFirst (noRows_empty 1)
    EntityGraph.ringGraph_reached.indexed.coherent (by decide +kernel) [] (by decide +kernel)
    (by decide +kernel)

/-- A relation is followed backwards in the store only. -/
theorem backward_path_stored_only :
    FindsShortest breadthFirst ∧ EntityGraph.Coherent EntityGraph.ringGraph ∧
    (EntityGraph.findShortestPath breadthFirst EntityGraph.ringGraph [] "api" "db" =
        some ["api", "auth", "db"] ∧
      findShortestPath (writeGraph ∅ 1 EntityGraph.ringGraph) 1 "api" "db" =
        some (some ["api", "db"])) ∧
    EntityGraph.Coherent EntityGraph.oneWay ∧
    (EntityGraph.findShortestPath breadthFirst EntityGraph.oneWay [] "auth" "api" = none ∧
      findShortestPath (writeGraph ∅ 1 EntityGraph.oneWay) 1 "auth" "api" =
        some (some ["auth", "api"])) := by
  refine ⟨findsShortest_breadthFirst,
    EntityGraph.ringGraph_reached.indexed.coherent, ⟨by decide +kernel, by decide +kernel⟩,
    EntityGraph.oneWay_reached.indexed.coherent, by decide +kernel, by decide +kernel⟩

end GraphRows
end Storage
end PostCortex
