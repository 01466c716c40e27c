import PostCortex.Graph.AliasResolution

/-!
# Node index coherence

The two node maps of an entity graph are inverse to each other, their names are
the stored entities, and the nodes of the graph are the mapped ones, after any
public operations.
-/

namespace PostCortex
namespace Graph
namespace EntityGraph

open PostCortex.Core
open Naming

structure Coherent (g : EntityGraph) : Prop where
  inverse : forall (n : String) (i : Nat),
    g.entityToNode n = some i ↔ g.nodeToEntity i = some n
  domain : forall n : String,
    (exists i, g.entityToNode n = some i) ↔ exists d, g.entities[n]? = some d
  weight : forall (n : String) (i : Nat),
    g.entityToNode n = some i -> g.graph.nodes[i]? = some n
  covered : forall i, i < g.graph.nodes.length ->
    exists n, g.nodeToEntity i = some n
  joined : forall e, e ∈ g.graph.edges ->
    (exists n, g.nodeToEntity e.source = some n) ∧
      exists n, g.nodeToEntity e.target = some n
  named : forall (n : String) (d : EntityData),
    g.entities[n]? = some d -> d.name = n

/-- The maps read off the nodes of the graph, and an alias index that leads to
entities only. -/
structure Indexed (g : EntityGraph) : Prop where
  nodes : forall i, g.nodeToEntity i = g.graph.nodes[i]?
  places : forall (n : String) (i : Nat),
    g.entityToNode n = some i ↔ g.graph.nodes[i]? = some n
  stored : forall n : String, n ∈ g.graph.nodes ↔ n ∈ g.entities
  edges : forall e, e ∈ g.graph.edges ->
    e.source < g.graph.nodes.length ∧ e.target < g.graph.nodes.length
  named : forall (n : String) (d : EntityData),
    g.entities[n]? = some d -> d.name = n
  known : forall k e, g.aliasIndex k = some e -> e ∈ g.entities

variable {g : EntityGraph}

theorem Indexed.coherent (h : Indexed g) : Coherent g := by
  have hmapped : forall i, i < g.graph.nodes.length ->
      exists n, g.nodeToEntity i = some n := by
    intro i hi
    rw [h.nodes]
    exact ⟨g.graph.nodes[i], List.getElem?_eq_getElem hi⟩
  constructor
  · intro n i
    rw [h.nodes, h.places]
  · intro n
    rw [← mem_entities, ← h.stored, List.mem_iff_getElem?]
    simp only [h.places]
  · intro n i hi
    exact (h.places n i).mp hi
  · exact hmapped
  · intro e he
    exact ⟨hmapped _ (h.edges e he).1, hmapped _ (h.edges e he).2⟩
  · exact h.named

/-!
# The node of an entity
-/

variable {n : String}

theorem Indexed.node (h : Indexed g) (hn : n ∈ g.entities) :
    exists i, g.entityToNode n = some i ∧ i < g.graph.nodes.length := by
  obtain ⟨i, hi⟩ := List.mem_iff_getElem?.mp ((h.stored n).mpr hn)
  exact ⟨i, (h.places n i).mpr hi, (List.getElem?_eq_some_iff.mp hi).1⟩

theorem Indexed.unmapped (h : Indexed g) (hn : n ∉ g.entities) :
    g.entityToNode n = none := by
  cases hcase : g.entityToNode n with
  | none => rfl
  | some i =>
      have hmem := List.mem_of_getElem? ((h.places n i).mp hcase)
      exact absurd ((h.stored n).mp hmem) hn

theorem Indexed.lt (h : Indexed g) {i : Nat} (hi : g.entityToNode n = some i) :
    i < g.graph.nodes.length :=
  (List.getElem?_eq_some_iff.mp ((h.places n i).mp hi)).1

variable {g' : EntityGraph}

/-- Entities keep their names and the alias index leads to entities; the graph
and its maps stay. -/
theorem Indexed.frame (h : Indexed g) (hgraph : g'.graph = g.graph)
    (hnode : g'.entityToNode = g.entityToNode)
    (hentity : g'.nodeToEntity = g.nodeToEntity)
    (hkeys : forall n : String, n ∈ g'.entities ↔ n ∈ g.entities)
    (hnamed : forall (n : String) (d : EntityData),
      g'.entities[n]? = some d -> d.name = n)
    (hknown : forall k e, g'.aliasIndex k = some e -> e ∈ g.entities) :
    Indexed g' where
  nodes := by rw [hgraph, hentity]; exact h.nodes
  places := by rw [hgraph, hnode]; exact h.places
  stored := by
    intro n
    rw [hgraph, hkeys]
    exact h.stored n
  edges := by rw [hgraph]; exact h.edges
  named := hnamed
  known := fun k e hk => (hkeys e).mpr (hknown k e hk)

variable {d : EntityData}

theorem named_of_insert {m : Std.ExtTreeMap String EntityData}
    (h : forall (n : String) (e : EntityData), m[n]? = some e -> e.name = n)
    (n : String) (e : EntityData) (he : (m.insert d.name d)[n]? = some e) :
    e.name = n := by
  rw [Std.ExtTreeMap.getElem?_insert] at he
  by_cases hn : d.name = n
  · have heq : d = e := by simpa [hn] using he
    exact heq ▸ hn
  · exact h n e (by simpa [hn] using he)

theorem Indexed.replace (h : Indexed g) (hstored : d.name ∈ g.entities)
    (hentities : g'.entities = g.entities.insert d.name d)
    (hgraph : g'.graph = g.graph) (hnode : g'.entityToNode = g.entityToNode)
    (hentity : g'.nodeToEntity = g.nodeToEntity)
    (hknown : forall k e, g'.aliasIndex k = some e -> e ∈ g.entities) :
    Indexed g' := by
  refine h.frame hgraph hnode hentity ?_ ?_ hknown
  · intro n
    rw [hentities, Std.ExtTreeMap.mem_insert, Std.compare_eq_iff_eq]
    constructor
    · rintro (rfl | hn)
      · exact hstored
      · exact hn
    · exact Or.inr
  · rw [hentities]
    exact named_of_insert h.named

theorem Indexed.addNode (h : Indexed g) (hfresh : d.name ∉ g.entities)
    (hentities : g'.entities = g.entities.insert d.name d)
    (hgraph : g'.graph = (g.addNode d.name).graph)
    (hnode : g'.entityToNode = (g.addNode d.name).entityToNode)
    (hentity : g'.nodeToEntity = (g.addNode d.name).nodeToEntity)
    (hknown : forall k e, g'.aliasIndex k = some e ->
      e ∈ g.entities ∨ e = d.name) :
    Indexed g' := by
  have hmem : forall n : String, n ∈ g'.entities ↔ d.name = n ∨ n ∈ g.entities := by
    intro n
    rw [hentities, Std.ExtTreeMap.mem_insert, Std.compare_eq_iff_eq]
  have hnodes : g'.graph.nodes = g.graph.nodes ++ [d.name] := by
    rw [hgraph]
    rfl
  have hout : d.name ∉ g.graph.nodes := fun hn => hfresh ((h.stored _).mp hn)
  constructor
  · intro i
    rw [hentity, hnodes]
    show Function.update g.nodeToEntity g.graph.nodes.length (some d.name) i = _
    by_cases hi : i = g.graph.nodes.length
    · subst hi
      simp
    · rw [Function.update_of_ne hi, h.nodes]
      by_cases hlt : i < g.graph.nodes.length
      · rw [List.getElem?_append_left hlt]
      · rw [List.getElem?_eq_none (by omega), List.getElem?_eq_none
          (by simp; omega)]
  · intro n i
    rw [hnode, hnodes]
    show Function.update g.entityToNode d.name (some g.graph.nodes.length) n =
      some i ↔ _
    by_cases hn : n = d.name
    · subst hn
      rw [Function.update_self]
      constructor
      · intro heq
        cases heq
        simp
      · intro hi
        by_cases hlt : i < g.graph.nodes.length
        · rw [List.getElem?_append_left hlt] at hi
          exact absurd (List.mem_of_getElem? hi) hout
        · have hbound := (List.getElem?_eq_some_iff.mp hi).1
          simp only [List.length_append, List.length_singleton] at hbound
          have heq : g.graph.nodes.length = i := by omega
          rw [heq]
    · rw [Function.update_of_ne hn, h.places]
      by_cases hlt : i < g.graph.nodes.length
      · rw [List.getElem?_append_left hlt]
      · constructor
        · intro hi
          exact absurd (List.getElem?_eq_some_iff.mp hi).1 hlt
        · intro hi
          rw [List.getElem?_append_right (by omega)] at hi
          have hone := List.mem_of_getElem? hi
          exact absurd (List.mem_singleton.mp hone) hn
  · intro n
    rw [hnodes, hmem, List.mem_append, List.mem_singleton, h.stored]
    tauto
  · intro e he
    rw [hnodes, List.length_append]
    rw [hgraph] at he
    obtain ⟨hs, ht⟩ := h.edges e he
    exact ⟨by omega, by omega⟩
  · rw [hentities]
    exact named_of_insert h.named
  · intro k e hk
    rw [hmem]
    exact (hknown k e hk).elim Or.inr (fun heq => Or.inl heq.symm)

/-!
# Removing an entity
-/

variable {name : String}

theorem removeNode_mem_iff (h : Indexed g) {node : Nat}
    (hnode : g.entityToNode name = some node) {j : Nat} :
    (g.graph.removeNode node).nodes[j]? = some n ↔
      n ≠ name ∧ j < g.graph.nodes.length - 1 ∧
        (j = node ∧ g.entityToNode n = some (g.graph.nodes.length - 1) ∨
          j ≠ node ∧ g.entityToNode n = some j) := by
  have hlt := h.lt hnode
  rw [removeNode_getElem? hlt, h.places, h.places]
  have hself : forall i, g.graph.nodes[i]? = some name -> i = node := by
    intro i hi
    have hi' := (h.places name i).mpr hi
    rw [hnode] at hi'
    exact (Option.some.inj hi').symm
  by_cases hj : j < g.graph.nodes.length - 1
  · by_cases hjn : j = node
    · subst hjn
      simp only [hj, if_true, ne_eq, true_and, not_true, false_and, or_false]
      constructor
      · intro hn
        refine ⟨?_, hn⟩
        rintro rfl
        have hlast := hself _ hn
        omega
      · exact fun hn => hn.2
    · simp only [hj, hjn, if_true, if_false, ne_eq, not_false_iff, true_and,
        false_and, false_or]
      constructor
      · intro hn
        refine ⟨?_, hn⟩
        rintro rfl
        exact hjn (hself _ hn)
      · exact fun hn => hn.2
  · simp [hj]

theorem nodeIndexWithout_iff (h : Indexed g) {node : Nat}
    (hnode : g.entityToNode name = some node) (n : String) (j : Nat) :
    g.nodeIndexWithout name node n = some j ↔
      (g.graph.removeNode node).nodes[j]? = some n := by
  constructor
  · exact placed_without (fun n i hi => (h.places n i).mp hi) hnode
  · intro hj
    obtain ⟨hne, hbound, hplace⟩ := (removeNode_mem_iff h hnode).mp hj
    unfold nodeIndexWithout
    cases hcase : (g.graph.removeNode node).nodes[node]? with
    | none =>
        rcases hplace with ⟨rfl, -⟩ | ⟨-, hold⟩
        · rw [hj] at hcase
          cases hcase
        · simp only [Function.update_of_ne hne]
          exact hold
    | some swapped =>
        rcases hplace with ⟨rfl, -⟩ | ⟨hjn, hold⟩
        · rw [hj] at hcase
          cases hcase
          simp
        · obtain ⟨-, -, hswapped⟩ := (removeNode_mem_iff h hnode).mp hcase
          have hns : n ≠ swapped := by
            rintro rfl
            rcases hswapped with ⟨-, hlast⟩ | ⟨hnot, -⟩
            · rw [hold] at hlast
              cases hlast
              omega
            · exact hnot rfl
          simp only [Function.update_of_ne hns, Function.update_of_ne hne]
          exact hold

theorem removeEntity_nodeToEntity (h : Indexed g) {node : Nat}
    (hnode : g.entityToNode name = some node) (i : Nat) :
    (g.removeEntity name).1.nodeToEntity i =
      (g.graph.removeNode node).nodes[i]? := by
  have hlt := h.lt hnode
  have hremoved := removeNode_getElem? hlt
  simp only [EntityGraph.removeEntity, hnode, remapNode]
  cases hcase : (g.graph.removeNode node).nodes[node]? with
  | none =>
      have hlast : node = g.graph.nodes.length - 1 := by
        by_contra hnot
        rw [hremoved, if_pos (by omega), if_pos rfl] at hcase
        have hout := List.getElem?_eq_none_iff.mp hcase
        omega
      show Function.update g.nodeToEntity node none i = _
      by_cases hi : i = node
      · subst hi
        rw [Function.update_self, hcase]
      · rw [Function.update_of_ne hi, h.nodes, hremoved, if_neg hi]
        by_cases hbound : i < g.graph.nodes.length - 1
        · rw [if_pos hbound]
        · rw [if_neg hbound, List.getElem?_eq_none (by omega)]
  | some swapped =>
      obtain ⟨hne, hbound, hplace⟩ := (removeNode_mem_iff h hnode).mp hcase
      have hlast : g.entityToNode swapped =
          some (g.graph.nodes.length - 1) := by
        rcases hplace with ⟨-, hlast⟩ | ⟨hnot, -⟩
        · exact hlast
        · exact absurd rfl hnot
      simp only [Function.update_of_ne hne, hlast]
      show Function.update (Function.update
        (Function.update g.nodeToEntity node none)
          (g.graph.nodes.length - 1) none) node (some swapped) i = _
      by_cases hi : i = node
      · subst hi
        rw [Function.update_self, hcase]
      · rw [Function.update_of_ne hi, hremoved, if_neg hi]
        by_cases hil : i = g.graph.nodes.length - 1
        · rw [hil, Function.update_self, if_neg (by omega)]
        · rw [Function.update_of_ne hil, Function.update_of_ne hi, h.nodes]
          by_cases hb : i < g.graph.nodes.length - 1
          · rw [if_pos hb]
          · rw [if_neg hb, List.getElem?_eq_none (by omega)]

theorem removeNode_length {g : DiGraph} {a : Nat} (ha : a < g.nodes.length) :
    (g.removeNode a).nodes.length = g.nodes.length - 1 := by
  have hweight := List.getElem?_eq_getElem
    (show g.nodes.length - 1 < g.nodes.length by omega)
  simp only [DiGraph.removeNode, ha, if_true, hweight]
  simp

theorem removeNode_edges {g : DiGraph} {a : Nat} (ha : a < g.nodes.length)
    (hedges : forall e, e ∈ g.edges ->
      e.source < g.nodes.length ∧ e.target < g.nodes.length)
    (e : Edge) (he : e ∈ (g.removeNode a).edges) :
    e.source < g.nodes.length - 1 ∧ e.target < g.nodes.length - 1 := by
  simp only [DiGraph.removeNode, ha, if_true, List.mem_map, List.mem_filter,
    decide_eq_true_eq] at he
  obtain ⟨old, ⟨hold, hs, ht⟩, rfl⟩ := he
  obtain ⟨hsource, htarget⟩ := hedges old hold
  constructor
  · simp only
    split <;> omega
  · simp only
    split <;> omega

theorem Indexed.removeEntity (h : Indexed g) (name : String) :
    Indexed (g.removeEntity name).1 := by
  cases hnode : g.entityToNode name with
  | none =>
      simp only [EntityGraph.removeEntity, hnode]
      exact h
  | some node =>
      obtain ⟨hentities, hindex, hgraph, hmap⟩ := removeEntity_eq hnode
      have hlt := h.lt hnode
      have hmem : forall n : String, n ∈ (g.removeEntity name).1.entities ↔
          n ∈ g.entities ∧ n ≠ name := by
        intro n
        rw [hentities, Std.ExtTreeMap.mem_erase, ne_eq,
          Std.compare_eq_iff_eq, and_comm, eq_comm]
      constructor
      · intro i
        rw [hgraph]
        exact removeEntity_nodeToEntity h hnode i
      · intro n j
        rw [hmap, hgraph]
        exact nodeIndexWithout_iff h hnode n j
      · intro n
        rw [hmem, hgraph, List.mem_iff_getElem?]
        simp only [removeNode_mem_iff h hnode]
        constructor
        · rintro ⟨j, hne, -, hplace⟩
          refine ⟨(h.stored n).mp ?_, hne⟩
          rcases hplace with ⟨-, hi⟩ | ⟨-, hi⟩
          · exact List.mem_of_getElem? ((h.places n _).mp hi)
          · exact List.mem_of_getElem? ((h.places n _).mp hi)
        · rintro ⟨hn, hne⟩
          obtain ⟨i, hi, hbound⟩ := h.node hn
          have hin : i ≠ node := by
            rintro rfl
            have hother := (h.places n i).mp hi
            rw [(h.places name i).mp hnode] at hother
            exact hne (Option.some.inj hother).symm
          by_cases hlast : i = g.graph.nodes.length - 1
          · exact ⟨node, hne, by omega, Or.inl ⟨rfl, hlast ▸ hi⟩⟩
          · exact ⟨i, hne, by omega, Or.inr ⟨hin, hi⟩⟩
      · intro e he
        rw [hgraph] at he ⊢
        rw [removeNode_length hlt]
        exact removeNode_edges hlt h.edges e he
      · intro n d hd
        rw [hentities, Std.ExtTreeMap.getElem?_erase] at hd
        split at hd
        · cases hd
        · exact h.named n d hd
      · intro k e hk
        rw [hindex] at hk
        obtain ⟨hold, hne⟩ := release_apply.mp hk
        exact (hmem e).mpr ⟨h.known k e hold, hne⟩

/-!
# Loaded graphs
-/

theorem indexed_new : Indexed new := by
  constructor
  · intro i
    rfl
  · intro n i
    simp [new, DiGraph.new]
  · intro n
    simp [new, DiGraph.new]
  · intro e he
    cases he
  · intro n d hd
    simp [new] at hd
  · intro k e hk
    cases hk

theorem Indexed.nodup (h : Indexed g) :
    g.graph.nodes.Nodup := by
  apply List.nodup_iff_getElem?_ne_getElem?.mpr
  intro i j hij hj heq
  have hplace := List.getElem?_eq_getElem hj
  rw [hplace] at heq
  have hi := (h.places _ i).mpr heq
  rw [(h.places _ j).mpr hplace] at hi
  have hsame := Option.some.inj hi
  omega

theorem nodesByName_iff {nodes : List String} (h : nodes.Nodup) (n : String)
    (i : Nat) :
    nodesByName nodes n = some i ↔ nodes[i]? = some n := by
  constructor
  · exact nodesByName_spec.2 i
  · intro hi
    cases hcase : nodesByName nodes n with
    | none =>
        exact absurd (List.mem_of_getElem? hi) (nodesByName_spec.1.mp hcase)
    | some j =>
        have hj := nodesByName_spec.2 j hcase
        have hlt := (List.getElem?_eq_some_iff.mp hj).1
        rw [(List.getElem?_inj hlt h).mp (hj.trans hi.symm)]

theorem deserializeGraph_edges (data : EntityGraphData) (e : Edge)
    (he : e ∈ (deserializeGraph data).edges) :
    e.source < data.nodes.length ∧ e.target < data.nodes.length := by
  have hbound : forall n i, nodesByName data.nodes n = some i ->
      i < data.nodes.length := by
    intro n i hi
    exact (List.getElem?_eq_some_iff.mp (nodesByName_spec.2 i hi)).1
  revert e
  unfold deserializeGraph
  refine List.foldlRecOn
    (motive := fun g : DiGraph => forall e, e ∈ g.edges ->
      e.source < data.nodes.length ∧ e.target < data.nodes.length)
    data.edges _ nofun ?_
  intro g hg x _ e he
  split at he
  · next source target hs ht =>
    rcases List.mem_cons.mp he with rfl | hold
    · exact ⟨hbound _ _ hs, hbound _ _ ht⟩
    · exact hg e hold
  · exact hg e he

theorem indexed_unindexed {data : EntityGraphData} (hnodup : data.nodes.Nodup)
    (hstored : forall n, n ∈ data.nodes ↔ n ∈ data.entities)
    (hnamed : forall (n : String) (d : EntityData),
      data.entities[n]? = some d -> d.name = n) :
    Indexed (EntityGraph.unindexed data) := by
  have hnodes : (EntityGraph.unindexed data).graph.nodes = data.nodes :=
    deserializeGraph_nodes _
  constructor
  · intro i
    rw [hnodes]
    rfl
  · intro n i
    rw [hnodes]
    exact nodesByName_iff hnodup n i
  · intro n
    rw [hnodes]
    exact hstored n
  · intro e he
    rw [hnodes]
    exact deserializeGraph_edges data e he
  · exact hnamed
  · intro k e hk
    cases hk

theorem Indexed.unindexed (h : Indexed g) :
    Indexed (EntityGraph.unindexed g.serialize) := by
  refine indexed_unindexed ?_ ?_ h.named
  · exact (List.perm_insertionSort _ _).nodup_iff.mpr h.nodup
  · intro n
    exact (List.mem_insertionSort _).trans (h.stored n)

/-!
# Entities and relations
-/

theorem Indexed.ensureNode (h : Indexed g) (hn : n ∈ g.entities) :
    g.ensureNode n = g := by
  obtain ⟨i, hi, -⟩ := h.node hn
  simp only [EntityGraph.ensureNode, hi]

theorem Indexed.mentions {g' : EntityGraph} (h : Indexed g)
    (hentities : g'.entities = g.entities) (hgraph : g'.graph = g.graph)
    (hnode : g'.entityToNode = g.entityToNode)
    (hentity : g'.nodeToEntity = g.nodeToEntity)
    (hindex : g'.aliasIndex = g.aliasIndex) :
    Indexed g' := by
  refine h.frame hgraph hnode hentity ?_ ?_ ?_
  · rw [hentities]
    exact fun n => Iff.rfl
  · rw [hentities]
    exact h.named
  · rw [hindex]
    exact h.known

theorem Indexed.mentionEntity (h : Indexed g) (name : String) (updateId : Uuid)
    (timestamp : Timestamp) (score : Rat) :
    Indexed (g.mentionEntity name updateId timestamp score) := by
  unfold EntityGraph.mentionEntity
  cases hcase : g.entities[name]? with
  | none =>
      exact h.mentions rfl rfl rfl rfl rfl
  | some entity =>
      have hname := h.named name entity hcase
      refine h.replace
        (d := { entity with
          lastMentioned := timestamp
          mentionCount := entity.mentionCount + 1
          importanceScore := score })
        (mem_entities.mpr ⟨entity, by rw [hname]; exact hcase⟩) ?_ rfl rfl rfl
          h.known
      simp only [hname]

theorem Indexed.updateEntityTimestamp (h : Indexed g) (name : String)
    (timestamp : Timestamp) :
    Indexed (g.updateEntityTimestamp name timestamp) := by
  unfold EntityGraph.updateEntityTimestamp
  cases hcase : g.entities[name]? with
  | none =>
      exact h
  | some entity =>
      have hname := h.named name entity hcase
      refine h.replace
        (d := { entity with
          lastMentioned := timestamp
          mentionCount := entity.mentionCount + 1 })
        (mem_entities.mpr ⟨entity, by rw [hname]; exact hcase⟩) ?_ rfl rfl rfl
          h.known
      simp only [hname]

theorem putEdge_edges {g : DiGraph} {source target : Nat} {weight : EdgeData}
    (hsource : source < g.nodes.length) (htarget : target < g.nodes.length)
    (hedges : forall e, e ∈ g.edges ->
      e.source < g.nodes.length ∧ e.target < g.nodes.length)
    (e : Edge) (he : e ∈ (g.putEdge source target weight).edges) :
    e.source < g.nodes.length ∧ e.target < g.nodes.length := by
  unfold DiGraph.putEdge at he
  simp only at he
  split at he
  · obtain ⟨i, hi⟩ := List.mem_iff_getElem?.mp he
    rw [List.getElem?_modify] at hi
    obtain ⟨old, hold, rfl⟩ := Option.map_eq_some_iff.mp hi
    have hbound := hedges old (List.mem_of_getElem? hold)
    split
    · exact hbound
    · exact hbound
  · rcases List.mem_cons.mp he with rfl | hold
    · exact ⟨hsource, htarget⟩
    · exact hedges e hold

section

variable [CharTables]

theorem Indexed.resolve (h : Indexed g) {c : String} (hc : g.resolve n = some c) :
    c ∈ g.entities := by
  unfold EntityGraph.resolve at hc
  split at hc
  · next hmem => exact (Option.some.inj hc) ▸ hmem
  · exact h.known _ c hc

theorem Indexed.addOrUpdateEntity (h : Indexed g) (written : String)
    (entityType : EntityType) (timestamp : Timestamp) (description : String) :
    Indexed (g.addOrUpdateEntity written entityType timestamp description) := by
  unfold EntityGraph.addOrUpdateEntity
  generalize (g.resolve written).getD written = name
  cases hcase : g.entities[name]? with
  | some entity =>
      simp only [hcase]
      have hname : (withAlias (mentioned entity timestamp description)
          written).name = name := by
        rw [name_withAlias]
        exact h.named name entity hcase
      have hstored : name ∈ g.entities := mem_entities.mpr ⟨entity, hcase⟩
      have hreplaced : Indexed { g with
          entities := g.entities.insert name
            (withAlias (mentioned entity timestamp description) written) } :=
        h.replace (d := withAlias (mentioned entity timestamp description)
            written) (by rwa [hname]) (by rw [hname]) rfl rfl rfl h.known
      rw [hreplaced.ensureNode]
      · exact hreplaced
      · exact Std.ExtTreeMap.mem_insert.mpr (Or.inl (by simp))
  | none =>
      simp only [hcase]
      have hfresh : name ∉ g.entities := by
        intro hmem
        obtain ⟨d, hd⟩ := mem_entities.mp hmem
        rw [hcase] at hd
        cases hd
      refine h.addNode (d := created name entityType timestamp description)
        hfresh ?_ ?_ ?_ ?_ ?_
      · simp [indexNames, EntityGraph.addNode, created]
      · simp [indexNames, EntityGraph.addNode, created]
      · simp [indexNames, EntityGraph.addNode, created]
      · simp [indexNames, EntityGraph.addNode, created]
      · intro k e hk
        simp only [indexNames, EntityGraph.addNode,
          Std.ExtTreeMap.getElem?_insert_self, claimKeys_apply] at hk
        cases hindex : g.aliasIndex k with
        | some o =>
            rw [hindex] at hk
            cases hk
            exact Or.inl (h.known k e hindex)
        | none =>
            rw [hindex] at hk
            simp only [Option.none_or] at hk
            split at hk
            · exact Or.inr (Option.some.inj hk).symm
            · cases hk

theorem addOrUpdateEntity_node {name : String}
    (hname : name ∈ g.entities ∨ g.resolve name = none) (entityType : EntityType)
    (timestamp : Timestamp) :
    name ∈ (g.addOrUpdateEntity name entityType timestamp "").entities := by
  have hself : (g.resolve name).getD name = name := by
    rcases hname with hmem | hnone
    · simp [EntityGraph.resolve, hmem]
    · rw [hnone]
      rfl
  unfold EntityGraph.addOrUpdateEntity
  rw [hself]
  cases hcase : g.entities[name]? with
  | some entity =>
      simp only [hcase, (ensureNode_eq _ _).1]
      exact Std.ExtTreeMap.mem_insert.mpr (Or.inl (by simp))
  | none =>
      simp [hcase, indexNames, EntityGraph.addNode]

theorem Indexed.getOrCreateNode (h : Indexed g) (written : String)
    (entityType : EntityType) (timestamp : Timestamp) :
    Indexed (g.getOrCreateNode written entityType timestamp).1 ∧
      (g.getOrCreateNode written entityType timestamp).2 <
        (g.getOrCreateNode written entityType timestamp).1.graph.nodes.length := by
  have hname : (g.resolve written).getD written ∈ g.entities ∨
      g.resolve ((g.resolve written).getD written) = none := by
    cases hcase : g.resolve written with
    | none => exact Or.inr hcase
    | some c => exact Or.inl (h.resolve hcase)
  unfold EntityGraph.getOrCreateNode
  generalize (g.resolve written).getD written = name at hname ⊢
  cases hnode : g.entityToNode name with
  | some node =>
      simp only [hnode]
      exact ⟨h, h.lt hnode⟩
  | none =>
      have hadded := h.addOrUpdateEntity name entityType timestamp ""
      obtain ⟨i, hi, hbound⟩ := hadded.node
        (addOrUpdateEntity_node hname entityType timestamp)
      simp only [hnode, hi]
      exact ⟨hadded, hbound⟩

theorem getOrCreateNode_grows (g : EntityGraph) (written : String)
    (entityType : EntityType) (timestamp : Timestamp) :
    g.graph.nodes.length ≤
      (g.getOrCreateNode written entityType timestamp).1.graph.nodes.length := by
  have hensure : forall (g : EntityGraph) (n : String),
      g.graph.nodes.length ≤ (g.ensureNode n).graph.nodes.length := by
    intro g n
    unfold EntityGraph.ensureNode
    split
    · exact Nat.le_refl _
    · simp [EntityGraph.addNode, DiGraph.addNode]
  have hadd : forall name, g.graph.nodes.length ≤
      (g.addOrUpdateEntity name entityType timestamp "").graph.nodes.length := by
    intro name
    unfold EntityGraph.addOrUpdateEntity
    simp only
    split
    · next entity _ =>
      exact hensure { g with entities := g.entities.insert _ (withAlias
        (mentioned entity timestamp "") name) } _
    · simp [indexNames, EntityGraph.addNode, DiGraph.addNode]
  unfold EntityGraph.getOrCreateNode
  simp only
  split
  · exact Nat.le_refl _
  · split
    · exact hadd _
    · refine Nat.le_trans (hadd ((g.resolve written).getD written)) ?_
      simp [EntityGraph.addNode, DiGraph.addNode]

theorem Indexed.addRelationship (h : Indexed g) (now : Timestamp)
    (relationship : EntityRelationship) :
    Indexed (addRelationship now g relationship) := by
  obtain ⟨hsource, hsbound⟩ :=
    h.getOrCreateNode relationship.fromEntity EntityType.concept now
  obtain ⟨htarget, htbound⟩ :=
    hsource.getOrCreateNode relationship.toEntity EntityType.concept now
  have hgrows := getOrCreateNode_grows
    (g.getOrCreateNode relationship.fromEntity EntityType.concept now).1
    relationship.toEntity EntityType.concept now
  unfold EntityGraph.addRelationship
  simp only
  split
  · exact htarget
  · constructor
    · simp only [putEdge_nodes]
      exact htarget.nodes
    · simp only [putEdge_nodes]
      exact htarget.places
    · simp only [putEdge_nodes]
      exact htarget.stored
    · intro e he
      simp only [putEdge_nodes]
      exact putEdge_edges (Nat.lt_of_lt_of_le hsbound hgrows) htbound
        htarget.edges e he
    · exact htarget.named
    · exact htarget.known

theorem Indexed.addRelationships (h : Indexed g) (now : Timestamp)
    (relationships : List EntityRelationship) :
    Indexed (relationships.foldl (EntityGraph.addRelationship now) g) :=
  List.foldlRecOn relationships _ h
    (fun _ hg r _ => Indexed.addRelationship hg now r)

theorem Indexed.noteAlias (h : Indexed g) (name written : String) :
    Indexed (g.noteAlias name written) := by
  unfold EntityGraph.noteAlias
  cases hc : g.resolve name with
  | none =>
      exact h
  | some c =>
      have hstored := h.resolve hc
      obtain ⟨d, hd⟩ := mem_entities.mp hstored
      have hname : (withAlias d written).name = c := by
        rw [name_withAlias]
        exact h.named c d hd
      simp only [hd]
      refine h.replace (d := withAlias d written) (by rwa [hname])
        (by rw [hname]) rfl rfl rfl ?_
      intro k e hk
      simp only [claimKey_apply] at hk
      cases hindex : g.aliasIndex k with
      | some o =>
          rw [hindex] at hk
          cases hk
          exact h.known k e hindex
      | none =>
          rw [hindex] at hk
          simp only [Option.none_or] at hk
          split at hk
          · exact (Option.some.inj hk) ▸ hstored
          · cases hk

/-!
# Merging entities
-/

variable {gone into : String}

theorem Indexed.absorbed (h : Indexed g) (goneData : EntityData) :
    Indexed (g.absorbed gone into goneData) := by
  have hremoved := h.removeEntity gone
  unfold EntityGraph.absorbed
  dsimp only
  cases hcase : (g.removeEntity gone).1.entities[into]? with
  | none =>
      simp only [hcase]
      exact hremoved.mentions rfl rfl rfl rfl rfl
  | some target =>
      have hstored : into ∈ (g.removeEntity gone).1.entities :=
        mem_entities.mpr ⟨target, hcase⟩
      have hname : (absorb target goneData).name = into := by
        rw [name_absorb]
        exact hremoved.named into target hcase
      simp only [Std.ExtTreeMap.getElem?_insert_self]
      refine hremoved.replace (d := absorb target goneData) (by rwa [hname])
        (by rw [hname]) rfl rfl rfl ?_
      intro k e hk
      simp only [assignKeys_apply] at hk
      split at hk
      · exact (Option.some.inj hk) ▸ hstored
      · exact hremoved.known k e hk

theorem mem_absorbed (goneData : EntityData)
    (hn : n ∈ (g.removeEntity gone).1.entities) :
    n ∈ (g.absorbed gone into goneData).entities := by
  unfold EntityGraph.absorbed
  dsimp only
  split
  · exact Std.ExtTreeMap.mem_insert.mpr (Or.inr hn)
  · exact hn

theorem Indexed.mergeResolved (h : Indexed g) (goneData : EntityData)
    (now : Timestamp) :
    Indexed (g.mergeResolved now gone into goneData) := by
  rw [mergeResolved_eq]
  exact (h.absorbed goneData).addRelationships now _

theorem Indexed.mergeEntities (h : Indexed g) (now : Timestamp)
    (written target : String) :
    Indexed (g.mergeEntities now written target).1 := by
  rcases mergeEntities_cases now g written target with
    heq | ⟨gone, into, goneData, _, _, _, _, heq⟩
  · rw [heq]
    exact h
  · rw [heq]
    exact h.mergeResolved goneData now

theorem Indexed.inserted (h : Indexed g) (entity : EntityData) :
    Indexed
      ({ g.ensureNode entity.name with
          entities := (g.ensureNode entity.name).entities.insert entity.name
            entity }.indexNames entity.name) := by
  have hknown : forall k e,
      claimKeys entity.name g.aliasIndex ((names entity).map entityKey) k =
          some e ->
        e ∈ g.entities ∨ e = entity.name := by
    intro k e hk
    rw [claimKeys_apply] at hk
    cases hindex : g.aliasIndex k with
    | some o =>
        rw [hindex] at hk
        cases hk
        exact Or.inl (h.known k e hindex)
    | none =>
        rw [hindex] at hk
        simp only [Option.none_or] at hk
        split at hk
        · exact Or.inr (Option.some.inj hk).symm
        · cases hk
  obtain ⟨hentities, hindex⟩ := ensureNode_eq g entity.name
  by_cases hstored : entity.name ∈ g.entities
  · rw [h.ensureNode hstored]
    refine h.replace hstored (d := entity) ?_ ?_ ?_ ?_ ?_
    · simp [indexNames]
    · simp [indexNames]
    · simp [indexNames]
    · simp [indexNames]
    · intro k e hk
      simp only [indexNames, Std.ExtTreeMap.getElem?_insert_self] at hk
      rcases hknown k e hk with hold | rfl
      · exact hold
      · exact hstored
  · have hensure : g.ensureNode entity.name = g.addNode entity.name := by
      simp only [EntityGraph.ensureNode, h.unmapped hstored]
    rw [hensure]
    refine h.addNode hstored (d := entity) ?_ ?_ ?_ ?_ ?_
    · simp [indexNames, EntityGraph.addNode]
    · simp [indexNames]
    · simp [indexNames]
    · simp [indexNames]
    · intro k e hk
      simp only [indexNames, Std.ExtTreeMap.getElem?_insert_self] at hk
      exact hknown k e hk

theorem Indexed.insertEntity (h : Indexed g) (now : Timestamp) (entity : EntityData) :
    Indexed (g.insertEntity now entity) := by
  have hinserted := h.inserted entity
  unfold EntityGraph.insertEntity
  simp only
  split
  · exact hinserted
  · split <;> split <;> exact hinserted.mergeEntities now _ _

/-!
# Updates and other graphs
-/

theorem Indexed.addEntities (h : Indexed g) (update : ContextUpdate) :
    Indexed (g.addEntities update) := by
  unfold EntityGraph.addEntities
  split
  · exact List.foldlRecOn _ _ h (fun _ hg _ _ => hg.addOrUpdateEntity ..)
  · exact List.foldlRecOn _ _ h (fun _ hg _ _ => hg.addOrUpdateEntity ..)

theorem Indexed.linkMentions (h : Indexed g) (update : ContextUpdate) :
    Indexed (g.linkMentions update) := by
  unfold EntityGraph.linkMentions
  refine List.foldlRecOn
    (motive := fun linked : EntityGraph × List String => Indexed linked.1)
    (mentionedNames update) _ h ?_
  intro linked hlinked name _
  unfold linkMention
  split
  · exact hlinked
  · split
    · exact hlinked
    · exact hlinked.mentions rfl rfl rfl rfl rfl

theorem Indexed.applyUpdate (h : Indexed g) (now : Timestamp)
    (update : ContextUpdate) :
    Indexed (g.applyUpdate now update) :=
  ((h.addEntities update).addRelationships now _).linkMentions update

theorem Indexed.relinkMentions (h : Indexed g) (updates : List ContextUpdate) :
    Indexed (g.relinkMentions updates) := by
  have hempty : Indexed { g with entityMentions := ∅ } :=
    h.mentions rfl rfl rfl rfl rfl
  unfold EntityGraph.relinkMentions
  refine List.foldlRecOn updates _ hempty ?_
  intro g' hg update _
  refine List.foldlRecOn (mentionedNames update) _ hg ?_
  intro g'' hg name _
  unfold relinkMention
  split
  · exact hg
  · exact hg.mentions rfl rfl rfl rfl rfl

theorem Indexed.mergeFrom (h : Indexed g) (now : Timestamp) (other : EntityGraph) :
    Indexed (g.mergeFrom now other) := by
  unfold EntityGraph.mergeFrom
  simp only
  apply Indexed.addRelationships
  refine List.foldlRecOn _ _ ?_ ?_
  · refine List.foldlRecOn _ _ h ?_
    intro g' hg x _
    exact List.foldlRecOn _ _ (hg.addOrUpdateEntity ..)
      (fun _ hg a _ => hg.noteAlias _ a)
  · intro g' hg x _
    exact hg.mentions rfl rfl rfl rfl rfl

/-!
# Reloading
-/

def claimed (g : EntityGraph) :
    (String -> Option String) × List (String × String) :=
  let order :=
    (g.values.map (fun e => (e.firstMentioned, e.name))).insertionSort
      (fun x y => x.1 < y.1 ∨ x.1 = y.1 ∧ x.2 ≤ y.2)
  let keysOf (name : String) :=
    match g.entities[name]? with
    | some entity => (names entity).map entityKey
    | none => []
  rebuild keysOf (order.map Prod.snd)

theorem Indexed.claimed (h : Indexed g) :
    Indexed { g with aliasIndex := g.claimed.1 } := by
  refine h.frame rfl rfl rfl (fun _ => Iff.rfl) h.named ?_
  intro k e hk
  have horder := rebuild_known hk
  simp only [List.mem_map, List.mem_insertionSort] at horder
  obtain ⟨x, ⟨d, hd, rfl⟩, rfl⟩ := horder
  obtain ⟨n, hn⟩ := mem_values.mp hd
  exact mem_entities.mpr ⟨d, by rw [h.named n d hn]; exact hn⟩

theorem Indexed.rebuildAliasIndex (h : Indexed g) (now : Timestamp) :
    Indexed (g.rebuildAliasIndex now) :=
  List.foldlRecOn g.claimed.2 _ h.claimed
    (fun _ hg _ _ => hg.mergeEntities now _ _)

theorem Indexed.reload (h : Indexed g) (now : Timestamp) :
    Indexed (g.reload now) :=
  h.unindexed.rebuildAliasIndex now

/-!
# Runs
-/

/-- The public operations that write a graph, with those that only touch
mentions and counts. -/
inductive GraphWrite where
  | op (o : GraphOp)
  | clear
  | mentionEntity (name : String) (updateId : Uuid) (timestamp : Timestamp)
      (score : Rat)
  | updateEntityTimestamp (name : String) (timestamp : Timestamp)
  | linkMentions (update : ContextUpdate)
  | relinkMentions (updates : List ContextUpdate)

def GraphWrite.apply (now : Timestamp) (g : EntityGraph) :
    GraphWrite -> EntityGraph
  | op o => o.apply now g
  | clear => new
  | mentionEntity name updateId timestamp score =>
      g.mentionEntity name updateId timestamp score
  | updateEntityTimestamp name timestamp => g.updateEntityTimestamp name timestamp
  | linkMentions update => g.linkMentions update
  | relinkMentions updates => g.relinkMentions updates

/-- The graphs any sequence of writes makes of the empty one, at any times. -/
inductive Written : EntityGraph -> Prop where
  | new : Written new
  | write {g : EntityGraph} (now : Timestamp) (w : GraphWrite) :
      Written g -> Written (w.apply now g)

theorem Indexed.apply (h : Indexed g) (now : Timestamp) (o : GraphOp) :
    Indexed (o.apply now g) := by
  cases o with
  | addOrUpdateEntity name entityType timestamp description =>
      exact h.addOrUpdateEntity name entityType timestamp description
  | insertEntity entity => exact h.insertEntity now entity
  | addRelationship relationship => exact h.addRelationship now relationship
  | mergeEntities written target => exact h.mergeEntities now written target
  | removeEntity name => exact h.removeEntity name
  | applyUpdate update => exact h.applyUpdate now update
  | mergeFrom other => exact h.mergeFrom now other
  | reload => exact h.reload now

theorem Indexed.write {g : EntityGraph} (h : Indexed g) (now : Timestamp)
    (w : GraphWrite) :
    Indexed (w.apply now g) := by
  cases w with
  | op o => exact h.apply now o
  | clear => exact indexed_new
  | mentionEntity name updateId timestamp score =>
      exact h.mentionEntity name updateId timestamp score
  | updateEntityTimestamp name timestamp =>
      exact h.updateEntityTimestamp name timestamp
  | linkMentions update => exact h.linkMentions update
  | relinkMentions updates => exact h.relinkMentions updates

theorem indexed (h : Written g) :
    Indexed g := by
  induction h with
  | new =>
      exact indexed_new
  | write now w _ ih =>
      exact ih.write now w

/-- After any sequence of public operations the node maps are inverse to each
other and fit the entities and the graph. -/
theorem index_coherence {g : EntityGraph} (h : Written g) :
    Coherent g :=
  (indexed h).coherent

end

section

attribute [local instance] asciiTables

/-- A removal that moves the last node, after a merge and a reload. -/
theorem index_coherence_moved :
    exists g, Written g ∧ g.graph.nodes = ["redis", "kafka"] ∧ Coherent g := by
  have hbuilt :=
    (((((Written.new.write 0
      (GraphWrite.op (GraphOp.addOrUpdateEntity "etcd" EntityType.concept 0 ""))).write 1
      (GraphWrite.op (GraphOp.addRelationship
        ⟨"redis", "kafka", RelationType.relatedTo, "queue"⟩))).write 2
      (GraphWrite.op (GraphOp.addRelationship
        ⟨"cache", "kafka", RelationType.dependsOn, "queue"⟩))).write 3
      (GraphWrite.op (GraphOp.mergeEntities "cache" "redis"))).write 4
      (GraphWrite.op GraphOp.reload)).write 5
      (GraphWrite.op (GraphOp.removeEntity "etcd"))
  refine ⟨_, hbuilt, ?_, index_coherence hbuilt⟩
  decide +kernel

end

end EntityGraph
end Graph
end PostCortex
