import PostCortex.Graph.EntityGraph

/-!
# Alias resolution

The alias index agrees with the names of the entities, so every name of an
entity resolves to it.
-/

namespace PostCortex
namespace Graph
namespace EntityGraph

open PostCortex.Core
open Naming

/-- `n` is the name or an alias of the entity `e`. -/
def Named (g : EntityGraph) (e n : String) : Prop :=
  exists d : EntityData, g.entities[e]? = some d ∧ n ∈ names d

/-- Entities are stored under their own name and have a node, and the node
index is right. -/
structure Noded (g : EntityGraph) : Prop where
  keyed : forall n (d : EntityData), g.entities[n]? = some d -> d.name = n
  noded : forall n (d : EntityData), g.entities[n]? = some d ->
    g.entityToNode n ≠ none
  placed : forall n i, g.entityToNode n = some i -> g.graph.nodes[i]? = some n

variable {g : EntityGraph} {n : String}

theorem mem_entities :
    n ∈ g.entities ↔ exists d, g.entities[n]? = some d := by
  rw [Std.ExtTreeMap.mem_iff_isSome_getElem?, Option.isSome_iff_exists]

variable {d : EntityData}

theorem Noded.named_self (h : Noded g) {e : String} (hd : g.entities[e]? = some d) :
    g.Named e e := by
  refine ⟨d, hd, ?_⟩
  have hkeyed := h.keyed e d hd
  exact List.mem_cons.mpr (Or.inl hkeyed.symm)

theorem Noded.own (h : Noded g) {e : String} (hn : g.Named e n) :
    g.Named e e := by
  rcases hn with ⟨d, hd, -⟩
  exact h.named_self hd

variable {g' : EntityGraph}

theorem Noded.congr (h : Noded g) (hentities : g'.entities = g.entities)
    (hnode : g'.entityToNode = g.entityToNode)
    (hnodes : g'.graph.nodes = g.graph.nodes) :
    Noded g' := by
  constructor
  · rw [hentities]
    exact h.keyed
  · rw [hentities, hnode]
    exact h.noded
  · rw [hnode, hnodes]
    exact h.placed

theorem Named.congr (hentities : g'.entities = g.entities) (e n : String) :
    g'.Named e n ↔ g.Named e n := by
  unfold Named
  rw [hentities]

variable {name : String}

theorem named_insert (hentities : g'.entities = g.entities.insert name d)
    (e n : String) :
    g'.Named e n ↔ g.Named e n ∧ e ≠ name ∨ e = name ∧ n ∈ names d := by
  unfold Named
  rw [hentities]
  by_cases he : e = name
  · subst he
    simp
  · have hne : ¬ name = e := fun heq => he heq.symm
    simp [Std.ExtTreeMap.getElem?_insert, he, hne]

theorem named_insert_alias {d d' : EntityData} {written : String}
    (hentities : g'.entities = g.entities.insert name d')
    (hd : g.entities[name]? = some d)
    (hnames : forall n, n ∈ names d' ↔ n ∈ names d ∨ n = written) (e n : String) :
    g'.Named e n ↔ g.Named e n ∨ e = name ∧ n ∈ [written] := by
  rw [named_insert hentities, hnames, List.mem_singleton]
  constructor
  · rintro (⟨hold, -⟩ | ⟨rfl, hn | hn⟩)
    · exact Or.inl hold
    · exact Or.inl ⟨d, hd, hn⟩
    · exact Or.inr ⟨rfl, hn⟩
  · rintro (hold | ⟨rfl, hn⟩)
    · by_cases he : e = name
      · subst he
        rcases hold with ⟨d', hd', hn⟩
        rw [hd] at hd'
        cases hd'
        exact Or.inr ⟨rfl, Or.inl hn⟩
      · exact Or.inl ⟨hold, he⟩
    · exact Or.inr ⟨rfl, Or.inr hn⟩

theorem named_erase (hentities : g'.entities = g.entities.erase name) (e n : String) :
    g'.Named e n ↔ g.Named e n ∧ e ≠ name := by
  unfold Named
  rw [hentities]
  by_cases he : e = name
  · subst he
    simp
  · have hne : ¬ name = e := fun heq => he heq.symm
    simp [Std.ExtTreeMap.getElem?_erase, he, hne]

theorem names_withAlias (d : EntityData) (written n : String) :
    n ∈ names (withAlias d written) ↔ n ∈ names d ∨ n = written := by
  unfold withAlias
  split
  · next hmem =>
      constructor
      · exact Or.inl
      · rintro (hn | rfl)
        · exact hn
        · exact hmem
  · simp [names, or_assoc]

theorem name_withAlias (d : EntityData) (written : String) :
    (withAlias d written).name = d.name := by
  unfold withAlias
  split <;> rfl

theorem names_foldl_withAlias (d : EntityData) (more : List String)
    (n : String) :
    n ∈ names (more.foldl withAlias d) ↔ n ∈ names d ∨ n ∈ more := by
  induction more generalizing d with
  | nil =>
      simp
  | cons x rest ih =>
      rw [List.foldl_cons, ih, names_withAlias]
      simp [or_assoc]

theorem name_foldl_withAlias (d : EntityData) (more : List String) :
    (more.foldl withAlias d).name = d.name := by
  induction more generalizing d with
  | nil =>
      rfl
  | cons x rest ih =>
      rw [List.foldl_cons, ih, name_withAlias]

theorem names_absorb (target gone : EntityData) (n : String) :
    n ∈ names (absorb target gone) ↔ n ∈ names target ∨ n ∈ names gone := by
  unfold absorb
  rw [names_foldl_withAlias]
  rfl

theorem name_absorb (target gone : EntityData) :
    (absorb target gone).name = target.name := by
  unfold absorb
  rw [name_foldl_withAlias]

/-!
# Nodes
-/

theorem Noded.insert (h : Noded g)
    (hentities : g'.entities = g.entities.insert d.name d)
    (hnode : g'.entityToNode = g.entityToNode)
    (hnodes : g'.graph.nodes = g.graph.nodes)
    (hnoded : g.entityToNode d.name ≠ none) :
    Noded g' := by
  constructor
  · intro n e he
    rw [hentities, Std.ExtTreeMap.getElem?_insert] at he
    by_cases hn : d.name = n
    · have heq : d = e := by simpa [hn] using he
      exact heq ▸ hn
    · exact h.keyed n e (by simpa [hn] using he)
  · intro n e he
    rw [hentities, Std.ExtTreeMap.getElem?_insert] at he
    rw [hnode]
    by_cases hn : d.name = n
    · exact hn ▸ hnoded
    · exact h.noded n e (by simpa [hn] using he)
  · rw [hnode, hnodes]
    exact h.placed

theorem placed_addNode
    (h : forall n i, g.entityToNode n = some i -> g.graph.nodes[i]? = some n)
    {i : Nat} (hn : (g.addNode name).entityToNode n = some i) :
    (g.addNode name).graph.nodes[i]? = some n := by
  simp only [addNode, DiGraph.addNode] at hn ⊢
  by_cases heq : n = name
  · subst heq
    have hi : g.graph.nodes.length = i := by simpa using hn
    subst hi
    simp
  · rw [Function.update_of_ne heq] at hn
    have hold := h n i hn
    rw [List.getElem?_append_left (List.getElem?_eq_some_iff.mp hold).1]
    exact hold

theorem Noded.addNode (h : Noded g) (name : String) :
    Noded (g.addNode name) := by
  constructor
  · exact h.keyed
  · intro n d hd
    by_cases hn : n = name
    · simp [EntityGraph.addNode, hn]
    · simp only [EntityGraph.addNode, Function.update_of_ne hn]
      exact h.noded n d hd
  · exact fun n i hn => placed_addNode h.placed hn

theorem Noded.ensureNode (h : Noded g) (name : String) :
    Noded (g.ensureNode name) ∧ (g.ensureNode name).entityToNode name ≠ none := by
  unfold EntityGraph.ensureNode
  split
  · next i hi => exact ⟨h, by simp [hi]⟩
  · exact ⟨h.addNode name, by simp [EntityGraph.addNode]⟩

theorem removeNode_getElem? {g : DiGraph} {a : Nat}
    (ha : a < g.nodes.length) (j : Nat) :
    (g.removeNode a).nodes[j]? =
      if j < g.nodes.length - 1 then
        if j = a then g.nodes[g.nodes.length - 1]? else g.nodes[j]?
      else none := by
  have hlast : g.nodes.length - 1 < g.nodes.length := by omega
  have hweight := List.getElem?_eq_getElem hlast
  simp only [DiGraph.removeNode, ha, if_true, hweight]
  rw [List.getElem?_dropLast]
  simp only [List.length_set]
  by_cases hj : j < g.nodes.length - 1
  · simp only [hj, if_true]
    by_cases hja : j = a
    · subst hja
      simp [ha]
    · rw [if_neg hja, List.getElem?_set_ne (fun heq => hja heq.symm)]
  · simp [hj]

theorem ensureNode_eq (g : EntityGraph) (name : String) :
    (g.ensureNode name).entities = g.entities ∧
      (g.ensureNode name).aliasIndex = g.aliasIndex := by
  unfold ensureNode
  split <;> exact ⟨rfl, rfl⟩

theorem putEdge_nodes (g : DiGraph) (source target : Nat) (weight : EdgeData) :
    (g.putEdge source target weight).nodes = g.nodes := by
  unfold DiGraph.putEdge
  simp only
  split <;> rfl

def nodeIndexWithout (g : EntityGraph) (name : String) (node : Nat) :
    String -> Option Nat :=
  match (g.graph.removeNode node).nodes[node]? with
  | none => Function.update g.entityToNode name none
  | some swapped =>
      Function.update (Function.update g.entityToNode name none) swapped
        (some node)

theorem removeEntity_eq {node : Nat} (hnode : g.entityToNode name = some node) :
    (g.removeEntity name).1.entities = g.entities.erase name ∧
      (g.removeEntity name).1.aliasIndex = release g.aliasIndex name ∧
      (g.removeEntity name).1.graph = g.graph.removeNode node ∧
      (g.removeEntity name).1.entityToNode = g.nodeIndexWithout name node := by
  unfold removeEntity nodeIndexWithout remapNode
  simp only [hnode]
  cases (g.graph.removeNode node).nodes[node]? <;> simp

theorem placed_without {node : Nat}
    (h : forall n i, g.entityToNode n = some i -> g.graph.nodes[i]? = some n)
    (hnode : g.entityToNode name = some node) {j : Nat}
    (hj : g.nodeIndexWithout name node n = some j) :
    (g.graph.removeNode node).nodes[j]? = some n := by
  have hplace := h name node hnode
  have hlt := (List.getElem?_eq_some_iff.mp hplace).1
  have hremoved := removeNode_getElem? hlt
  -- A name that keeps its index names neither the removed nor the last node.
  have hkept : n ≠ name ->
      (g.graph.nodes[g.graph.nodes.length - 1]? ≠ some n ∨
        node = g.graph.nodes.length - 1) ->
      g.entityToNode n = some j ->
      (g.graph.removeNode node).nodes[j]? = some n := by
    intro hne hlast hold
    have hweight := h n j hold
    have hjlt := (List.getElem?_eq_some_iff.mp hweight).1
    have hjnode : j ≠ node := by
      rintro rfl
      rw [hplace] at hweight
      exact hne (Option.some.inj hweight).symm
    have hjlast : j ≠ g.graph.nodes.length - 1 := by
      intro heq
      rcases hlast with hother | hnode
      · exact hother (heq ▸ hweight)
      · exact hjnode (heq.trans hnode.symm)
    rw [hremoved, if_pos (by omega), if_neg hjnode]
    exact hweight
  have hname : Function.update g.entityToNode name none n = some j ->
      n ≠ name ∧ g.entityToNode n = some j := by
    intro hupdate
    by_cases hn : n = name
    · simp [hn] at hupdate
    · exact ⟨hn, by simpa [hn] using hupdate⟩
  unfold nodeIndexWithout at hj
  cases hcase : (g.graph.removeNode node).nodes[node]? with
  | none =>
      rw [hcase] at hj
      rcases hname hj with ⟨hne, hold⟩
      refine hkept hne (Or.inr ?_) hold
      by_contra hnot
      rw [hremoved, if_pos (by omega), if_pos rfl] at hcase
      have hout := List.getElem?_eq_none_iff.mp hcase
      omega
  | some swapped =>
      rw [hcase] at hj
      by_cases hs : n = swapped
      · subst hs
        have hjn : node = j := by simpa using hj
        exact hjn ▸ hcase
      · have hj : Function.update g.entityToNode name none n = some j := by
          simpa [hs] using hj
        rcases hname hj with ⟨hne, hold⟩
        refine hkept hne (Or.inl ?_) hold
        have hlast : g.graph.nodes[g.graph.nodes.length - 1]? = some swapped := by
          rw [hremoved] at hcase
          split at hcase
          · simpa using hcase
          · cases hcase
        rw [hlast]
        exact fun heq => hs (Option.some.inj heq).symm

theorem Noded.removeEntity (h : Noded g) (name : String) :
    Noded (g.removeEntity name).1 := by
  cases hnode : g.entityToNode name with
  | none =>
      simp only [EntityGraph.removeEntity, hnode]
      exact h
  | some node =>
      rcases removeEntity_eq hnode with ⟨hentities, -, hgraph, hindex⟩
      have hentity : forall n (d : EntityData),
          (g.removeEntity name).1.entities[n]? = some d ->
          g.entities[n]? = some d ∧ n ≠ name := by
        intro n d hd
        rw [hentities, Std.ExtTreeMap.getElem?_erase] at hd
        by_cases hn : name = n
        · simp [hn] at hd
        · exact ⟨by simpa [hn] using hd, fun heq => hn heq.symm⟩
      constructor
      · intro n d hd
        exact h.keyed n d (hentity n d hd).1
      · intro n d hd
        rcases hentity n d hd with ⟨hold, hne⟩
        rw [hindex]
        unfold nodeIndexWithout
        cases (g.graph.removeNode node).nodes[node]? with
        | none =>
            simp only [Function.update_of_ne hne]
            exact h.noded n d hold
        | some swapped =>
            by_cases hs : n = swapped
            · simp [hs]
            · simp only [Function.update_of_ne hs, Function.update_of_ne hne]
              exact h.noded n d hold
      · intro n j hj
        rw [hindex] at hj
        rw [hgraph]
        exact placed_without h.placed hnode hj

/-!
# Agreement with the alias index
-/

section

variable [CharTables]

/-- The alias index agrees with the names of the entities. -/
structure Resolving (g : EntityGraph) : Prop extends Noded g where
  agrees : Agrees entityKey g.Named g.aliasIndex

theorem resolving_new : Resolving new := by
  refine ⟨⟨?_, ?_, ?_⟩, ⟨?_, ?_, ?_⟩⟩
  · intro n d hd
    simp [new] at hd
  · intro n d hd
    simp [new] at hd
  · intro n i hi
    cases hi
  · rintro e n ⟨d, hd, -⟩
    simp [new] at hd
  · rintro e n ⟨d, hd, -⟩
    simp [new] at hd
  · intro e k hk
    cases hk

variable {g : EntityGraph}

theorem Resolving.frame {g' : EntityGraph} (h : Resolving g)
    (hentities : g'.entities = g.entities) (hindex : g'.aliasIndex = g.aliasIndex)
    (hnode : g'.entityToNode = g.entityToNode)
    (hnodes : g'.graph.nodes = g.graph.nodes) :
    Resolving g' where
  toNoded := h.toNoded.congr hentities hnode hnodes
  agrees := h.agrees.congr (Named.congr hentities)
    (fun k => congrFun hindex k)

theorem Resolving.resolve_eq (h : Resolving g) (n : String) :
    g.resolve n = g.aliasIndex (entityKey n) := by
  unfold resolve
  split
  · next hmem =>
      rcases mem_entities.mp hmem with ⟨d, hd⟩
      exact (h.agrees.indexed n n (h.named_self hd)).symm
  · rfl

variable {n c : String}

theorem Resolving.known (h : Resolving g) (hc : g.resolve n = some c) :
    exists d, g.entities[c]? = some d := by
  rw [h.resolve_eq] at hc
  rcases h.agrees.known c _ hc with ⟨d, hd, -⟩
  exact ⟨d, hd⟩

variable {d : EntityData}

theorem Resolving.resolve (h : Resolving g) {e : String}
    (hd : g.entities[e]? = some d) (hn : n ∈ names d) :
    g.resolve n = some d.name := by
  rw [h.resolve_eq, h.keyed e d hd]
  exact h.agrees.indexed e n ⟨d, hd, hn⟩

theorem Resolving.addNode (h : Resolving g) (name : String) :
    Resolving (g.addNode name) where
  toNoded := h.toNoded.addNode name
  agrees := h.agrees

/-- `add_or_update_entity` claims the key of the written name for the entity
that the name resolves to, or for a new one. -/
theorem Resolving.addOrUpdateEntity (h : Resolving g) (written : String)
    (entityType : EntityType) (timestamp : Timestamp) (description : String) :
    Resolving (g.addOrUpdateEntity written entityType timestamp description) ∧
    (g.addOrUpdateEntity written entityType timestamp description).aliasIndex =
      claimKey ((g.resolve written).getD written) g.aliasIndex
        (entityKey written) := by
  unfold EntityGraph.addOrUpdateEntity
  cases hwritten : g.resolve written with
  | some name =>
      rcases h.known hwritten with ⟨d, hd⟩
      have hindexed : g.aliasIndex (entityKey written) = some name :=
        (h.resolve_eq written).symm.trans hwritten
      have hkeyed := h.keyed name d hd
      have hnode := h.noded name d hd
      simp only [Option.getD_some, hd]
      generalize hmention :
        withAlias (mentioned d timestamp description) written = e
      have hname : e.name = name := by
        rw [← hmention, name_withAlias]
        exact hkeyed
      have hnames : forall n, n ∈ names e ↔ n ∈ names d ∨ n = written := by
        intro n
        rw [← hmention, names_withAlias]
        rfl
      have hensure : { g with entities := g.entities.insert name e }.ensureNode
          name = { g with entities := g.entities.insert name e } := by
        unfold ensureNode
        cases hcase : g.entityToNode name with
        | none => exact absurd hcase hnode
        | some i => rfl
      have hclaim : claimKey name g.aliasIndex (entityKey written) =
          g.aliasIndex := by
        simp [claimKey, hindexed]
      rw [hensure, hclaim]
      refine ⟨⟨?_, ?_⟩, rfl⟩
      · exact h.toNoded.insert (d := e) (by rw [hname]) rfl rfl
          (by rwa [hname])
      · refine h.agrees.extend name [written] (named_insert_alias rfl hd hnames) ?_ ?_ ?_
        · intro k
          simp [claimKeys, claimKey, hindexed]
        · intro n hn
          have hn : n = written := by simpa using hn
          exact Or.inr (hn ▸ hindexed)
        · refine (named_insert (g := g) (d := e) rfl _ _).mpr (Or.inr ⟨rfl, ?_⟩)
          exact (hnames _).mpr (Or.inl (by simp [names, hkeyed]))
  | none =>
      have hfresh : g.entities[written]? = none := by
        unfold EntityGraph.resolve at hwritten
        split at hwritten
        · cases hwritten
        · next hmem => exact Std.ExtTreeMap.getElem?_eq_none hmem
      have hfree : g.aliasIndex (entityKey written) = none :=
        (h.resolve_eq written).symm.trans hwritten
      simp only [Option.getD_none, hfresh]
      generalize hcreated : created written entityType timestamp description = e
      have hname : e.name = written := by
        rw [← hcreated]
        rfl
      have hnames : names e = [written] := by
        rw [← hcreated]
        rfl
      have hindexed :
          ({ g with entities := g.entities.insert written e }.addNode
            written).indexNames written =
          { { g with entities := g.entities.insert written e }.addNode
              written with
            aliasIndex := claimKey written g.aliasIndex (entityKey written) } := by
        simp [indexNames, EntityGraph.addNode, hnames, claimKeys]
      rw [hindexed]
      refine ⟨⟨?_, ?_⟩, rfl⟩
      · refine (h.toNoded.addNode written).insert (d := e) ?_ rfl rfl ?_
        · rw [hname]
          rfl
        · simp [EntityGraph.addNode, hname]
      · refine h.agrees.extend written [written] ?_ ?_ ?_ ?_
        · intro x n
          rw [named_insert (g := g) (d := e) rfl, hnames]
          constructor
          · rintro (⟨hold, -⟩ | hnew)
            · exact Or.inl hold
            · exact Or.inr hnew
          · rintro (hold | hnew)
            · refine Or.inl ⟨hold, ?_⟩
              rintro rfl
              rcases hold with ⟨d, hd, -⟩
              rw [hfresh] at hd
              cases hd
            · exact Or.inr hnew
        · intro k
          rfl
        · intro n hn
          have hn : n = written := by simpa using hn
          exact Or.inl (hn ▸ hfree)
        · refine (named_insert (g := g) (d := e) rfl _ _).mpr (Or.inr ⟨rfl, ?_⟩)
          simp [hnames]

variable {name written : String}

theorem Resolving.noteAlias (h : Resolving g) (hc : g.resolve name = some c)
    (hfree : g.aliasIndex (entityKey written) = none ∨
      g.aliasIndex (entityKey written) = some c) :
    Resolving (g.noteAlias name written) ∧
    (g.noteAlias name written).aliasIndex =
      claimKey c g.aliasIndex (entityKey written) := by
  rcases h.known hc with ⟨d, hd⟩
  have hkeyed := h.keyed c d hd
  unfold EntityGraph.noteAlias
  simp only [hc, hd]
  refine ⟨⟨?_, ?_⟩, trivial⟩
  · refine h.toNoded.insert (d := withAlias d written) ?_ rfl rfl ?_
    · rw [name_withAlias, hkeyed]
    · rw [name_withAlias, hkeyed]
      exact h.noded c d hd
  · refine h.agrees.extend c [written]
      (named_insert_alias rfl hd (names_withAlias d written)) ?_ ?_ ?_
    · intro k
      rfl
    · intro n hn
      have hn : n = written := by simpa using hn
      exact hn ▸ hfree
    · refine (named_insert (g := g) (d := withAlias d written) rfl _ _).mpr
        (Or.inr ⟨rfl, ?_⟩)
      rw [names_withAlias]
      exact Or.inl (by simp [names, hkeyed])

/-!
# Relations and removal
-/

theorem Resolving.getOrCreateNode (h : Resolving g) (written : String)
    (entityType : EntityType) (timestamp : Timestamp) :
    Resolving (g.getOrCreateNode written entityType timestamp).1 := by
  unfold EntityGraph.getOrCreateNode
  generalize (g.resolve written).getD written = name
  have hadded := (h.addOrUpdateEntity name entityType timestamp "").1
  cases hnode : g.entityToNode name with
  | some node =>
      simp only [hnode]
      exact h
  | none =>
      simp only [hnode]
      cases hnew :
          (g.addOrUpdateEntity name entityType timestamp "").entityToNode name with
      | some node => exact hadded
      | none => exact hadded.addNode name

theorem Resolving.addRelationship (h : Resolving g) (now : Timestamp)
    (relationship : EntityRelationship) :
    Resolving (addRelationship now g relationship) := by
  have hsource := h.getOrCreateNode relationship.fromEntity EntityType.concept now
  have htarget := hsource.getOrCreateNode relationship.toEntity
    EntityType.concept now
  unfold EntityGraph.addRelationship
  simp only
  split
  · exact htarget
  · exact htarget.frame rfl rfl rfl (putEdge_nodes ..)

theorem Resolving.addRelationships (h : Resolving g) (now : Timestamp)
    (relationships : List EntityRelationship) :
    Resolving (relationships.foldl (EntityGraph.addRelationship now) g) := by
  induction relationships generalizing g with
  | nil =>
      exact h
  | cons r rest ih =>
      exact ih (h.addRelationship now r)

theorem Resolving.removeEntity (h : Resolving g) (name : String) :
    Resolving (g.removeEntity name).1 := by
  refine ⟨h.toNoded.removeEntity name, ?_⟩
  cases hnode : g.entityToNode name with
  | none =>
      simp only [EntityGraph.removeEntity, hnode]
      exact h.agrees
  | some node =>
      rcases removeEntity_eq hnode with ⟨hentities, hindex, -⟩
      exact h.agrees.remove (named_erase hentities)
        (fun k => congrFun hindex k)

/-!
# Merging entities
-/

/-- The graph of `merge_entities` before it adds the relations again. -/
def absorbed (g : EntityGraph) (gone into : String) (goneData : EntityData) :
    EntityGraph :=
  let mentions := g.entityMentions[gone]?.getD []
  let removed := (g.removeEntity gone).1
  let entities :=
    match removed.entities[into]? with
    | some target => removed.entities.insert into (absorb target goneData)
    | none => removed.entities
  let keys :=
    match entities[into]? with
    | some target => (names target).map entityKey
    | none => []
  { removed with
    entities := entities
    aliasIndex := assignKeys into removed.aliasIndex keys
    entityMentions :=
      if mentions = [] then removed.entityMentions
      else
        removed.entityMentions.insert into
          (extendUnique (removed.entityMentions[into]?.getD []) mentions) }

theorem mergeResolved_eq (now : Timestamp) (g : EntityGraph) (gone into : String)
    (goneData : EntityData) :
    g.mergeResolved now gone into goneData =
      ((g.relationshipsOf gone).filterMap (redirect gone into)).foldl
        (EntityGraph.addRelationship now) (g.absorbed gone into goneData) :=
  rfl

variable {gone into : String} {intoData : EntityData}

theorem absorbed_parts (hne : gone ≠ into) (goneData : EntityData) {node : Nat}
    (hnode : g.entityToNode gone = some node)
    (hinto : g.entities[into]? = some intoData) :
    (g.absorbed gone into goneData).entities =
        (g.entities.erase gone).insert into (absorb intoData goneData) ∧
      (g.absorbed gone into goneData).aliasIndex =
        assignKeys into (release g.aliasIndex gone)
          ((names (absorb intoData goneData)).map entityKey) := by
  obtain ⟨hentities, hindex, -⟩ := removeEntity_eq hnode
  have hkept : (g.removeEntity gone).1.entities[into]? = some intoData := by
    rw [hentities, Std.ExtTreeMap.getElem?_erase]
    simp [hne, hinto]
  unfold EntityGraph.absorbed
  simp only [hkept, Std.ExtTreeMap.getElem?_insert_self]
  rw [hentities, hindex]
  exact ⟨rfl, rfl⟩

variable {goneData : EntityData}

theorem absorbed_resolving (hnoded : Noded g)
    (h : Mergeable entityKey g.Named g.aliasIndex gone into) (hne : gone ≠ into)
    (hgone : g.entities[gone]? = some goneData)
    (hinto : g.entities[into]? = some intoData) :
    Resolving (g.absorbed gone into goneData) := by
  rcases Option.ne_none_iff_exists'.mp (hnoded.noded gone goneData hgone) with
    ⟨node, hnode⟩
  rcases removeEntity_eq hnode with ⟨hentities, hindex, -⟩
  have hremoved := hnoded.removeEntity gone
  have hkept : (g.removeEntity gone).1.entities[into]? = some intoData := by
    rw [hentities, Std.ExtTreeMap.getElem?_erase]
    simp [hne, hinto]
  have hname : (absorb intoData goneData).name = into := by
    rw [name_absorb]
    exact hnoded.keyed into intoData hinto
  unfold EntityGraph.absorbed
  simp only [hkept, Std.ExtTreeMap.getElem?_insert_self]
  constructor
  · refine hremoved.insert (d := absorb intoData goneData) ?_ rfl rfl ?_
    · rw [hname]
    · rw [hname]
      exact hremoved.noded into intoData hkept
  · refine h.merge hne (hnoded.named_self hinto)
      (names (absorb intoData goneData)) ?_ ?_ ?_
    · intro n
      rw [names_absorb]
      constructor
      · rintro (hn | hn)
        · exact Or.inl ⟨intoData, hinto, hn⟩
        · exact Or.inr ⟨goneData, hgone, hn⟩
      · rintro (⟨d, hd, hn⟩ | ⟨d, hd, hn⟩)
        · rw [hinto] at hd
          cases hd
          exact Or.inl hn
        · rw [hgone] at hd
          cases hd
          exact Or.inr hn
    · intro e n
      rw [named_insert (g := (g.removeEntity gone).1)
        (d := absorb intoData goneData) rfl, named_erase hentities]
      by_cases he : e = into
      · subst he
        constructor
        · rintro (⟨-, hnot⟩ | ⟨-, hn⟩)
          · exact absurd rfl hnot
          · exact ⟨hne.symm, Or.inr ⟨rfl, hn⟩⟩
        · rintro ⟨-, ⟨d, hd, hn⟩ | ⟨-, hn⟩⟩
          · rw [hinto] at hd
            cases hd
            exact Or.inr ⟨rfl, (names_absorb ..).mpr (Or.inl hn)⟩
          · exact Or.inr ⟨rfl, hn⟩
      · simp [he, and_comm]
    · intro k
      simp only [hindex]

theorem mergeResolved_resolving (hnoded : Noded g)
    (h : Mergeable entityKey g.Named g.aliasIndex gone into) (hne : gone ≠ into)
    (hgone : g.entities[gone]? = some goneData)
    (hinto : g.entities[into]? = some intoData) (now : Timestamp) :
    Resolving (g.mergeResolved now gone into goneData) := by
  rw [mergeResolved_eq]
  exact (absorbed_resolving hnoded h hne hgone hinto).addRelationships now _

theorem mergeEntities_eq {target : String} (hgone : g.resolve written = some gone)
    (hinto : g.resolve target = some into) (hne : gone ≠ into)
    (hdata : g.entities[gone]? = some goneData) (now : Timestamp) :
    g.mergeEntities now written target =
      (g.mergeResolved now gone into goneData, true) := by
  unfold EntityGraph.mergeEntities
  simp only [hgone, hinto, if_neg hne, hdata]

theorem mergeEntities_cases (now : Timestamp) (g : EntityGraph)
    (written target : String) :
    g.mergeEntities now written target = (g, false) ∨
      exists gone into goneData, g.resolve written = some gone ∧
        g.resolve target = some into ∧ gone ≠ into ∧
        g.entities[gone]? = some goneData ∧
        g.mergeEntities now written target =
          (g.mergeResolved now gone into goneData, true) := by
  unfold EntityGraph.mergeEntities
  split
  · next gone into hgone hinto =>
    split
    · exact Or.inl rfl
    · next hne =>
      split
      · exact Or.inl rfl
      · next goneData hdata =>
        exact Or.inr ⟨gone, into, goneData, hgone, hinto, hne, hdata, rfl⟩
  · exact Or.inl rfl

theorem Resolving.mergeEntities (h : Resolving g) (now : Timestamp)
    (written target : String) :
    Resolving (g.mergeEntities now written target).1 := by
  rcases mergeEntities_cases now g written target with
    heq | ⟨gone, into, goneData, hgone, hinto, hne, hgoneData, heq⟩
  · rw [heq]
    exact h
  · rcases h.known hinto with ⟨intoData, hintoData⟩
    rw [heq]
    exact mergeResolved_resolving h.toNoded (h.agrees.mergeable gone into)
      hne hgoneData hintoData now

theorem mergeEntities_resolving (hnoded : Noded g)
    (h : Mergeable entityKey g.Named g.aliasIndex gone into) (hne : gone ≠ into)
    (hgone : g.entities[gone]? = some goneData)
    (hinto : g.entities[into]? = some intoData) (now : Timestamp) :
    Resolving (g.mergeEntities now gone into).1 := by
  have hresolve : forall n (d : EntityData), g.entities[n]? = some d ->
      g.resolve n = some n := by
    intro n d hd
    exact if_pos (mem_entities.mpr ⟨d, hd⟩)
  rw [mergeEntities_eq (hresolve gone _ hgone) (hresolve into _ hinto) hne hgone]
  exact mergeResolved_resolving hnoded h hne hgone hinto now

/-!
# Inserting entities
-/

/-- The names of the entity resolve to at most one entity besides itself. -/
def MeetsOneOther (g : EntityGraph) (entity : EntityData) : Prop :=
  forall m, m ∈ names entity -> forall n, n ∈ names entity ->
    forall x, x ∈ g.resolve m -> forall y, y ∈ g.resolve n ->
      x = entity.name ∨ y = entity.name ∨ x = y

instance (g : EntityGraph) (entity : EntityData) :
    Decidable (g.MeetsOneOther entity) := by
  unfold MeetsOneOther
  infer_instance

theorem Resolving.insertEntity (h : Resolving g) (now : Timestamp)
    {entity : EntityData} (hone : g.MeetsOneOther entity) :
    Resolving (g.insertEntity now entity) := by
  rcases h.toNoded.ensureNode entity.name with ⟨hensured, hnode⟩
  rcases ensureNode_eq g entity.name with ⟨hentities, hindex⟩
  generalize hindexed :
    { g.ensureNode entity.name with
      entities := (g.ensureNode entity.name).entities.insert entity.name
        entity }.indexNames entity.name = indexed
  have hinserted : indexed.entities = g.entities.insert entity.name entity := by
    rw [← hindexed]
    simp [indexNames, hentities]
  have hclaimed : indexed.aliasIndex =
      claimKeys entity.name g.aliasIndex ((names entity).map entityKey) := by
    rw [← hindexed]
    simp [indexNames, hindex]
  have hnoded : Noded indexed := by
    refine hensured.insert (d := entity) (by rw [hinserted, hentities]) ?_ ?_ hnode
    · rw [← hindexed]
      simp [indexNames]
    · rw [← hindexed]
      simp [indexNames]
  have hself : entity.name ∈ names entity := List.mem_cons_self ..
  have hreplace : forall other, (forall n, n ∈ names entity ->
        g.resolve n = none ∨ g.resolve n = some entity.name ∨
          g.resolve n = some other) ->
      Mergeable entityKey indexed.Named indexed.aliasIndex entity.name other := by
    intro other hfree
    refine h.agrees.replace (names entity) (named_insert hinserted)
      (fun k => congrFun hclaimed k) ?_ hself
    intro n hn
    rw [← h.resolve_eq]
    exact hfree n hn
  unfold EntityGraph.insertEntity
  simp only [hindexed]
  cases hother : g.otherOf entity with
  | none =>
      refine ⟨hnoded, (hreplace entity.name ?_).agrees⟩
      intro n hn
      have hnone := List.findSome?_eq_none_iff.mp hother n hn
      cases hcase : g.resolve n with
      | none => exact Or.inl rfl
      | some x =>
          rw [hcase] at hnone
          have hx : x = entity.name := by simpa using hnone
          exact Or.inr (Or.inl (congrArg some hx))
  | some other =>
      rcases List.exists_of_findSome?_eq_some hother with ⟨m, hm, hfound⟩
      rcases Option.filter_eq_some_iff.mp hfound with ⟨hresolve, hne⟩
      have hne : other ≠ entity.name := by simpa using hne
      have hmergeable := hreplace other (by
        intro n hn
        cases hcase : g.resolve n with
        | none => exact Or.inl rfl
        | some x =>
            right
            rcases hone m hm n hn other hresolve x hcase with heq | heq | heq
            · exact absurd heq hne
            · exact Or.inl (congrArg some heq)
            · exact Or.inr (congrArg some heq.symm))
      rcases h.known hresolve with ⟨d, hd⟩
      have hmine : indexed.entities[entity.name]? = some entity := by
        rw [hinserted]
        simp
      have htheirs : indexed.entities[other]? = some d := by
        rw [hinserted, Std.ExtTreeMap.getElem?_insert]
        simp [hne.symm, hd]
      simp only [htheirs]
      split
      · exact mergeEntities_resolving hnoded hmergeable.symm hne htheirs hmine now
      · exact mergeEntities_resolving hnoded hmergeable hne.symm hmine htheirs now

/-!
# Updates
-/

theorem Resolving.addEntities (h : Resolving g) (update : ContextUpdate) :
    Resolving (g.addEntities update) := by
  have hcreated : forall (xs : List String) {g : EntityGraph}, Resolving g ->
      Resolving (xs.foldl (fun g name =>
        g.addOrUpdateEntity name EntityType.concept update.timestamp
          ("From update: " ++ update.content.title)) g) := by
    intro xs
    induction xs with
    | nil =>
        intro g hg
        exact hg
    | cons x rest ih =>
        intro g hg
        exact ih (hg.addOrUpdateEntity ..).1
  have htyped : forall (xs : List TypedEntity) {g : EntityGraph}, Resolving g ->
      Resolving (xs.foldl (fun g typed =>
        g.addOrUpdateEntity typed.name typed.entityType update.timestamp
          ("Provided by caller: " ++ update.content.title)) g) := by
    intro xs
    induction xs with
    | nil =>
        intro g hg
        exact hg
    | cons x rest ih =>
        intro g hg
        exact ih (hg.addOrUpdateEntity ..).1
  unfold EntityGraph.addEntities
  split
  · exact hcreated _ h
  · exact htyped _ h

theorem Resolving.linkMentions (h : Resolving g) (update : ContextUpdate) :
    Resolving (g.linkMentions update) := by
  have hlinked : forall (xs : List String) {linked : EntityGraph × List String},
      Resolving linked.1 ->
      Resolving (xs.foldl (linkMention update.id) linked).1 := by
    intro xs
    induction xs with
    | nil =>
        intro linked hlinked
        exact hlinked
    | cons x rest ih =>
        intro linked hlinked
        refine ih ?_
        unfold linkMention
        split
        · exact hlinked
        · split
          · exact hlinked
          · exact hlinked.frame rfl rfl rfl rfl
  exact hlinked _ h

theorem Resolving.applyUpdate (h : Resolving g) (now : Timestamp)
    (update : ContextUpdate) :
    Resolving (g.applyUpdate now update) :=
  ((h.addEntities update).addRelationships now _).linkMentions update

/-!
# Merging graphs
-/

/-- Every alias of an entity of the other graph is unknown here or leads to
what the entity's name leads to. -/
def AliasesAgree (g other : EntityGraph) : Prop :=
  forall x, x ∈ other.entities.toList -> forall a, a ∈ x.2.aliases ->
    g.resolve a = none ∨ g.resolve a = g.resolve x.1

instance (g other : EntityGraph) : Decidable (g.AliasesAgree other) := by
  unfold AliasesAgree
  infer_instance

def KeyOf (data : EntityData) (k : String) : Prop :=
  exists n, n ∈ names data ∧ entityKey n = k

theorem Resolving.noteAliases (h : Resolving g) (hc : g.resolve name = some c)
    {aliases : List String} (hfree : forall a, a ∈ aliases ->
      g.aliasIndex (entityKey a) = none ∨ g.aliasIndex (entityKey a) = some c) :
    Resolving (aliases.foldl (fun g a => g.noteAlias name a) g) ∧
    forall k, (forall a, a ∈ aliases -> entityKey a ≠ k) ->
      (aliases.foldl (fun g a => g.noteAlias name a) g).aliasIndex k =
        g.aliasIndex k := by
  induction aliases generalizing g with
  | nil =>
      exact ⟨h, fun _ _ => rfl⟩
  | cons a rest ih =>
      rcases h.noteAlias hc (hfree a (List.mem_cons_self ..)) with ⟨hnoted, hindex⟩
      have hresolve : (g.noteAlias name a).resolve name = some c := by
        rw [hnoted.resolve_eq, hindex, claimKey_apply, ← h.resolve_eq, hc]
        rfl
      have hrest : forall b, b ∈ rest ->
          (g.noteAlias name a).aliasIndex (entityKey b) = none ∨
            (g.noteAlias name a).aliasIndex (entityKey b) = some c := by
        intro b hb
        rw [hindex, claimKey_apply]
        rcases hfree b (List.mem_cons_of_mem _ hb) with hnone | hsome
        · rw [hnone]
          by_cases hkey : entityKey b = entityKey a
          · exact Or.inr (by simp [hkey])
          · exact Or.inl (by simp [hkey])
        · exact Or.inr (by simp [hsome])
      rcases ih hnoted hresolve hrest with ⟨hfold, hkept⟩
      refine ⟨hfold, ?_⟩
      intro k hk
      rw [List.foldl_cons, hkept k (fun b hb => hk b (List.mem_cons_of_mem _ hb)),
        hindex, claimKey_apply]
      have hne : k ≠ entityKey a := (hk a (List.mem_cons_self ..)).symm
      simp [hne]

theorem Resolving.mergeEntity (h : Resolving g) {data : EntityData}
    (hname : data.name = name) (haliases : forall a, a ∈ data.aliases ->
      g.resolve a = none ∨ g.resolve a = g.resolve name) :
    Resolving (g.mergeEntity name data) ∧
    forall k, ¬ KeyOf data k ->
      (g.mergeEntity name data).aliasIndex k = g.aliasIndex k := by
  rcases h.addOrUpdateEntity name data.entityType data.lastMentioned
      (data.description.getD "") with ⟨hadded, hindex⟩
  generalize hc : (g.resolve name).getD name = c at hindex
  have hclaimed : forall k, claimKey c g.aliasIndex (entityKey name) k =
      (g.aliasIndex k).or (if k = entityKey name then some c else none) :=
    claimKey_apply c g.aliasIndex (entityKey name)
  have hresolve : (g.addOrUpdateEntity name data.entityType data.lastMentioned
      (data.description.getD "")).resolve name = some c := by
    rw [hadded.resolve_eq, hindex, hclaimed, ← h.resolve_eq, ← hc]
    cases g.resolve name <;> simp
  have hfree : forall a, a ∈ data.aliases ->
      (g.addOrUpdateEntity name data.entityType data.lastMentioned
        (data.description.getD "")).aliasIndex (entityKey a) = none ∨
      (g.addOrUpdateEntity name data.entityType data.lastMentioned
        (data.description.getD "")).aliasIndex (entityKey a) = some c := by
    intro a ha
    rw [hindex, hclaimed, ← h.resolve_eq]
    rcases haliases a ha with hnone | hsame
    · rw [hnone]
      by_cases hkey : entityKey a = entityKey name
      · exact Or.inr (by simp [hkey])
      · exact Or.inl (by simp [hkey])
    · rw [hsame]
      cases hcase : g.resolve name with
      | some x =>
          right
          rw [hcase] at hc
          exact congrArg some hc
      | none =>
          by_cases hkey : entityKey a = entityKey name
          · exact Or.inr (by simp [hkey])
          · exact Or.inl (by simp [hkey])
  rcases hadded.noteAliases hresolve hfree with ⟨hmerged, hkept⟩
  refine ⟨hmerged, ?_⟩
  intro k hk
  unfold EntityGraph.mergeEntity
  rw [hkept k, hindex, hclaimed]
  · have hne : k ≠ entityKey name := by
      rintro rfl
      exact hk ⟨name, by simp [names, hname], rfl⟩
    simp [hne]
  · rintro a ha rfl
    exact hk ⟨a, List.mem_cons_of_mem _ ha, rfl⟩

theorem Resolving.mergeEntityList (h : Resolving g)
    {others : List (String × EntityData)}
    (hname : forall x, x ∈ others -> x.2.name = x.1)
    (hdisjoint : others.Pairwise (fun x y => forall k, KeyOf x.2 k ->
      ¬ KeyOf y.2 k))
    (haliases : forall x, x ∈ others -> forall a, a ∈ x.2.aliases ->
      g.resolve a = none ∨ g.resolve a = g.resolve x.1) :
    Resolving (others.foldl (fun g x => g.mergeEntity x.1 x.2) g) := by
  induction others generalizing g with
  | nil =>
      exact h
  | cons x rest ih =>
      rcases List.pairwise_cons.mp hdisjoint with ⟨hfirst, hrest⟩
      rcases h.mergeEntity (hname x (List.mem_cons_self ..))
        (haliases x (List.mem_cons_self ..)) with ⟨hmerged, hkept⟩
      refine ih hmerged (fun y hy => hname y (List.mem_cons_of_mem _ hy)) hrest ?_
      intro y hy a ha
      -- The keys of `y` are none of those the entity `x` wrote.
      have hsame : forall n, n ∈ names y.2 ->
          (g.mergeEntity x.1 x.2).resolve n = g.resolve n := by
        intro n hn
        rw [hmerged.resolve_eq, h.resolve_eq]
        exact hkept _ (fun hkey => hfirst y hy _ hkey ⟨n, hn, rfl⟩)
      have hy1 : y.1 ∈ names y.2 := by
        rw [names, hname y (List.mem_cons_of_mem _ hy)]
        exact List.mem_cons_self ..
      rw [hsame a (List.mem_cons_of_mem _ ha), hsame y.1 hy1]
      exact haliases y (List.mem_cons_of_mem _ hy) a ha

omit [CharTables] in
theorem extendUnique_snoc (ids more : List Uuid) (id : Uuid) :
    extendUnique ids (more ++ [id]) =
      if id ∈ extendUnique ids more then
        extendUnique ids more
      else extendUnique ids more ++ [id] := by
  unfold extendUnique
  rw [List.foldl_append]
  rfl

omit [CharTables] in
theorem mem_extendUnique {ids more : List Uuid} {id : Uuid} :
    id ∈ extendUnique ids more ↔ id ∈ ids ∨ id ∈ more := by
  induction more using List.reverseRecOn with
  | nil =>
      simp [extendUnique]
  | append_singleton more last ih =>
      rw [extendUnique_snoc]
      split
      · next hmem =>
        rw [ih, List.mem_append, List.mem_singleton]
        constructor
        · exact Or.imp_right Or.inl
        · rintro (hids | hmore | rfl)
          · exact Or.inl hids
          · exact Or.inr hmore
          · exact ih.mp hmem
      · rw [List.mem_append, List.mem_append, ih, or_assoc]

theorem Resolving.mergeMentionLists (h : Resolving g)
    (lists : List (String × List Uuid)) :
    Resolving (lists.foldl (fun g x => g.mergeMentions x.1 x.2) g) := by
  induction lists generalizing g with
  | nil =>
      exact h
  | cons x rest ih =>
      exact ih (h.frame rfl rfl rfl rfl)

theorem Resolving.mergeFrom {other : EntityGraph} (h : Resolving g)
    (hother : Resolving other) (now : Timestamp) (hagree : g.AliasesAgree other) :
    Resolving (g.mergeFrom now other) := by
  unfold EntityGraph.mergeFrom
  apply Resolving.addRelationships
  apply Resolving.mergeMentionLists
  have hentity : forall x, x ∈ other.entities.toList ->
      other.entities[x.1]? = some x.2 := by
    intro x hx
    exact Std.ExtTreeMap.mem_toList_iff_getElem?_eq_some.mp hx
  refine h.mergeEntityList ?_ ?_ hagree
  · intro x hx
    exact hother.keyed x.1 x.2 (hentity x hx)
  · have hdistinct := Std.ExtTreeMap.distinct_keys_toList (t := other.entities)
    refine hdistinct.imp_of_mem ?_
    intro x y hx hy hne k ⟨n, hn, hkn⟩ ⟨m, hm, hkm⟩
    apply hne
    have hsame := hother.agrees.same ⟨x.2, hentity x hx, hn⟩
      ⟨y.2, hentity y hy, hm⟩ (hkn.trans hkm.symm)
    rw [hsame]
    exact Std.ReflCmp.compare_self

/-!
# Reloading
-/

omit [CharTables] in
theorem nodesByName_spec {nodes : List String} :
    (nodesByName nodes n = none ↔ n ∉ nodes) ∧
    forall i, nodesByName nodes n = some i -> nodes[i]? = some n := by
  induction nodes using List.reverseRecOn with
  | nil =>
      simp [nodesByName]
  | append_singleton rest x ih =>
      have hstep : nodesByName (rest ++ [x]) =
          Function.update (nodesByName rest) x (some rest.length) := by
        simp [nodesByName, List.zipIdx_append]
      rw [hstep]
      by_cases hn : n = x
      · subst hn
        simp
      · have hmem : n ∈ rest ++ [x] ↔ n ∈ rest := by simp [hn]
        rw [Function.update_of_ne hn, hmem]
        refine ⟨ih.1, ?_⟩
        intro i hi
        have hold := ih.2 i hi
        rw [List.getElem?_append_left (List.getElem?_eq_some_iff.mp hold).1]
        exact hold

omit [CharTables] in
theorem nodes_foldl {α : Type} {f : DiGraph -> α -> DiGraph}
    (hf : forall g x, (f g x).nodes = g.nodes) (xs : List α) (g : DiGraph) :
    (xs.foldl f g).nodes = g.nodes := by
  induction xs generalizing g with
  | nil =>
      rfl
  | cons x rest ih =>
      rw [List.foldl_cons, ih, hf]

omit [CharTables] in
theorem deserializeGraph_nodes (data : EntityGraphData) :
    (deserializeGraph data).nodes = data.nodes := by
  refine nodes_foldl ?_ data.edges _
  intro g e
  split <;> rfl

omit [CharTables] in
theorem mem_values :
    d ∈ g.values ↔ exists e : String, g.entities[e]? = some d := by
  simp only [values, List.mem_map, Prod.exists,
    Std.ExtTreeMap.mem_toList_iff_getElem?_eq_some, exists_eq_right]

variable {index : String -> Option String}

theorem Noded.rebuild_indexed (h : Noded g)
    (hagrees : Agrees entityKey g.Named index) {keysOf : String -> List String}
    {order : List String} (hmem : forall e, e ∈ order ↔ g.Named e e)
    (hkey : forall e k, k ∈ keysOf e ↔ exists n, g.Named e n ∧ entityKey n = k)
    (now : Timestamp) :
    exists rebuilt,
      (Naming.rebuild keysOf order).2.foldl
          (fun g merge => (g.mergeEntities now merge.1 merge.2).1)
          { g with aliasIndex := (Naming.rebuild keysOf order).1 } =
        { g with aliasIndex := rebuilt } ∧
      forall e k, rebuilt k = some e ↔
        exists n, g.Named e n ∧ entityKey n = k := by
  have hdisjoint : forall e f k, e ∈ order -> f ∈ order -> k ∈ keysOf e ->
      k ∈ keysOf f -> e = f := by
    intro e f k _ _ he hf
    rcases (hkey e k).mp he with ⟨n, hn, hnk⟩
    rcases (hkey f k).mp hf with ⟨m, hm, hmk⟩
    exact hagrees.same hn hm (hnk.trans hmk.symm)
  rcases rebuild_eq hdisjoint with ⟨hnone, hindex⟩
  rw [hnone]
  refine ⟨_, rfl, ?_⟩
  intro e k
  rw [hindex, hkey]
  constructor
  · exact And.right
  · rintro ⟨n, hn, hnk⟩
    exact ⟨(hmem e).mpr (h.own hn), n, hn, hnk⟩

theorem Noded.rebuildAliasIndex_eq (h : Noded g)
    (hagrees : Agrees entityKey g.Named index) (now : Timestamp) :
    exists rebuilt, g.rebuildAliasIndex now = { g with aliasIndex := rebuilt } ∧
      forall e k, rebuilt k = some e ↔
        exists n, g.Named e n ∧ entityKey n = k := by
  refine h.rebuild_indexed hagrees ?_ ?_ now
  · intro e
    simp only [List.mem_map, List.mem_insertionSort]
    constructor
    · rintro ⟨x, ⟨d, hd, rfl⟩, rfl⟩
      rcases mem_values.mp hd with ⟨n, hn⟩
      show g.Named d.name d.name
      rw [h.keyed n d hn]
      exact h.named_self hn
    · rintro ⟨d, hd, -⟩
      exact ⟨_, ⟨d, mem_values.mpr ⟨e, hd⟩, rfl⟩, h.keyed e d hd⟩
  · intro e k
    cases hd : g.entities[e]? with
    | none | some d => simp [Named, hd]

theorem Noded.rebuild (h : Noded g) (hagrees : Agrees entityKey g.Named index)
    (now : Timestamp) :
    Resolving (g.rebuildAliasIndex now) := by
  obtain ⟨rebuilt, heq, hindex⟩ := h.rebuildAliasIndex_eq hagrees now
  rw [heq]
  refine ⟨h.congr rfl rfl rfl, ?_, ?_, ?_⟩
  · exact fun e n hn => h.own hn
  · intro e n hn
    exact (hindex e _).mpr ⟨n, hn, rfl⟩
  · intro e k hk
    obtain ⟨n, hn, -⟩ := (hindex e k).mp hk
    exact h.own hn

/-- `deserialize` after `serialize`. -/
def reload (now : Timestamp) (g : EntityGraph) : EntityGraph :=
  deserialize now g.serialize

omit [CharTables] in
theorem Noded.unindexed (h : Noded g) :
    Noded (EntityGraph.unindexed g.serialize) := by
  refine ⟨h.keyed, ?_, ?_⟩
  · intro n d hd
    rcases Option.ne_none_iff_exists'.mp (h.noded n d hd) with ⟨i, hi⟩
    have hnode : n ∈ g.graph.nodes := List.mem_of_getElem? (h.placed n i hi)
    intro hnone
    exact (nodesByName_spec.1.mp hnone)
      ((List.mem_insertionSort _).mpr hnode)
  · intro n i hi
    rw [EntityGraph.unindexed, deserializeGraph_nodes]
    exact nodesByName_spec.2 i hi

theorem Resolving.reload (h : Resolving g) (now : Timestamp) :
    Resolving (g.reload now) :=
  h.toNoded.unindexed.rebuild (h.agrees.congr (Named.congr rfl) (fun _ => rfl)) now

/-!
# Runs
-/

/-- The public operations that write a graph. -/
inductive GraphOp where
  | addOrUpdateEntity (name : String) (entityType : EntityType)
      (timestamp : Timestamp) (description : String)
  | insertEntity (entity : EntityData)
  | addRelationship (relationship : EntityRelationship)
  | mergeEntities (written target : String)
  | removeEntity (name : String)
  | applyUpdate (update : ContextUpdate)
  | mergeFrom (other : EntityGraph)
  | reload

def GraphOp.apply (now : Timestamp) (g : EntityGraph) : GraphOp -> EntityGraph
  | addOrUpdateEntity name entityType timestamp description =>
      g.addOrUpdateEntity name entityType timestamp description
  | insertEntity entity => g.insertEntity now entity
  | addRelationship relationship => EntityGraph.addRelationship now g relationship
  | mergeEntities written target => (g.mergeEntities now written target).1
  | removeEntity name => (g.removeEntity name).1
  | applyUpdate update => g.applyUpdate now update
  | mergeFrom other => g.mergeFrom now other
  | reload => g.reload now

/-- The graphs built from the empty one; a graph merged in is built the same
way. -/
inductive Built (allowed : EntityGraph -> GraphOp -> Prop) :
    EntityGraph -> Prop where
  | new : Built allowed new
  | step {g : EntityGraph} (op : GraphOp) (now : Timestamp) :
      Built allowed g ->
      (forall other, op = GraphOp.mergeFrom other -> Built allowed other) ->
      allowed g op ->
      Built allowed (op.apply now g)

/-- An inserted entity meets at most one other, and an alias merged in does not
lead to another entity than its own. -/
def MeetsNoSecond (g : EntityGraph) : GraphOp -> Prop
  | GraphOp.insertEntity entity => g.MeetsOneOther entity
  | GraphOp.mergeFrom other => g.AliasesAgree other
  | _ => True

instance (g : EntityGraph) (op : GraphOp) : Decidable (g.MeetsNoSecond op) := by
  unfold MeetsNoSecond
  split <;> infer_instance

theorem meetsNoSecond_of_plain {op : GraphOp}
    (hmerge : forall other, op ≠ GraphOp.mergeFrom other)
    (hinsert : forall entity, op ≠ GraphOp.insertEntity entity) :
    g.MeetsNoSecond op := by
  cases op with
  | mergeFrom other => exact absurd rfl (hmerge other)
  | insertEntity entity => exact absurd rfl (hinsert entity)
  | addOrUpdateEntity _ _ _ _ | addRelationship _ | mergeEntities _ _
  | removeEntity _ | applyUpdate _ | reload => exact True.intro

theorem Resolving.apply (h : Resolving g) (now : Timestamp) {op : GraphOp}
    (hop : g.MeetsNoSecond op)
    (hother : forall other, op = GraphOp.mergeFrom other -> Resolving other) :
    Resolving (op.apply now g) := by
  cases op with
  | addOrUpdateEntity name entityType timestamp description =>
      exact (h.addOrUpdateEntity name entityType timestamp description).1
  | insertEntity entity => exact h.insertEntity now hop
  | addRelationship relationship => exact h.addRelationship now relationship
  | mergeEntities written target => exact h.mergeEntities now written target
  | removeEntity name => exact h.removeEntity name
  | applyUpdate update => exact h.applyUpdate now update
  | mergeFrom other => exact h.mergeFrom (hother other rfl) now hop
  | reload => exact h.reload now

theorem resolving (h : Built MeetsNoSecond g) :
    Resolving g := by
  induction h with
  | new =>
      exact resolving_new
  | step _ now _ _ hop ih ihother =>
      exact ih.apply now hop ihother

/-- Every name and alias of every entity resolves to the entity. -/
def ResolvesOwnNames (g : EntityGraph) : Prop :=
  forall (e : String) (d : EntityData), g.entities[e]? = some d ->
    forall n, n ∈ names d -> g.resolve n = some d.name

/-- In every graph built from the empty one with operations that meet no
second entity, every name of an entity resolves to it. -/
theorem alias_resolution {g : EntityGraph} (h : Built MeetsNoSecond g) :
    ResolvesOwnNames g :=
  fun _ _ hd _ hn => (resolving h).resolve hd hn

end

/-!
# An alias that names another entity
-/

@[reducible] def asciiTables : CharTables where
  isWhitespace := Char.isWhitespace
  toLowercase := fun c => [c.toLower]
  lowercase := fun s => String.ofList (s.toList.map Char.toLower)

attribute [local instance] asciiTables

def addConcept (g : EntityGraph) (name : String) : EntityGraph :=
  (GraphOp.addOrUpdateEntity name EntityType.concept 0 "").apply 0 g

variable {allowed : EntityGraph -> GraphOp -> Prop}

theorem Built.addConcept (h : Built allowed g) (name : String) (hallowed : allowed g
      (GraphOp.addOrUpdateEntity name EntityType.concept 0 "")) :
    Built allowed (g.addConcept name) :=
  h.step _ 0 (fun _ heq => nomatch heq) hallowed

def mergedNames (first second : String) : EntityGraph :=
  (GraphOp.mergeEntities second first).apply 0
    ((new.addConcept first).addConcept second)

theorem Built.mergedNames (first second : String)
    (hallowed : forall g op, (forall other, op ≠ GraphOp.mergeFrom other) ->
      (forall entity, op ≠ GraphOp.insertEntity entity) -> allowed g op) :
    Built allowed (mergedNames first second) :=
  ((Built.new.addConcept first (hallowed _ _ nofun nofun)).addConcept second
    (hallowed _ _ nofun nofun)).step _ 0 (fun _ heq => nomatch heq)
      (hallowed _ _ nofun nofun)

theorem alias_resolution_merged :
    exists g, Built MeetsNoSecond g ∧ g.resolve "Redis_Cache" = some "redis" ∧
      ResolvesOwnNames g := by
  have hother : Built MeetsNoSecond (mergedNames "Redis" "redis cache") :=
    Built.mergedNames _ _ (fun _ _ => meetsNoSecond_of_plain)
  have hself : Built MeetsNoSecond (new.addConcept "redis") :=
    Built.new.addConcept "redis" True.intro
  have hagree : (new.addConcept "redis").MeetsNoSecond
      (GraphOp.mergeFrom (mergedNames "Redis" "redis cache")) := by
    decide +kernel
  have hbuilt := hself.step
    (GraphOp.mergeFrom (mergedNames "Redis" "redis cache")) 0
    (fun other heq => by cases heq; exact hother) hagree
  exact ⟨_, hbuilt, by decide +kernel, alias_resolution hbuilt⟩

/-- Here the two names are two entities, elsewhere they are one. -/
theorem merge_from_misleads :
    ¬ forall g, Built (fun _ _ => True) g -> ResolvesOwnNames g := by
  intro h
  have hother : Built (fun _ _ => True) (mergedNames "Redis" "Cache") :=
    Built.mergedNames "Redis" "Cache" (fun _ _ _ _ => True.intro)
  have hnew : Built (fun _ _ => True) new := Built.new
  have hself := (hnew.addConcept "Redis" True.intro).addConcept "Cache"
    True.intro
  have hbuilt := hself.step (GraphOp.mergeFrom (mergedNames "Redis" "Cache")) 0
    (fun other heq => by cases heq; exact hother) True.intro
  have hentity : exists d : EntityData,
      ((GraphOp.mergeFrom (mergedNames "Redis" "Cache")).apply 0
        ((new.addConcept "Redis").addConcept "Cache")).entities["Redis"]? = some d ∧
      "Cache" ∈ names d ∧ d.name = "Redis" := by
    have hsome : (((GraphOp.mergeFrom (mergedNames "Redis" "Cache")).apply 0
        ((new.addConcept "Redis").addConcept "Cache")).entities["Redis"]?).any
          (fun d => decide ("Cache" ∈ names d ∧ d.name = "Redis")) = true := by
      decide +kernel
    rcases (Option.any_eq_true _ _).mp hsome with ⟨d, hd, hnames⟩
    exact ⟨d, hd, of_decide_eq_true hnames⟩
  rcases hentity with ⟨d, hd, hname, hredis⟩
  have hresolve := h _ hbuilt "Redis" d hd "Cache" hname
  rw [hredis] at hresolve
  have hcache : ((GraphOp.mergeFrom (mergedNames "Redis" "Cache")).apply 0
      ((new.addConcept "Redis").addConcept "Cache")).resolve "Cache" ≠
        some "Redis" := by
    decide +kernel
  exact hcache hresolve

end EntityGraph
end Graph
end PostCortex
