import PostCortex.Graph.SessionGraphs

/-!
# Relations

The graph type allows parallel edges; every operation that adds or moves edges
goes through `add_relationship`, which looks for the triple first.  A relation
follows its entities: it stays while both are there, and moves when one is merged
into another, except from an entity to itself.
-/

namespace PostCortex
namespace Graph
namespace EntityGraph

open PostCortex.Core
open Naming

/-!
# Relation triples
-/

def place (nodes : List String) (x : Nat × Nat × RelationType) :
    Option (String × String × RelationType) :=
  (nodes[x.1]?).bind fun e =>
    (nodes[x.2.1]?).map fun f => (e, f, x.2.2)

def relationKey (r : EntityRelationship) : String × String × RelationType :=
  (r.fromEntity, r.toEntity, r.relationType)

def relationKeys (g : EntityGraph) : List (String × String × RelationType) :=
  g.relations.map relationKey

variable {x : Nat × Nat × RelationType} {e f : String} {t : RelationType}

theorem place_some {nodes : List String} :
    place nodes x = some (e, f, t) ↔
      nodes[x.1]? = some e ∧ nodes[x.2.1]? = some f ∧ x.2.2 = t := by
  unfold place
  cases nodes[x.1]? with
  | none =>
      simp
  | some source =>
      cases nodes[x.2.1]? with
      | none | some target => simp

theorem relationKeys_eq (g : EntityGraph) :
    g.relationKeys =
      (g.graph.edges.reverse.map shape).filterMap (place g.graph.nodes) := by
  rw [relationKeys, relations, List.map_filterMap, List.filterMap_map]
  refine List.filterMap_congr ?_
  intro x _
  unfold relationRef
  dsimp only [Function.comp_apply, place, shape]
  cases g.graph.nodes[x.source]? with
  | none =>
      rfl
  | some source =>
      cases g.graph.nodes[x.target]? with
      | none | some target => rfl

theorem unindexed_relationKeys (g : EntityGraph) :
    (unindexed g.serialize).relationKeys.Perm g.relationKeys := by
  have hkeys : forall h : EntityGraph, h.relationKeys =
      h.triples.map (fun t => (t.1, t.2.1, t.2.2.relationType)) := by
    intro h
    rw [relationKeys, relations_eq, List.map_map]
    rfl
  have hedges : g.serialize.edges.Perm g.triples := by
    rw [serialize_edges]
    exact List.perm_insertionSort _ _
  have htriples : (unindexed g.serialize).triples = g.serialize.edges := by
    rw [triples, unindexed, deserializeGraph_nodes]
    refine deserializeGraph_triples ?_
    intro t ht
    obtain ⟨hfrom, hto⟩ := mem_nodes_of_triple (hedges.mem_iff.mp ht)
    exact ⟨(List.mem_insertionSort _).mpr hfrom, (List.mem_insertionSort _).mpr hto⟩
  rw [hkeys, hkeys, htriples]
  exact hedges.map _

variable {g : EntityGraph}

theorem mem_relationKeys :
    (e, f, t) ∈ g.relationKeys ↔ g.Relates e f t := by
  rw [relationKeys_eq, List.mem_filterMap]
  simp only [place_some, List.map_reverse, List.mem_reverse, Relates]
  constructor
  · rintro ⟨⟨i, j, t'⟩, hmem, he, hf, rfl⟩
    exact ⟨i, j, hmem, he, hf⟩
  · rintro ⟨i, j, hmem, he, hf⟩
    exact ⟨(i, j, t), hmem, he, hf, rfl⟩

variable {r : EntityRelationship}

theorem mem_relations :
    r ∈ g.relations ↔ exists e, e ∈ g.graph.edges ∧ g.relationRef e = some r := by
  rw [relations, List.mem_filterMap]
  simp only [List.mem_reverse]

theorem relationRef_some {e : Edge} :
    g.relationRef e = some r ↔
      g.graph.nodes[e.source]? = some r.fromEntity ∧
        g.graph.nodes[e.target]? = some r.toEntity ∧
        e.weight = ⟨r.relationType, r.context⟩ := by
  rw [relationRef_eq, Option.map_eq_some_iff]
  constructor
  · rintro ⟨t, ht, rfl⟩
    obtain ⟨source, hsource, ht⟩ := Option.bind_eq_some_iff.mp ht
    obtain ⟨target, htarget, rfl⟩ := Option.map_eq_some_iff.mp ht
    exact ⟨hsource, htarget, rfl⟩
  · rintro ⟨hsource, htarget, hweight⟩
    refine ⟨(r.fromEntity, r.toEntity, e.weight), ?_, ?_⟩
    · simp [triple, hsource, htarget]
    · rw [hweight]

theorem relates_iff :
    g.Relates e f t ↔ exists r, r ∈ g.relations ∧ relationKey r = (e, f, t) := by
  rw [← mem_relationKeys, relationKeys, List.mem_map]

def Unique (d : DiGraph) : Prop :=
  (d.edges.map shape).Nodup

theorem nodup_of_filterMap {α β : Type} {f : α -> Option β} {xs : List α}
    (hsome : forall x, x ∈ xs -> f x ≠ none) (h : (xs.filterMap f).Nodup) :
    xs.Nodup := by
  induction xs with
  | nil =>
      exact List.nodup_nil
  | cons x rest ih =>
      have hrest : forall y, y ∈ rest -> f y ≠ none :=
        fun y hy => hsome y (List.mem_cons_of_mem x hy)
      obtain ⟨b, hb⟩ := Option.ne_none_iff_exists'.mp
        (hsome x List.mem_cons_self)
      rw [List.filterMap_cons_some hb, List.nodup_cons] at h
      rw [List.nodup_cons]
      refine ⟨?_, ih hrest h.2⟩
      intro hmem
      exact h.1 (List.mem_filterMap.mpr ⟨x, hmem, hb⟩)

theorem Indexed.placed (h : Indexed g) (hx : x ∈ g.graph.edges.map shape) :
    place g.graph.nodes x ≠ none := by
  obtain ⟨edge, hedge, rfl⟩ := List.mem_map.mp hx
  obtain ⟨hs, ht⟩ := h.edges edge hedge
  simp [place, shape, List.getElem?_eq_getElem hs, List.getElem?_eq_getElem ht]

theorem Indexed.unique_iff (h : Indexed g) :
    g.relationKeys.Nodup ↔ Unique g.graph := by
  rw [relationKeys_eq, Unique, ← List.nodup_reverse (l := g.graph.edges.map shape),
    ← List.map_reverse]
  have hplaced : forall x, x ∈ g.graph.edges.reverse.map shape ->
      place g.graph.nodes x ≠ none := by
    intro x hx
    rw [List.map_reverse, List.mem_reverse] at hx
    exact h.placed hx
  constructor
  · exact fun hkeys => nodup_of_filterMap hplaced hkeys
  · refine List.Nodup.filterMap ?_
    rintro ⟨i, j, t⟩ ⟨i', j', t'⟩ ⟨e, f, r⟩ hx hy
    obtain ⟨hi, hj, rfl⟩ := place_some.mp hx
    obtain ⟨hi', hj', rfl⟩ := place_some.mp hy
    have hsource := (List.getElem?_inj (List.getElem?_eq_some_iff.mp hi).1
      h.nodup).mp (hi.trans hi'.symm)
    have htarget := (List.getElem?_inj (List.getElem?_eq_some_iff.mp hj).1
      h.nodup).mp (hj.trans hj'.symm)
    exact Prod.ext hsource (Prod.ext htarget rfl)

def getAllRelationships (g : EntityGraph) : List EntityRelationship :=
  g.graph.edges.reverse.filterMap fun e =>
    (g.nodeToEntity e.source).bind fun sourceName =>
      (g.nodeToEntity e.target).map fun targetName =>
        { fromEntity := sourceName
          toEntity := targetName
          relationType := e.weight.relationType
          context := e.weight.context }

theorem Indexed.allRelationships (h : Indexed g) :
    g.getAllRelationships = g.relations := by
  have hnodes : g.nodeToEntity = fun i => g.graph.nodes[i]? := funext h.nodes
  unfold getAllRelationships relations
  rw [hnodes]
  rfl

/-!
# Growing graphs
-/

structure Sprouts (d d' : DiGraph) : Prop where
  nodes : d.nodes <+: d'.nodes
  edges : d'.edges = d.edges

/-- New nodes come last, and the relations stay between the same nodes. -/
structure Grows (d d' : DiGraph) : Prop where
  nodes : d.nodes <+: d'.nodes
  shapes : forall x, x ∈ d.edges.map shape -> x ∈ d'.edges.map shape

theorem Sprouts.refl (d : DiGraph) : Sprouts d d where
  nodes := List.prefix_refl _
  edges := rfl

variable {d d' d'' : DiGraph}

theorem Sprouts.trans (h : Sprouts d d') (h' : Sprouts d' d'') :
    Sprouts d d'' where
  nodes := h.nodes.trans h'.nodes
  edges := h'.edges.trans h.edges

theorem Sprouts.unique (h : Sprouts d d') (hd : Unique d) :
    Unique d' := by
  unfold Unique
  rw [h.edges]
  exact hd

theorem Sprouts.grows (h : Sprouts d d') : Grows d d' where
  nodes := h.nodes
  shapes := fun x hx => by
    rw [h.edges]
    exact hx

theorem Grows.refl (d : DiGraph) : Grows d d :=
  (Sprouts.refl d).grows

theorem Grows.trans (h : Grows d d') (h' : Grows d' d'') :
    Grows d d'' where
  nodes := h.nodes.trans h'.nodes
  shapes := fun x hx => h'.shapes x (h.shapes x hx)

variable {g' : EntityGraph}

theorem Grows.relates (h : Grows g.graph g'.graph) (hrel : g.Relates e f t) :
    g'.Relates e f t := by
  obtain ⟨i, j, hmem, he, hf⟩ := hrel
  obtain ⟨more, hmore⟩ := h.nodes
  refine ⟨i, j, h.shapes _ hmem, ?_, ?_⟩
  · rw [← hmore, List.getElem?_append_left (List.getElem?_eq_some_iff.mp he).1]
    exact he
  · rw [← hmore, List.getElem?_append_left (List.getElem?_eq_some_iff.mp hf).1]
    exact hf

/-- One node more, or the edges as they were. -/
structure Advances (d d' : DiGraph) : Prop where
  grows : Grows d d'
  unique : Unique d -> Unique d'

theorem Advances.refl (d : DiGraph) : Advances d d where
  grows := Grows.refl d
  unique := id

theorem Advances.trans (h : Advances d d') (h' : Advances d' d'') :
    Advances d d'' where
  grows := h.grows.trans h'.grows
  unique := fun hd => h'.unique (h.unique hd)

theorem Sprouts.advances (h : Sprouts d d') : Advances d d' where
  grows := h.grows
  unique := h.unique

theorem Advances.foldl {α : Type} {f : EntityGraph -> α -> EntityGraph}
    (hf : forall g x, Advances g.graph (f g x).graph) (xs : List α)
    (g : EntityGraph) :
    Advances g.graph (xs.foldl f g).graph := by
  induction xs generalizing g with
  | nil =>
      exact Advances.refl _
  | cons x rest ih =>
      exact (hf g x).trans (ih (f g x))

theorem putEdge_advances (d : DiGraph) (source target : Nat) (weight : EdgeData) :
    Advances d (d.putEdge source target weight) where
  grows :=
    { nodes := ⟨[], by simp only [putEdge_nodes, List.append_nil]⟩
      shapes := fun _ hx => mem_putEdge.mpr (Or.inl hx) }
  unique := by
    intro hd
    unfold Unique
    rw [putEdge_shapes]
    split
    · exact hd
    · next hmem => exact List.nodup_cons.mpr ⟨hmem, hd⟩

theorem putEdge_known {d : DiGraph} (h : Unique d) {source target : Nat}
    {weight : EdgeData}
    (hmem : (source, target, weight.relationType) ∈ d.edges.map shape) :
    (d.putEdge source target weight).edges =
      d.edges.map (fun x =>
        if shape x = (source, target, weight.relationType) then
          { x with weight := weight }
        else x) := by
  obtain ⟨edge, hedge, hshape⟩ := List.mem_map.mp hmem
  unfold DiGraph.putEdge
  simp only
  split
  · next i hi =>
    obtain ⟨hlt, hmatch, -⟩ := List.findIdx?_eq_some_iff_getElem.mp hi
    obtain ⟨hs, ht, hr⟩ := of_decide_eq_true hmatch
    have hat : shape d.edges[i] = (source, target, weight.relationType) := by
      rw [shape, hs, ht, hr]
    refine List.ext_getElem? fun j => ?_
    rw [List.getElem?_map, List.getElem?_modify]
    by_cases hij : i = j
    · subst hij
      simp [List.getElem?_eq_getElem hlt, hat]
    · cases hj : d.edges[j]? with
      | none =>
          rfl
      | some x =>
          obtain ⟨hjlt, hx⟩ := List.getElem?_eq_some_iff.mp hj
          have hother : shape x ≠ (source, target, weight.relationType) := by
            intro heq
            rw [← hat, ← hx] at heq
            have hplaces : (d.edges.map shape)[i]? = (d.edges.map shape)[j]? := by
              rw [List.getElem?_map, List.getElem?_map,
                List.getElem?_eq_getElem hlt, List.getElem?_eq_getElem hjlt,
                Option.map_some, Option.map_some, heq]
            exact hij ((List.getElem?_inj (by rw [List.length_map]; exact hlt)
              h).mp hplaces)
          simp [hij, hother]
  · next hnone =>
    obtain ⟨hs, hrest⟩ := Prod.mk.inj hshape
    obtain ⟨ht, hr⟩ := Prod.mk.inj hrest
    have hmiss := List.findIdx?_eq_none_iff.mp hnone edge hedge
    exact absurd (decide_eq_true ⟨hs, ht, hr⟩) (ne_true_of_eq_false hmiss)

/-- A relation is where its entities are, unless one was removed or the two were
merged. -/
def Carries (g : EntityGraph) (survivor : String -> Option String)
    (g' : EntityGraph) : Prop :=
  forall e f t, g.Relates e f t ->
    survivor e = none ∨ survivor f = none ∨
      (e ≠ f ∧ survivor e = survivor f) ∨
      exists e' f', survivor e = some e' ∧ survivor f = some f' ∧
        g'.Relates e' f' t

theorem Carries.trans {g'' : EntityGraph} {first second : String -> Option String}
    (h : Carries g first g') (h' : Carries g' second g'') :
    Carries g (fun e => (first e).bind second) g'' := by
  intro e f t hrel
  dsimp only
  rcases h e f t hrel with hnone | hnone | ⟨hne, hsame⟩ | ⟨e', f', he, hf, hrel'⟩
  · exact Or.inl (by rw [hnone]; rfl)
  · exact Or.inr (Or.inl (by rw [hnone]; rfl))
  · exact Or.inr (Or.inr (Or.inl ⟨hne, by rw [hsame]⟩))
  · rw [he, hf]
    rcases h' e' f' t hrel' with hnone | hnone | ⟨hne, hsame⟩ | hlast
    · exact Or.inl hnone
    · exact Or.inr (Or.inl hnone)
    · refine Or.inr (Or.inr (Or.inl ⟨?_, hsame⟩))
      rintro rfl
      rw [he] at hf
      exact hne (Option.some.inj hf)
    · exact Or.inr (Or.inr (Or.inr hlast))

theorem Grows.carries (h : Grows g.graph g'.graph) :
    Carries g some g' :=
  fun e f _ hrel =>
    Or.inr (Or.inr (Or.inr ⟨e, f, rfl, rfl, h.relates hrel⟩))

/-!
# Operations that add
-/

theorem sprouts_addNode (g : EntityGraph) (name : String) :
    Sprouts g.graph (g.addNode name).graph where
  nodes := ⟨[name], rfl⟩
  edges := rfl

theorem sprouts_ensureNode (h : g'.graph = g.graph) (name : String) :
    Sprouts g.graph (g'.ensureNode name).graph := by
  rw [← h]
  unfold ensureNode
  split
  · exact Sprouts.refl _
  · exact sprouts_addNode g' name

section

variable [CharTables]

theorem indexNames_graph (g : EntityGraph) (name : String) :
    (g.indexNames name).graph = g.graph := by
  unfold indexNames
  split
  · rfl
  · rfl

theorem noteAlias_graph (g : EntityGraph) (name written : String) :
    (g.noteAlias name written).graph = g.graph := by
  unfold noteAlias
  split
  · rfl
  · rfl

theorem sprouts_addOrUpdateEntity (g : EntityGraph) (written : String)
    (entityType : EntityType) (timestamp : Timestamp) (description : String) :
    Sprouts g.graph
      (g.addOrUpdateEntity written entityType timestamp description).graph := by
  unfold EntityGraph.addOrUpdateEntity
  dsimp only
  split
  · refine sprouts_ensureNode ?_ _
    rfl
  · rw [indexNames_graph]
    exact sprouts_addNode _ _

theorem sprouts_getOrCreateNode (g : EntityGraph) (written : String)
    (entityType : EntityType) (timestamp : Timestamp) :
    Sprouts g.graph (g.getOrCreateNode written entityType timestamp).1.graph := by
  unfold EntityGraph.getOrCreateNode
  dsimp only
  split
  · exact Sprouts.refl _
  · split
    · exact sprouts_addOrUpdateEntity g _ _ _ _
    · exact (sprouts_addOrUpdateEntity g _ _ _ _).trans (sprouts_addNode _ _)

theorem advances_addRelationship (now : Timestamp) (g : EntityGraph)
    (r : EntityRelationship) :
    Advances g.graph (addRelationship now g r).graph := by
  have hends := (sprouts_getOrCreateNode g r.fromEntity EntityType.concept
    now).trans (sprouts_getOrCreateNode _ r.toEntity EntityType.concept now)
  unfold addRelationship
  dsimp only
  split
  · exact hends.advances
  · exact hends.advances.trans (putEdge_advances _ _ _ _)

theorem advances_addRelationships (now : Timestamp) (g : EntityGraph)
    (rs : List EntityRelationship) :
    Advances g.graph (rs.foldl (addRelationship now) g).graph :=
  Advances.foldl (advances_addRelationship now) rs g

theorem linkMentions_graph (g : EntityGraph) (update : ContextUpdate) :
    (g.linkMentions update).graph = g.graph := by
  have hfold : forall (xs : List String) (linked : EntityGraph × List String),
      (xs.foldl (linkMention update.id) linked).1.graph = linked.1.graph := by
    intro xs
    induction xs with
    | nil =>
        exact fun _ => rfl
    | cons x rest ih =>
        intro linked
        rw [List.foldl_cons, ih]
        unfold linkMention
        split
        · rfl
        · split
          · rfl
          · rfl
  exact hfold _ (g, [])

theorem advances_applyUpdate (now : Timestamp) (g : EntityGraph)
    (update : ContextUpdate) :
    Advances g.graph (g.applyUpdate now update).graph := by
  have hentities : Advances g.graph (g.addEntities update).graph := by
    unfold addEntities
    split
    · exact Advances.foldl
        (fun g _ => (sprouts_addOrUpdateEntity g _ _ _ _).advances) _ g
    · exact Advances.foldl
        (fun g _ => (sprouts_addOrUpdateEntity g _ _ _ _).advances) _ g
  unfold applyUpdate
  rw [linkMentions_graph]
  exact hentities.trans (advances_addRelationships now _ _)

theorem advances_mergeEntity (g : EntityGraph) (name : String)
    (data : EntityData) :
    Advances g.graph (g.mergeEntity name data).graph := by
  unfold mergeEntity
  refine (sprouts_addOrUpdateEntity g name _ _ _).advances.trans
    (Advances.foldl ?_ data.aliases _)
  intro g a
  rw [noteAlias_graph]
  exact Advances.refl _

theorem advances_mergeFrom (now : Timestamp) (g other : EntityGraph) :
    Advances g.graph (g.mergeFrom now other).graph := by
  unfold mergeFrom
  dsimp only
  have hentity : forall (g : EntityGraph) (x : String × EntityData),
      Advances g.graph (g.mergeEntity x.1 x.2).graph :=
    fun g x => advances_mergeEntity g x.1 x.2
  have hlist : forall (g : EntityGraph) (x : String × List Uuid),
      Advances g.graph (g.mergeMentions x.1 x.2).graph :=
    fun g _ => Advances.refl g.graph
  exact ((Advances.foldl hentity other.entities.toList g).trans
    (Advances.foldl hlist other.entityMentions.toList _)).trans
      (advances_addRelationships now _ _)

end

/-!
# Removing an entity
-/

theorem removeNode_unique {d : DiGraph} (h : Unique d) (a : Nat) :
    Unique (d.removeNode a) := by
  unfold DiGraph.removeNode
  split
  · unfold Unique
    rw [List.map_map]
    have hkept : (d.edges.filter
        (fun e => decide (e.source ≠ a ∧ e.target ≠ a))).Nodup :=
      (List.Nodup.of_map shape h).filter _
    refine hkept.map_on ?_
    intro e he f hf heq
    have hends := of_decide_eq_true (List.mem_filter.mp he).2
    have hends' := of_decide_eq_true (List.mem_filter.mp hf).2
    obtain ⟨hsource, hrest⟩ := Prod.mk.inj heq
    obtain ⟨htarget, htype⟩ := Prod.mk.inj hrest
    have hmoved : forall i j : Nat, i ≠ a -> j ≠ a ->
        (if i = d.nodes.length - 1 then a else i) =
          (if j = d.nodes.length - 1 then a else j) -> i = j := by
      intro i j hi hj hij
      split at hij <;> split at hij <;> omega
    have hshape : shape e = shape f :=
      Prod.ext (hmoved _ _ hends.1 hends'.1 hsource)
        (Prod.ext (hmoved _ _ hends.2 hends'.2 htarget) htype)
    exact List.inj_on_of_nodup_map h (List.mem_filter.mp he).1
      (List.mem_filter.mp hf).1 hshape
  · exact h

theorem removeEntity_unique (h : Unique g.graph) (name : String) :
    Unique (g.removeEntity name).1.graph := by
  cases hnode : g.entityToNode name with
  | none =>
      simp only [EntityGraph.removeEntity, hnode]
      exact h
  | some node =>
      rw [(removeEntity_eq hnode).2.2.1]
      exact removeNode_unique h node

variable {name n : String}

theorem Indexed.removeNode_moved (h : Indexed g) {node : Nat}
    (hnode : g.entityToNode name = some node) (n : String) {k : Nat} (hk : k ≠ node) :
    (g.graph.removeNode node).nodes[
        if k = g.graph.nodes.length - 1 then node else k]? = some n ↔
      g.graph.nodes[k]? = some n ∧ n ≠ name := by
  have hlt := h.lt hnode
  rw [removeNode_mem_iff h hnode, ← h.places]
  constructor
  · rintro ⟨hne, -, hplace⟩
    refine ⟨?_, hne⟩
    by_cases hlast : k = g.graph.nodes.length - 1
    · rw [if_pos hlast] at hplace
      rw [hlast]
      exact (hplace.resolve_right (fun hother => hother.1 rfl)).2
    · rw [if_neg hlast] at hplace
      exact (hplace.resolve_left (fun hsame => hk hsame.1)).2
  · rintro ⟨hplace, hne⟩
    have hbound := h.lt hplace
    refine ⟨hne, ?_⟩
    by_cases hlast : k = g.graph.nodes.length - 1
    · rw [if_pos hlast]
      exact ⟨by omega, Or.inl ⟨rfl, hlast ▸ hplace⟩⟩
    · rw [if_neg hlast]
      exact ⟨by omega, Or.inr ⟨hk, hplace⟩⟩

theorem Indexed.mem_relations_removeEntity (h : Indexed g)
    (hname : name ∈ g.entities) :
    r ∈ (g.removeEntity name).1.relations ↔
      r ∈ g.relations ∧ r.fromEntity ≠ name ∧ r.toEntity ≠ name := by
  obtain ⟨node, hnode, -⟩ := h.node hname
  have hlt := h.lt hnode
  have hapart : forall (n : String) (k : Nat), g.graph.nodes[k]? = some n ->
      n ≠ name -> k ≠ node := by
    rintro n k hk hn rfl
    rw [(h.places name k).mp hnode] at hk
    exact hn (Option.some.inj hk).symm
  simp only [mem_relations, relationRef_some, (removeEntity_eq hnode).2.2.1]
  constructor
  · rintro ⟨e, he, hs, ht, hweight⟩
    simp only [DiGraph.removeNode, hlt, if_true] at he
    obtain ⟨old, hold, rfl⟩ := List.mem_map.mp he
    obtain ⟨hold, hends⟩ := List.mem_filter.mp hold
    obtain ⟨hsource, htarget⟩ := of_decide_eq_true hends
    obtain ⟨hs, hfrom⟩ := (h.removeNode_moved hnode _ hsource).mp hs
    obtain ⟨ht, hto⟩ := (h.removeNode_moved hnode _ htarget).mp ht
    exact ⟨⟨old, hold, hs, ht, hweight⟩, hfrom, hto⟩
  · rintro ⟨⟨old, hold, hs, ht, hweight⟩, hfrom, hto⟩
    have hsource := hapart _ _ hs hfrom
    have htarget := hapart _ _ ht hto
    refine ⟨⟨if old.source = g.graph.nodes.length - 1 then node else old.source,
      if old.target = g.graph.nodes.length - 1 then node else old.target, old.weight⟩,
      ?_, (h.removeNode_moved hnode _ hsource).mpr ⟨hs, hfrom⟩,
      (h.removeNode_moved hnode _ htarget).mpr ⟨ht, hto⟩, hweight⟩
    simp only [DiGraph.removeNode, hlt, if_true]
    exact List.mem_map.mpr ⟨old, List.mem_filter.mpr
      ⟨hold, decide_eq_true ⟨hsource, htarget⟩⟩, rfl⟩

theorem Indexed.relates_mem (h : Indexed g) (hrel : g.Relates e f t) :
    e ∈ g.entities ∧ f ∈ g.entities := by
  obtain ⟨i, j, -, he, hf⟩ := hrel
  exact ⟨(h.stored e).mp (List.mem_of_getElem? he),
    (h.stored f).mp (List.mem_of_getElem? hf)⟩

theorem Indexed.relates_removeEntity (h : Indexed g) :
    (g.removeEntity name).1.Relates e f t ↔ g.Relates e f t ∧ e ≠ name ∧ f ≠ name := by
  by_cases hname : name ∈ g.entities
  · simp only [relates_iff, h.mem_relations_removeEntity hname]
    constructor
    · rintro ⟨r, ⟨hr, hfrom, hto⟩, hkey⟩
      cases hkey
      exact ⟨⟨r, hr, rfl⟩, hfrom, hto⟩
    · rintro ⟨⟨r, hr, hkey⟩, he, hf⟩
      cases hkey
      exact ⟨r, ⟨hr, he, hf⟩, rfl⟩
  · have hnode : g.entityToNode name = none := by
      cases hnode : g.entityToNode name with
      | none => rfl
      | some node =>
          have hat := (h.places name node).mp hnode
          exact absurd ((h.stored name).mp (List.mem_of_getElem? hat)) hname
    have hsame : (g.removeEntity name).1 = g := by
      simp only [EntityGraph.removeEntity, hnode]
    rw [hsame]
    refine iff_self_and.mpr fun hrel => ?_
    obtain ⟨he, hf⟩ := h.relates_mem hrel
    exact ⟨fun heq => hname (heq ▸ he), fun heq => hname (heq ▸ hf)⟩

theorem Indexed.mem_relationshipsOf (h : Indexed g) :
    r ∈ g.relationshipsOf n ↔
      r ∈ g.relations ∧ (r.fromEntity = n ∨ r.toEntity = n) := by
  unfold relationshipsOf
  cases hnode : g.entityToNode n with
  | none =>
      refine iff_of_false List.not_mem_nil ?_
      rintro ⟨hr, hend⟩
      obtain ⟨e, -, href⟩ := mem_relations.mp hr
      obtain ⟨hs, ht, -⟩ := relationRef_some.mp href
      rcases hend with rfl | rfl
      · rw [(h.places _ _).mpr hs] at hnode
        cases hnode
      · rw [(h.places _ _).mpr ht] at hnode
        cases hnode
  | some node =>
      have hends : forall (m : String) (k : Nat), g.graph.nodes[k]? = some m ->
          (k = node ↔ m = n) := by
        intro m k hk
        have hplace := (h.places m k).mpr hk
        constructor
        · rintro rfl
          rw [(h.places n k).mp hnode] at hk
          exact (Option.some.inj hk).symm
        · rintro rfl
          exact Option.some.inj (hplace.symm.trans hnode)
      simp only [mem_relations, List.mem_filterMap, List.mem_append, List.mem_filter,
        decide_eq_true_iff]
      constructor
      · rintro ⟨e, he, href⟩
        obtain ⟨hs, ht, -⟩ := relationRef_some.mp href
        rw [← hends _ _ hs, ← hends _ _ ht]
        rcases he with ⟨he, hsource⟩ | ⟨he, htarget, -⟩
        · exact ⟨⟨e, he, href⟩, Or.inl hsource⟩
        · exact ⟨⟨e, he, href⟩, Or.inr htarget⟩
      · rintro ⟨⟨e, he, href⟩, hend⟩
        obtain ⟨hs, ht, -⟩ := relationRef_some.mp href
        rw [← hends _ _ hs, ← hends _ _ ht] at hend
        refine ⟨e, ?_, href⟩
        by_cases hsource : e.source = node
        · exact Or.inl ⟨he, hsource⟩
        · exact Or.inr ⟨he, hend.resolve_left hsource, hsource⟩

theorem Indexed.relates_of_listed (h : Indexed g) (hr : r ∈ g.relationshipsOf n) :
    g.Relates r.fromEntity r.toEntity r.relationType :=
  relates_iff.mpr ⟨r, (h.mem_relationshipsOf.mp hr).1, rfl⟩

theorem removeEntity_mem (hn : n ∈ g.entities) (hne : n ≠ name) :
    n ∈ (g.removeEntity name).1.entities := by
  cases hnode : g.entityToNode name with
  | none =>
      simp only [EntityGraph.removeEntity, hnode]
      exact hn
  | some node =>
      rw [(removeEntity_eq hnode).1, Std.ExtTreeMap.mem_erase]
      refine ⟨?_, hn⟩
      intro heq
      exact hne (Std.compare_eq_iff_eq.mp heq).symm

/-!
# Merging entities
-/

section

variable [CharTables]

variable {written : String}

theorem Indexed.getOrCreateNode_known (h : Indexed g)
    (hn : g.resolve written = some n) (entityType : EntityType)
    (timestamp : Timestamp) :
    exists i, g.getOrCreateNode written entityType timestamp = (g, i) ∧
      g.graph.nodes[i]? = some n := by
  obtain ⟨i, hi, -⟩ := h.node (h.resolve hn)
  refine ⟨i, ?_, (h.places n i).mp hi⟩
  unfold EntityGraph.getOrCreateNode
  rw [hn, Option.getD_some]
  dsimp only
  rw [hi]

theorem resolve_stored (hn : n ∈ g.entities) :
    g.resolve n = some n := by
  rw [EntityGraph.resolve, if_pos hn]

theorem Indexed.addRelationship_known (h : Indexed g) (now : Timestamp)
    (hfrom : g.resolve r.fromEntity = some e) (hto : g.resolve r.toEntity = some f) :
    exists i j, g.graph.nodes[i]? = some e ∧ g.graph.nodes[j]? = some f ∧
      EntityGraph.addRelationship now g r =
        if e = f ∧ r.fromEntity ≠ r.toEntity then g
        else { g with
          graph := g.graph.putEdge i j ⟨r.relationType, r.context⟩ } := by
  obtain ⟨i, hi, hiAt⟩ := h.getOrCreateNode_known hfrom EntityType.concept now
  obtain ⟨j, hj, hjAt⟩ := h.getOrCreateNode_known hto EntityType.concept now
  have hsame : i = j ↔ e = f := by
    constructor
    · rintro rfl
      rw [hiAt] at hjAt
      exact Option.some.inj hjAt
    · rintro rfl
      exact (List.getElem?_inj (List.getElem?_eq_some_iff.mp hiAt).1 h.nodup).mp
        (hiAt.trans hjAt.symm)
  refine ⟨i, j, hiAt, hjAt, ?_⟩
  simp only [EntityGraph.addRelationship, hi, hj, hsame]

theorem Indexed.addRelationship_relates (h : Indexed g) (now : Timestamp)
    (hfrom : r.fromEntity ∈ g.entities) (hto : r.toEntity ∈ g.entities) :
    (EntityGraph.addRelationship now g r).Relates r.fromEntity r.toEntity
      r.relationType := by
  obtain ⟨i, j, hi, hj, hgraph⟩ :=
    h.addRelationship_known now (resolve_stored hfrom) (resolve_stored hto)
  rw [hgraph, if_neg (fun hspelt => hspelt.2 hspelt.1)]
  refine ⟨i, j, mem_putEdge.mpr (Or.inr rfl), ?_, ?_⟩
  · exact (congrArg (fun nodes => nodes[i]?) (putEdge_nodes _ _ _ _)).trans hi
  · exact (congrArg (fun nodes => nodes[j]?) (putEdge_nodes _ _ _ _)).trans hj

theorem Indexed.addRelationships_relates (h : Indexed g) (now : Timestamp)
    {rs : List EntityRelationship} (hr : r ∈ rs) (hfrom : r.fromEntity ∈ g.entities)
    (hto : r.toEntity ∈ g.entities) :
    (rs.foldl (EntityGraph.addRelationship now) g).Relates r.fromEntity r.toEntity
      r.relationType := by
  induction rs generalizing g with
  | nil =>
      cases hr
  | cons s rest ih =>
      have hstored : forall n, n ∈ g.entities ->
          n ∈ (EntityGraph.addRelationship now g s).entities :=
        fun n hn => (extends_addRelationship now g s).mem hn
      rcases List.mem_cons.mp hr with rfl | hrest
      · exact (advances_addRelationships now _ rest).grows.relates
          (h.addRelationship_relates now hfrom hto)
      · exact ih (h.addRelationship now s) hrest (hstored _ hfrom) (hstored _ hto)

def folded (g : EntityGraph) (written target e : String) : String :=
  match g.resolve written, g.resolve target with
  | some gone, some into => if e = gone then into else e
  | _, _ => e

/-- The surviving entity has the relations to itself that the merged one has. -/
def KeepsLoops (g : EntityGraph) (written target : String) : Prop :=
  forall gone into, g.resolve written = some gone ->
    g.resolve target = some into -> gone ≠ into ->
    forall t, g.Relates gone gone t -> g.Relates into into t

theorem Indexed.mergeResolved_carries (h : Indexed g) {gone into : String}
    (hinto : into ∈ g.entities) (hne : gone ≠ into)
    (hloops : forall t, g.Relates gone gone t -> g.Relates into into t)
    (goneData : EntityData) (now : Timestamp) :
    Carries g (fun e => some (if e = gone then into else e))
      (g.mergeResolved now gone into goneData) := by
  have hmerged : Indexed (g.absorbed gone into goneData) := h.absorbed goneData
  have hgraph : (g.absorbed gone into goneData).graph =
      (g.removeEntity gone).1.graph := rfl
  have hentities : forall n, n ∈ (g.removeEntity gone).1.entities ->
      n ∈ (g.absorbed gone into goneData).entities :=
    fun n hn => mem_absorbed goneData hn
  rw [mergeResolved_eq]
  generalize g.absorbed gone into goneData = merged at *
  have hkept : forall e f t, g.Relates e f t -> e ≠ gone -> f ≠ gone ->
      (((g.relationshipsOf gone).filterMap (redirect gone into)).foldl
        (EntityGraph.addRelationship now) merged).Relates e f t := by
    intro e f t hrel he hf
    have hremoved := h.relates_removeEntity.mpr ⟨hrel, he, hf⟩
    refine (advances_addRelationships now merged _).grows.relates ?_
    unfold Relates
    rw [hgraph]
    exact hremoved
  have hstored : forall n, n ∈ g.entities -> n ≠ gone -> n ∈ merged.entities :=
    fun n hn hngone => hentities n (removeEntity_mem hn hngone)
  have hmoved : forall e f t, g.Relates e f t -> e = gone ∨ f = gone ->
      (if e = gone then into else e) ≠ (if f = gone then into else f) ->
      (((g.relationshipsOf gone).filterMap (redirect gone into)).foldl
        (EntityGraph.addRelationship now) merged).Relates
          (if e = gone then into else e) (if f = gone then into else f) t := by
    intro e f t hrel hend hdiffer
    obtain ⟨r, hmem, hkey⟩ := relates_iff.mp hrel
    obtain ⟨hfrom, hrest⟩ := Prod.mk.inj hkey
    obtain ⟨hto, htype⟩ := Prod.mk.inj hrest
    have hends : forall n, n ∈ g.entities ->
        (if n = gone then into else n) ∈ merged.entities := by
      intro n hn
      split
      · exact hstored into hinto (Ne.symm hne)
      · next hngone => exact hstored n hn hngone
    obtain ⟨he, hf⟩ := h.relates_mem hrel
    subst hfrom hto htype
    have hr := h.mem_relationshipsOf.mpr ⟨hmem, hend⟩
    refine hmerged.addRelationships_relates now (r :=
      { r with
        fromEntity := if r.fromEntity = gone then into else r.fromEntity
        toEntity := if r.toEntity = gone then into else r.toEntity })
      (List.mem_filterMap.mpr ⟨r, hr, if_neg hdiffer⟩) (hends _ he) (hends _ hf)
  intro e f t hrel
  by_cases hsame : (if e = gone then into else e) = if f = gone then into else f
  · by_cases hloop : e = f
    · subst hloop
      refine Or.inr (Or.inr (Or.inr ⟨_, _, rfl, rfl, ?_⟩))
      split
      · next hgone =>
        subst hgone
        exact hkept _ _ _ (hloops t hrel) (Ne.symm hne) (Ne.symm hne)
      · next hother => exact hkept _ _ _ hrel hother hother
    · exact Or.inr (Or.inr (Or.inl ⟨hloop, congrArg some hsame⟩))
  · refine Or.inr (Or.inr (Or.inr ⟨_, _, rfl, rfl, ?_⟩))
    by_cases hend : e = gone ∨ f = gone
    · exact hmoved e f t hrel hend hsame
    · rw [not_or] at hend
      rw [if_neg hend.1, if_neg hend.2]
      exact hkept e f t hrel hend.1 hend.2

theorem Indexed.mergeEntities_carries (h : Indexed g) {target : String}
    (hloops : g.KeepsLoops written target) (now : Timestamp) :
    Carries g (fun e => some (g.folded written target e))
      (g.mergeEntities now written target).1 := by
  unfold EntityGraph.mergeEntities folded
  cases hgone : g.resolve written with
  | none =>
      exact (Grows.refl g.graph).carries
  | some gone =>
      cases hinto : g.resolve target with
      | none =>
          exact (Grows.refl g.graph).carries
      | some into =>
          dsimp only
          by_cases hsame : gone = into
          · rw [if_pos hsame]
            have hstay : (fun e => some (if e = gone then into else e)) = some := by
              funext e
              split
              · next he => rw [he, hsame]
              · rfl
            rw [hstay]
            exact (Grows.refl g.graph).carries
          · rw [if_neg hsame]
            obtain ⟨d, hd⟩ := mem_entities.mp (h.resolve hgone)
            rw [hd]
            exact h.mergeResolved_carries (h.resolve hinto) hsame
              (hloops gone into hgone hinto hsame) d now

theorem mergeEntities_unique (now : Timestamp) (h : Unique g.graph)
    (written target : String) :
    Unique (g.mergeEntities now written target).1.graph := by
  rcases mergeEntities_cases now g written target with
    heq | ⟨gone, into, goneData, _, _, _, _, heq⟩
  · rw [heq]
    exact h
  · rw [heq]
    exact (advances_addRelationships now _ _).unique (removeEntity_unique h _)

/-!
# Adding a relation again
-/

def recontext (g : EntityGraph) (key : String × String × RelationType)
    (context : String) : EntityGraph :=
  { g with
    graph :=
      { g.graph with
        edges := g.graph.edges.map (fun x =>
          if place g.graph.nodes (shape x) = some key then
            { x with weight := { x.weight with context := context } }
          else x) } }

/-- A relation that is there gets the new context, and nothing else changes; two
spellings of one entity are no relation. -/
theorem Indexed.addRelationship_again (h : Indexed g) (hunique : Unique g.graph)
    (now : Timestamp) (hfrom : g.resolve r.fromEntity = some e)
    (hto : g.resolve r.toEntity = some f) (hrel : g.Relates e f r.relationType) :
    EntityGraph.addRelationship now g r =
      if e = f ∧ r.fromEntity ≠ r.toEntity then g
      else g.recontext (e, f, r.relationType) r.context := by
  obtain ⟨i, j, hi, hj, hgraph⟩ := h.addRelationship_known now hfrom hto
  rw [hgraph]
  congr 1
  have hindex : forall {n : String} {k l : Nat}, g.graph.nodes[k]? = some n ->
      g.graph.nodes[l]? = some n -> k = l := by
    intro n k l hk hl
    exact (List.getElem?_inj (List.getElem?_eq_some_iff.mp hk).1 h.nodup).mp
      (hk.trans hl.symm)
  obtain ⟨i', j', hmem, hi', hj'⟩ := hrel
  rw [hindex hi' hi, hindex hj' hj] at hmem
  have hplace : forall x : Edge, shape x = (i, j, r.relationType) ↔
      place g.graph.nodes (shape x) = some (e, f, r.relationType) := by
    intro x
    rw [place_some]
    constructor
    · intro hx
      rw [hx]
      exact ⟨hi, hj, rfl⟩
    · rintro ⟨hxi, hxj, hxt⟩
      exact Prod.ext (hindex hxi hi) (Prod.ext (hindex hxj hj) hxt)
  have hedges : (g.graph.putEdge i j ⟨r.relationType, r.context⟩).edges =
      (g.recontext (e, f, r.relationType) r.context).graph.edges := by
    rw [putEdge_known hunique hmem]
    refine List.map_congr_left ?_
    intro x _
    dsimp only
    by_cases hx : shape x = (i, j, r.relationType)
    · rw [if_pos hx, if_pos ((hplace x).mp hx)]
      have htype : x.weight.relationType = r.relationType :=
        congrArg (fun s => s.2.2) hx
      rw [← htype]
    · rw [if_neg hx, if_neg (fun hx' => hx ((hplace x).mpr hx'))]
  rw [putEdge_eq, hedges]
  rfl

/-!
# Reloading
-/

def mergeEach (now : Timestamp) (g : EntityGraph) (merges : List (String × String)) :
    EntityGraph :=
  merges.foldl (fun g merge => (g.mergeEntities now merge.1 merge.2).1) g

def foldedEach (now : Timestamp) (g : EntityGraph) (e : String) :
    List (String × String) -> String
  | [] => e
  | merge :: rest =>
      (g.mergeEntities now merge.1 merge.2).1.foldedEach now
        (g.folded merge.1 merge.2 e) rest

def KeepsLoopsEach (now : Timestamp) (g : EntityGraph) :
    List (String × String) -> Prop
  | [] => True
  | merge :: rest =>
      g.KeepsLoops merge.1 merge.2 ∧
        (g.mergeEntities now merge.1 merge.2).1.KeepsLoopsEach now rest

def indexedAgain (g : EntityGraph) : EntityGraph :=
  { unindexed g.serialize with aliasIndex := (unindexed g.serialize).claimed.1 }

def reloadMerges (g : EntityGraph) : List (String × String) :=
  (unindexed g.serialize).claimed.2

theorem reload_eq_merges (now : Timestamp) (g : EntityGraph) :
    g.reload now = g.indexedAgain.mergeEach now g.reloadMerges :=
  rfl

theorem Indexed.mergeEach (h : Indexed g) (now : Timestamp)
    {merges : List (String × String)} (hloops : g.KeepsLoopsEach now merges) :
    Carries g (fun e => some (g.foldedEach now e merges))
      (g.mergeEach now merges) := by
  induction merges generalizing g with
  | nil =>
      exact (Grows.refl g.graph).carries
  | cons merge rest ih =>
      exact (h.mergeEntities_carries hloops.1 now).trans
        (ih (h.mergeEntities now merge.1 merge.2) hloops.2)

theorem mergeEach_unique (now : Timestamp) (h : Unique g.graph)
    (merges : List (String × String)) :
    Unique (g.mergeEach now merges).graph := by
  induction merges generalizing g with
  | nil =>
      exact h
  | cons merge rest ih =>
      exact ih (mergeEntities_unique now h merge.1 merge.2)

theorem Indexed.reload_unique (h : Indexed g) (hunique : Unique g.graph)
    (now : Timestamp) :
    Unique (g.reload now).graph := by
  have hkeys := (unindexed_relationKeys g).nodup_iff.mpr (h.unique_iff.mpr hunique)
  have hagain : Unique g.indexedAgain.graph := h.unindexed.unique_iff.mp hkeys
  rw [reload_eq_merges]
  exact mergeEach_unique now hagain _

theorem Indexed.reload_carries (h : Indexed g) (now : Timestamp)
    (hloops : g.indexedAgain.KeepsLoopsEach now g.reloadMerges) :
    Carries g (fun e => some (g.indexedAgain.foldedEach now e g.reloadMerges))
      (g.reload now) := by
  have hsame : Carries g some g.indexedAgain := by
    intro e f t hrel
    refine Or.inr (Or.inr (Or.inr ⟨e, f, rfl, rfl, ?_⟩))
    have hmem := (unindexed_relationKeys g).mem_iff.mpr (mem_relationKeys.mpr hrel)
    exact mem_relationKeys.mp hmem
  rw [reload_eq_merges]
  exact hsame.trans (h.unindexed.claimed.mergeEach now hloops)

/-!
# Runs
-/

/-- The operations that add, move and remove relations. -/
inductive RelationOp where
  | addRelationship (relationship : EntityRelationship)
  | mergeEntities (written target : String)
  | removeEntity (name : String)
  | mergeFrom (other : EntityGraph)
  | applyUpdate (update : ContextUpdate)
  | reload

def RelationOp.op : RelationOp -> GraphOp
  | addRelationship relationship => GraphOp.addRelationship relationship
  | mergeEntities written target => GraphOp.mergeEntities written target
  | removeEntity name => GraphOp.removeEntity name
  | mergeFrom other => GraphOp.mergeFrom other
  | applyUpdate update => GraphOp.applyUpdate update
  | reload => GraphOp.reload

def survivor (now : Timestamp) (g : EntityGraph) (op : RelationOp) (e : String) :
    Option String :=
  match op with
  | RelationOp.mergeEntities written target => some (g.folded written target e)
  | RelationOp.removeEntity name => if e = name then none else some e
  | RelationOp.reload =>
      some (g.indexedAgain.foldedEach now e g.reloadMerges)
  | _ => some e

/-- No merge folds away an entity with a relation to itself that the surviving
entity does not have. -/
def NoLoopLost (now : Timestamp) (g : EntityGraph) : RelationOp -> Prop
  | RelationOp.mergeEntities written target => g.KeepsLoops written target
  | RelationOp.reload => g.indexedAgain.KeepsLoopsEach now g.reloadMerges
  | _ => True

theorem Indexed.carries (h : Indexed g) (now : Timestamp) {op : RelationOp}
    (hop : NoLoopLost now g op) :
    Carries g (survivor now g op) (op.op.apply now g) := by
  cases op with
  | addRelationship relationship =>
      exact (advances_addRelationship now g relationship).grows.carries
  | mergeEntities written target => exact h.mergeEntities_carries hop now
  | removeEntity name =>
      intro e f t hrel
      dsimp only [survivor]
      by_cases he : e = name
      · exact Or.inl (if_pos he)
      · by_cases hf : f = name
        · exact Or.inr (Or.inl (if_pos hf))
        · exact Or.inr (Or.inr (Or.inr ⟨e, f, if_neg he, if_neg hf,
            h.relates_removeEntity.mpr ⟨hrel, he, hf⟩⟩))
  | mergeFrom other => exact (advances_mergeFrom now g other).grows.carries
  | applyUpdate update => exact (advances_applyUpdate now g update).grows.carries
  | reload => exact h.reload_carries now hop

theorem Indexed.apply_unique (h : Indexed g) (hunique : Unique g.graph)
    (now : Timestamp) (op : RelationOp) :
    Unique (op.op.apply now g).graph := by
  cases op with
  | addRelationship relationship =>
      exact (advances_addRelationship now g relationship).unique hunique
  | mergeEntities written target =>
      exact mergeEntities_unique now hunique written target
  | removeEntity name => exact removeEntity_unique hunique name
  | mergeFrom other => exact (advances_mergeFrom now g other).unique hunique
  | applyUpdate update =>
      exact (advances_applyUpdate now g update).unique hunique
  | reload => exact h.reload_unique hunique now

/-- The graphs any sequence of these operations makes of the empty one. -/
inductive Reached : EntityGraph -> Prop where
  | new : Reached new
  | step {g : EntityGraph} (now : Timestamp) (op : RelationOp) :
      Reached g -> Reached (op.op.apply now g)

/-- A run from one graph to another, and where the entities went in it. -/
inductive Traced (allowed : Timestamp -> EntityGraph -> RelationOp -> Prop)
    (g : EntityGraph) : (String -> Option String) -> EntityGraph -> Prop where
  | refl : Traced allowed g some g
  | step {moved : String -> Option String} {g' : EntityGraph} (now : Timestamp)
      (op : RelationOp) :
      Traced allowed g moved g' -> allowed now g' op ->
      Traced allowed g (fun e => (moved e).bind (survivor now g' op))
        (op.op.apply now g')

theorem Reached.indexed (h : Reached g) :
    Indexed g := by
  induction h with
  | new =>
      exact indexed_new
  | step now op _ ih =>
      exact ih.apply now op.op

theorem Reached.unique (h : Reached g) :
    Unique g.graph := by
  induction h with
  | new =>
      exact List.nodup_nil
  | step now op hreached ih =>
      exact hreached.indexed.apply_unique ih now op

theorem Indexed.traced (h : Indexed g) {moved : String -> Option String}
    (hrun : Traced NoLoopLost g moved g') :
    Indexed g' ∧ Carries g moved g' := by
  induction hrun with
  | refl =>
      exact ⟨h, (Grows.refl g.graph).carries⟩
  | step now op _ hop ih =>
      exact ⟨ih.1.apply now op.op, ih.2.trans (ih.1.carries now hop)⟩

/-- In every reached graph a relation triple has one edge, adding it again changes
its context only, and in a run whose merges lose no relation of an entity to
itself a relation stays until an entity of it is removed or its two entities are
merged. -/
theorem relations_kept {g : EntityGraph} (h : Reached g) :
    g.relationKeys.Nodup ∧
    (forall now r e f, g.resolve r.fromEntity = some e ->
      g.resolve r.toEntity = some f -> g.Relates e f r.relationType ->
      addRelationship now g r =
        if e = f ∧ r.fromEntity ≠ r.toEntity then g
        else g.recontext (e, f, r.relationType) r.context) ∧
    forall moved g', Traced NoLoopLost g moved g' -> Carries g moved g' :=
  ⟨h.indexed.unique_iff.mpr h.unique,
    fun now _ _ _ hfrom hto hrel =>
      h.indexed.addRelationship_again h.unique now hfrom hto hrel,
    fun _ _ hrun => (h.indexed.traced hrun).2⟩

end

/-!
# A relation of an entity to itself
-/

attribute [local instance] asciiTables

def linkedGraph : EntityGraph :=
  addRelationship 1
    (addRelationship 0 new ⟨"redis", "kafka", RelationType.relatedTo, "queue"⟩)
    ⟨"cache", "kafka", RelationType.dependsOn, "events"⟩

theorem linkedGraph_reached : Reached linkedGraph :=
  (Reached.new.step 0 (RelationOp.addRelationship
    ⟨"redis", "kafka", RelationType.relatedTo, "queue"⟩)).step 1
      (RelationOp.addRelationship
        ⟨"cache", "kafka", RelationType.dependsOn, "events"⟩)

/-- Added again the relation has the new context; after the merge the other
entity has the relation. -/
theorem relations_kept_linked :
    linkedGraph.relationKeys.Nodup ∧
    addRelationship 2 linkedGraph
        ⟨"Redis", "kafka", RelationType.relatedTo, "stream"⟩ =
      linkedGraph.recontext ("redis", "kafka", RelationType.relatedTo) "stream" ∧
    exists e' f', survivor 2 linkedGraph
          (RelationOp.mergeEntities "cache" "redis") "cache" = some e' ∧
      survivor 2 linkedGraph
          (RelationOp.mergeEntities "cache" "redis") "kafka" = some f' ∧
      (linkedGraph.mergeEntities 2 "cache" "redis").1.Relates e' f'
        RelationType.dependsOn := by
  obtain ⟨hunique, hagain, hkept⟩ := relations_kept linkedGraph_reached
  have hkeys : linkedGraph.relationKeys =
      [("redis", "kafka", RelationType.relatedTo),
        ("cache", "kafka", RelationType.dependsOn)] := by
    decide +kernel
  have hgone : linkedGraph.resolve "cache" = some "cache" := by decide +kernel
  have hloops : NoLoopLost 2 linkedGraph
      (RelationOp.mergeEntities "cache" "redis") := by
    intro gone into hgone' _ _ t hloop
    rw [hgone] at hgone'
    cases hgone'
    rw [← mem_relationKeys, hkeys] at hloop
    simp at hloop
  have hrel : linkedGraph.Relates "cache" "kafka" RelationType.dependsOn := by
    rw [← mem_relationKeys, hkeys]
    decide
  refine ⟨hunique, ?_, ?_⟩
  · have hqueue : linkedGraph.Relates "redis" "kafka" RelationType.relatedTo := by
      rw [← mem_relationKeys, hkeys]
      decide
    exact hagain 2 ⟨"Redis", "kafka", RelationType.relatedTo, "stream"⟩
      "redis" "kafka" (by decide +kernel) (by decide +kernel) hqueue
  · rcases hkept _ _ (Traced.refl.step 2 _ hloops) "cache" "kafka" _ hrel with
      hnone | hnone | ⟨-, hsame⟩ | hmoved
    · exact absurd hnone (by decide +kernel)
    · exact absurd hnone (by decide +kernel)
    · exact absurd hsame (by decide +kernel)
    · exact hmoved

def replication : ContextUpdate :=
  { ContextUpdate.plain 1 0 "redis replicates itself" with
    createsEntities := ["cache", "redis"]
    createsRelationships :=
      [⟨"redis", "redis", RelationType.dependsOn, "replication"⟩] }

/-- Merging an entity with a relation to itself loses the relation: neither end
was removed, and no two ends were merged. -/
theorem merge_loses_own_relation :
    exists g, Reached g ∧ g.Relates "redis" "redis" RelationType.dependsOn ∧
      survivor 1 g (RelationOp.mergeEntities "redis" "cache") "redis" =
        some "cache" ∧
      (g.mergeEntities 1 "redis" "cache").1.relationKeys = [] ∧
      ¬ Carries g (survivor 1 g (RelationOp.mergeEntities "redis" "cache"))
        (g.mergeEntities 1 "redis" "cache").1 := by
  have hrel : (new.applyUpdate 0 replication).Relates "redis" "redis"
      RelationType.dependsOn := by
    rw [← mem_relationKeys]
    decide +kernel
  have hmoved : survivor 1 (new.applyUpdate 0 replication)
      (RelationOp.mergeEntities "redis" "cache") "redis" = some "cache" := by
    decide +kernel
  have hlost : ((new.applyUpdate 0 replication).mergeEntities 1 "redis"
      "cache").1.relationKeys = [] := by
    decide +kernel
  refine ⟨new.applyUpdate 0 replication,
    Reached.new.step 0 (RelationOp.applyUpdate replication), hrel, hmoved, hlost, ?_⟩
  intro hcarries
  rcases hcarries _ _ _ hrel with hnone | hnone | ⟨hne, -⟩ | ⟨e, f, -, -, hkept⟩
  · rw [hmoved] at hnone
    cases hnone
  · rw [hmoved] at hnone
    cases hnone
  · exact hne rfl
  · rw [← mem_relationKeys, hlost] at hkept
    cases hkept

end EntityGraph
end Graph
end PostCortex
