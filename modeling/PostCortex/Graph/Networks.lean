import PostCortex.Graph.Neighbours
import PostCortex.KeyValue.Database
import PostCortex.Search.Exploration

/-!
# Entity networks

The part of an entity graph around one entity, as `get_entity_network` and
`get_entity_network_bounded` of `graph/entity_graph.rs` read it: the first walks the
edges of the nodes, outgoing before incoming, the second the relations of the
entities, under limits.
-/

namespace PostCortex
namespace Graph

open PostCortex.Core
open PostCortex.Search

structure EntityNetwork where
  center : String
  entities : Std.ExtTreeMap String EntityData
  relationships : List EntityRelationship

namespace EntityNetwork

def empty (center : String) : EntityNetwork where
  center := center
  entities := ∅
  relationships := []

def withEntity (network : EntityNetwork) (name : String) (data : EntityData) :
    EntityNetwork :=
  { network with entities := network.entities.insert name data }

def withRelationship (network : EntityNetwork) (r : EntityRelationship) :
    EntityNetwork :=
  { network with relationships := network.relationships ++ [r] }

end EntityNetwork

structure NodeWalk where
  network : EntityNetwork
  visited : List Nat
  queue : List (Nat × Nat)
  seen : List (String × String × RelationType)

/-- The state of `get_entity_network_bounded`. -/
structure NameWalk where
  network : EntityNetwork
  visited : List String
  queue : List (String × Nat)
  seen : List (String × String × RelationType)

namespace EntityGraph

/-!
# The whole network
-/

def addNetworkEntity (g : EntityGraph) (network : EntityNetwork) (node : Nat) :
    EntityNetwork :=
  match g.nodeToEntity node with
  | none => network
  | some name =>
      match g.entities[name]? with
      | none => network
      | some data => network.withEntity name data

def visitNode (g : EntityGraph) (depth : Nat) (w : NodeWalk) (node : Nat) : NodeWalk :=
  if node ∈ w.visited then w
  else
    { w with
      network := g.addNetworkEntity w.network node
      visited := node :: w.visited
      queue := w.queue ++ [(node, depth + 1)] }

def addNetworkEdge (g : EntityGraph) (w : NodeWalk) (source target : Nat)
    (weight : EdgeData) : NodeWalk :=
  match g.nodeToEntity source, g.nodeToEntity target with
  | some fromName, some toName =>
      if fromName ∈ w.network.entities ∧ toName ∈ w.network.entities ∧
          (fromName, toName, weight.relationType) ∉ w.seen then
        { w with
          network :=
            w.network.withRelationship
              ⟨fromName, toName, weight.relationType, weight.context⟩
          seen := (fromName, toName, weight.relationType) :: w.seen }
      else w
  | _, _ => w

def followOutgoing (g : EntityGraph) (current depth : Nat) (w : NodeWalk) (e : Edge) :
    NodeWalk :=
  g.addNetworkEdge (g.visitNode depth w e.target) current e.target e.weight

def followIncoming (g : EntityGraph) (current depth : Nat) (w : NodeWalk) (e : Edge) :
    NodeWalk :=
  g.addNetworkEdge (g.visitNode depth w e.source) e.source current e.weight

def outgoing (g : EntityGraph) (node : Nat) : List Edge :=
  g.graph.edges.filter (fun e => decide (e.source = node))

def incoming (g : EntityGraph) (node : Nat) : List Edge :=
  g.graph.edges.filter (fun e => decide (e.target = node))

def followNode (g : EntityGraph) (current depth : Nat) (w : NodeWalk) : NodeWalk :=
  (g.incoming current).foldl (g.followIncoming current depth)
    ((g.outgoing current).foldl (g.followOutgoing current depth) w)

def networkRounds (g : EntityGraph) (maxDepth : Nat) :
    Nat -> NodeWalk -> Option EntityNetwork
  | 0, w => if w.queue = [] then some w.network else none
  | fuel + 1, w =>
      match w.queue with
      | [] => some w.network
      | (current, depth) :: rest =>
          if maxDepth ≤ depth then
            networkRounds g maxDepth fuel { w with queue := rest }
          else
            networkRounds g maxDepth fuel
              (g.followNode current depth { w with queue := rest })

def getEntityNetwork (g : EntityGraph) (centerEntity : String) (maxDepth : Nat) :
    Option EntityNetwork :=
  let network := EntityNetwork.empty centerEntity
  match g.entityToNode centerEntity with
  | none => some network
  | some startNode =>
      networkRounds g maxDepth g.graph.nodes.length
        (match g.entities[centerEntity]? with
        | none => ⟨network, [], [], []⟩
        | some entity =>
            ⟨network.withEntity centerEntity entity, [startNode], [(startNode, 0)], []⟩)

/-!
# The network under limits
-/

def includeEntity (g : EntityGraph) (maxEntities depth : Nat) (w : NameWalk)
    (other : String) : NameWalk :=
  if w.network.entities.size < maxEntities ∧ other ∉ w.visited then
    match g.entities[other]? with
    | none => w
    | some data =>
        { w with
          network := w.network.withEntity other data
          visited := other :: w.visited
          queue := w.queue ++ [(other, depth + 1)] }
  else w

def includeRelationship (maxRelationships : Nat) (w : NameWalk)
    (rel : EntityRelationship) : NameWalk :=
  if w.network.relationships.length < maxRelationships ∧
      rel.fromEntity ∈ w.network.entities ∧ rel.toEntity ∈ w.network.entities ∧
      relationKey rel ∉ w.seen then
    { w with
      network := w.network.withRelationship rel
      seen := relationKey rel :: w.seen }
  else w

def followRelation (g : EntityGraph) (maxEntities maxRelationships : Nat)
    (name : String) (depth : Nat) (w : NameWalk) (rel : EntityRelationship) : NameWalk :=
  includeRelationship maxRelationships
    (g.includeEntity maxEntities depth w (otherEnd name rel)) rel

def boundedRounds (g : EntityGraph) (maxDepth maxEntities maxRelationships : Nat) :
    Nat -> NameWalk -> Option EntityNetwork
  | 0, w => if w.queue = [] then some w.network else none
  | fuel + 1, w =>
      match w.queue with
      | [] => some w.network
      | (name, depth) :: rest =>
          if maxDepth ≤ depth then
            boundedRounds g maxDepth maxEntities maxRelationships fuel
              { w with queue := rest }
          else if maxEntities ≤ w.network.entities.size ∧
              maxRelationships ≤ w.network.relationships.length then some w.network
          else
            boundedRounds g maxDepth maxEntities maxRelationships fuel
              ((g.relationshipsOf name).foldl
                (g.followRelation maxEntities maxRelationships name depth)
                { w with queue := rest })

def getEntityNetworkBounded (g : EntityGraph) (center : String)
    (maxDepth maxEntities maxRelationships : Nat) : Option EntityNetwork :=
  let network := EntityNetwork.empty center
  match g.entities[center]? with
  | none => some network
  | some data =>
      if maxEntities = 0 ∨ g.entityToNode center = none then some network
      else
        boundedRounds g maxDepth maxEntities maxRelationships g.graph.nodes.length
          ⟨network.withEntity center data, [center], [(center, 0)], []⟩

/-!
# Coherent graphs
-/

variable {g : EntityGraph}

theorem Coherent.indexed (h : Coherent g) :
    Indexed { g with aliasIndex := fun _ => none } := by
  have hnode : forall i, g.nodeToEntity i = g.graph.nodes[i]? := by
    intro i
    cases hname : g.nodeToEntity i with
    | some n => exact (h.weight n i ((h.inverse n i).mpr hname)).symm
    | none =>
        by_cases hi : i < g.graph.nodes.length
        · obtain ⟨n, hn⟩ := h.covered i hi
          rw [hname] at hn
          cases hn
        · exact (List.getElem?_eq_none (Nat.not_lt.mp hi)).symm
  have hlt : forall i n, g.nodeToEntity i = some n -> i < g.graph.nodes.length := by
    intro i n hn
    rw [hnode] at hn
    exact (List.getElem?_eq_some_iff.mp hn).1
  constructor
  · exact hnode
  · intro n i
    exact (h.inverse n i).trans (by rw [hnode])
  · intro n
    refine Iff.trans ?_ ((h.domain n).trans mem_entities.symm)
    rw [List.mem_iff_getElem?]
    simp only [← hnode, h.inverse]
  · intro e he
    obtain ⟨⟨n, hn⟩, m, hm⟩ := h.joined e he
    exact ⟨hlt _ _ hn, hlt _ _ hm⟩
  · exact h.named
  · intro k e hk
    cases hk

section

variable {g : EntityGraph}

theorem Coherent.node_name (h : Coherent g) (i : Nat) :
    g.nodeToEntity i = g.graph.nodes[i]? :=
  h.indexed.nodes i

variable {n : String}

theorem Coherent.place (h : Coherent g) {i : Nat} :
    g.entityToNode n = some i ↔ g.graph.nodes[i]? = some n :=
  h.indexed.places n i

theorem Coherent.stored (h : Coherent g) :
    n ∈ g.graph.nodes ↔ n ∈ g.entities :=
  h.indexed.stored n

variable {r : EntityRelationship}

theorem Coherent.mem_relationshipsOf (h : Coherent g) :
    r ∈ g.relationshipsOf n ↔ r ∈ g.relations ∧ (r.fromEntity = n ∨ r.toEntity = n) :=
  h.indexed.mem_relationshipsOf

theorem Coherent.same_node (h : Coherent g) {i j : Nat}
    (hi : g.graph.nodes[i]? = some n) (hj : g.graph.nodes[j]? = some n) :
    i = j :=
  Option.some.inj ((h.place.mpr hi).symm.trans (h.place.mpr hj))

theorem Coherent.nodes_length (h : Coherent g) :
    g.graph.nodes.length = g.entities.size := by
  have hperm : g.graph.nodes.Perm g.entities.keys := by
    refine (List.perm_ext_iff_of_nodup h.indexed.nodup
      Std.ExtTreeMap.nodup_keys).mpr ?_
    intro n
    rw [Std.ExtTreeMap.mem_keys]
    exact h.stored
  rw [hperm.length_eq, Std.ExtTreeMap.length_keys]

theorem Coherent.relationRef_edge (h : Coherent g) {e : Edge} (he : e ∈ g.graph.edges) :
    exists r, g.relationRef e = some r ∧ r.context = e.weight.context ∧
      relationKey r = (r.fromEntity, r.toEntity, e.weight.relationType) ∧
      g.graph.nodes[e.source]? = some r.fromEntity ∧
      g.graph.nodes[e.target]? = some r.toEntity := by
  obtain ⟨hs, ht⟩ := h.indexed.edges e he
  obtain ⟨source, hsource⟩ : exists n, g.graph.nodes[e.source]? = some n :=
    ⟨_, List.getElem?_eq_getElem hs⟩
  obtain ⟨target, htarget⟩ : exists n, g.graph.nodes[e.target]? = some n :=
    ⟨_, List.getElem?_eq_getElem ht⟩
  exact ⟨⟨source, target, e.weight.relationType, e.weight.context⟩,
    relationRef_some.mpr ⟨hsource, htarget, rfl⟩, rfl, rfl, hsource, htarget⟩

theorem Coherent.ends_stored (h : Coherent g) (hr : r ∈ g.relations) :
    r.fromEntity ∈ g.entities ∧ r.toEntity ∈ g.entities := by
  obtain ⟨e, -, href⟩ := mem_relations.mp hr
  obtain ⟨hs, ht, -⟩ := relationRef_some.mp href
  exact ⟨h.stored.mp (List.mem_of_getElem? hs), h.stored.mp (List.mem_of_getElem? ht)⟩

end

/-!
# The edges around an entity
-/

/-- The relations of the edges that `get_entity_network` walks for an entity: a
relation of it to itself is walked twice. -/
def edgesOf (g : EntityGraph) (name : String) : List EntityRelationship :=
  match g.entityToNode name with
  | none => []
  | some node => (g.outgoing node ++ g.incoming node).filterMap g.relationRef

def newest (g : EntityGraph) : List EntityRelationship :=
  g.graph.edges.filterMap g.relationRef

def wiring (incident : String -> List EntityRelationship) :
    Wiring String EntityRelationship (String × String × RelationType) where
  incident := incident
  source := EntityRelationship.fromEntity
  target := EntityRelationship.toEntity
  key := relationKey

/-- Lists of the relations of every entity, each list with the newest relation of a
triple first. -/
structure Lists (g : EntityGraph) (incident : String -> List EntityRelationship) :
    Prop where
  mem : forall n r, r ∈ incident n ↔
    r ∈ g.relations ∧ (r.fromEntity = n ∨ r.toEntity = n)
  find : forall n k r, (incident n).find? (fun f => relationKey f = k) = some r ->
    g.newest.find? (fun f => relationKey f = k) = some r

theorem find_filterMap_of_imp {α β : Type} {f : α -> Option β} {p : α -> Bool}
    {q : β -> Bool} {xs : List α}
    (h : forall x, x ∈ xs -> forall b, f x = some b -> q b = true -> p x = true) :
    ((xs.filter p).filterMap f).find? q = (xs.filterMap f).find? q := by
  induction xs with
  | nil =>
      rfl
  | cons x rest ih =>
      have hrest := ih (fun y hy => h y (List.mem_cons_of_mem _ hy))
      by_cases hp : p x = true
      · rw [List.filter_cons_of_pos hp, List.filterMap_cons, List.filterMap_cons]
        cases f x with
        | none => exact hrest
        | some b => rw [List.find?_cons, List.find?_cons, hrest]
      · rw [List.filter_cons_of_neg hp, hrest, List.filterMap_cons]
        cases hf : f x with
        | none => rfl
        | some b =>
            have hq : ¬ q b = true :=
              fun hq => hp (h x List.mem_cons_self b hf hq)
            exact (List.find?_cons_of_neg hq).symm

theorem find_filterMap_none {α β : Type} {f : α -> Option β} {p : α -> Bool}
    {q : β -> Bool} {xs : List α}
    (h : forall x, x ∈ xs -> forall b, f x = some b -> q b = true -> ¬ p x = true) :
    ((xs.filter p).filterMap f).find? q = none := by
  rw [List.find?_eq_none]
  intro b hb hq
  obtain ⟨x, hx, hf⟩ := List.mem_filterMap.mp hb
  obtain ⟨hx, hp⟩ := List.mem_filter.mp hx
  exact h x hx b hf hq hp

theorem Coherent.same_ends (h : Coherent g) {e f : Edge}
    {re rf : EntityRelationship} (he : g.relationRef e = some re)
    (hf : g.relationRef f = some rf) (hsame : relationKey re = relationKey rf) :
    e.source = f.source ∧ e.target = f.target := by
  obtain ⟨hes, het, -⟩ := relationRef_some.mp he
  obtain ⟨hfs, hft, -⟩ := relationRef_some.mp hf
  injection hsame with hfrom hsame
  injection hsame with hto _
  rw [hfrom] at hes
  rw [hto] at het
  exact ⟨h.same_node hes hfs, h.same_node het hft⟩

/-- The first relation of a triple among the edges from a node, then those to it, is
the newest of the triple. -/
theorem Coherent.find_incident (h : Coherent g) {node : Nat} {p : Edge -> Bool}
    (hp : forall e, p e = true -> e.target = node)
    (hall : forall e, e.target = node -> e.source ≠ node -> p e = true)
    {k : String × String × RelationType} {r : EntityRelationship}
    (hfind : ((g.outgoing node ++ g.graph.edges.filter p).filterMap
      g.relationRef).find? (fun f => relationKey f = k) = some r) :
    g.newest.find? (fun f => relationKey f = k) = some r := by
  have hkey : relationKey r = k := by
    simpa using List.find?_some hfind
  rw [List.filterMap_append, List.find?_append] at hfind
  obtain ⟨e, he, href⟩ : exists e, e ∈ g.outgoing node ++ g.graph.edges.filter p ∧
      g.relationRef e = some r := by
    rw [← List.find?_append, ← List.filterMap_append] at hfind
    exact List.mem_filterMap.mp (List.mem_of_find?_eq_some hfind)
  by_cases hsource : e.source = node
  · have houtgoing : (List.filterMap g.relationRef (g.outgoing node)).find?
        (fun f => decide (relationKey f = k)) =
          g.newest.find? (fun f => decide (relationKey f = k)) := by
      refine find_filterMap_of_imp ?_
      intro f _ rf hrf hk
      have hsame := h.same_ends hrf href ((of_decide_eq_true hk).trans hkey.symm)
      exact decide_eq_true (hsame.1.trans hsource)
    rw [houtgoing] at hfind
    cases hnewest : g.newest.find? (fun f => decide (relationKey f = k)) with
    | none =>
        have hmem : r ∈ g.newest := by
          refine List.mem_filterMap.mpr ⟨e, ?_, href⟩
          rcases List.mem_append.mp he with he | he
          · exact (List.mem_filter.mp he).1
          · exact (List.mem_filter.mp he).1
        have hnot := List.find?_eq_none.mp hnewest r hmem
        exact absurd (decide_eq_true hkey) hnot
    | some f =>
        rw [hnewest] at hfind
        exact hfind
  · have houtgoing : (List.filterMap g.relationRef (g.outgoing node)).find?
        (fun f => decide (relationKey f = k)) = none := by
      refine find_filterMap_none ?_
      intro f _ rf hrf hk hpf
      have hsame := h.same_ends hrf href ((of_decide_eq_true hk).trans hkey.symm)
      exact hsource (hsame.1.symm.trans (of_decide_eq_true hpf))
    have htarget : e.target = node := by
      rcases List.mem_append.mp he with he | he
      · exact absurd (of_decide_eq_true (List.mem_filter.mp he).2) hsource
      · exact hp e (List.mem_filter.mp he).2
    rw [houtgoing, Option.none_or] at hfind
    rw [← hfind]
    refine (find_filterMap_of_imp ?_).symm
    intro f _ rf hrf hk
    have hsame := h.same_ends hrf href ((of_decide_eq_true hk).trans hkey.symm)
    refine hall f (hsame.2.trans htarget) ?_
    rw [hsame.1]
    exact hsource

theorem Coherent.lists_relationshipsOf (h : Coherent g) :
    Lists g g.relationshipsOf where
  mem := fun _ _ => h.mem_relationshipsOf
  find := by
    intro n k r hfind
    unfold relationshipsOf at hfind
    cases hnode : g.entityToNode n with
    | none =>
        rw [hnode] at hfind
        cases hfind
    | some node =>
        rw [hnode] at hfind
        refine h.find_incident ?_ ?_ hfind
        · intro e he
          exact (of_decide_eq_true he).1
        · intro e htarget hsource
          exact decide_eq_true ⟨htarget, hsource⟩

theorem Coherent.lists_edgesOf (h : Coherent g) :
    Lists g g.edgesOf where
  mem := by
    intro n r
    rw [← h.mem_relationshipsOf]
    unfold edgesOf relationshipsOf
    cases g.entityToNode n with
    | none => rfl
    | some node =>
        simp only [List.mem_filterMap, List.mem_append, outgoing, incoming,
          List.mem_filter, decide_eq_true_iff]
        refine exists_congr ?_
        intro e
        refine and_congr_left ?_
        intro _
        by_cases hsource : e.source = node
        · simpa [hsource] using fun he _ => he
        · simp [hsource]
  find := by
    intro n k r hfind
    unfold edgesOf at hfind
    cases hnode : g.entityToNode n with
    | none =>
        rw [hnode] at hfind
        cases hfind
    | some node =>
        rw [hnode] at hfind
        refine h.find_incident ?_ ?_ hfind
        · intro e he
          exact of_decide_eq_true he
        · intro e htarget _
          exact decide_eq_true htarget

section

variable {g : EntityGraph} {incident : String -> List EntityRelationship}

variable {r : EntityRelationship}

theorem mem_newest : r ∈ g.newest ↔ r ∈ g.relations := by
  rw [newest, List.mem_filterMap, mem_relations]

theorem Lists.canonical_iff (h : Lists g incident) :
    (wiring incident).Canonical r ↔
      g.newest.find? (fun f => relationKey f = relationKey r) = some r := by
  constructor
  · rintro ⟨n, hfind⟩
    exact h.find n _ r hfind
  · intro hfind
    have hr : r ∈ incident r.fromEntity :=
      (h.mem _ r).mpr ⟨mem_newest.mp (List.mem_of_find?_eq_some hfind), Or.inl rfl⟩
    refine ⟨r.fromEntity, ?_⟩
    dsimp only [wiring]
    cases hfirst : (incident r.fromEntity).find?
        (fun f => decide (relationKey f = relationKey r)) with
    | none => exact absurd (decide_eq_true rfl) (List.find?_eq_none.mp hfirst r hr)
    | some f => exact hfirst.trans ((h.find _ _ f hfirst).symm.trans hfind)

theorem Lists.neighbour_stored (h : Coherent g) (hlists : Lists g incident)
    {x y : String} (hy : y ∈ (wiring incident).neighbours x) :
    y ∈ g.entities := by
  obtain ⟨r, hr, rfl⟩ := List.mem_map.mp hy
  have hends := h.ends_stored ((hlists.mem x r).mp hr).1
  unfold Wiring.other
  split
  · exact hends.2
  · exact hends.1

theorem Lists.path_stored (h : Coherent g) (hlists : Lists g incident) {a : String}
    (ha : a ∈ g.entities) {n : Nat} {x : String}
    (hx : Path (wiring incident).neighbours a n x) :
    x ∈ g.entities := by
  cases hx with
  | nil => exact ha
  | snoc _ hy => exact hlists.neighbour_stored h hy

theorem Lists.roomy (h : Coherent g) (hlists : Lists g incident) {a : String}
    (ha : a ∈ g.entities) {maxNodes maxEdges : Option Nat}
    (hnodes : forall n, n < g.entities.size -> room maxNodes n)
    (hedges : forall n, n < g.graph.edges.length -> room maxEdges n) :
    Roomy (wiring incident) maxNodes maxEdges a g.graph.nodes g.relationKeys where
  reached := fun _ _ hx => h.stored.mpr (hlists.path_stored h ha hx)
  keyed := fun x r hr => List.mem_map_of_mem ((hlists.mem x r).mp hr).1
  ends := fun x r hr => ((hlists.mem x r).mp hr).2
  agree := by
    intro e f he hf hkey
    have he := hlists.canonical_iff.mp he
    have hf := hlists.canonical_iff.mp hf
    have hkey : relationKey e = relationKey f := hkey
    rw [hkey] at he
    exact Option.some.inj (he.symm.trans hf)
  roomNodes := by
    rw [h.nodes_length]
    exact hnodes
  roomEdges := by
    intro n hn
    refine hedges n (Nat.lt_of_lt_of_le hn ?_)
    rw [relationKeys, List.length_map, relations]
    exact (List.length_filterMap_le _ _).trans (List.length_reverse).le

end

/-!
# Two walks of one exploration
-/

/-- A network with the entities included and the edges taken. -/
structure Shows (g : EntityGraph) (network : EntityNetwork)
    (a : Exploration String EntityRelationship) : Prop where
  stored : forall n, n ∈ a.included -> n ∈ g.entities
  entities : forall n : String, network.entities[n]? =
    if n ∈ a.included then g.entities[n]? else none
  size : network.entities.size = a.included.length
  relationships : network.relationships = a.taken

structure NameFollows (g : EntityGraph) (w : NameWalk)
    (a : Exploration String EntityRelationship) : Prop where
  shows : Shows g w.network a
  visited : forall n, n ∈ w.visited ↔ n ∈ a.included
  queue : w.queue = a.queue
  seen : forall k, k ∈ w.seen ↔ k ∈ a.taken.map relationKey

structure NodeFollows (g : EntityGraph) (w : NodeWalk)
    (a : Exploration String EntityRelationship) : Prop where
  shows : Shows g w.network a
  visited : forall i n, g.graph.nodes[i]? = some n -> (i ∈ w.visited ↔ n ∈ a.included)
  queue : List.Forall₂ (fun p q => g.graph.nodes[p.1]? = some q.1 ∧ p.2 = q.2)
    w.queue a.queue
  seen : forall k, k ∈ w.seen ↔ k ∈ a.taken.map relationKey

section

variable {g : EntityGraph} {network : EntityNetwork}
  {a : Exploration String EntityRelationship}

theorem Shows.mem (h : Shows g network a) {n : String} :
    n ∈ network.entities ↔ n ∈ a.included := by
  rw [Std.ExtTreeMap.mem_iff_isSome_getElem?, h.entities]
  by_cases hn : n ∈ a.included
  · rw [if_pos hn, ← Std.ExtTreeMap.mem_iff_isSome_getElem?]
    exact iff_of_true (h.stored n hn) hn
  · rw [if_neg hn]
    exact iff_of_false (by simp) hn

theorem Shows.dequeue (h : Shows g network a) (queue : List (String × Nat)) :
    Shows g network { a with queue := queue } :=
  ⟨h.stored, h.entities, h.size, h.relationships⟩

theorem Shows.withEntity (h : Shows g network a) {name : String} {data : EntityData}
    (hdata : g.entities[name]? = some data) (hnew : name ∉ a.included)
    (queue : List (String × Nat)) :
    Shows g (network.withEntity name data)
      { a with included := a.included ++ [name], queue := queue } where
  stored := by
    intro n hn
    rcases List.mem_append.mp hn with hn | hn
    · exact h.stored n hn
    · rw [List.mem_singleton.mp hn]
      exact mem_entities.mpr ⟨data, hdata⟩
  entities := by
    intro n
    dsimp only [EntityNetwork.withEntity]
    rw [KeyValue.Database.get_insert]
    by_cases hn : name = n
    · subst hn
      simp [hdata]
    · have hn' : ¬ n = name := fun heq => hn heq.symm
      simp [hn, hn', h.entities]
  size := by
    have hfresh : name ∉ network.entities := fun hmem => hnew (h.mem.mp hmem)
    dsimp only [EntityNetwork.withEntity]
    rw [KeyValue.Database.size_insert_fresh _ hfresh, h.size, List.length_append]
    rfl
  relationships := h.relationships

theorem Shows.withRelationship (h : Shows g network a) (r : EntityRelationship) :
    Shows g (network.withRelationship r) { a with taken := a.taken ++ [r] } where
  stored := h.stored
  entities := h.entities
  size := h.size
  relationships := congrArg (fun rs => rs ++ [r]) h.relationships

end

theorem mem_seen {seen : List (String × String × RelationType)}
    {taken : List EntityRelationship} (h : forall k, k ∈ seen ↔ k ∈ taken.map relationKey)
    (r : EntityRelationship) (k : String × String × RelationType) :
    k ∈ relationKey r :: seen ↔ k ∈ (taken ++ [r]).map relationKey := by
  rw [List.mem_cons, List.map_append, List.mem_append, h]
  exact (or_congr_left List.mem_singleton.symm).trans or_comm

section

variable {g : EntityGraph} {w : NameWalk} {a : Exploration String EntityRelationship}

variable {name : String}

theorem NameFollows.includeEntity (h : NameFollows g w a) {depth : Nat}
    {rel : EntityRelationship} (hstored : otherEnd name rel ∈ g.entities)
    (maxEntities : Nat) :
    NameFollows g (g.includeEntity maxEntities depth w (otherEnd name rel))
      ((wiring g.relationshipsOf).includeEnd (some maxEntities) name depth a rel) := by
  have hcond : (room (some maxEntities) a.included.length ∧
      (wiring g.relationshipsOf).other name rel ∉ a.included) ↔
        w.network.entities.size < maxEntities ∧ otherEnd name rel ∉ w.visited := by
    rw [h.shows.size, h.visited]
    rfl
  unfold EntityGraph.includeEntity Wiring.includeEnd
  by_cases hroom : w.network.entities.size < maxEntities ∧ otherEnd name rel ∉ w.visited
  · obtain ⟨data, hdata⟩ := mem_entities.mp hstored
    rw [if_pos hroom, if_pos (hcond.mpr hroom), hdata]
    refine ⟨h.shows.withEntity hdata (hcond.mpr hroom).2 _, ?_, ?_, h.seen⟩
    · intro n
      rw [List.mem_cons, List.mem_append, h.visited]
      exact (or_congr_left List.mem_singleton.symm).trans or_comm
    · rw [← h.queue]
      rfl
  · rw [if_neg hroom, if_neg (fun hc => hroom (hcond.mp hc))]
    exact h

theorem NameFollows.includeRelationship (h : NameFollows g w a)
    (maxRelationships : Nat) (rel : EntityRelationship) :
    NameFollows g (includeRelationship maxRelationships w rel)
      ((wiring g.relationshipsOf).takeEdge (some maxRelationships) a rel) := by
  have hcond : (room (some maxRelationships) a.taken.length ∧
      (wiring g.relationshipsOf).source rel ∈ a.included ∧
      (wiring g.relationshipsOf).target rel ∈ a.included ∧
      (wiring g.relationshipsOf).key rel ∉ (wiring g.relationshipsOf).keys a.taken) ↔
        w.network.relationships.length < maxRelationships ∧
          rel.fromEntity ∈ w.network.entities ∧ rel.toEntity ∈ w.network.entities ∧
          relationKey rel ∉ w.seen := by
    rw [h.shows.relationships, h.shows.mem, h.shows.mem, h.seen]
    rfl
  unfold EntityGraph.includeRelationship Wiring.takeEdge
  by_cases hroom : w.network.relationships.length < maxRelationships ∧
      rel.fromEntity ∈ w.network.entities ∧ rel.toEntity ∈ w.network.entities ∧
      relationKey rel ∉ w.seen
  · rw [if_pos hroom, if_pos (hcond.mpr hroom)]
    exact ⟨h.shows.withRelationship rel, h.visited, h.queue, mem_seen h.seen rel⟩
  · rw [if_neg hroom, if_neg (fun hc => hroom (hcond.mp hc))]
    exact h

theorem NameFollows.foldl (hg : Coherent g) (h : NameFollows g w a) {depth : Nat}
    (maxEntities maxRelationships : Nat) {rels : List EntityRelationship}
    (hrels : rels ⊆ g.relationshipsOf name) :
    NameFollows g (rels.foldl (g.followRelation maxEntities maxRelationships name depth) w)
      (rels.foldl ((wiring g.relationshipsOf).meet (some maxEntities)
        (some maxRelationships) name depth) a) := by
  induction rels generalizing w a with
  | nil =>
      exact h
  | cons rel rest ih =>
      obtain ⟨hrel, hrest⟩ := List.cons_subset.mp hrels
      have hstored : otherEnd name rel ∈ g.entities :=
        hg.lists_relationshipsOf.neighbour_stored hg (List.mem_map_of_mem hrel)
      exact ih ((h.includeEntity hstored maxEntities).includeRelationship
        maxRelationships rel) hrest

theorem NameFollows.rounds (hg : Coherent g)
    {maxDepth maxEntities maxRelationships fuel : Nat}
    {a' : Exploration String EntityRelationship} (h : NameFollows g w a)
    (hrun : (wiring g.relationshipsOf).explore (some maxEntities)
      (some maxRelationships) maxDepth fuel a = some a') :
    exists network,
      g.boundedRounds maxDepth maxEntities maxRelationships fuel w = some network ∧
        Shows g network a' := by
  induction fuel generalizing w a with
  | zero =>
      rw [Wiring.explore] at hrun
      rw [boundedRounds, h.queue]
      split at hrun
      · next hempty =>
        cases hrun
        exact ⟨w.network, if_pos hempty, h.shows⟩
      · cases hrun
  | succ fuel ih =>
      rw [Wiring.explore] at hrun
      rw [boundedRounds, h.queue]
      cases hqueue : a.queue with
      | nil =>
          rw [hqueue] at hrun
          cases hrun
          exact ⟨w.network, rfl, h.shows⟩
      | cons p rest =>
          rw [hqueue] at hrun
          have hrest : NameFollows g { w with queue := rest }
              { a with queue := rest } :=
            ⟨h.shows.dequeue rest, h.visited, rfl, h.seen⟩
          have hfull : (maxEntities ≤ w.network.entities.size ∧
              maxRelationships ≤ w.network.relationships.length) ↔
                a.Full (some maxEntities) (some maxRelationships) := by
            rw [h.shows.size, h.shows.relationships]
            exact and_congr Nat.not_lt.symm Nat.not_lt.symm
          dsimp only at hrun ⊢
          by_cases hdeep : maxDepth ≤ p.2
          · rw [if_pos hdeep] at hrun ⊢
            exact ih hrest hrun
          · rw [if_neg hdeep] at hrun ⊢
            by_cases hstop : a.Full (some maxEntities) (some maxRelationships)
            · have hstop' := hstop
              unfold Exploration.Full at hstop'
              rw [if_pos hstop'] at hrun
              rw [if_pos (hfull.mpr hstop)]
              cases hrun
              exact ⟨w.network, rfl, h.shows⟩
            · have hstop' := hstop
              unfold Exploration.Full at hstop'
              rw [if_neg hstop'] at hrun
              rw [if_neg (fun hc => hstop (hfull.mp hc))]
              exact ih (hrest.foldl hg maxEntities maxRelationships
                (List.Subset.refl _)) hrun

end

section

variable {g : EntityGraph} {w : NodeWalk} {a : Exploration String EntityRelationship}

variable {name : String} {depth : Nat} {r : EntityRelationship}

theorem NodeFollows.visitNode (hg : Coherent g) (h : NodeFollows g w a) {node : Nat}
    (hnode : g.graph.nodes[node]? = some ((wiring g.edgesOf).other name r)) :
    NodeFollows g (g.visitNode depth w node)
      ((wiring g.edgesOf).includeEnd none name depth a r) := by
  have hvisited := h.visited node _ hnode
  unfold EntityGraph.visitNode Wiring.includeEnd
  by_cases hseen : node ∈ w.visited
  · rw [if_pos hseen, if_neg (fun hc => hc.2 (hvisited.mp hseen))]
    exact h
  · have hnew : (wiring g.edgesOf).other name r ∉ a.included :=
      fun hmem => hseen (hvisited.mpr hmem)
    obtain ⟨data, hdata⟩ := mem_entities.mp
      (hg.stored.mp (List.mem_of_getElem? hnode))
    have hadd : g.addNetworkEntity w.network node =
        w.network.withEntity ((wiring g.edgesOf).other name r) data := by
      unfold addNetworkEntity
      rw [hg.node_name, hnode]
      dsimp only
      rw [hdata]
    rw [if_neg hseen, if_pos ⟨trivial, hnew⟩, hadd]
    refine ⟨h.shows.withEntity hdata hnew _, ?_, ?_, h.seen⟩
    · intro i n hi
      have hsame : i = node ↔ n = (wiring g.edgesOf).other name r := by
        constructor
        · rintro rfl
          exact Option.some.inj (hi.symm.trans hnode)
        · rintro rfl
          exact hg.same_node hi hnode
      rw [List.mem_cons, List.mem_append, h.visited i n hi, hsame]
      exact (or_congr_left List.mem_singleton.symm).trans or_comm
    · exact List.rel_append h.queue (List.Forall₂.cons ⟨hnode, rfl⟩ List.Forall₂.nil)

theorem NodeFollows.addNetworkEdge (hg : Coherent g) (h : NodeFollows g w a)
    {source target : Nat} {weight : EdgeData}
    (hsource : g.graph.nodes[source]? = some r.fromEntity)
    (htarget : g.graph.nodes[target]? = some r.toEntity)
    (hweight : weight = ⟨r.relationType, r.context⟩) :
    NodeFollows g (g.addNetworkEdge w source target weight)
      ((wiring g.edgesOf).takeEdge none a r) := by
  have hcond : (room none a.taken.length ∧
      (wiring g.edgesOf).source r ∈ a.included ∧
      (wiring g.edgesOf).target r ∈ a.included ∧
      (wiring g.edgesOf).key r ∉ (wiring g.edgesOf).keys a.taken) ↔
        r.fromEntity ∈ w.network.entities ∧ r.toEntity ∈ w.network.entities ∧
          relationKey r ∉ w.seen := by
    rw [h.shows.mem, h.shows.mem, h.seen]
    exact and_iff_right trivial
  unfold EntityGraph.addNetworkEdge Wiring.takeEdge
  rw [hg.node_name, hg.node_name, hsource, htarget, hweight]
  dsimp only
  by_cases hnew : r.fromEntity ∈ w.network.entities ∧ r.toEntity ∈ w.network.entities ∧
      relationKey r ∉ w.seen
  · rw [if_pos (hcond.mpr hnew)]
    unfold relationKey at hnew
    rw [if_pos hnew]
    exact ⟨h.shows.withRelationship r, h.visited, h.queue, mem_seen h.seen r⟩
  · rw [if_neg (fun hc => hnew (hcond.mp hc))]
    unfold relationKey at hnew
    rw [if_neg hnew]
    exact h

theorem NodeFollows.foldl (hg : Coherent g) {follow : NodeWalk -> Edge -> NodeWalk}
    {es : List Edge} (hes : es ⊆ g.graph.edges)
    (hfollow : forall e r w a, e ∈ es -> g.relationRef e = some r ->
      NodeFollows g w a ->
      NodeFollows g (follow w e) ((wiring g.edgesOf).meet none none name depth a r))
    (h : NodeFollows g w a) :
    NodeFollows g (es.foldl follow w)
      ((es.filterMap g.relationRef).foldl
        ((wiring g.edgesOf).meet none none name depth) a) := by
  induction es generalizing w a with
  | nil =>
      exact h
  | cons e rest ih =>
      obtain ⟨he, hrest⟩ := List.cons_subset.mp hes
      obtain ⟨r, hr, -⟩ := hg.relationRef_edge he
      rw [List.filterMap_cons_some hr, List.foldl_cons, List.foldl_cons]
      exact ih hrest (fun f rf w a hf => hfollow f rf w a (List.mem_cons_of_mem _ hf))
        (hfollow e r w a List.mem_cons_self hr h)

theorem NodeFollows.followNode (hg : Coherent g) (h : NodeFollows g w a)
    {current : Nat} (hcurrent : g.graph.nodes[current]? = some name) :
    NodeFollows g (g.followNode current depth w)
      ((g.edgesOf name).foldl ((wiring g.edgesOf).meet none none name depth) a) := by
  have hedges : g.edgesOf name =
      (g.outgoing current).filterMap g.relationRef ++
        (g.incoming current).filterMap g.relationRef := by
    unfold edgesOf
    rw [hg.place.mpr hcurrent]
    exact List.filterMap_append
  rw [hedges, List.foldl_append]
  have hout : forall e r w a, e ∈ g.outgoing current -> g.relationRef e = some r ->
      NodeFollows g w a -> NodeFollows g (g.followOutgoing current depth w e)
        ((wiring g.edgesOf).meet none none name depth a r) := by
    intro e r w a he hr h
    have hsource : e.source = current := of_decide_eq_true (List.mem_filter.mp he).2
    obtain ⟨hs, ht, hweight⟩ := relationRef_some.mp hr
    rw [hsource] at hs
    have hfrom : r.fromEntity = name := Option.some.inj (hs.symm.trans hcurrent)
    have hother : (wiring g.edgesOf).other name r = r.toEntity := if_pos hfrom
    exact (h.visitNode hg (hother.symm ▸ ht)).addNetworkEdge hg hs ht hweight
  have hin : forall e r w a, e ∈ g.incoming current -> g.relationRef e = some r ->
      NodeFollows g w a -> NodeFollows g (g.followIncoming current depth w e)
        ((wiring g.edgesOf).meet none none name depth a r) := by
    intro e r w a he hr h
    have htarget : e.target = current := of_decide_eq_true (List.mem_filter.mp he).2
    obtain ⟨hs, ht, hweight⟩ := relationRef_some.mp hr
    rw [htarget] at ht
    have hto : r.toEntity = name := Option.some.inj (ht.symm.trans hcurrent)
    have hother : (wiring g.edgesOf).other name r = r.fromEntity := by
      by_cases hloop : r.fromEntity = name
      · exact (if_pos hloop).trans (hto.trans hloop.symm)
      · exact if_neg hloop
    exact (h.visitNode hg (hother.symm ▸ hs)).addNetworkEdge hg hs ht hweight
  exact NodeFollows.foldl hg (fun e he => (List.mem_filter.mp he).1) hin
    (NodeFollows.foldl hg (fun e he => (List.mem_filter.mp he).1) hout h)

theorem NodeFollows.rounds (hg : Coherent g) {maxDepth fuel : Nat}
    {a' : Exploration String EntityRelationship} (h : NodeFollows g w a)
    (hrun : (wiring g.edgesOf).explore none none maxDepth fuel a = some a') :
    exists network, g.networkRounds maxDepth fuel w = some network ∧
      Shows g network a' := by
  induction fuel generalizing w a with
  | zero =>
      rw [Wiring.explore] at hrun
      rw [networkRounds]
      split at hrun
      · next hempty =>
        cases hrun
        have hqueue := h.queue
        rw [hempty] at hqueue
        exact ⟨w.network, if_pos (List.forall₂_nil_right_iff.mp hqueue), h.shows⟩
      · cases hrun
  | succ fuel ih =>
      rw [Wiring.explore] at hrun
      rw [networkRounds]
      have hqueues := h.queue
      cases hqueue : a.queue with
      | nil =>
          rw [hqueue] at hrun hqueues
          cases hrun
          rw [List.forall₂_nil_right_iff.mp hqueues]
          exact ⟨w.network, rfl, h.shows⟩
      | cons p rest =>
          rw [hqueue] at hrun hqueues
          obtain ⟨q, others, ⟨hname, hdepth⟩, hothers, hsplit⟩ :=
            List.forall₂_cons_right_iff.mp hqueues
          have hrest : NodeFollows g { w with queue := others }
              { a with queue := rest } :=
            ⟨h.shows.dequeue rest, h.visited, hothers, h.seen⟩
          rw [hsplit]
          dsimp only at hrun ⊢
          rw [hdepth]
          by_cases hdeep : maxDepth ≤ p.2
          · rw [if_pos hdeep] at hrun ⊢
            exact ih hrest hrun
          · rw [if_neg hdeep] at hrun ⊢
            rw [if_neg (fun hc => hc.1 trivial)] at hrun
            exact ih (hrest.followNode hg hname) hrun

end

theorem shows_start {center : String} {data : EntityData}
    (hdata : g.entities[center]? = some data) :
    Shows g ((EntityNetwork.empty center).withEntity center data)
      (Exploration.start center) where
  stored := by
    intro n hn
    rw [List.mem_singleton.mp hn]
    exact mem_entities.mpr ⟨data, hdata⟩
  entities := by
    intro n
    dsimp only [EntityNetwork.withEntity, EntityNetwork.empty, Exploration.start]
    rw [KeyValue.Database.get_insert]
    by_cases hn : center = n
    · subst hn
      simp [hdata]
    · have hn' : ¬ n = center := fun heq => hn heq.symm
      simp [hn, hn']
  size := by
    dsimp only [EntityNetwork.withEntity, EntityNetwork.empty]
    rw [Std.ExtTreeMap.size_insert]
    simp [Exploration.start]
  relationships := rfl

section

variable {g : EntityGraph} {center : String} {maxDepth : Nat}
  {a : Exploration String EntityRelationship}

theorem getEntityNetwork_missing (h : Coherent g) (hcenter : center ∉ g.entities) :
    g.getEntityNetwork center maxDepth = some (EntityNetwork.empty center) := by
  unfold getEntityNetwork
  rw [h.indexed.unmapped hcenter]

theorem getEntityNetworkBounded_missing (hcenter : center ∉ g.entities)
    (maxEntities maxRelationships : Nat) :
    g.getEntityNetworkBounded center maxDepth maxEntities maxRelationships =
      some (EntityNetwork.empty center) := by
  unfold getEntityNetworkBounded
  cases hdata : g.entities[center]? with
  | none => rfl
  | some data => exact absurd (mem_entities.mpr ⟨data, hdata⟩) hcenter

theorem getEntityNetwork_shows (h : Coherent g) (hcenter : center ∈ g.entities)
    (hrun : (wiring g.edgesOf).explore none none maxDepth g.graph.nodes.length
      (Exploration.start center) = some a) :
    exists network, g.getEntityNetwork center maxDepth = some network ∧
      Shows g network a := by
  obtain ⟨data, hdata⟩ := mem_entities.mp hcenter
  obtain ⟨node, hnode, _⟩ := h.indexed.node hcenter
  unfold getEntityNetwork
  rw [hnode, hdata]
  have hplace := h.place.mp hnode
  refine NodeFollows.rounds h ⟨shows_start hdata, ?_, ?_, ?_⟩ hrun
  · intro i n hi
    rw [List.mem_singleton]
    constructor
    · rintro rfl
      exact List.mem_singleton.mpr (Option.some.inj (hi.symm.trans hplace))
    · intro hn
      rw [List.mem_singleton.mp hn] at hi
      exact h.same_node hi hplace
  · exact List.Forall₂.cons ⟨hplace, rfl⟩ List.Forall₂.nil
  · intro k
    rfl

variable {maxEntities maxRelationships : Nat}

theorem getEntityNetworkBounded_shows (h : Coherent g)
    (hcenter : center ∈ g.entities) (hpos : maxEntities ≠ 0)
    (hrun : (wiring g.relationshipsOf).explore (some maxEntities)
      (some maxRelationships) maxDepth g.graph.nodes.length
      (Exploration.start center) = some a) :
    exists network,
      g.getEntityNetworkBounded center maxDepth maxEntities maxRelationships =
        some network ∧ Shows g network a := by
  obtain ⟨data, hdata⟩ := mem_entities.mp hcenter
  obtain ⟨node, hnode, _⟩ := h.indexed.node hcenter
  have hnode : g.entityToNode center = some node := hnode
  have hmapped : ¬ (maxEntities = 0 ∨ g.entityToNode center = none) := by
    rw [hnode]
    simpa using hpos
  unfold getEntityNetworkBounded
  rw [hdata]
  dsimp only
  rw [if_neg hmapped]
  exact NameFollows.rounds h
    ⟨shows_start hdata, fun _ => Iff.rfl, rfl, fun _ => Iff.rfl⟩ hrun

/-!
# Networks under limits
-/

/-- A network of the entities closest to the center and stored relations among them,
within the limits. -/
structure Closest (g : EntityGraph) (center : String)
    (maxDepth maxEntities maxRelationships : Nat) (network : EntityNetwork) : Prop where
  fewEntities : network.entities.size ≤ maxEntities
  fewRelationships : network.relationships.length ≤ maxRelationships
  relations : forall r, r ∈ network.relationships ->
    r ∈ g.relations ∧ r.fromEntity ∈ network.entities ∧ r.toEntity ∈ network.entities
  unrepeated : (network.relationships.map relationKey).Nodup
  data : forall (n : String) (d : EntityData),
    network.entities[n]? = some d -> g.entities[n]? = some d
  within : forall n, n ∈ network.entities ->
    exists d, d ≤ maxDepth ∧ Distance g.neighbours center d n
  nearest : forall d n, n ∈ network.entities -> Distance g.neighbours center (d + 1) n ->
    forall k m, k ≤ d -> Distance g.neighbours center k m -> m ∈ network.entities

theorem closest_empty (g : EntityGraph) (center : String)
    (maxDepth maxEntities maxRelationships : Nat) :
    Closest g center maxDepth maxEntities maxRelationships
      (EntityNetwork.empty center) := by
  have hempty : forall n, n ∉ (EntityNetwork.empty center).entities := by
    intro n
    simp [EntityNetwork.empty]
  constructor
  · simp [EntityNetwork.empty]
  · exact Nat.zero_le _
  · exact fun r hr => absurd hr List.not_mem_nil
  · exact List.nodup_nil
  · intro n d hd
    exact absurd (Std.ExtTreeMap.mem_iff_isSome_getElem?.mpr (by rw [hd]; rfl)) (hempty n)
  · exact fun n hn => absurd hn (hempty n)
  · exact fun d n hn => absurd hn (hempty n)

theorem Shows.closest (h : Coherent g) {network : EntityNetwork}
    {done : List (String × Nat)} (hshows : Shows g network a)
    (hcharted : Charted (wiring g.relationshipsOf) (some maxEntities)
      (some maxRelationships) maxDepth center a done) :
    Closest g center maxDepth maxEntities maxRelationships network where
  fewEntities := by
    rw [hshows.size]
    exact hcharted.fewNodes _ rfl
  fewRelationships := by
    rw [hshows.relationships]
    exact hcharted.fewEdges _ rfl
  relations := by
    intro r hr
    rw [hshows.relationships] at hr
    obtain ⟨⟨p, _, _, hincident⟩, hsource, htarget⟩ := hcharted.edges r hr
    exact ⟨(h.mem_relationshipsOf.mp hincident).1, hshows.mem.mpr hsource,
      hshows.mem.mpr htarget⟩
  unrepeated := by
    rw [hshows.relationships]
    exact hcharted.keys
  data := by
    intro n d hd
    rw [hshows.entities] at hd
    split at hd
    · exact hd
    · cases hd
  within := by
    intro n hn
    obtain ⟨d, hd⟩ := hcharted.mem_included.mp (hshows.mem.mp hn)
    exact ⟨d, (hcharted.distance _ hd).2, (hcharted.distance _ hd).1⟩
  nearest := by
    intro d n hn hdist k m hk hm
    have hlabel := hcharted.depth_eq (hshows.mem.mp hn) hdist
    exact hshows.mem.mpr (hcharted.nearer _ hlabel k m hm (Nat.lt_succ_of_le hk))

/-- Under any limits the bounded network is within them, and its entities are the
closest. -/
theorem getEntityNetworkBounded_closest {g : EntityGraph} (h : Coherent g)
    (center : String) (maxDepth maxEntities maxRelationships : Nat) :
    exists network,
      g.getEntityNetworkBounded center maxDepth maxEntities maxRelationships =
        some network ∧
      Closest g center maxDepth maxEntities maxRelationships network := by
  by_cases hcenter : center ∈ g.entities
  · by_cases hzero : maxEntities = 0
    · refine ⟨EntityNetwork.empty center, ?_, closest_empty g center _ _ _⟩
      obtain ⟨data, hdata⟩ := mem_entities.mp hcenter
      unfold getEntityNetworkBounded
      rw [hdata]
      exact if_pos (Or.inl hzero)
    · have hroom : room (some maxEntities) 0 := Nat.pos_of_ne_zero hzero
      have hnodes : forall n x, Path (wiring g.relationshipsOf).neighbours center n x ->
          x ∈ g.graph.nodes :=
        fun n x hx => h.stored.mpr (h.lists_relationshipsOf.path_stored h hcenter hx)
      obtain ⟨a, done, hrun, hcharted⟩ : exists a done,
          (wiring g.relationshipsOf).explore (some maxEntities) (some maxRelationships)
            maxDepth g.graph.nodes.length (Exploration.start center) = some a ∧
          Charted (wiring g.relationshipsOf) (some maxEntities) (some maxRelationships)
            maxDepth center a done :=
        explore_charted hroom hnodes maxDepth
      obtain ⟨network, hnetwork, hshows⟩ :=
        getEntityNetworkBounded_shows h hcenter hzero hrun
      exact ⟨network, hnetwork, hshows.closest h hcharted⟩
  · exact ⟨EntityNetwork.empty center,
      getEntityNetworkBounded_missing hcenter maxEntities maxRelationships,
      closest_empty g center _ _ _⟩

/-!
# The two networks
-/

theorem Lists.neighbours_iff {incident incident' : String -> List EntityRelationship}
    (h : Lists g incident) (h' : Lists g incident') (x y : String) :
    y ∈ (wiring incident).neighbours x ↔ y ∈ (wiring incident').neighbours x := by
  unfold Wiring.neighbours
  rw [List.mem_map, List.mem_map]
  refine exists_congr ?_
  intro r
  refine and_congr_left ?_
  intro _
  exact (h.mem x r).trans (h'.mem x r).symm

/-- The entities within the depth, and the newest relation of each triple around
those above it. -/
structure Around (g : EntityGraph) (center : String) (maxDepth : Nat)
    (network : EntityNetwork) : Prop where
  entities : forall (n : String) (d : EntityData), network.entities[n]? = some d ↔
    (exists m, m ≤ maxDepth ∧ Distance g.neighbours center m n) ∧ g.entities[n]? = some d
  once : network.relationships.Nodup
  relationships : forall r, r ∈ network.relationships ↔
    g.newest.find? (fun f => relationKey f = relationKey r) = some r ∧
      exists x m, m < maxDepth ∧ Distance g.neighbours center m x ∧
        (r.fromEntity = x ∨ r.toEntity = x)

theorem getEntityNetwork_stored (h : Coherent g) (hcenter : center ∈ g.entities)
    (maxDepth : Nat) :
    exists network, g.getEntityNetwork center maxDepth = some network ∧
      Around g center maxDepth network := by
  have hdistance : forall m x, Distance (wiring g.edgesOf).neighbours center m x ↔
      Distance g.neighbours center m x :=
    distance_congr (h.lists_edgesOf.neighbours_iff h.lists_relationshipsOf) center
  have hnodes : forall n, n < g.entities.size -> room none n := fun _ _ => trivial
  have hedges : forall n, n < g.graph.edges.length -> room none n := fun _ _ => trivial
  have hfree := h.lists_edgesOf.roomy h hcenter hnodes hedges
  obtain ⟨a, hrun, hincluded, hkeys, htaken⟩ := explore_roomy hfree maxDepth
  obtain ⟨network, hnetwork, hshows⟩ := getEntityNetwork_shows h hcenter hrun
  refine ⟨network, hnetwork, ?_, ?_, ?_⟩
  · intro n d
    rw [hshows.entities]
    simp only [← hdistance]
    rw [← hincluded]
    split
    · next hn => simp [hn]
    · next hn => simp [hn]
  · rw [hshows.relationships]
    exact List.Nodup.of_map _ hkeys
  · intro r
    rw [hshows.relationships, htaken, h.lists_edgesOf.canonical_iff]
    simp only [hdistance]
    refine and_congr_right ?_
    intro hfind
    have hr := mem_newest.mp (List.mem_of_find?_eq_some hfind)
    refine exists_congr ?_
    intro x
    refine exists_congr ?_
    intro m
    rw [show r ∈ (wiring g.edgesOf).incident x ↔ _ from h.lists_edgesOf.mem x r]
    simp [hr]

theorem Coherent.not_related (h : Coherent g) {name : String}
    (hname : name ∉ g.entities) {r : EntityRelationship} (hr : r ∈ g.relations) :
    ¬ (r.fromEntity = name ∨ r.toEntity = name) := by
  rintro (hend | hend)
  · exact hname (hend ▸ (h.ends_stored hr).1)
  · exact hname (hend ▸ (h.ends_stored hr).2)

theorem Coherent.path_missing (h : Coherent g) (hcenter : center ∉ g.entities)
    {m : Nat} {x : String} (hpath : Path g.neighbours center m x) : x = center := by
  induction hpath with
  | nil => rfl
  | snoc _ hy ih =>
      rw [ih] at hy
      obtain ⟨r, hr, _⟩ := List.mem_map.mp hy
      obtain ⟨hrel, hends⟩ := h.mem_relationshipsOf.mp hr
      exact absurd hends (h.not_related hcenter hrel)

theorem around_missing (h : Coherent g) (hcenter : center ∉ g.entities)
    (maxDepth : Nat) :
    Around g center maxDepth (EntityNetwork.empty center) where
  entities := by
    intro n d
    constructor
    · intro hd
      simp [EntityNetwork.empty] at hd
    · rintro ⟨⟨m, _, hx⟩, hd⟩
      rw [h.path_missing hcenter hx.1] at hd
      exact absurd (mem_entities.mpr ⟨d, hd⟩) hcenter
  once := List.nodup_nil
  relationships := by
    intro r
    constructor
    · intro hr
      cases hr
    · rintro ⟨hfind, x, m, _, hx, hends⟩
      have hr := mem_newest.mp (List.mem_of_find?_eq_some hfind)
      rw [h.path_missing hcenter hx.1] at hends
      exact absurd hends (h.not_related hcenter hr)

theorem getEntityNetwork_around (h : Coherent g) (center : String) (maxDepth : Nat) :
    exists network, g.getEntityNetwork center maxDepth = some network ∧
      Around g center maxDepth network := by
  by_cases hcenter : center ∈ g.entities
  · exact getEntityNetwork_stored h hcenter maxDepth
  · exact ⟨EntityNetwork.empty center, getEntityNetwork_missing h hcenter,
      around_missing h hcenter maxDepth⟩

/-- With limits no smaller than the graph both walks give the same entities and the
same relationships. -/
theorem networks_agree {g : EntityGraph} (h : Coherent g) (center : String)
    (maxDepth : Nat) {maxEntities maxRelationships : Nat}
    (hentities : g.entities.size ≤ maxEntities)
    (hrelationships : g.graph.edges.length ≤ maxRelationships) :
    exists full bounded,
      g.getEntityNetwork center maxDepth = some full ∧
      g.getEntityNetworkBounded center maxDepth maxEntities maxRelationships =
        some bounded ∧
      full.entities = bounded.entities ∧
      full.relationships.Perm bounded.relationships := by
  by_cases hcenter : center ∈ g.entities
  · have hzero : maxEntities ≠ 0 := by
      intro hzero
      rw [hzero, ← h.nodes_length] at hentities
      have hempty := List.eq_nil_of_length_eq_zero (Nat.le_zero.mp hentities)
      have hmem := h.stored.mpr hcenter
      rw [hempty] at hmem
      cases hmem
    have hroomEntities : forall n, n < g.entities.size -> room (some maxEntities) n :=
      fun n hn => Nat.lt_of_lt_of_le hn hentities
    have hroomEdges : forall n, n < g.graph.edges.length ->
        room (some maxRelationships) n :=
      fun n hn => Nat.lt_of_lt_of_le hn hrelationships
    have hroom : forall n, room none n := fun _ => trivial
    have hloose := h.lists_relationshipsOf.roomy h hcenter hroomEntities hroomEdges
    have hfree := h.lists_edgesOf.roomy h hcenter (fun n _ => hroom n)
      (fun n _ => hroom n)
    obtain ⟨a, hrun, hincluded, hkeys, htaken⟩ := explore_roomy hfree maxDepth
    obtain ⟨b, hrun', hincluded', hkeys', htaken'⟩ := explore_roomy hloose maxDepth
    obtain ⟨full, hfull, hshows⟩ := getEntityNetwork_shows h hcenter hrun
    obtain ⟨bounded, hbounded, hshows'⟩ :=
      getEntityNetworkBounded_shows h hcenter hzero hrun'
    have hdistance := distance_congr
      (h.lists_edgesOf.neighbours_iff h.lists_relationshipsOf) center
    refine ⟨full, bounded, hfull, hbounded, ?_, ?_⟩
    · refine Std.ExtTreeMap.ext_getElem? ?_
      intro n
      have hsame : n ∈ a.included ↔ n ∈ b.included := by
        rw [hincluded, hincluded']
        simp only [hdistance]
      rw [hshows.entities, hshows'.entities]
      exact if_congr hsame rfl rfl
    · rw [hshows.relationships, hshows'.relationships]
      refine (List.perm_ext_iff_of_nodup (List.Nodup.of_map _ hkeys)
        (List.Nodup.of_map _ hkeys')).mpr ?_
      intro r
      rw [htaken, htaken', h.lists_edgesOf.canonical_iff,
        h.lists_relationshipsOf.canonical_iff]
      simp only [hdistance]
      refine and_congr_right ?_
      intro _
      refine exists_congr ?_
      intro x
      refine exists_congr ?_
      intro n
      refine and_congr_right ?_
      intro _
      refine and_congr_right ?_
      intro _
      exact (h.lists_edgesOf.mem x r).trans (h.lists_relationshipsOf.mem x r).symm
  · exact ⟨EntityNetwork.empty center, EntityNetwork.empty center,
      getEntityNetwork_missing h hcenter,
      getEntityNetworkBounded_missing hcenter maxEntities maxRelationships, rfl,
      List.Perm.refl _⟩

end

/-!
# A graph with a cycle
-/

attribute [local instance] asciiTables

/-- Two relations between the same entities, a cycle and a relation of an entity to
itself. -/
def ringGraph : EntityGraph :=
  addRelationship 0
    (addRelationship 0
      (addRelationship 0
        (addRelationship 0
          (addRelationship 0 new ⟨"api", "auth", RelationType.dependsOn, "login"⟩)
          ⟨"api", "auth", RelationType.relatedTo, "team"⟩)
        ⟨"auth", "db", RelationType.dependsOn, "accounts"⟩)
      ⟨"db", "api", RelationType.leadsTo, "events"⟩)
    ⟨"db", "db", RelationType.relatedTo, "replica"⟩

theorem ringGraph_reached : Reached ringGraph :=
  ((((Reached.new.step 0 (RelationOp.addRelationship
    ⟨"api", "auth", RelationType.dependsOn, "login"⟩)).step 0
      (RelationOp.addRelationship
        ⟨"api", "auth", RelationType.relatedTo, "team"⟩)).step 0
          (RelationOp.addRelationship
            ⟨"auth", "db", RelationType.dependsOn, "accounts"⟩)).step 0
              (RelationOp.addRelationship
                ⟨"db", "api", RelationType.leadsTo, "events"⟩)).step 0
                  (RelationOp.addRelationship
                    ⟨"db", "db", RelationType.relatedTo, "replica"⟩)

theorem getEntityNetworkBounded_closest_ring :
    exists network, ringGraph.getEntityNetworkBounded "api" 2 2 3 = some network ∧
      Closest ringGraph "api" 2 2 3 network :=
  getEntityNetworkBounded_closest ringGraph_reached.indexed.coherent "api" 2 2 3

theorem networks_agree_ring :
    ringGraph.entities.size ≤ 3 ∧ ringGraph.graph.edges.length ≤ 5 ∧
    exists full bounded, ringGraph.getEntityNetwork "api" 1 = some full ∧
      ringGraph.getEntityNetworkBounded "api" 1 3 5 = some bounded ∧
      full.entities = bounded.entities ∧
      full.relationships.Perm bounded.relationships := by
  have hentities : ringGraph.entities.size ≤ 3 := by decide +kernel
  have hedges : ringGraph.graph.edges.length ≤ 5 := by decide +kernel
  exact ⟨hentities, hedges,
    networks_agree ringGraph_reached.indexed.coherent "api" 1 hentities hedges⟩

example : (ringGraph.getEntityNetwork "api" 1).map
      (fun network => network.relationships.map EntityRelationship.context) =
    some ["team", "login", "events"] := by
  decide +kernel

end EntityGraph
end Graph
end PostCortex
