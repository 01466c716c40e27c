import PostCortex.Graph.Networks
import PostCortex.Search.Levels
import PostCortex.Storage.EntityRows
import PostCortex.Storage.StoredPaths

/-!
# Networks of stored entities

`get_entity_network` of `rocksdb_storage/graph.rs` beside the one of the entity graph
that was written.  Both find the entities within the depth.  The walk over the graph
takes the relations of the entities above the depth, the store all that lie between
entities of the network.
-/

namespace PostCortex
namespace Storage
namespace GraphRows

open PostCortex.Core
open PostCortex.Graph
open PostCortex.Search
open KeyValue

section

variable [UuidText]

def entityIn (sessionId : Uuid) (e : String × GraphRecord) : Option StoredEntity :=
  match e.2 with
  | GraphRecord.relationship _ => none
  | GraphRecord.entity entity =>
      if hasPrefix (sessionPrefix "entity:" sessionId) e.1 then some entity else none

def loadSessionEntities (db : GraphDb) (sessionId : Uuid) : List StoredEntity :=
  db.toList.filterMap (entityIn sessionId)

def networkNeighbours (db : GraphDb) (sessionId : Uuid) (name : String) :
    List String :=
  (((adjacency (fun neighbour rel => (neighbour, rel))
    (loadSessionRelationships db sessionId))[name]?).getD []).map Prod.fst

def getEntityNetwork (db : GraphDb) (sessionId : Uuid) (center : String)
    (maxDepth : Nat) : EntityNetwork :=
  let visited :=
    levelRounds (networkNeighbours db sessionId) maxDepth [center] [center]
  { center := center
    entities := Std.ExtTreeMap.ofList
      (((loadSessionEntities db sessionId).filter (fun e => e.name ∈ visited)).map
        (fun e => (e.name, e.toEntityData)))
    relationships :=
      ((loadSessionRelationships db sessionId).filter
        (fun r => r.fromEntity ∈ visited ∧ r.toEntity ∈ visited)).map
          StoredRelationship.toRelationship }

/-!
# Writing a graph
-/

def writes (sessionId : Uuid) (g : EntityGraph) : List Operation :=
  g.values.map (Operation.upsertEntity sessionId) ++
    g.getAllRelationships.map (Operation.createRelationship sessionId)

def writeGraph (db : GraphDb) (sessionId : Uuid) (g : EntityGraph) : GraphDb :=
  (writes sessionId g).foldl Operation.apply db

def NoRows (db : GraphDb) (sessionId : Uuid) : Prop :=
  forall k, hasPrefix (sessionPrefix "entity:" sessionId) k = true ∨
      hasPrefix (sessionPrefix "relationship:" sessionId) k = true ->
    db[k]? = none

theorem noRows_empty (s : Uuid) : NoRows (∅ : GraphDb) s := by
  intro k _
  simp

theorem writeGraph_eq (db : GraphDb) (s : Uuid) (g : EntityGraph) :
    writeGraph db s g = batchSaveGraphData db
      (g.values.map (StoredEntity.fromEntityData s))
      (g.getAllRelationships.map (StoredRelationship.fromRelationship s)) := by
  have hentities : forall (entities : List EntityData) (db : GraphDb),
      (entities.map (Operation.upsertEntity s)).foldl Operation.apply db =
        db.write (Database.puts StoredEntity.key GraphRecord.entity
          (entities.map (StoredEntity.fromEntityData s))) := by
    intro entities
    induction entities with
    | nil => exact fun _ => rfl
    | cons entity rest ih => exact fun db => ih _
  have hrelationships : forall (relationships : List EntityRelationship) (db : GraphDb),
      (relationships.map (Operation.createRelationship s)).foldl Operation.apply db =
        db.write (Database.puts StoredRelationship.key GraphRecord.relationship
          (relationships.map (StoredRelationship.fromRelationship s))) := by
    intro relationships
    induction relationships with
    | nil => exact fun _ => rfl
    | cons relationship rest ih => exact fun db => ih _
  rw [writeGraph, writes, List.foldl_append, hentities, hrelationships,
    batchSaveGraphData, Database.write_append]

variable {db : GraphDb} {s : Uuid}

theorem held_writeGraph [LawfulUuidText] (h : NoRows db s) (g : EntityGraph) :
    Held s (writeGraph db s g)
      (g.getAllRelationships.map (StoredRelationship.fromRelationship s)) := by
  have hempty : Held s db [] :=
    ⟨fun _ hr => absurd hr List.not_mem_nil, fun k hk => by
      rw [h k (Or.inr hk)]
      rfl⟩
  have hheld := (hempty.entities (g.values.map (StoredEntity.fromEntityData s))).relationships
    (g.getAllRelationships.map (StoredRelationship.fromRelationship s))
  have hall : (g.getAllRelationships.map (StoredRelationship.fromRelationship s)).filter
      (fun r => decide (r.sessionId = s)) =
        g.getAllRelationships.map (StoredRelationship.fromRelationship s) := by
    rw [List.filter_eq_self]
    intro r hr
    obtain ⟨x, _, rfl⟩ := List.mem_map.mp hr
    exact decide_eq_true rfl
  rw [hall, List.nil_append] at hheld
  rw [writeGraph_eq, batchSaveGraphData, Database.write_append]
  exact hheld

/-!
# The entities loaded
-/

variable {e : StoredEntity}

theorem entityIn_iff (k : String) (record : GraphRecord) :
    entityIn s (k, record) = some e ↔
      record = GraphRecord.entity e ∧
        hasPrefix (sessionPrefix "entity:" s) k = true := by
  cases record with
  | relationship r => simp [entityIn]
  | entity e' =>
      simp only [entityIn, GraphRecord.entity.injEq]
      split
      · next hk => simp [hk]
      · next hk => simp [hk]

theorem mem_loadSessionEntities :
    e ∈ loadSessionEntities db s ↔
      exists k, hasPrefix (sessionPrefix "entity:" s) k = true ∧
        db[k]? = some (GraphRecord.entity e) :=
  Database.mem_read entityIn_iff

theorem entityKey_inj {n m : String} (h : entityKey s n = entityKey s m) :
    n = m := by
  unfold entityKey at h
  exact String.append_right_inj _ |>.mp h

theorem StoredEntity.hasPrefix_key (e : StoredEntity) :
    hasPrefix (sessionPrefix "entity:" e.sessionId) e.key = true :=
  hasPrefix_append _ _

variable {g : EntityGraph}

omit [UuidText] in
theorem values_names (h : EntityGraph.Coherent g) {d : EntityData} :
    d ∈ g.values ↔ g.entities[d.name]? = some d := by
  rw [EntityGraph.values, List.mem_map]
  constructor
  · rintro ⟨⟨n, d'⟩, hmem, rfl⟩
    have hget := Std.ExtTreeMap.mem_toList_iff_getElem?_eq_some.mp hmem
    rw [h.named n _ hget]
    exact hget
  · exact fun hget =>
      ⟨(d.name, d), Std.ExtTreeMap.mem_toList_iff_getElem?_eq_some.mpr hget, rfl⟩

theorem get_writeGraph (hrows : NoRows db s) {k : String}
    (hk : hasPrefix (sessionPrefix "entity:" s) k = true) :
    (writeGraph db s g)[k]? =
      (Database.lastWith StoredEntity.key k
        (g.values.map (StoredEntity.fromEntityData s))).map GraphRecord.entity := by
  rw [writeGraph_eq, batchSaveGraphData, Database.write_append,
    Database.get_write_puts_other, Database.get_write_puts_last, hrows k (Or.inl hk),
    Option.or_none]
  intro r hr hkey
  obtain ⟨x, _, rfl⟩ := List.mem_map.mp hr
  have hother := not_entityPrefix
    (hkey ▸ (StoredRelationship.fromRelationship s x).hasPrefix_key) s
  rw [hk] at hother
  cases hother

theorem mem_loadSessionEntities_writeGraph (hrows : NoRows db s)
    (h : EntityGraph.Coherent g) :
    e ∈ loadSessionEntities (writeGraph db s g) s ↔
      exists d, g.entities[d.name]? = some d ∧ e = StoredEntity.fromEntityData s d := by
  rw [mem_loadSessionEntities]
  constructor
  · rintro ⟨k, hk, hget⟩
    rw [get_writeGraph hrows hk, Option.map_eq_some_iff] at hget
    obtain ⟨e', hlast, heq⟩ := hget
    cases heq
    obtain ⟨d, hd, rfl⟩ := List.mem_map.mp (Database.lastWith_some hlast).1
    exact ⟨d, (values_names h).mp hd, rfl⟩
  · rintro ⟨d, hd, rfl⟩
    have hk := (StoredEntity.fromEntityData s d).hasPrefix_key
    refine ⟨(StoredEntity.fromEntityData s d).key, hk, ?_⟩
    rw [get_writeGraph hrows hk]
    cases hlast : Database.lastWith StoredEntity.key
        (StoredEntity.fromEntityData s d).key
        (g.values.map (StoredEntity.fromEntityData s)) with
    | none =>
        exact absurd rfl (Database.lastWith_eq_none.mp hlast _
          (List.mem_map_of_mem ((values_names h).mpr hd)))
    | some e =>
        obtain ⟨he, hkey⟩ := Database.lastWith_some hlast
        obtain ⟨d', hd', rfl⟩ := List.mem_map.mp he
        have hname : d'.name = d.name := entityKey_inj hkey
        have hsame := (values_names h).mp hd'
        rw [hname, hd] at hsame
        rw [Option.some.inj hsame]
        rfl

theorem names_writeGraph (hrows : NoRows db s) (g : EntityGraph) :
    (loadSessionEntities (writeGraph db s g) s).Pairwise
      (fun x y => x.name ≠ y.name) := by
  have hkey : forall e x, e ∈ (writeGraph db s g).toList -> entityIn s e = some x ->
      e.1 = entityKey s x.name := by
    rintro ⟨k, record⟩ x he hread
    obtain ⟨rfl, hk⟩ := (entityIn_iff k record).mp hread
    have hget := Std.ExtTreeMap.mem_toList_iff_getElem?_eq_some.mp he
    rw [get_writeGraph hrows hk, Option.map_eq_some_iff] at hget
    obtain ⟨e, hlast, heq⟩ := hget
    cases heq
    obtain ⟨hmem, hk'⟩ := Database.lastWith_some hlast
    obtain ⟨d, _, rfl⟩ := List.mem_map.mp hmem
    exact hk'.symm
  refine ((writeGraph db s g).pairwise_read hkey).imp ?_
  exact fun hne heq => hne (congrArg (entityKey s) heq)

/-!
# The network stored
-/

def unaliased (d : EntityData) : EntityData :=
  { d with aliases := [] }

/-- A relation of the graph, the newest one with its ends and type. -/
def Newest (g : EntityGraph) (r : EntityRelationship) : Prop :=
  Database.lastWith EntityGraph.relationKey (EntityGraph.relationKey r) g.relations =
    some r

def Within (g : EntityGraph) (center : String) (maxDepth : Nat) (n : String) : Prop :=
  exists d, d ≤ maxDepth ∧ Distance g.neighbours center d n

section

variable {db : GraphDb} {s : Uuid} {g : EntityGraph}

omit [UuidText] in
theorem coherent_allRelationships (h : EntityGraph.Coherent g) :
    g.getAllRelationships = g.relations :=
  h.indexed.allRelationships

theorem latest_writeGraph [LawfulUuidText] (hrows : NoRows db s) (h : EntityGraph.Coherent g) :
    Latest g.relations (loadRelationships (writeGraph db s g) s) ↔
      Distinguished g.relations := by
  have hlatest := (held_writeGraph hrows g).latest_iff
  have hsame : (g.getAllRelationships.map
      (StoredRelationship.fromRelationship s)).map StoredRelationship.toRelationship =
        g.relations := by
    rw [List.map_map, coherent_allRelationships h]
    refine (List.map_congr_left ?_).trans (List.map_id _)
    exact fun r _ => StoredRelationship.toRelationship_fromRelationship s r
  rwa [hsame] at hlatest

omit [UuidText] in
theorem mem_neighbours (h : EntityGraph.Coherent g) {x y : String} :
    y ∈ g.neighbours x ↔ exists r, r ∈ g.relations ∧
      (r.fromEntity = x ∧ r.toEntity = y ∨ r.toEntity = x ∧ r.fromEntity = y) := by
  unfold EntityGraph.neighbours
  rw [List.mem_map]
  refine exists_congr ?_
  intro r
  rw [h.mem_relationshipsOf, and_assoc]
  refine and_congr_right ?_
  intro _
  unfold EntityGraph.otherEnd
  by_cases hx : r.fromEntity = x
  · rw [if_pos hx]
    constructor
    · exact fun hy => Or.inl ⟨hx, hy.2⟩
    · rintro (hy | ⟨hx', hy⟩)
      · exact ⟨Or.inl hx, hy.2⟩
      · exact ⟨Or.inl hx, hx'.trans (hx.symm.trans hy)⟩
  · rw [if_neg hx]
    constructor
    · exact fun hy => Or.inr ⟨hy.1.resolve_left hx, hy.2⟩
    · rintro (hy | hy)
      · exact absurd hy.1 hx
      · exact ⟨Or.inr hy.1, hy.2⟩

theorem mem_networkNeighbours (h : EntityGraph.Coherent g)
    (hlatest : Latest g.relations (loadRelationships db s)) {x y : String} :
    y ∈ networkNeighbours db s x ↔ y ∈ g.neighbours x := by
  have hjoined : y ∈ networkNeighbours db s x ↔
      exists r, r ∈ loadRelationships db s ∧
        (r.fromEntity = x ∧ r.toEntity = y ∨ r.toEntity = x ∧ r.fromEntity = y) := by
    unfold networkNeighbours loadRelationships
    rw [List.mem_map]
    constructor
    · rintro ⟨p, hp, rfl⟩
      obtain ⟨r, hr, hends⟩ := mem_adjacency.mp hp
      refine ⟨r.toRelationship, List.mem_map_of_mem hr, ?_⟩
      rcases hends with ⟨hx, rfl⟩ | ⟨hx, rfl⟩
      · exact Or.inl ⟨hx, rfl⟩
      · exact Or.inr ⟨hx, rfl⟩
    · rintro ⟨r', hr', hends⟩
      obtain ⟨r, hr, rfl⟩ := List.mem_map.mp hr'
      rcases hends with ⟨hx, hy⟩ | ⟨hx, hy⟩
      · exact ⟨(r.toEntity, r), mem_adjacency.mpr ⟨r, hr, Or.inl ⟨hx, rfl⟩⟩, hy⟩
      · exact ⟨(r.fromEntity, r), mem_adjacency.mpr ⟨r, hr, Or.inr ⟨hx, rfl⟩⟩, hy⟩
  rw [hjoined, mem_neighbours h]
  constructor
  · rintro ⟨r, hr, hends⟩
    exact ⟨r, (Database.lastWith_some ((hlatest.mem r).mp hr)).1, hends⟩
  · rintro ⟨r, hr, hends⟩
    cases hlast : Database.lastWith triple (triple r) g.relations with
    | none => exact absurd rfl (Database.lastWith_eq_none.mp hlast r hr)
    | some r' =>
        have hsame := (Database.lastWith_some hlast).2
        obtain ⟨hfrom, hto⟩ : r'.fromEntity = r.fromEntity ∧
            r'.toEntity = r.toEntity := by
          injection hsame with hfrom hrest
          injection hrest with hto _
          exact ⟨hfrom, hto⟩
        refine ⟨r', (hlatest.mem r').mpr (hsame ▸ hlast), ?_⟩
        rw [hfrom, hto]
        exact hends

variable (hrows : NoRows db s) (h : EntityGraph.Coherent g)
  (hlatest : Latest g.relations (loadRelationships (writeGraph db s g) s))
  (center : String) (maxDepth : Nat)

include h hlatest in
theorem mem_visited (n : String) :
    n ∈ levelRounds (networkNeighbours (writeGraph db s g) s) maxDepth [center]
        [center] ↔
      Within g center maxDepth n := by
  rw [(levels_start _ center).rounds, Nat.zero_add]
  unfold Within
  simp only [distance_congr (fun x y => mem_networkNeighbours h hlatest)]

include hrows h hlatest in
theorem get_entities_stored (n : String) (d : EntityData) :
    (getEntityNetwork (writeGraph db s g) s center maxDepth).entities[n]? = some d ↔
      Within g center maxDepth n ∧ exists d', g.entities[n]? = some d' ∧
        d = unaliased d' := by
  unfold getEntityNetwork
  dsimp only
  have hnames := names_writeGraph hrows g
  rw [Database.get_ofList]
  · rw [List.mem_map]
    constructor
    · rintro ⟨e, he, heq⟩
      obtain ⟨hload, hvisited⟩ := List.mem_filter.mp he
      obtain ⟨d', hd', rfl⟩ := (mem_loadSessionEntities_writeGraph hrows h).mp hload
      injection heq with hname hdata
      rw [← hname, ← hdata]
      refine ⟨(mem_visited h hlatest center maxDepth _).mp
        (of_decide_eq_true hvisited), d', hd', ?_⟩
      rw [StoredEntity.toEntityData_fromEntityData]
      rfl
    · rintro ⟨hwithin, d', hd', rfl⟩
      have hname := h.named n d' hd'
      refine ⟨StoredEntity.fromEntityData s d', List.mem_filter.mpr ⟨?_, ?_⟩, ?_⟩
      · exact (mem_loadSessionEntities_writeGraph hrows h).mpr
          ⟨d', hname.symm ▸ hd', rfl⟩
      · refine decide_eq_true ((mem_visited h hlatest center maxDepth _).mpr ?_)
        rwa [show (StoredEntity.fromEntityData s d').name = n from hname]
      · rw [StoredEntity.toEntityData_fromEntityData]
        exact congrArg (fun m => (m, unaliased d')) hname
  · rw [List.map_map]
    exact List.pairwise_map.mpr (hnames.filter _)

include h hlatest in
theorem mem_relationships_stored (r : EntityRelationship) :
    r ∈ (getEntityNetwork (writeGraph db s g) s center maxDepth).relationships ↔
      Newest g r ∧ Within g center maxDepth r.fromEntity ∧
        Within g center maxDepth r.toEntity := by
  have hmem := hlatest.mem r
  have hvisited := mem_visited h hlatest center maxDepth
  unfold getEntityNetwork
  dsimp only
  unfold Newest
  rw [← hvisited, ← hvisited]
  refine Iff.trans ?_ (and_congr_left' hmem)
  unfold loadRelationships
  rw [List.mem_map, List.mem_map]
  constructor
  · rintro ⟨x, hx, rfl⟩
    obtain ⟨hload, hends⟩ := List.mem_filter.mp hx
    exact ⟨⟨x, hload, rfl⟩, of_decide_eq_true hends⟩
  · rintro ⟨⟨x, hload, rfl⟩, hends⟩
    exact ⟨x, List.mem_filter.mpr ⟨hload, decide_eq_true hends⟩, rfl⟩

include hlatest in
theorem nodup_relationships_stored :
    (getEntityNetwork (writeGraph db s g) s center maxDepth).relationships.Nodup := by
  have honce : (loadRelationships (writeGraph db s g) s).Nodup :=
    List.Nodup.of_map triple hlatest.once
  unfold getEntityNetwork
  dsimp only
  refine honce.sublist ?_
  exact List.filter_sublist.map _

end

/-!
# The two networks
-/

/-- The entities and relationships of two networks. -/
structure Same (network stored : EntityNetwork) : Prop where
  entities : stored.entities = network.entities
  relationships : stored.relationships.Perm network.relationships

/-- The entities are the same but for their aliases, and the store has in addition the
relations between two entities at the depth. -/
structure SameBelow (g : EntityGraph) (center : String) (maxDepth : Nat)
    (network stored : EntityNetwork) : Prop where
  entities : forall n : String, (stored.entities[n]?).map unaliased =
    (network.entities[n]?).map unaliased
  nodup : network.relationships.Nodup ∧ stored.relationships.Nodup
  relationships : forall r, r ∈ stored.relationships ↔
    r ∈ network.relationships ∨
      Newest g r ∧ Distance g.neighbours center maxDepth r.fromEntity ∧
        Distance g.neighbours center maxDepth r.toEntity

variable {r : EntityRelationship}

omit [UuidText] in
theorem newest_iff :
    Newest g r ↔ g.newest.find?
      (fun f => EntityGraph.relationKey f = EntityGraph.relationKey r) = some r := by
  have hreverse : g.newest = g.relations.reverse := by
    rw [EntityGraph.newest, EntityGraph.relations, List.filterMap_reverse,
      List.reverse_reverse]
  rw [hreverse]
  rfl

omit [UuidText] in
theorem within_ends (h : EntityGraph.Coherent g) {center x : String}
    (hr : r ∈ g.relations) {m maxDepth : Nat} (hm : m < maxDepth)
    (hx : Distance g.neighbours center m x)
    (hends : r.fromEntity = x ∨ r.toEntity = x) :
    Within g center maxDepth r.fromEntity ∧ Within g center maxDepth r.toEntity := by
  have hnear : forall y, y ∈ g.neighbours x -> Within g center maxDepth y := by
    intro y hy
    obtain ⟨k, hk, hdist⟩ := hx.neighbour hy
    exact ⟨k, by omega, hdist⟩
  have hhere : Within g center maxDepth x := ⟨m, by omega, hx⟩
  rcases hends with rfl | rfl
  · exact ⟨hhere, hnear _ ((mem_neighbours h).mpr ⟨r, hr, Or.inl ⟨rfl, rfl⟩⟩)⟩
  · exact ⟨hnear _ ((mem_neighbours h).mpr ⟨r, hr, Or.inr ⟨rfl, rfl⟩⟩), hhere⟩

variable [LawfulUuidText]

/-- A graph written to a session without rows is read back as its own network, with
the relations between two entities at the depth in addition. -/
theorem getEntityNetwork_sameBelow {db : GraphDb} {s : Uuid} {g : EntityGraph}
    (hrows : NoRows db s) (h : EntityGraph.Coherent g)
    (hdistinguished : Distinguished g.relations) (center : String) (maxDepth : Nat) :
    exists network, g.getEntityNetwork center maxDepth = some network ∧
      SameBelow g center maxDepth network
        (getEntityNetwork (writeGraph db s g) s center maxDepth) := by
  have hlatest := (latest_writeGraph hrows h).mpr hdistinguished
  obtain ⟨network, hnetwork, hentities, hnodup, hrelationships⟩ :=
    EntityGraph.getEntityNetwork_around h center maxDepth
  have hstored := get_entities_stored hrows h hlatest center maxDepth
  refine ⟨network, hnetwork, ?_, ⟨hnodup, nodup_relationships_stored hlatest _ _⟩, ?_⟩
  · intro n
    apply Option.ext
    intro d
    rw [Option.map_eq_some_iff, Option.map_eq_some_iff]
    constructor
    · rintro ⟨d', hd', rfl⟩
      obtain ⟨hwithin, e, he, rfl⟩ := (hstored n d').mp hd'
      exact ⟨e, (hentities n e).mpr ⟨hwithin, he⟩, rfl⟩
    · rintro ⟨d', hd', rfl⟩
      obtain ⟨hwithin, he⟩ := (hentities n d').mp hd'
      exact ⟨unaliased d', (hstored n _).mpr ⟨hwithin, d', he, rfl⟩, rfl⟩
  · intro r
    rw [mem_relationships_stored h hlatest, hrelationships, ← newest_iff]
    constructor
    · rintro ⟨hnewest, ⟨m, hm, hfrom⟩, k, hk, hto⟩
      rcases Nat.lt_or_eq_of_le hm with hlt | rfl
      · exact Or.inl ⟨hnewest, _, m, hlt, hfrom, Or.inl rfl⟩
      · rcases Nat.lt_or_eq_of_le hk with hlt | rfl
        · exact Or.inl ⟨hnewest, _, k, hlt, hto, Or.inr rfl⟩
        · exact Or.inr ⟨hnewest, hfrom, hto⟩
    · rintro (⟨hnewest, x, m, hm, hx, hends⟩ | ⟨hnewest, hfrom, hto⟩)
      · exact ⟨hnewest, within_ends h (Database.lastWith_some hnewest).1 hm hx hends⟩
      · exact ⟨hnewest, ⟨_, Nat.le_refl _, hfrom⟩, _, Nat.le_refl _, hto⟩

end

attribute [local instance] hyphenatedText lawful_hyphenatedText EntityGraph.asciiTables

theorem ring_getEntityNetwork_sameBelow :
    exists network, EntityGraph.ringGraph.getEntityNetwork "api" 1 = some network ∧
      SameBelow EntityGraph.ringGraph "api" 1 network
        (getEntityNetwork (writeGraph ∅ 1 EntityGraph.ringGraph) 1 "api" 1) :=
  getEntityNetwork_sameBelow (noRows_empty 1)
    EntityGraph.ringGraph_reached.indexed.coherent (by decide +kernel) "api" 1

/-- At depth 1 the store has the relation of `auth` and `db` and that of `db` to
itself, and the walk over the graph has not. -/
theorem stored_network_has_more :
    ¬ exists network, EntityGraph.ringGraph.getEntityNetwork "api" 1 = some network ∧
      Same network
        (getEntityNetwork (writeGraph ∅ 1 EntityGraph.ringGraph) 1 "api" 1) := by
  rintro ⟨network, hnetwork, hsame⟩
  have hlength : (EntityGraph.ringGraph.getEntityNetwork "api" 1).map
      (fun network => network.relationships.length) = some 3 := by
    decide +kernel
  have hstored : (getEntityNetwork (writeGraph ∅ 1 EntityGraph.ringGraph) 1 "api"
      1).relationships.length = 5 := by
    decide +kernel
  rw [hnetwork] at hlength
  have hperm := hsame.relationships.length_eq
  have hthree : network.relationships.length = 3 := Option.some.inj hlength
  rw [hstored, hthree] at hperm
  cases hperm

end GraphRows
end Storage
end PostCortex
