import Std.Data.ExtTreeMap
import Mathlib.Data.List.Sort
import PostCortex.Core.ContextUpdate
import PostCortex.Naming.AliasIndex

/-!
# The entity graph

`SimpleEntityGraph` of `graph/entity_graph.rs`.  The ordered maps of the source
are ordered maps here; a hash map that is only looked up is a function.
`DiGraph` keeps the nodes by index, a number, and the edges newest first, the order in
which petgraph walks the edges of a node.  Unicode's whitespace and lowercase
tables are a parameter, `CharTables`.  An operation that reads the clock takes
the time as `now`; the clock does not move within one operation.
-/

namespace PostCortex
namespace Graph

open PostCortex.Core
open Naming

class CharTables where
  isWhitespace : Char -> Bool
  toLowercase : Char -> List Char
  lowercase : String -> String

def entityKey [CharTables] (name : String) : String :=
  let key :=
    (name.toList.filter
      (fun c => !CharTables.isWhitespace c && c != '-' && c != '_')).flatMap
        CharTables.toLowercase
  if key = [] then CharTables.lowercase name else String.ofList key

def names (entity : EntityData) : List String :=
  entity.name :: entity.aliases

def mentionedNames (update : ContextUpdate) : List String :=
  update.typedEntities.map TypedEntity.name ++ update.createsEntities ++
    update.referencesEntities ++
    update.createsRelationships.flatMap (fun r => [r.fromEntity, r.toEntity])

/-!
# Directed graphs
-/

structure EdgeData where
  relationType : RelationType
  context : String
  deriving DecidableEq, Repr

structure Edge where
  source : Nat
  target : Nat
  weight : EdgeData
  deriving DecidableEq, Repr

structure DiGraph where
  nodes : List String
  edges : List Edge
  deriving DecidableEq, Repr

namespace DiGraph

def new : DiGraph where
  nodes := []
  edges := []

def addNode (g : DiGraph) (weight : String) : DiGraph :=
  { g with nodes := g.nodes ++ [weight] }

def addEdge (g : DiGraph) (source target : Nat) (weight : EdgeData) :
    DiGraph :=
  { g with edges := ⟨source, target, weight⟩ :: g.edges }

def removeNode (g : DiGraph) (a : Nat) : DiGraph :=
  if a < g.nodes.length then
    let last := g.nodes.length - 1
    let moved (i : Nat) := if i = last then a else i
    { nodes :=
        match g.nodes[last]? with
        | some weight => (g.nodes.set a weight).dropLast
        | none => g.nodes
      edges :=
        (g.edges.filter (fun e => decide (e.source ≠ a ∧ e.target ≠ a))).map
          (fun e => { e with source := moved e.source, target := moved e.target }) }
  else g

/-- The new context of the first edge with these endpoints and this relation,
or a new edge. -/
def putEdge (g : DiGraph) (source target : Nat) (weight : EdgeData) :
    DiGraph :=
  let matching (e : Edge) : Bool :=
    decide (e.source = source ∧ e.target = target ∧
      e.weight.relationType = weight.relationType)
  match g.edges.findIdx? matching with
  | some i => { g with edges := g.edges.modify i (fun e => { e with weight := weight }) }
  | none => g.addEdge source target weight

end DiGraph

/-!
# Entity graphs
-/

structure EntityGraph where
  entities : Std.ExtTreeMap String EntityData
  entityMentions : Std.ExtTreeMap String (List Uuid)
  graph : DiGraph
  entityToNode : String -> Option Nat
  nodeToEntity : Nat -> Option String
  aliasIndex : String -> Option String

namespace EntityGraph

def new : EntityGraph where
  entities := ∅
  entityMentions := ∅
  graph := DiGraph.new
  entityToNode := fun _ => none
  nodeToEntity := fun _ => none
  aliasIndex := fun _ => none

def values (g : EntityGraph) : List EntityData :=
  g.entities.toList.map Prod.snd

def addNode (g : EntityGraph) (name : String) : EntityGraph :=
  { g with
    graph := g.graph.addNode name
    entityToNode := Function.update g.entityToNode name (some g.graph.nodes.length)
    nodeToEntity := Function.update g.nodeToEntity g.graph.nodes.length (some name) }

def ensureNode (g : EntityGraph) (name : String) : EntityGraph :=
  match g.entityToNode name with
  | some _ => g
  | none => g.addNode name

def remapNode (g : EntityGraph) (node : Nat) : EntityGraph :=
  match g.graph.nodes[node]? with
  | none => g
  | some swapped =>
      { g with
        entityToNode := Function.update g.entityToNode swapped (some node)
        nodeToEntity :=
          match g.entityToNode swapped with
          | some old =>
              Function.update (Function.update g.nodeToEntity old none) node
                (some swapped)
          | none => Function.update g.nodeToEntity node (some swapped) }

def removeEntity (g : EntityGraph) (name : String) : EntityGraph × Bool :=
  match g.entityToNode name with
  | none => (g, false)
  | some node =>
      let remapped :=
        { g with
          graph := g.graph.removeNode node
          entityToNode := Function.update g.entityToNode name none
          nodeToEntity := Function.update g.nodeToEntity node none }.remapNode
            node
      ({ remapped with
          entities := g.entities.erase name
          entityMentions := g.entityMentions.erase name
          aliasIndex := release g.aliasIndex name }, true)

def relationRef (g : EntityGraph) (e : Edge) : Option EntityRelationship :=
  (g.graph.nodes[e.source]?).bind fun fromName =>
    (g.graph.nodes[e.target]?).map fun toName =>
      { fromEntity := fromName
        toEntity := toName
        relationType := e.weight.relationType
        context := e.weight.context }

def relationshipsOf (g : EntityGraph) (entity : String) :
    List EntityRelationship :=
  match g.entityToNode entity with
  | none => []
  | some node =>
      (g.graph.edges.filter (fun e => decide (e.source = node)) ++
        g.graph.edges.filter
          (fun e => decide (e.target = node ∧ e.source ≠ node))).filterMap
            g.relationRef

variable [CharTables]

def resolve (g : EntityGraph) (name : String) : Option String :=
  if name ∈ g.entities then some name else g.aliasIndex (entityKey name)

def withAlias (entity : EntityData) (written : String) : EntityData :=
  if written ∈ names entity then entity
  else { entity with aliases := entity.aliases ++ [written] }

def noteAlias (g : EntityGraph) (name written : String) : EntityGraph :=
  match g.resolve name with
  | none => g
  | some canonical =>
      { g with
        entities :=
          match g.entities[canonical]? with
          | some entity => g.entities.insert canonical (withAlias entity written)
          | none => g.entities
        aliasIndex := claimKey canonical g.aliasIndex (entityKey written) }

def indexNames (g : EntityGraph) (canonical : String) : EntityGraph :=
  match g.entities[canonical]? with
  | none => g
  | some entity =>
      { g with
        aliasIndex :=
          claimKeys canonical g.aliasIndex ((names entity).map entityKey) }

def mentioned (entity : EntityData) (timestamp : Timestamp)
    (description : String) : EntityData :=
  { entity with
    lastMentioned := timestamp
    mentionCount := entity.mentionCount + 1
    description :=
      if entity.description = none ∧ description ≠ "" then some description
      else entity.description }

def created (name : String) (entityType : EntityType) (timestamp : Timestamp)
    (description : String) : EntityData where
  name := name
  entityType := entityType
  firstMentioned := timestamp
  lastMentioned := timestamp
  mentionCount := 1
  importanceScore := 1
  description := if description = "" then none else some description
  aliases := []

def addOrUpdateEntity (g : EntityGraph) (written : String)
    (entityType : EntityType) (timestamp : Timestamp) (description : String) :
    EntityGraph :=
  let name := (g.resolve written).getD written
  match g.entities[name]? with
  | some entity =>
      { g with
        entities :=
          g.entities.insert name
            (withAlias (mentioned entity timestamp description) written) }.ensureNode
              name
  | none =>
      ({ g with
        entities :=
          g.entities.insert name
            (created name entityType timestamp description) }.addNode
              name).indexNames name

def getOrCreateNode (g : EntityGraph) (written : String)
    (entityType : EntityType) (timestamp : Timestamp) :
    EntityGraph × Nat :=
  let name := (g.resolve written).getD written
  match g.entityToNode name with
  | some node => (g, node)
  | none =>
      let added := g.addOrUpdateEntity name entityType timestamp ""
      match added.entityToNode name with
      | some node => (added, node)
      | none => (added.addNode name, added.graph.nodes.length)

def addRelationship (now : Timestamp) (g : EntityGraph)
    (relationship : EntityRelationship) : EntityGraph :=
  let source :=
    g.getOrCreateNode relationship.fromEntity EntityType.concept now
  let target :=
    source.1.getOrCreateNode relationship.toEntity EntityType.concept now
  if source.2 = target.2 ∧ relationship.fromEntity ≠ relationship.toEntity then
    target.1
  else
    { target.1 with
      graph :=
        target.1.graph.putEdge source.2 target.2
          ⟨relationship.relationType, relationship.context⟩ }

def absorb (target gone : EntityData) : EntityData :=
  let merged :=
    { target with
      mentionCount := target.mentionCount + gone.mentionCount
      firstMentioned := min target.firstMentioned gone.firstMentioned
      lastMentioned := max target.lastMentioned gone.lastMentioned
      importanceScore := max target.importanceScore gone.importanceScore
      description := target.description.or gone.description }
  (names gone).foldl withAlias merged

def extendUnique (ids more : List Uuid) : List Uuid :=
  more.foldl (fun ids id => if id ∈ ids then ids else ids ++ [id]) ids

def redirect (gone into : String) (r : EntityRelationship) :
    Option EntityRelationship :=
  let renamed :=
    { r with
      fromEntity := if r.fromEntity = gone then into else r.fromEntity
      toEntity := if r.toEntity = gone then into else r.toEntity }
  if renamed.fromEntity = renamed.toEntity then none else some renamed

def mergeResolved (now : Timestamp) (g : EntityGraph) (gone into : String)
    (goneData : EntityData) : EntityGraph :=
  let relations := g.relationshipsOf gone
  let mentions := g.entityMentions[gone]?.getD []
  let removed := (g.removeEntity gone).1
  let entities :=
    match removed.entities[into]? with
    | some target => removed.entities.insert into (absorb target goneData)
    | none => removed.entities
  let keys :=
    match entities[into]? with
    | some target => (names target).map entityKey
    | none => []
  let merged :=
    { removed with
      entities := entities
      aliasIndex := assignKeys into removed.aliasIndex keys
      entityMentions :=
        if mentions = [] then removed.entityMentions
        else
          removed.entityMentions.insert into
            (extendUnique (removed.entityMentions[into]?.getD []) mentions) }
  (relations.filterMap (redirect gone into)).foldl (addRelationship now) merged

def mergeEntities (now : Timestamp) (g : EntityGraph) (written target : String) :
    EntityGraph × Bool :=
  match g.resolve written, g.resolve target with
  | some gone, some into =>
      if gone = into then (g, false)
      else
        match g.entities[gone]? with
        | none => (g, false)
        | some goneData => (g.mergeResolved now gone into goneData, true)
  | _, _ => (g, false)

def rebuildAliasIndex (now : Timestamp) (g : EntityGraph) : EntityGraph :=
  let order :=
    (g.values.map (fun e => (e.firstMentioned, e.name))).insertionSort
      (fun x y => x.1 < y.1 ∨ x.1 = y.1 ∧ x.2 ≤ y.2)
  let keysOf (name : String) :=
    match g.entities[name]? with
    | some entity => (names entity).map entityKey
    | none => []
  let built := rebuild keysOf (order.map Prod.snd)
  built.2.foldl (fun g merge => (g.mergeEntities now merge.1 merge.2).1)
    { g with aliasIndex := built.1 }

def explicitAliases (g : EntityGraph) : List (String × String) :=
  g.values.flatMap fun e =>
    (e.aliases.filter (fun a => decide (entityKey a ≠ entityKey e.name))).map
      (fun a => (a, e.name))

def otherOf (g : EntityGraph) (entity : EntityData) : Option String :=
  (names entity).findSome? (fun n =>
    (g.resolve n).filter (fun other => decide (other ≠ entity.name)))

def insertEntity (now : Timestamp) (g : EntityGraph) (entity : EntityData) :
    EntityGraph :=
  let noded := g.ensureNode entity.name
  let indexed :=
    { noded with
      entities := noded.entities.insert entity.name entity }.indexNames
        entity.name
  match g.otherOf entity with
  | none => indexed
  | some other =>
      let theirs :=
        match indexed.entities[other]? with
        | some e => e.firstMentioned
        | none => 0
      if entity.firstMentioned < theirs ∨
          entity.firstMentioned = theirs ∧ entity.name < other then
        (indexed.mergeEntities now other entity.name).1
      else (indexed.mergeEntities now entity.name other).1

/-- One step of `link_mentions`. -/
def linkMention (id : Uuid) (linked : EntityGraph × List String)
    (name : String) : EntityGraph × List String :=
  match linked.1.resolve name with
  | none => linked
  | some canonical =>
      if canonical ∈ linked.2 then linked
      else
        let ids := linked.1.entityMentions[canonical]?.getD []
        ({ linked.1 with
            entityMentions :=
              linked.1.entityMentions.insert canonical
                (if id ∈ ids then ids else ids ++ [id]) },
          canonical :: linked.2)

def linkMentions (g : EntityGraph) (update : ContextUpdate) : EntityGraph :=
  ((mentionedNames update).foldl (linkMention update.id) (g, [])).1

/-- One step of `relink_mentions`. -/
def relinkMention (id : Uuid) (g : EntityGraph) (name : String) : EntityGraph :=
  match g.resolve name with
  | none => g
  | some canonical =>
      let ids := g.entityMentions[canonical]?.getD []
      { g with
        entityMentions :=
          g.entityMentions.insert canonical
            (if ids.getLast? ≠ some id ∧ id ∉ ids then ids ++ [id] else ids) }

def relinkMentions (g : EntityGraph) (updates : List ContextUpdate) :
    EntityGraph :=
  updates.foldl
    (fun g update => (mentionedNames update).foldl (relinkMention update.id) g)
    { g with entityMentions := ∅ }

def mentionEntity (g : EntityGraph) (name : String) (updateId : Uuid)
    (timestamp : Timestamp) (score : Rat) : EntityGraph :=
  { g with
    entities :=
      match g.entities[name]? with
      | none => g.entities
      | some entity =>
          g.entities.insert name
            { entity with
              lastMentioned := timestamp
              mentionCount := entity.mentionCount + 1
              importanceScore := score }
    entityMentions :=
      g.entityMentions.insert name
        (g.entityMentions[name]?.getD [] ++ [updateId]) }

def updateEntityTimestamp (g : EntityGraph) (name : String)
    (timestamp : Timestamp) : EntityGraph :=
  match g.entities[name]? with
  | none => g
  | some entity =>
      { g with
        entities :=
          g.entities.insert name
            { entity with
              lastMentioned := timestamp
              mentionCount := entity.mentionCount + 1 } }

def addEntities (g : EntityGraph) (update : ContextUpdate) : EntityGraph :=
  if update.typedEntities = [] then
    update.createsEntities.foldl (fun g name =>
      g.addOrUpdateEntity name EntityType.concept update.timestamp
        ("From update: " ++ update.content.title)) g
  else
    update.typedEntities.foldl (fun g typed =>
      g.addOrUpdateEntity typed.name typed.entityType update.timestamp
        ("Provided by caller: " ++ update.content.title)) g

def applyUpdate (now : Timestamp) (g : EntityGraph) (update : ContextUpdate) :
    EntityGraph :=
  (update.createsRelationships.foldl (addRelationship now)
    (g.addEntities update)).linkMentions update

/-- One entity of the other graph in `merge_from`. -/
def mergeEntity (g : EntityGraph) (name : String) (data : EntityData) :
    EntityGraph :=
  data.aliases.foldl (fun g a => g.noteAlias name a)
    (g.addOrUpdateEntity name data.entityType data.lastMentioned
      (data.description.getD ""))

/-- One mention list of the other graph in `merge_from`. -/
def mergeMentions (g : EntityGraph) (name : String) (mentions : List Uuid) :
    EntityGraph :=
  let name := (g.resolve name).getD name
  { g with
    entityMentions :=
      g.entityMentions.insert name
        (extendUnique (g.entityMentions[name]?.getD []) mentions) }

def mergeFrom (now : Timestamp) (g other : EntityGraph) : EntityGraph :=
  let entities := other.entities.toList.foldl (fun g x => g.mergeEntity x.1 x.2) g
  let mentions :=
    other.entityMentions.toList.foldl (fun g x => g.mergeMentions x.1 x.2) entities
  (other.graph.edges.reverse.filterMap other.relationRef).foldl
    (addRelationship now) mentions

/-!
# Serialization
-/

def nodesByName (nodes : List String) : String -> Option Nat :=
  nodes.zipIdx.foldl (fun index x => Function.update index x.1 (some x.2))
    (fun _ => none)

end EntityGraph

structure EntityGraphData where
  entities : Std.ExtTreeMap String EntityData
  entityMentions : Std.ExtTreeMap String (List Uuid)
  nodes : List String
  edges : List (String × String × EdgeData)

/-- The order `RelationType` derives. -/
def relationRank : RelationType -> Nat
  | RelationType.requiredBy => 0
  | RelationType.leadsTo => 1
  | RelationType.relatedTo => 2
  | RelationType.conflictsWith => 3
  | RelationType.dependsOn => 4
  | RelationType.implements => 5
  | RelationType.causedBy => 6
  | RelationType.solves => 7

namespace EntityGraph

def serialize (g : EntityGraph) : EntityGraphData where
  entities := g.entities
  entityMentions := g.entityMentions
  nodes := g.graph.nodes.insertionSort (fun x y => x ≤ y)
  edges :=
    (g.graph.edges.reverse.filterMap (fun e =>
      (g.relationRef e).map (fun r => (r.fromEntity, r.toEntity, e.weight)))).insertionSort
        (fun x y => x.1 < y.1 ∨ x.1 = y.1 ∧ (x.2.1 < y.2.1 ∨ x.2.1 = y.2.1 ∧
          relationRank x.2.2.relationType ≤ relationRank y.2.2.relationType))

def deserializeGraph (data : EntityGraphData) : DiGraph :=
  data.edges.foldl (fun g e =>
    match nodesByName data.nodes e.1, nodesByName data.nodes e.2.1 with
    | some source, some target => g.addEdge source target e.2.2
    | _, _ => g)
    { DiGraph.new with nodes := data.nodes }

def unindexed (data : EntityGraphData) : EntityGraph :=
  { new with
    entities := data.entities
    entityMentions := data.entityMentions
    graph := deserializeGraph data
    entityToNode := nodesByName data.nodes
    nodeToEntity := fun i => data.nodes[i]? }

def deserialize [CharTables] (now : Timestamp) (data : EntityGraphData) :
    EntityGraph :=
  (unindexed data).rebuildAliasIndex now

end EntityGraph
end Graph
end PostCortex
