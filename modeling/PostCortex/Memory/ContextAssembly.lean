import PostCortex.Core.UuidText
import PostCortex.Memory.Impact
import PostCortex.Memory.QueryEntities
import PostCortex.Parsing.Numerals
import PostCortex.Search.Packing
import PostCortex.Search.SemanticSearch
import PostCortex.Storage.Cards

/-!
# Assembled contexts

`assemble` of `assembly_scope.rs` with `context_assembly.rs`: the cards of the user and
the workspaces, the relations and the impact around the entities that a query names,
records and excerpts of conversations, within a budget of tokens, and the text that is
made of them.  The arithmetic of the scores is a parameter.
-/

namespace PostCortex
namespace Memory

open PostCortex.Core
open PostCortex.Graph
open PostCortex.Parsing
open PostCortex.Search
open PostCortex.Storage.Cards

class ScoreOps (score : Type) where
  literal : Rat -> score
  ofHours : Int -> score
  add : score -> score -> score
  mul : score -> score -> score
  div : score -> score -> score
  min : score -> score -> score
  le : score -> score -> Bool

def estimateTokens (text : String) : Nat :=
  (text.utf8ByteSize + 3) / 4

/-- `{:?}` of a relation. -/
def relationDebug : RelationType -> String
  | RelationType.requiredBy => "RequiredBy"
  | RelationType.leadsTo => "LeadsTo"
  | RelationType.relatedTo => "RelatedTo"
  | RelationType.conflictsWith => "ConflictsWith"
  | RelationType.dependsOn => "DependsOn"
  | RelationType.implements => "Implements"
  | RelationType.causedBy => "CausedBy"
  | RelationType.solves => "Solves"

/-!
# The entities around a query
-/

inductive EntityRelevance where
  | directMention
  | graphNeighbor (via relation : String)
  deriving DecidableEq, Repr

structure EntityContext where
  name : String
  relevance : EntityRelevance
  relationships : List EntityRelationship
  deriving DecidableEq, Repr

section

variable [CharTables]

/-- `find_related_entities`; `keys` are those of `entity_to_node` in the order in which
they are iterated. -/
def findRelatedEntities (keys : List String) (g : EntityGraph) (entityName : String) :
    List String :=
  let caseless := keys.find? (fun k =>
    CharTables.lowercase k = CharTables.lowercase entityName)
  match (g.entityToNode entityName).or (caseless.bind g.entityToNode) with
  | none => []
  | some node =>
      (((g.graph.edges.filter (fun e => decide (e.source = node))).map Edge.target ++
        (g.graph.edges.filter (fun e => decide (e.target = node))).map
          Edge.source).filterMap g.nodeToEntity).dedup.insertionSort (fun x y => x ≤ y)

end

def relationBetween (g : EntityGraph) (a b : String) : List EntityRelationship :=
  match g.entityToNode a, g.entityToNode b with
  | some na, some nb =>
      (g.graph.edges.filter (fun e => decide (e.source = na ∧ e.target = nb)) ++
        if na = nb then []
        else g.graph.edges.filter
          (fun e => decide (e.source = nb ∧ e.target = na))).filterMap g.relationRef
  | _, _ => []

def getRelationshipDescription (source target : String) (g : EntityGraph) : String :=
  match relationBetween g source target with
  | [] => "RelatedTo"
  | rel :: _ =>
      if rel.fromEntity = source then relationDebug rel.relationType
      else relationDebug rel.relationType ++ " (reverse)"

section

variable [CharTables]

/-- The names seen and the contexts built so far. -/
structure ContextBuild where
  seen : List String
  result : List EntityContext

def addContext (g : EntityGraph) (name : String) (relevance : EntityRelevance)
    (build : ContextBuild) : ContextBuild :=
  if name ∈ build.seen then build
  else ⟨name :: build.seen, build.result ++ [⟨name, relevance, g.relationshipsOf name⟩]⟩

def addNeighbours (keys : List String) (g : EntityGraph) (build : ContextBuild)
    (entity : String) : ContextBuild :=
  (findRelatedEntities keys g entity).foldl
    (fun build neighbor =>
      addContext g neighbor
        (EntityRelevance.graphNeighbor entity (getRelationshipDescription entity neighbor g))
        build) build

def contextDepth (keys : List String) (g : EntityGraph) (build : ContextBuild)
    (depth : Nat) : ContextBuild :=
  let current := build.result.filter (fun ec =>
    if depth = 0 then ec.relevance = EntityRelevance.directMention else true)
  (current.map EntityContext.name).foldl (addNeighbours keys g) build

def buildEntityContext (keys : List String) (queryEntities : List String)
    (g : EntityGraph) (maxDepth : Nat) : List EntityContext :=
  let direct := queryEntities.foldl
    (fun build entity => addContext g entity EntityRelevance.directMention build) ⟨[], []⟩
  ((List.range maxDepth).foldl (contextDepth keys g) direct).result

end

/-!
# The sections of the graph
-/

def relationLine (rel : EntityRelationship) : String :=
  "  " ++ rel.fromEntity ++ " --[" ++ relationDebug rel.relationType ++ "]--> " ++
    rel.toEntity

def entitySection (entityContext : List EntityContext) : Option String :=
  let lines := (entityContext.flatMap EntityContext.relationships).map relationLine
  if lines = [] then none
  else
    some ("Entity relationships:\n" ++
      joinWith "\n" (lines.insertionSort (fun x y => x ≤ y)).dedup)

def impactLine (i : ImpactEntry) : String :=
  "  " ++ i.entity ++ " depends on " ++ i.dependsOn ++ " (" ++
    relationDebug i.relationType ++ ")"

def impactSection (impact : List ImpactEntry) : Option String :=
  if impact = [] then none
  else
    some ("Impact analysis — these entities depend on what you're working with:\n" ++
      joinWith "\n" (impact.map impactLine))

def graphSections (entityContext : List EntityContext) (impact : List ImpactEntry) :
    List String :=
  (entitySection entityContext).toList ++ (impactSection impact).toList

def graphSectionTokens (entityContext : List EntityContext) (impact : List ImpactEntry) :
    Nat :=
  costOf estimateTokens (graphSections entityContext impact)

/-!
# Items
-/

inductive ContextSource where
  | semanticMatch
  | graphTraversal (viaEntity : String)
  | recentUpdate
  | conversation
  deriving DecidableEq, Repr

structure ContextItem (score : Type) where
  text : String
  score : score
  source : ContextSource
  entities : List String
  tokenEstimate : Nat
  entryId : String

structure AssembledContext (score : Type) where
  items : List (ContextItem score)
  entityContext : List EntityContext
  impact : List ImpactEntry
  totalTokens : Nat
  cards : List Card

section

variable {score : Type} [ScoreOps score]

def excerpt (text : String) (value : score) (entryId : String) : ContextItem score where
  text := text
  score := value
  source := ContextSource.conversation
  entities := []
  tokenEstimate := estimateTokens text
  entryId := entryId

variable [NameTables] [UuidText]

def eqIgnoreAsciiCase (a b : String) : Bool :=
  a.toList.map Char.toLower = b.toList.map Char.toLower

def mentionBoost : EntityRelevance -> score
  | EntityRelevance.directMention => ScoreOps.literal (2 / 5)
  | EntityRelevance.graphNeighbor _ _ => ScoreOps.literal (1 / 5)

def hourNanos : Int :=
  3600000000000

def scoreUpdate (now : Timestamp) (queryEntities : List String)
    (entityContext : List EntityContext) (update : ContextUpdate) : ContextItem score :=
  let text := update.content.title ++ ": " ++ update.content.description
  let ageHours := ScoreOps.ofHours (max ((now - update.timestamp).tdiv hourNanos) 0)
  let recencyScore : score :=
    ScoreOps.div (ScoreOps.literal 1)
      (ScoreOps.add (ScoreOps.literal 1) (ScoreOps.div ageHours (ScoreOps.literal 24)))
  let mentioned := entityContext.filter (fun ec =>
    (CharTables.lowercase ec.name).toList <:+: (CharTables.lowercase text).toList)
  let matchedEntities := mentioned.map EntityContext.name
  let entityBoost := mentioned.foldl
    (fun boost ec => ScoreOps.add boost (mentionBoost ec.relevance)) (ScoreOps.literal 0)
  let importanceBoost := if update.userMarkedImportant then ScoreOps.literal (1 / 5)
    else ScoreOps.literal 0
  { text := text
    score :=
      ScoreOps.min
        (ScoreOps.add (ScoreOps.add (ScoreOps.mul recencyScore (ScoreOps.literal (3 / 10)))
          entityBoost) importanceBoost)
        (ScoreOps.literal 1)
    source :=
      match matchedEntities with
      | [] => ContextSource.recentUpdate
      | viaEntity :: _ =>
          if queryEntities.any (fun qe =>
              matchedEntities.any (fun me => eqIgnoreAsciiCase me qe)) then
            ContextSource.semanticMatch
          else ContextSource.graphTraversal viaEntity
    entities := matchedEntities
    tokenEstimate := estimateTokens text
    entryId := UuidText.toText update.id }

def assembleContext (now : Timestamp) (keys : List String) (query : String)
    (graph : EntityGraph) (updates : List ContextUpdate) (tokenBudget : Nat) :
    AssembledContext score :=
  let queryEntities := findQueryEntities query graph
  let entityContext := buildEntityContext keys queryEntities graph 1
  let impact := analyzeImpact queryEntities graph
  let scoredItems := (updates.map (scoreUpdate now queryEntities entityContext)).insertionSort
    (fun a b => ScoreOps.le b.score a.score = true)
  let summaryTokens := graphSectionTokens entityContext impact
  let contentBudget := tokenBudget - summaryTokens
  let selected := pack ContextItem.tokenEstimate contentBudget 0 scoredItems
  { items := selected
    entityContext := entityContext
    impact := impact
    totalTokens := costOf ContextItem.tokenEstimate selected + summaryTokens
    cards := [] }

def entitySummaryTokens (keys : List String) (query : String) (graph : EntityGraph) : Nat :=
  let queryEntities := findQueryEntities query graph
  graphSectionTokens (buildEntityContext keys queryEntities graph 1)
    (analyzeImpact queryEntities graph)

/-!
# Cards and excerpts
-/

def trimText (text : String) : String :=
  String.ofList (trimBy CharTables.isWhitespace text.toList)

def filledCards (cards : List Card) : List Card :=
  cards.filter (fun c => trimText c.text ≠ "")

def cardTokens (cards : List Card) : Nat :=
  costOf (fun c => estimateTokens c.text + 8) (filledCards cards)

def addCards (ctx : AssembledContext score) (cards : List Card) : AssembledContext score :=
  { ctx with
    totalTokens := ctx.totalTokens + cardTokens (filledCards cards)
    cards := filledCards cards }

def addExcerpts (ctx : AssembledContext score) (excerpts : List (ContextItem score))
    (tokenBudget : Nat) : AssembledContext score :=
  let fitting := pack ContextItem.tokenEstimate tokenBudget ctx.totalTokens excerpts
  { ctx with
    items := ctx.items ++ fitting
    totalTokens := ctx.totalTokens + costOf ContextItem.tokenEstimate fitting }

structure Turn (score : Type) where
  text : String
  score : score
  entryId : String

/-- `assemble`, from what it reads of the memory: the cards and the turns that match. -/
def assemble (now : Timestamp) (keys : List String) (cards : List Card)
    (turns : List (Turn score)) (query : String) (graph : EntityGraph)
    (updates : List ContextUpdate) (tokenBudget : Nat) (corpus : Corpus) :
    AssembledContext score :=
  let tokenBudget := tokenBudget - cardTokens cards
  let excerpts := match corpus with
    | Corpus.records => []
    | _ => turns.map (fun t => excerpt t.text t.score t.entryId)
  let updates := match corpus with
    | Corpus.messages => []
    | _ => updates
  let excerptBudget := match corpus with
    | Corpus.messages => tokenBudget
    | _ => (tokenBudget - entitySummaryTokens keys query graph) / 2
  let excerpts := pack ContextItem.tokenEstimate excerptBudget 0 excerpts
  let excerptTokens := costOf ContextItem.tokenEstimate excerpts
  addCards
    (addExcerpts
      (assembleContext now keys query graph updates (tokenBudget - excerptTokens))
      excerpts tokenBudget)
    cards

/-!
# The text
-/

def cardPart (card : Card) : String :=
  (match card.scope with
    | CardScope.user => "User card"
    | CardScope.workspace _ => "Project card") ++ ":\n" ++ trimText card.text

def isExcerpt (item : ContextItem score) : Bool :=
  item.source = ContextSource.conversation

def recordsPart (items : List (ContextItem score)) : List String :=
  let records := items.filter (fun item => !isExcerpt item)
  if records.isEmpty then []
  else ["Relevant context:\n" ++ joinWith "\n---\n" (records.map ContextItem.text)]

def excerptsPart (items : List (ContextItem score)) : List String :=
  let excerpts := items.filter isExcerpt
  if excerpts.isEmpty then []
  else ["Conversation excerpts:\n" ++ joinWith "\n" (excerpts.map ContextItem.text)]

def formatForLlm (ctx : AssembledContext score) : String :=
  joinWith "\n\n"
    (ctx.cards.map cardPart ++ graphSections ctx.entityContext ctx.impact ++
      recordsPart ctx.items ++ excerptsPart ctx.items)

end

end Memory
end PostCortex
