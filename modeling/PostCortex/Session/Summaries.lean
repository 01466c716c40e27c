import PostCortex.Graph.EntityAnalysis
import PostCortex.Session.HotTier

/-!
# Summaries

`generate_structured_summary_filtered` of `summary/mod.rs` with the views of
`summary/presentation.rs`.  The clock does not move while a summary is made.
-/

namespace PostCortex
namespace Session

open PostCortex.Core
open PostCortex.Graph
open PostCortex.Search
open Std

def usizeMax : Nat := 18446744073709551615

def numDays (duration : Int) : Int :=
  (numSeconds duration).tdiv 86400

def numHours (duration : Int) : Int :=
  (numSeconds duration).tdiv 3600

/-!
# Views
-/

inductive ConfidenceLevel where
  | veryLow
  | low
  | medium
  | high
  deriving DecidableEq, Repr

inductive UrgencyLevel where
  | low
  | medium
  | high
  deriving DecidableEq, Repr

inductive ComplexityLevel where
  | low
  | medium
  | high
  deriving DecidableEq, Repr

inductive ImportanceLevel where
  | minimal
  | low
  | medium
  | high
  | critical
  deriving DecidableEq, Repr

inductive RecencyLevel where
  | today
  | recent
  | thisWeek
  | thisMonth
  | old
  deriving DecidableEq, Repr

inductive SessionDuration where
  | short
  | medium
  | long
  | extended
  deriving DecidableEq, Repr

inductive ActivityLevel where
  | minimal
  | low
  | medium
  | high
  | veryHigh
  deriving DecidableEq, Repr

structure DecisionSummary (f32 : Type) where
  description : String
  context : String
  alternatives : List String
  confidence : f32
  timestamp : Timestamp
  confidenceLevel : ConfidenceLevel

structure QuestionSummary where
  question : String
  context : String
  status : QuestionStatus
  timestamp : Timestamp
  lastUpdated : Timestamp
  daysOpen : Int
  urgencyLevel : UrgencyLevel
  deriving DecidableEq, Repr

structure ConceptSummary where
  name : String
  definition : String
  examples : List String
  relatedConcepts : List String
  timestamp : Timestamp
  complexityLevel : ComplexityLevel
  deriving DecidableEq, Repr

structure EntitySummary (f32 : Type) where
  entityName : String
  importanceScore : f32
  mentionCount : Nat
  relationshipCount : Nat
  firstSeen : Timestamp
  lastSeen : Timestamp
  importanceLevel : ImportanceLevel
  recencyLevel : RecencyLevel

structure SessionStats where
  sessionId : Uuid
  hotContextSize : Nat
  warmContextSize : Nat
  coldContextSize : Nat
  totalUpdates : Nat
  entityCount : Nat
  decisionCount : Nat
  openQuestionCount : Nat
  conceptCount : Nat
  codeReferenceCount : Nat
  createdAt : Timestamp
  lastUpdated : Timestamp
  sessionDuration : SessionDuration
  activityLevel : ActivityLevel
  deriving DecidableEq, Repr

structure StructuredSummaryView (f32 : Type) where
  sessionId : Uuid
  generatedAt : Timestamp
  keyDecisions : List (DecisionSummary f32)
  openQuestions : List QuestionSummary
  keyConcepts : List ConceptSummary
  importantEntities : List String
  entitySummaries : List (EntitySummary f32)
  sessionStats : SessionStats

section

variable {f32 : Type} [Floating f32]

def DecisionItem.machineConfidence (f32 : Type) [Floating f32] (decision : DecisionItem) :
    f32 :=
  Floating.ofRat decision.confidence

def atLeast (f : f32) (bound : Rat) : Bool :=
  Floating.ge f (Floating.ofRat bound)

def DecisionSummary.fromDecisionItem (decision : DecisionItem) : DecisionSummary f32 :=
  let confidence := decision.machineConfidence f32
  { description := decision.description
    context := decision.context
    alternatives := decision.alternatives
    confidence := confidence
    timestamp := decision.timestamp
    confidenceLevel :=
      if atLeast confidence (8 / 10) then ConfidenceLevel.high
      else if atLeast confidence (6 / 10) then ConfidenceLevel.medium
      else if atLeast confidence (4 / 10) then ConfidenceLevel.low
      else ConfidenceLevel.veryLow }

def QuestionSummary.fromQuestionItem (now : Timestamp) (question : QuestionItem) :
    QuestionSummary :=
  let daysOpen := numDays (now - question.timestamp)
  { question := question.question
    context := question.context
    status := question.status
    timestamp := question.timestamp
    lastUpdated := question.lastUpdated
    daysOpen := daysOpen
    urgencyLevel :=
      match question.status with
      | QuestionStatus.opened =>
          if 7 < daysOpen then UrgencyLevel.high
          else if 3 < daysOpen then UrgencyLevel.medium
          else UrgencyLevel.low
      | QuestionStatus.inProgress =>
          if 14 < daysOpen then UrgencyLevel.high else UrgencyLevel.medium
      | QuestionStatus.answered => UrgencyLevel.low
      | QuestionStatus.deferred => UrgencyLevel.low }

def ConceptSummary.fromConceptItem (concept : ConceptItem) : ConceptSummary where
  name := concept.name
  definition := concept.definition
  examples := concept.examples
  relatedConcepts := concept.relatedConcepts
  timestamp := concept.timestamp
  complexityLevel :=
    if 3 < concept.examples.length ∧ 5 < concept.relatedConcepts.length then
      ComplexityLevel.high
    else if 1 < concept.examples.length ∧ 2 < concept.relatedConcepts.length then
      ComplexityLevel.medium
    else ComplexityLevel.low

def EntitySummary.fromEntityAnalysis (now : Timestamp) (analysis : EntityAnalysis f32) :
    EntitySummary f32 :=
  let score := analysis.importanceScore
  let days := numDays (now - analysis.lastSeen)
  { entityName := analysis.entityName
    importanceScore := score
    mentionCount := analysis.mentionCount
    relationshipCount := analysis.relationshipCount
    firstSeen := analysis.firstSeen
    lastSeen := analysis.lastSeen
    importanceLevel :=
      if atLeast score 2 then ImportanceLevel.critical
      else if atLeast score (3 / 2) then ImportanceLevel.high
      else if atLeast score 1 then ImportanceLevel.medium
      else if atLeast score (1 / 2) then ImportanceLevel.low
      else ImportanceLevel.minimal
    recencyLevel :=
      if days = 0 then RecencyLevel.today
      else if 1 ≤ days ∧ days ≤ 3 then RecencyLevel.recent
      else if 4 ≤ days ∧ days ≤ 7 then RecencyLevel.thisWeek
      else if 8 ≤ days ∧ days ≤ 30 then RecencyLevel.thisMonth
      else RecencyLevel.old }

end

def calculateSessionStats (session : ActiveSession) : SessionStats :=
  let hours := numHours (session.lastUpdated - session.metadata.createdAt)
  let perHour := (session.incrementalUpdates.length : Int).tdiv (max hours 1)
  { sessionId := session.metadata.id
    hotContextSize := session.hotContext.len
    warmContextSize := session.warmContext.length
    coldContextSize := session.coldContext.length
    totalUpdates := session.incrementalUpdates.length
    entityCount := session.entityGraph.entities.size
    decisionCount := session.currentState.keyDecisions.length
    openQuestionCount := session.currentState.openQuestions.length
    conceptCount := session.currentState.keyConcepts.length
    codeReferenceCount :=
      (session.codeReferences.toList.map (fun r => r.2.length)).foldl Nat.add 0
    createdAt := session.metadata.createdAt
    lastUpdated := session.lastUpdated
    sessionDuration :=
      if 0 ≤ hours ∧ hours ≤ 1 then SessionDuration.short
      else if 2 ≤ hours ∧ hours ≤ 4 then SessionDuration.medium
      else if 5 ≤ hours ∧ hours ≤ 8 then SessionDuration.long
      else SessionDuration.extended
    activityLevel :=
      if 10 < perHour then ActivityLevel.veryHigh
      else if 5 < perHour then ActivityLevel.high
      else if 2 < perHour then ActivityLevel.medium
      else if 0 < perHour then ActivityLevel.low
      else ActivityLevel.minimal }

/-!
# Limits
-/

structure SummaryOptions (f32 : Type) where
  decisionsLimit : Option Nat
  entitiesLimit : Option Nat
  questionsLimit : Option Nat
  conceptsLimit : Option Nat
  minConfidence : Option f32
  compact : Bool

namespace SummaryOptions

variable {f32 : Type}

def entityLimit (options : SummaryOptions f32) : Nat :=
  if options.compact then 10 else options.entitiesLimit.getD 20

def keeps [Floating f32] (options : SummaryOptions f32) (decision : DecisionItem) : Bool :=
  match options.minConfidence with
  | none => true
  | some min => Floating.ge (decision.machineConfidence f32) min

end SummaryOptions

/-- `limit.unwrap_or(usize::MAX)`. -/
def limitOf (limit : Option Nat) : Nat :=
  limit.getD usizeMax

def topK {item : Type} (select : SelectNth) (items : List item) (limit : Option Nat)
    (cmp : item -> item -> Ordering) : List item :=
  topKBy select items (limitOf limit) cmp

def byConfidence (f32 : Type) [Floating f32] (a b : DecisionItem) : Ordering :=
  (compare (b.machineConfidence f32) (a.machineConfidence f32)).then
    (compare b.timestamp a.timestamp)

def byNewest {item : Type} (timestamp : item -> Timestamp) (a b : item) : Ordering :=
  compare (timestamp b) (timestamp a)

section

variable {f32 : Type} [Floating f32]

def generateStructuredSummaryFiltered (select : SelectNth)
    (centrality : EntityGraph -> Std.ExtTreeMap String f32) (session : ActiveSession)
    (options : SummaryOptions f32) (now : Timestamp) : StructuredSummaryView f32 :=
  let entityAnalysis :=
    session.entityGraph.analyzeEntityImportanceTop select centrality options.entityLimit
  let state := session.currentState
  let decisions := state.keyDecisions.zipIdx.filter (fun d => options.keeps d.1)
  { sessionId := session.metadata.id
    generatedAt := now
    keyDecisions :=
      (topK select decisions options.decisionsLimit (indexed (byConfidence f32))).map
        (fun d => DecisionSummary.fromDecisionItem d.1)
    openQuestions :=
      (topK select state.openQuestions.zipIdx options.questionsLimit
        (indexed (byNewest QuestionItem.timestamp))).map
        (fun q => QuestionSummary.fromQuestionItem now q.1)
    keyConcepts :=
      (topK select state.keyConcepts.zipIdx options.conceptsLimit
        (indexed (byNewest ConceptItem.timestamp))).map
        (fun c => ConceptSummary.fromConceptItem c.1)
    importantEntities := entityAnalysis.map EntityAnalysis.entityName
    entitySummaries := entityAnalysis.map (EntitySummary.fromEntityAnalysis now)
    sessionStats := calculateSessionStats session }

/-!
# The full sort, then the cut
-/

instance [TransOrd f32] : TransCmp (byConfidence f32) :=
  inferInstanceAs
    (TransCmp (compareLex
      (fun a b : DecisionItem => compareOn (DecisionItem.machineConfidence f32) b a)
      (fun a b : DecisionItem => compareOn DecisionItem.timestamp b a)))

instance {item : Type} (timestamp : item -> Timestamp) : TransCmp (byNewest timestamp) :=
  inferInstanceAs (TransCmp (fun a b : item => compareOn timestamp b a))

variable {item : Type} {select : SelectNth}

theorem topK_indexed (hselect : select.Partitions) {cmp : item -> item -> Ordering}
    [TransCmp cmp] {numbered : List (item × Nat)}
    (h : numbered.Pairwise (fun a b => a.2 < b.2)) (limit : Option Nat) :
    (topK select numbered limit (indexed cmp)).map Prod.fst =
      (sortBy cmp (numbered.map Prod.fst)).take (limitOf limit) := by
  rw [topK, topKBy_eq hselect (separates_indexed h), List.map_take, sortBy_indexed h]

theorem topK_zipIdx (hselect : select.Partitions) (cmp : item -> item -> Ordering)
    [TransCmp cmp] (items : List item) (limit : Option Nat) :
    (topK select items.zipIdx limit (indexed cmp)).map Prod.fst =
      (sortBy cmp items).take (limitOf limit) := by
  rw [topK_indexed hselect (pairwise_zipIdx items), List.zipIdx_map_fst]

theorem topK_filtered (hselect : select.Partitions) (cmp : item -> item -> Ordering)
    [TransCmp cmp] (items : List item) (keeps : item -> Bool) (limit : Option Nat) :
    (topK select (items.zipIdx.filter (fun x => keeps x.1)) limit (indexed cmp)).map
        Prod.fst =
      (sortBy cmp (items.filter keeps)).take (limitOf limit) := by
  have hfilter :
      (items.zipIdx.filter (fun x => keeps x.1)).map Prod.fst = items.filter keeps := by
    have h := List.filter_map (f := Prod.fst) (p := keeps) (l := items.zipIdx)
    rw [List.zipIdx_map_fst] at h
    exact h.symm
  rw [topK_indexed hselect ((pairwise_zipIdx items).filter _), hfilter]

/-- Every limited list of a summary is the start of the sorted list. -/
theorem summary_limited [TransOrd f32] {select : SelectNth} (hselect : select.Partitions)
    (centrality : EntityGraph -> Std.ExtTreeMap String f32) (session : ActiveSession)
    (options : SummaryOptions f32) (now : Timestamp) :
    let view := generateStructuredSummaryFiltered select centrality session options now
    let state := session.currentState
    let entities :=
      (sortBy Scored.byImportance (session.entityGraph.scored centrality)).take
        options.entityLimit
    view.keyDecisions =
      ((sortBy (byConfidence f32) (state.keyDecisions.filter options.keeps)).take
        (limitOf options.decisionsLimit)).map DecisionSummary.fromDecisionItem ∧
    view.openQuestions =
      ((sortBy (byNewest QuestionItem.timestamp) state.openQuestions).take
        (limitOf options.questionsLimit)).map (QuestionSummary.fromQuestionItem now) ∧
    view.keyConcepts =
      ((sortBy (byNewest ConceptItem.timestamp) state.keyConcepts).take
        (limitOf options.conceptsLimit)).map ConceptSummary.fromConceptItem ∧
    view.importantEntities = entities.map Scored.name ∧
    view.entitySummaries =
      entities.map (fun s => EntitySummary.fromEntityAnalysis now s.analysis) := by
  intro view state entities
  have hdecisions := topK_filtered hselect (byConfidence f32) state.keyDecisions
    options.keeps options.decisionsLimit
  have hquestions := topK_zipIdx hselect (byNewest QuestionItem.timestamp)
    state.openQuestions options.questionsLimit
  have hconcepts := topK_zipIdx hselect (byNewest ConceptItem.timestamp)
    state.keyConcepts options.conceptsLimit
  have hentities := session.entityGraph.analyzeEntityImportanceTop_eq hselect centrality
    options.entityLimit
  refine ⟨?_, ?_, ?_, ?_, ?_⟩
  · rw [← hdecisions, List.map_map]
    rfl
  · rw [← hquestions, List.map_map]
    rfl
  · rw [← hconcepts, List.map_map]
    rfl
  · change (session.entityGraph.analyzeEntityImportanceTop select centrality
      options.entityLimit).map EntityAnalysis.entityName = _
    rw [hentities, List.map_map]
    rfl
  · change (session.entityGraph.analyzeEntityImportanceTop select centrality
      options.entityLimit).map (EntitySummary.fromEntityAnalysis now) = _
    rw [hentities, List.map_map]
    rfl

end

/-!
# A tie at the cut
-/

@[reducible] def rationals : Floating Rat where
  compare a b := compareOfLessAndEq a b
  ge a b := decide (b ≤ a)
  ofRat q := q

theorem transOrd_rationals : @TransOrd Rat rationals.toOrd := by
  apply Std.TransOrd.compareOfLessAndEq_of_antisymm_of_trans_of_total_of_not_le
  · exact Rat.le_antisymm
  · exact Rat.le_trans
  · exact fun _ _ => Rat.le_total
  · exact Rat.not_le

def tiedDecision (description : String) (confidence : Rat) : DecisionItem where
  description := description
  context := ""
  alternatives := []
  confidence := confidence
  timestamp := 10

def tiedSession : ActiveSession :=
  { ActiveSession.new 1 none none 10 with
    currentState :=
      { StructuredContext.new with
        keyDecisions :=
          [tiedDecision "unsure" (1 / 4), tiedDecision "first" (1 / 2),
            tiedDecision "second" (1 / 2)] } }

def oneDecision : SummaryOptions Rat where
  decisionsLimit := some 1
  entitiesLimit := none
  questionsLimit := some 1
  conceptsLimit := none
  minConfidence := none
  compact := false

attribute [local instance] rationals transOrd_rationals in
/-- The first of two decisions that tie is kept. -/
theorem tied_summary_limited :
    ((generateStructuredSummaryFiltered SelectNth.sorting (fun _ => (∅ : Std.ExtTreeMap String Rat))
      tiedSession oneDecision 20).keyDecisions.map DecisionSummary.description) = ["first"] := by
  have h := summary_limited SelectNth.partitions_sorting (fun _ => (∅ : Std.ExtTreeMap String Rat))
    tiedSession oneDecision 20
  rw [h.1]
  decide +kernel

end Session
end PostCortex
