import PostCortex.Graph.EntityGraph

/-!
# Sessions

`ActiveSession` of `session/active_session.rs` with its hot tier.  A value here
is one version of a session: the source shares the parts of a version behind
`Arc` and copies a shared part before it writes to it, so a version never
changes.  The set of vectorized ids is one set for all versions of a handle
and is kept by the systems that read it.  What an operation reads from the
clock and the random source comes in as `Draws`.  The `timeout` calls guard
futures that never wait, so they do not fire.
-/

namespace PostCortex
namespace Session

open PostCortex.Core
open PostCortex.Graph

def maxDescriptionBytes : Nat :=
  64 * 1024

def maxColdSummaries : Nat :=
  100

/-!
# The structured state
-/

inductive QuestionStatus where
  | opened
  | inProgress
  | answered
  | deferred
  deriving DecidableEq, Repr

structure DecisionItem where
  description : String
  context : String
  alternatives : List String
  confidence : Rat
  timestamp : Timestamp
  deriving DecidableEq, Repr

structure QuestionItem where
  question : String
  context : String
  status : QuestionStatus
  timestamp : Timestamp
  lastUpdated : Timestamp
  deriving DecidableEq, Repr

structure ConceptItem where
  name : String
  definition : String
  examples : List String
  relatedConcepts : List String
  timestamp : Timestamp
  deriving DecidableEq, Repr

structure SpecItem where
  title : String
  description : String
  requirements : List String
  constraints : List String
  timestamp : Timestamp
  deriving DecidableEq, Repr

structure FlowItem where
  stepDescription : String
  timestamp : Timestamp
  relatedUpdates : List Uuid
  outcome : Option String
  deriving DecidableEq, Repr

structure StructuredContext where
  keyDecisions : List DecisionItem
  openQuestions : List QuestionItem
  keyConcepts : List ConceptItem
  technicalSpecifications : List SpecItem
  conversationFlow : List FlowItem
  deriving DecidableEq, Repr

def StructuredContext.new : StructuredContext where
  keyDecisions := []
  openQuestions := []
  keyConcepts := []
  technicalSpecifications := []
  conversationFlow := []

/-!
# The hot tier

Entries sit in numbered slots; a push takes the next number and drops the slot
`maxSize` below it.
-/

structure HotContext where
  updates : Std.ExtTreeMap Nat ContextUpdate
  nextId : Nat
  maxSize : Nat

namespace HotContext

def new (maxSize : Nat) : HotContext where
  updates := ∅
  nextId := 0
  maxSize := maxSize

def push (hot : HotContext) (update : ContextUpdate) : HotContext :=
  let inserted := hot.updates.insert hot.nextId update
  { hot with
    updates :=
      if hot.maxSize ≤ hot.nextId then
        inserted.erase (hot.nextId - hot.maxSize)
      else inserted
    nextId := hot.nextId + 1 }

def idRange (hot : HotContext) : List Nat :=
  List.range' (hot.nextId - hot.maxSize)
    (hot.nextId - (hot.nextId - hot.maxSize))

/-- `snapshot_arcs`. -/
def snapshot (hot : HotContext) : List ContextUpdate :=
  hot.idRange.filterMap (fun i => hot.updates[i]?)

def find (hot : HotContext) (pred : ContextUpdate -> Bool) :
    Option ContextUpdate :=
  hot.snapshot.find? pred

def containsId (hot : HotContext) (entryId : Uuid) : Bool :=
  hot.updates.toList.any (fun x => x.2.id == entryId)

/-- `remove_by_id`; among several slots with the id the source takes whichever
it meets first, here the oldest. -/
def removeById (hot : HotContext) (entryId : Uuid) : HotContext :=
  match hot.updates.toList.find? (fun x => x.2.id == entryId) with
  | none => hot
  | some x => { hot with updates := hot.updates.erase x.1 }

def fromUpdates (updates : List ContextUpdate) (maxSize : Nat) : HotContext :=
  updates.foldl push (new maxSize)

end HotContext

/-!
# Sessions
-/

structure UserPreferences where
  autoSaveEnabled : Bool
  contextRetentionDays : Nat
  maxHotContextSize : Nat
  autoSummaryThreshold : Nat
  importantKeywords : List String
  deriving DecidableEq, Repr

structure SessionMetadata where
  id : Uuid
  name : Option String
  description : Option String
  createdAt : Timestamp
  userPreferences : UserPreferences
  deriving DecidableEq, Repr

structure CompressedUpdate where
  update : ContextUpdate
  compressionRatio : Rat
  compressedAt : Timestamp
  deriving DecidableEq, Repr

structure StructuredSummary where
  summaryId : Uuid
  createdAt : Timestamp
  contextSnapshot : StructuredContext
  referencedUpdates : List Uuid
  summaryQuality : Rat
  deriving DecidableEq, Repr

structure ChangeRecord where
  id : Uuid
  timestamp : Timestamp
  changeType : String
  description : String
  relatedUpdateId : Option Uuid
  deriving DecidableEq, Repr

structure ActiveSession where
  metadata : SessionMetadata
  lastUpdated : Timestamp
  hotContext : HotContext
  warmContext : List CompressedUpdate
  coldContext : List StructuredSummary
  currentState : StructuredContext
  incrementalUpdates : List ContextUpdate
  codeReferences : Std.ExtTreeMap String (List CodeReference)
  changeHistory : List ChangeRecord
  entityGraph : EntityGraph

/-- What one attempt reads from the clock and the random source. -/
structure Draws where
  now : Timestamp
  updateId : Uuid
  changeId : Uuid
  summaryId : Uuid
  deriving DecidableEq, Repr

def defaultPreferences : UserPreferences where
  autoSaveEnabled := true
  contextRetentionDays := 30
  maxHotContextSize := 50
  autoSummaryThreshold := 100
  importantKeywords := []

namespace ActiveSession

def new (id : Uuid) (name description : Option String) (now : Timestamp) :
    ActiveSession where
  metadata :=
    { id := id
      name := name
      description := description
      createdAt := now
      userPreferences := defaultPreferences }
  lastUpdated := now
  hotContext := HotContext.new 50
  warmContext := []
  coldContext := []
  currentState := StructuredContext.new
  incrementalUpdates := []
  codeReferences := ∅
  changeHistory := []
  entityGraph := EntityGraph.new

/-!
# Adding updates
-/

/-- The characters that fit into `maxBytes` bytes. -/
def fittingChars : Nat -> List Char -> List Char
  | _, [] => []
  | maxBytes, c :: rest =>
      if c.utf8Size ≤ maxBytes then
        c :: fittingChars (maxBytes - c.utf8Size) rest
      else []

def truncateSafe (s : String) (maxBytes : Nat) : String :=
  if s.utf8ByteSize ≤ maxBytes then s
  else String.ofList (fittingChars maxBytes s.toList)

def limitedDescription (description : String) : String :=
  if maxDescriptionBytes < description.utf8ByteSize then
    truncateSafe description maxDescriptionBytes ++ "... (truncated)"
  else description

def limitedTitle (title : String) : String :=
  if 200 < title.utf8ByteSize then truncateSafe title 190 ++ "..." else title

def limited (update : ContextUpdate) : ContextUpdate :=
  { update with
    content :=
      { update.content with
        description := limitedDescription update.content.description
        title := limitedTitle update.content.title } }

def stepDescription (update : ContextUpdate) : String :=
  (match update.updateType with
    | UpdateType.questionAnswered => "Q&A: "
    | UpdateType.problemSolved => "Problem Solved: "
    | UpdateType.codeChanged => "Code Change: "
    | UpdateType.decisionMade => "Decision Made: "
    | UpdateType.conceptDefined => "Concept Defined: "
    | UpdateType.requirementAdded => "Requirement Added: ") ++
    update.content.title

def flowItem (update : ContextUpdate) : FlowItem where
  stepDescription := stepDescription update
  timestamp := update.timestamp
  relatedUpdates := [update.id]
  outcome := some update.content.description

def questionItem (update : ContextUpdate) : QuestionItem where
  question := update.content.title
  context := update.content.description
  status := QuestionStatus.answered
  timestamp := update.timestamp
  lastUpdated := update.timestamp

def decisionItem (update : ContextUpdate) : DecisionItem where
  description := update.content.title
  context := update.content.description
  alternatives := update.content.details
  confidence := 1
  timestamp := update.timestamp

def conceptItem (update : ContextUpdate) : ConceptItem where
  name := update.content.title
  definition := update.content.description
  examples := update.content.examples
  relatedConcepts := update.content.details
  timestamp := update.timestamp

def specItem (update : ContextUpdate) : SpecItem where
  title := update.content.title
  description := update.content.description
  requirements := update.content.details
  constraints := update.content.implications
  timestamp := update.timestamp

def recordItem (state : StructuredContext) (update : ContextUpdate) :
    StructuredContext :=
  match update.updateType with
  | UpdateType.questionAnswered =>
      { state with
        openQuestions := state.openQuestions ++ [questionItem update] }
  | UpdateType.problemSolved | UpdateType.codeChanged => state
  | UpdateType.decisionMade =>
      { state with
        keyDecisions := state.keyDecisions ++ [decisionItem update] }
  | UpdateType.conceptDefined =>
      { state with
        keyConcepts := state.keyConcepts ++ [conceptItem update] }
  | UpdateType.requirementAdded =>
      { state with
        technicalSpecifications :=
          state.technicalSpecifications ++ [specItem update] }

def recordUpdate (state : StructuredContext) (update : ContextUpdate) :
    StructuredContext :=
  let recorded := recordItem state update
  { recorded with
    conversationFlow := recorded.conversationFlow ++ [flowItem update] }

def updateCurrentState (session : ActiveSession) (update : ContextUpdate) :
    ActiveSession :=
  { session with currentState := recordUpdate session.currentState update }

def addCodeReference (session : ActiveSession) (codeRef : CodeReference) :
    ActiveSession :=
  { session with
    codeReferences :=
      session.codeReferences.insert codeRef.filePath
        (session.codeReferences[codeRef.filePath]?.getD [] ++ [codeRef]) }

/-- The update type as `{:?}` prints it. -/
def changeType : UpdateType -> String
  | UpdateType.questionAnswered => "QuestionAnswered"
  | UpdateType.problemSolved => "ProblemSolved"
  | UpdateType.codeChanged => "CodeChanged"
  | UpdateType.decisionMade => "DecisionMade"
  | UpdateType.conceptDefined => "ConceptDefined"
  | UpdateType.requirementAdded => "RequirementAdded"

def changeRecord (draws : Draws) (update : ContextUpdate) : ChangeRecord where
  id := draws.changeId
  timestamp := update.timestamp
  changeType := changeType update.updateType
  description := update.content.description
  relatedUpdateId := some update.id

def recordChange (session : ActiveSession) (draws : Draws)
    (update : ContextUpdate) : ActiveSession :=
  { session with
    changeHistory := session.changeHistory ++ [changeRecord draws update] }

def shouldCreateSummary (session : ActiveSession) : Bool :=
  let threshold := session.metadata.userPreferences.autoSummaryThreshold
  let len := session.incrementalUpdates.length
  decide (0 < threshold) && decide (0 < len) && decide (len % threshold = 0)

def referencedUpdates (window : List ContextUpdate) : List Uuid :=
  match window.head?, window.getLast? with
  | some first, some last =>
      if first.id ≠ last.id then [first.id, last.id] else [first.id]
  | some only, none => [only.id]
  | none, _ => []

def createPeriodicSummary (session : ActiveSession) (draws : Draws) :
    ActiveSession :=
  let threshold := session.metadata.userPreferences.autoSummaryThreshold
  let updates := session.incrementalUpdates
  let cold := session.coldContext ++
    [{ summaryId := draws.summaryId
       createdAt := draws.now
       contextSnapshot := StructuredContext.new
       referencedUpdates :=
         referencedUpdates (updates.drop (updates.length - threshold))
       summaryQuality := 1 }]
  { session with coldContext := cold.drop (cold.length - maxColdSummaries) }

def maintainContext (session : ActiveSession) (draws : Draws) : ActiveSession :=
  if session.shouldCreateSummary then session.createPeriodicSummary draws
  else session

def publish (session : ActiveSession) (draws : Draws) (update : ContextUpdate) :
    ActiveSession :=
  { session with
    lastUpdated := draws.now
    hotContext := session.hotContext.push update
    incrementalUpdates := session.incrementalUpdates ++ [update] }

def addRelatedCode (session : ActiveSession) (update : ContextUpdate) :
    ActiveSession :=
  match update.relatedCode with
  | none => session
  | some codeRef => session.addCodeReference codeRef

def addIncrementalUpdateFast (session : ActiveSession) (draws : Draws)
    (update : ContextUpdate) : ActiveSession :=
  let update := limited update
  ((((session.updateCurrentState update).addRelatedCode update).recordChange
    draws update).maintainContext draws).publish draws update

/-- `add_context_update`: the update is the one serde reads from the metadata,
or a plain one. -/
def addContextUpdate (session : ActiveSession) (draws : Draws)
    (description : String) (metadata : Option (Except String ContextUpdate)) :
    Except String (ActiveSession × ContextUpdate) :=
  match metadata with
  | some (Except.error e) =>
      Except.error ("Invalid ContextUpdate metadata: " ++ e)
  | some (Except.ok update) =>
      Except.ok (session.addIncrementalUpdateFast draws update, update)
  | none =>
      let update := ContextUpdate.plain draws.updateId draws.now description
      Except.ok (session.addIncrementalUpdateFast draws update, update)

/-!
# The entity graph of a session
-/

section

variable [CharTables]

def updateEntityGraph (session : ActiveSession) (now : Timestamp)
    (update : ContextUpdate) : ActiveSession :=
  { session with entityGraph := session.entityGraph.applyUpdate now update }

def applyEntityGraphUpdate (session : ActiveSession) (now : Timestamp)
    (update : ContextUpdate) : ActiveSession :=
  session.updateEntityGraph now update

def rebuildEntityGraphSync (session : ActiveSession) (now : Timestamp) :
    ActiveSession :=
  let merges := session.entityGraph.explicitAliases
  let graph :=
    session.incrementalUpdates.foldl (EntityGraph.applyUpdate now)
      EntityGraph.new
  { session with
    entityGraph :=
      merges.foldl (fun g m => (g.mergeEntities now m.1 m.2).1) graph }

end

/-!
# Removing updates
-/

def findUpdate (session : ActiveSession) (entryId : Uuid) :
    Option ContextUpdate :=
  match session.incrementalUpdates.find? (fun u => u.id == entryId) with
  | some update => some update
  | none =>
      match session.hotContext.find (fun u => u.id == entryId) with
      | some update => some update
      | none =>
          (session.warmContext.find? (fun c => c.update.id == entryId)).map
            CompressedUpdate.update

def removeItem (state : StructuredContext) (update : ContextUpdate) :
    StructuredContext :=
  let title := update.content.title
  let ts := update.timestamp
  match update.updateType with
  | UpdateType.questionAnswered =>
      { state with
        openQuestions := state.openQuestions.eraseP
          (fun q => q.question == title && q.timestamp == ts) }
  | UpdateType.decisionMade =>
      { state with
        keyDecisions := state.keyDecisions.eraseP
          (fun d => d.description == title && d.timestamp == ts) }
  | UpdateType.conceptDefined =>
      { state with
        keyConcepts := state.keyConcepts.eraseP
          (fun c => c.name == title && c.timestamp == ts) }
  | UpdateType.requirementAdded =>
      { state with
        technicalSpecifications := state.technicalSpecifications.eraseP
          (fun r => r.title == title && r.timestamp == ts) }
  | UpdateType.problemSolved | UpdateType.codeChanged => state

/-- The flow without an update: items about it alone are dropped, but only
when some item is about it. -/
def removeFlow (flow : List FlowItem) (id : Uuid) : List FlowItem :=
  if flow.any (fun f => f.relatedUpdates.contains id) then
    (flow.map (fun f =>
      { f with relatedUpdates := f.relatedUpdates.filter (· != id) })).filter
        (fun f => !f.relatedUpdates.isEmpty)
  else flow

def removeDerivedState (session : ActiveSession) (update : ContextUpdate) :
    ActiveSession :=
  let state := session.currentState
  { session with
    currentState :=
      removeItem
        { state with
          conversationFlow := removeFlow state.conversationFlow update.id }
        update }

def sameCode (codeRef r : CodeReference) : Bool :=
  r.startLine == codeRef.startLine && r.endLine == codeRef.endLine &&
    r.codeSnippet == codeRef.codeSnippet &&
    r.changeDescription == codeRef.changeDescription &&
    r.commitHash == codeRef.commitHash && r.branch == codeRef.branch

def removeCodeReference (session : ActiveSession) (codeRef : CodeReference) :
    ActiveSession :=
  match session.codeReferences[codeRef.filePath]? with
  | none => session
  | some refs =>
      if refs.any (sameCode codeRef) then
        let kept := refs.eraseP (sameCode codeRef)
        { session with
          codeReferences :=
            if kept.isEmpty then session.codeReferences.erase codeRef.filePath
            else session.codeReferences.insert codeRef.filePath kept }
      else session

/-- The mention lists without an id; a list left empty is dropped, but only
when some list holds the id. -/
def removeMentions (graph : EntityGraph) (id : Uuid) : EntityGraph :=
  if graph.entityMentions.toList.any (fun x => x.2.contains id) then
    { graph with
      entityMentions :=
        (graph.entityMentions.map (fun _ ids => ids.filter (· != id))).filter
          (fun _ ids => !ids.isEmpty) }
  else graph

def dropEntries (session : ActiveSession) (entryId : Uuid) : ActiveSession :=
  { session with
    hotContext :=
      if session.hotContext.containsId entryId then
        session.hotContext.removeById entryId
      else session.hotContext
    warmContext :=
      session.warmContext.filter (fun c => c.update.id != entryId)
    incrementalUpdates :=
      session.incrementalUpdates.filter (fun u => u.id != entryId)
    changeHistory :=
      session.changeHistory.filter
        (fun c => c.relatedUpdateId != some entryId) }

def removeUpdateById (session : ActiveSession) (entryId : Uuid) :
    Option ActiveSession :=
  match session.findUpdate entryId with
  | none => none
  | some removed =>
      let underived := (session.dropEntries entryId).removeDerivedState removed
      let unreferenced :=
        match removed.relatedCode with
        | none => underived
        | some codeRef => underived.removeCodeReference codeRef
      some
        { unreferenced with
          entityGraph := removeMentions unreferenced.entityGraph entryId }

def refersToFile (filePath : String) (update : ContextUpdate) : Bool :=
  update.relatedCode.any (fun codeRef => codeRef.filePath == filePath)

def removeUpdatesForFile (session : ActiveSession) (filePath : String) :
    ActiveSession × Nat :=
  let updates :=
    session.incrementalUpdates.filter (fun u => !refersToFile filePath u)
  let removed := session.incrementalUpdates.length - updates.length
  ({ session with
      incrementalUpdates := updates
      codeReferences :=
        if 0 < removed then session.codeReferences.erase filePath
        else session.codeReferences },
    removed)

/-!
# What an addition and a removal change
-/

theorem addRelatedCode_eq (session : ActiveSession) (update : ContextUpdate) :
    session.addRelatedCode update =
      { session with
        codeReferences := (session.addRelatedCode update).codeReferences } := by
  unfold addRelatedCode
  split
  · rfl
  · rfl

theorem addIncrementalUpdateFast_eq (session : ActiveSession) (draws : Draws)
    (update : ContextUpdate) :
    session.addIncrementalUpdateFast draws update =
      { session with
        lastUpdated := draws.now
        currentState := recordUpdate session.currentState (limited update)
        codeReferences := (session.addRelatedCode (limited update)).codeReferences
        changeHistory :=
          session.changeHistory ++ [changeRecord draws (limited update)]
        coldContext := (session.maintainContext draws).coldContext
        hotContext := session.hotContext.push (limited update)
        incrementalUpdates := session.incrementalUpdates ++ [limited update] } := by
  unfold addIncrementalUpdateFast
  dsimp only
  rw [addRelatedCode_eq]
  have hcode : ((session.updateCurrentState (limited update)).addRelatedCode
      (limited update)).codeReferences =
        (session.addRelatedCode (limited update)).codeReferences := by
    unfold addRelatedCode
    split
    · rfl
    · rfl
  rw [hcode]
  unfold maintainContext
  split
  · next hsummary =>
    rw [if_pos (show session.shouldCreateSummary = true from hsummary)]
    rfl
  · next hsummary =>
    rw [if_neg (show ¬ session.shouldCreateSummary = true from hsummary)]
    rfl
def dropReference (refs : Std.ExtTreeMap String (List CodeReference))
    (codeRef : CodeReference) : Std.ExtTreeMap String (List CodeReference) :=
  match refs[codeRef.filePath]? with
  | none => refs
  | some stored =>
      if stored.any (sameCode codeRef) then
        if (stored.eraseP (sameCode codeRef)).isEmpty then
          refs.erase codeRef.filePath
        else refs.insert codeRef.filePath (stored.eraseP (sameCode codeRef))
      else refs

theorem removeCodeReference_eq (session : ActiveSession) (codeRef : CodeReference) :
    session.removeCodeReference codeRef =
      { session with codeReferences := dropReference session.codeReferences codeRef } := by
  unfold removeCodeReference dropReference
  cases session.codeReferences[codeRef.filePath]? with
  | none => rfl
  | some stored =>
      dsimp only
      split
      · rfl
      · rfl

variable {refs : Std.ExtTreeMap String (List CodeReference)} {codeRef : CodeReference}
  {file : String}

theorem dropReference_other (h : codeRef.filePath ≠ file) :
    (dropReference refs codeRef)[file]? = refs[file]? := by
  unfold dropReference
  split
  · rfl
  · split
    · split
      · simp [Std.ExtTreeMap.getElem?_erase, h]
      · simp [Std.ExtTreeMap.getElem?_insert, h]
    · rfl

theorem dropReference_file {stored : List CodeReference}
    (h : refs[codeRef.filePath]? = some stored) (hstored : stored ≠ []) :
    (dropReference refs codeRef)[codeRef.filePath]? =
      if stored.eraseP (sameCode codeRef) = [] then none
      else some (stored.eraseP (sameCode codeRef)) := by
  unfold dropReference
  rw [h]
  dsimp only
  by_cases hany : stored.any (sameCode codeRef) = true
  · rw [if_pos hany]
    by_cases hempty : stored.eraseP (sameCode codeRef) = []
    · simp [hempty]
    · simp [hempty]
  · have hnone : forall r, r ∈ stored -> ¬ sameCode codeRef r = true :=
      fun r hr hsame => hany (List.any_eq_true.mpr ⟨r, hr, hsame⟩)
    rw [if_neg hany, List.eraseP_of_forall_not hnone, if_neg hstored, h]

theorem dropReference_references (codeRef : CodeReference) (file : String) :
    (dropReference refs codeRef)[file]?.getD [] =
      if codeRef.filePath = file then
        (refs[file]?.getD []).eraseP (sameCode codeRef)
      else refs[file]?.getD [] := by
  by_cases hfile : codeRef.filePath = file
  · subst hfile
    rw [if_pos rfl]
    cases hstored : refs[codeRef.filePath]? with
    | none => simp [dropReference, hstored]
    | some stored =>
        by_cases hempty : stored = []
        · subst hempty
          simp [dropReference, hstored]
        · rw [dropReference_file hstored hempty, Option.getD_some]
          split
          · next hnone => rw [hnone, Option.getD_none]
          · rfl
  · rw [if_neg hfile, dropReference_other hfile]

def removedState (state : StructuredContext) (removed : ContextUpdate) :
    StructuredContext :=
  removeItem
    { state with conversationFlow := removeFlow state.conversationFlow removed.id }
    removed

def without (session : ActiveSession) (entryId : Uuid) (removed : ContextUpdate) :
    ActiveSession :=
  { session with
    hotContext := (session.dropEntries entryId).hotContext
    warmContext := (session.dropEntries entryId).warmContext
    incrementalUpdates := (session.dropEntries entryId).incrementalUpdates
    changeHistory := (session.dropEntries entryId).changeHistory
    currentState := removedState session.currentState removed
    codeReferences :=
      removed.relatedCode.elim session.codeReferences
        (dropReference session.codeReferences)
    entityGraph := removeMentions session.entityGraph entryId }

variable {session : ActiveSession} {entryId : Uuid} {removed : ContextUpdate}

theorem findUpdate_none (h : session.findUpdate entryId = none) :
    forall u, u ∈ session.incrementalUpdates -> u.id ≠ entryId := by
  intro u hu hid
  unfold findUpdate at h
  split at h
  · cases h
  · next hnone =>
    have habsent := List.find?_eq_none.mp hnone u hu
    simp [hid] at habsent

theorem removeUpdateById_found (h : session.findUpdate entryId = some removed) :
    session.removeUpdateById entryId = some (session.without entryId removed) := by
  unfold removeUpdateById
  rw [h]
  dsimp only
  cases hcode : removed.relatedCode with
  | none =>
      simp only [without, hcode]
      rfl
  | some codeRef =>
      simp only [without, hcode, removeCodeReference_eq]
      rfl

theorem removeUpdateById_some {after : ActiveSession}
    (h : session.removeUpdateById entryId = some after) :
    exists removed, session.findUpdate entryId = some removed ∧
      after = session.without entryId removed := by
  cases hfound : session.findUpdate entryId with
  | none =>
      rw [removeUpdateById, hfound] at h
      cases h
  | some removed =>
      rw [removeUpdateById_found hfound] at h
      exact ⟨removed, rfl, (Option.some.inj h).symm⟩

end ActiveSession
end Session
end PostCortex
