import PostCortex.Session.Removal

/-!
# Derived state

What `surrealdb_storage/graph.rs` makes of the stored updates of a session when
it loads it (`rebuild_structured_context`, `extract_code_references` and
`extract_change_history`), beside what the session kept while they were added.
-/

namespace PostCortex
namespace Session

open PostCortex.Core
open ActiveSession

def maxFlowItems : Nat :=
  500

namespace DerivedState

def addFlowItem (context : StructuredContext) (item : FlowItem) :
    StructuredContext :=
  { context with
    conversationFlow :=
      (if maxFlowItems ≤ context.conversationFlow.length then
        context.conversationFlow.drop (maxFlowItems / 10)
      else context.conversationFlow) ++ [item] }

def rebuiltDecision (update : ContextUpdate) : DecisionItem where
  description := update.content.title
  context := update.content.description
  alternatives := update.content.details
  confidence := if update.userMarkedImportant = true then 9 / 10 else 7 / 10
  timestamp := update.timestamp

def rebuiltFlow (update : ContextUpdate) : FlowItem where
  stepDescription := changeType update.updateType ++ ": " ++ update.content.title
  timestamp := update.timestamp
  relatedUpdates := [update.id]
  outcome :=
    if update.content.description = "" then none
    else some update.content.description

def rebuiltConcept (update : ContextUpdate) (entity : String) : ConceptItem where
  name := entity
  definition := ""
  examples := []
  relatedConcepts := update.referencesEntities
  timestamp := update.timestamp

def extractDecision (context : StructuredContext) (update : ContextUpdate) :
    StructuredContext :=
  if update.updateType = UpdateType.decisionMade then
    { context with
      keyDecisions := context.keyDecisions ++ [rebuiltDecision update] }
  else context

def extractQuestion (context : StructuredContext) (update : ContextUpdate) :
    StructuredContext :=
  if update.updateType = UpdateType.questionAnswered then
    { context with
      openQuestions := context.openQuestions ++ [questionItem update] }
  else context

def extractFlow (context : StructuredContext) (update : ContextUpdate) :
    StructuredContext :=
  if context.conversationFlow.length < 500 then
    addFlowItem context (rebuiltFlow update)
  else context

def extractConcept (update : ContextUpdate) (context : StructuredContext)
    (entity : String) : StructuredContext :=
  if !context.keyConcepts.any (fun c => c.name = entity) &&
      context.keyConcepts.length < 50 then
    { context with
      keyConcepts := context.keyConcepts ++ [rebuiltConcept update entity] }
  else context

def extract (context : StructuredContext) (update : ContextUpdate) :
    StructuredContext :=
  update.createsEntities.foldl (extractConcept update)
    (extractFlow (extractQuestion (extractDecision context update) update)
      update)

def rebuildStructuredContext (updates : List ContextUpdate) :
    StructuredContext :=
  updates.foldl extract StructuredContext.new

def pushReference (refs : Std.ExtTreeMap String (List CodeReference))
    (update : ContextUpdate) : Std.ExtTreeMap String (List CodeReference) :=
  match update.relatedCode with
  | none => refs
  | some codeRef =>
      refs.insert codeRef.filePath (refs[codeRef.filePath]?.getD [] ++ [codeRef])

def extractCodeReferences (updates : List ContextUpdate) :
    Std.ExtTreeMap String (List CodeReference) :=
  updates.foldl pushReference ∅

def extractChangeHistory (updates : List ContextUpdate) : List ChangeRecord :=
  (updates.filter (fun u => u.updateType = UpdateType.codeChanged)).map
    (fun u =>
      { id := u.id
        timestamp := u.timestamp
        changeType := "CodeChanged"
        description := u.content.description
        relatedUpdateId := u.parentUpdate })

/-!
# The rebuilt context
-/

theorem foldl_extractConcept (update : ContextUpdate) (entities : List String)
    (context : StructuredContext) :
    exists found, entities.foldl (extractConcept update) context =
      { context with keyConcepts := found } := by
  induction entities generalizing context with
  | nil => exact ⟨context.keyConcepts, rfl⟩
  | cons entity rest ih =>
      rw [List.foldl_cons, extractConcept]
      split
      · obtain ⟨found, hfound⟩ := ih { context with
          keyConcepts := context.keyConcepts ++ [rebuiltConcept update entity] }
        exact ⟨found, hfound⟩
      · exact ih context

theorem extract_lists (context : StructuredContext) (update : ContextUpdate) :
    (extract context update).openQuestions =
        (extractQuestion context update).openQuestions ∧
      (extract context update).keyDecisions =
        (extractDecision context update).keyDecisions ∧
      (extract context update).conversationFlow =
        (extractFlow context update).conversationFlow := by
  obtain ⟨found, hfound⟩ := foldl_extractConcept update update.createsEntities
    (extractFlow (extractQuestion (extractDecision context update) update) update)
  rw [extract, hfound]
  unfold extractFlow extractQuestion extractDecision addFlowItem
  refine ⟨?_, ?_, ?_⟩
  · split <;> split <;> split <;> rfl
  · split <;> split <;> split <;> rfl
  · split <;> split <;> split <;> rfl

theorem rebuilt_questions (updates : List ContextUpdate) :
    (rebuildStructuredContext updates).openQuestions =
      (updates.filter
        (fun u => u.updateType = UpdateType.questionAnswered)).map
          questionItem := by
  induction updates using List.reverseRecOn with
  | nil => rfl
  | append_singleton updates update ih =>
      rw [rebuildStructuredContext, List.foldl_append]
      show (extract (rebuildStructuredContext updates) update).openQuestions = _
      rw [(extract_lists _ update).1, extractQuestion]
      split
      · next hkind => simp [ih, hkind]
      · next hkind => simp [ih, hkind]

theorem rebuilt_decisions (updates : List ContextUpdate) :
    (rebuildStructuredContext updates).keyDecisions =
      (updates.filter (fun u => u.updateType = UpdateType.decisionMade)).map
        rebuiltDecision := by
  induction updates using List.reverseRecOn with
  | nil => rfl
  | append_singleton updates update ih =>
      rw [rebuildStructuredContext, List.foldl_append]
      show (extract (rebuildStructuredContext updates) update).keyDecisions = _
      rw [(extract_lists _ update).2.1, extractDecision]
      split
      · next hkind => simp [ih, hkind]
      · next hkind => simp [ih, hkind]

theorem rebuilt_flow {updates : List ContextUpdate} (h : updates.length ≤ 500) :
    (rebuildStructuredContext updates).conversationFlow =
      updates.map rebuiltFlow := by
  induction updates using List.reverseRecOn with
  | nil => rfl
  | append_singleton updates update ih =>
      rw [List.length_append, List.length_singleton] at h
      have hbefore := ih (by omega)
      have hroom : (rebuildStructuredContext updates).conversationFlow.length <
          500 := by
        rw [hbefore, List.length_map]
        omega
      rw [rebuildStructuredContext, List.foldl_append]
      show (extract (rebuildStructuredContext updates) update).conversationFlow = _
      rw [(extract_lists _ update).2.2, extractFlow, if_pos hroom, addFlowItem]
      dsimp only
      rw [if_neg (by rw [maxFlowItems]; omega), hbefore, List.map_append]
      rfl

/-!
# The rebuilt concepts
-/

theorem eraseDups_snoc (names : List String) (name : String) :
    (names ++ [name]).eraseDups =
      if name ∈ names then names.eraseDups else names.eraseDups ++ [name] := by
  rw [List.eraseDups_append]
  split
  · next hmem =>
    simp [List.removeAll, hmem]
  · next hmem =>
    simp [List.removeAll, hmem, List.eraseDups_cons]

def Named (context : StructuredContext) (names : List String) : Prop :=
  context.keyConcepts.map ConceptItem.name = names.eraseDups.take 50

variable {context : StructuredContext} {names : List String}

theorem Named.extractConcept (h : Named context names) (update : ContextUpdate)
    (entity : String) :
    Named (extractConcept update context entity) (names ++ [entity]) := by
  have hnames : context.keyConcepts.map ConceptItem.name =
      names.eraseDups.take 50 :=
    h
  have hlength : context.keyConcepts.length = min 50 names.eraseDups.length := by
    rw [← List.length_map (f := ConceptItem.name), hnames, List.length_take]
  have hknown : context.keyConcepts.any (fun c => c.name = entity) =
      decide (entity ∈ names.eraseDups.take 50) := by
    rw [← hnames]
    simp [List.any_eq, eq_comm]
  rw [Named, DerivedState.extractConcept, hknown, eraseDups_snoc]
  by_cases hfull : context.keyConcepts.length < 50
  · -- every name so far has its concept
    have hall : names.eraseDups.take 50 = names.eraseDups :=
      List.take_of_length_le (by omega)
    rw [hall] at hnames ⊢
    by_cases hmem : entity ∈ names
    · simp [hmem, hnames, hall]
    · have hshort : (names.eraseDups ++ [entity]).take 50 =
          names.eraseDups ++ [entity] :=
        List.take_of_length_le (by simp; omega)
      simp [hmem, hfull, hnames, hshort, rebuiltConcept]
  · have hshort : (names.eraseDups ++ [entity]).take 50 =
        names.eraseDups.take 50 :=
      List.take_append_of_le_length (by omega)
    simp only [hfull, decide_false, Bool.and_false, Bool.false_eq_true, if_false]
    split
    · exact hnames
    · rw [hshort]
      exact hnames

theorem Named.foldl {update : ContextUpdate} {entities : List String}
    (h : Named context names) :
    Named (entities.foldl (DerivedState.extractConcept update) context)
      (names ++ entities) := by
  induction entities generalizing context names with
  | nil =>
      rw [List.append_nil]
      exact h
  | cons entity rest ih =>
      rw [List.append_cons]
      exact ih (h.extractConcept update entity)

theorem rebuilt_concepts (updates : List ContextUpdate) :
    Named (rebuildStructuredContext updates)
      (updates.flatMap ContextUpdate.createsEntities) := by
  induction updates using List.reverseRecOn with
  | nil => rfl
  | append_singleton updates update ih =>
      rw [rebuildStructuredContext, List.foldl_append, List.flatMap_append]
      show Named (extract (rebuildStructuredContext updates) update) _
      rw [List.flatMap_singleton]
      have hsame : (extractFlow (extractQuestion (extractDecision
          (rebuildStructuredContext updates) update) update) update).keyConcepts =
          (rebuildStructuredContext updates).keyConcepts := by
        unfold extractFlow extractQuestion extractDecision addFlowItem
        split <;> split <;> split <;> rfl
      have hbefore : Named (extractFlow (extractQuestion (extractDecision
          (rebuildStructuredContext updates) update) update) update)
          (updates.flatMap ContextUpdate.createsEntities) := by
        rw [Named, hsame]
        exact ih
      exact hbefore.foldl

/-!
# The session that was kept live
-/

def addAll (session : ActiveSession) (adds : List (Draws × ContextUpdate)) :
    ActiveSession :=
  adds.foldl (fun s a => s.addIncrementalUpdateFast a.1 a.2) session

theorem addAll_snoc (session : ActiveSession)
    (adds : List (Draws × ContextUpdate)) (a : Draws × ContextUpdate) :
    addAll session (adds ++ [a]) =
      (addAll session adds).addIncrementalUpdateFast a.1 a.2 := by
  rw [addAll, List.foldl_append]
  rfl

theorem addIncrementalUpdateFast_codeReferences (session : ActiveSession)
    (draws : Draws) (update : ContextUpdate) :
    (session.addIncrementalUpdateFast draws update).codeReferences =
      pushReference session.codeReferences (limited update) := by
  rw [addIncrementalUpdateFast_eq]
  unfold addRelatedCode pushReference
  cases (limited update).relatedCode with
  | none | some codeRef => rfl

variable {session : ActiveSession} {adds : List (Draws × ContextUpdate)}

theorem holds_addAll (hnew : Holds session [])
    (hlimits : forall a, a ∈ adds -> limited a.2 = a.2) :
    Holds (addAll session adds) adds := by
  induction adds using List.reverseRecOn with
  | nil => exact hnew
  | append_singleton adds a ih =>
      have hbefore := ih (fun b hb => hlimits b (List.mem_append_left _ hb))
      have hadded := hbefore.add a.1 a.2
      rw [hlimits a (List.mem_append_right _ (List.mem_singleton.mpr rfl))] at hadded
      rw [addAll_snoc]
      exact hadded

theorem codeReferences_addAll (hnew : session.codeReferences = ∅)
    (hlimits : forall a, a ∈ adds -> limited a.2 = a.2) :
    (addAll session adds).codeReferences =
      extractCodeReferences (adds.map Prod.snd) := by
  induction adds using List.reverseRecOn with
  | nil => exact hnew
  | append_singleton adds a ih =>
      rw [addAll_snoc, addIncrementalUpdateFast_codeReferences,
        ih (fun b hb => hlimits b (List.mem_append_left _ hb)),
        hlimits a (List.mem_append_right _ (List.mem_singleton.mpr rfl)),
        List.map_append, extractCodeReferences, extractCodeReferences,
        List.foldl_append]
      rfl

/-!
# Rebuilt and live
-/

def reconfident (update : ContextUpdate) (decision : DecisionItem) :
    DecisionItem :=
  { decision with
    confidence := if update.userMarkedImportant = true then 9 / 10 else 7 / 10 }

/-- A flow item in the words of the rebuild, which leaves an empty outcome out. -/
def reworded (update : ContextUpdate) (item : FlowItem) : FlowItem :=
  { item with
    stepDescription := changeType update.updateType ++ ": " ++ update.content.title
    outcome := item.outcome.filter (fun outcome => outcome ≠ "") }

def changeFacts (record : ChangeRecord) : Timestamp × String × String :=
  (record.timestamp, record.changeType, record.description)

theorem zipWith_reconfident (updates : List ContextUpdate) :
    List.zipWith reconfident updates (updates.map decisionItem) =
      updates.map rebuiltDecision := by
  rw [List.zipWith_map_right, List.zipWith_self]
  rfl

theorem reworded_flowItem (update : ContextUpdate) :
    reworded update (flowItem update) = rebuiltFlow update := by
  rw [reworded, flowItem, rebuiltFlow, Option.filter_some]
  by_cases hempty : update.content.description = "" <;> simp [hempty]

theorem zipWith_reworded (updates : List ContextUpdate) :
    List.zipWith reworded updates (updates.map flowItem) =
      updates.map rebuiltFlow := by
  rw [List.zipWith_map_right, List.zipWith_self]
  exact List.map_congr_left (fun update _ => reworded_flowItem update)

theorem changeFacts_extracted (adds : List (Draws × ContextUpdate)) :
    (extractChangeHistory (adds.map Prod.snd)).map changeFacts =
      ((adds.map (fun a => changeRecord a.1 a.2)).filter
        (fun c => c.changeType = "CodeChanged")).map changeFacts := by
  have hkind : forall t : UpdateType,
      changeType t = "CodeChanged" ↔ t = UpdateType.codeChanged := by
    intro t
    cases t <;> decide
  induction adds with
  | nil => rfl
  | cons a rest ih =>
      rw [extractChangeHistory] at ih ⊢
      by_cases hchanged : a.2.updateType = UpdateType.codeChanged
      · simpa [changeRecord, hchanged, hkind, changeFacts, changeType] using ih
      · simpa [changeRecord, hchanged, hkind] using ih

/-- Of a session to which updates within the limits were added one by one, a
load makes again the code references and the questions, the decisions with a
confidence of its own, up to 500 flow items in its own words, the change records
of code changes under other ids, and the names of the first 50 entities that
were created as the key concepts. -/
theorem derived_state_rebuilt (id : Uuid) (name description : Option String)
    (now : Timestamp) (adds : List (Draws × ContextUpdate))
    (hlimits : forall a, a ∈ adds -> limited a.2 = a.2) :
    extractCodeReferences (adds.map Prod.snd) =
        (addAll (ActiveSession.new id name description now) adds
          ).codeReferences ∧
      (rebuildStructuredContext (adds.map Prod.snd)).openQuestions =
        (addAll (ActiveSession.new id name description now) adds
          ).currentState.openQuestions ∧
      (rebuildStructuredContext (adds.map Prod.snd)).keyDecisions =
        List.zipWith reconfident
          ((adds.map Prod.snd).filter
            (fun u => u.updateType = UpdateType.decisionMade))
          (addAll (ActiveSession.new id name description now) adds
            ).currentState.keyDecisions ∧
      (adds.length ≤ 500 ->
        (rebuildStructuredContext (adds.map Prod.snd)).conversationFlow =
          List.zipWith reworded (adds.map Prod.snd)
            (addAll (ActiveSession.new id name description now) adds
              ).currentState.conversationFlow) ∧
      (rebuildStructuredContext (adds.map Prod.snd)).keyConcepts.map
          ConceptItem.name =
        ((adds.map Prod.snd).flatMap
          ContextUpdate.createsEntities).eraseDups.take 50 ∧
      (extractChangeHistory (adds.map Prod.snd)).map changeFacts =
        ((addAll (ActiveSession.new id name description now) adds
          ).changeHistory.filter
            (fun c => c.changeType = "CodeChanged")).map changeFacts := by
  have hholds := holds_addAll (holds_new id name description now) hlimits
  refine ⟨(codeReferences_addAll rfl hlimits).symm, ?_, ?_, ?_,
    rebuilt_concepts _, ?_⟩
  · rw [hholds.state, rebuilt_questions]
    exact (questions.get_foldl _).symm
  · have hdecisions := decisions.get_foldl (adds.map Prod.snd)
    rw [hholds.state, rebuilt_decisions, ← zipWith_reconfident]
    exact congrArg _ hdecisions.symm
  · intro hlength
    rw [hholds.state, flow_foldl, rebuilt_flow (by simpa using hlength)]
    exact (zipWith_reworded _).symm
  · rw [hholds.history]
    exact changeFacts_extracted adds

def sampleUpdate (id : Uuid) (kind : UpdateType) : ContextUpdate :=
  { ContextUpdate.plain id 5 "why" with
    updateType := kind
    createsEntities := ["Store"] }

def sampleDraws : Draws where
  now := 9
  updateId := 0
  changeId := 77
  summaryId := 0

/-- A decision and a code change. -/
theorem derived_state_rebuilt_pair :
    (rebuildStructuredContext [sampleUpdate 1 UpdateType.decisionMade,
        sampleUpdate 2 UpdateType.codeChanged]).keyConcepts.map ConceptItem.name =
      ["Store"] ∧
    (extractChangeHistory [sampleUpdate 1 UpdateType.decisionMade,
        sampleUpdate 2 UpdateType.codeChanged]).map changeFacts =
      ((addAll (ActiveSession.new 7 none none 0)
        [(sampleDraws, sampleUpdate 1 UpdateType.decisionMade),
          (sampleDraws, sampleUpdate 2 UpdateType.codeChanged)]
        ).changeHistory.filter
          (fun c => c.changeType = "CodeChanged")).map changeFacts := by
  have hlimits : forall a, a ∈
      [(sampleDraws, sampleUpdate 1 UpdateType.decisionMade),
        (sampleDraws, sampleUpdate 2 UpdateType.codeChanged)] ->
      limited a.2 = a.2 := by
    decide +kernel
  obtain ⟨_, _, _, _, hconcepts, hhistory⟩ :=
    derived_state_rebuilt 7 none none 0 _ hlimits
  exact ⟨hconcepts, hhistory⟩

/-- The confidence of a decision is not the one the session has. -/
theorem rebuilt_confidence_differs :
    ¬ forall adds : List (Draws × ContextUpdate),
      (forall a, a ∈ adds -> limited a.2 = a.2) ->
      rebuildStructuredContext (adds.map Prod.snd) =
        (addAll (ActiveSession.new 7 none none 0) adds).currentState := by
  intro hsame
  have hstate := hsame [(sampleDraws, sampleUpdate 1 UpdateType.decisionMade)]
    (by decide +kernel)
  have hconfidence := congrArg
    (fun s : StructuredContext => s.keyDecisions.map DecisionItem.confidence)
    hstate
  revert hconfidence
  decide +kernel

end DerivedState
end Session
end PostCortex
