import PostCortex.Session.ActiveSession
import PostCortex.Graph.AliasResolution

/-!
# Removing an update

`remove_update_by_id` after any history of added updates: what the lists of the
session are after a history, and when the removal leaves the lists the history
would have made without the update.  The typed items and the code references
carry no update id and are found again by their content, so an earlier one
that looks the same is taken instead.
-/

namespace PostCortex
namespace Session

open PostCortex.Core
open PostCortex.Graph

/-!
# Erasing the first match
-/

theorem append_singleton_eq_cons_iff {α : Type} (a x : α) (xs : List α) :
    xs ++ [x] = a :: xs ↔ forall y, y ∈ a :: xs -> y = x := by
  induction xs generalizing a with
  | nil =>
      simp [eq_comm]
  | cons b rest ih =>
      rw [List.cons_append, List.cons.injEq, ih b]
      constructor
      · rintro ⟨rfl, hrest⟩ y hy
        rcases List.mem_cons.mp hy with rfl | hy
        · exact hrest y (List.mem_cons_self ..)
        · exact hrest y hy
      · intro hall
        have ha := hall a (List.mem_cons_self ..)
        have hb := hall b (List.mem_cons_of_mem _ (List.mem_cons_self ..))
        exact ⟨hb.trans ha.symm, fun y hy => hall y (List.mem_cons_of_mem _ hy)⟩

/-- The first match is as good as a later one exactly when everything from the
first match on is the same. -/
theorem eraseP_append_cons_iff {α : Type} {p : α -> Bool} (xs ys : List α)
    {x : α} (hx : p x = true) :
    (xs ++ x :: ys).eraseP p = xs ++ ys ↔
      forall y, y ∈ xs.dropWhile (fun y => !p y) -> y = x := by
  induction xs with
  | nil =>
      simp [hx]
  | cons a rest ih =>
      by_cases ha : p a = true
      · have hdrop : (a :: rest).dropWhile (fun y => !p y) = a :: rest := by
          simp [ha]
        rw [hdrop, ← append_singleton_eq_cons_iff]
        simp only [List.cons_append, List.eraseP_cons, ha, cond_true]
        constructor
        · intro heq
          refine List.append_cancel_right (?_ : _ ++ ys = _ ++ ys)
          simpa using heq
        · intro heq
          have happend := congrArg (fun zs => zs ++ ys) heq
          simpa using happend
      · simp only [List.cons_append, List.eraseP_cons, ha, cond_false]
        rw [List.cons_inj_right, ih]
        simp [ha]

namespace ActiveSession

/-!
# What a history leaves
-/

/-- A session changes by an added update or by the merge of an update into its
graph. -/
inductive SessionStep where
  | add (draws : Draws) (update : ContextUpdate)
  | merge (now : Timestamp) (update : ContextUpdate)

/-- The updates of a history as the session keeps them, each with what was
drawn for it. -/
def kept (steps : List SessionStep) : List (Draws × ContextUpdate) :=
  steps.filterMap fun step =>
    match step with
    | SessionStep.add draws update => some (draws, limited update)
    | SessionStep.merge _ _ => none

theorem kept_append (xs ys : List SessionStep) :
    kept (xs ++ ys) = kept xs ++ kept ys := by
  simp [kept]

section

variable [CharTables]

def SessionStep.apply (session : ActiveSession) : SessionStep -> ActiveSession
  | SessionStep.add draws update => session.addIncrementalUpdateFast draws update
  | SessionStep.merge now update => session.applyEntityGraphUpdate now update

def run (session : ActiveSession) (steps : List SessionStep) : ActiveSession :=
  steps.foldl SessionStep.apply session

/-- The lists a session has after updates were added to an empty one. -/
structure Holds (session : ActiveSession)
    (updates : List (Draws × ContextUpdate)) : Prop where
  incremental : session.incrementalUpdates = updates.map Prod.snd
  state : session.currentState =
    (updates.map Prod.snd).foldl recordUpdate StructuredContext.new
  history : session.changeHistory =
    updates.map (fun u => changeRecord u.1 u.2)
  references : forall file : String,
    session.codeReferences[file]?.getD [] =
      (updates.filterMap (fun u => u.2.relatedCode)).filter
        (fun r => r.filePath == file)

omit [CharTables] in
theorem holds_new (id : Uuid) (name description : Option String)
    (now : Timestamp) :
    Holds (ActiveSession.new id name description now) [] := by
  refine ⟨rfl, rfl, rfl, ?_⟩
  intro file
  simp [ActiveSession.new]

omit [CharTables] in
theorem addRelatedCode_references (session : ActiveSession)
    (update : ContextUpdate) (file : String) :
    (session.addRelatedCode update).codeReferences[file]?.getD [] =
      session.codeReferences[file]?.getD [] ++
        update.relatedCode.toList.filter (fun r => r.filePath == file) := by
  unfold addRelatedCode
  cases update.relatedCode with
  | none => simp
  | some r =>
      simp only [addCodeReference, Std.ExtTreeMap.getElem?_insert,
        Std.compare_eq_iff_eq, Option.toList_some]
      by_cases hr : r.filePath = file
      · simp [hr]
      · simp [hr]

omit [CharTables] in
theorem Holds.add {session : ActiveSession}
    {updates : List (Draws × ContextUpdate)} (h : Holds session updates)
    (draws : Draws) (update : ContextUpdate) :
    Holds (session.addIncrementalUpdateFast draws update)
      (updates ++ [(draws, limited update)]) := by
  rw [addIncrementalUpdateFast_eq]
  constructor
  · show session.incrementalUpdates ++ [limited update] = _
    rw [h.incremental]
    simp
  · show recordUpdate session.currentState (limited update) = _
    rw [h.state]
    simp
  · show session.changeHistory ++ [changeRecord draws (limited update)] = _
    rw [h.history]
    simp
  · intro file
    refine (addRelatedCode_references session (limited update) file).trans ?_
    rw [h.references, List.filterMap_append, List.filter_append]
    cases hrelated : (limited update).relatedCode with
    | none | some r => simp [hrelated]

theorem holds_run {session : ActiveSession}
    {updates : List (Draws × ContextUpdate)} (h : Holds session updates)
    (steps : List SessionStep) :
    Holds (session.run steps) (updates ++ kept steps) := by
  induction steps using List.reverseRecOn with
  | nil =>
      simpa [run, kept] using h
  | append_singleton steps step ih =>
      rw [kept_append, ← List.append_assoc]
      have hrun : session.run (steps ++ [step]) =
          step.apply (session.run steps) := by
        simp [run]
      rw [hrun]
      cases step with
      | add draws update => exact ih.add draws update
      | merge now update =>
          have hnone : kept [SessionStep.merge now update] = [] := rfl
          rw [hnone, List.append_nil]
          exact ⟨ih.incremental, ih.state, ih.history, ih.references⟩

end

/-!
# The five lists of the structured state
-/

/-- An item of `v` is taken for the item of `u`. -/
def looksLike (u v : ContextUpdate) : Bool :=
  v.content.title == u.content.title && v.timestamp == u.timestamp

/-- A list of the state that updates of one type append to and a removal takes
an item from. -/
structure ItemList (ι : Type) where
  get : StructuredContext -> List ι
  item : ContextUpdate -> ι
  updateType : UpdateType
  start : get StructuredContext.new = []
  recorded : forall state update, get (recordUpdate state update) =
    if update.updateType = updateType then get state ++ [item update]
    else get state
  same : ContextUpdate -> ι -> Bool
  same_item : forall u v, same u (item v) = looksLike u v
  removed : forall state flow u,
    get (removeItem { state with conversationFlow := flow } u) =
      if u.updateType = updateType then (get state).eraseP (same u)
      else get state
  typed : forall u v, u.updateType = updateType -> v.updateType = updateType ->
    (recordItem StructuredContext.new u = recordItem StructuredContext.new v ↔
      item u = item v)

def questions : ItemList QuestionItem where
  get := StructuredContext.openQuestions
  item := questionItem
  updateType := UpdateType.questionAnswered
  start := rfl
  recorded state update := by
    cases h : update.updateType <;> simp [recordUpdate, recordItem, h]
  same u x := x.question == u.content.title && x.timestamp == u.timestamp
  same_item _ _ := rfl
  removed state flow u := by
    cases h : u.updateType <;> simp [removeItem, h]
  typed u v hu hv := by
    simp [recordItem, hu, hv, StructuredContext.new]

def decisions : ItemList DecisionItem where
  get := StructuredContext.keyDecisions
  item := decisionItem
  updateType := UpdateType.decisionMade
  start := rfl
  recorded state update := by
    cases h : update.updateType <;> simp [recordUpdate, recordItem, h]
  same u x := x.description == u.content.title && x.timestamp == u.timestamp
  same_item _ _ := rfl
  removed state flow u := by
    cases h : u.updateType <;> simp [removeItem, h]
  typed u v hu hv := by
    simp [recordItem, hu, hv, StructuredContext.new]

def concepts : ItemList ConceptItem where
  get := StructuredContext.keyConcepts
  item := conceptItem
  updateType := UpdateType.conceptDefined
  start := rfl
  recorded state update := by
    cases h : update.updateType <;> simp [recordUpdate, recordItem, h]
  same u x := x.name == u.content.title && x.timestamp == u.timestamp
  same_item _ _ := rfl
  removed state flow u := by
    cases h : u.updateType <;> simp [removeItem, h]
  typed u v hu hv := by
    simp [recordItem, hu, hv, StructuredContext.new]

def specifications : ItemList SpecItem where
  get := StructuredContext.technicalSpecifications
  item := specItem
  updateType := UpdateType.requirementAdded
  start := rfl
  recorded state update := by
    cases h : update.updateType <;> simp [recordUpdate, recordItem, h]
  same u x := x.title == u.content.title && x.timestamp == u.timestamp
  same_item _ _ := rfl
  removed state flow u := by
    cases h : u.updateType <;> simp [removeItem, h]
  typed u v hu hv := by
    simp [recordItem, hu, hv, StructuredContext.new]

theorem ItemList.get_foldl {ι : Type} (l : ItemList ι)
    (updates : List ContextUpdate) :
    l.get (updates.foldl recordUpdate StructuredContext.new) =
      (updates.filter (fun u => decide (u.updateType = l.updateType))).map
        l.item := by
  induction updates using List.reverseRecOn with
  | nil =>
      simpa using l.start
  | append_singleton updates update ih =>
      rw [List.foldl_append, List.filter_append, List.map_append]
      show l.get (recordUpdate _ update) = _
      rw [l.recorded, ih]
      by_cases ht : update.updateType = l.updateType
      · simp [ht]
      · simp [ht]

theorem flow_foldl (updates : List ContextUpdate) :
    (updates.foldl recordUpdate StructuredContext.new).conversationFlow =
      updates.map flowItem := by
  induction updates using List.reverseRecOn with
  | nil => rfl
  | append_singleton updates update ih =>
      rw [List.foldl_append, List.map_append]
      show (recordItem _ update).conversationFlow ++ [flowItem update] = _
      have hflow : forall state, (recordItem state update).conversationFlow =
          state.conversationFlow := by
        intro state
        unfold recordItem
        split <;> rfl
      rw [hflow, ih]
      rfl

theorem removeFlow_map (updates : List ContextUpdate) (id : Uuid) :
    removeFlow (updates.map flowItem) id =
      (updates.filter (fun u => u.id != id)).map flowItem := by
  have hkept : forall us : List ContextUpdate,
      ((us.map flowItem).map (fun f =>
        { f with relatedUpdates := f.relatedUpdates.filter (· != id) })).filter
          (fun f => !f.relatedUpdates.isEmpty) =
        (us.filter (fun u => u.id != id)).map flowItem := by
    intro us
    induction us with
    | nil => rfl
    | cons u rest ih =>
        by_cases hu : u.id = id
        · simpa [flowItem, hu] using ih
        · simpa [flowItem, hu] using ih
  unfold removeFlow
  split
  · exact hkept updates
  · next hnone =>
    have hall : updates.filter (fun u => u.id != id) = updates := by
      apply List.filter_eq_self.mpr
      intro u hu
      by_contra hid
      apply hnone
      have hid : u.id = id := by simpa using hid
      exact List.any_eq_true.mpr ⟨flowItem u, List.mem_map_of_mem hu,
        by simp [flowItem, hid]⟩
    rw [hall]

/-!
# Taking the items of an update out
-/

/-- From the first earlier update of its type whose item is taken for that of
`w`, every one recorded the same item. -/
def ItemFound (earlier : List ContextUpdate) (w : ContextUpdate) : Prop :=
  forall v, v ∈ (earlier.filter
      (fun v => decide (v.updateType = w.updateType))).dropWhile
        (fun v => !looksLike w v) ->
    recordItem StructuredContext.new v = recordItem StructuredContext.new w

/-- From the first earlier reference to the same file that looks the same,
every one is the same. -/
def CodeFound (earlier : List ContextUpdate) (w : ContextUpdate) : Prop :=
  forall r, w.relatedCode = some r -> forall r',
    r' ∈ ((earlier.filterMap ContextUpdate.relatedCode).filter
      (fun r' => r'.filePath == r.filePath)).dropWhile
        (fun r' => !sameCode r r') ->
    r' = r

theorem ItemList.removed_iff {ι : Type} (l : ItemList ι)
    (before after : List ContextUpdate) (w : ContextUpdate)
    (flow : List FlowItem) :
    l.get (removeItem
        { (before ++ w :: after).foldl recordUpdate StructuredContext.new with
          conversationFlow := flow } w) =
      l.get ((before ++ after).foldl recordUpdate StructuredContext.new) ↔
    (w.updateType = l.updateType -> ItemFound before w) := by
  rw [l.removed, l.get_foldl, l.get_foldl]
  by_cases ht : w.updateType = l.updateType
  · rw [if_pos ht]
    have hlook : l.same w (l.item w) = true := by
      rw [l.same_item]
      simp [looksLike]
    have hlist : ((before ++ w :: after).filter
        (fun u => decide (u.updateType = l.updateType))).map l.item =
        (before.filter (fun u => decide (u.updateType = l.updateType))).map
            l.item ++ l.item w ::
          (after.filter (fun u => decide (u.updateType = l.updateType))).map
            l.item := by
      simp [ht]
    rw [hlist, List.filter_append, List.map_append,
      eraseP_append_cons_iff _ _ hlook, List.dropWhile_map]
    have hsame : (fun y => !l.same w y) ∘ l.item =
        fun v => !looksLike w v := by
      funext v
      simp [l.same_item]
    rw [hsame]
    unfold ItemFound
    rw [ht]
    constructor
    · intro hall _ v hv
      have hvt : v.updateType = l.updateType := by
        have hmem := (List.dropWhile_suffix _).subset hv
        simpa using (List.mem_filter.mp hmem).2
      exact (l.typed v w hvt ht).mpr (hall _ (List.mem_map_of_mem hv))
    · intro hall x hx
      obtain ⟨v, hv, rfl⟩ := List.mem_map.mp hx
      have hvt : v.updateType = l.updateType := by
        have hmem := (List.dropWhile_suffix _).subset hv
        simpa using (List.mem_filter.mp hmem).2
      exact (l.typed v w hvt ht).mp (hall rfl v hv)
  · rw [if_neg ht]
    simp [ht]

theorem state_ext {s t : StructuredContext}
    (hdecisions : s.keyDecisions = t.keyDecisions)
    (hquestions : s.openQuestions = t.openQuestions)
    (hconcepts : s.keyConcepts = t.keyConcepts)
    (hspecifications :
      s.technicalSpecifications = t.technicalSpecifications)
    (hflow : s.conversationFlow = t.conversationFlow) :
    s = t := by
  cases s
  cases t
  simp_all

theorem conversationFlow_removeItem (state : StructuredContext)
    (update : ContextUpdate) :
    (removeItem state update).conversationFlow = state.conversationFlow := by
  unfold removeItem
  split <;> rfl

variable {before after : List ContextUpdate} {w : ContextUpdate}

theorem not_mem_others (hids : ((before ++ w :: after).map ContextUpdate.id).Nodup)
    {u : ContextUpdate} (hu : u ∈ before ++ after) : u.id ≠ w.id := by
  rw [List.map_append, List.map_cons, List.nodup_middle, List.nodup_cons,
    ← List.map_append] at hids
  intro heq
  exact hids.1 (heq ▸ List.mem_map_of_mem hu)

theorem filter_other (hids : ((before ++ w :: after).map ContextUpdate.id).Nodup) :
    (before ++ w :: after).filter (fun u => u.id != w.id) = before ++ after := by
  have hother : forall u, u ∈ before ++ after -> (u.id != w.id) = true :=
    fun u hu => bne_iff_ne.mpr (not_mem_others hids hu)
  rw [List.filter_append, List.filter_cons_of_neg (by simp),
    ← List.filter_append, List.filter_eq_self.mpr hother]

theorem removed_state_iff
    (hids : ((before ++ w :: after).map ContextUpdate.id).Nodup) :
    removeItem
        { (before ++ w :: after).foldl recordUpdate StructuredContext.new with
          conversationFlow := removeFlow
            ((before ++ w :: after).foldl recordUpdate
              StructuredContext.new).conversationFlow w.id } w =
      (before ++ after).foldl recordUpdate StructuredContext.new ↔
    ItemFound before w := by
  have hflow : removeFlow ((before ++ w :: after).foldl recordUpdate
      StructuredContext.new).conversationFlow w.id =
        ((before ++ after).foldl recordUpdate
          StructuredContext.new).conversationFlow := by
    rw [flow_foldl, flow_foldl, removeFlow_map, filter_other hids]
  have hlist := fun {ι : Type} (l : ItemList ι) => l.removed_iff before after w
    (removeFlow ((before ++ w :: after).foldl recordUpdate
      StructuredContext.new).conversationFlow w.id)
  constructor
  · intro heq
    cases ht : w.updateType with
    | questionAnswered => exact (hlist questions).mp (congrArg _ heq) ht
    | decisionMade => exact (hlist decisions).mp (congrArg _ heq) ht
    | conceptDefined => exact (hlist concepts).mp (congrArg _ heq) ht
    | requirementAdded => exact (hlist specifications).mp (congrArg _ heq) ht
    | problemSolved | codeChanged =>
        intro v hv
        have hmem := (List.dropWhile_suffix _).subset hv
        have hvt : v.updateType = w.updateType := by
          simpa using (List.mem_filter.mp hmem).2
        simp [recordItem, hvt, ht]
  · intro hfound
    refine state_ext ?_ ?_ ?_ ?_ ?_
    · exact (hlist decisions).mpr (fun _ => hfound)
    · exact (hlist questions).mpr (fun _ => hfound)
    · exact (hlist concepts).mpr (fun _ => hfound)
    · exact (hlist specifications).mpr (fun _ => hfound)
    · rw [conversationFlow_removeItem]
      exact hflow

theorem removed_code_iff (after : List ContextUpdate) {r : CodeReference}
    (hr : w.relatedCode = some r) :
    ((((before ++ w :: after).filterMap ContextUpdate.relatedCode).filter
        (fun r' => r'.filePath == r.filePath)).eraseP (sameCode r) =
      ((before ++ after).filterMap ContextUpdate.relatedCode).filter
        (fun r' => r'.filePath == r.filePath)) ↔
    CodeFound before w := by
  have hsame : sameCode r r = true := by
    simp [sameCode]
  have hlist : ((before ++ w :: after).filterMap
      ContextUpdate.relatedCode).filter (fun r' => r'.filePath == r.filePath) =
      (before.filterMap ContextUpdate.relatedCode).filter
          (fun r' => r'.filePath == r.filePath) ++ r ::
        (after.filterMap ContextUpdate.relatedCode).filter
          (fun r' => r'.filePath == r.filePath) := by
    simp [hr]
  rw [hlist, List.filterMap_append, List.filter_append,
    eraseP_append_cons_iff _ _ hsame]
  constructor
  · intro hall r' hr'
    rw [hr] at hr'
    cases hr'
    exact hall
  · intro hall
    exact hall r hr

theorem other_file {file : String} (hw : forall r, w.relatedCode = some r ->
      r.filePath ≠ file) :
    ((before ++ w :: after).filterMap ContextUpdate.relatedCode).filter
        (fun r => r.filePath == file) =
      ((before ++ after).filterMap ContextUpdate.relatedCode).filter
        (fun r => r.filePath == file) := by
  rw [List.filterMap_append, List.filterMap_append, List.filter_append,
    List.filter_append]
  cases hr : w.relatedCode with
  | none => simp [hr]
  | some r => simp [hr, hw r hr]

theorem mentions_removeMentions (graph : EntityGraph) (id : Uuid)
    (e : String) :
    (removeMentions graph id).entityMentions[e]?.getD [] =
      (graph.entityMentions[e]?.getD []).filter (· != id) := by
  unfold removeMentions
  split
  · rw [Std.ExtTreeMap.getElem?_filter', Std.ExtTreeMap.getElem?_map]
    cases graph.entityMentions[e]? with
    | none => rfl
    | some ids =>
        by_cases hempty : ids.filter (· != id) = []
        · simp [Option.filter, hempty]
        · simp [Option.filter, hempty]
  · next hnone =>
    cases he : graph.entityMentions[e]? with
    | none => rfl
    | some ids =>
        symm
        apply List.filter_eq_self.mpr
        intro x hx
        rw [bne_iff_ne]
        rintro rfl
        apply hnone
        exact List.any_eq_true.mpr ⟨(e, ids),
          Std.ExtTreeMap.mem_toList_iff_getElem?_eq_some.mpr he,
          by simpa using hx⟩

theorem removeUpdateById_eq {session : ActiveSession} {id : Uuid}
    {removed : ContextUpdate} (h : session.findUpdate id = some removed) :
    exists after, session.removeUpdateById id = some after ∧
      after.incrementalUpdates =
        session.incrementalUpdates.filter (fun u => u.id != id) ∧
      after.currentState =
        removeItem
          { session.currentState with
            conversationFlow :=
              removeFlow session.currentState.conversationFlow removed.id }
          removed ∧
      after.changeHistory =
        session.changeHistory.filter
          (fun c => c.relatedUpdateId != some id) ∧
      (forall file : String, after.codeReferences[file]?.getD [] =
        match removed.relatedCode with
        | none => session.codeReferences[file]?.getD []
        | some r =>
            if r.filePath = file then
              (session.codeReferences[file]?.getD []).eraseP (sameCode r)
            else session.codeReferences[file]?.getD []) ∧
      after.entityGraph = removeMentions session.entityGraph id := by
  refine ⟨_, removeUpdateById_found h, rfl, rfl, rfl, ?_, rfl⟩
  intro file
  show (removed.relatedCode.elim session.codeReferences
    (dropReference session.codeReferences))[file]?.getD [] = _
  cases removed.relatedCode with
  | none => rfl
  | some r => exact dropReference_references r file

/-!
# Removal after a history
-/

section

/-- After the removal the lists are those of the history without the update,
and the mention lists are the previous ones without its id. -/
structure RemovesExactly (before without after : ActiveSession) (id : Uuid) :
    Prop where
  incremental : after.incrementalUpdates = without.incrementalUpdates
  state : after.currentState = without.currentState
  history : after.changeHistory = without.changeHistory
  references : forall file : String,
    after.codeReferences[file]?.getD [] =
      without.codeReferences[file]?.getD []
  mentions : forall e : String,
    after.entityGraph.entityMentions[e]?.getD [] =
      (before.entityGraph.entityMentions[e]?.getD []).filter (· != id)

/-- The removal of `w` takes the items of `w` itself, or others like them. -/
def NothingAlike (earlier : List ContextUpdate) (w : ContextUpdate) : Prop :=
  ItemFound earlier w ∧ CodeFound earlier w

variable {session : ActiveSession} {before after : List ContextUpdate}
  {w : ContextUpdate}

theorem find_held (h : session.incrementalUpdates = before ++ w :: after)
    (hids : ((before ++ w :: after).map ContextUpdate.id).Nodup) :
    session.findUpdate w.id = some w := by
  have hout : forall u, u ∈ before -> ¬ (u.id == w.id) = true :=
    fun u hu heq => not_mem_others hids (List.mem_append_left _ hu) (beq_iff_eq.mp heq)
  have hlist : session.incrementalUpdates.find? (fun u => u.id == w.id) = some w := by
    rw [h, List.find?_append, List.find?_eq_none.mpr hout]
    simp
  simp only [findUpdate, hlist]

variable {xs ys : List (Draws × ContextUpdate)}

theorem history_without {d : Draws}
    (hids : ((xs ++ (d, w) :: ys).map (fun u => u.2.id)).Nodup) :
    ((xs ++ (d, w) :: ys).map (fun u => changeRecord u.1 u.2)).filter
        (fun c => c.relatedUpdateId != some w.id) =
      (xs ++ ys).map (fun u => changeRecord u.1 u.2) := by
  rw [List.map_append, List.map_cons, List.nodup_middle,
    List.nodup_cons, ← List.map_append] at hids
  have hother : forall c, c ∈ (xs ++ ys).map (fun u => changeRecord u.1 u.2) ->
      (c.relatedUpdateId != some w.id) = true := by
    intro c hc
    obtain ⟨u, hu, rfl⟩ := List.mem_map.mp hc
    rw [bne_iff_ne]
    intro heq
    have hid : u.2.id = w.id := Option.some.inj heq
    exact hids.1 (hid ▸ List.mem_map_of_mem hu)
  rw [List.map_append, List.map_cons, List.filter_append,
    List.filter_cons_of_neg (by simp [changeRecord]), ← List.filter_append,
    ← List.map_append, List.filter_eq_self.mpr hother]

def codeOf (updates : List ContextUpdate) (file : String) : List CodeReference :=
  (updates.filterMap ContextUpdate.relatedCode).filter (fun r => r.filePath == file)

theorem Holds.codeOf {updates : List (Draws × ContextUpdate)}
    (h : Holds session updates) (file : String) :
    session.codeReferences[file]?.getD [] = codeOf (updates.map Prod.snd) file := by
  rw [h.references, ActiveSession.codeOf, List.filterMap_map]
  rfl

theorem references_without_iff {references : String -> List CodeReference}
    (hnone : w.relatedCode = none ->
      forall file, references file = codeOf (before ++ w :: after) file)
    (hsome : forall r, w.relatedCode = some r -> forall file, references file =
      if r.filePath = file then (codeOf (before ++ w :: after) file).eraseP (sameCode r)
      else codeOf (before ++ w :: after) file) :
    (forall file, references file = codeOf (before ++ after) file) ↔ CodeFound before w := by
  cases hr : w.relatedCode with
  | none =>
      have hother : forall r, w.relatedCode ≠ some r := by
        intro r hr'
        rw [hr] at hr'
        cases hr'
      constructor
      · exact fun _ r hr' => absurd hr' (hother r)
      · intro _ file
        rw [hnone hr]
        exact other_file (fun r hr' => absurd hr' (hother r))
  | some r =>
      rw [← removed_code_iff after hr]
      constructor
      · intro hall
        have hfile := hall r.filePath
        rwa [hsome r hr, if_pos rfl] at hfile
      · intro hall file
        rw [hsome r hr]
        by_cases hfile : r.filePath = file
        · subst hfile
          rw [if_pos rfl]
          exact hall
        · rw [if_neg hfile]
          apply other_file
          intro r' hr'
          rw [hr] at hr'
          cases hr'
          exact hfile

theorem removes_iff {before without : ActiveSession} {d : Draws}
    (hbefore : Holds before (xs ++ (d, w) :: ys))
    (hwithout : Holds without (xs ++ ys))
    (hids : ((xs ++ (d, w) :: ys).map (fun u => u.2.id)).Nodup) :
    (exists after, before.removeUpdateById w.id = some after ∧
      RemovesExactly before without after w.id) ↔
    NothingAlike (xs.map Prod.snd) w := by
  have hsplit : (xs ++ (d, w) :: ys).map Prod.snd =
      xs.map Prod.snd ++ w :: ys.map Prod.snd := by
    simp
  have hnodup : ((xs.map Prod.snd ++ w :: ys.map Prod.snd).map
      ContextUpdate.id).Nodup := by
    rw [← hsplit, List.map_map]
    exact hids
  have hfind := find_held (hbefore.incremental.trans hsplit) hnodup
  obtain ⟨after, hafter, hincremental, hstate, hhistory, hreferences, hgraph⟩ :=
    removeUpdateById_eq hfind
  have hkeptIncremental :
      after.incrementalUpdates = without.incrementalUpdates := by
    rw [hincremental, hbefore.incremental, hwithout.incremental, hsplit,
      filter_other hnodup, List.map_append]
  have hkeptHistory : after.changeHistory = without.changeHistory := by
    rw [hhistory, hbefore.history, hwithout.history, history_without hids]
  have hkeptState : after.currentState = without.currentState ↔
      ItemFound (xs.map Prod.snd) w := by
    rw [hstate, hbefore.state, hwithout.state, hsplit, List.map_append]
    exact removed_state_iff hnodup
  have hkeptReferences : (forall file : String,
      after.codeReferences[file]?.getD [] =
        without.codeReferences[file]?.getD []) ↔
      CodeFound (xs.map Prod.snd) w := by
    simp only [hwithout.codeOf, List.map_append]
    apply references_without_iff
    · intro hr file
      rw [hreferences, hr, ← hsplit]
      exact hbefore.codeOf file
    · intro r hr file
      rw [hreferences, hr, ← hsplit, ← hbefore.codeOf]
  constructor
  · rintro ⟨after', hafter', hexact⟩
    rw [hafter] at hafter'
    cases hafter'
    exact ⟨hkeptState.mp hexact.state, hkeptReferences.mp hexact.references⟩
  · rintro ⟨hitem, hcode⟩
    refine ⟨after, hafter, hkeptIncremental, hkeptState.mpr hitem, hkeptHistory,
      hkeptReferences.mpr hcode, ?_⟩
    intro e
    rw [hgraph]
    exact mentions_removeMentions _ _ e

variable [CharTables]

/-- In every history that adds updates with distinct ids to a new session, the
removal of one leaves the lists of the history without it exactly when its
items are not mistaken for earlier ones. -/
theorem remove_update_exact_iff (id : Uuid) (name description : Option String)
    (now : Timestamp) (earlier later : List SessionStep) (draws : Draws)
    (update : ContextUpdate)
    (hids : ((kept (earlier ++ SessionStep.add draws update :: later)).map
      (fun u => u.2.id)).Nodup) :
    (exists after,
      ((ActiveSession.new id name description now).run
          (earlier ++ SessionStep.add draws update :: later)).removeUpdateById
            update.id = some after ∧
      RemovesExactly
        ((ActiveSession.new id name description now).run
          (earlier ++ SessionStep.add draws update :: later))
        ((ActiveSession.new id name description now).run (earlier ++ later))
        after update.id) ↔
    NothingAlike ((kept earlier).map Prod.snd) (limited update) := by
  have hnew := holds_new id name description now
  have hbefore := holds_run hnew
    (earlier ++ SessionStep.add draws update :: later)
  have hwithout := holds_run hnew (earlier ++ later)
  have hsplit : kept (earlier ++ SessionStep.add draws update :: later) =
      kept earlier ++ (draws, limited update) :: kept later := by
    rw [kept_append]
    rfl
  rw [List.nil_append, hsplit] at hbefore
  rw [List.nil_append, kept_append] at hwithout
  rw [hsplit] at hids
  exact removes_iff hbefore hwithout hids

end

section

attribute [local instance] EntityGraph.asciiTables

theorem remove_update_exact_second :
    exists after,
      ((ActiveSession.new 0 none none 0).run
          ([SessionStep.add ⟨1, 1, 2, 3⟩ (ContextUpdate.plain 1 1 "first")] ++
            SessionStep.add ⟨2, 4, 5, 6⟩ (ContextUpdate.plain 4 2 "second") ::
              [SessionStep.merge 3 (ContextUpdate.plain 4 2 "second")])).removeUpdateById
                4 = some after ∧
      RemovesExactly
        ((ActiveSession.new 0 none none 0).run
          ([SessionStep.add ⟨1, 1, 2, 3⟩ (ContextUpdate.plain 1 1 "first")] ++
            SessionStep.add ⟨2, 4, 5, 6⟩ (ContextUpdate.plain 4 2 "second") ::
              [SessionStep.merge 3 (ContextUpdate.plain 4 2 "second")]))
        ((ActiveSession.new 0 none none 0).run
          ([SessionStep.add ⟨1, 1, 2, 3⟩ (ContextUpdate.plain 1 1 "first")] ++
            [SessionStep.merge 3 (ContextUpdate.plain 4 2 "second")]))
        after 4 := by
  refine (remove_update_exact_iff 0 none none 0
    [SessionStep.add ⟨1, 1, 2, 3⟩ (ContextUpdate.plain 1 1 "first")]
    [SessionStep.merge 3 (ContextUpdate.plain 4 2 "second")] ⟨2, 4, 5, 6⟩
    (ContextUpdate.plain 4 2 "second") (by decide +kernel)).mpr ⟨?_, ?_⟩
  · unfold ItemFound
    decide +kernel
  · intro r hr
    cases hr

def decided (id : Uuid) (title description : String) : ContextUpdate :=
  { ContextUpdate.plain id 0 description with
    updateType := UpdateType.decisionMade
    content :=
      { (ContextUpdate.plain id 0 description).content with title := title } }

/-- Two decisions of one title and time: the removal of the second takes the
item of the first. -/
theorem removal_takes_other_decision :
    ¬ forall (id : Uuid) (name description : Option String) (now : Timestamp)
      (earlier later : List SessionStep) (draws : Draws)
      (update : ContextUpdate),
      ((kept (earlier ++ SessionStep.add draws update :: later)).map
        (fun u => u.2.id)).Nodup ->
      exists after,
        ((ActiveSession.new id name description now).run
            (earlier ++ SessionStep.add draws update :: later)).removeUpdateById
              update.id = some after ∧
        RemovesExactly
          ((ActiveSession.new id name description now).run
            (earlier ++ SessionStep.add draws update :: later))
          ((ActiveSession.new id name description now).run (earlier ++ later))
          after update.id := by
  intro h
  obtain ⟨after, hafter, hexact⟩ := h 0 none none 0
    [SessionStep.add ⟨1, 1, 2, 3⟩ (decided 1 "Use Redis" "as a cache")] []
    ⟨2, 4, 5, 6⟩ (decided 4 "Use Redis" "as a queue") (by decide +kernel)
  have hstate : (((ActiveSession.new 0 none none 0).run
      ([SessionStep.add ⟨1, 1, 2, 3⟩ (decided 1 "Use Redis" "as a cache")] ++
        [SessionStep.add ⟨2, 4, 5, 6⟩
          (decided 4 "Use Redis" "as a queue")])).removeUpdateById
            (decided 4 "Use Redis" "as a queue").id).map
              ActiveSession.currentState ≠
      some ((ActiveSession.new 0 none none 0).run
        ([SessionStep.add ⟨1, 1, 2, 3⟩ (decided 1 "Use Redis" "as a cache")] ++
          [])).currentState := by
    decide +kernel
  apply hstate
  rw [hafter]
  exact congrArg some hexact.state

end

end ActiveSession
end Session
end PostCortex
