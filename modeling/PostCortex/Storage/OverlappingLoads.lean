import PostCortex.Graph.Relinking
import PostCortex.Storage.IncrementalSaves
import PostCortex.Storage.RowCoherence
import PostCortex.Transition.System

/-!
# Loads between other writes

A load reads a session query by query and remembers at the end what it read; the
lock that a save holds is taken for the remembering alone.  While what is
remembered is still stored, every save makes of the tables what a save of
everything would make of them.
-/

namespace PostCortex
namespace Storage
namespace Surreal

open PostCortex.Core
open PostCortex.Graph
open KeyValue
open Session
open Transition

/-!
# Loads, query by query
-/

inductive LoadPhase where
  | updates
  | entities
  | relations
  | done
  | failed
  deriving DecidableEq, Repr

structure LoadTask where
  sessionId : Uuid
  record : SessionRecord
  updates : List ContextUpdate
  entities : List EntityData
  relations : List EntityRelationship
  phase : LoadPhase

section

variable [UuidText]

def selectEntities (t : Tables) (sessionId : Uuid) : List EntityRecord :=
  ((t.entities.toList.map Prod.snd).filter
    (fun r => r.sessionId = sessionId)).insertionSort entityLe

namespace LoadTask

def start (sessionId : Uuid) (r : SessionRecord) : LoadTask where
  sessionId := sessionId
  record := r
  updates := []
  entities := []
  relations := []
  phase := LoadPhase.updates

/-- One query of the load.  Without its updates a session is not loaded, without its
graph it is. -/
def next (t : Tables) (fails : Bool) (task : LoadTask) : LoadTask :=
  match task.phase with
  | LoadPhase.updates =>
      if fails then { task with phase := LoadPhase.failed }
      else
        let page := pageOf (selectUpdates t task.sessionId) task.updates.length
        { task with
          updates := task.updates ++ page.map ContextUpdateRecord.updateData
          phase :=
            if page.length < pageLimit then LoadPhase.entities
            else LoadPhase.updates }
  | LoadPhase.entities =>
      if fails then { task with entities := [], phase := LoadPhase.relations }
      else
        let page := pageOf (selectEntities t task.sessionId) task.entities.length
        { task with
          entities := task.entities ++ page.map EntityRecord.entity
          phase :=
            if page.length < pageLimit then LoadPhase.relations
            else LoadPhase.entities }
  | LoadPhase.relations =>
      { task with
        relations := if fails then [] else loadAllRelationships t task.sessionId
        phase := LoadPhase.done }
  | LoadPhase.done => task
  | LoadPhase.failed => task

def session [CharTables] (now : Timestamp) (task : LoadTask) : ActiveSession :=
  loadedSession now { task.record with sessionId := task.sessionId } task.updates
    task.entities task.relations

end LoadTask

def FailedSelects.at (failed : FailedSelects) : LoadPhase -> Bool
  | LoadPhase.entities => failed.entities
  | LoadPhase.relations => failed.relations
  | _ => false

namespace LoadTask

def alone (t : Tables) (failed : FailedSelects) (task : LoadTask) : LoadTask :=
  task.next t (failed.at task.phase)

omit [UuidText] in
theorem read_pages {row value task : Type} (rows : List row) (f : row -> value)
    (step : task -> task) (put : List value -> Bool -> task)
    (hstep : forall got, step (put got false) =
      put (got ++ (pageOf rows got.length).map f)
        (decide ((pageOf rows got.length).length < pageLimit))) (got : List value) :
    exists n, step^[n] (put got false) =
      put (got ++ (loadPages rows got.length).map f) true := by
  induction hsize : rows.length - got.length using Nat.strong_induction_on
    generalizing got with
  | h size ih =>
      rw [loadPages]
      by_cases hlast : (pageOf rows got.length).length < pageLimit
      · rw [if_pos hlast]
        refine ⟨1, ?_⟩
        rw [Function.iterate_one, hstep, decide_eq_true hlast]
      · rw [if_neg hlast]
        have hpage := hlast
        rw [pageOf, List.length_take, List.length_drop] at hpage
        have hpos : 0 < pageLimit := by
          decide
        have hsmaller : rows.length -
            (got ++ (pageOf rows got.length).map f).length < size := by
          simp only [pageOf, List.length_append, List.length_map, List.length_take,
            List.length_drop]
          omega
        obtain ⟨n, hn⟩ := ih _ hsmaller (got ++ (pageOf rows got.length).map f) rfl
        refine ⟨n + 1, ?_⟩
        rw [Function.iterate_succ_apply, hstep, decide_eq_false hlast, hn]
        simp only [List.length_append, List.length_map, List.map_append,
          List.append_assoc]

theorem alone_updates (t : Tables) (failed : FailedSelects) (s : Uuid)
    (r : SessionRecord) :
    exists n, (alone t failed)^[n] (start s r) =
      { start s r with
        updates := loadSessionUpdates t s
        phase := LoadPhase.entities } := by
  obtain ⟨n, hn⟩ := read_pages (selectUpdates t s) ContextUpdateRecord.updateData
    (alone t failed)
    (fun got done => { start s r with
      updates := got
      phase := if done then LoadPhase.entities else LoadPhase.updates })
    (fun got => by
      by_cases hlast : (pageOf (selectUpdates t s) got.length).length < pageLimit
      · simp [alone, next, start, FailedSelects.at, hlast]
      · simp [alone, next, start, FailedSelects.at, hlast]) []
  exact ⟨n, hn⟩

theorem alone_entities (t : Tables) (failed : FailedSelects) (s : Uuid)
    (r : SessionRecord) (updates : List ContextUpdate) :
    exists n,
      (alone t failed)^[n] ⟨s, r, updates, [], [], LoadPhase.entities⟩ =
        ⟨s, r, updates, if failed.entities then [] else listEntities t s, [],
          LoadPhase.relations⟩ := by
  cases hfailed : failed.entities with
  | true =>
      refine ⟨1, ?_⟩
      simp [alone, next, FailedSelects.at, hfailed]
  | false =>
      obtain ⟨n, hn⟩ := read_pages (selectEntities t s) EntityRecord.entity
        (alone t failed)
        (fun got done => ⟨s, r, updates, got, [],
          if done then LoadPhase.relations else LoadPhase.entities⟩)
        (fun got => by
          by_cases hlast : (pageOf (selectEntities t s) got.length).length < pageLimit
          · simp [alone, next, FailedSelects.at, hfailed, hlast]
          · simp [alone, next, FailedSelects.at, hfailed, hlast]) []
      exact ⟨n, hn⟩

/-- A load that nothing comes between ends after some pages, with every row of the
session, and returns and remembers what `load_session` does. -/
theorem alone_loads [SurrealCodes] [CharTables] {backend : Backend} {s : Uuid}
    {r : SessionRecord}
    (hrecord : backend.tables.sessions[UuidText.toText s]? = some r) (now : Timestamp)
    (failed : FailedSelects) (victim : Uuid) :
    exists n task, (alone backend.tables failed)^[n] (start s r) = task ∧
      task.phase = LoadPhase.done ∧
      task.updates =
        (selectUpdates backend.tables s).map ContextUpdateRecord.updateData ∧
      task.entities = (if failed.entities then []
        else (selectEntities backend.tables s).map EntityRecord.entity) ∧
      loadSession now failed victim backend s =
        ({ backend with
            persisted := rememberLoaded victim backend.persisted (task.session now) },
          Except.ok (task.session now, r.vectorizedUpdateIds)) := by
  obtain ⟨n, hupdates⟩ := alone_updates backend.tables failed s r
  obtain ⟨m, hentities⟩ := alone_entities backend.tables failed s r
    (loadSessionUpdates backend.tables s)
  refine ⟨1 + (m + n), _, rfl, ?_⟩
  rw [Function.iterate_add_apply, Function.iterate_add_apply, hupdates]
  rw [show ({ start s r with
        updates := loadSessionUpdates backend.tables s
        phase := LoadPhase.entities } : LoadTask) =
      ⟨s, r, loadSessionUpdates backend.tables s, [], [], LoadPhase.entities⟩ from rfl,
    hentities]
  refine ⟨rfl, ?_, ?_, ?_⟩
  · exact congrArg (List.map _) (loadPages_eq _ 0)
  · exact if_congr Iff.rfl rfl (congrArg (List.map _) (loadPages_eq _ 0))
  · unfold loadSession
    rw [hrecord]
    rfl

end LoadTask

/-!
# What is known of the rows
-/

variable [SurrealCodes]

/-- Every row stands under its key and everything that is known is true. -/
structure Sound (backend : Backend) : Prop where
  formed : Formed backend.tables
  believed : forall s known, backend.persisted.known s = some known ->
    Believed backend.tables s known

variable {backend : Backend}

theorem Sound.knownState (h : Sound backend) (s : Uuid) :
    Believed backend.tables s (Surreal.knownState backend s) :=
  believed_knownState h.formed (h.believed s)

theorem Sound.write {backend backend' : Backend} {s : Uuid} (h : Sound backend)
    (hformed : Formed backend'.tables)
    (hothers : forall t known, s ≠ t -> backend'.persisted.known t = some known ->
      backend.persisted.known t = some known)
    (hsame : forall t, s ≠ t -> SameRows t backend.tables backend'.tables)
    (hself : forall known, backend'.persisted.known s = some known ->
      Believed backend'.tables s known) :
    Sound backend' where
  formed := hformed
  believed := by
    intro t known hknown
    by_cases hst : s = t
    · subst hst
      exact hself known hknown
    · exact (h.believed t known (hothers t known hst hknown)).same (hsame t hst)

omit [UuidText] in
/-- A state that a change of one slot leaves was there before, or is the changed one. -/
theorem known_modify_some {persisted : PersistedStates} {s t : Uuid}
    {f : PersistedState -> PersistedState} {known : PersistedState}
    (h : (persisted.modify s f).known t = some known) :
    (s ≠ t -> persisted.known t = some known) ∧
      (s = t -> exists before, persisted.known t = some before ∧ f before = known) := by
  rw [PersistedStates.known_modify] at h
  constructor
  · intro hst
    rwa [if_neg hst] at h
  · intro hst
    rw [if_pos hst] at h
    exact Option.map_eq_some_iff.mp h

theorem Sound.upsertEntity [LawfulUuidText] (h : Sound backend) (s : Uuid) (entity : EntityData) :
    Sound (Surreal.upsertEntity backend s entity) := by
  apply h.write (s := s)
  · exact h.formed.upsertEntities s (fun e he => by rw [List.mem_singleton.mp he])
  · exact fun t known hst hknown => (known_modify_some hknown).1 hst
  · exact fun t hst => sameRows_upsertEntities h.formed hst _
  · intro known hknown
    obtain ⟨before, hbefore, rfl⟩ := (known_modify_some hknown).2 rfl
    have htrue := h.believed s before hbefore
    have hrows : forall name, (Surreal.upsertEntity backend s entity).tables.entities[
        entityId s name]? =
        if entity.name = name then some ⟨s, entity⟩
        else backend.tables.entities[entityId s name]? := by
      intro name
      show (backend.tables.entities.insert (entityId s entity.name) ⟨s, entity⟩)[
        entityId s name]? = _
      rw [Database.get_insert]
      exact if_congr ⟨fun hkey => (entityId_inj hkey).2, congrArg _⟩ rfl rfl
    constructor
    · exact htrue.updates
    · intro name fp hfp
      rw [Database.get_insert] at hfp
      rw [hrows]
      by_cases hname : entity.name = name
      · rw [if_pos hname] at hfp ⊢
        exact ⟨entity, Option.some.inj hfp, rfl⟩
      · rw [if_neg hname] at hfp ⊢
        exact htrue.entities name fp hfp
    · exact htrue.relations

theorem Sound.createRelationship [LawfulSurrealCodes] (h : Sound backend) (s : Uuid)
    (r : EntityRelationship) :
    Sound (Surreal.createRelationship backend s r) := by
  apply h.write (s := s)
  · exact h.formed.upsertRelations s [r]
  · exact fun t known hst hknown => (known_modify_some hknown).1 hst
  · exact fun t hst => sameRows_upsertRelations h.formed hst [r]
  · intro known hknown
    obtain ⟨before, hbefore, rfl⟩ := (known_modify_some hknown).2 rfl
    have htrue := h.believed s before hbefore
    have hrows : forall x,
        (Surreal.createRelationship backend s r).tables.relations[relationKey s x]? =
        if relationKey s r = relationKey s x then some (relationRow s r)
        else backend.tables.relations[relationKey s x]? :=
      fun x => Database.get_insert backend.tables.relations _ _ _
    constructor
    · exact htrue.updates
    · exact htrue.entities
    · intro k fp hfp
      rw [Database.get_insert] at hfp
      by_cases hk : relationIdOf s r = k
      · rw [if_pos hk] at hfp
        refine ⟨r, hk, Option.some.inj hfp, ?_⟩
        rw [hrows, if_pos rfl]
      · rw [if_neg hk] at hfp
        obtain ⟨x, hx, hfx, hrow⟩ := htrue.relations k fp hfp
        refine ⟨x, hx, hfx, ?_⟩
        rw [hrows, if_neg]
        · exact hrow
        · intro hkey
          obtain ⟨-, hfrom, hto, htype⟩ := relationKey_inj hkey
          apply hk
          rw [← hx, relationIdOf, relationIdOf, hfrom, hto, htype]

theorem Sound.clearSessionEntities (h : Sound backend) (s : Uuid) :
    Sound (Surreal.clearSessionEntities backend s) := by
  apply h.write (s := s)
  · exact h.formed.deleteGraph s
  · exact fun t known hst hknown => (known_modify_some hknown).1 hst
  · exact fun t hst => sameRows_deleteGraph backend.tables hst
  · intro known hknown
    obtain ⟨before, hbefore, rfl⟩ := (known_modify_some hknown).2 rfl
    constructor
    · exact (h.believed s before hbefore).updates
    · intro name fp hfp
      rw [Std.ExtTreeMap.getElem?_empty] at hfp
      cases hfp
    · intro k fp hfp
      rw [Std.ExtTreeMap.getElem?_empty] at hfp
      cases hfp

theorem Sound.deleteSession (h : Sound backend) (s : Uuid) :
    Sound (Surreal.deleteSession backend s) := by
  have hgraph := h.formed.deleteGraph s
  apply h.write (s := s)
  · constructor
    · intro k r hr
      have hfilter : (backend.tables.updates.filter
          (fun _ r => r.sessionId != s))[k]? = some r := hr
      rw [Std.ExtTreeMap.getElem?_filter'] at hfilter
      exact h.formed.updates k r (Option.filter_eq_some_iff.mp hfilter).1
    · exact hgraph.entities
    · exact hgraph.relations
  · intro t known hst hknown
    have herased : PersistedStates.known (backend.persisted.erase s) t = some known :=
      hknown
    rwa [PersistedStates.known_erase, if_neg hst] at herased
  · intro t hst
    have hsame := sameRows_deleteGraph backend.tables hst
    exact ⟨fun k r hr => same_of_filter hst k r hr, hsame.entities, hsame.relations⟩
  · intro known hknown
    have herased : PersistedStates.known (backend.persisted.erase s) s = some known :=
      hknown
    rw [PersistedStates.known_erase, if_pos rfl] at herased
    cases herased

theorem Sound.persist [LawfulUuidText] [LawfulSurrealCodes] (h : Sound backend)
    {session : ActiveSession} {explicit : List ContextUpdate} {removed : List Uuid}
    (hcareful : SaveCareful backend.tables
      (Surreal.knownState backend session.metadata.id) session explicit removed)
    (vectorized : List Uuid) (fullGraph : Bool) (failed : FailedStatements)
    (now : Timestamp) (victim : Uuid) :
    Sound (Surreal.persist now failed victim backend session vectorized explicit
      removed fullGraph).1 := by
  have hknown := h.knownState session.metadata.id
  have hformed := h.formed.run session.metadata.id
    (fun _ => saveQuery_named hcareful.indexed now
      (Surreal.knownState backend session.metadata.id) vectorized explicit removed
      fullGraph) failed
  have hsame : forall t, session.metadata.id ≠ t -> SameRows t backend.tables _ :=
    fun t hst => sameRows_run h.formed hst
      (hcareful.queryFree now vectorized fullGraph) failed
  have hothers : forall (state : Option PersistedState) (t : Uuid)
      (known : PersistedState), session.metadata.id ≠ t ->
      PersistedStates.known
        ((persistedSlot backend.persisted session.metadata.id victim).insert
          session.metadata.id state) t = some known ->
      backend.persisted.known t = some known := by
    intro state t known hst hinsert
    rw [PersistedStates.known_insert, if_neg hst] at hinsert
    exact PersistedStates.known_slot_some hinsert
  unfold Surreal.persist
  dsimp only
  rw [knownState_slot]
  cases hfailed : failed.session || failed.updates || failed.removed with
  | true =>
      rw [if_pos rfl]
      refine h.write hformed (hothers none) hsame ?_
      intro known hinsert
      rw [PersistedStates.known_insert, if_pos rfl] at hinsert
      cases hinsert
  | false =>
      rw [if_neg Bool.false_ne_true]
      refine h.write hformed (hothers _) hsame ?_
      intro known hinsert
      rw [PersistedStates.known_insert, if_pos rfl] at hinsert
      cases hinsert
      obtain ⟨hfirst, hremoved⟩ := Bool.or_eq_false_iff.mp hfailed
      exact hknown.saved hcareful.indexed hcareful.unique now vectorized explicit
        removed fullGraph failed (Bool.or_eq_false_iff.mp hfirst).2 hremoved

theorem sound_empty : Sound Backend.empty where
  formed := by
    constructor
    · intro k r hr
      have hempty : (∅ : Database String ContextUpdateRecord)[k]? = some r := hr
      rw [Std.ExtTreeMap.getElem?_empty] at hempty
      cases hempty
    · intro k r hr
      have hempty : (∅ : Database String EntityRecord)[k]? = some r := hr
      rw [Std.ExtTreeMap.getElem?_empty] at hempty
      cases hempty
    · intro k row hrow
      have hempty : (∅ : Database String RelationRow)[k]? = some row := hrow
      rw [Std.ExtTreeMap.getElem?_empty] at hempty
      cases hempty
  believed := by
    intro s known hknown
    have hempty : (∅ : PersistedStates)[s]?.join = some known := hknown
    rw [Std.ExtTreeMap.getElem?_empty] at hempty
    cases hempty

/-- The rows of the snapshot are there with its values, but for the updates that are
removed; of an update that is named the named version. -/
structure SnapshotStored (t : Tables) (session : ActiveSession)
    (explicit : List ContextUpdate) (removed : List Uuid) : Prop where
  updates : forall u, u ∈ session.incrementalUpdates -> u.id ∉ removed ->
    exists w, w.id = u.id ∧
      t.updates[UuidText.toText u.id]? = some (updateRecord session.metadata.id w) ∧
      (w ∈ explicit ∨
        w ∈ session.incrementalUpdates ∧ u.id ∉ explicit.map ContextUpdate.id)
  entities : forall (name : String) (e : EntityData),
    session.entityGraph.entities[name]? = some e ->
    t.entities[entityId session.metadata.id name]? = some ⟨session.metadata.id, e⟩
  relations : forall r, r ∈ session.entityGraph.getAllRelationships ->
    t.relations[relationKey session.metadata.id r]? =
      some (relationRow session.metadata.id r)

theorem everything_stored [LawfulUuidText] [LawfulSurrealCodes] (t : Tables)
    {session : ActiveSession} (hindexed : session.entityGraph.Indexed)
    (hunique : session.entityGraph.relationKeys.Nodup) (now : Timestamp)
    (vectorized : List Uuid) (explicit : List ContextUpdate) (removed : List Uuid) :
    SnapshotStored
      ((everything now session vectorized explicit removed).run t session.metadata.id
        FailedStatements.noFailure) session explicit removed where
  updates := by
    intro u hu hkept
    rw [run_updates]
    have hrow : (updatesSaved (everything now session vectorized explicit removed) t
        session.metadata.id FailedStatements.noFailure).updates[
          UuidText.toText u.id]? =
        ((t.upsertUpdates session.metadata.id
          (writtenUpdates session [] explicit removed)).deleteUpdates
            removed).updates[UuidText.toText u.id]? := rfl
    rw [hrow, updates_deleteUpdates, if_neg hkept, updates_upsertUpdates]
    cases hlast : Database.lastWith ContextUpdate.id u.id
        (writtenUpdates session [] explicit removed) with
    | none =>
        have hnone := Database.lastWith_eq_none.mp hlast
        by_cases hnamed : u.id ∈ explicit.map ContextUpdate.id
        · obtain ⟨x, hx, hid⟩ := List.mem_map.mp hnamed
          refine absurd hid (hnone x (List.mem_append_left _ ?_))
          exact List.mem_filter.mpr ⟨hx, decide_eq_true (by rwa [hid])⟩
        · refine absurd rfl (hnone u (List.mem_append_right _ ?_))
          exact List.mem_filter.mpr ⟨hu, decide_eq_true
            ⟨List.not_mem_nil, hnamed, hkept⟩⟩
    | some w =>
        obtain ⟨hmem, hid⟩ := Database.lastWith_some hlast
        refine ⟨w, hid, rfl, ?_⟩
        rcases List.mem_append.mp hmem with hexplicit | hsession
        · exact Or.inl (List.mem_filter.mp hexplicit).1
        · obtain ⟨hw, hrest⟩ := List.mem_filter.mp hsession
          rw [hid] at hrest
          exact Or.inr ⟨hw, (of_decide_eq_true hrest).2.1⟩
  entities := by
    intro name e he
    rw [run_entities]
    have hall : session.entityGraph.entities.toList.filter
        (entityChanged nothingKnown true) = session.entityGraph.entities.toList :=
      List.filter_eq_self.mpr (fun _ _ => rfl)
    have hrow := upserted_entity t session.metadata.id session.entityGraph he
    rw [← hall] at hrow
    exact hrow
  relations := by
    intro r hr
    rw [run_relations]
    have hall : session.entityGraph.getAllRelationships.filter
        (relationChanged session.metadata.id nothingKnown true) =
        session.entityGraph.getAllRelationships :=
      List.filter_eq_self.mpr (fun _ _ => rfl)
    have hrow := upserted_relation t session.metadata.id
      (nodup_allRelationships hindexed hunique) hr
    rw [← hall] at hrow
    exact hrow

/-!
# Runs
-/

/-- The storage of a process and the loads that have not returned. -/
structure Process where
  backend : Backend
  loads : List LoadTask

inductive Action where
  | save (session : ActiveSession) (vectorized : List Uuid)
      (explicit : List ContextUpdate) (removed : List Uuid) (fullGraph : Bool)
      (failed : FailedStatements) (now : Timestamp) (victim : Uuid)
  | upsertEntity (sessionId : Uuid) (entity : EntityData)
  | createRelationship (sessionId : Uuid) (r : EntityRelationship)
  | clearSessionEntities (sessionId : Uuid)
  | deleteSession (sessionId : Uuid)
  | startLoad (sessionId : Uuid)
  | read (load : Nat) (fails : Bool)
  | remember (load : Nat) (now : Timestamp) (victim : Uuid)

variable [CharTables]

def Process.step (state : Process) : Action -> Option Process
  | Action.save session vectorized explicit removed fullGraph failed now victim =>
      some { state with
        backend := (persist now failed victim state.backend session vectorized
          explicit removed fullGraph).1 }
  | Action.upsertEntity s entity =>
      some { state with backend := upsertEntity state.backend s entity }
  | Action.createRelationship s r =>
      some { state with backend := createRelationship state.backend s r }
  | Action.clearSessionEntities s =>
      some { state with backend := clearSessionEntities state.backend s }
  | Action.deleteSession s =>
      some { state with backend := deleteSession state.backend s }
  | Action.startLoad s =>
      (state.backend.tables.sessions[UuidText.toText s]?).map fun r =>
        { state with loads := state.loads ++ [LoadTask.start s r] }
  | Action.read i fails =>
      (state.loads[i]?).map fun task =>
        { state with
          loads := state.loads.set i (task.next state.backend.tables fails) }
  | Action.remember i now victim =>
      (state.loads[i]?).bind fun task =>
        if task.phase = LoadPhase.done then
          some
            { backend :=
                { state.backend with
                  persisted :=
                    rememberLoaded victim state.backend.persisted
                      (task.session now) }
              loads := state.loads.eraseIdx i }
        else none

def process : System Process Action where
  init := ⟨Backend.empty, []⟩
  step := Process.step

/-!
# What a load remembers
-/

/-- What the load read is stored as it read it, no two of its entities are merged,
and its relations are between its entities. -/
structure LoadTask.Fresh (t : Tables) (now : Timestamp) (task : LoadTask) : Prop where
  updates : forall u, u ∈ task.updates ->
    t.updates[UuidText.toText u.id]? = some (updateRecord task.sessionId u)
  entities : forall e, e ∈ task.entities ->
    t.entities[entityId task.sessionId e.name]? = some ⟨task.sessionId, e⟩
  relations : forall r, r ∈ task.relations ->
    t.relations[relationKey task.sessionId r]? = some (relationRow task.sessionId r)
  merges : EntityGraph.MergesNone now EntityGraph.new task.entities
  ends : forall r, r ∈ task.relations ->
    r.fromEntity ∈ task.entities.map EntityData.name ∧
      r.toEntity ∈ task.entities.map EntityData.name

variable {now : Timestamp}

omit [UuidText] [SurrealCodes] in
theorem loadedGraph_read {entities : List EntityData}
    {relations : List EntityRelationship}
    (hmerges : EntityGraph.MergesNone now EntityGraph.new entities)
    (hends : forall r, r ∈ relations ->
      r.fromEntity ∈ entities.map EntityData.name ∧
        r.toEntity ∈ entities.map EntityData.name) :
    (forall (name : String) (e : EntityData),
      (loadedGraph now entities relations).entities[name]? = some e ->
        e ∈ entities ∧ e.name = name) ∧
      forall r, r ∈ (loadedGraph now entities relations).relations ->
        r ∈ relations := by
  have hindexed := EntityGraph.indexed_new.insertEntities now entities
  have hknown : forall name, name ∈ entities.map EntityData.name ->
      name ∈ (entities.foldl (EntityGraph.insertEntity now)
        EntityGraph.new).entities :=
    fun name hname => hmerges.mem_entities.mpr (Or.inr hname)
  obtain ⟨hsame, hrelations⟩ := hindexed.relations_addRelationships now
    (fun r hr => ⟨hknown _ (hends r hr).1, hknown _ (hends r hr).2⟩)
  constructor
  · intro name e he
    unfold loadedGraph at he
    rw [hsame] at he
    rcases hmerges.entities he with hnew | hread
    · have hempty : (∅ : Std.ExtTreeMap String EntityData)[name]? = some e := hnew
      rw [Std.ExtTreeMap.getElem?_empty] at hempty
      cases hempty
    · exact hread
  · intro r hr
    rcases hrelations r hr with hold | hread
    · rw [EntityGraph.relations, hmerges.edges] at hold
      cases hold
    · exact hread

variable {task : LoadTask}

theorem LoadTask.Fresh.believed {t : Tables} (h : task.Fresh t now) :
    Believed t task.sessionId (loadedState (task.session now)) := by
  obtain ⟨hentities, hrelations⟩ := loadedGraph_read h.merges h.ends
  have hgraph : (task.session now).entityGraph =
      { loadedGraph now task.entities task.relations with
        entityMentions := EntityGraph.relinkedMentions
          (loadedGraph now task.entities task.relations).resolve task.updates } :=
    EntityGraph.relinkMentions_eq _ _
  have hindexed : (task.session now).entityGraph.Indexed :=
    ((EntityGraph.indexed_new.insertEntities now task.entities).addRelationships now
      task.relations).relinkMentions task.updates
  constructor
  · intro id hid
    obtain ⟨u, hu, rfl⟩ := List.mem_map.mp hid
    exact ⟨u, rfl, h.updates u hu⟩
  · intro name fp hfp
    have hget : (entityFingerprints (task.session now).entityGraph)[name]? = some fp :=
      hfp
    rw [entityFingerprints, Std.ExtTreeMap.getElem?_map, hgraph] at hget
    obtain ⟨e, he, hfe⟩ := Option.map_eq_some_iff.mp hget
    obtain ⟨hmem, rfl⟩ := hentities name e he
    exact ⟨e, hfe, h.entities e hmem⟩
  · intro k fp hfp
    have hget : (relationFingerprints task.sessionId
        (task.session now).entityGraph)[k]? = some fp := hfp
    rcases Database.get_write_some hget with hempty | hput
    · rw [Std.ExtTreeMap.getElem?_empty] at hempty
      cases hempty
    · obtain ⟨r, hr, heq⟩ := List.mem_map.mp hput
      cases heq
      rw [hindexed.allRelationships, hgraph] at hr
      exact ⟨r, rfl, rfl, h.relations r (hrelations r hr)⟩

/-!
# One step
-/

theorem Sound.remember (h : Sound backend) (hfresh : task.Fresh backend.tables now)
    (victim : Uuid) :
    Sound { backend with
      persisted := rememberLoaded victim backend.persisted (task.session now) } := by
  apply h.write (s := task.sessionId)
  · exact h.formed
  · intro t known hst hknown
    have hinsert : PersistedStates.known
        ((persistedSlot backend.persisted task.sessionId victim).insert task.sessionId
          (some (loadedState (task.session now)))) t = some known := hknown
    rw [PersistedStates.known_insert, if_neg hst] at hinsert
    exact PersistedStates.known_slot_some hinsert
  · exact fun t _ => SameRows.refl t backend.tables
  · intro known hknown
    have hinsert : PersistedStates.known
        ((persistedSlot backend.persisted task.sessionId victim).insert task.sessionId
          (some (loadedState (task.session now)))) task.sessionId = some known := hknown
    rw [PersistedStates.known_insert, if_pos rfl] at hinsert
    cases hinsert
    exact hfresh.believed

/-!
# All runs
-/

/-- The caller of a save sees to what it has to, and what a load remembers is still
stored as the load read it. -/
def Timely (state : Process) : Action -> Prop
  | Action.save session _ explicit removed _ _ _ _ =>
      SaveCareful state.backend.tables (knownState state.backend session.metadata.id)
        session explicit removed
  | Action.remember i now _ =>
      forall task, state.loads[i]? = some task ->
        task.Fresh state.backend.tables now
  | _ => True

variable [LawfulUuidText]

theorem Sound.step [LawfulSurrealCodes] {state state' : Process} {action : Action}
    (h : Sound state.backend) (htimely : Timely state action)
    (hstep : state.step action = some state') :
    Sound state'.backend := by
  cases action with
  | save session vectorized explicit removed fullGraph failed now victim =>
      cases hstep
      exact h.persist htimely vectorized fullGraph failed now victim
  | upsertEntity s entity =>
      cases hstep
      exact h.upsertEntity s entity
  | createRelationship s r =>
      cases hstep
      exact h.createRelationship s r
  | clearSessionEntities s =>
      cases hstep
      exact h.clearSessionEntities s
  | deleteSession s =>
      cases hstep
      exact h.deleteSession s
  | startLoad s =>
      obtain ⟨r, _, rfl⟩ := Option.map_eq_some_iff.mp hstep
      exact h
  | read i fails =>
      obtain ⟨task, _, rfl⟩ := Option.map_eq_some_iff.mp hstep
      exact h
  | remember i now victim =>
      obtain ⟨task, htask, hdone⟩ := Option.bind_eq_some_iff.mp hstep
      split at hdone
      · cases hdone
        exact h.remember (htimely task htask) victim
      · cases hdone

theorem sound_of_reachable [LawfulSurrealCodes] {state : Process}
    (h : process.Reachable Timely state) :
    Sound state.backend :=
  h.invariant sound_empty (fun _ _ _ hsound htimely hstep =>
    Sound.step hsound htimely hstep)

/-- After any run whose saves are careful and whose loads remember only what is still
stored, a save without failure writes what a save of everything would. -/
theorem saves_write_everything [LawfulSurrealCodes] {state : Process}
    (h : process.Reachable Timely state) {session : ActiveSession}
    {explicit : List ContextUpdate} {removed : List Uuid}
    (hcareful : SaveCareful state.backend.tables
      (knownState state.backend session.metadata.id) session explicit removed)
    (vectorized : List Uuid) (fullGraph : Bool) (now : Timestamp) (victim : Uuid) :
    (persist now FailedStatements.noFailure victim state.backend session vectorized
        explicit removed fullGraph).1.tables =
      (everything now session vectorized explicit removed).run state.backend.tables
        session.metadata.id FailedStatements.noFailure ∧
      SnapshotStored
        (persist now FailedStatements.noFailure victim state.backend session vectorized
          explicit removed fullGraph).1.tables session explicit removed := by
  have hknown := (sound_of_reachable h).knownState session.metadata.id
  have htables : (persist now FailedStatements.noFailure victim state.backend session
      vectorized explicit removed fullGraph).1.tables =
      (everything now session vectorized explicit removed).run state.backend.tables
        session.metadata.id FailedStatements.noFailure := by
    rw [← hcareful.run_everything hknown now vectorized fullGraph]
    unfold persist
    dsimp only
    rw [knownState_slot]
    rfl
  refine ⟨htables, ?_⟩
  rw [htables]
  exact everything_stored state.backend.tables hcareful.indexed hcareful.unique now
    vectorized explicit removed

end

/-!
# A load around a clear
-/

section

attribute [local instance] EntityGraph.asciiTables hyphenatedText
  lawful_hyphenatedText plainCodes lawful_plainCodes

def conceptSession (names : List String) : ActiveSession :=
  { plainSession 7 [1] with
    entityGraph := names.foldl EntityGraph.addConcept EntityGraph.new }

theorem conceptSession_indexed (names : List String) :
    (conceptSession names).entityGraph.Indexed :=
  List.foldlRecOn names _ EntityGraph.indexed_new
    (fun _ hg name _ => EntityGraph.Indexed.addOrUpdateEntity hg name
      EntityType.concept 0 "")

def saveConcepts (names : List String) : Action :=
  Action.save (conceptSession names) [] [] [] false FailedStatements.noFailure 0 0

def wholeLoad : List Action :=
  [Action.startLoad 7, Action.read 0 false, Action.read 0 false,
    Action.read 0 false]

def runFrom (state : Process) (actions : List Action) : Process :=
  actions.foldl (fun state action => (state.step action).getD state) state

variable {allowed : Process -> Action -> Prop} {state : Process}

theorem reachable_next (h : process.Reachable allowed state) {action : Action}
    (hallowed : allowed state action) :
    process.Reachable allowed (runFrom state [action]) := by
  show process.Reachable allowed ((state.step action).getD state)
  cases hstep : state.step action with
  | none => exact h
  | some state' => exact System.Reachable.step h hallowed hstep

theorem reachable_runFrom (h : process.Reachable allowed state)
    {actions : List Action}
    (hallowed : forall action, action ∈ actions -> forall state,
      allowed state action) :
    process.Reachable allowed (runFrom state actions) :=
  List.foldlRecOn actions _ h
    (fun _ hstate action hmem => reachable_next hstate (hallowed action hmem _))

/-- The load of a session that was saved. -/
theorem alone_loads_saved :
    let backend := (runFrom process.init [saveConcepts ["A"]]).backend
    exists r n task,
      (LoadTask.alone backend.tables ⟨false, false⟩)^[n] (LoadTask.start 7 r) = task ∧
      task.phase = LoadPhase.done := by
  intro backend
  have hsome : backend.tables.sessions[UuidText.toText 7]?.isSome = true := by
    decide +kernel
  obtain ⟨r, hr⟩ := Option.isSome_iff_exists.mp hsome
  obtain ⟨n, task, htask, hdone, _⟩ := LoadTask.alone_loads hr 0 ⟨false, false⟩ 0
  exact ⟨r, n, task, htask, hdone⟩

theorem conceptSession_careful (names : List String) (backend : Backend)
    (hunique : (conceptSession names).entityGraph.relationKeys.Nodup)
    (hstored : 1 ∈ (knownState backend 7).updateIds ->
      backend.tables.updates[UuidText.toText 1]? =
        some (updateRecord 7 (ContextUpdate.plain 1 0 "text")))
    (hfree : backend.tables.RowFree 7 1) :
    SaveCareful backend.tables (knownState backend 7) (conceptSession names) [] []
    where
  indexed := conceptSession_indexed names
  unique := hunique
  stored := by
    intro u hu _ _ hknown
    cases List.mem_singleton.mp hu
    exact hstored hknown
  written := by
    intro u hu
    cases List.mem_singleton.mp hu
    exact hfree
  gone := fun id hid => absurd hid List.not_mem_nil

def readProcess : Process :=
  runFrom (runFrom process.init [saveConcepts ["A"]]) wholeLoad

theorem readProcess_timely : process.Reachable Timely readProcess := by
  have hcareful : Timely process.init (saveConcepts ["A"]) :=
    conceptSession_careful ["A"] Backend.empty (by decide +kernel)
      (by decide +kernel) (by decide +kernel)
  have hsaved : process.Reachable Timely
      (runFrom process.init [saveConcepts ["A"]]) :=
    reachable_next System.Reachable.init hcareful
  refine reachable_runFrom hsaved (fun action hmem state => ?_)
  simp only [wholeLoad, List.mem_cons, List.not_mem_nil, or_false] at hmem
  rcases hmem with rfl | rfl | rfl | rfl <;> exact True.intro

theorem readProcess_fresh (task : LoadTask)
    (htask : readProcess.loads[0]? = some task) :
    task.Fresh readProcess.backend.tables 0 := by
  have hall : forall task, task ∈ readProcess.loads[0]?.toList ->
      ((forall u, u ∈ task.updates ->
          readProcess.backend.tables.updates[UuidText.toText u.id]? =
            some (updateRecord task.sessionId u)) ∧
        (forall e, e ∈ task.entities ->
          readProcess.backend.tables.entities[entityId task.sessionId e.name]? =
            some ⟨task.sessionId, e⟩)) ∧
      EntityGraph.MergesNone 0 EntityGraph.new task.entities ∧
      task.relations = [] := by
    decide +kernel
  obtain ⟨⟨hupdates, hentities⟩, hmerges, hnone⟩ :=
    hall task (Option.mem_toList.mpr htask)
  refine ⟨hupdates, hentities, ?_, hmerges, ?_⟩
  · intro r hr
    rw [hnone] at hr
    cases hr
  · intro r hr
    rw [hnone] at hr
    cases hr

theorem saves_write_everything_read :
    SnapshotStored
      (persist 0 FailedStatements.noFailure 0
        (runFrom readProcess [Action.remember 0 0 0]).backend
        (conceptSession ["A", "B"]) [] [] [] false).1.tables
      (conceptSession ["A", "B"]) [] [] := by
  have htimely : Timely readProcess (Action.remember 0 0 0) := readProcess_fresh
  have hremembered : process.Reachable Timely
      (runFrom readProcess [Action.remember 0 0 0]) :=
    reachable_next readProcess_timely htimely
  exact (saves_write_everything hremembered
    (conceptSession_careful ["A", "B"] _ (by decide +kernel) (by decide +kernel)
      (by decide +kernel)) [] false 0 0).2

def clearedProcess : Process :=
  runFrom readProcess [Action.clearSessionEntities 7, Action.remember 0 0 0]

/-- The next save leaves out the entity that was cleared. -/
theorem cleared_entity_lost :
    ¬ forall state, process.Reachable System.Anything state ->
      forall session explicit removed,
        SaveCareful state.backend.tables (knownState state.backend session.metadata.id)
          session explicit removed ->
        SnapshotStored (persist 0 FailedStatements.noFailure 0 state.backend session []
          explicit removed false).1.tables session explicit removed := by
  intro hall
  have hreachable : process.Reachable System.Anything clearedProcess :=
    reachable_runFrom readProcess_timely.anything (fun _ _ _ => True.intro)
  have hstored := hall clearedProcess hreachable (conceptSession ["A"]) [] []
    (conceptSession_careful ["A"] _ (by decide +kernel) (by decide +kernel)
      (by decide +kernel))
  have hheld : (conceptSession ["A"]).entityGraph.entities["A"]?.isSome = true := by
    decide +kernel
  obtain ⟨e, he⟩ := Option.isSome_iff_exists.mp hheld
  have hrow := hstored.entities "A" e he
  have hlost : (persist 0 FailedStatements.noFailure 0 clearedProcess.backend
      (conceptSession ["A"]) [] [] [] false).1.tables.entities[entityId 7 "A"]? =
      none := by
    decide +kernel
  rw [show (conceptSession ["A"]).metadata.id = 7 from rfl, hlost] at hrow
  cases hrow

end

end Surreal
end Storage
end PostCortex
