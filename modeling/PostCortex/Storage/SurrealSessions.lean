import Mathlib.Data.List.Sort
import PostCortex.Graph.Relations
import PostCortex.KeyValue.HashBytes
import PostCortex.Session.DerivedState
import PostCortex.Session.Documents
import PostCortex.Storage.SessionRows

/-!
# Sessions in tables

`surrealdb_storage/sessions.rs` with the writes of `surrealdb_storage/graph.rs`.
Update rows are keyed by the id of the update alone, entity rows by session and
name, edges by a hash of the session and the triple.  A save writes what differs
from the persisted state, which is what this process last read or wrote of the
session.  Ids and dates stand in the rows as the values that they print, except
where the text orders the rows.  What the hashers return is a parameter.
-/

namespace PostCortex
namespace Storage
namespace Surreal

open PostCortex.Core
open PostCortex.Graph
open KeyValue
open Session

class SurrealCodes where
  Fingerprint : Type
  decEq : DecidableEq Fingerprint
  entityFingerprint : EntityData -> Fingerprint
  relationFingerprint : EntityRelationship -> Fingerprint
  relationId : Uuid -> String -> String -> RelationType -> String
  toRfc3339 : Timestamp -> String

instance [SurrealCodes] : DecidableEq SurrealCodes.Fingerprint :=
  SurrealCodes.decEq

/-- No two entities, relations or keys have one hash. -/
class LawfulSurrealCodes [SurrealCodes] : Prop where
  entity_inj : forall e e' : EntityData,
    SurrealCodes.entityFingerprint e = SurrealCodes.entityFingerprint e' -> e = e'
  relation_inj : forall r r' : EntityRelationship,
    SurrealCodes.relationFingerprint r = SurrealCodes.relationFingerprint r' -> r = r'
  relationId_inj : forall (s s' : Uuid) (e e' f f' : String) (t t' : RelationType),
    SurrealCodes.relationId s e f t = SurrealCodes.relationId s' e' f' t' ->
    s = s' ∧ e = e' ∧ f = f' ∧ t = t'

def maxTrackedSessions : Nat :=
  4096

/-!
# Tables
-/

structure SessionRecord where
  sessionId : Uuid
  name : Option String
  description : Option String
  createdAt : Timestamp
  lastUpdated : Timestamp
  userPreferences : UserPreferences
  vectorizedUpdateIds : List Uuid
  totalUpdates : Nat
  deriving DecidableEq, Repr

structure ContextUpdateRecord where
  updateId : Uuid
  sessionId : Uuid
  timestamp : String
  updateData : ContextUpdate
  deriving DecidableEq, Repr

structure EntityRecord where
  sessionId : Uuid
  entity : EntityData
  deriving DecidableEq, Repr

/-- An edge with the relation type of its table. -/
structure RelationRow where
  table : RelationType
  sessionId : Uuid
  fromKey : String
  toKey : String
  context : String
  deriving DecidableEq, Repr

@[ext] structure Tables where
  sessions : Database String SessionRecord
  updates : Database String ContextUpdateRecord
  entities : Database String EntityRecord
  relations : Database String RelationRow

def Tables.empty : Tables where
  sessions := ∅
  updates := ∅
  entities := ∅
  relations := ∅

def relationTableName : RelationType -> String
  | RelationType.requiredBy => "required_by"
  | RelationType.leadsTo => "leads_to"
  | RelationType.relatedTo => "related_to"
  | RelationType.conflictsWith => "conflicts_with"
  | RelationType.dependsOn => "depends_on"
  | RelationType.implements => "implements"
  | RelationType.causedBy => "caused_by"
  | RelationType.solves => "solves"

def relationTables : List RelationType :=
  [RelationType.requiredBy, RelationType.leadsTo, RelationType.relatedTo,
    RelationType.conflictsWith, RelationType.dependsOn, RelationType.implements,
    RelationType.causedBy, RelationType.solves]

section

variable [UuidText]

def entityId (sessionId : Uuid) (name : String) : String :=
  UuidText.toText sessionId ++ "_" ++ name

variable [SurrealCodes]

def updateRecord (sessionId : Uuid) (update : ContextUpdate) :
    ContextUpdateRecord where
  updateId := update.id
  sessionId := sessionId
  timestamp := SurrealCodes.toRfc3339 update.timestamp
  updateData := update

def relationIdOf (sessionId : Uuid) (r : EntityRelationship) : String :=
  SurrealCodes.relationId sessionId r.fromEntity r.toEntity r.relationType

def relationKey (sessionId : Uuid) (r : EntityRelationship) : String :=
  relationTableName r.relationType ++ ":" ++ relationIdOf sessionId r

def relationRow (sessionId : Uuid) (r : EntityRelationship) : RelationRow where
  table := r.relationType
  sessionId := sessionId
  fromKey := entityId sessionId r.fromEntity
  toKey := entityId sessionId r.toEntity
  context := r.context

/-!
# Statements
-/

namespace Tables

def upsertUpdates (t : Tables) (sessionId : Uuid) (updates : List ContextUpdate) :
    Tables :=
  { t with
    updates := t.updates.write
      (Database.puts (fun u : ContextUpdate => UuidText.toText u.id)
        (updateRecord sessionId) updates) }

def deleteUpdates (t : Tables) (removed : List Uuid) : Tables :=
  { t with
    updates := t.updates.write (Database.deletes (removed.map UuidText.toText)) }

def upsertEntities (t : Tables) (sessionId : Uuid)
    (entities : List (String × EntityData)) : Tables :=
  { t with
    entities := t.entities.write
      (Database.puts (fun e => entityId sessionId e.1)
        (fun e => EntityRecord.mk sessionId e.2) entities) }

def upsertRelations (t : Tables) (sessionId : Uuid)
    (relations : List EntityRelationship) : Tables :=
  { t with
    relations := t.relations.write
      (Database.puts (relationKey sessionId) (relationRow sessionId) relations) }

/-- `DELETE entity` and `DELETE` of each relation table, for one session. -/
def deleteGraph (t : Tables) (sessionId : Uuid) : Tables :=
  { t with
    entities := t.entities.filter (fun _ e => e.sessionId != sessionId)
    relations := t.relations.filter (fun _ r => r.sessionId != sessionId) }

end Tables

structure SaveQuery where
  record : SessionRecord
  updates : List ContextUpdate
  removed : List Uuid
  entities : List (String × EntityData)
  relations : List EntityRelationship

/-- The statements of a save that fail; a failed statement changes nothing. -/
structure FailedStatements where
  session : Bool
  updates : Bool
  removed : Bool
  entities : Bool
  relations : Bool
  deriving DecidableEq, Repr

namespace FailedStatements

def noFailure : FailedStatements where
  session := false
  updates := false
  removed := false
  entities := false
  relations := false

def count (failed : FailedStatements) : Nat :=
  [failed.session, failed.updates, failed.removed, failed.entities,
    failed.relations].count true

end FailedStatements

/-- `PERSIST_QUERY`. -/
def SaveQuery.run (query : SaveQuery) (t : Tables) (sessionId : Uuid)
    (failed : FailedStatements) : Tables :=
  let t :=
    if failed.session then t
    else
      { t with
        sessions := t.sessions.insert (UuidText.toText sessionId) query.record }
  let t := if failed.updates then t else t.upsertUpdates sessionId query.updates
  let t := if failed.removed then t else t.deleteUpdates query.removed
  let t := if failed.entities then t else t.upsertEntities sessionId query.entities
  if failed.relations then t else t.upsertRelations sessionId query.relations

end

/-!
# The persisted state
-/

section

variable [SurrealCodes]

structure PersistedState where
  updateIds : List Uuid
  entities : Std.ExtTreeMap String SurrealCodes.Fingerprint
  relations : Std.ExtTreeMap String SurrealCodes.Fingerprint

abbrev PersistedStates : Type :=
  Std.ExtTreeMap Uuid (Option PersistedState)

structure Backend where
  tables : Tables
  persisted : PersistedStates

def Backend.empty : Backend where
  tables := Tables.empty
  persisted := ∅

def PersistedStates.known (persisted : PersistedStates) (sessionId : Uuid) :
    Option PersistedState :=
  persisted[sessionId]?.join

def persistedSlot (persisted : PersistedStates) (sessionId victim : Uuid) :
    PersistedStates :=
  let kept :=
    if maxTrackedSessions ≤ persisted.size ∧ sessionId ∉ persisted then
      persisted.erase victim
    else persisted
  if sessionId ∈ kept then kept else kept.insert sessionId none

def PersistedStates.modify (persisted : PersistedStates) (sessionId : Uuid)
    (f : PersistedState -> PersistedState) : PersistedStates :=
  match persisted.known sessionId with
  | none => persisted
  | some state => persisted.insert sessionId (some (f state))

def noteEntityWritten (persisted : PersistedStates) (sessionId : Uuid)
    (entity : EntityData) : PersistedStates :=
  persisted.modify sessionId fun state =>
    { state with
      entities :=
        state.entities.insert entity.name (SurrealCodes.entityFingerprint entity) }

def noteRelationshipWritten (persisted : PersistedStates) (sessionId : Uuid)
    (r : EntityRelationship) : PersistedStates :=
  persisted.modify sessionId fun state =>
    { state with
      relations :=
        state.relations.insert (relationIdOf sessionId r)
          (SurrealCodes.relationFingerprint r) }

def forgetGraphState (persisted : PersistedStates) (sessionId : Uuid) :
    PersistedStates :=
  persisted.modify sessionId fun state =>
    { state with entities := ∅, relations := ∅ }

def storedUpdateIds (t : Tables) (sessionId : Uuid) : List Uuid :=
  ((t.updates.toList.map Prod.snd).filter (fun r => r.sessionId = sessionId)).map
    ContextUpdateRecord.updateId

def knownState (backend : Backend) (sessionId : Uuid) : PersistedState :=
  match backend.persisted.known sessionId with
  | some state => state
  | none => ⟨storedUpdateIds backend.tables sessionId, ∅, ∅⟩

def entityFingerprints (graph : EntityGraph) :
    Std.ExtTreeMap String SurrealCodes.Fingerprint :=
  graph.entities.map (fun _ e => SurrealCodes.entityFingerprint e)

def relationFingerprints (sessionId : Uuid) (graph : EntityGraph) :
    Std.ExtTreeMap String SurrealCodes.Fingerprint :=
  Database.write ∅
    (Database.puts (relationIdOf sessionId) SurrealCodes.relationFingerprint
      graph.getAllRelationships)

/-!
# Saving
-/

variable [UuidText]

def entityChanged (known : PersistedState) (fullGraph : Bool)
    (e : String × EntityData) : Bool :=
  fullGraph ||
    decide (known.entities[e.1]? ≠ some (SurrealCodes.entityFingerprint e.2))

def relationChanged (sessionId : Uuid) (known : PersistedState) (fullGraph : Bool)
    (r : EntityRelationship) : Bool :=
  fullGraph ||
    decide (known.relations[relationIdOf sessionId r]? ≠
      some (SurrealCodes.relationFingerprint r))

def sessionRecord (now : Timestamp) (session : ActiveSession)
    (vectorized : List Uuid) : SessionRecord where
  sessionId := session.metadata.id
  name := session.metadata.name
  description := session.metadata.description
  createdAt := session.metadata.createdAt
  lastUpdated := now
  userPreferences := session.metadata.userPreferences
  vectorizedUpdateIds := vectorized
  totalUpdates := session.incrementalUpdates.length

def saveQuery (now : Timestamp) (known : PersistedState) (session : ActiveSession)
    (vectorized : List Uuid) (explicit : List ContextUpdate) (removed : List Uuid)
    (fullGraph : Bool) : SaveQuery where
  record := sessionRecord now session vectorized
  updates := writtenUpdates session known.updateIds explicit removed
  removed := removed
  entities :=
    session.entityGraph.entities.toList.filter (entityChanged known fullGraph)
  relations :=
    session.entityGraph.getAllRelationships.filter
      (relationChanged session.metadata.id known fullGraph)

def savedState (known : PersistedState) (query : SaveQuery) (session : ActiveSession)
    (failed : FailedStatements) : PersistedState :=
  let graphOk := !failed.entities && !failed.relations
  { updateIds :=
      (known.updateIds ++ query.updates.map ContextUpdate.id).filter
        (fun id => id ∉ query.removed)
    entities := if graphOk then entityFingerprints session.entityGraph else ∅
    relations :=
      if graphOk then relationFingerprints session.metadata.id session.entityGraph
      else ∅ }

def persist (now : Timestamp) (failed : FailedStatements) (victim : Uuid)
    (backend : Backend) (session : ActiveSession) (vectorized : List Uuid)
    (explicit : List ContextUpdate) (removed : List Uuid) (fullGraph : Bool) :
    Backend × Except String Unit :=
  let sessionId := session.metadata.id
  let slots := persistedSlot backend.persisted sessionId victim
  let known := knownState ⟨backend.tables, slots⟩ sessionId
  let query := saveQuery now known session vectorized explicit removed fullGraph
  let tables := query.run backend.tables sessionId failed
  if failed.session || failed.updates || failed.removed then
    (⟨tables, slots.insert sessionId none⟩,
      Except.error ("Failed to save session " ++ UuidText.toText sessionId ++ ": " ++
        toString failed.count ++ " statement(s) failed"))
  else
    (⟨tables, slots.insert sessionId (some (savedState known query session failed))⟩,
      Except.ok ())

/-- `save_session_with_changes`; without removed ids it is
`save_session_with_updates`. -/
def saveSessionWithChanges (now : Timestamp) (failed : FailedStatements)
    (victim : Uuid) (backend : Backend) (session : ActiveSession)
    (vectorized : List Uuid) (sessionId : Uuid) (updates : List ContextUpdate)
    (removed : List Uuid) : Backend × Except String Unit :=
  if session.metadata.id ≠ sessionId then
    (backend, Except.error ("Session id mismatch: blob " ++
      UuidText.toText session.metadata.id ++ " vs updates for " ++
      UuidText.toText sessionId))
  else persist now failed victim backend session vectorized updates removed false

def batchSaveUpdates (backend : Backend) (sessionId : Uuid)
    (updates : List ContextUpdate) : Backend :=
  if updates = [] then backend
  else { backend with tables := backend.tables.upsertUpdates sessionId updates }

/-!
# Loading
-/

def pageLimit : Nat :=
  1000

/-- `LIMIT` and `START` of an ordered query. -/
def pageOf {row : Type} (rows : List row) (start : Nat) : List row :=
  (rows.drop start).take pageLimit

def loadPages {row : Type} (rows : List row) (start : Nat) : List row :=
  if (pageOf rows start).length < pageLimit then pageOf rows start
  else pageOf rows start ++ loadPages rows (start + (pageOf rows start).length)
termination_by rows.length - start
decreasing_by
  simp only [pageOf, List.length_take, List.length_drop, pageLimit] at *
  omega

/-- `ORDER BY timestamp ASC, update_id ASC`. -/
def updateLe (a b : ContextUpdateRecord) : Prop :=
  a.timestamp < b.timestamp ∨
    a.timestamp = b.timestamp ∧
      UuidText.toText a.updateId ≤ UuidText.toText b.updateId

instance (a b : ContextUpdateRecord) : Decidable (updateLe a b) :=
  inferInstanceAs (Decidable (_ ∨ _))

def selectUpdates (t : Tables) (sessionId : Uuid) : List ContextUpdateRecord :=
  ((t.updates.toList.map Prod.snd).filter
    (fun r => r.sessionId = sessionId)).insertionSort updateLe

def loadSessionUpdates (t : Tables) (sessionId : Uuid) : List ContextUpdate :=
  (loadPages (selectUpdates t sessionId) 0).map ContextUpdateRecord.updateData

/-- `ORDER BY importance_score DESC, name ASC`. -/
def entityLe (a b : EntityRecord) : Prop :=
  b.entity.importanceScore < a.entity.importanceScore ∨
    a.entity.importanceScore = b.entity.importanceScore ∧
      a.entity.name ≤ b.entity.name

instance (a b : EntityRecord) : Decidable (entityLe a b) :=
  inferInstanceAs (Decidable (_ ∨ _))

def listEntities (t : Tables) (sessionId : Uuid) : List EntityData :=
  (loadPages
    (((t.entities.toList.map Prod.snd).filter
      (fun r => r.sessionId = sessionId)).insertionSort entityLe) 0).map
    EntityRecord.entity

def relationOfRow (t : Tables) (r : RelationRow) : Option EntityRelationship :=
  (t.entities[r.fromKey]?).bind fun source =>
    (t.entities[r.toKey]?).map fun target =>
      { fromEntity := source.entity.name
        toEntity := target.entity.name
        relationType := r.table
        context := r.context }

def loadAllRelationships (t : Tables) (sessionId : Uuid) : List EntityRelationship :=
  relationTables.flatMap fun table =>
    ((t.relations.toList.map Prod.snd).filter
      (fun r => r.table = table ∧ r.sessionId = sessionId)).filterMap
      (relationOfRow t)

variable [CharTables]

def loadedGraph (now : Timestamp) (entities : List EntityData)
    (relations : List EntityRelationship) : EntityGraph :=
  relations.foldl (EntityGraph.addRelationship now)
    (entities.foldl (EntityGraph.insertEntity now) EntityGraph.new)

def loadedSession (now : Timestamp) (r : SessionRecord) (updates : List ContextUpdate)
    (entities : List EntityData) (relations : List EntityRelationship) :
    ActiveSession :=
  relinkEntityMentions
    { metadata :=
        { id := r.sessionId
          name := r.name
          description := r.description
          createdAt := r.createdAt
          userPreferences := r.userPreferences }
      lastUpdated := r.lastUpdated
      hotContext :=
        hotContextSharing ((updates.reverse.take 50).reverse) updates
          r.userPreferences.maxHotContextSize
      warmContext := []
      coldContext := []
      currentState := DerivedState.rebuildStructuredContext updates
      incrementalUpdates := updates
      codeReferences := DerivedState.extractCodeReferences updates
      changeHistory := DerivedState.extractChangeHistory updates
      entityGraph := loadedGraph now entities relations }

def loadedState (session : ActiveSession) : PersistedState where
  updateIds := session.incrementalUpdates.map ContextUpdate.id
  entities := entityFingerprints session.entityGraph
  relations := relationFingerprints session.metadata.id session.entityGraph

def rememberLoaded (victim : Uuid) (persisted : PersistedStates)
    (session : ActiveSession) : PersistedStates :=
  (persistedSlot persisted session.metadata.id victim).insert session.metadata.id
    (some (loadedState session))

/-- The selects of the graph that fail; the session is loaded without them. -/
structure FailedSelects where
  entities : Bool
  relations : Bool
  deriving DecidableEq, Repr

def loadSession (now : Timestamp) (failed : FailedSelects) (victim : Uuid)
    (backend : Backend) (sessionId : Uuid) :
    Backend × Except String (ActiveSession × List Uuid) :=
  match backend.tables.sessions[UuidText.toText sessionId]? with
  | none => (backend, Except.error "Session not found")
  | some r =>
      let session :=
        loadedSession now { r with sessionId := sessionId }
          (loadSessionUpdates backend.tables sessionId)
          (if failed.entities then [] else listEntities backend.tables sessionId)
          (if failed.relations then []
            else loadAllRelationships backend.tables sessionId)
      ({ backend with
          persisted := rememberLoaded victim backend.persisted session },
        Except.ok (session, r.vectorizedUpdateIds))

/-!
# The other writes
-/

omit [CharTables]

def deleteSession (backend : Backend) (sessionId : Uuid) : Backend where
  tables :=
    let t := backend.tables.deleteGraph sessionId
    { t with
      sessions := t.sessions.erase (UuidText.toText sessionId)
      updates := t.updates.filter (fun _ r => r.sessionId != sessionId) }
  persisted := backend.persisted.erase sessionId

def clearSessionEntities (backend : Backend) (sessionId : Uuid) : Backend where
  tables := backend.tables.deleteGraph sessionId
  persisted := forgetGraphState backend.persisted sessionId

def upsertEntity (backend : Backend) (sessionId : Uuid) (entity : EntityData) :
    Backend where
  tables := backend.tables.upsertEntities sessionId [(entity.name, entity)]
  persisted := noteEntityWritten backend.persisted sessionId entity

def createRelationship (backend : Backend) (sessionId : Uuid)
    (r : EntityRelationship) : Backend where
  tables := backend.tables.upsertRelations sessionId [r]
  persisted := noteRelationshipWritten backend.persisted sessionId r

end

/-!
# Reading rows
-/

theorem loadPages_eq {row : Type} (rows : List row) (start : Nat) :
    loadPages rows start = rows.drop start := by
  induction h : rows.length - start using Nat.strong_induction_on generalizing start with
  | h n ih =>
      rw [loadPages]
      split
      · next hlt =>
        rw [pageOf, List.length_take] at hlt
        exact List.take_of_length_le (by omega)
      · next hge =>
        have hfull : (pageOf rows start).length = pageLimit := by
          rw [pageOf, List.length_take] at hge ⊢
          omega
        have hlen := hfull
        rw [pageOf, List.length_take, List.length_drop] at hlen
        have hpos : 0 < pageLimit := by
          decide
        rw [hfull, ih (rows.length - (start + pageLimit)) (by omega) _ rfl, pageOf,
          ← List.drop_drop, List.take_append_drop]

/-!
# What is known of a session
-/

section

variable [SurrealCodes]

namespace PersistedStates

theorem known_insert (persisted : PersistedStates) (s t : Uuid)
    (state : Option PersistedState) :
    PersistedStates.known (persisted.insert s state) t =
      if s = t then state else persisted.known t := by
  rw [known, Database.get_insert]
  by_cases hst : s = t
  · rw [if_pos hst, if_pos hst]
    rfl
  · rw [if_neg hst, if_neg hst]
    rfl

theorem known_erase (persisted : PersistedStates) (s t : Uuid) :
    PersistedStates.known (persisted.erase s) t =
      if s = t then none else persisted.known t := by
  unfold known
  rw [Std.ExtTreeMap.getElem?_erase]
  by_cases hst : s = t
  · subst hst
    simp
  · rw [if_neg (fun h => hst (Std.LawfulEqOrd.eq_of_compare h)), if_neg hst]

theorem known_modify (persisted : PersistedStates) (s t : Uuid)
    (f : PersistedState -> PersistedState) :
    (persisted.modify s f).known t =
      if s = t then (persisted.known t).map f else persisted.known t := by
  unfold modify
  cases hknown : persisted.known s with
  | none =>
      by_cases hst : s = t
      · subst hst
        rw [if_pos rfl]
        dsimp only
        rw [hknown]
        rfl
      · rw [if_neg hst]
  | some state =>
      dsimp only
      rw [known_insert]
      by_cases hst : s = t
      · subst hst
        rw [if_pos rfl, if_pos rfl, hknown]
        rfl
      · rw [if_neg hst, if_neg hst]

theorem known_slot_some {persisted : PersistedStates} {s t victim : Uuid}
    {state : PersistedState}
    (h : (persistedSlot persisted s victim).known t = some state) :
    persisted.known t = some state := by
  have hkept : forall kept : PersistedStates,
      (if s ∈ kept then kept else kept.insert s none).known t = some state ->
      kept.known t = some state := by
    intro kept hknown
    split at hknown
    · exact hknown
    · rw [known_insert] at hknown
      split at hknown
      · cases hknown
      · exact hknown
  unfold persistedSlot at h
  dsimp only at h
  have hbefore := hkept _ h
  split at hbefore
  · rw [known_erase] at hbefore
    split at hbefore
    · cases hbefore
    · exact hbefore
  · exact hbefore

theorem known_slot_self (persisted : PersistedStates) (s victim : Uuid) :
    (persistedSlot persisted s victim).known s = persisted.known s := by
  have hnone : forall kept : PersistedStates, s ∉ kept -> kept.known s = none := by
    intro kept hkept
    unfold known
    rw [Std.ExtTreeMap.getElem?_eq_none hkept]
    rfl
  have hkept : forall kept : PersistedStates,
      (if s ∈ kept then kept else kept.insert s none).known s = kept.known s := by
    intro kept
    split
    · rfl
    · next hnot => rw [known_insert, if_pos rfl, hnone kept hnot]
  unfold persistedSlot
  dsimp only
  rw [hkept]
  split
  · next hfull =>
    have herased : s ∉ persisted.erase victim :=
      fun h => hfull.2 (Std.ExtTreeMap.mem_of_mem_erase h)
    rw [hnone _ herased, hnone _ hfull.2]
  · rfl

end PersistedStates

theorem knownState_slot (backend : Backend) (s victim : Uuid) :
    knownState ⟨backend.tables, persistedSlot backend.persisted s victim⟩ s =
      knownState backend s := by
  unfold knownState
  rw [PersistedStates.known_slot_self]

end

/-!
# Rows of one session
-/

section

variable [UuidText]

def Tables.updateOf (t : Tables) (sessionId id : Uuid) : Option ContextUpdate :=
  (t.updates[UuidText.toText id]?).bind fun r =>
    if r.sessionId = sessionId then some r.updateData else none

def Tables.RowFree (t : Tables) (sessionId id : Uuid) : Prop :=
  (t.updates[UuidText.toText id]?).all (fun r => r.sessionId = sessionId) = true

instance (t : Tables) (sessionId id : Uuid) : Decidable (t.RowFree sessionId id) :=
  inferInstanceAs (Decidable (_ = true))

theorem Tables.RowFree.other {t : Tables} {s other id : Uuid} (h : t.RowFree s id)
    (hother : s ≠ other) :
    t.updateOf other id = none := by
  unfold RowFree at h
  unfold updateOf
  cases hrow : t.updates[UuidText.toText id]? with
  | none => rfl
  | some r =>
      rw [hrow] at h
      have hs : r.sessionId = s := by simpa using h
      simp [hs, hother]

variable [LawfulUuidText]

theorem updates_deleteUpdates (t : Tables) (removed : List Uuid) (id : Uuid) :
    (t.deleteUpdates removed).updates[UuidText.toText id]? =
      if id ∈ removed then none else t.updates[UuidText.toText id]? := by
  have hmem : UuidText.toText id ∈ removed.map UuidText.toText ↔ id ∈ removed := by
    constructor
    · intro h
      obtain ⟨other, hother, htext⟩ := List.mem_map.mp h
      rw [← toText_inj htext]
      exact hother
    · exact List.mem_map_of_mem
  unfold Tables.deleteUpdates
  dsimp only
  rw [Database.get_write_deletes]
  by_cases hid : id ∈ removed
  · rw [if_pos (hmem.mpr hid), if_pos hid]
  · rw [if_neg (fun h => hid (hmem.mp h)), if_neg hid]

variable [SurrealCodes]

theorem updates_upsertUpdates (t : Tables) (s : Uuid) (updates : List ContextUpdate)
    (id : Uuid) :
    (t.upsertUpdates s updates).updates[UuidText.toText id]? =
      ((Database.lastWith ContextUpdate.id id updates).map (updateRecord s)).or
        t.updates[UuidText.toText id]? := by
  have hlast : Database.lastWith (fun u : ContextUpdate => UuidText.toText u.id)
      (UuidText.toText id) updates = Database.lastWith ContextUpdate.id id updates := by
    unfold Database.lastWith
    congr 1
    funext u
    exact decide_eq_decide.mpr ⟨toText_inj, congrArg UuidText.toText⟩
  unfold Tables.upsertUpdates
  dsimp only
  rw [Database.get_write_puts_last, hlast]

/-!
# Keys of one session
-/

omit [SurrealCodes] in
theorem entityId_inj {s t : Uuid} {name other : String}
    (h : entityId s name = entityId t other) :
    s = t ∧ name = other := by
  have hchars := congrArg String.toList h
  simp only [entityId, String.toList_append, List.append_assoc] at hchars
  have hlen : (UuidText.toText s).toList.length = (UuidText.toText t).toList.length := by
    rw [String.length_toList, String.length_toList, LawfulUuidText.length_toText,
      LawfulUuidText.length_toText]
  obtain ⟨hid, hrest⟩ := List.append_inj hchars hlen
  exact ⟨toText_inj (String.toList_inj.mp hid),
    String.toList_inj.mp (List.append_cancel_left hrest)⟩

omit [UuidText] [LawfulUuidText] [SurrealCodes] in
theorem relationTables_apart (t t' : RelationType) (h : t ≠ t') :
    Apart (relationTableName t ++ ":") (relationTableName t' ++ ":") := by
  cases t <;> cases t' <;> first | exact absurd rfl h | decide

omit [UuidText] [LawfulUuidText] in
theorem relationKey_inj [LawfulSurrealCodes] {s t : Uuid} {r r' : EntityRelationship}
    (h : relationKey s r = relationKey t r') :
    s = t ∧ r.fromEntity = r'.fromEntity ∧ r.toEntity = r'.toEntity ∧
      r.relationType = r'.relationType := by
  unfold relationKey at h
  by_cases htype : r.relationType = r'.relationType
  · rw [htype] at h
    exact LawfulSurrealCodes.relationId_inj _ _ _ _ _ _ _ _
      ((String.append_right_inj _).mp h)
  · exact absurd h ((relationTables_apart _ _ htype).ne _ _)

end

/-!
# Codes without collisions
-/

def plainRelationId (s : Uuid) (e f : String) (t : RelationType) : String :=
  String.ofList ((hyphenated s).toList ++
    '_' :: Nat.digitChar (relationRank t) ::
      (List.replicate e.length '0' ++ ':' :: (e.toList ++ f.toList)))

/-- Fingerprints that are what they are taken of, and dates in the first ten
seconds of 1970. -/
@[reducible] def plainCodes : SurrealCodes where
  Fingerprint := EntityData ⊕ EntityRelationship
  decEq := inferInstance
  entityFingerprint := Sum.inl
  relationFingerprint := Sum.inr
  relationId := plainRelationId
  toRfc3339 := fun t => "1970-01-01T00:00:0" ++ toString t ++ "+00:00"

theorem relationRank_inj (t t' : RelationType)
    (h : Nat.digitChar (relationRank t) =
      Nat.digitChar (relationRank t')) :
    t = t' := by
  cases t <;> cases t' <;> first | rfl | exact absurd h (by decide)

theorem plainRelationId_inj (s s' : Uuid) (e e' f f' : String) (t t' : RelationType)
    (h : plainRelationId s e f t = plainRelationId s' e' f' t') :
    s = s' ∧ e = e' ∧ f = f' ∧ t = t' := by
  have hlen : (hyphenated s).toList.length = (hyphenated s').toList.length := by
    rw [String.length_toList, String.length_toList, length_hyphenated,
      length_hyphenated]
  obtain ⟨hid, hrest⟩ := List.append_inj (String.ofList_injective h) hlen
  have hmark := (List.cons.inj hrest).2
  obtain ⟨hrank, hnames⟩ := List.cons.inj hmark
  have hcolon : forall n, ':' ∉ List.replicate n '0' := by
    intro n
    simp
  obtain ⟨hsplit, happend⟩ := KeyValue.split_at_mark (hcolon _) (hcolon _) hnames
  have hsplit' : e.toList.length = e'.toList.length := by
    rw [String.length_toList, String.length_toList]
    simpa using congrArg List.length hsplit
  obtain ⟨he, hf⟩ := List.append_inj happend hsplit'
  exact ⟨@toText_inj hyphenatedText lawful_hyphenatedText _ _ (String.toList_inj.mp hid),
    String.toList_inj.mp he, String.toList_inj.mp hf, relationRank_inj t t' hrank⟩

theorem lawful_plainCodes : @LawfulSurrealCodes plainCodes :=
  @LawfulSurrealCodes.mk plainCodes (fun _ _ h => Sum.inl.inj h)
    (fun _ _ h => Sum.inr.inj h) plainRelationId_inj

end Surreal
end Storage
end PostCortex
