import Mathlib.Algebra.GroupWithZero.Nat
import PostCortex.Graph.Relinking
import PostCortex.Storage.Overwriting

/-!
# Exporting

`export_full` of `export_import.rs` with the listings that it reads.  Every
operation of the store keeps it sound: the keys are those of the records under
them, and every session is in the current format.
-/

namespace PostCortex
namespace Storage

open PostCortex.Core
open PostCortex.Graph
open KeyValue
open Session
open Transition

/-!
# Listing and exporting
-/

def sessionKeyLen : Nat :=
  44

section

variable [UuidText]

def sessionOfKey (key : String) : Option Uuid :=
  if key.toList.length = sessionKeyLen then
    (UuidText.parseStr (String.ofList (key.toList.drop 8))).toOption
  else none

/-- The loop of `list_session_ids` over the keys that are left; the iterator was
last sent to `next`. -/
def sessionIdsFrom : String -> List String -> List Uuid
  | _, [] => []
  | next, key :: rest =>
      if compare key next = Ordering.lt ∨ key.toList.length < sessionKeyLen then
        sessionIdsFrom next rest
      else
        (sessionOfKey key).toList ++
          sessionIdsFrom (String.ofList (key.toList.take sessionKeyLen) ++ ";") rest

def listSessionIds (db : Db SessionBlob) : List Uuid :=
  sessionIdsFrom "session:" (db.keysWhere (hasPrefix "session:"))

def loadSessionUpdates (db : Db SessionBlob) (s : Uuid) : List ContextUpdate :=
  match indexOf db s with
  | some ids => ids.filterMap (rowOf db s)
  | none =>
      db.toList.filterMap (fun e =>
        match e.2 with
        | Record.update u =>
            if hasPrefix (sessionPrefix "session:" s ++ "update:") e.1 then some u
            else none
        | _ => none)

variable [CharTables]

def exportSessionData (now : Timestamp) (db : Db SessionBlob) (s : Uuid) :
    Db SessionBlob × Except String ExportedSession :=
  match loadSession now db s with
  | (loadedDb, Except.error e) => (loadedDb, Except.error e)
  | (loadedDb, Except.ok loaded) =>
      (loadedDb,
        Except.ok
          { session := loaded.1
            vectorized := loaded.2
            updates := loadSessionUpdates loadedDb s })

def exportSessions (now : Timestamp) :
    List Uuid -> Db SessionBlob -> Db SessionBlob × List ExportedSession
  | [], db => (db, [])
  | s :: rest, db =>
      let (loadedDb, exported) := exportSessionData now db s
      let (last, es) := exportSessions now rest loadedDb
      (last, exported.toOption.toList ++ es)

def exportWorkspace (w : StoredWorkspace) : ExportedWorkspace where
  id := w.id
  name := w.name
  description := w.description
  sessions := w.sessions
  createdAt := w.createdAt

def exportFull (now : Timestamp) (store : Store) (includeCheckpoints : Bool) :
    Store × ExportData :=
  let (db, sessions) := exportSessions now (listSessionIds store.db) store.db
  let after := { store with db := db }
  let workspaces := after.listWorkspaces.map exportWorkspace
  let checkpoints := if includeCheckpoints then after.listCheckpoints else []
  (after,
    { formatVersion := exportFormatVersion
      metadata :=
        { sessionCount := sessions.length
          workspaceCount := workspaces.length
          updateCount := (sessions.map (fun e => e.updates.length)).sum
          checkpointCount := checkpoints.length
          embeddingCount := 0 }
      sessions := sessions
      workspaces := workspaces
      checkpoints := checkpoints
      embeddings := [] })

end

/-!
# Sound stores
-/

section

variable [CharTables]

/-- What of a session a document needs to be read twice. -/
structure Kept (session : ActiveSession) : Prop where
  graph : session.entityGraph.Restorable
  tier : session.hotContext.Tiered
  room : session.hotContext.maxSize =
    session.metadata.userPreferences.maxHotContextSize
  cold : Compact session.coldContext

theorem kept_of_storable {session : ActiveSession} (h : Storable session) :
    Kept session :=
  ⟨h.graph, h.tier, h.room, h.cold⟩

theorem Kept.withGraph {session : ActiveSession} (h : Kept session)
    {graph : EntityGraph} (hgraph : graph.Restorable) :
    Kept { session with entityGraph := graph } :=
  ⟨hgraph, h.tier, h.room, h.cold⟩

theorem Kept.apply {session : ActiveSession} (h : Kept session)
    (event : SessionEvent) :
    Kept (event.apply session) := by
  have hroomy : Roomy session := ⟨h.tier, h.room⟩
  cases event with
  | addIncrementalUpdateFast draws update =>
      show Kept (session.addIncrementalUpdateFast draws update)
      rw [ActiveSession.addIncrementalUpdateFast_eq]
      exact ⟨h.graph, h.tier.push _, h.room, maintainContext_compact h.cold draws⟩
  | applyEntityGraphUpdate now update =>
      exact h.withGraph (h.graph.applyUpdate now update)
  | removeUpdateById entryId =>
      have hroomy := hroomy.remove entryId
      refine ⟨removed_restorable h.graph entryId, hroomy.tier, hroomy.room, ?_⟩
      have hcold := removed_cold session entryId
      show Compact ((session.removeUpdateById entryId).getD session).coldContext
      rw [hcold]
      exact h.cold
  | removeUpdatesForFile filePath => exact ⟨h.graph, h.tier, h.room, h.cold⟩
  | rebuildEntityGraphSync now =>
      exact h.withGraph (rebuilt_restorable session now)
  | mergeEntities now written target =>
      exact h.withGraph (h.graph.mergeEntities now written target)
  | retireUpdate entryId time =>
      have hroomy := hroomy.retire entryId time
      obtain ⟨hgraph, hcold⟩ := retired_graph session entryId time
      refine ⟨?_, hroomy.tier, hroomy.room, ?_⟩
      · show EntityGraph.Restorable
          (((retireUpdate session entryId time).map Prod.fst).getD session).entityGraph
        rw [hgraph]
        exact h.graph
      · show Compact
          (((retireUpdate session entryId time).map Prod.fst).getD session).coldContext
        rw [hcold]
        exact h.cold

/-- Any operations on a new session leave it so. -/
theorem kept_of_reachable {id : Uuid} {name description : Option String}
    {created : Timestamp} {session : ActiveSession}
    (h : (sessions id name description created).Reachable System.Anything session) :
    Kept session := by
  refine h.invariant (kept_of_storable (storable_new id name description created)) ?_
  intro session event session' hkept _ hstep
  cases hstep
  exact hkept.apply event

def reread (now : Timestamp) (session : ActiveSession) (vectorized : List Uuid)
    (updates : List ContextUpdate) : ActiveSession :=
  relinkEntityMentions
    { (deserialize now
        (serialize { session with incrementalUpdates := [] } vectorized)).1 with
      incrementalUpdates := updates }

theorem reread_eq (now : Timestamp) (session : ActiveSession)
    (vectorized : List Uuid) (updates : List ContextUpdate) :
    reread now session vectorized updates =
      { session with
        hotContext :=
          HotContext.fromUpdates session.hotContext.snapshot
            session.metadata.userPreferences.maxHotContextSize
        coldContext := compactColdContext session.coldContext
        incrementalUpdates := updates
        entityGraph := (session.entityGraph.reload now).relinkMentions updates } := by
  have hnone : Shares session.hotContext [] :=
    fun _ _ _ hw => absurd hw List.not_mem_nil
  unfold reread relinkEntityMentions deserialize serialize
  dsimp only
  rw [hnone.hotContextSharing]
  rfl

variable {session : ActiveSession}

theorem Kept.reread_time (h : Kept session) (now later : Timestamp)
    (vectorized : List Uuid) (updates : List ContextUpdate) :
    reread later session vectorized updates = reread now session vectorized updates := by
  have hgraph : session.entityGraph.reload later = session.entityGraph.reload now := by
    rw [h.graph.resolving.reload_eq h.graph.exact later,
      h.graph.resolving.reload_eq h.graph.exact now]
  rw [reread_eq, reread_eq, hgraph]

theorem Kept.reread_again (h : Kept session) (now later : Timestamp)
    (vectorized : List Uuid) (updates : List ContextUpdate) :
    serialize (reread later (reread now session vectorized updates) vectorized
        updates) vectorized =
      serialize (reread now session vectorized updates) vectorized := by
  have hfits : session.hotContext.snapshot.length ≤
      session.metadata.userPreferences.maxHotContextSize := by
    rw [← h.room]
    exact h.tier.bounded
  have hhot := HotContext.snapshot_fromUpdates hfits
  have hcold := h.cold.compactColdContext
  have hgraph := (h.graph.reload now).relink_reload later updates
  rw [reread_eq later, reread_eq now]
  unfold serialize
  dsimp only
  rw [hhot, hhot, hcold, hcold, hgraph]

end

section

variable [UuidText]

structure Fitting (k : String) (r : Record SessionBlob) : Prop where
  session : hasPrefix "session:" k = true ->
    (exists s b, k = sessionKey s ∧ r = Record.session b) ∨
      exists s w, k = updateKey s w.id ∧ r = Record.update w
  member : hasPrefix "ws_session:" k = true ->
    exists m, r = Record.membership m ∧ k = membershipKey m.workspaceId m.sessionId

theorem fitting_other {kind rest : String} (hsession : Apart "session:" kind)
    (hmember : Apart "ws_session:" kind) (r : Record SessionBlob) :
    Fitting (kind ++ rest) r where
  session := by
    intro h
    rw [hsession.not_hasPrefix] at h
    cases h
  member := by
    intro h
    rw [hmember.not_hasPrefix] at h
    cases h

omit [UuidText] in
theorem session_apart : Apart "ws_session:" "session:" := by
  decide

theorem fitting_update (s : Uuid) (w : ContextUpdate) :
    Fitting (updateKey s w.id) (Record.update w) where
  session := fun _ => Or.inr ⟨s, w, rfl, rfl⟩
  member := by
    intro h
    rw [updateKey_eq, String.append_assoc, session_apart.not_hasPrefix] at h
    cases h

theorem fitting_session (s : Uuid) (b : SessionBlob) :
    Fitting (sessionKey s) (Record.session b) where
  session := fun _ => Or.inl ⟨s, b, rfl, rfl⟩
  member := by
    intro h
    unfold sessionKey at h
    rw [session_apart.not_hasPrefix] at h
    cases h

theorem fitting_index (s : Uuid) (ids : List Uuid) :
    Fitting (updateIndexKey s) (Record.updateIndex ids) :=
  fitting_other (by decide) (by decide) _

theorem fitting_meta (s : Uuid) (summary : SessionSummary) :
    Fitting (metaKey s) (Record.summary summary) :=
  fitting_other (by decide) (by decide) _

theorem fitting_membership (m : StoredWorkspaceSession) :
    Fitting (membershipKey m.workspaceId m.sessionId) (Record.membership m) where
  session := by
    intro h
    unfold membershipKey sessionPrefix at h
    have hapart : Apart "session:" "ws_session:" := by
      decide
    rw [String.append_assoc, String.append_assoc, hapart.not_hasPrefix] at h
    cases h
  member := fun _ => ⟨m, rfl, rfl⟩

variable {p : String -> Record SessionBlob -> Prop} {db : Db SessionBlob}

omit [UuidText] in
theorem every_write (h : forall k r, db[k]? = some r -> p k r)
    {batch : List (Edit String (Record SessionBlob))}
    (hbatch : forall k r, Edit.put k r ∈ batch -> p k r) :
    forall k r, (db.write batch)[k]? = some r -> p k r := by
  intro k r hk
  rcases Database.get_write_some hk with hold | hput
  · exact h k r hold
  · exact hbatch k r hput

/-- What holds of the records that saves of sessions write. -/
structure HoldsOfSaves (p : String -> Record SessionBlob -> Prop) : Prop where
  update : forall s w, p (updateKey s w.id) (Record.update w)
  index : forall s ids, p (updateIndexKey s) (Record.updateIndex ids)
  summary : forall s summary, p (metaKey s) (Record.summary summary)
  session : forall s b, p (sessionKey s) (Record.session b)

theorem HoldsOfSaves.putUpdates (hp : HoldsOfSaves p) {s : Uuid}
    {updates : List ContextUpdate} {k : String} {r : Record SessionBlob}
    (h : Edit.put k r ∈ Storage.putUpdates s updates) :
    p k r := by
  obtain ⟨w, _, heq⟩ := List.mem_map.mp h
  cases heq
  exact hp.update s w

theorem HoldsOfSaves.persist (hp : HoldsOfSaves p)
    (h : forall k r, db[k]? = some r -> p k r) (session : ActiveSession)
    (b : SessionBlob) (explicit : List ContextUpdate) (removed : List Uuid) :
    forall k r, (persistSession db session b explicit removed).1[k]? = some r ->
      p k r := by
  unfold persistSession
  dsimp only
  apply every_write h
  intro k r hput
  rcases List.mem_append.mp hput with hput | hlast
  · rcases List.mem_append.mp hput with hput | hindex
    · rcases List.mem_append.mp hput with hput | hdelete
      · exact hp.putUpdates hput
      · exact absurd hdelete Database.not_mem_deletes
    · split at hindex
      · cases hindex
      · cases List.mem_singleton.mp hindex
        exact hp.index _ _
  · rcases List.mem_cons.mp hlast with hmeta | hsession
    · cases hmeta
      exact hp.summary _ _
    · cases List.mem_singleton.mp hsession
      exact hp.session _ _

theorem HoldsOfSaves.batch (hp : HoldsOfSaves p)
    (h : forall k r, db[k]? = some r -> p k r) (s : Uuid)
    (updates : List ContextUpdate) :
    forall k r, (batchSaveUpdates db s updates)[k]? = some r -> p k r := by
  unfold batchSaveUpdates
  split
  · exact h
  · split
    · exact every_write h (fun k r hput => hp.putUpdates hput)
    · dsimp only
      split
      · exact every_write h (fun k r hput => hp.putUpdates hput)
      · apply every_write h
        intro k r hput
        rcases List.mem_append.mp hput with hput | hmeta
        · rcases List.mem_append.mp hput with hput | hindex
          · exact hp.putUpdates hput
          · cases List.mem_singleton.mp hindex
            exact hp.index _ _
        · split at hmeta
          · cases List.mem_singleton.mp hmeta
            exact hp.summary _ _
          · cases hmeta

theorem fitting_saves : HoldsOfSaves Fitting where
  update := fitting_update
  index := fitting_index
  summary := fitting_meta
  session := fitting_session

def AllFitting (db : Db SessionBlob) : Prop :=
  forall k r, db[k]? = some r -> Fitting k r

theorem AllFitting.write {db : Db SessionBlob} (h : AllFitting db)
    {batch : List (Edit String (Record SessionBlob))}
    (hbatch : forall k r, Edit.put k r ∈ batch -> Fitting k r) :
    AllFitting (db.write batch) :=
  every_write h hbatch

variable [CharTables]

/-- Every blob was written by this version for a session with that id, and the
session has an index. -/
def Current (db : Db SessionBlob) : Prop :=
  forall s b, blobOf db s = some b ->
    exists session vectorized ids, b = sessionBlob session vectorized ∧
      session.metadata.id = s ∧ Kept session ∧ vectorized.Nodup ∧
      indexOf db s = some ids

variable {db' : Db SessionBlob}

theorem Current.same (h : Current db) {s : Uuid} (hsame : SameRecords s db db')
    {b : SessionBlob} (hb : blobOf db' s = some b) :
    exists session vectorized ids, b = sessionBlob session vectorized ∧
      session.metadata.id = s ∧ Kept session ∧ vectorized.Nodup ∧
      indexOf db' s = some ids := by
  rw [hsame.blobs] at hb
  rw [hsame.index]
  exact h s b hb

/-- What holds of every store that the operations make. -/
structure Sound (store : Store) : Prop where
  coherent : Coherent store.db
  fitting : AllFitting store.db
  current : Current store.db
  workspaces : forall k w, store.workspaces[k]? = some w -> k = workspaceKey w.id
  checkpoints : forall k c, store.checkpoints[k]? = some c -> k = checkpointKey c.id

theorem sound_empty : Sound Store.empty := by
  have hdb : forall k : String, Store.empty.db[k]? = none :=
    fun k => Std.ExtTreeMap.getElem?_empty
  refine ⟨coherent_empty, ?_, ?_, ?_, ?_⟩
  · intro k r hk
    rw [hdb] at hk
    cases hk
  · intro s b hb
    unfold blobOf at hb
    rw [hdb] at hb
    cases hb
  · intro k w hk
    have hnone : Store.empty.workspaces[k]? = none := Std.ExtTreeMap.getElem?_empty
    rw [hnone] at hk
    cases hk
  · intro k c hk
    have hnone : Store.empty.checkpoints[k]? = none := Std.ExtTreeMap.getElem?_empty
    rw [hnone] at hk
    cases hk

theorem Current.frame (h : Current db) (hsame : forall s, SameRecords s db db') :
    Current db' :=
  fun s _ hb => h.same (hsame s) hb

omit [CharTables] in
theorem coherent_frame (h : Coherent db) (hsame : forall s, SameRecords s db db') :
    Coherent db' := by
  intro s ids hids
  rw [(hsame s).index] at hids
  obtain ⟨hnodup, hrows⟩ := h s ids hids
  refine ⟨hnodup, fun u hu => ?_⟩
  rw [(hsame s).rows]
  exact hrows u hu

variable {store : Store}

theorem Sound.withMembers (h : Sound store)
    {batch : List (Edit String (Record SessionBlob))}
    (hforeign : forall e, e ∈ batch -> hasPrefix "ws_session:" e.target = true)
    (hfitting : forall k r, Edit.put k r ∈ batch -> Fitting k r) :
    Sound { store with db := store.db.write batch } := by
  have hsame : forall s, SameRecords s store.db (store.db.write batch) := fun s =>
    sameRecords_write (fun e he => membership_foreign (hforeign e he)) store.db
  exact ⟨coherent_frame h.coherent hsame, h.fitting.write hfitting,
    h.current.frame hsame, h.workspaces, h.checkpoints⟩

/-!
# Runs
-/

inductive StoreOp where
  | persist (session : ActiveSession) (vectorized : List Uuid)
      (explicit : List ContextUpdate) (removed : List Uuid)
  | batchSaveUpdates (sessionId : Uuid) (updates : List ContextUpdate)
  | deleteSession (sessionId : Uuid)
  | saveCheckpoint (checkpoint : Legacy.SessionCheckpoint)
  | saveWorkspaceMetadata (workspaceId : Uuid) (name description : String)
      (sessionIds : List Uuid) (now : Nat)
  | deleteWorkspace (workspaceId : Uuid)
  | addSessionToWorkspace (workspaceId sessionId : Uuid) (role : SessionRole)
      (now : Nat)
  | removeSessionFromWorkspace (workspaceId sessionId : Uuid)
  | saveEmbedding (sessionId : Uuid) (contentId : String)
  | deleteEmbedding (sessionId : Uuid) (contentId : String)

def StoreOp.apply (store : Store) : StoreOp -> Store
  | persist session vectorized explicit removed =>
      { store with
        db := (persistSession store.db session (sessionBlob session vectorized)
          explicit removed).1 }
  | batchSaveUpdates s updates =>
      { store with db := Storage.batchSaveUpdates store.db s updates }
  | deleteSession s =>
      { store with
        db := Storage.deleteSession store.db s
        embeddings :=
          store.embeddings.filter (fun k => !hasPrefix (sessionPrefix "embedding:" s) k) }
  | saveCheckpoint c => store.saveCheckpoint c
  | saveWorkspaceMetadata w name description sessionIds now =>
      store.saveWorkspaceMetadata w name description sessionIds now
  | deleteWorkspace w => store.deleteWorkspace w
  | addSessionToWorkspace w s role now => store.addSessionToWorkspace w s role now
  | removeSessionFromWorkspace w s =>
      { store with db := store.db.write [Edit.delete (membershipKey w s)] }
  | saveEmbedding s contentId =>
      { store with embeddings := embeddingKey s contentId :: store.embeddings }
  | deleteEmbedding s contentId =>
      { store with
        embeddings := store.embeddings.filter (fun k => k != embeddingKey s contentId) }

def SavesKept : Store -> StoreOp -> Prop
  | _, StoreOp.persist session vectorized _ _ => Kept session ∧ vectorized.Nodup
  | _, _ => True

def stores : System Store StoreOp where
  init := Store.empty
  step := fun store op => some (op.apply store)

variable [LawfulUuidText]

theorem Sound.persist (h : Sound store) {session : ActiveSession}
    (hkept : Kept session) {vectorized : List Uuid} (hnodup : vectorized.Nodup)
    (explicit : List ContextUpdate) (removed : List Uuid) :
    Sound { store with
      db := (persistSession store.db session (sessionBlob session vectorized)
        explicit removed).1 } where
  coherent := persist_coherent h.coherent _ _ _ _
  fitting := fitting_saves.persist h.fitting _ _ _ _
  current := by
    intro s b hb
    by_cases hs : session.metadata.id = s
    · subst hs
      have hblob := persist_blob store.db session (sessionBlob session vectorized)
        explicit removed
      exact ⟨session, vectorized, _, Option.some.inj (hb.symm.trans hblob), rfl, hkept,
        hnodup, persist_index _ _ _ _ _⟩
    · exact h.current.same (persist_other _ _ _ _ _ hs) hb
  workspaces := h.workspaces
  checkpoints := h.checkpoints

theorem Sound.batch (h : Sound store) (s : Uuid) (updates : List ContextUpdate) :
    Sound { store with db := batchSaveUpdates store.db s updates } where
  coherent := batch_coherent h.coherent _ _
  fitting := fitting_saves.batch h.fitting _ _
  current := by
    intro t b hb
    by_cases ht : s = t
    · subst ht
      rw [show blobOf (batchSaveUpdates store.db s updates) s = blobOf store.db s from
        batch_blob _ _ _] at hb
      obtain ⟨session, vectorized, ids, heq, hid, hkept, hnodup, hindex⟩ :=
        h.current s b hb
      exact ⟨session, vectorized, _, heq, hid, hkept, hnodup,
        batch_index_some hindex updates⟩
    · exact h.current.same (batch_other _ _ _ ht) hb
  workspaces := h.workspaces
  checkpoints := h.checkpoints

theorem Sound.deleteSession (h : Sound store) (s : Uuid) (embeddings : List String) :
    Sound { store with
      db := Storage.deleteSession store.db s
      embeddings := embeddings } where
  coherent := delete_coherent h.coherent s
  fitting := by
    show AllFitting (Storage.deleteSession store.db s)
    rw [deleteSession_eq]
    exact h.fitting.write (fun _ _ hput => absurd hput Database.not_mem_deletes)
  current := by
    intro t b hb
    by_cases ht : s = t
    · subst ht
      rw [show blobOf (Storage.deleteSession store.db s) s = none from delete_blob _ _]
        at hb
      cases hb
    · exact h.current.same (delete_other _ ht) hb
  workspaces := h.workspaces
  checkpoints := h.checkpoints

omit [LawfulUuidText] in
theorem Sound.saveWorkspace (h : Sound store) (w : Uuid) (name description : String)
    (sessionIds : List Uuid) (now : Nat) :
    Sound (store.saveWorkspaceMetadata w name description sessionIds now) where
  coherent := h.coherent
  fitting := h.fitting
  current := h.current
  workspaces := by
    intro k other hk
    unfold Store.saveWorkspaceMetadata at hk
    dsimp only at hk
    rw [Database.get_insert] at hk
    split at hk
    · next heq =>
      cases hk
      exact heq.symm
    · exact h.workspaces k other hk
  checkpoints := h.checkpoints

omit [LawfulUuidText] in
theorem Sound.saveCheckpoint (h : Sound store) (c : Legacy.SessionCheckpoint) :
    Sound (store.saveCheckpoint c) where
  coherent := h.coherent
  fitting := h.fitting
  current := h.current
  workspaces := h.workspaces
  checkpoints := by
    intro k other hk
    unfold Store.saveCheckpoint at hk
    dsimp only at hk
    rw [Database.get_insert] at hk
    split at hk
    · next heq =>
      cases hk
      exact heq.symm
    · exact h.checkpoints k other hk

omit [LawfulUuidText] in
theorem Sound.deleteWorkspace (h : Sound store) (w : Uuid) :
    Sound (store.deleteWorkspace w) := by
  have hforeign : forall e : Edit String (Record SessionBlob),
      e ∈ Database.deletes
        (store.db.keysWhere (hasPrefix (sessionPrefix "ws_session:" w))) ->
      hasPrefix "ws_session:" e.target = true := by
    intro e he
    obtain ⟨k, hk, rfl⟩ := List.mem_map.mp he
    exact hasPrefix_kind (Database.mem_keysWhere.mp hk).2
  have hmembers := h.withMembers hforeign (fun k r hput => absurd hput Database.not_mem_deletes)
  refine ⟨hmembers.coherent, hmembers.fitting, hmembers.current, ?_, h.checkpoints⟩
  intro k other hk
  unfold Store.deleteWorkspace at hk
  dsimp only at hk
  rw [Std.ExtTreeMap.getElem?_erase] at hk
  split at hk
  · cases hk
  · exact h.workspaces k other hk

theorem Sound.apply (h : Sound store) {op : StoreOp} (hop : SavesKept store op) :
    Sound (op.apply store) := by
  cases op with
  | persist session vectorized explicit removed =>
      exact h.persist hop.1 hop.2 explicit removed
  | batchSaveUpdates s updates => exact h.batch s updates
  | deleteSession s => exact h.deleteSession s _
  | saveCheckpoint c => exact h.saveCheckpoint c
  | saveWorkspaceMetadata w name description sessionIds now =>
      exact h.saveWorkspace w name description sessionIds now
  | deleteWorkspace w => exact h.deleteWorkspace w
  | addSessionToWorkspace w s role now =>
      refine h.withMembers ?_ ?_
      · intro e he
        rw [List.mem_singleton.mp he]
        exact membershipKey_kind w s
      · intro k r hput
        cases List.mem_singleton.mp hput
        exact fitting_membership ⟨w, s, role, now⟩
  | removeSessionFromWorkspace w s =>
      refine h.withMembers ?_ ?_
      · intro e he
        rw [List.mem_singleton.mp he]
        exact membershipKey_kind w s
      · intro k r hput
        cases List.mem_singleton.mp hput
  | saveEmbedding s contentId | deleteEmbedding s contentId =>
      exact ⟨h.coherent, h.fitting, h.current, h.workspaces, h.checkpoints⟩

theorem sound_of_reachable (h : stores.Reachable SavesKept store) :
    Sound store := by
  refine h.invariant sound_empty ?_
  intro store op store' hstore hop hstep
  cases hstep
  exact hstore.apply hop

end

end Storage
end PostCortex
