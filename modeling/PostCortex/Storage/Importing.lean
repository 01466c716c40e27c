import PostCortex.Session.Documents
import PostCortex.Storage.Legacy
import PostCortex.Storage.RowCoherence

/-!
# Importing

`import_data` of `export_import.rs`, and the records of workspaces and
checkpoints that it writes (`rocksdb_storage/workspaces.rs`).  A session blob is
what JSON reads from its bytes.  Writing succeeds; what the clock says when a
record is written comes in as `ImportClock`.
-/

namespace PostCortex
namespace Storage

open PostCortex.Core
open PostCortex.Graph
open KeyValue
open Session
open Legacy (SessionCheckpoint)

deriving instance DecidableEq for EntityGraphData
deriving instance DecidableEq for ActiveSessionData

/-!
# Blobs
-/

abbrev SessionBlob : Type :=
  Except String ActiveSessionData

def sessionBlob (session : ActiveSession) (vectorized : List Uuid) : SessionBlob :=
  Except.ok (serialize { session with incrementalUpdates := [] } vectorized)

@[reducible] def blobJson [CharTables] (now : Timestamp) (vectorized : List Uuid) :
    SessionJson SessionBlob where
  sessionBlob := fun session => sessionBlob session vectorized
  fromSlice := fun b => b.map (fun data => (deserialize now data).1)

def vectorizedOf [UuidText] (db : Db SessionBlob) (s : Uuid) : List Uuid :=
  match blobOf db s with
  | some (Except.ok data) => data.vectorizedUpdateIds.dedup
  | _ => []

section

variable [UuidText] [CharTables]

def readAt (now : Timestamp) (db : Db SessionBlob) (s : Uuid) :
    Except String (Option (LoadedSession SessionBlob)) :=
  @readSession SessionBlob _ _ (blobJson now []) db s

def loadSession (now : Timestamp) (db : Db SessionBlob) (s : Uuid) :
    Db SessionBlob × Except String (ActiveSession × List Uuid) :=
  match readAt now db s with
  | Except.error e => (db, Except.error e)
  | Except.ok none => (db, Except.error "Session not found")
  | Except.ok (some loaded) =>
      ((match loaded.legacyBlob with
        | none => db
        | some b =>
            @backfillLegacy SessionBlob _ (blobJson now (vectorizedOf db s))
              inferInstance db loaded.session b),
        Except.ok (loaded.session, vectorizedOf db s))

end

/-!
# The other records
-/

structure StoredWorkspace where
  id : Uuid
  name : String
  description : String
  sessions : List (Uuid × SessionRole)
  createdAt : Nat
  deriving DecidableEq, Repr

/-- The database by families of records: sessions with the memberships of
workspaces, workspaces, checkpoints, and the keys of the embeddings. -/
structure Store where
  db : Db SessionBlob
  workspaces : Database String StoredWorkspace
  checkpoints : Database String SessionCheckpoint
  embeddings : List String

def Store.empty : Store where
  db := ∅
  workspaces := ∅
  checkpoints := ∅
  embeddings := []

section

variable [UuidText]

def workspaceKey (workspaceId : Uuid) : String :=
  "workspace:" ++ UuidText.toText workspaceId

def membershipKey (workspaceId sessionId : Uuid) : String :=
  sessionPrefix "ws_session:" workspaceId ++ UuidText.toText sessionId

def checkpointKey (checkpointId : Uuid) : String :=
  "checkpoint:" ++ UuidText.toText checkpointId

def embeddingKey (sessionId : Uuid) (contentId : String) : String :=
  sessionPrefix "embedding:" sessionId ++ contentId

namespace Store

def memberships (store : Store) : List StoredWorkspaceSession :=
  store.db.toList.filterMap (fun e =>
    match e.2 with
    | Record.membership m => if hasPrefix "ws_session:" e.1 then some m else none
    | _ => none)

def membersOf (store : Store) (workspaceId : Uuid) : List (Uuid × SessionRole) :=
  (store.memberships.filter (fun m => m.workspaceId == workspaceId)).map
    (fun m => (m.sessionId, m.role))

def listWorkspaces (store : Store) : List StoredWorkspace :=
  store.workspaces.toList.map (fun e =>
    { e.2 with sessions := store.membersOf e.2.id })

def saveWorkspaceMetadata (store : Store) (workspaceId : Uuid)
    (name description : String) (sessionIds : List Uuid) (now : Nat) : Store :=
  { store with
    workspaces :=
      store.workspaces.insert (workspaceKey workspaceId)
        { id := workspaceId
          name := name
          description := description
          sessions := sessionIds.map (fun s => (s, SessionRole.primary))
          createdAt := now } }

def deleteWorkspace (store : Store) (workspaceId : Uuid) : Store :=
  { store with
    workspaces := store.workspaces.erase (workspaceKey workspaceId)
    db := store.db.write (Database.deletes
      (store.db.keysWhere (hasPrefix (sessionPrefix "ws_session:" workspaceId)))) }

def addSessionToWorkspace (store : Store) (workspaceId sessionId : Uuid)
    (role : SessionRole) (now : Nat) : Store :=
  { store with
    db := store.db.write [Edit.put (membershipKey workspaceId sessionId)
      (Record.membership
        { workspaceId := workspaceId
          sessionId := sessionId
          role := role
          addedAt := now })] }

def saveCheckpoint (store : Store) (checkpoint : SessionCheckpoint) : Store :=
  { store with
    checkpoints := store.checkpoints.insert (checkpointKey checkpoint.id) checkpoint }

def listCheckpoints (store : Store) : List SessionCheckpoint :=
  store.checkpoints.toList.map Prod.snd

end Store
end

/-!
# Export documents
-/

structure ExportedSession where
  session : ActiveSession
  /-- The vectorized ids of the session. -/
  vectorized : List Uuid
  updates : List ContextUpdate

def ExportedSession.id (e : ExportedSession) : Uuid :=
  e.session.metadata.id

structure ExportedWorkspace where
  id : Uuid
  name : String
  description : String
  sessions : List (Uuid × SessionRole)
  createdAt : Nat
  deriving DecidableEq, Repr

structure ExportedEmbedding where
  contentId : String
  sessionId : String
  vector : List Rat
  text : String
  contentType : String
  timestamp : String
  metadata : List (String × String)
  deriving DecidableEq, Repr

structure ExportMetadata where
  sessionCount : Nat
  workspaceCount : Nat
  updateCount : Nat
  checkpointCount : Nat
  embeddingCount : Nat
  deriving DecidableEq, Repr

structure ExportData where
  formatVersion : String
  metadata : ExportMetadata
  sessions : List ExportedSession
  workspaces : List ExportedWorkspace
  checkpoints : List SessionCheckpoint
  embeddings : List ExportedEmbedding

def exportFormatVersion : String :=
  "1.2.0"

/-- `parse` of a 32-bit number, which takes one plus sign. -/
def parseU32 (text : List Char) : Option Nat :=
  let digits :=
    match text with
    | '+' :: rest => rest
    | _ => text
  if digits ≠ [] ∧ digits.all Char.isDigit = true then
    let n := digits.foldl (fun n c => 10 * n + (c.toNat - 48)) 0
    if n < 2 ^ 32 then some n else none
  else none

def versionParts (version : String) : List Nat :=
  (version.toList.splitOn '.').filterMap parseU32

def isVersionCompatible (version : String) : Bool :=
  match versionParts exportFormatVersion, versionParts version with
  | major :: minor :: _, importMajor :: importMinor :: _ =>
      major == importMajor && importMinor ≤ minor
  | _, _ => false

/-!
# Importing
-/

structure ImportOptions where
  sessionFilter : Option (List Uuid)
  workspaceFilter : Option (List Uuid)
  skipExisting : Bool
  overwrite : Bool
  deriving DecidableEq, Repr

def passes (filter : Option (List Uuid)) (id : Uuid) : Bool :=
  filter.all (fun ids => ids.contains id)

structure ImportResult where
  sessionsImported : Nat
  sessionsSkipped : Nat
  workspacesImported : Nat
  workspacesSkipped : Nat
  updatesImported : Nat
  checkpointsImported : Nat
  embeddingsImported : Nat
  errors : List String
  deriving DecidableEq, Repr

def ImportResult.empty : ImportResult where
  sessionsImported := 0
  sessionsSkipped := 0
  workspacesImported := 0
  workspacesSkipped := 0
  updatesImported := 0
  checkpointsImported := 0
  embeddingsImported := 0
  errors := []

/-- The seconds at which the metadata and the memberships of a workspace are
written. -/
structure ImportClock where
  savedAt : Uuid -> Nat
  addedAt : Uuid -> Uuid -> Nat

section

variable [UuidText]

def saveExported (store : Store) (e : ExportedSession) : Store :=
  { store with
    db := batchSaveUpdates
      (persistSession store.db e.session (sessionBlob e.session e.vectorized)
        [] []).1 e.id e.updates }

def sessionExists (store : Store) (s : Uuid) : Bool :=
  (blobOf store.db s).isSome

def importSession (options : ImportOptions) (state : Store × ImportResult)
    (e : ExportedSession) : Store × ImportResult :=
  let (store, result) := state
  if !passes options.sessionFilter e.id then state
  else if sessionExists store e.id && options.skipExisting then
    (store, { result with sessionsSkipped := result.sessionsSkipped + 1 })
  else if sessionExists store e.id && !options.overwrite then
    (store,
      { result with
        errors := result.errors ++
          ["Session " ++ UuidText.toText e.id ++
            " already exists (use --overwrite or --skip-existing)"] })
  else
    (saveExported store e,
      { result with
        sessionsImported := result.sessionsImported + 1
        updatesImported := result.updatesImported + e.updates.length })

def saveWorkspace (clock : ImportClock) (store : Store) (w : ExportedWorkspace) :
    Store :=
  w.sessions.foldl
    (fun store m =>
      store.addSessionToWorkspace w.id m.1 m.2 (clock.addedAt w.id m.1))
    (store.saveWorkspaceMetadata w.id w.name w.description
      (w.sessions.map Prod.fst) (clock.savedAt w.id))

def importWorkspace (clock : ImportClock) (options : ImportOptions)
    (state : Store × ImportResult) (w : ExportedWorkspace) : Store × ImportResult :=
  let (store, result) := state
  let exists_ := store.listWorkspaces.any (fun other => other.id == w.id)
  if !passes options.workspaceFilter w.id then state
  else if exists_ && options.skipExisting then
    (store, { result with workspacesSkipped := result.workspacesSkipped + 1 })
  else if exists_ && !options.overwrite then
    (store,
      { result with
        errors := result.errors ++
          ["Workspace " ++ UuidText.toText w.id ++
            " already exists (use --overwrite or --skip-existing)"] })
  else
    (saveWorkspace clock (if exists_ then store.deleteWorkspace w.id else store) w,
      { result with workspacesImported := result.workspacesImported + 1 })

def importCheckpoint (state : Store × ImportResult)
    (checkpoint : SessionCheckpoint) : Store × ImportResult :=
  (state.1.saveCheckpoint checkpoint,
    { state.2 with checkpointsImported := state.2.checkpointsImported + 1 })

def importData (clock : ImportClock) (store : Store) (data : ExportData)
    (options : ImportOptions) : Except String (Store × ImportResult) :=
  if !isVersionCompatible data.formatVersion then
    Except.error ("Incompatible export format version: " ++ data.formatVersion ++
      ". Expected: " ++ exportFormatVersion)
  else
    Except.ok
      (data.checkpoints.foldl importCheckpoint
        (data.workspaces.foldl (importWorkspace clock options)
          (data.sessions.foldl (importSession options)
            (store, ImportResult.empty))))

end

end Storage
end PostCortex
