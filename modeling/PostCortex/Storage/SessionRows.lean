import PostCortex.Core.Message
import PostCortex.KeyValue.Database
import PostCortex.Session.ActiveSession
import PostCortex.Storage.Keys
import PostCortex.Transition.System

/-!
# Session rows

The session records of `rocksdb_storage/sessions.rs`: the blob, one row for
each update, the index of the updates in session order and the metadata.  A
value of the database is the record its bytes decode to; how a session is
written as JSON and read back is `SessionJson`, on blobs that are compared as
bytes.  The functions that hold the session's lock are one step each.
-/

namespace PostCortex
namespace Storage

open PostCortex.Core
open PostCortex.Graph
open KeyValue
open Session
open Transition

structure SessionSummary where
  id : Uuid
  name : Option String
  description : Option String
  createdAt : Timestamp
  lastUpdated : Timestamp
  updateCount : Nat
  deriving DecidableEq, Repr

def SessionSummary.fromSession (session : ActiveSession) : SessionSummary where
  id := session.metadata.id
  name := session.metadata.name
  description := session.metadata.description
  createdAt := session.metadata.createdAt
  lastUpdated := session.lastUpdated
  updateCount := session.incrementalUpdates.length

inductive SessionRole where
  | primary
  | related
  | dependency
  | shared
  deriving DecidableEq, Repr

structure StoredWorkspaceSession where
  workspaceId : Uuid
  sessionId : Uuid
  role : SessionRole
  addedAt : Nat
  deriving DecidableEq, Repr

/-- A value of the database; `other` is a record of a module not modelled
here. -/
inductive Record (blob : Type) where
  | session (b : blob)
  | update (u : ContextUpdate)
  | updateIndex (ids : List Uuid)
  | summary (s : SessionSummary)
  | message (m : Message)
  | position (seq : Nat)
  | membership (m : StoredWorkspaceSession)
  | other (bytes : List UInt8)
  deriving DecidableEq, Repr

abbrev Db (blob : Type) : Type :=
  Database String (Record blob)

/-- `session_blob` and `serde_json::from_slice`. -/
class SessionJson (blob : Type) where
  sessionBlob : ActiveSession -> blob
  fromSlice : blob -> Except String ActiveSession

/-!
# Reading
-/

section

variable {blob : Type} [UuidText]

def blobOf (db : Db blob) (sessionId : Uuid) : Option blob :=
  match db[sessionKey sessionId]? with
  | some (Record.session b) => some b
  | _ => none

def rowOf (db : Db blob) (sessionId updateId : Uuid) : Option ContextUpdate :=
  match db[updateKey sessionId updateId]? with
  | some (Record.update u) => some u
  | _ => none

def indexOf (db : Db blob) (sessionId : Uuid) : Option (List Uuid) :=
  match db[updateIndexKey sessionId]? with
  | some (Record.updateIndex ids) => some ids
  | _ => none

def metaOf (db : Db blob) (sessionId : Uuid) : Option SessionSummary :=
  match db[metaKey sessionId]? with
  | some (Record.summary s) => some s
  | _ => none

end

/-!
# Writing
-/

section

variable {blob : Type} [UuidText]

def putUpdates (sessionId : Uuid) (updates : List ContextUpdate) :
    List (Edit String (Record blob)) :=
  Database.puts (fun u : ContextUpdate => updateKey sessionId u.id) Record.update
    updates

def writtenUpdates (session : ActiveSession) (stored : List Uuid)
    (explicit : List ContextUpdate) (removed : List Uuid) :
    List ContextUpdate :=
  explicit.filter (fun u => u.id ∉ removed) ++
    session.incrementalUpdates.filter (fun u =>
      u.id ∉ stored ∧ u.id ∉ explicit.map ContextUpdate.id ∧ u.id ∉ removed)

def indexedIds (session : ActiveSession) (stored : List Uuid)
    (explicit : List ContextUpdate) (removed : List Uuid) : List Uuid :=
  EntityGraph.extendUnique []
    ((stored ++ session.incrementalUpdates.map ContextUpdate.id ++
      explicit.map ContextUpdate.id).filter (fun id => id ∉ removed))

def persistSession (db : Db blob) (session : ActiveSession) (b : blob)
    (explicit : List ContextUpdate) (removed : List Uuid) : Db blob × Nat :=
  let sessionId := session.metadata.id
  let oldIndex := indexOf db sessionId
  let storedOrder := oldIndex.getD []
  let written := writtenUpdates session storedOrder explicit removed
  let ids := indexedIds session storedOrder explicit removed
  (db.write
    (putUpdates sessionId written ++
      Database.deletes (removed.map (updateKey sessionId)) ++
      (if oldIndex = some ids then []
        else [Edit.put (updateIndexKey sessionId) (Record.updateIndex ids)]) ++
      [Edit.put (metaKey sessionId)
          (Record.summary (SessionSummary.fromSession session)),
        Edit.put (sessionKey sessionId) (Record.session b)]),
    written.length)

def batchSaveUpdates (db : Db blob) (sessionId : Uuid)
    (updates : List ContextUpdate) : Db blob :=
  if updates = [] then db
  else
    match indexOf db sessionId with
    | none => db.write (putUpdates sessionId updates)
    | some ids =>
        let extended :=
          EntityGraph.extendUnique ids (updates.map ContextUpdate.id)
        if extended.length = ids.length then
          db.write (putUpdates sessionId updates)
        else
          db.write
            (putUpdates sessionId updates ++
              [Edit.put (updateIndexKey sessionId)
                (Record.updateIndex extended)] ++
              (match metaOf db sessionId with
                | some s =>
                    [Edit.put (metaKey sessionId)
                      (Record.summary { s with updateCount := extended.length })]
                | none => []))

def sessionPrefixes (sessionId : Uuid) : List String :=
  ["session:", "message:", "message_turn:", "embedding:", "entity:",
    "relationship:"].map (fun kind => sessionPrefix kind sessionId)

def isMembershipOf (sessionId : Uuid) : Option (Record blob) -> Bool
  | some (Record.membership m) => m.sessionId == sessionId
  | _ => false

def deleteSession (db : Db blob) (sessionId : Uuid) : Db blob :=
  db.write
    (Database.deletes [sessionKey sessionId, updateIndexKey sessionId,
        metaKey sessionId, messageNextKey sessionId] ++
      Database.deletes
        ((sessionPrefixes sessionId).flatMap
          (fun p => db.keysWhere (hasPrefix p))) ++
      Database.deletes
        ((db.keysWhere (hasPrefix "ws_session:")).filter
          (fun k => isMembershipOf sessionId db[k]?)))

end

/-!
# Loading
-/

structure LoadedSession (blob : Type) where
  session : ActiveSession
  legacyBlob : Option blob

section

variable {blob : Type} [UuidText] [CharTables]

def relinkEntityMentions (session : ActiveSession) : ActiveSession :=
  { session with
    entityGraph := session.entityGraph.relinkMentions session.incrementalUpdates }

def readSession [SessionJson blob] (db : Db blob) (sessionId : Uuid) :
    Except String (Option (LoadedSession blob)) :=
  match blobOf db sessionId with
  | none => Except.ok none
  | some b =>
      match SessionJson.fromSlice b with
      | Except.error e =>
          Except.error ("Failed to deserialize session: " ++ e)
      | Except.ok session =>
          match indexOf db sessionId with
          | none => Except.ok (some ⟨relinkEntityMentions session, some b⟩)
          | some ids =>
              if session.incrementalUpdates = [] then
                let updates := ids.filterMap (rowOf db sessionId)
                Except.ok (some ⟨relinkEntityMentions
                  { session with incrementalUpdates := updates }, none⟩)
              else Except.ok (some ⟨relinkEntityMentions session, some b⟩)

def backfillLegacy [SessionJson blob] [DecidableEq blob] (db : Db blob)
    (session : ActiveSession) (legacyBlob : blob) : Db blob :=
  let sessionId := session.metadata.id
  if blobOf db sessionId = some legacyBlob then
    let embedded := session.incrementalUpdates.map ContextUpdate.id
    let removed :=
      ((indexOf db sessionId).getD []).filter (fun id => id ∉ embedded)
    (persistSession db session (SessionJson.sessionBlob session) [] removed).1
  else db

end

end Storage
end PostCortex
