import PostCortex.Storage.Bincode
import PostCortex.Storage.GraphRows

/-!
# Entities read back

`StoredEntity` of `rocksdb_storage/types.rs` as bincode writes it, and
`upsert_entity` and `get_entity` of `rocksdb_storage/graph.rs` over the bytes.
The row has every field of an entity but its aliases.
-/

namespace PostCortex
namespace Storage

open PostCortex.Core
open KeyValue
open GraphRows

/-- The stored text, read; a text that names no type is `Concept`. -/
def parseEntityType (s : String) : EntityType :=
  if s = "Technology" then EntityType.technology
  else if s = "Concept" then EntityType.concept
  else if s = "Problem" then EntityType.problem
  else if s = "Solution" then EntityType.solution
  else if s = "Decision" then EntityType.decision
  else if s = "CodeComponent" then EntityType.codeComponent
  else EntityType.concept

theorem parseEntityType_name (t : EntityType) :
    parseEntityType (entityTypeName t) = t := by
  cases t <;> decide

namespace GraphRows

def StoredEntity.toEntityData (e : StoredEntity) : EntityData where
  name := e.name
  entityType := parseEntityType e.entityType
  firstMentioned := e.firstMentioned
  lastMentioned := e.lastMentioned
  mentionCount := e.mentionCount
  importanceScore := e.importanceScore
  description := e.description
  aliases := []

@[simp] theorem StoredEntity.toEntityData_fromEntityData (sessionId : Uuid)
    (entity : EntityData) :
    (fromEntityData sessionId entity).toEntityData = { entity with aliases := [] } := by
  simp [toEntityData, fromEntityData, parseEntityType_name]

end GraphRows

namespace EntityRows

abbrev EntityDb : Type :=
  Database String Bytes

section

variable [Bincode]

def storedEntity : Codec StoredEntity :=
  (Bincode.uuid.pair (Bincode.text.pair (Bincode.text.pair (Bincode.timestamp.pair
    (Bincode.timestamp.pair (Bincode.number.pair (Bincode.score.pair
      Bincode.text.option))))))).iso
    (fun e => (e.sessionId, e.name, e.entityType, e.firstMentioned,
      e.lastMentioned, e.mentionCount, e.importanceScore, e.description))
    (fun (sessionId, name, entityType, firstMentioned, lastMentioned, mentionCount,
        importanceScore, description) =>
      some ⟨sessionId, name, entityType, firstMentioned, lastMentioned,
        mentionCount, importanceScore, description⟩)
    (fun _ => rfl)

variable [UuidText]

def saveEntity (db : EntityDb) (entity : StoredEntity) : EntityDb :=
  db.write [Edit.put (entityKey entity.sessionId entity.name)
    (storedEntity.encode entity)]

def loadEntity (db : EntityDb) (sessionId : Uuid) (name : String) :
    Except String (Option StoredEntity) :=
  match db[entityKey sessionId name]? with
  | none => Except.ok none
  | some data =>
      match storedEntity.decode data with
      | none => Except.error "Failed to deserialize entity"
      | some (entity, _) => Except.ok (some entity)

def upsertEntity (db : EntityDb) (sessionId : Uuid) (entity : EntityData) :
    EntityDb :=
  saveEntity db (StoredEntity.fromEntityData sessionId entity)

def getEntity (db : EntityDb) (sessionId : Uuid) (name : String) :
    Except String (Option EntityData) :=
  (loadEntity db sessionId name).map (Option.map StoredEntity.toEntityData)

theorem loadEntity_saveEntity (db : EntityDb) (entity : StoredEntity) :
    loadEntity (saveEntity db entity) entity.sessionId entity.name =
      Except.ok (some entity) := by
  unfold loadEntity saveEntity
  rw [Database.write_cons, Database.write_nil, Database.get_put_self]
  dsimp only
  rw [storedEntity.decode_encode_nil]

theorem getEntity_upsertEntity (db : EntityDb) (sessionId : Uuid)
    (entity : EntityData) :
    getEntity (upsertEntity db sessionId entity) sessionId entity.name =
      Except.ok (some { entity with aliases := [] }) := by
  have hload := loadEntity_saveEntity db
    (StoredEntity.fromEntityData sessionId entity)
  dsimp only [StoredEntity.fromEntityData] at hload
  unfold getEntity upsertEntity
  dsimp only [StoredEntity.fromEntityData]
  rw [hload, ← StoredEntity.toEntityData_fromEntityData sessionId entity]
  rfl

/-- An entity is read back as it was upserted exactly when it has no aliases. -/
theorem entity_row_round_trip_iff (db : EntityDb) (sessionId : Uuid)
    (entity : EntityData) :
    getEntity (upsertEntity db sessionId entity) sessionId entity.name =
        Except.ok (some entity) ↔
      entity.aliases = [] := by
  rw [getEntity_upsertEntity]
  constructor
  · intro h
    have hsame := Option.some.inj (Except.ok.inj h)
    rw [← hsame]
  · intro h
    rw [← h]

end

attribute [local instance] Bincode.plainBincode hyphenatedText

def aliasedEntity : EntityData where
  name := "postgres"
  entityType := EntityType.technology
  firstMentioned := 0
  lastMentioned := 60
  mentionCount := 2
  importanceScore := 1
  description := some "the database"
  aliases := ["pg"]

/-- The alias `pg` is lost. -/
theorem aliases_not_read_back :
    ¬ getEntity (upsertEntity ∅ 1 aliasedEntity) 1 "postgres" =
      Except.ok (some aliasedEntity) := by
  intro h
  rw [show "postgres" = aliasedEntity.name from rfl, getEntity_upsertEntity] at h
  have hsame := Option.some.inj (Except.ok.inj h)
  have haliases := congrArg EntityData.aliases hsame
  cases haliases

end EntityRows
end Storage
end PostCortex
