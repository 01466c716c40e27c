import PostCortex.Storage.Bincode

/-!
# Rows of older layouts

`rocksdb_storage/legacy.rs`: update rows written before `author`, before
`derived_from` and before `meta`, and checkpoints with and without the marker of
their layout.
-/

namespace PostCortex
namespace Storage
namespace Legacy

open PostCortex.Core
open PostCortex.Session
open KeyValue
open Bincode

/-!
# Layouts
-/

structure LegacyContextUpdate where
  id : Uuid
  timestamp : Timestamp
  updateType : UpdateType
  content : UpdateContent
  relatedCode : Option CodeReference
  parentUpdate : Option Uuid
  userMarkedImportant : Bool
  createsEntities : List String
  createsRelationships : List EntityRelationship
  referencesEntities : List String
  typedEntities : List TypedEntity
  deriving DecidableEq, Repr

structure AuthoredContextUpdate where
  update : LegacyContextUpdate
  author : Option String
  deriving DecidableEq, Repr

structure DerivedContextUpdate where
  update : LegacyContextUpdate
  author : Option String
  derivedFrom : List String
  deriving DecidableEq, Repr

def LegacyContextUpdate.toUpdate (u : LegacyContextUpdate) : ContextUpdate where
  id := u.id
  timestamp := u.timestamp
  updateType := u.updateType
  content := u.content
  relatedCode := u.relatedCode
  parentUpdate := u.parentUpdate
  userMarkedImportant := u.userMarkedImportant
  createsEntities := u.createsEntities
  createsRelationships := u.createsRelationships
  referencesEntities := u.referencesEntities
  typedEntities := u.typedEntities
  author := none
  derivedFrom := []
  metadata := UpdateMeta.default

def AuthoredContextUpdate.toUpdate (u : AuthoredContextUpdate) : ContextUpdate :=
  { u.update.toUpdate with author := u.author }

def DerivedContextUpdate.toUpdate (u : DerivedContextUpdate) : ContextUpdate :=
  { u.update.toUpdate with
    author := u.author
    derivedFrom := u.derivedFrom }

def legacyFields (u : ContextUpdate) : LegacyContextUpdate where
  id := u.id
  timestamp := u.timestamp
  updateType := u.updateType
  content := u.content
  relatedCode := u.relatedCode
  parentUpdate := u.parentUpdate
  userMarkedImportant := u.userMarkedImportant
  createsEntities := u.createsEntities
  createsRelationships := u.createsRelationships
  referencesEntities := u.referencesEntities
  typedEntities := u.typedEntities

structure Checkpoint (update : Type) where
  id : Uuid
  sessionId : Uuid
  createdAt : Timestamp
  structuredContext : StructuredContext
  recentUpdates : List update
  /-- The entries of the map in the order in which it lists them. -/
  codeReferences : List (String × List CodeReference)
  changeHistory : List ChangeRecord
  totalUpdates : Nat
  contextQualityScore : Rat
  compressionRatio : Rat
  deriving DecidableEq, Repr

abbrev SessionCheckpoint : Type :=
  Checkpoint ContextUpdate

def Checkpoint.map {update other : Type} (f : update -> other)
    (c : Checkpoint update) : Checkpoint other :=
  { c with recentUpdates := c.recentUpdates.map f }

section

variable [Bincode]

def legacyUpdate : Codec LegacyContextUpdate :=
  (uuid.pair (timestamp.pair (updateType.pair (updateContent.pair
    (codeReference.option.pair (uuid.option.pair (Codec.bool.pair (texts.pair
      ((Bincode.list entityRelationship).pair (texts.pair
        (Bincode.list typedEntity))))))))))).iso
    (fun u => (u.id, u.timestamp, u.updateType, u.content, u.relatedCode,
      u.parentUpdate, u.userMarkedImportant, u.createsEntities,
      u.createsRelationships, u.referencesEntities, u.typedEntities))
    (fun (id, timestamp, updateType, content, relatedCode, parentUpdate,
        userMarkedImportant, createsEntities, createsRelationships,
        referencesEntities, typedEntities) =>
      some ⟨id, timestamp, updateType, content, relatedCode, parentUpdate,
        userMarkedImportant, createsEntities, createsRelationships,
        referencesEntities, typedEntities⟩)
    (fun _ => rfl)

def authoredUpdate : Codec AuthoredContextUpdate :=
  (legacyUpdate.pair text.option).iso (fun u => (u.update, u.author))
    (fun (update, author) => some ⟨update, author⟩) (fun _ => rfl)

def derivedUpdate : Codec DerivedContextUpdate :=
  (legacyUpdate.pair (text.option.pair texts)).iso
    (fun u => (u.update, u.author, u.derivedFrom))
    (fun (update, author, derivedFrom) => some ⟨update, author, derivedFrom⟩)
    (fun _ => rfl)

def contextUpdate : Codec ContextUpdate :=
  (legacyUpdate.pair (text.option.pair (texts.pair updateMeta))).iso
    (fun u => (legacyFields u, u.author, u.derivedFrom, u.metadata))
    (fun (update, author, derivedFrom, metadata) =>
      some { update.toUpdate with
        author := author
        derivedFrom := derivedFrom
        metadata := metadata })
    (fun _ => rfl)

def checkpoint {update : Type} (c : Codec update) : Codec (Checkpoint update) :=
  (uuid.pair (uuid.pair (timestamp.pair (structuredContext.pair
    ((Bincode.list c).pair ((Bincode.list (text.pair
      (Bincode.list codeReference))).pair ((Bincode.list changeRecord).pair
        (number.pair (score.pair score))))))))).iso
    (fun c => (c.id, c.sessionId, c.createdAt, c.structuredContext,
      c.recentUpdates, c.codeReferences, c.changeHistory, c.totalUpdates,
      c.contextQualityScore, c.compressionRatio))
    (fun (id, sessionId, createdAt, structuredContext, recentUpdates,
        codeReferences, changeHistory, totalUpdates, contextQualityScore,
        compressionRatio) =>
      some ⟨id, sessionId, createdAt, structuredContext, recentUpdates,
        codeReferences, changeHistory, totalUpdates, contextQualityScore,
        compressionRatio⟩)
    (fun _ => rfl)

/-!
# Decoding
-/

def bincodeDecode {value : Type} (c : Codec value) (bytes : Bytes) :
    Option value :=
  (c.decode bytes).map Prod.fst

def decodeUpdate (bytes : Bytes) : Option ContextUpdate :=
  (bincodeDecode contextUpdate bytes).or
    (((bincodeDecode derivedUpdate bytes).map DerivedContextUpdate.toUpdate).or
      (((bincodeDecode authoredUpdate bytes).map
        AuthoredContextUpdate.toUpdate).or
        ((bincodeDecode legacyUpdate bytes).map LegacyContextUpdate.toUpdate)))

end

def marker (version : Char) : Bytes :=
  ['p', 'c', 'x', '-', 'c', 'k', 'p', 't', '-', 'v', version, '\x00'].map
    (fun c => c.toNat.toUInt8)

def checkpointV4 : Bytes :=
  marker '4'

def checkpointV3 : Bytes :=
  marker '3'

def checkpointV2 : Bytes :=
  marker '2'

def stripPrefix : Bytes -> Bytes -> Option Bytes
  | [], bytes => some bytes
  | _ :: _, [] => none
  | m :: p, b :: bytes => if m = b then stripPrefix p bytes else none

def decodeCheckpoint [Bincode] (bytes : Bytes) : Option SessionCheckpoint :=
  match stripPrefix checkpointV4 bytes with
  | some rest => bincodeDecode (checkpoint contextUpdate) rest
  | none =>
      match stripPrefix checkpointV3 bytes with
      | some rest =>
          (bincodeDecode (checkpoint derivedUpdate) rest).map
            (Checkpoint.map DerivedContextUpdate.toUpdate)
      | none =>
          match stripPrefix checkpointV2 bytes with
          | some rest =>
              (bincodeDecode (checkpoint authoredUpdate) rest).map
                (Checkpoint.map AuthoredContextUpdate.toUpdate)
          | none =>
              (bincodeDecode (checkpoint legacyUpdate) bytes).map
                (Checkpoint.map LegacyContextUpdate.toUpdate)

/-!
# Encoding

The current code writes the current layout; earlier versions wrote the others.
-/

inductive Layout where
  | legacy
  | authored
  | derived
  | current
  deriving DecidableEq, Repr

namespace Layout

def kept (u : ContextUpdate) : Layout -> ContextUpdate
  | legacy =>
      { u with author := none, derivedFrom := [], metadata := UpdateMeta.default }
  | authored => { u with derivedFrom := [], metadata := UpdateMeta.default }
  | derived => { u with metadata := UpdateMeta.default }
  | current => u

def marker : Layout -> Bytes
  | legacy => []
  | authored => checkpointV2
  | derived => checkpointV3
  | current => checkpointV4

section

variable [Bincode]

def encodeUpdate (u : ContextUpdate) : Layout -> Bytes
  | legacy => legacyUpdate.encode (legacyFields u)
  | authored => authoredUpdate.encode ⟨legacyFields u, u.author⟩
  | derived => derivedUpdate.encode ⟨legacyFields u, u.author, u.derivedFrom⟩
  | current => contextUpdate.encode u

def read (bytes : Bytes) : Layout -> Option ContextUpdate
  | legacy =>
      (bincodeDecode legacyUpdate bytes).map LegacyContextUpdate.toUpdate
  | authored =>
      (bincodeDecode authoredUpdate bytes).map AuthoredContextUpdate.toUpdate
  | derived =>
      (bincodeDecode derivedUpdate bytes).map DerivedContextUpdate.toUpdate
  | current => bincodeDecode contextUpdate bytes

def encodeCheckpoint (c : SessionCheckpoint) (l : Layout) : Bytes :=
  l.marker ++
    match l with
    | legacy => (checkpoint legacyUpdate).encode (c.map legacyFields)
    | authored =>
        (checkpoint authoredUpdate).encode
          (c.map (fun u => ⟨legacyFields u, u.author⟩))
    | derived =>
        (checkpoint derivedUpdate).encode
          (c.map (fun u => ⟨legacyFields u, u.author, u.derivedFrom⟩))
    | current => (checkpoint contextUpdate).encode c

end

def newer : Layout -> List Layout
  | legacy => [authored, derived, current]
  | authored => [derived, current]
  | derived => [current]
  | current => []

end Layout

/-!
# Reading a row back
-/

theorem bincodeDecode_encode {value : Type} (c : Codec value) (x : value) :
    bincodeDecode c (c.encode x) = some x := by
  rw [bincodeDecode, c.decode_encode_nil, Option.map_some]

theorem decode_missing {value fields more : Type} {c : Codec value}
    {d : Codec fields} (parts : more -> value × fields)
    (make : value × fields -> Option more)
    (hmake : forall x, make (parts x) = some x) (x : value) {bytes : Bytes}
    (h : d.decode bytes = none) :
    bincodeDecode ((c.pair d).iso parts make hmake) (c.encode x ++ bytes) =
      none := by
  rw [bincodeDecode, Codec.decode_iso, c.decode_pair_append x h, Option.bind_none,
    Option.map_none]

theorem stripPrefix_append (p bytes : Bytes) :
    stripPrefix p (p ++ bytes) = some bytes := by
  induction p with
  | nil =>
      rfl
  | cons m p ih =>
      rw [List.cons_append, stripPrefix, if_pos rfl, ih]

theorem stripPrefix_marker {version other : Char}
    (h : version.toNat.toUInt8 ≠ other.toNat.toUInt8) (bytes : Bytes) :
    stripPrefix (marker version) (marker other ++ bytes) = none := by
  simp [marker, stripPrefix, h]

theorem Checkpoint.map_map {fields update other : Type} (f : fields -> update)
    (g : update -> other) (c : Checkpoint fields) :
    (c.map f).map g = c.map (fun u => g (f u)) := by
  simp [Checkpoint.map]

theorem Checkpoint.map_id (c : SessionCheckpoint) :
    c.map (fun u => Layout.current.kept u) = c := by
  simp [Checkpoint.map, Layout.kept]

section

variable [Bincode]

theorem texts_failsOnEmpty : texts.FailsOnEmpty :=
  number_nil.list text

theorem updateMeta_failsOnEmpty : updateMeta.FailsOnEmpty :=
  ((Codec.failsOnEmpty_option timestamp).pair _).iso _ _ _

theorem read_newer (u : ContextUpdate) {l newer : Layout} (h : newer ∈ l.newer) :
    newer.read (l.encodeUpdate u) = none := by
  have hauthor : (text.option.pair texts).FailsOnEmpty :=
    (Codec.failsOnEmpty_option text).pair texts
  have hauthorMeta : (text.option.pair (texts.pair updateMeta)).FailsOnEmpty :=
    (Codec.failsOnEmpty_option text).pair (texts.pair updateMeta)
  have htextsMeta : (texts.pair updateMeta).FailsOnEmpty :=
    texts_failsOnEmpty.pair updateMeta
  cases l with
  | legacy =>
      have happend : Layout.legacy.encodeUpdate u =
          legacyUpdate.encode (legacyFields u) ++ [] :=
        (List.append_nil _).symm
      rw [happend]
      simp only [Layout.newer, List.mem_cons, List.not_mem_nil, or_false] at h
      rcases h with rfl | rfl | rfl
      · exact congrArg (Option.map _)
          (decode_missing _ _ _ _ (Codec.failsOnEmpty_option text))
      · exact congrArg (Option.map _) (decode_missing _ _ _ _ hauthor)
      · exact decode_missing _ _ _ _ hauthorMeta
  | authored =>
      simp only [Layout.newer, List.mem_cons, List.not_mem_nil, or_false] at h
      rcases h with rfl | rfl
      · exact congrArg (Option.map _) (decode_missing _ _ _ _
          (Codec.decode_pair_first text.option u.author texts_failsOnEmpty))
      · exact decode_missing _ _ _ _
          (Codec.decode_pair_first text.option u.author htextsMeta)
  | derived =>
      have hmeta : (texts.pair updateMeta).decode (texts.encode u.derivedFrom) =
          none :=
        Codec.decode_pair_first texts u.derivedFrom updateMeta_failsOnEmpty
      rw [Layout.newer, List.mem_singleton] at h
      subst h
      exact decode_missing _ _ _ _
        (Codec.decode_pair_append text.option u.author hmeta)
  | current =>
      cases h

theorem read_encodeUpdate (u : ContextUpdate) (l : Layout) :
    l.read (l.encodeUpdate u) = some (l.kept u) := by
  cases l with
  | legacy =>
      exact congrArg (Option.map _) (bincodeDecode_encode legacyUpdate _)
  | authored =>
      exact congrArg (Option.map _) (bincodeDecode_encode authoredUpdate _)
  | derived =>
      exact congrArg (Option.map _) (bincodeDecode_encode derivedUpdate _)
  | current =>
      exact bincodeDecode_encode contextUpdate u

theorem decodeUpdate_eq (bytes : Bytes) :
    decodeUpdate bytes =
      (Layout.current.read bytes).or ((Layout.derived.read bytes).or
        ((Layout.authored.read bytes).or (Layout.legacy.read bytes))) :=
  rfl

theorem decodeUpdate_encodeUpdate (u : ContextUpdate) (l : Layout) :
    decodeUpdate (l.encodeUpdate u) = some (l.kept u) := by
  have hread := read_encodeUpdate u l
  have hnewer : forall newer, newer ∈ l.newer ->
      newer.read (l.encodeUpdate u) = none :=
    fun _ => read_newer u
  rw [decodeUpdate_eq]
  cases l with
  | legacy =>
      rw [hnewer _ (by decide), hnewer _ (by decide), hnewer _ (by decide), hread]
      rfl
  | authored =>
      rw [hnewer _ (by decide), hnewer _ (by decide), hread]
      rfl
  | derived =>
      rw [hnewer _ (by decide), hread]
      rfl
  | current =>
      rw [hread]
      rfl

/-!
# Checkpoints
-/

theorem stripPrefix_unmarked (version : Char) (c : SessionCheckpoint) :
    stripPrefix (marker version) (Layout.legacy.encodeCheckpoint c) = none := by
  obtain ⟨bytes, hid⟩ := uuid_head c.id
  have hhead : exists rest, Layout.legacy.encodeCheckpoint c =
      uuid.encode c.id ++ rest :=
    ⟨_, rfl⟩
  obtain ⟨rest, hrest⟩ := hhead
  rw [hrest, hid]
  rfl

theorem decodeCheckpoint_encodeCheckpoint (c : SessionCheckpoint) (l : Layout) :
    decodeCheckpoint (l.encodeCheckpoint c) = some (c.map (fun u => l.kept u)) := by
  unfold decodeCheckpoint
  cases l with
  | legacy =>
      rw [checkpointV4, checkpointV3, checkpointV2, stripPrefix_unmarked,
        stripPrefix_unmarked, stripPrefix_unmarked]
      have hread := bincodeDecode_encode (checkpoint legacyUpdate)
        (c.map legacyFields)
      exact (congrArg (Option.map (Checkpoint.map LegacyContextUpdate.toUpdate))
        hread).trans (congrArg some (Checkpoint.map_map _ _ c))
  | authored =>
      rw [Layout.encodeCheckpoint, Layout.marker, checkpointV4, checkpointV3,
        checkpointV2, stripPrefix_marker (by decide),
        stripPrefix_marker (by decide), stripPrefix_append]
      dsimp only
      rw [bincodeDecode_encode, Option.map_some, Checkpoint.map_map]
      rfl
  | derived =>
      rw [Layout.encodeCheckpoint, Layout.marker, checkpointV4, checkpointV3,
        stripPrefix_marker (by decide), stripPrefix_append]
      dsimp only
      rw [bincodeDecode_encode, Option.map_some, Checkpoint.map_map]
      rfl
  | current =>
      rw [Layout.encodeCheckpoint, Layout.marker, checkpointV4,
        stripPrefix_append]
      dsimp only
      rw [bincodeDecode_encode, Checkpoint.map_id]

/-- Every update row is read as the update, with the fields its layout lacks at
their defaults and in no newer layout; every checkpoint is read as itself, and
none without a marker as one with a marker. -/
theorem rows_read_back :
    (forall u (l : Layout), decodeUpdate (l.encodeUpdate u) = some (l.kept u)) ∧
    (forall u (l newer : Layout), newer ∈ l.newer ->
      newer.read (l.encodeUpdate u) = none) ∧
    (forall c (l : Layout), decodeCheckpoint (l.encodeCheckpoint c) =
      some (c.map (fun u => l.kept u))) ∧
    forall c (l : Layout), l ≠ Layout.legacy ->
      stripPrefix l.marker (Layout.legacy.encodeCheckpoint c) = none := by
  refine ⟨decodeUpdate_encodeUpdate, fun u _ _ => read_newer u,
    decodeCheckpoint_encodeCheckpoint, ?_⟩
  intro c l hl
  cases l with
  | legacy =>
      exact absurd rfl hl
  | authored =>
      exact stripPrefix_unmarked '2' c
  | derived =>
      exact stripPrefix_unmarked '3' c
  | current =>
      exact stripPrefix_unmarked '4' c

end

attribute [local instance] plainBincode

/-- A row with an author, and a checkpoint of the layout before authors. -/
theorem rows_read_back_alice :
    (decodeUpdate (Layout.authored.encodeUpdate
        { ContextUpdate.plain 7 0 "uses RocksDB" with
          author := some "alice"
          derivedFrom := ["message:1"] }) =
      some { ContextUpdate.plain 7 0 "uses RocksDB" with author := some "alice" }) ∧
    decodeCheckpoint (Layout.legacy.encodeCheckpoint
        ⟨1, 2, 0, StructuredContext.new,
          [{ ContextUpdate.plain 7 0 "uses RocksDB" with author := some "alice" }],
          [], [], 1, 0, 0⟩) =
      some ⟨1, 2, 0, StructuredContext.new,
        [ContextUpdate.plain 7 0 "uses RocksDB"], [], [], 1, 0, 0⟩ := by
  obtain ⟨hupdates, _, hcheckpoints, _⟩ := rows_read_back
  exact ⟨hupdates _ Layout.authored, hcheckpoints _ Layout.legacy⟩

end Legacy
end Storage
end PostCortex
