import Mathlib.Data.Finset.Dedup
import Mathlib.Data.Finset.Lattice.Basic
import PostCortex.Embeddings.TextIndex
import PostCortex.Transition.System

/-!
# The vector database

`vector_db/core.rs`: vectors and their metadata under ids from a counter, the
indexes by source and by content id, the number of message vectors and the text
index.  A call whose subtractions would underflow has no result.
-/

namespace PostCortex
namespace Embeddings

open PostCortex.Graph
open KeyValue
open Transition

structure VectorMetadata where
  id : String
  text : String
  source : String
  contentType : String
  deriving DecidableEq, Repr

structure VectorDbConfig where
  dimension : Nat
  maxVectors : Nat
  fullTextIndex : Bool

structure SourceIds where
  ids : Finset Nat
  updateCount : Nat
  deriving DecidableEq

structure VectorDb (scalar : Type) where
  vectors : Database Nat (List scalar)
  metadata : Database Nat VectorMetadata
  bySource : Database String SourceIds
  byContentId : Database String (List Nat)
  messageVectors : Nat
  nextId : Nat
  textIndex : TextIndex

def messageContentType : String :=
  "Message"

def entityDescription : String :=
  "EntityDescription"

def isUpdate (contentType : String) : Bool :=
  contentType ≠ entityDescription && contentType ≠ messageContentType

def updateWeight (contentType : String) : Nat :=
  if isUpdate contentType = true then 1 else 0

def messageWeight (contentType : String) : Nat :=
  if isUpdate contentType = true then 0
  else if contentType = messageContentType then 1
  else 0

namespace SourceIds

def empty : SourceIds :=
  ⟨∅, 0⟩

def insert (entry : SourceIds) (id : Nat) (contentType : String) : SourceIds :=
  if id ∈ entry.ids then entry
  else ⟨Insert.insert id entry.ids, entry.updateCount + updateWeight contentType⟩

def remove (entry : SourceIds) (id : Nat) (contentType : String) :
    Option SourceIds :=
  if entry.ids.erase id = ∅ then none
  else if id ∈ entry.ids then
    some ⟨entry.ids.erase id, entry.updateCount - updateWeight contentType⟩
  else some entry

end SourceIds

namespace VectorDb

variable {scalar : Type}

def empty : VectorDb scalar :=
  ⟨∅, ∅, ∅, ∅, 0, 0, TextIndex.empty⟩

def atCapacity (config : VectorDbConfig) (db : VectorDb scalar) : Bool :=
  config.maxVectors ≤ db.vectors.size

def sourceVectorIds (db : VectorDb scalar) (source : String) : Finset Nat :=
  (db.bySource[source]?.getD SourceIds.empty).ids

def findVectorIdsByContentId (db : VectorDb scalar) (contentId : String) :
    List Nat :=
  db.byContentId[contentId]?.getD []

section

variable [WordTables]

def indexMetadata (config : VectorDbConfig) (db : VectorDb scalar) (id : Nat)
    (metadata : VectorMetadata) : Option (VectorDb scalar) :=
  let entry := db.bySource[metadata.source]?.getD SourceIds.empty
  (db.textIndex.add config.fullTextIndex id metadata.text).map (fun index =>
    { db with
      bySource :=
        db.bySource.insert metadata.source (entry.insert id metadata.contentType)
      messageVectors :=
        if id ∈ entry.ids then db.messageVectors
        else db.messageVectors + messageWeight metadata.contentType
      byContentId := db.byContentId.alter metadata.id (push id)
      textIndex := index })

def messagesWithout (db : VectorDb scalar) (id : Nat)
    (metadata : VectorMetadata) : Option Nat :=
  if id ∈ db.sourceVectorIds metadata.source then
    checkedSub db.messageVectors (messageWeight metadata.contentType)
  else some db.messageVectors

def unindexMetadata (db : VectorDb scalar) (id : Nat)
    (metadata : VectorMetadata) : Option (VectorDb scalar) :=
  (db.messagesWithout id metadata).bind (fun messages =>
    (db.textIndex.remove id metadata.text).map (fun index =>
      { db with
        bySource := db.bySource.alter metadata.source
          (fun entry => entry.bind (fun e => e.remove id metadata.contentType))
        messageVectors := messages
        byContentId := db.byContentId.alter metadata.id (retain (fun v => v ≠ id))
        textIndex := index }))

def insertUnindexed (config : VectorDbConfig) (db : VectorDb scalar)
    (vector : List scalar) (metadata : VectorMetadata) :
    Option (VectorDb scalar × Except String Nat) :=
  if vector.length ≠ config.dimension then
    some (db, Except.error ("Vector dimension " ++ toString vector.length ++
      " does not match expected " ++ toString config.dimension))
  else if db.atCapacity config = true then
    some (db, Except.error ("Vector DB is full: max_vectors = " ++
      toString config.maxVectors ++ " reached"))
  else
    let id := db.nextId
    let counted : VectorDb scalar := { db with nextId := (db.nextId + 1) % 2 ^ 32 }
    (counted.indexMetadata config id metadata).map (fun db =>
      ({ db with
        vectors := db.vectors.insert id vector
        metadata := db.metadata.insert id metadata }, Except.ok id))

def addVector (config : VectorDbConfig) (db : VectorDb scalar)
    (vector : List scalar) (metadata : VectorMetadata) :
    Option (VectorDb scalar × Except String Nat) :=
  db.insertUnindexed config vector metadata

/-- The database, the ids so far and the number of vectors dropped. -/
structure Bulk (scalar : Type) where
  db : VectorDb scalar
  ids : List Nat
  dropped : Nat

def Bulk.add (config : VectorDbConfig) (b : Bulk scalar)
    (item : List scalar × VectorMetadata) : Option (Bulk scalar) :=
  if 0 < b.dropped ∨ b.db.atCapacity config = true then
    some { b with dropped := b.dropped + 1 }
  else
    (b.db.insertUnindexed config item.1 item.2).map (fun r =>
      match r.2 with
      | Except.ok id => { b with db := r.1, ids := b.ids ++ [id] }
      | Except.error _ => { b with db := r.1 })

def addVectorsBulk (config : VectorDbConfig) (db : VectorDb scalar)
    (items : List (List scalar × VectorMetadata)) :
    Option (VectorDb scalar × List Nat) :=
  (items.foldlM (Bulk.add config) ⟨db, [], 0⟩).map (fun b => (b.db, b.ids))

def forget (db : VectorDb scalar) (id : Nat) : Option (VectorDb scalar) :=
  match db.metadata[id]? with
  | none => some db
  | some metadata =>
      { db with metadata := db.metadata.erase id }.unindexMetadata id metadata

def removeVector (db : VectorDb scalar) (id : Nat) :
    Option (VectorDb scalar × Bool) :=
  ({ db with vectors := db.vectors.erase id }.forget id).map (fun db' =>
    (db', db.vectors[id]?.isSome))

/-- One round of `remove_vectors`, with the ids removed so far. -/
def removeNext (s : VectorDb scalar × Finset Nat) (id : Nat) :
    Option (VectorDb scalar × Finset Nat) :=
  (s.1.forget id).map (fun db =>
    ({ db with vectors := db.vectors.erase id },
      if db.vectors[id]?.isSome = true then insert id s.2 else s.2))

def removeVectors (db : VectorDb scalar) (ids : List Nat) :
    Option (VectorDb scalar × Nat) :=
  (ids.foldlM removeNext (db, ∅)).map (fun s => (s.1, s.2.card))

def removeByContentId (db : VectorDb scalar) (contentId : String) :
    Option (VectorDb scalar × Nat) :=
  db.removeVectors (db.findVectorIdsByContentId contentId)

def removeSource (db : VectorDb scalar) (source : String) (listed : List Nat) :
    Option (VectorDb scalar × Nat) :=
  if listed.Nodup ∧ listed.toFinset = db.sourceVectorIds source then
    db.removeVectors listed
  else none

def clear (_ : VectorDb scalar) : VectorDb scalar :=
  empty

end

/-!
# Calls
-/

inductive Call (scalar : Type) where
  | addVector (vector : List scalar) (metadata : VectorMetadata)
  | addVectorsBulk (items : List (List scalar × VectorMetadata))
  | removeVector (id : Nat)
  | removeVectors (ids : List Nat)
  | removeByContentId (contentId : String)
  | removeSource (source : String) (listed : List Nat)
  | clear
  deriving DecidableEq, Repr

def Call.items : Call scalar -> List (List scalar × VectorMetadata)
  | Call.addVector vector metadata => [(vector, metadata)]
  | Call.addVectorsBulk items => items
  | _ => []

/-- The number of ids that a call takes: one for each vector of the right
dimension, up to the capacity. -/
def issued (config : VectorDbConfig) (db : VectorDb scalar)
    (items : List (List scalar × VectorMetadata)) : Nat :=
  min (items.countP (fun item => item.1.length = config.dimension))
    (config.maxVectors - db.vectors.size)

/-- The call is made with fewer than `2^32` ids since the last `clear`. -/
def Unwrapped (config : VectorDbConfig) (db : VectorDb scalar)
    (call : Call scalar) : Prop :=
  db.nextId + db.issued config call.items < 2 ^ 32

instance (config : VectorDbConfig) (db : VectorDb scalar) (call : Call scalar) :
    Decidable (db.Unwrapped config call) :=
  inferInstanceAs (Decidable (_ < _))

def Lists (db : VectorDb scalar) : Call scalar -> Prop
  | Call.removeSource source listed =>
      listed.Nodup ∧ listed.toFinset = db.sourceVectorIds source
  | _ => True

def step [WordTables] (config : VectorDbConfig) (db : VectorDb scalar) :
    Call scalar -> Option (VectorDb scalar)
  | Call.addVector vector metadata =>
      (db.addVector config vector metadata).map Prod.fst
  | Call.addVectorsBulk items => (db.addVectorsBulk config items).map Prod.fst
  | Call.removeVector id => (db.removeVector id).map Prod.fst
  | Call.removeVectors ids => (db.removeVectors ids).map Prod.fst
  | Call.removeByContentId contentId =>
      (db.removeByContentId contentId).map Prod.fst
  | Call.removeSource source listed =>
      (db.removeSource source listed).map Prod.fst
  | Call.clear => some db.clear

def database [WordTables] (config : VectorDbConfig) :
    System (VectorDb scalar) (Call scalar) where
  init := empty
  step := step config

/-!
# The indexes of the stored metadata
-/

def records (db : VectorDb scalar) : List (Nat × VectorMetadata) :=
  db.metadata.toList

def idsOf (records : List (Nat × VectorMetadata)) : SourceIds :=
  ⟨(records.map Prod.fst).toFinset,
    records.countP (fun r => isUpdate r.2.contentType)⟩

def entryOf (records : List (Nat × VectorMetadata)) : Option SourceIds :=
  if records = [] then none else some (idsOf records)

def sourceEntry (records : List (Nat × VectorMetadata)) (source : String) :
    Option SourceIds :=
  entryOf (records.filter (fun r => r.2.source = source))

def contentEntry (records : List (Nat × VectorMetadata)) (contentId : String) :
    Option (List Nat) :=
  present ((records.filter (fun r => r.2.id = contentId)).map Prod.fst)

def texts (records : List (Nat × VectorMetadata)) : List (Nat × String) :=
  records.map (fun r => (r.1, r.2.text))

/-- The indexes are those of the stored metadata. -/
structure Indexed [WordTables] (config : VectorDbConfig) (db : VectorDb scalar) :
    Prop where
  fresh : forall id, id ∈ db.records.map Prod.fst -> id < db.nextId
  bySource : forall source, db.bySource[source]? = sourceEntry db.records source
  byContentId : forall contentId,
    db.byContentId[contentId]? = contentEntry db.records contentId
  messageVectors : db.messageVectors =
    db.records.countP (fun r => r.2.contentType = messageContentType)
  textIndex : db.textIndex.Indexes config.fullTextIndex (texts db.records)

/-- And a vector has metadata, and there are no more than `max_vectors`. -/
structure Coherent [WordTables] (config : VectorDbConfig)
    (db : VectorDb scalar) : Prop extends Indexed config db where
  sameIds : forall id, id ∈ db.vectors ↔ id ∈ db.metadata
  bounded : db.vectors.size ≤ config.maxVectors

theorem nodup_records (db : VectorDb scalar) :
    (db.records.map Prod.fst).Nodup := by
  have hdistinct := Std.ExtTreeMap.distinct_keys (t := db.metadata)
  rw [← Std.ExtTreeMap.map_fst_toList_eq_keys] at hdistinct
  refine hdistinct.imp ?_
  rintro a b hne rfl
  exact hne Std.ReflCmp.compare_self

variable {db : VectorDb scalar} {id : Nat}

theorem mem_records {metadata : VectorMetadata} :
    (id, metadata) ∈ db.records ↔ db.metadata[id]? = some metadata :=
  Std.ExtTreeMap.mem_toList_iff_getElem?_eq_some

theorem coherent_empty [WordTables] (config : VectorDbConfig) :
    Coherent config (empty : VectorDb scalar) := by
  have hrecords : (empty : VectorDb scalar).records = [] := by
    simp [records, empty]
  refine ⟨⟨?_, ?_, ?_, ?_, ?_⟩, ?_, ?_⟩
  · simp [hrecords]
  · intro source
    rw [hrecords]
    simp [empty, sourceEntry, entryOf]
  · intro contentId
    rw [hrecords]
    simp [empty, contentEntry]
  · rw [hrecords]
    rfl
  · rw [hrecords]
    exact TextIndex.indexes_empty _
  · simp [empty]
  · simp [empty]

variable {metadata : VectorMetadata}

theorem idsOf_remove {records : List (Nat × VectorMetadata)}
    (hnodup : (records.map Prod.fst).Nodup) (hmem : (id, metadata) ∈ records) :
    idsOf records =
      (idsOf (records.filter (fun r => r.1 ≠ id))).insert id
        metadata.contentType := by
  have hperm := perm_cons_filter hnodup hmem
  have hgone : id ∉ (idsOf (records.filter (fun r => r.1 ≠ id))).ids := by
    simp [idsOf]
  rw [SourceIds.insert, if_neg hgone, idsOf, hperm.countP_eq,
    List.countP_cons, List.toFinset_eq_of_perm _ _ (hperm.map Prod.fst),
    List.map_cons, List.toFinset_cons]
  rfl

theorem entryOf_remove {records : List (Nat × VectorMetadata)}
    (hnodup : (records.map Prod.fst).Nodup) (hmem : (id, metadata) ∈ records) :
    entryOf (records.filter (fun r => r.1 ≠ id)) =
      (entryOf records).bind (fun e => e.remove id metadata.contentType) := by
  have hgone : id ∉ (idsOf (records.filter (fun r => r.1 ≠ id))).ids := by
    simp [idsOf]
  rw [entryOf.eq_def records, if_neg (List.ne_nil_of_mem hmem),
    Option.bind_some, idsOf_remove hnodup hmem, SourceIds.insert,
    if_neg hgone, SourceIds.remove]
  dsimp only
  rw [Finset.erase_insert hgone, if_pos (Finset.mem_insert_self _ _),
    Nat.add_sub_cancel, entryOf]
  by_cases hnil : records.filter (fun r => r.1 ≠ id) = []
  · rw [if_pos hnil, hnil]
    rfl
  · have hids : (idsOf (records.filter (fun r => r.1 ≠ id))).ids ≠ ∅ := by
      rw [idsOf, Ne, List.toFinset_eq_empty_iff, List.map_eq_nil_iff]
      exact hnil
    rw [if_neg hnil, if_neg hids]

theorem filter_remove {records : List (Nat × VectorMetadata)}
    (hnodup : (records.map Prod.fst).Nodup) (hmem : (id, metadata) ∈ records)
    (p : VectorMetadata -> Bool) (hother : p metadata = false) :
    (records.filter (fun r => r.1 ≠ id)).filter (fun r => p r.2) =
      records.filter (fun r => p r.2) := by
  rw [List.filter_filter]
  apply List.filter_congr
  intro r hr
  by_cases hid : r.1 = id
  · have heq := List.inj_on_of_nodup_map hnodup hr hmem hid
    rw [heq, hother]
    rfl
  · simp [hid]

theorem sourceEntry_remove {records : List (Nat × VectorMetadata)}
    (hnodup : (records.map Prod.fst).Nodup) (hmem : (id, metadata) ∈ records)
    (source : String) :
    sourceEntry (records.filter (fun r => r.1 ≠ id)) source =
      if metadata.source = source then
        (sourceEntry records source).bind
          (fun e => e.remove id metadata.contentType)
      else sourceEntry records source := by
  unfold sourceEntry
  split
  · next hsource =>
    rw [List.filter_comm]
    refine entryOf_remove ?_ (List.mem_filter.mpr ⟨hmem, decide_eq_true hsource⟩)
    exact hnodup.sublist (List.filter_sublist.map _)
  · next hsource =>
    rw [filter_remove hnodup hmem (fun m => m.source = source)
      (decide_eq_false hsource)]

theorem contentEntry_remove {records : List (Nat × VectorMetadata)}
    (hnodup : (records.map Prod.fst).Nodup) (hmem : (id, metadata) ∈ records)
    (contentId : String) :
    contentEntry (records.filter (fun r => r.1 ≠ id)) contentId =
      if metadata.id = contentId then
        retain (fun v => v ≠ id) (contentEntry records contentId)
      else contentEntry records contentId := by
  unfold contentEntry
  split
  · rw [retain_present, List.filter_comm, List.filter_map]
    rfl
  · next hid =>
    rw [filter_remove hnodup hmem (fun m => m.id = contentId)
      (decide_eq_false hid)]

/-!
# A new vector
-/

theorem messageWeight_eq (contentType : String) :
    messageWeight contentType =
      if contentType = messageContentType then 1 else 0 := by
  unfold messageWeight isUpdate
  by_cases h : contentType = messageContentType
  · simp [h]
  · simp [h]

theorem countP_messages_remove {records : List (Nat × VectorMetadata)}
    (hnodup : (records.map Prod.fst).Nodup) (hmem : (id, metadata) ∈ records) :
    records.countP (fun r => r.2.contentType = messageContentType) =
      (records.filter (fun r => r.1 ≠ id)).countP
        (fun r => r.2.contentType = messageContentType) +
        messageWeight metadata.contentType := by
  rw [(perm_cons_filter hnodup hmem).countP_eq, List.countP_cons,
    messageWeight_eq]
  simp only [decide_eq_true_eq]

theorem getD_entryOf (records : List (Nat × VectorMetadata)) :
    (entryOf records).getD SourceIds.empty = idsOf records := by
  unfold entryOf
  split
  · next hnil =>
    rw [hnil]
    rfl
  · rfl

theorem idsOf_snoc {records : List (Nat × VectorMetadata)}
    (hfresh : id ∉ records.map Prod.fst) (metadata : VectorMetadata) :
    idsOf (records ++ [(id, metadata)]) =
      (idsOf records).insert id metadata.contentType := by
  have hnew : id ∉ (idsOf records).ids := by
    rw [idsOf, List.mem_toFinset]
    exact hfresh
  rw [SourceIds.insert, if_neg hnew, idsOf, List.map_append,
    List.toFinset_append, List.countP_append, Finset.union_comm]
  simp only [List.map_cons, List.map_nil, List.countP_singleton,
    idsOf]
  rfl

theorem sourceEntry_snoc {records : List (Nat × VectorMetadata)}
    (hfresh : id ∉ records.map Prod.fst) (metadata : VectorMetadata)
    (source : String) :
    sourceEntry (records ++ [(id, metadata)]) source =
      if metadata.source = source then
        some (((sourceEntry records source).getD SourceIds.empty).insert id
          metadata.contentType)
      else sourceEntry records source := by
  unfold sourceEntry
  rw [getD_entryOf, List.filter_append]
  by_cases hsource : metadata.source = source
  · have hnew : id ∉ (records.filter
        (fun r => r.2.source = source)).map Prod.fst := by
      intro hmem
      exact hfresh (List.map_subset _ (List.filter_subset_self _) hmem)
    simp only [hsource, decide_true, List.filter_cons_of_pos, List.filter_nil,
      if_true]
    rw [entryOf, if_neg (by simp), idsOf_snoc hnew]
  · simp [hsource]

theorem contentEntry_snoc (records : List (Nat × VectorMetadata)) (id : Nat)
    (metadata : VectorMetadata) (contentId : String) :
    contentEntry (records ++ [(id, metadata)]) contentId =
      if metadata.id = contentId then push id (contentEntry records contentId)
      else contentEntry records contentId := by
  unfold contentEntry
  rw [push_present, List.filter_append, List.map_append]
  split
  · next hid =>
    simp [hid]
  · next hid =>
    simp [hid]

theorem records_insert
    (hlast : forall id', id' ∈ db.records.map Prod.fst -> id' < id)
    (metadata : VectorMetadata) :
    (db.metadata.insert id metadata).toList = db.records ++ [(id, metadata)] := by
  apply Database.toList_insert_last
  intro r hr
  exact Nat.compare_eq_lt.mpr (hlast r.1 (List.mem_map_of_mem hr))

section

variable [WordTables] {config : VectorDbConfig}

theorem Indexed.insert (h : Indexed config db) (hnext : db.nextId + 1 < 2 ^ 32)
    (metadata : VectorMetadata) :
    exists db', { db with nextId := (db.nextId + 1) % 2 ^ 32 }.indexMetadata
        config db.nextId metadata = some db' ∧
      db'.vectors = db.vectors ∧ db'.metadata = db.metadata ∧
      db'.nextId = db.nextId + 1 ∧
      Indexed config { db' with
        metadata := db.metadata.insert db.nextId metadata } := by
  have hfresh : db.nextId ∉ db.records.map Prod.fst :=
    fun hmem => lt_irrefl _ (h.fresh _ hmem)
  have htexts : db.nextId ∉ (texts db.records).map Prod.fst := by
    rw [texts, List.map_map]
    exact hfresh
  obtain ⟨index, hindex, hindexes⟩ := h.textIndex.add htexts metadata.text
  have hentry : db.nextId ∉
      (db.bySource[metadata.source]?.getD SourceIds.empty).ids := by
    rw [h.bySource, sourceEntry, getD_entryOf, idsOf, List.mem_toFinset]
    intro hmem
    exact hfresh (List.map_subset _ (List.filter_subset_self _) hmem)
  refine ⟨_, congrArg (Option.map _) hindex, rfl, rfl, Nat.mod_eq_of_lt hnext, ?_⟩
  have hrecords := records_insert h.fresh metadata
  constructor
  · intro id hid
    rw [records, hrecords, List.map_append, List.mem_append] at hid
    dsimp only
    rw [Nat.mod_eq_of_lt hnext]
    rcases hid with hid | hid
    · exact Nat.lt_succ_of_lt (h.fresh id hid)
    · rw [List.mem_singleton.mp hid]
      exact Nat.lt_succ_self _
  · intro source
    rw [records, hrecords, sourceEntry_snoc hfresh]
    by_cases hsource : metadata.source = source
    · subst hsource
      rw [if_pos rfl, ← h.bySource]
      exact Database.get_put_self db.bySource _ _
    · rw [if_neg hsource, ← h.bySource]
      exact Database.get_apply_other db.bySource
        (e := Edit.put metadata.source _) hsource
  · intro contentId
    rw [records, hrecords, contentEntry_snoc]
    dsimp only
    rw [Database.get_alter, h.byContentId, h.byContentId]
    by_cases hid : metadata.id = contentId
    · rw [if_pos hid, if_pos hid, hid]
    · rw [if_neg hid, if_neg hid]
  · rw [records, hrecords, List.countP_append]
    dsimp only
    rw [if_neg hentry, h.messageVectors, messageWeight_eq]
    simp
  · rw [records, hrecords, texts, List.map_append]
    exact hindexes

theorem Indexed.forget (h : Indexed config db) (id : Nat) :
    exists db', db.forget id = some db' ∧ db'.vectors = db.vectors ∧
      db'.nextId = db.nextId ∧
      (forall x, x ∈ db'.metadata ↔ x ≠ id ∧ x ∈ db.metadata) ∧
      Indexed config db' := by
  cases hget : db.metadata[id]? with
  | none =>
      refine ⟨db, by rw [VectorDb.forget, hget], rfl, rfl, ?_, h⟩
      intro x
      constructor
      · intro hx
        refine ⟨?_, hx⟩
        rintro rfl
        rw [Std.ExtTreeMap.mem_iff_isSome_getElem?, hget] at hx
        cases hx
      · exact And.right
  | some metadata =>
      have hnodup := nodup_records db
      have hmem : (id, metadata) ∈ db.records := mem_records.mpr hget
      have hids : id ∈ db.sourceVectorIds metadata.source := by
        rw [sourceVectorIds, h.bySource, sourceEntry, getD_entryOf, idsOf,
          List.mem_toFinset]
        exact List.mem_map_of_mem
          (List.mem_filter.mpr ⟨hmem, decide_eq_true rfl⟩)
      have hmessages : checkedSub db.messageVectors
          (messageWeight metadata.contentType) =
          some ((db.records.filter (fun r => r.1 ≠ id)).countP
            (fun r => r.2.contentType = messageContentType)) := by
        rw [h.messageVectors, countP_messages_remove hnodup hmem]
        simp [checkedSub]
      have htexts : (id, metadata.text) ∈ texts db.records :=
        List.mem_map.mpr ⟨_, hmem, rfl⟩
      have hdistinct : ((texts db.records).map Prod.fst).Nodup := by
        rw [texts, List.map_map]
        exact hnodup
      obtain ⟨index, hindex, hindexes⟩ := h.textIndex.remove hdistinct htexts
      have hrecords : (db.metadata.erase id).toList =
          db.records.filter (fun r => r.1 ≠ id) :=
        Database.toList_erase db.metadata id
      have hforget : db.forget id = some { db with
          metadata := db.metadata.erase id
          bySource := db.bySource.alter metadata.source
            (fun entry => entry.bind (fun e => e.remove id metadata.contentType))
          messageVectors := (db.records.filter (fun r => r.1 ≠ id)).countP
            (fun r => r.2.contentType = messageContentType)
          byContentId :=
            db.byContentId.alter metadata.id (retain (fun v => v ≠ id))
          textIndex := index } := by
        rw [VectorDb.forget, hget]
        dsimp only
        rw [unindexMetadata, messagesWithout, sourceVectorIds]
        dsimp only
        rw [← sourceVectorIds, if_pos hids, hmessages, Option.bind_some, hindex]
        rfl
      refine ⟨_, hforget, rfl, rfl, ?_, ?_⟩
      · intro x
        rw [Std.ExtTreeMap.mem_erase, ne_eq, Std.compare_eq_iff_eq, ← ne_eq,
          ne_comm]
      · constructor
        · intro x hx
          change x ∈ (db.metadata.erase id).toList.map Prod.fst at hx
          rw [hrecords] at hx
          exact h.fresh x (List.map_subset _ (List.filter_subset_self _) hx)
        · intro source
          change _ = sourceEntry (db.metadata.erase id).toList source
          rw [hrecords, sourceEntry_remove hnodup hmem]
          dsimp only
          rw [Database.get_alter, h.bySource, h.bySource]
          by_cases hsource : metadata.source = source
          · rw [if_pos hsource, if_pos hsource, hsource]
          · rw [if_neg hsource, if_neg hsource]
        · intro contentId
          change _ = contentEntry (db.metadata.erase id).toList contentId
          rw [hrecords, contentEntry_remove hnodup hmem]
          dsimp only
          rw [Database.get_alter, h.byContentId, h.byContentId]
          by_cases hid : metadata.id = contentId
          · rw [if_pos hid, if_pos hid, hid]
          · rw [if_neg hid, if_neg hid]
        · change _ = (db.metadata.erase id).toList.countP _
          rw [hrecords]
        · change index.Indexes _ (texts (db.metadata.erase id).toList)
          rw [hrecords, texts]
          rw [texts, List.filter_map] at hindexes
          exact hindexes

/-!
# Every call
-/

theorem Coherent.insertUnindexed (h : Coherent config db) (vector : List scalar)
    (metadata : VectorMetadata)
    (hnext : db.nextId + db.issued config [(vector, metadata)] < 2 ^ 32) :
    exists db' result, db.insertUnindexed config vector metadata =
        some (db', result) ∧
      Coherent config db' ∧
      db'.nextId = db.nextId + db.issued config [(vector, metadata)] ∧
      db'.vectors.size =
        db.vectors.size + db.issued config [(vector, metadata)] ∧
      result.toOption.toList =
        List.range' db.nextId (db.issued config [(vector, metadata)]) := by
  unfold VectorDb.insertUnindexed
  by_cases hdimension : vector.length = config.dimension
  · rw [if_neg (not_not.mpr hdimension)]
    by_cases hfull : config.maxVectors ≤ db.vectors.size
    · have hissued : db.issued config [(vector, metadata)] = 0 := by
        rw [issued, Nat.sub_eq_zero_of_le hfull, Nat.min_zero]
      rw [atCapacity, if_pos (decide_eq_true hfull), hissued]
      exact ⟨db, _, rfl, h, rfl, rfl, rfl⟩
    · have hissued : db.issued config [(vector, metadata)] = 1 := by
        simp only [issued, List.countP_singleton, hdimension, decide_true, if_true]
        omega
      rw [atCapacity, if_neg (fun hle => hfull (of_decide_eq_true hle))]
      rw [hissued] at hnext ⊢
      obtain ⟨db', hindex, hvectors, hmetadata, hid, hindexed⟩ :=
        h.toIndexed.insert hnext metadata
      have habsent : db.nextId ∉ db.vectors := by
        intro hmem
        rw [h.sameIds, ← Std.ExtTreeMap.mem_keys,
          ← Std.ExtTreeMap.map_fst_toList_eq_keys] at hmem
        exact lt_irrefl _ (h.fresh _ hmem)
      have hsize := Database.size_insert_fresh db.vectors habsent vector
      refine ⟨_, _, congrArg (Option.map _) hindex, ⟨?_, ?_, ?_⟩, hid, ?_, rfl⟩
      · rw [hmetadata]
        exact ⟨hindexed.fresh, hindexed.bySource, hindexed.byContentId,
          hindexed.messageVectors, hindexed.textIndex⟩
      · intro x
        dsimp only
        rw [hvectors, hmetadata, Std.ExtTreeMap.mem_insert,
          Std.ExtTreeMap.mem_insert, h.sameIds]
      · dsimp only
        rw [hvectors, hsize]
        omega
      · dsimp only
        rw [hvectors, hsize]
  · have hissued : db.issued config [(vector, metadata)] = 0 := by
      simp [issued, hdimension]
    rw [if_pos hdimension, hissued]
    exact ⟨db, _, rfl, h, rfl, rfl, rfl⟩

variable {db' : VectorDb scalar}

omit [WordTables] in
theorem issued_cons (item : List scalar × VectorMetadata)
    (rest : List (List scalar × VectorMetadata))
    (hsize : db'.vectors.size = db.vectors.size + db.issued config [item]) :
    db.issued config (item :: rest) =
      db.issued config [item] + db'.issued config rest := by
  unfold issued at hsize ⊢
  rw [hsize, List.countP_cons, List.countP_singleton]
  omega

theorem foldlM_dropped (b : Bulk scalar) (hdropped : 0 < b.dropped)
    (items : List (List scalar × VectorMetadata)) :
    items.foldlM (Bulk.add config) b =
      some { b with dropped := b.dropped + items.length } := by
  induction items generalizing b with
  | nil =>
      rfl
  | cons item rest ih =>
      rw [List.foldlM_cons, Bulk.add, if_pos (Or.inl hdropped)]
      refine (ih _ (Nat.succ_pos _)).trans ?_
      rw [List.length_cons, Nat.add_assoc, Nat.add_comm 1]

theorem foldlM_bulk (b : Bulk scalar) (h : Coherent config b.db)
    (hdropped : b.dropped = 0) (items : List (List scalar × VectorMetadata))
    (hnext : b.db.nextId + b.db.issued config items < 2 ^ 32) :
    exists b', items.foldlM (Bulk.add config) b = some b' ∧
      Coherent config b'.db ∧
      b'.db.nextId = b.db.nextId + b.db.issued config items ∧
      b'.ids = b.ids ++ List.range' b.db.nextId (b.db.issued config items) := by
  induction items generalizing b with
  | nil =>
      refine ⟨b, rfl, h, ?_, ?_⟩
      · simp [issued]
      · simp [issued]
  | cons item rest ih =>
      obtain ⟨vector, metadata⟩ := item
      rw [List.foldlM_cons, Bulk.add]
      by_cases hfull : b.db.atCapacity config = true
      · have hissued : b.db.issued config ((vector, metadata) :: rest) = 0 := by
          rw [issued, Nat.sub_eq_zero_of_le (of_decide_eq_true hfull),
            Nat.min_zero]
        rw [if_pos (Or.inr hfull), hissued]
        refine ⟨_, foldlM_dropped _ (Nat.succ_pos _) rest, h, rfl, ?_⟩
        simp
      · have hroom : ¬ (0 < b.dropped ∨ b.db.atCapacity config = true) := by
          rintro (hpos | hcap)
          · exact absurd hdropped (Nat.ne_of_gt hpos)
          · exact hfull hcap
        have hone : b.db.nextId + b.db.issued config [(vector, metadata)] <
            2 ^ 32 := by
          refine lt_of_le_of_lt (Nat.add_le_add_left ?_ _) hnext
          exact min_le_min_right _
            (List.singleton_sublist.mpr List.mem_cons_self).countP_le
        obtain ⟨db', result, hinsert, hcoherent, hid, hsize, hresult⟩ :=
          h.insertUnindexed vector metadata hone
        rw [issued_cons (vector, metadata) rest hsize] at hnext ⊢
        have hadded : exists b' : Bulk scalar,
            (b.db.insertUnindexed config vector metadata).map (fun r =>
              match r.2 with
              | Except.ok id => { b with db := r.1, ids := b.ids ++ [id] }
              | Except.error _ => { b with db := r.1 }) = some b' ∧
            b'.db = db' ∧ b'.dropped = 0 ∧
            b'.ids = b.ids ++ result.toOption.toList := by
          rw [hinsert]
          cases result with
          | ok id =>
              exact ⟨_, rfl, rfl, hdropped, rfl⟩
          | error e =>
              exact ⟨_, rfl, rfl, hdropped, (List.append_nil _).symm⟩
        obtain ⟨b', hb', rfl, hdropped', hids⟩ := hadded
        obtain ⟨last, hlast, hlastCoherent, hlastId, hlastIds⟩ :=
          ih b' hcoherent hdropped' (by omega)
        refine ⟨last, ?_, hlastCoherent, ?_, ?_⟩
        · rw [if_neg hroom, hb']
          exact hlast
        · rw [hlastId, hid, Nat.add_assoc]
        · rw [hlastIds, hids, hresult, hid, List.append_assoc,
            List.range'_append_1]

theorem Coherent.addVectorsBulk (h : Coherent config db)
    (items : List (List scalar × VectorMetadata))
    (hnext : db.nextId + db.issued config items < 2 ^ 32) :
    exists db', db.addVectorsBulk config items =
        some (db', List.range' db.nextId (db.issued config items)) ∧
      Coherent config db' ∧
      db'.nextId = db.nextId + db.issued config items := by
  obtain ⟨b, hfold, hcoherent, hid, hids⟩ :=
    foldlM_bulk ⟨db, [], 0⟩ h rfl items hnext
  refine ⟨b.db, ?_, hcoherent, hid⟩
  rw [VectorDb.addVectorsBulk, hfold, Option.map_some, hids, List.nil_append]

theorem Coherent.erase (h : Coherent config db) (hindexed : Indexed config db')
    (hvectors : db'.vectors = db.vectors.erase id)
    (hmetadata : forall x, x ∈ db'.metadata ↔ x ≠ id ∧ x ∈ db.metadata) :
    Coherent config db' := by
  refine ⟨hindexed, ?_, ?_⟩
  · intro x
    rw [hvectors, hmetadata, Std.ExtTreeMap.mem_erase, h.sameIds, ne_eq,
      Std.compare_eq_iff_eq, ← ne_eq, ne_comm]
  · rw [hvectors]
    exact Std.ExtTreeMap.size_erase_le.trans h.bounded

theorem Indexed.with_vectors (h : Indexed config db)
    (vectors : Database Nat (List scalar)) :
    Indexed config { db with vectors := vectors } :=
  ⟨h.fresh, h.bySource, h.byContentId, h.messageVectors, h.textIndex⟩

theorem Coherent.removeVector (h : Coherent config db) (id : Nat) :
    exists db' removed, db.removeVector id = some (db', removed) ∧
      Coherent config db' := by
  obtain ⟨db', hforget, hvectors, _, hmetadata, hindexed⟩ :=
    (h.toIndexed.with_vectors (db.vectors.erase id)).forget id
  refine ⟨db', db.vectors[id]?.isSome, ?_, h.erase hindexed hvectors hmetadata⟩
  rw [VectorDb.removeVector, hforget]
  rfl

theorem Coherent.removeNext (h : Coherent config db) (removed : Finset Nat)
    (id : Nat) :
    exists s', VectorDb.removeNext (db, removed) id = some s' ∧
      Coherent config s'.1 := by
  obtain ⟨db', hforget, hvectors, _, hmetadata, hindexed⟩ := h.toIndexed.forget id
  refine ⟨_, congrArg (Option.map _) hforget, ?_⟩
  exact h.erase (hindexed.with_vectors _)
    (congrArg (fun vectors => vectors.erase id) hvectors) hmetadata

theorem Coherent.foldlM_removeNext (h : Coherent config db) (removed : Finset Nat)
    (ids : List Nat) :
    exists s', ids.foldlM VectorDb.removeNext (db, removed) = some s' ∧
      Coherent config s'.1 := by
  induction ids generalizing db removed with
  | nil =>
      exact ⟨(db, removed), rfl, h⟩
  | cons id rest ih =>
      obtain ⟨s', hnext, hs'⟩ := h.removeNext removed id
      rw [List.foldlM_cons, hnext]
      exact ih hs' s'.2

theorem Coherent.removeVectors (h : Coherent config db) (ids : List Nat) :
    exists db' count, db.removeVectors ids = some (db', count) ∧
      Coherent config db' := by
  obtain ⟨s', hfold, hs'⟩ := h.foldlM_removeNext ∅ ids
  refine ⟨s'.1, s'.2.card, ?_, hs'⟩
  rw [VectorDb.removeVectors, hfold]
  rfl

theorem Coherent.step {db : VectorDb scalar} (h : Coherent config db)
    (call : Call scalar) (hids : db.Unwrapped config call)
    (hlists : db.Lists call) :
    exists db', VectorDb.step config db call = some db' ∧ Coherent config db' := by
  cases call with
  | addVector vector metadata =>
      obtain ⟨db', result, hadd, hdb', _⟩ :=
        h.insertUnindexed vector metadata hids
      exact ⟨db', congrArg (Option.map _) hadd, hdb'⟩
  | addVectorsBulk items =>
      obtain ⟨db', hadd, hdb', _⟩ := h.addVectorsBulk items hids
      exact ⟨db', congrArg (Option.map _) hadd, hdb'⟩
  | removeVector id =>
      obtain ⟨db', removed, hremove, hdb'⟩ := h.removeVector id
      exact ⟨db', congrArg (Option.map _) hremove, hdb'⟩
  | removeVectors ids =>
      obtain ⟨db', count, hremove, hdb'⟩ := h.removeVectors ids
      exact ⟨db', congrArg (Option.map _) hremove, hdb'⟩
  | removeByContentId contentId =>
      obtain ⟨db', count, hremove, hdb'⟩ :=
        h.removeVectors (db.findVectorIdsByContentId contentId)
      exact ⟨db', congrArg (Option.map _) hremove, hdb'⟩
  | removeSource source listed =>
      obtain ⟨db', count, hremove, hdb'⟩ := h.removeVectors listed
      have hlisted : listed.Nodup ∧
          listed.toFinset = db.sourceVectorIds source := hlists
      refine ⟨db', ?_, hdb'⟩
      rw [VectorDb.step, VectorDb.removeSource, if_pos hlisted, hremove]
      rfl
  | clear =>
      exact ⟨_, rfl, coherent_empty config⟩

theorem lists_of_step {call : Call scalar}
    (hstep : VectorDb.step config db call = some db') :
    db.Lists call := by
  cases call with
  | removeSource source listed =>
      rw [VectorDb.step, VectorDb.removeSource] at hstep
      split at hstep
      · next hlisted =>
        exact hlisted
      · cases hstep
  | addVector | addVectorsBulk | removeVector | removeVectors | removeByContentId
  | clear =>
      exact True.intro

theorem reachable_coherent (h : (database config).Reachable (Unwrapped config) db) :
    Coherent config db := by
  refine h.invariant (coherent_empty config) ?_
  intro db call db' hdb hids hstep
  obtain ⟨next, hnext, hcoherent⟩ :=
    hdb.step call hids (lists_of_step hstep)
  rw [← Option.some.inj (hstep.symm.trans hnext)] at hcoherent
  exact hcoherent

/-- While fewer than `2^32` ids are taken between two `clear` calls, the indexes
are those of the stored metadata, every call has a result, and an add takes as
many ids as `issued` says. -/
theorem indexes_coherent {db : VectorDb scalar}
    (h : (database config).Reachable (Unwrapped config) db) :
    Coherent config db ∧
    (forall call, db.Unwrapped config call -> db.Lists call ->
      exists db', VectorDb.step config db call = some db') ∧
    (forall items, db.Unwrapped config (Call.addVectorsBulk items) ->
      exists db', db.addVectorsBulk config items =
        some (db', List.range' db.nextId (db.issued config items))) ∧
    forall vector metadata,
      db.Unwrapped config (Call.addVector vector metadata) ->
      exists db' result, db.addVector config vector metadata =
          some (db', result) ∧
        result.toOption.toList =
          List.range' db.nextId (db.issued config [(vector, metadata)]) := by
  have hdb := reachable_coherent h
  refine ⟨hdb, ?_, ?_, ?_⟩
  · intro call hids hlists
    obtain ⟨db', hstep, _⟩ := hdb.step call hids hlists
    exact ⟨db', hstep⟩
  · intro items hids
    obtain ⟨db', hadd, _⟩ := hdb.addVectorsBulk items hids
    exact ⟨db', hadd⟩
  · intro vector metadata hids
    obtain ⟨db', result, hadd, _, _, _, hresult⟩ :=
      hdb.insertUnindexed vector metadata hids
    exact ⟨db', result, hadd, hresult⟩

end

attribute [local instance] Temporal.asciiWords

/-- Two vectors share a content id, one text is empty, a vector has the wrong
dimension and one comes after the capacity; two of the others go. -/
theorem indexes_coherent_run :
    exists db : VectorDb Nat,
      (database ⟨1, 3, true⟩).Reachable (Unwrapped ⟨1, 3, true⟩) db ∧
      db.bySource["s"]? = sourceEntry db.records "s" ∧
      (db.records.map Prod.fst, db.textIndex.df["red"]?, db.textIndex.totalLength) =
        ([0], some 1, 2) := by
  obtain ⟨db, -, hreach, hvalues⟩ :=
    (database ⟨1, 3, true⟩).replay_reaches (Unwrapped ⟨1, 3, true⟩)
      [Call.addVector [7] ⟨"u", "Red red", "s", "UpdateContent"⟩,
        Call.addVectorsBulk
          [([], ⟨"w", "blue", "s", "Message"⟩),
            ([8], ⟨"u", "", "t", "Message"⟩),
            ([9], ⟨"v", "red", "s", "EntityDescription"⟩),
            ([9], ⟨"x", "red", "s", "UpdateContent"⟩)],
        Call.removeVectors [2, 5, 2], Call.removeSource "t" [1]]
      (fun db : VectorDb Nat => (db.records.map Prod.fst, db.textIndex.df["red"]?,
        db.textIndex.totalLength) = ([0], some 1, 2)) (by decide +kernel)
  exact ⟨db, hreach, (indexes_coherent hreach).1.bySource "s", hvalues⟩

end VectorDb
end Embeddings
end PostCortex
