import PostCortex.Storage.Importing

/-!
# Importing over a stored session

An import saves a session over the stored one: the index keeps what it has, and
the ids of the document follow.  So the session has the updates of the document
exactly when the document goes on from what is stored.
-/

namespace PostCortex
namespace Storage

open PostCortex.Core
open PostCortex.Graph
open KeyValue
open Session

/-!
# Lists of ids that go on from others
-/

theorem prefix_extendUnique (ids more : List Uuid) :
    ids <+: EntityGraph.extendUnique ids more := by
  induction more using List.reverseRecOn with
  | nil =>
      exact List.prefix_refl ids
  | append_singleton more last ih =>
      rw [EntityGraph.extendUnique_snoc]
      split
      · exact ih
      · exact ih.trans (List.prefix_append _ _)

theorem extendUnique_append (ids rest : List Uuid) (h : (ids ++ rest).Nodup) :
    EntityGraph.extendUnique ids (ids ++ rest) = ids ++ rest := by
  have hknown : forall more, (forall id, id ∈ more -> id ∈ ids) ->
      EntityGraph.extendUnique ids more = ids := by
    intro more
    induction more using List.reverseRecOn with
    | nil =>
        exact fun _ => rfl
    | append_singleton more last ih =>
        intro hmore
        have hbefore := ih (fun id hid => hmore id (List.mem_append_left _ hid))
        rw [EntityGraph.extendUnique_snoc, hbefore, if_pos]
        exact hmore last (by simp)
  induction rest using List.reverseRecOn with
  | nil =>
      rw [List.append_nil]
      exact hknown ids (fun _ hid => hid)
  | append_singleton rest last ih =>
      rw [← List.append_assoc] at h ⊢
      have hparts := List.nodup_append.mp h
      rw [EntityGraph.extendUnique_snoc, ih hparts.1, if_neg]
      intro hlast
      exact hparts.2.2 last hlast last (List.mem_singleton_self _) rfl

theorem extendUnique_eq_iff {ids more : List Uuid} (hids : ids.Nodup) :
    EntityGraph.extendUnique ids more = more ↔ more.Nodup ∧ ids <+: more := by
  constructor
  · intro h
    rw [← h]
    exact ⟨nodup_extendUnique hids more, prefix_extendUnique ids more⟩
  · rintro ⟨hnodup, rest, rfl⟩
    exact extendUnique_append ids rest hnodup

/-!
# The records of a saved document
-/

section

variable {blob : Type} [UuidText]

theorem blobOf_write_other {s : Uuid} {batch : List (Edit String (Record blob))}
    (h : forall e, e ∈ batch -> e.target ≠ sessionKey s) (db : Db blob) :
    blobOf (db.write batch) s = blobOf db s := by
  unfold blobOf
  rw [Database.get_write_other db h]

theorem persist_blob (db : Db blob) (session : ActiveSession) (b : blob)
    (explicit : List ContextUpdate) (removed : List Uuid) :
    blobOf (persistSession db session b explicit removed).1 session.metadata.id =
      some b := by
  unfold persistSession blobOf
  dsimp only
  rw [Database.write_append, Database.write_cons, Database.write_cons,
    Database.write_nil, Database.get_put_self]

theorem batch_index_some {db : Db blob} {s : Uuid} {ids : List Uuid}
    (h : indexOf db s = some ids) (updates : List ContextUpdate) :
    indexOf (batchSaveUpdates db s updates) s =
      some (EntityGraph.extendUnique ids (updates.map ContextUpdate.id)) := by
  have hputs : indexOf (db.write (putUpdates s updates)) s = some ids :=
    (indexOf_write_other (fun e he => putUpdates_ne_index s s updates he) db).trans h
  unfold batchSaveUpdates
  split
  · next hnil =>
    rw [hnil]
    exact h
  · rw [h]
    dsimp only
    split
    · next hlength =>
      have hsame := (prefix_extendUnique ids (updates.map ContextUpdate.id)).eq_of_length
        hlength.symm
      rw [hputs, ← hsame]
    · rw [Database.write_append, indexOf_write_other, Database.write_append]
      · exact indexOf_put _ _ _
      · intro e he
        split at he
        · rw [List.mem_singleton.mp he]
          exact metaKey_ne_indexKey _ _
        · cases he

variable [LawfulUuidText]

theorem batch_blob (db : Db blob) (s : Uuid) (updates : List ContextUpdate) :
    blobOf (batchSaveUpdates db s updates) s = blobOf db s := by
  have hput : forall e : Edit String (Record blob), e ∈ putUpdates s updates ->
      e.target ≠ sessionKey s := by
    intro e he
    obtain ⟨u, _, rfl⟩ := List.mem_map.mp he
    exact fun heq => sessionKey_ne_updateKey s s u.id heq.symm
  unfold batchSaveUpdates
  split
  · rfl
  · split
    · exact blobOf_write_other hput db
    · dsimp only
      split
      · exact blobOf_write_other hput db
      · apply blobOf_write_other
        intro e he
        rcases List.mem_append.mp he with he | hmeta
        · rcases List.mem_append.mp he with he | hindex
          · exact hput e he
          · rw [List.mem_singleton.mp hindex]
            exact indexKey_ne_sessionKey _ _
        · split at hmeta
          · rw [List.mem_singleton.mp hmeta]
            exact metaKey_ne_sessionKey _ _
          · cases hmeta

theorem batch_row (db : Db blob) (s : Uuid) {updates : List ContextUpdate}
    (hids : (updates.map ContextUpdate.id).Nodup) {w : ContextUpdate}
    (hw : w ∈ updates) :
    rowOf (batchSaveUpdates db s updates) s w.id = some w := by
  obtain ⟨w', hw', hid, hrow⟩ :=
    (batch_rows db s updates).put w hw List.not_mem_nil
  rw [hrow, List.inj_on_of_nodup_map hids hw' hw hid]

end

section

variable [UuidText]

def savedIds (stored : List Uuid) (e : ExportedSession) : List Uuid :=
  EntityGraph.extendUnique [] (stored ++ e.session.incrementalUpdates.map
    ContextUpdate.id)

/-- The updates of the document have different ids, and the stored ids with those
of the document's session are the first of them. -/
def GoesOn (stored : List Uuid) (e : ExportedSession) : Prop :=
  (e.updates.map ContextUpdate.id).Nodup ∧
    savedIds stored e <+: e.updates.map ContextUpdate.id

instance (stored : List Uuid) (e : ExportedSession) : Decidable (GoesOn stored e) :=
  inferInstanceAs (Decidable (_ ∧ _))

theorem saveExported_index (store : Store) (e : ExportedSession) :
    indexOf (saveExported store e).db e.id =
      some (EntityGraph.extendUnique
        (savedIds ((indexOf store.db e.id).getD []) e)
        (e.updates.map ContextUpdate.id)) := by
  have hsaved := persist_index store.db e.session
    (sessionBlob e.session e.vectorized) [] []
  have hids : indexedIds e.session
      ((indexOf store.db e.session.metadata.id).getD []) [] [] =
        savedIds ((indexOf store.db e.id).getD []) e := by
    simp [indexedIds, savedIds, ExportedSession.id]
  rw [hids] at hsaved
  exact batch_index_some hsaved e.updates

theorem saveExported_blob [LawfulUuidText] (store : Store) (e : ExportedSession) :
    blobOf (saveExported store e).db e.id =
      some (sessionBlob e.session e.vectorized) :=
  (batch_blob _ e.id e.updates).trans (persist_blob _ _ _ _ _)

theorem coherent_empty : Coherent (∅ : Db SessionBlob) := by
  intro s ids hids
  rw [indexOf, Std.ExtTreeMap.getElem?_empty] at hids
  cases hids

variable {store : Store}

theorem saveExported_coherent [LawfulUuidText] (h : Coherent store.db) (e : ExportedSession) :
    Coherent (saveExported store e).db :=
  batch_coherent (persist_coherent h _ _ _ _) _ _

variable {e : ExportedSession} {t : Uuid}

theorem saveExported_other [LawfulUuidText] (store : Store) (ht : e.id ≠ t) :
    SameRecords t store.db (saveExported store e).db := by
  have hsaved := persist_other store.db e.session
    (sessionBlob e.session e.vectorized) [] [] ht
  have happended := batch_other (persistSession store.db e.session
    (sessionBlob e.session e.vectorized) [] []).1 e.id e.updates ht
  exact ⟨happended.blobs.trans hsaved.blobs, happended.index.trans hsaved.index,
    fun u => (happended.rows u).trans (hsaved.rows u)⟩

/-!
# The rest of an import
-/

variable {s : Uuid} {db db' : Db SessionBlob}

theorem SameRecords.trans {db'' : Db SessionBlob} (h : SameRecords s db db')
    (h' : SameRecords s db' db'') :
    SameRecords s db db'' where
  blobs := h'.blobs.trans h.blobs
  index := h'.index.trans h.index
  rows := fun u => (h'.rows u).trans (h.rows u)

theorem importSession_other [LawfulUuidText] (options : ImportOptions)
    (state : Store × ImportResult) (ht : e.id ≠ t) :
    SameRecords t state.1.db (importSession options state e).1.db := by
  unfold importSession
  dsimp only
  split
  · exact SameRecords.refl t _
  · split
    · exact SameRecords.refl t _
    · split
      · exact SameRecords.refl t _
      · exact saveExported_other state.1 ht

theorem importSessions_other [LawfulUuidText] (options : ImportOptions) {es : List ExportedSession}
    (ht : t ∉ es.map ExportedSession.id) (state : Store × ImportResult) :
    SameRecords t state.1.db (es.foldl (importSession options) state).1.db := by
  induction es generalizing state with
  | nil =>
      exact SameRecords.refl t _
  | cons e rest ih =>
      rw [List.map_cons, List.mem_cons, not_or] at ht
      exact (importSession_other options state (Ne.symm ht.1)).trans (ih ht.2 _)

theorem hasPrefix_kind {kind : String} {k : String}
    (h : hasPrefix (sessionPrefix kind s) k = true) :
    hasPrefix kind k = true := by
  rw [hasPrefix_iff] at h ⊢
  refine List.IsPrefix.trans ?_ h
  rw [sessionPrefix, String.append_assoc, String.toList_append]
  exact List.prefix_append _ _

theorem membershipKey_kind (workspaceId sessionId : Uuid) :
    hasPrefix "ws_session:" (membershipKey workspaceId sessionId) = true := by
  apply hasPrefix_kind (s := workspaceId)
  rw [hasPrefix_iff, membershipKey, String.toList_append]
  exact List.prefix_append _ _

theorem membershipKey_foreign (workspaceId sessionId t : Uuid) :
    Foreign t (membershipKey workspaceId sessionId) :=
  membership_foreign (membershipKey_kind workspaceId sessionId)

theorem saveWorkspace_records (clock : ImportClock) (store : Store)
    (w : ExportedWorkspace) (t : Uuid) :
    SameRecords t store.db (saveWorkspace clock store w).db := by
  unfold saveWorkspace
  have hfold : forall (members : List (Uuid × SessionRole)) (store : Store),
      SameRecords t store.db (members.foldl
        (fun store m =>
          store.addSessionToWorkspace w.id m.1 m.2 (clock.addedAt w.id m.1))
        store).db := by
    intro members
    induction members with
    | nil =>
        exact fun store => SameRecords.refl t store.db
    | cons m rest ih =>
        intro store
        refine SameRecords.trans ?_ (ih _)
        apply sameRecords_write
        intro e he
        rw [List.mem_singleton.mp he]
        exact membershipKey_foreign w.id m.1 t
  exact hfold w.sessions (store.saveWorkspaceMetadata w.id w.name w.description
    (w.sessions.map Prod.fst) (clock.savedAt w.id))

theorem deleteWorkspace_records (store : Store) (workspaceId t : Uuid) :
    SameRecords t store.db (store.deleteWorkspace workspaceId).db := by
  apply sameRecords_write
  intro e he
  obtain ⟨k, hk, rfl⟩ := List.mem_map.mp he
  exact membership_foreign (hasPrefix_kind (Database.mem_keysWhere.mp hk).2)

theorem importWorkspace_records (clock : ImportClock) (options : ImportOptions)
    (state : Store × ImportResult) (w : ExportedWorkspace) (t : Uuid) :
    SameRecords t state.1.db (importWorkspace clock options state w).1.db := by
  unfold importWorkspace
  dsimp only
  split
  · exact SameRecords.refl t _
  · split
    · exact SameRecords.refl t _
    · split
      · exact SameRecords.refl t _
      · refine SameRecords.trans ?_ (saveWorkspace_records clock _ w t)
        split
        · exact deleteWorkspace_records _ _ t
        · exact SameRecords.refl t _

theorem imported_records (clock : ImportClock) (options : ImportOptions)
    (workspaces : List ExportedWorkspace)
    (checkpoints : List Legacy.SessionCheckpoint) (state : Store × ImportResult)
    (t : Uuid) :
    SameRecords t state.1.db (checkpoints.foldl importCheckpoint
      (workspaces.foldl (importWorkspace clock options) state)).1.db := by
  have hworkspaces : forall state : Store × ImportResult,
      SameRecords t state.1.db
        (workspaces.foldl (importWorkspace clock options) state).1.db := by
    induction workspaces with
    | nil =>
        exact fun state => SameRecords.refl t state.1.db
    | cons w rest ih =>
        exact fun state =>
          (importWorkspace_records clock options state w t).trans (ih _)
  have hcheckpoints : forall state : Store × ImportResult,
      (checkpoints.foldl importCheckpoint state).1.db = state.1.db := by
    induction checkpoints with
    | nil =>
        exact fun _ => rfl
    | cons c rest ih =>
        exact fun state => ih (importCheckpoint state c)
  rw [hcheckpoints]
  exact hworkspaces state

variable {data : ExportData} {options : ImportOptions}

theorem import_other [LawfulUuidText] {after : Store} {clock : ImportClock} {result : ImportResult}
    (ht : t ∉ data.sessions.map ExportedSession.id)
    (himport : importData clock store data options = Except.ok (after, result)) :
    SameRecords t store.db after.db := by
  unfold importData at himport
  split at himport
  · cases himport
  · have hsessions := importSessions_other options ht (store, ImportResult.empty)
    have hrest := imported_records clock options data.workspaces data.checkpoints
      (data.sessions.foldl (importSession options) (store, ImportResult.empty)) t
    rw [Except.ok.inj himport] at hrest
    exact hsessions.trans hrest

/-!
# What the session is after an import
-/

/-- A session of the document that is saved over a stored one. -/
structure Overwrites (store : Store) (data : ExportData) (options : ImportOptions)
    (e : ExportedSession) : Prop where
  compatible : isVersionCompatible data.formatVersion = true
  entry : e ∈ data.sessions
  once : (data.sessions.map ExportedSession.id).Nodup
  chosen : passes options.sessionFilter e.id = true
  stored : sessionExists store e.id = true
  overwrite : options.overwrite = true
  skipExisting : options.skipExisting = false

theorem importSession_saves (hchosen : passes options.sessionFilter e.id = true)
    (hoverwrite : options.overwrite = true) (hskip : options.skipExisting = false)
    (state : Store × ImportResult) :
    (importSession options state e).1 = saveExported state.1 e := by
  simp [importSession, hchosen, hoverwrite, hskip]

variable {state : Store × ImportResult}

variable [LawfulUuidText]

theorem importSession_coherent (h : Coherent state.1.db) (e : ExportedSession) :
    Coherent (importSession options state e).1.db := by
  unfold importSession
  dsimp only
  split
  · exact h
  · split
    · exact h
    · split
      · exact h
      · exact saveExported_coherent h e

theorem importSessions_coherent (es : List ExportedSession)
    (h : Coherent state.1.db) :
    Coherent (es.foldl (importSession options) state).1.db := by
  induction es generalizing state with
  | nil =>
      exact h
  | cons e rest ih =>
      exact ih (importSession_coherent h e)

theorem import_records (hcompatible : isVersionCompatible data.formatVersion = true)
    (hentry : e ∈ data.sessions)
    (honce : (data.sessions.map ExportedSession.id).Nodup)
    (hsaves : forall state : Store × ImportResult,
      SameRecords e.id store.db state.1.db ->
      (importSession options state e).1 = saveExported state.1 e)
    (hcoherent : Coherent store.db) (clock : ImportClock) :
    exists before after result, Coherent before.db ∧
      SameRecords e.id store.db before.db ∧
      importData clock store data options = Except.ok (after, result) ∧
      SameRecords e.id (saveExported before e).db after.db := by
  obtain ⟨xs, ys, hsplit⟩ := List.append_of_mem hentry
  rw [hsplit, List.map_append, List.map_cons, List.nodup_append] at honce
  have hxs : e.id ∉ xs.map ExportedSession.id := fun hmem =>
    honce.2.2 _ hmem _ List.mem_cons_self rfl
  have hys : e.id ∉ ys.map ExportedSession.id := (List.nodup_cons.mp honce.2.1).1
  let before := xs.foldl (importSession options) (store, ImportResult.empty)
  let saved := importSession options before e
  let sessions := ys.foldl (importSession options) saved
  let all := data.checkpoints.foldl importCheckpoint
    (data.workspaces.foldl (importWorkspace clock options) sessions)
  have hbefore : SameRecords e.id store.db before.1.db :=
    importSessions_other options hxs (store, ImportResult.empty)
  refine ⟨before.1, all.1, all.2, importSessions_coherent xs hcoherent, hbefore,
    ?_, ?_⟩
  · unfold importData
    rw [hcompatible, hsplit, List.foldl_append]
    rfl
  · have hsaved : saved.1 = saveExported before.1 e := hsaves before hbefore
    rw [← hsaved]
    exact (importSessions_other options hys saved).trans
      (imported_records clock options data.workspaces data.checkpoints sessions e.id)

variable [CharTables]

def loadedUpdates (now : Timestamp) (db : Db SessionBlob) (s : Uuid) :
    Option (List ContextUpdate) :=
  match (loadSession now db s).2 with
  | Except.error _ => none
  | Except.ok loaded => some loaded.1.incrementalUpdates

omit [LawfulUuidText] in
theorem SameRecords.loadedUpdates (h : SameRecords s db db') (now : Timestamp) :
    Storage.loadedUpdates now db' s = Storage.loadedUpdates now db s := by
  have hrows : rowOf db' s = rowOf db s := funext h.rows
  have hread : readAt now db' s = readAt now db s := by
    unfold readAt readSession
    rw [h.blobs, h.index, hrows]
  unfold Storage.loadedUpdates loadSession
  rw [hread]
  cases readAt now db s with
  | error _ => rfl
  | ok found =>
      cases found with
      | none | some loaded => rfl

omit [LawfulUuidText] in
theorem loadedUpdates_current (h : Coherent db) {session : ActiveSession}
    {vectorized ids : List Uuid}
    (hblob : blobOf db s = some (sessionBlob session vectorized))
    (hids : indexOf db s = some ids) (now : Timestamp) :
    exists updates, loadedUpdates now db s = some updates ∧
      updates.map some = ids.map (rowOf db s) ∧
      updates.map ContextUpdate.id = ids := by
  let data := serialize { session with incrementalUpdates := [] } vectorized
  obtain ⟨loaded, hread, hrows, hloaded⟩ :=
    @read_current SessionBlob _ _ (blobJson now []) db h s (Except.ok data)
      (deserialize now data).1 ids hblob rfl rfl hids
  refine ⟨loaded.incrementalUpdates, ?_, hrows, hloaded⟩
  unfold loadedUpdates loadSession readAt
  rw [hread]

/-- After an overwriting import a session has the updates of the document exactly
when these go on from the stored ones. -/
theorem overwriting_replaces {store : Store} {data : ExportData}
    {options : ImportOptions} {e : ExportedSession} (hcoherent : Coherent store.db)
    (h : Overwrites store data options e) (clock : ImportClock) (now : Timestamp) :
    exists after result,
      importData clock store data options = Except.ok (after, result) ∧
      (loadedUpdates now after.db e.id = some e.updates ↔
        GoesOn ((indexOf store.db e.id).getD []) e) := by
  obtain ⟨before, after, result, hbefore, hsame, himport, hafter⟩ :=
    import_records h.compatible h.entry h.once
      (fun state _ => importSession_saves h.chosen h.overwrite h.skipExisting state)
      hcoherent clock
  refine ⟨after, result, himport, ?_⟩
  have hindex := saveExported_index before e
  rw [hsame.index] at hindex
  generalize hstored : (indexOf store.db e.id).getD [] = stored at hindex ⊢
  have hsaved : (savedIds stored e).Nodup := nodup_extendUnique List.nodup_nil _
  obtain ⟨updates, hload, hrows, hids⟩ := loadedUpdates_current
    (saveExported_coherent hbefore e) (saveExported_blob before e) hindex now
  rw [hafter.loadedUpdates, hload, Option.some_inj, GoesOn,
    ← extendUnique_eq_iff hsaved, ← hids]
  constructor
  · intro hsame
    rw [hsame]
  · intro hsame
    have hnodup : (e.updates.map ContextUpdate.id).Nodup := by
      rw [← hsame, hids]
      exact nodup_extendUnique hsaved _
    apply List.map_injective_iff.mpr (Option.some_injective _)
    rw [hrows, ← hids, hsame, List.map_map]
    apply List.map_congr_left
    intro w hw
    exact batch_row _ e.id hnodup hw

end

/-!
# Two documents
-/

section

attribute [local instance] EntityGraph.asciiTables hyphenatedText
  lawful_hyphenatedText

def plainExported (updates : List Uuid) : ExportedSession where
  session := plainSession 7 updates
  vectorized := []
  updates := (plainSession 7 updates).incrementalUpdates

def plainStore (updates : List Uuid) : Store :=
  saveExported Store.empty (plainExported updates)

def plainData (updates : List Uuid) : ExportData where
  formatVersion := exportFormatVersion
  metadata :=
    { sessionCount := 1
      workspaceCount := 0
      updateCount := updates.length
      checkpointCount := 0
      embeddingCount := 0 }
  sessions := [plainExported updates]
  workspaces := []
  checkpoints := []
  embeddings := []

def overwritingOptions : ImportOptions where
  sessionFilter := none
  workspaceFilter := none
  skipExisting := false
  overwrite := true

def plainClock : ImportClock where
  savedAt := fun _ => 5
  addedAt := fun _ _ => 5

theorem exportFormatVersion_compatible :
    isVersionCompatible exportFormatVersion = true := by
  decide +kernel

theorem plainStore_coherent (updates : List Uuid) :
    Coherent (plainStore updates).db := by
  have hempty : Coherent Store.empty.db := coherent_empty
  exact saveExported_coherent hempty _

theorem plain_overwrites (stored updates : List Uuid) :
    Overwrites (plainStore stored) (plainData updates) overwritingOptions
      (plainExported updates) where
  compatible := exportFormatVersion_compatible
  entry := List.mem_singleton_self _
  once := List.nodup_singleton _
  chosen := rfl
  stored := by
    have hblob := saveExported_blob Store.empty (plainExported stored)
    show (blobOf (saveExported Store.empty (plainExported stored)).db
      (plainExported stored).id).isSome = true
    rw [hblob]
    rfl
  overwrite := rfl
  skipExisting := rfl

theorem importData_plain (store : Store) (updates : List Uuid) :
    importData plainClock store (plainData updates) overwritingOptions =
      Except.ok (importSession overwritingOptions (store, ImportResult.empty)
        (plainExported updates)) := by
  unfold importData
  rw [show (plainData updates).formatVersion = exportFormatVersion from rfl,
    exportFormatVersion_compatible]
  rfl

/-- A session that has grown since. -/
theorem overwriting_replaces_grown :
    exists after result,
      importData plainClock (plainStore [1]) (plainData [1, 2])
        overwritingOptions = Except.ok (after, result) ∧
      loadedUpdates 0 after.db 7 = some (plainExported [1, 2]).updates := by
  obtain ⟨after, result, himport, hiff⟩ := overwriting_replaces
    (plainStore_coherent [1]) (plain_overwrites [1] [1, 2]) plainClock 0
  have hgoes : GoesOn ((indexOf (plainStore [1]).db 7).getD [])
      (plainExported [1, 2]) := by
    decide +kernel
  exact ⟨after, result, himport, hiff.mpr hgoes⟩

/-- The row of an update that the document does not have stays. -/
theorem overwriting_keeps_rows :
    ¬ forall (store : Store) (data : ExportData) (options : ImportOptions)
      (e : ExportedSession), Coherent store.db -> Overwrites store data options e ->
      forall (clock : ImportClock) (now : Timestamp) (after : Store)
        (result : ImportResult),
        importData clock store data options = Except.ok (after, result) ->
        loadedUpdates now after.db e.id = some e.updates := by
  intro hall
  obtain ⟨imported, himported⟩ : exists imported,
      imported = importSession overwritingOptions
        (plainStore [1], ImportResult.empty) (plainExported [2]) :=
    ⟨_, rfl⟩
  have himport := importData_plain (plainStore [1]) [2]
  rw [← himported] at himport
  have hsaved : imported.1 = saveExported (plainStore [1]) (plainExported [2]) := by
    rw [himported]
    exact importSession_saves rfl rfl rfl _
  have hupdates := hall _ _ _ (plainExported [2]) (plainStore_coherent [1])
    (plain_overwrites [1] [2]) plainClock 0 imported.1 imported.2 himport
  rw [hsaved] at hupdates
  have hids := congrArg (Option.map (List.map ContextUpdate.id)) hupdates
  revert hids
  decide +kernel

end

end Storage
end PostCortex
