import PostCortex.Graph.AliasResolution
import PostCortex.Storage.SessionRows

/-!
# Coherence of the session rows

Every id of an index has a row, and no id stands in an index twice.  One lemma
for each operation says what it makes of the blob, the rows and the index of
its session; the records of the other sessions have other keys.
-/

namespace PostCortex
namespace Storage

open PostCortex.Core
open PostCortex.Graph
open KeyValue
open Session
open Transition

/-!
# Lists of ids without repetition
-/

theorem nodup_extendUnique {ids : List Uuid} (hids : ids.Nodup)
    (more : List Uuid) :
    (EntityGraph.extendUnique ids more).Nodup := by
  induction more using List.reverseRecOn with
  | nil =>
      exact hids
  | append_singleton more last ih =>
      rw [EntityGraph.extendUnique_snoc]
      split
      · exact ih
      · next hmem =>
        refine List.nodup_append.mpr ⟨ih, List.nodup_singleton _, ?_⟩
        intro x hx y hy hxy
        rw [List.mem_singleton.mp hy] at hxy
        exact hmem (hxy ▸ hx)

theorem mem_indexedIds {session : ActiveSession} {stored : List Uuid}
    {explicit : List ContextUpdate} {removed : List Uuid} {u : Uuid} :
    u ∈ indexedIds session stored explicit removed ↔
      (u ∈ stored ∨ (exists w, w ∈ session.incrementalUpdates ∧ w.id = u) ∨
        exists w, w ∈ explicit ∧ w.id = u) ∧ u ∉ removed := by
  rw [indexedIds, EntityGraph.mem_extendUnique]
  simp only [List.not_mem_nil, false_or, List.mem_filter, List.mem_append,
    List.mem_map, decide_eq_true_eq, or_assoc]

/-!
# Keys of one session
-/

theorem index_apart : Apart "session_updates:" "session:" := by
  decide

theorem meta_apart : Apart "session_meta:" "session:" := by
  decide

section

variable {blob : Type} [UuidText]

/-- An edit of this key leaves the blob, the rows and the index of the session
as they are. -/
structure Foreign (s : Uuid) (k : String) : Prop where
  session : k ≠ sessionKey s
  index : k ≠ updateIndexKey s
  update : forall u, k ≠ updateKey s u

/-- The records of the session are the same in both databases. -/
structure SameRecords (s : Uuid) (db db' : Db blob) : Prop where
  blobs : blobOf db' s = blobOf db s
  index : indexOf db' s = indexOf db s
  rows : forall u, rowOf db' s u = rowOf db s u

theorem SameRecords.refl (s : Uuid) (db : Db blob) : SameRecords s db db where
  blobs := rfl
  index := rfl
  rows := fun _ => rfl

variable {s : Uuid} {batch : List (Edit String (Record blob))}

theorem sameRecords_write (h : forall e, e ∈ batch -> Foreign s e.target)
    (db : Db blob) :
    SameRecords s db (db.write batch) where
  blobs := by
    unfold blobOf
    rw [Database.get_write_other db (fun e he => (h e he).session)]
  index := by
    unfold indexOf
    rw [Database.get_write_other db (fun e he => (h e he).index)]
  rows := by
    intro u
    unfold rowOf
    rw [Database.get_write_other db (fun e he => (h e he).update u)]

theorem sessionKey_eq (s : Uuid) :
    sessionKey s = "session:" ++ UuidText.toText s ++ "" := by
  simp [sessionKey]

theorem indexKey_ne_sessionKey (s t : Uuid) :
    updateIndexKey s ≠ sessionKey t :=
  index_apart.ne _ _

theorem indexKey_ne_updateKey (s t u : Uuid) :
    updateIndexKey s ≠ updateKey t u := by
  rw [updateKey_eq, String.append_assoc]
  exact index_apart.ne _ _

theorem metaKey_ne_sessionKey (s t : Uuid) :
    metaKey s ≠ sessionKey t :=
  meta_apart.ne _ _

theorem metaKey_ne_updateKey (s t u : Uuid) :
    metaKey s ≠ updateKey t u := by
  rw [updateKey_eq, String.append_assoc]
  exact meta_apart.ne _ _

theorem metaKey_ne_indexKey (s t : Uuid) :
    metaKey s ≠ updateIndexKey t := by
  have hapart : Apart "session_meta:" "session_updates:" := by
    decide
  exact hapart.ne _ _

theorem metaKey_foreign (s t : Uuid) :
    Foreign t (metaKey s) where
  session := metaKey_ne_sessionKey s t
  index := metaKey_ne_indexKey s t
  update := metaKey_ne_updateKey s t

/-!
# Reading after a batch
-/

/-- What an operation makes of the rows of a session: the removed are gone,
the written are there, the others are as they were. -/
structure RowsWritten (s : Uuid) (removed : List Uuid)
    (written : List ContextUpdate) (db db' : Db blob) : Prop where
  gone : forall u, u ∈ removed -> rowOf db' s u = none
  put : forall w, w ∈ written -> w.id ∉ removed ->
    exists w', w' ∈ written ∧ w'.id = w.id ∧ rowOf db' s w.id = some w'
  kept : forall u, u ∉ removed -> (forall w, w ∈ written -> w.id ≠ u) ->
    rowOf db' s u = rowOf db s u

variable {db db' : Db blob} {removed : List Uuid} {written : List ContextUpdate}

theorem RowsWritten.deletes {u : Uuid} {w : ContextUpdate}
    (h : RowsWritten s removed written db db') (hw : rowOf db s u = some w)
    (hgone : rowOf db' s u = none) :
    u ∈ removed := by
  by_contra hremoved
  by_cases hwritten : exists x, x ∈ written ∧ x.id = u
  · obtain ⟨x, hx, rfl⟩ := hwritten
    obtain ⟨x', _, _, hrow⟩ := h.put x hx hremoved
    rw [hgone] at hrow
    cases hrow
  · have hkept := h.kept u hremoved (fun x hx hxu => hwritten ⟨x, hx, hxu⟩)
    rw [hgone, hw] at hkept
    cases hkept

theorem rowOf_write_other {u : Uuid}
    (h : forall e, e ∈ batch -> e.target ≠ updateKey s u) (db : Db blob) :
    rowOf (db.write batch) s u = rowOf db s u := by
  unfold rowOf
  rw [Database.get_write_other db h]

theorem indexOf_put (db : Db blob) (s : Uuid) (ids : List Uuid) :
    indexOf (db.write
      [Edit.put (updateIndexKey s) (Record.updateIndex ids)]) s = some ids := by
  unfold indexOf
  rw [Database.write_cons, Database.write_nil, Database.get_put_self]

theorem indexOf_write_other (h : forall e, e ∈ batch -> e.target ≠ updateIndexKey s)
    (db : Db blob) :
    indexOf (db.write batch) s = indexOf db s := by
  unfold indexOf
  rw [Database.get_write_other db h]

variable {e : Edit String (Record blob)}

theorem putUpdates_ne_index (s t : Uuid) (updates : List ContextUpdate)
    (he : e ∈ putUpdates s updates) :
    e.target ≠ updateIndexKey t := by
  obtain ⟨u, _, rfl⟩ := List.mem_map.mp he
  exact fun heq => indexKey_ne_updateKey t s u.id heq.symm

theorem deleteRows_ne_index (s t : Uuid) (removed : List Uuid)
    (he : e ∈ Database.deletes (removed.map (updateKey s))) :
    e.target ≠ updateIndexKey t := by
  obtain ⟨k, hk, rfl⟩ := List.mem_map.mp he
  obtain ⟨u, _, rfl⟩ := List.mem_map.mp hk
  exact fun heq => indexKey_ne_updateKey t s u heq.symm

def Coherent (db : Db blob) : Prop :=
  forall s ids, indexOf db s = some ids ->
    ids.Nodup ∧ forall u, u ∈ ids -> exists w, rowOf db s u = some w ∧ w.id = u

theorem coherent_of (h : Coherent db)
    (hothers : forall t, s ≠ t -> SameRecords t db db')
    (hown : forall ids, indexOf db' s = some ids ->
      ids.Nodup ∧
        forall u, u ∈ ids -> exists w, rowOf db' s u = some w ∧ w.id = u) :
    Coherent db' := by
  intro t ids hids
  by_cases hst : s = t
  · subst hst
    exact hown ids hids
  · have hsame := hothers t hst
    rw [hsame.index] at hids
    obtain ⟨hnodup, hrows⟩ := h t ids hids
    refine ⟨hnodup, fun u hu => ?_⟩
    rw [hsame.rows]
    exact hrows u hu

theorem persist_index (db : Db blob) (session : ActiveSession) (b : blob)
    (explicit : List ContextUpdate) (removed : List Uuid) :
    indexOf (persistSession db session b explicit removed).1
        session.metadata.id =
      some (indexedIds session ((indexOf db session.metadata.id).getD [])
        explicit removed) := by
  have hlast : forall e, e ∈ [Edit.put (metaKey session.metadata.id)
        (Record.summary (SessionSummary.fromSession session) : Record blob),
      Edit.put (sessionKey session.metadata.id) (Record.session b)] ->
      e.target ≠ updateIndexKey session.metadata.id := by
    intro e he
    rcases List.mem_cons.mp he with rfl | he
    · exact metaKey_ne_indexKey _ _
    · rw [List.mem_singleton.mp he]
      exact fun heq => indexKey_ne_sessionKey _ _ heq.symm
  unfold persistSession
  dsimp only
  rw [Database.write_append, indexOf_write_other hlast, Database.write_append]
  split
  · next hsame =>
    rw [Database.write_nil, ← hsame]
    apply indexOf_write_other
    intro e he
    rcases List.mem_append.mp he with hput | hdelete
    · exact putUpdates_ne_index _ _ _ hput
    · exact deleteRows_ne_index _ _ _ hdelete
  · exact indexOf_put _ _ _

theorem batch_index (db : Db blob) (s : Uuid) (updates : List ContextUpdate) :
    indexOf (batchSaveUpdates db s updates) s = indexOf db s ∨
      exists ids, indexOf db s = some ids ∧
        indexOf (batchSaveUpdates db s updates) s =
          some (EntityGraph.extendUnique ids (updates.map ContextUpdate.id)) := by
  have hputs : indexOf (db.write (putUpdates s updates)) s = indexOf db s :=
    indexOf_write_other (fun e he => putUpdates_ne_index s s updates he) db
  unfold batchSaveUpdates
  split
  · exact Or.inl rfl
  · split
    · exact Or.inl hputs
    · next ids hindex =>
      dsimp only
      split
      · exact Or.inl hputs
      · refine Or.inr ⟨ids, hindex, ?_⟩
        rw [Database.write_append, indexOf_write_other, Database.write_append]
        · exact indexOf_put _ _ _
        · intro e he
          split at he
          · rw [List.mem_singleton.mp he]
            exact metaKey_ne_indexKey _ _
          · cases he

/-- The keys of the records that `delete_session` deletes. -/
def deletedKeys (db : Db blob) (s : Uuid) : List String :=
  [sessionKey s, updateIndexKey s, metaKey s, messageNextKey s] ++
    (sessionPrefixes s).flatMap (fun p => db.keysWhere (hasPrefix p)) ++
    (db.keysWhere (hasPrefix "ws_session:")).filter
      (fun k => isMembershipOf s db[k]?)

theorem deleteSession_eq (db : Db blob) (s : Uuid) :
    deleteSession db s = db.write (Database.deletes (deletedKeys db s)) := by
  simp only [deleteSession, deletedKeys, Database.deletes, List.map_append]

theorem get_deleteSession (db : Db blob) (s : Uuid) (k : String) :
    (deleteSession db s)[k]? = if k ∈ deletedKeys db s then none else db[k]? := by
  rw [deleteSession_eq, Database.get_write_deletes]

variable {k : String}

theorem get_deleteSession_prefixed (db : Db blob) (s : Uuid) (kind : String)
    (hkind : sessionPrefix kind s ∈ sessionPrefixes s)
    (hk : hasPrefix (sessionPrefix kind s) k = true) :
    (deleteSession db s)[k]? = none := by
  rw [get_deleteSession]
  split
  · rfl
  · next hnot =>
    cases hget : db[k]? with
    | none => rfl
    | some r =>
        refine absurd ?_ hnot
        rw [deletedKeys, List.mem_append, List.mem_append]
        refine Or.inl (Or.inr (List.mem_flatMap.mpr ⟨_, hkind, ?_⟩))
        rw [Database.mem_keysWhere, hget]
        exact ⟨rfl, hk⟩

variable {t : Uuid}

theorem membership_foreign (hk : hasPrefix "ws_session:" k = true) :
    Foreign t k := by
  have happend : forall p k : String, hasPrefix p k = hasPrefix (p ++ "") k := by
    intro p k
    rw [String.append_empty]
  have hsession : Apart "ws_session:" "session:" := by
    decide
  have hindex : Apart "ws_session:" "session_updates:" := by
    decide
  rw [happend] at hk
  constructor
  · rintro rfl
    unfold sessionKey at hk
    rw [hsession.hasPrefix] at hk
    cases hk
  · rintro rfl
    unfold updateIndexKey at hk
    rw [hindex.hasPrefix] at hk
    cases hk
  · rintro u rfl
    rw [updateKey_eq, String.append_assoc, hsession.hasPrefix] at hk
    cases hk

theorem nextKey_foreign (s t : Uuid) :
    Foreign t (messageNextKey s) := by
  have hsession : Apart "message_next:" "session:" := by
    decide
  have hindex : Apart "message_next:" "session_updates:" := by
    decide
  constructor
  · exact hsession.ne _ _
  · exact hindex.ne _ _
  · intro u
    rw [updateKey_eq, String.append_assoc]
    exact hsession.ne _ _

theorem delete_index (db : Db blob) (s : Uuid) :
    indexOf (deleteSession db s) s = none := by
  unfold indexOf
  rw [get_deleteSession, if_pos (by simp [deletedKeys])]

theorem delete_blob (db : Db blob) (s : Uuid) :
    blobOf (deleteSession db s) s = none := by
  unfold blobOf
  rw [get_deleteSession, if_pos (by simp [deletedKeys])]

variable [LawfulUuidText]

theorem sessionKey_ne_updateKey (s t u : Uuid) :
    sessionKey s ≠ updateKey t u := by
  rw [sessionKey_eq, updateKey_eq]
  intro h
  have hrest := congrArg String.length (id_of_append h).2
  rw [String.length_append] at hrest
  have hcolon : ":update:".length = 8 := by
    decide
  simp only [String.length_empty] at hrest
  omega

theorem sessionKey_inj (h : sessionKey s = sessionKey t) :
    s = t := by
  rw [sessionKey_eq, sessionKey_eq] at h
  exact (id_of_append h).1

theorem updateIndexKey_inj (h : updateIndexKey s = updateIndexKey t) :
    s = t := by
  unfold updateIndexKey at h
  exact toText_inj ((String.append_right_inj _).mp h)

theorem sessionKey_foreign (h : s ≠ t) :
    Foreign t (sessionKey s) where
  session := fun heq => h (sessionKey_inj heq)
  index := fun heq => indexKey_ne_sessionKey t s heq.symm
  update := sessionKey_ne_updateKey s t

theorem updateIndexKey_foreign (h : s ≠ t) :
    Foreign t (updateIndexKey s) where
  session := indexKey_ne_sessionKey s t
  index := fun heq => h (updateIndexKey_inj heq)
  update := indexKey_ne_updateKey s t

theorem updateKey_foreign (h : s ≠ t) (u : Uuid) :
    Foreign t (updateKey s u) where
  session := fun heq => sessionKey_ne_updateKey t s u heq.symm
  index := fun heq => indexKey_ne_updateKey t s u heq.symm
  update := fun _ heq => h (updateKey_inj heq).1

/-!
# Saving
-/

theorem puts_foreign (h : s ≠ t) (updates : List ContextUpdate)
    (he : e ∈ putUpdates s updates) :
    Foreign t e.target := by
  obtain ⟨u, _, rfl⟩ := List.mem_map.mp he
  exact updateKey_foreign h u.id

theorem rowOf_putUpdates (db : Db blob) (s : Uuid) (written : List ContextUpdate)
    (u : Uuid) :
    rowOf (db.write (putUpdates s written)) s u =
      (Database.lastWith ContextUpdate.id u written).or (rowOf db s u) := by
  have hkeys : forall w : ContextUpdate,
      decide (updateKey s w.id = updateKey s u) = decide (w.id = u) :=
    fun w => decide_eq_decide.mpr
      ⟨fun h => (updateKey_inj h).2, fun h => congrArg (updateKey s) h⟩
  have hlast : Database.lastWith (fun w : ContextUpdate => updateKey s w.id)
      (updateKey s u) written = Database.lastWith ContextUpdate.id u written := by
    unfold Database.lastWith
    congr 1
    funext w
    exact hkeys w
  unfold rowOf
  rw [putUpdates, Database.get_write_puts_last, hlast]
  cases Database.lastWith ContextUpdate.id u written with
  | none | some w => rfl

/-- The rows of a session, one for one: the removed are gone, the written as they
were written last, the others as they were. -/
def RowsExactly (s : Uuid) (removed : List Uuid) (written : List ContextUpdate)
    (db db' : Db blob) : Prop :=
  forall u, rowOf db' s u =
    if u ∈ removed then none
    else (Database.lastWith ContextUpdate.id u written).or (rowOf db s u)

omit [LawfulUuidText] in
theorem RowsExactly.rows (h : RowsExactly s removed written db db') :
    RowsWritten s removed written db db' where
  gone := by
    intro u hu
    rw [h, if_pos hu]
  put := by
    intro w hw hremoved
    cases hlast : Database.lastWith ContextUpdate.id w.id written with
    | none =>
        exact absurd rfl (Database.lastWith_eq_none.mp hlast w hw)
    | some w' =>
        obtain ⟨hmem, hid⟩ := Database.lastWith_some hlast
        exact ⟨w', hmem, hid, by rw [h, if_neg hremoved, hlast, Option.some_or]⟩
  kept := by
    intro u hremoved hwritten
    rw [h, if_neg hremoved, Database.lastWith_eq_none.mpr hwritten, Option.none_or]

theorem rows_exactly (db : Db blob) (s : Uuid) (removed : List Uuid)
    (written : List ContextUpdate) {rest : List (Edit String (Record blob))}
    (hrest : forall e, e ∈ rest -> forall u, e.target ≠ updateKey s u) :
    RowsExactly s removed written db
      (db.write (putUpdates s written ++
        Database.deletes (removed.map (updateKey s)) ++ rest)) := by
  intro u
  have hmem : updateKey s u ∈ removed.map (updateKey s) ↔ u ∈ removed := by
    constructor
    · intro h
      obtain ⟨v, hv, hkey⟩ := List.mem_map.mp h
      rw [← (updateKey_inj hkey).2]
      exact hv
    · exact List.mem_map_of_mem
  rw [Database.write_append, rowOf_write_other (fun e he => hrest e he u),
    Database.write_append, ← rowOf_putUpdates]
  unfold rowOf
  rw [Database.get_write_deletes]
  by_cases hu : u ∈ removed
  · rw [if_pos (hmem.mpr hu), if_pos hu]
  · rw [if_neg (fun hk => hu (hmem.mp hk)), if_neg hu]

theorem persist_exactly (db : Db blob) (session : ActiveSession) (b : blob)
    (explicit : List ContextUpdate) (removed : List Uuid) :
    RowsExactly session.metadata.id removed
      (writtenUpdates session ((indexOf db session.metadata.id).getD [])
        explicit removed) db
      (persistSession db session b explicit removed).1 := by
  unfold persistSession
  dsimp only
  rw [List.append_assoc]
  apply rows_exactly
  intro e he u
  rcases List.mem_append.mp he with hindex | hlast
  · split at hindex
    · cases hindex
    · rw [List.mem_singleton.mp hindex]
      exact indexKey_ne_updateKey _ _ _
  · rcases List.mem_cons.mp hlast with rfl | hlast
    · exact metaKey_ne_updateKey _ _ _
    · rw [List.mem_singleton.mp hlast]
      exact sessionKey_ne_updateKey _ _ _

theorem persist_rows (db : Db blob) (session : ActiveSession) (b : blob)
    (explicit : List ContextUpdate) (removed : List Uuid) :
    RowsWritten session.metadata.id removed
      (writtenUpdates session ((indexOf db session.metadata.id).getD [])
        explicit removed) db
      (persistSession db session b explicit removed).1 :=
  (persist_exactly db session b explicit removed).rows

theorem persist_other (db : Db blob) (session : ActiveSession) (b : blob)
    (explicit : List ContextUpdate) (removed : List Uuid)
    (ht : session.metadata.id ≠ t) :
    SameRecords t db (persistSession db session b explicit removed).1 := by
  unfold persistSession
  dsimp only
  apply sameRecords_write
  intro e he
  rcases List.mem_append.mp he with he | hlast
  · rcases List.mem_append.mp he with he | hindex
    · rcases List.mem_append.mp he with hput | hdelete
      · exact puts_foreign ht _ hput
      · obtain ⟨k, hk, rfl⟩ := List.mem_map.mp hdelete
        obtain ⟨u, _, rfl⟩ := List.mem_map.mp hk
        exact updateKey_foreign ht u
    · split at hindex
      · cases hindex
      · rw [List.mem_singleton.mp hindex]
        exact updateIndexKey_foreign ht
  · rcases List.mem_cons.mp hlast with rfl | hlast
    · exact metaKey_foreign _ _
    · rw [List.mem_singleton.mp hlast]
      exact sessionKey_foreign ht

theorem persist_coherent (h : Coherent db) (session : ActiveSession) (b : blob)
    (explicit : List ContextUpdate) (removed : List Uuid) :
    Coherent (persistSession db session b explicit removed).1 := by
  have hrows := persist_rows db session b explicit removed
  refine coherent_of h
    (fun t ht => persist_other db session b explicit removed ht) ?_
  intro ids hids
  rw [persist_index] at hids
  cases hids
  refine ⟨nodup_extendUnique List.nodup_nil _, fun u hu => ?_⟩
  obtain ⟨hfrom, hkept⟩ := mem_indexedIds.mp hu
  by_cases hwritten : exists w, w ∈ writtenUpdates session
      ((indexOf db session.metadata.id).getD []) explicit removed ∧ w.id = u
  · obtain ⟨w, hw, rfl⟩ := hwritten
    obtain ⟨w', _, hid, hrow⟩ := hrows.put w hw hkept
    exact ⟨w', hrow, hid⟩
  · have hnone : forall w, w ∈ writtenUpdates session
        ((indexOf db session.metadata.id).getD []) explicit removed ->
        w.id ≠ u := fun w hw hid => hwritten ⟨w, hw, hid⟩
    rw [hrows.kept u hkept hnone]
    -- Not written, so the index listed it before.
    have hstored : u ∈ (indexOf db session.metadata.id).getD [] := by
      by_contra hnew
      rcases hfrom with hstored | ⟨w, hw, rfl⟩ | ⟨w, hw, rfl⟩
      · exact hnew hstored
      · by_cases hexplicit : w.id ∈ explicit.map ContextUpdate.id
        · obtain ⟨x, hx, hid⟩ := List.mem_map.mp hexplicit
          refine hnone x (List.mem_append_left _ ?_) hid
          rw [List.mem_filter]
          exact ⟨hx, by simpa [hid] using hkept⟩
        · refine hnone w (List.mem_append_right _ ?_) rfl
          rw [List.mem_filter]
          exact ⟨hw, by simpa using ⟨hnew, by simpa using hexplicit, hkept⟩⟩
      · refine hnone w (List.mem_append_left _ ?_) rfl
        rw [List.mem_filter]
        exact ⟨hw, by simpa using hkept⟩
    cases hindex : indexOf db session.metadata.id with
    | none =>
        rw [hindex] at hstored
        cases hstored
    | some old =>
        rw [hindex] at hstored
        exact (h _ old hindex).2 u hstored

/-!
# Appending rows
-/

theorem batch_exactly (db : Db blob) (s : Uuid) (updates : List ContextUpdate) :
    RowsExactly s [] updates db (batchSaveUpdates db s updates) := by
  have hrest : forall rest : List (Edit String (Record blob)),
      (forall e, e ∈ rest -> forall u, e.target ≠ updateKey s u) ->
      RowsExactly s [] updates db
        (db.write (putUpdates s updates ++ rest)) := by
    intro rest h
    have hrows := rows_exactly db s [] updates h
    rwa [List.map_nil, Database.deletes, List.map_nil, List.append_nil] at hrows
  have hputs : RowsExactly s [] updates db
      (db.write (putUpdates s updates)) := by
    have hrows := hrest [] (fun e he => by cases he)
    rwa [List.append_nil] at hrows
  unfold batchSaveUpdates
  split
  · next hnil =>
    subst hnil
    exact fun u => by rw [if_neg List.not_mem_nil]; rfl
  · split
    · exact hputs
    · dsimp only
      split
      · exact hputs
      · rw [List.append_assoc]
        apply hrest
        intro e he u
        rcases List.mem_append.mp he with hindex | hmeta
        · rw [List.mem_singleton.mp hindex]
          exact indexKey_ne_updateKey _ _ _
        · split at hmeta
          · rw [List.mem_singleton.mp hmeta]
            exact metaKey_ne_updateKey _ _ _
          · cases hmeta

theorem batch_rows (db : Db blob) (s : Uuid) (updates : List ContextUpdate) :
    RowsWritten s [] updates db (batchSaveUpdates db s updates) :=
  (batch_exactly db s updates).rows

theorem batch_other (db : Db blob) (s : Uuid) (updates : List ContextUpdate)
    (ht : s ≠ t) :
    SameRecords t db (batchSaveUpdates db s updates) := by
  have hputs : SameRecords t db (db.write (putUpdates s updates)) :=
    sameRecords_write (fun e he => puts_foreign ht updates he) db
  unfold batchSaveUpdates
  split
  · exact SameRecords.refl t db
  · split
    · exact hputs
    · dsimp only
      split
      · exact hputs
      · apply sameRecords_write
        intro e he
        rcases List.mem_append.mp he with he | hmeta
        · rcases List.mem_append.mp he with hput | hindex
          · exact puts_foreign ht updates hput
          · rw [List.mem_singleton.mp hindex]
            exact updateIndexKey_foreign ht
        · split at hmeta
          · rw [List.mem_singleton.mp hmeta]
            exact metaKey_foreign _ _
          · cases hmeta

theorem batch_coherent (h : Coherent db) (s : Uuid) (updates : List ContextUpdate) :
    Coherent (batchSaveUpdates db s updates) := by
  have hrows := batch_rows db s updates
  have hrow : forall u w, rowOf db s u = some w -> w.id = u ->
      exists w, rowOf (batchSaveUpdates db s updates) s u = some w ∧
        w.id = u := by
    intro u w hw hid
    by_cases hwritten : exists x, x ∈ updates ∧ x.id = u
    · obtain ⟨x, hx, rfl⟩ := hwritten
      obtain ⟨x', _, hid', hrow⟩ := hrows.put x hx List.not_mem_nil
      exact ⟨x', hrow, hid'⟩
    · refine ⟨w, ?_, hid⟩
      rw [hrows.kept u List.not_mem_nil
        (fun x hx hxu => hwritten ⟨x, hx, hxu⟩), hw]
  refine coherent_of h (fun t ht => batch_other db s updates ht) ?_
  intro ids hids
  rcases batch_index db s updates with hsame | ⟨old, hold, hnew⟩
  · rw [hsame] at hids
    obtain ⟨hnodup, hall⟩ := h s ids hids
    refine ⟨hnodup, fun u hu => ?_⟩
    obtain ⟨w, hw, hid⟩ := hall u hu
    exact hrow u w hw hid
  · rw [hnew] at hids
    cases hids
    obtain ⟨hnodup, hall⟩ := h s old hold
    refine ⟨nodup_extendUnique hnodup _, fun u hu => ?_⟩
    rcases EntityGraph.mem_extendUnique.mp hu with hstored | hadded
    · obtain ⟨w, hw, hid⟩ := hall u hstored
      exact hrow u w hw hid
    · obtain ⟨x, hx, rfl⟩ := List.mem_map.mp hadded
      obtain ⟨x', _, hid', hx'⟩ := hrows.put x hx List.not_mem_nil
      exact ⟨x', hx', hid'⟩

/-!
# Deleting a session
-/

theorem foreign_of_prefix {kind : String} (ht : s ≠ t)
    (hsession : kind = "session:" ∨ Apart kind "session:")
    (hindex : Apart kind "session_updates:")
    (hk : hasPrefix (sessionPrefix kind s) k = true) :
    Foreign t k := by
  have hbegins : sessionPrefix kind s =
      kind ++ (UuidText.toText s ++ ":") :=
    String.append_assoc ..
  have hnone : forall y, ¬ hasPrefix (sessionPrefix kind s)
      ("session:" ++ UuidText.toText t ++ y) = true := by
    intro y hy
    rcases hsession with rfl | hapart
    · exact ht (hasPrefix_sessionPrefix hy)
    · rw [hbegins, String.append_assoc, hapart.hasPrefix] at hy
      cases hy
  constructor
  · rintro rfl
    rw [sessionKey_eq] at hk
    exact hnone _ hk
  · rintro rfl
    unfold updateIndexKey at hk
    rw [hbegins, hindex.hasPrefix] at hk
    cases hk
  · rintro u rfl
    rw [updateKey_eq] at hk
    exact hnone _ hk

theorem delete_other (db : Db blob) (ht : s ≠ t) :
    SameRecords t db (deleteSession db s) := by
  rw [deleteSession_eq]
  apply sameRecords_write
  intro e he
  obtain ⟨k, hk, rfl⟩ := List.mem_map.mp he
  show Foreign t k
  rw [deletedKeys, List.mem_append, List.mem_append] at hk
  rcases hk with (hown | hbegins) | hmember
  · simp only [List.mem_cons, List.not_mem_nil, or_false] at hown
    rcases hown with rfl | rfl | rfl | rfl
    · exact sessionKey_foreign ht
    · exact updateIndexKey_foreign ht
    · exact metaKey_foreign s t
    · exact nextKey_foreign s t
  · obtain ⟨p, hp, hk⟩ := List.mem_flatMap.mp hbegins
    have hhas := (Database.mem_keysWhere.mp hk).2
    obtain ⟨kind, hkind, rfl⟩ := List.mem_map.mp hp
    simp only [List.mem_cons, List.not_mem_nil, or_false] at hkind
    rcases hkind with rfl | rfl | rfl | rfl | rfl | rfl
    · exact foreign_of_prefix ht (Or.inl rfl) (by decide) hhas
    · exact foreign_of_prefix ht (Or.inr (by decide)) (by decide) hhas
    · exact foreign_of_prefix ht (Or.inr (by decide)) (by decide) hhas
    · exact foreign_of_prefix ht (Or.inr (by decide)) (by decide) hhas
    · exact foreign_of_prefix ht (Or.inr (by decide)) (by decide) hhas
    · exact foreign_of_prefix ht (Or.inr (by decide)) (by decide) hhas
  · have hk := (List.mem_filter.mp hmember).1
    exact membership_foreign (Database.mem_keysWhere.mp hk).2

theorem delete_coherent (h : Coherent db) (s : Uuid) :
    Coherent (deleteSession db s) := by
  refine coherent_of h (fun t ht => delete_other db ht) ?_
  intro ids hids
  rw [delete_index] at hids
  cases hids

end

/-!
# Loading
-/

theorem filterMap_eq {α β : Type} {f : α -> Option β} {xs : List α}
    (h : forall x, x ∈ xs -> (f x).isSome = true) :
    (xs.filterMap f).map some = xs.map f := by
  induction xs with
  | nil =>
      rfl
  | cons x rest ih =>
      obtain ⟨y, hy⟩ := Option.isSome_iff_exists.mp (h x (List.mem_cons_self ..))
      rw [List.filterMap_cons, hy]
      simp only [List.map_cons, hy]
      rw [ih (fun z hz => h z (List.mem_cons_of_mem _ hz))]

section

variable {blob : Type} [UuidText] [CharTables] [SessionJson blob]

theorem read_current {db : Db blob} (h : Coherent db) {s : Uuid} {b : blob}
    {session : ActiveSession} {ids : List Uuid} (hblob : blobOf db s = some b)
    (hsession : SessionJson.fromSlice b = Except.ok session)
    (hcurrent : session.incrementalUpdates = [])
    (hids : indexOf db s = some ids) :
    exists loaded, readSession db s = Except.ok (some ⟨loaded, none⟩) ∧
      loaded.incrementalUpdates.map some = ids.map (rowOf db s) ∧
      loaded.incrementalUpdates.map ContextUpdate.id = ids := by
  have hrows : forall u, u ∈ ids -> exists w, rowOf db s u = some w ∧ w.id = u :=
    (h s ids hids).2
  have hread : (ids.filterMap (rowOf db s)).map some = ids.map (rowOf db s) :=
    filterMap_eq (fun u hu => by
    obtain ⟨w, hw, _⟩ := hrows u hu
    rw [hw]
    rfl)
  refine ⟨relinkEntityMentions
    { session with incrementalUpdates := ids.filterMap (rowOf db s) }, ?_, hread,
    ?_⟩
  · unfold readSession
    simp only [hblob, hsession, hids, if_pos hcurrent]
  · have hids' : (ids.map (rowOf db s)).map (Option.map ContextUpdate.id) =
        ids.map some := by
      rw [List.map_map]
      apply List.map_congr_left
      intro u hu
      obtain ⟨w, hw, hid⟩ := hrows u hu
      simp [hw, hid]
    rw [← hread, List.map_map] at hids'
    have hsome : ((ids.filterMap (rowOf db s)).map ContextUpdate.id).map some =
        ids.map some := by
      rw [List.map_map]
      exact hids'
    exact List.map_injective_iff.mpr (Option.some_injective _) hsome

end

/-!
# Runs
-/

inductive Operation (blob : Type) where
  | persistSession (session : ActiveSession) (explicit : List ContextUpdate)
      (removed : List Uuid)
  | batchSaveUpdates (sessionId : Uuid) (updates : List ContextUpdate)
  | backfillLegacy (session : ActiveSession) (legacyBlob : blob)
  | deleteSession (sessionId : Uuid)

namespace Operation

variable {blob : Type}

def sessionId : Operation blob -> Uuid
  | persistSession session _ _ => session.metadata.id
  | batchSaveUpdates sessionId _ => sessionId
  | backfillLegacy session _ => session.metadata.id
  | deleteSession sessionId => sessionId

variable [UuidText] [SessionJson blob] [DecidableEq blob]

def apply (db : Db blob) : Operation blob -> Db blob
  | persistSession session explicit removed =>
      (Storage.persistSession db session (SessionJson.sessionBlob session)
        explicit removed).1
  | batchSaveUpdates sessionId updates =>
      Storage.batchSaveUpdates db sessionId updates
  | backfillLegacy session legacyBlob =>
      Storage.backfillLegacy db session legacyBlob
  | deleteSession sessionId => Storage.deleteSession db sessionId

def Deletes (db : Db blob) (u : Uuid) : Operation blob -> Prop
  | persistSession _ _ removed => u ∈ removed
  | batchSaveUpdates _ _ => False
  | backfillLegacy session legacyBlob =>
      blobOf db session.metadata.id = some legacyBlob ∧
        u ∈ (indexOf db session.metadata.id).getD [] ∧
        u ∉ session.incrementalUpdates.map ContextUpdate.id
  | deleteSession _ => True

end Operation

section

variable {blob : Type} [UuidText] [SessionJson blob] [DecidableEq blob]

theorem backfill_cases (db : Db blob) (session : ActiveSession)
    (legacyBlob : blob) :
    backfillLegacy db session legacyBlob = db ∨
      blobOf db session.metadata.id = some legacyBlob ∧
        backfillLegacy db session legacyBlob =
          (persistSession db session (SessionJson.sessionBlob session) []
            (((indexOf db session.metadata.id).getD []).filter
              (fun id =>
                id ∉ session.incrementalUpdates.map ContextUpdate.id))).1 := by
  unfold backfillLegacy
  dsimp only
  split
  · next hlegacy => exact Or.inr ⟨hlegacy, rfl⟩
  · exact Or.inl rfl

end

/-- An operation keeps the records of other sessions, and deletes only rows
that it may. -/
structure Confined {blob : Type} [UuidText] [SessionJson blob]
    [DecidableEq blob] (db : Db blob) (op : Operation blob) : Prop where
  others : forall t, op.sessionId ≠ t -> SameRecords t db (op.apply db)
  rows : forall u w, rowOf db op.sessionId u = some w ->
    rowOf (op.apply db) op.sessionId u = none -> op.Deletes db u

section

variable {blob : Type} [UuidText] [LawfulUuidText] [SessionJson blob]
  [DecidableEq blob]

def sessionStore (start : Db blob) : System (Db blob) (Operation blob) where
  init := start
  step := fun db op => some (op.apply db)

theorem confined (db : Db blob) (op : Operation blob) : Confined db op := by
  cases op with
  | persistSession session explicit removed =>
      exact ⟨fun t ht => persist_other db session _ explicit removed ht,
        fun u w hw hgone => (persist_rows db session _ explicit removed).deletes
          hw hgone⟩
  | batchSaveUpdates sessionId updates =>
      refine ⟨fun t ht => batch_other db sessionId updates ht, ?_⟩
      intro u w hw hgone
      exact absurd ((batch_rows db sessionId updates).deletes hw hgone)
        List.not_mem_nil
  | backfillLegacy session legacyBlob =>
      have happly : (Operation.backfillLegacy session legacyBlob).apply db =
          backfillLegacy db session legacyBlob := rfl
      rcases backfill_cases db session legacyBlob with hsame | ⟨hlegacy, hsaved⟩
      · constructor
        · intro t _
          rw [happly, hsame]
          exact SameRecords.refl t db
        · intro u w hw hgone
          rw [happly, hsame, hw] at hgone
          cases hgone
      · constructor
        · intro t ht
          rw [happly, hsaved]
          exact persist_other db session _ [] _ ht
        · intro u w hw hgone
          rw [happly, hsaved] at hgone
          have hremoved := (persist_rows db session _ [] _).deletes hw hgone
          rw [List.mem_filter] at hremoved
          exact ⟨hlegacy, hremoved.1, of_decide_eq_true hremoved.2⟩
  | deleteSession sessionId =>
      exact ⟨fun t ht => delete_other db ht, fun _ _ _ _ => True.intro⟩

theorem apply_coherent {db : Db blob} (h : Coherent db) (op : Operation blob) :
    Coherent (op.apply db) := by
  cases op with
  | persistSession session explicit removed =>
      exact persist_coherent h session _ explicit removed
  | batchSaveUpdates sessionId updates =>
      exact batch_coherent h sessionId updates
  | backfillLegacy session legacyBlob =>
      show Coherent (backfillLegacy db session legacyBlob)
      rcases backfill_cases db session legacyBlob with hsame | ⟨_, hsaved⟩
      · rw [hsame]
        exact h
      · rw [hsaved]
        exact persist_coherent h session _ [] _
  | deleteSession sessionId =>
      exact delete_coherent h sessionId

/-- After any operations on a coherent store it is coherent, a session in the
current format loads as the rows of its index, and the next operation is
confined to the rows it may delete and to its session. -/
theorem session_store_coherent [CharTables] {start db : Db blob}
    (hstart : Coherent start)
    (h : System.Reachable (sessionStore start) System.Anything db) :
    Coherent db ∧
    (forall s b session ids, blobOf db s = some b ->
      SessionJson.fromSlice b = Except.ok session ->
      session.incrementalUpdates = [] -> indexOf db s = some ids ->
      exists loaded, readSession db s = Except.ok (some ⟨loaded, none⟩) ∧
        loaded.incrementalUpdates.map some = ids.map (rowOf db s) ∧
        loaded.incrementalUpdates.map ContextUpdate.id = ids) ∧
    forall op : Operation blob, Confined db op := by
  have hcoherent : Coherent db := by
    refine h.invariant hstart ?_
    intro db op db' hdb _ hstep
    cases hstep
    exact apply_coherent hdb op
  exact ⟨hcoherent,
    fun s b session ids hblob hsession hcurrent hids =>
      read_current hcoherent hblob hsession hcurrent hids,
    fun op => confined db op⟩

end

/-!
# A session of an older version
-/

@[reducible] def plainJson : SessionJson (Uuid × List ContextUpdate) where
  sessionBlob := fun session => (session.metadata.id, [])
  fromSlice := fun b =>
    Except.ok
      { ActiveSession.new b.1 none none 0 with incrementalUpdates := b.2 }

attribute [local instance] EntityGraph.asciiTables hyphenatedText plainJson

def plainSession (id : Uuid) (updates : List Uuid) : ActiveSession :=
  { ActiveSession.new id none none 0 with
    incrementalUpdates :=
      updates.map (fun u => ContextUpdate.plain u 0 "text") }

def legacyJson : Uuid × List ContextUpdate :=
  (7, (plainSession 7 [1, 2]).incrementalUpdates)

def legacyStore : Db (Uuid × List ContextUpdate) :=
  Database.write ∅ [Edit.put (sessionKey 7) (Record.session legacyJson)]

theorem legacyStore_coherent : Coherent legacyStore := by
  intro s ids hids
  have hget : legacyStore[updateIndexKey s]? =
      (∅ : Db (Uuid × List ContextUpdate))[updateIndexKey s]? := by
    apply Database.get_write_other
    intro e he
    rw [List.mem_singleton.mp he]
    exact fun heq => indexKey_ne_sessionKey _ _ heq.symm
  rw [indexOf, hget, Std.ExtTreeMap.getElem?_empty] at hids
  cases hids

def migratingRun : List (Operation (Uuid × List ContextUpdate)) :=
  [Operation.persistSession (plainSession 9 [1]) [] [],
    Operation.backfillLegacy (plainSession 7 [1, 2]) legacyJson,
    Operation.persistSession (plainSession 7 [2])
      [ContextUpdate.plain 3 5 "more"] [1],
    Operation.batchSaveUpdates 7 [ContextUpdate.plain 4 6 "batch"],
    Operation.deleteSession 9]

theorem session_store_coherent_migrated :
    exists db : Db (Uuid × List ContextUpdate),
      indexOf db 7 = some [2, 3, 4] ∧ indexOf db 9 = none ∧
      Coherent db ∧
      (forall s b session ids, blobOf db s = some b ->
        SessionJson.fromSlice b = Except.ok session ->
        session.incrementalUpdates = [] -> indexOf db s = some ids ->
        exists loaded, readSession db s = Except.ok (some ⟨loaded, none⟩) ∧
          loaded.incrementalUpdates.map some = ids.map (rowOf db s) ∧
          loaded.incrementalUpdates.map ContextUpdate.id = ids) ∧
      forall op : Operation (Uuid × List ContextUpdate), Confined db op := by
  have := lawful_hyphenatedText
  obtain ⟨db, -, hreach, h7, h9⟩ :=
    (sessionStore legacyStore).replay_reaches System.Anything migratingRun
      (fun db => indexOf db 7 = some [2, 3, 4] ∧ indexOf db 9 = none) (by decide +kernel)
  exact ⟨db, h7, h9, session_store_coherent legacyStore_coherent hreach⟩

end Storage
end PostCortex
