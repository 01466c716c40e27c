import Mathlib.Data.Finset.Card
import PostCortex.Storage.RowCoherence

/-!
# The count in the listing

The metadata of a session says how many updates it has.  A save writes the number
of updates in its snapshot there, and appended rows the length of the index; the
index keeps what the snapshot lacks.
-/

namespace PostCortex
namespace Storage

open PostCortex.Core
open PostCortex.Graph
open KeyValue
open Session
open Transition

/-!
# What a snapshot leaves out
-/

def snapshotIds (session : ActiveSession) : List Uuid :=
  session.incrementalUpdates.map ContextUpdate.id

def lacking (session : ActiveSession) (stored : List Uuid)
    (explicit : List ContextUpdate) (removed : List Uuid) : Finset Uuid :=
  ((stored ++ explicit.map ContextUpdate.id).toFinset \ removed.toFinset) \
    (snapshotIds session).toFinset

def surplus (session : ActiveSession) (removed : List Uuid) : Nat :=
  (snapshotIds session).length -
    ((snapshotIds session).toFinset \ removed.toFinset).card

theorem length_extendUnique (xs : List Uuid) :
    (EntityGraph.extendUnique [] xs).length = xs.toFinset.card := by
  rw [← List.toFinset_card_of_nodup (nodup_extendUnique List.nodup_nil xs)]
  congr 1
  ext u
  simp [EntityGraph.mem_extendUnique]

theorem length_indexedIds (session : ActiveSession) (stored : List Uuid)
    (explicit : List ContextUpdate) (removed : List Uuid) :
    (indexedIds session stored explicit removed).length =
      (lacking session stored explicit removed).card +
        ((snapshotIds session).toFinset \ removed.toFinset).card := by
  rw [indexedIds, length_extendUnique, ← Finset.card_union_of_disjoint]
  · congr 1
    ext u
    simp only [lacking, snapshotIds, List.mem_toFinset, List.mem_filter,
      List.mem_append, Finset.mem_union, Finset.mem_sdiff, decide_eq_true_eq]
    tauto
  · rw [Finset.disjoint_left]
    intro u hu hsnapshot
    exact (Finset.mem_sdiff.mp hu).2 (Finset.mem_sdiff.mp hsnapshot).1

/-- The snapshot has as many updates as the index when it lacks as many as it has
too many. -/
theorem length_indexedIds_iff (session : ActiveSession) (stored : List Uuid)
    (explicit : List ContextUpdate) (removed : List Uuid) :
    session.incrementalUpdates.length =
        (indexedIds session stored explicit removed).length ↔
      (lacking session stored explicit removed).card = surplus session removed := by
  have hle : ((snapshotIds session).toFinset \ removed.toFinset).card ≤
      (snapshotIds session).length :=
    (Finset.card_le_card Finset.sdiff_subset).trans (List.toFinset_card_le _)
  have hlength : (snapshotIds session).length = session.incrementalUpdates.length :=
    List.length_map _
  rw [length_indexedIds, surplus, ← hlength]
  omega

theorem lacking_embedded (session : ActiveSession) (stored : List Uuid) :
    (lacking session stored []
        (stored.filter (fun id => id ∉ snapshotIds session))).card =
      surplus session (stored.filter (fun id => id ∉ snapshotIds session)) ↔
    (snapshotIds session).Nodup := by
  have hlacking : lacking session stored []
      (stored.filter (fun id => id ∉ snapshotIds session)) = ∅ := by
    rw [Finset.eq_empty_iff_forall_notMem]
    intro u hu
    simp only [lacking, List.map_nil, List.append_nil, Finset.mem_sdiff,
      List.mem_toFinset, List.mem_filter, decide_eq_true_eq] at hu
    tauto
  have hkept : (snapshotIds session).toFinset \
      (stored.filter (fun id => id ∉ snapshotIds session)).toFinset =
        (snapshotIds session).toFinset := by
    rw [Finset.sdiff_eq_self_iff_disjoint, Finset.disjoint_left]
    intro u hu hremoved
    simp only [List.mem_toFinset, List.mem_filter, decide_eq_true_eq] at hu hremoved
    exact hremoved.2 hu
  have hcard : (snapshotIds session).toFinset.card = (snapshotIds session).length ↔
      (snapshotIds session).Nodup :=
    Multiset.toFinset_card_eq_card_iff_nodup (m := (snapshotIds session : Multiset Uuid))
  have hle := List.toFinset_card_le (snapshotIds session)
  rw [hlacking, surplus, hkept, Finset.card_empty, ← hcard]
  omega

/-!
# The metadata after an operation
-/

section

variable {blob : Type} [UuidText]

variable {s : Uuid}

theorem metaOf_write_other {batch : List (Edit String (Record blob))}
    (h : forall e, e ∈ batch -> e.target ≠ metaKey s) (db : Db blob) :
    metaOf (db.write batch) s = metaOf db s := by
  unfold metaOf
  rw [Database.get_write_other db h]

theorem metaOf_put (db : Db blob) (s : Uuid) (summary : SessionSummary) :
    metaOf (db.write [Edit.put (metaKey s) (Record.summary summary)]) s =
      some summary := by
  unfold metaOf
  rw [Database.write_cons, Database.write_nil, Database.get_put_self]

variable {e : Edit String (Record blob)}

theorem putUpdates_ne_meta (s t : Uuid) (updates : List ContextUpdate)
    (he : e ∈ putUpdates s updates) :
    e.target ≠ metaKey t := by
  obtain ⟨u, _, rfl⟩ := List.mem_map.mp he
  exact fun heq => metaKey_ne_updateKey t s u.id heq.symm

theorem deleteRows_ne_meta (s t : Uuid) (removed : List Uuid)
    (he : e ∈ Database.deletes (removed.map (updateKey s))) :
    e.target ≠ metaKey t := by
  obtain ⟨k, hk, rfl⟩ := List.mem_map.mp he
  obtain ⟨u, _, rfl⟩ := List.mem_map.mp hk
  exact fun heq => metaKey_ne_updateKey t s u heq.symm

theorem metaKey_ne_of_apart {kind : String} (h : Apart kind "session_meta:")
    {p k : String} (hp : hasPrefix (kind ++ p) k = true) (t : Uuid) :
    k ≠ metaKey t := by
  rintro rfl
  unfold metaKey at hp
  rw [h.hasPrefix] at hp
  cases hp

theorem delete_meta (db : Db blob) (s : Uuid) :
    metaOf (deleteSession db s) s = none := by
  unfold metaOf
  rw [get_deleteSession, if_pos (by simp [deletedKeys])]

theorem persist_batch (db : Db blob) (session : ActiveSession) (b : blob)
    (explicit : List ContextUpdate) (removed : List Uuid) :
    exists rows, (forall e, e ∈ rows -> forall t, e.target ≠ metaKey t) ∧
      (persistSession db session b explicit removed).1 =
        ((db.write rows).write [Edit.put (metaKey session.metadata.id)
          (Record.summary (SessionSummary.fromSession session))]).write
            [Edit.put (sessionKey session.metadata.id) (Record.session b)] := by
  unfold persistSession
  dsimp only
  refine ⟨_, ?_, Database.write_append db _ _⟩
  intro e he t
  rcases List.mem_append.mp he with he | hindex
  · rcases List.mem_append.mp he with hput | hdelete
    · exact putUpdates_ne_meta _ _ _ hput
    · exact deleteRows_ne_meta _ _ _ hdelete
  · split at hindex
    · cases hindex
    · rw [List.mem_singleton.mp hindex]
      exact fun heq => metaKey_ne_indexKey _ _ heq.symm

variable [LawfulUuidText]

theorem metaKey_inj {t : Uuid} (h : metaKey s = metaKey t) :
    s = t := by
  unfold metaKey at h
  exact toText_inj ((String.append_right_inj _).mp h)

theorem persist_meta (db : Db blob) (session : ActiveSession) (b : blob)
    (explicit : List ContextUpdate) (removed : List Uuid) (t : Uuid) :
    metaOf (persistSession db session b explicit removed).1 t =
      if session.metadata.id = t then some (SessionSummary.fromSession session)
      else metaOf db t := by
  obtain ⟨rows, hrows, hsaved⟩ := persist_batch db session b explicit removed
  rw [hsaved, metaOf_write_other]
  · split
    · next hid =>
      rw [← hid]
      exact metaOf_put _ _ _
    · next hid =>
      rw [metaOf_write_other, metaOf_write_other (fun e he => hrows e he t)]
      intro e he
      rw [List.mem_singleton.mp he]
      exact fun heq => hid (metaKey_inj heq)
  · intro e he
    rw [List.mem_singleton.mp he]
    exact fun heq => metaKey_ne_sessionKey _ _ heq.symm

omit [LawfulUuidText] in
theorem batch_grown (db : Db blob) (s : Uuid) (updates : List ContextUpdate)
    (ids : List Uuid) :
    indexOf (db.write (putUpdates s updates ++
        [Edit.put (updateIndexKey s) (Record.updateIndex ids)])) s = some ids ∧
      forall t, metaOf (db.write (putUpdates s updates ++
        [Edit.put (updateIndexKey s) (Record.updateIndex ids)])) t =
          metaOf db t := by
  rw [Database.write_append]
  refine ⟨indexOf_put _ _ _, fun t => ?_⟩
  rw [metaOf_write_other, metaOf_write_other
    (fun e he => putUpdates_ne_meta s t updates he)]
  intro e he
  rw [List.mem_singleton.mp he]
  exact fun heq => metaKey_ne_indexKey _ _ heq.symm

theorem batch_meta (db : Db blob) (s : Uuid) (updates : List ContextUpdate) :
    (indexOf (batchSaveUpdates db s updates) s = indexOf db s ∧
      forall t, metaOf (batchSaveUpdates db s updates) t = metaOf db t) ∨
    exists ids, indexOf (batchSaveUpdates db s updates) s = some ids ∧
      (metaOf (batchSaveUpdates db s updates) s =
        (metaOf db s).map (fun summary =>
          { summary with updateCount := ids.length })) ∧
      forall t, s ≠ t ->
        metaOf (batchSaveUpdates db s updates) t = metaOf db t := by
  have hputs : forall t, metaOf (db.write (putUpdates s updates)) t = metaOf db t :=
    fun t => metaOf_write_other (fun e he => putUpdates_ne_meta s t updates he) db
  have hindex : indexOf (db.write (putUpdates s updates)) s = indexOf db s :=
    indexOf_write_other (fun e he => putUpdates_ne_index s s updates he) db
  unfold batchSaveUpdates
  split
  · exact Or.inl ⟨rfl, fun _ => rfl⟩
  · split
    · exact Or.inl ⟨hindex, hputs⟩
    · next ids hids =>
      dsimp only
      split
      · exact Or.inl ⟨hindex, hputs⟩
      · have hgrown := batch_grown db s updates
          (EntityGraph.extendUnique ids (updates.map ContextUpdate.id))
        refine Or.inr
          ⟨EntityGraph.extendUnique ids (updates.map ContextUpdate.id), ?_⟩
        rw [Database.write_append]
        cases hmeta : metaOf db s with
        | none =>
            exact ⟨hgrown.1, (hgrown.2 s).trans hmeta, fun t _ => hgrown.2 t⟩
        | some summary =>
            refine ⟨?_, metaOf_put _ _ _, fun t ht => ?_⟩
            · rw [indexOf_write_other]
              · exact hgrown.1
              · intro e he
                rw [List.mem_singleton.mp he]
                exact metaKey_ne_indexKey s s
            · rw [metaOf_write_other]
              · exact hgrown.2 t
              · intro e he
                rw [List.mem_singleton.mp he]
                exact fun heq => ht (metaKey_inj heq)

theorem delete_meta_other (db : Db blob) {t : Uuid} (ht : s ≠ t) :
    metaOf (deleteSession db s) t = metaOf db t := by
  rw [deleteSession_eq]
  apply metaOf_write_other
  intro e he
  obtain ⟨k, hk, rfl⟩ := List.mem_map.mp he
  show k ≠ metaKey t
  rw [deletedKeys, List.mem_append, List.mem_append] at hk
  rcases hk with (hown | hbegins) | hmember
  · simp only [List.mem_cons, List.not_mem_nil, or_false] at hown
    have hnext : Apart "message_next:" "session_meta:" := by
      decide
    rcases hown with rfl | rfl | rfl | rfl
    · exact fun heq => metaKey_ne_sessionKey _ _ heq.symm
    · exact fun heq => metaKey_ne_indexKey _ _ heq.symm
    · exact fun heq => ht (metaKey_inj heq)
    · exact hnext.ne _ _
  · obtain ⟨p, hp, hk⟩ := List.mem_flatMap.mp hbegins
    have hhas := (Database.mem_keysWhere.mp hk).2
    have hkinds : forall kind, kind ∈ ["session:", "message:", "message_turn:",
        "embedding:", "entity:", "relationship:"] ->
        Apart kind "session_meta:" := by
      decide
    obtain ⟨kind, hkind, rfl⟩ := List.mem_map.mp hp
    rw [sessionPrefix, String.append_assoc] at hhas
    exact metaKey_ne_of_apart (hkinds kind hkind) hhas t
  · have hk := (List.mem_filter.mp hmember).1
    have hhas := (Database.mem_keysWhere.mp hk).2
    have hworkspace : Apart "ws_session:" "session_meta:" := by
      decide
    rw [← String.append_empty (s := "ws_session:")] at hhas
    exact metaKey_ne_of_apart hworkspace hhas t

/-!
# Counts that agree
-/

/-- The count in the metadata of a session is the length of its index. -/
def Agrees (db : Db blob) : Prop :=
  forall s summary, metaOf db s = some summary ->
    exists ids, indexOf db s = some ids ∧ summary.updateCount = ids.length

variable {db : Db blob}

omit [LawfulUuidText] in
theorem agrees_of {db' : Db blob} (h : Agrees db)
    (hothers : forall t, s ≠ t -> SameRecords t db db' ∧ metaOf db' t = metaOf db t)
    (hown : forall summary, metaOf db' s = some summary ->
      exists ids, indexOf db' s = some ids ∧ summary.updateCount = ids.length) :
    Agrees db' := by
  intro t summary hsummary
  by_cases hst : s = t
  · subst hst
    exact hown summary hsummary
  · obtain ⟨hsame, hmeta⟩ := hothers t hst
    rw [hmeta] at hsummary
    rw [hsame.index]
    exact h t summary hsummary

/-- After a save the counts agree when the snapshot lacks as many updates as it
has too many. -/
theorem persist_agrees (h : Agrees db) (session : ActiveSession) (b : blob)
    (explicit : List ContextUpdate) (removed : List Uuid) :
    Agrees (persistSession db session b explicit removed).1 ↔
      (lacking session ((indexOf db session.metadata.id).getD []) explicit
        removed).card = surplus session removed := by
  have hindex := persist_index db session b explicit removed
  have hmeta := persist_meta db session b explicit removed
  rw [← length_indexedIds_iff]
  constructor
  · intro hafter
    obtain ⟨ids, hids, hcount⟩ := hafter session.metadata.id
      (SessionSummary.fromSession session) (by rw [hmeta, if_pos rfl])
    rw [hindex] at hids
    cases hids
    exact hcount
  · intro hlength
    refine agrees_of h (s := session.metadata.id) (fun t ht => ?_) ?_
    · exact ⟨persist_other db session b explicit removed ht, by
        rw [hmeta, if_neg ht]⟩
    · intro summary hsummary
      rw [hmeta, if_pos rfl] at hsummary
      cases hsummary
      exact ⟨_, hindex, hlength⟩

theorem batch_agrees (h : Agrees db) (s : Uuid) (updates : List ContextUpdate) :
    Agrees (batchSaveUpdates db s updates) := by
  have hsame := fun t ht => batch_other db s updates (t := t) ht
  rcases batch_meta db s updates with ⟨hindex, hmeta⟩ | ⟨ids, hindex, hmeta, hothers⟩
  · refine agrees_of h (s := s) (fun t ht => ⟨hsame t ht, hmeta t⟩) ?_
    intro summary hsummary
    rw [hmeta] at hsummary
    rw [hindex]
    exact h s summary hsummary
  · refine agrees_of h (s := s) (fun t ht => ⟨hsame t ht, hothers t ht⟩) ?_
    intro summary hsummary
    rw [hmeta] at hsummary
    obtain ⟨old, -, rfl⟩ := Option.map_eq_some_iff.mp hsummary
    exact ⟨ids, hindex, rfl⟩

theorem delete_agrees (h : Agrees db) (s : Uuid) :
    Agrees (deleteSession db s) := by
  refine agrees_of h (s := s)
    (fun t ht => ⟨delete_other db ht, delete_meta_other db ht⟩) ?_
  intro summary hsummary
  rw [delete_meta] at hsummary
  cases hsummary

end

/-!
# Runs
-/

section

variable {blob : Type} [UuidText] [LawfulUuidText] [SessionJson blob]
  [DecidableEq blob]

/-- A save whose snapshot lacks as many updates as it has too many, or a
migration of a session that repeats no id. -/
def CountFits (db : Db blob) : Operation blob -> Prop
  | Operation.persistSession session explicit removed =>
      (lacking session ((indexOf db session.metadata.id).getD []) explicit
        removed).card = surplus session removed
  | Operation.batchSaveUpdates _ _ => True
  | Operation.backfillLegacy session legacyBlob =>
      blobOf db session.metadata.id = some legacyBlob ->
        (snapshotIds session).Nodup
  | Operation.deleteSession _ => True

theorem apply_agrees {db : Db blob} (h : Agrees db) (op : Operation blob) :
    Agrees (op.apply db) ↔ CountFits db op := by
  cases op with
  | persistSession session explicit removed =>
      exact persist_agrees h session _ explicit removed
  | batchSaveUpdates sessionId updates =>
      exact iff_of_true (batch_agrees h sessionId updates) True.intro
  | backfillLegacy session legacyBlob =>
      show Agrees (backfillLegacy db session legacyBlob) ↔ _
      unfold CountFits
      by_cases hlegacy : blobOf db session.metadata.id = some legacyBlob
      · have hsaved := persist_agrees h session (SessionJson.sessionBlob session) []
          (((indexOf db session.metadata.id).getD []).filter
            (fun id => id ∉ snapshotIds session))
        rw [lacking_embedded] at hsaved
        have hbackfill : backfillLegacy db session legacyBlob =
            (persistSession db session (SessionJson.sessionBlob session) []
              (((indexOf db session.metadata.id).getD []).filter
                (fun id => id ∉ snapshotIds session))).1 := by
          unfold backfillLegacy
          dsimp only
          rw [if_pos hlegacy]
          rfl
        rw [hbackfill, hsaved]
        exact ⟨fun hids _ => hids, fun hids => hids hlegacy⟩
      · have hkept : backfillLegacy db session legacyBlob = db := by
          unfold backfillLegacy
          exact if_neg hlegacy
        rw [hkept]
        exact iff_of_true h (fun heq => absurd heq hlegacy)
  | deleteSession sessionId =>
      exact iff_of_true (delete_agrees h sessionId) True.intro

/-- In a run of such operations every listed count is the length of the index,
and the next operation keeps that exactly when it is such an operation. -/
theorem listing_counts {start db : Db blob} (hstart : Agrees start)
    (h : System.Reachable (sessionStore start) CountFits db) :
    Agrees db ∧ forall op : Operation blob, Agrees (op.apply db) ↔ CountFits db op := by
  have hagrees : Agrees db := by
    refine h.invariant hstart ?_
    intro db op db' hdb hfits hstep
    cases hstep
    exact (apply_agrees hdb op).mpr hfits
  exact ⟨hagrees, apply_agrees hagrees⟩

end

/-!
# A stale snapshot
-/

attribute [local instance] EntityGraph.asciiTables hyphenatedText plainJson

theorem agrees_empty : Agrees (∅ : Db (Uuid × List ContextUpdate)) := by
  intro s summary hsummary
  simp [metaOf] at hsummary

def fittingRun : List (Operation (Uuid × List ContextUpdate)) :=
  [Operation.persistSession (plainSession 7 [1, 2]) [] [],
    Operation.persistSession (plainSession 7 [2]) [] [1],
    Operation.batchSaveUpdates 7 [ContextUpdate.plain 4 6 "batch"]]

instance (db : Db (Uuid × List ContextUpdate))
    (op : Operation (Uuid × List ContextUpdate)) : Decidable (CountFits db op) := by
  cases op with
  | persistSession session explicit removed =>
      exact inferInstanceAs (Decidable (_ = _))
  | batchSaveUpdates sessionId updates | deleteSession sessionId =>
      exact isTrue True.intro
  | backfillLegacy session legacyBlob =>
      exact inferInstanceAs (Decidable (_ -> _))

theorem listing_counts_fitting :
    exists db : Db (Uuid × List ContextUpdate),
      indexOf db 7 = some [2, 4] ∧
      (metaOf db 7).map SessionSummary.updateCount = some 2 ∧
      Agrees db ∧
      forall op : Operation (Uuid × List ContextUpdate),
        Agrees (op.apply db) ↔ CountFits db op := by
  have := lawful_hyphenatedText
  obtain ⟨db, -, hreach, hindex, hmeta⟩ :=
    (sessionStore (∅ : Db (Uuid × List ContextUpdate))).replay_reaches CountFits
      fittingRun (fun db => indexOf db 7 = some [2, 4] ∧
        (metaOf db 7).map SessionSummary.updateCount = some 2) (by decide +kernel)
  exact ⟨db, hindex, hmeta, listing_counts agrees_empty hreach⟩

def staleRun : List (Operation (Uuid × List ContextUpdate)) :=
  [Operation.persistSession (plainSession 7 [1, 2]) [] [],
    Operation.persistSession (plainSession 7 [1]) [] []]

theorem stale_snapshot_miscounts :
    exists db : Db (Uuid × List ContextUpdate),
      System.Reachable (sessionStore ∅) System.Anything db ∧
      indexOf db 7 = some [1, 2] ∧
      (metaOf db 7).map SessionSummary.updateCount = some 1 ∧ ¬ Agrees db := by
  obtain ⟨db, -, hreach, hindex, hmeta⟩ :=
    (sessionStore (∅ : Db (Uuid × List ContextUpdate))).replay_reaches System.Anything
      staleRun (fun db => indexOf db 7 = some [1, 2] ∧
        (metaOf db 7).map SessionSummary.updateCount = some 1) (by decide +kernel)
  refine ⟨db, hreach, hindex, hmeta, ?_⟩
  intro hagrees
  obtain ⟨summary, hsummary, hcount⟩ := Option.map_eq_some_iff.mp hmeta
  obtain ⟨ids, hids, hlength⟩ := hagrees 7 summary hsummary
  rw [hindex] at hids
  cases hids
  rw [hcount] at hlength
  cases hlength

end Storage
end PostCortex
