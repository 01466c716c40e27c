import Mathlib.Data.String.Basic
import PostCortex.Storage.Overwriting
import PostCortex.Storage.SurrealSessions

/-!
# Agreement of the backends

The same saves, batches, deletions and loads on key-value records and on tables.
The records keep the updates of a session in the order of its index, the tables
give them in the order of timestamp and id, and key a row by its id alone.
-/

namespace PostCortex
namespace Storage
namespace Surreal

open PostCortex.Core
open PostCortex.Graph
open KeyValue
open Session
open Transition

/-!
# Rows of one session
-/

section

variable [UuidText] [SurrealCodes]

theorem updateOf_upsertUpdates [LawfulUuidText] (t : Tables) (s other : Uuid)
    (updates : List ContextUpdate) (id : Uuid) :
    (t.upsertUpdates s updates).updateOf other id =
      match Database.lastWith ContextUpdate.id id updates with
      | some u => if s = other then some u else none
      | none => t.updateOf other id := by
  unfold Tables.updateOf
  rw [updates_upsertUpdates]
  cases Database.lastWith ContextUpdate.id id updates with
  | none | some u => rfl

omit [SurrealCodes] in
theorem updateOf_deleteUpdates [LawfulUuidText] (t : Tables) (s : Uuid) (removed : List Uuid)
    (id : Uuid) :
    (t.deleteUpdates removed).updateOf s id =
      if id ∈ removed then none else t.updateOf s id := by
  unfold Tables.updateOf
  rw [updates_deleteUpdates]
  split
  · rfl
  · rfl

theorem updateOf_saved [LawfulUuidText] (t : Tables) (s : Uuid) (updates : List ContextUpdate)
    (removed : List Uuid) (id : Uuid) :
    ((t.upsertUpdates s updates).deleteUpdates removed).updateOf s id =
      if id ∈ removed then none
      else (Database.lastWith ContextUpdate.id id updates).or (t.updateOf s id) := by
  rw [updateOf_deleteUpdates, updateOf_upsertUpdates]
  cases Database.lastWith ContextUpdate.id id updates with
  | none => rfl
  | some u => simp

theorem updateOf_saved_other [LawfulUuidText] {t : Tables} {s : Uuid} {updates : List ContextUpdate}
    {removed : List Uuid} (hupdates : forall u, u ∈ updates -> t.RowFree s u.id)
    (hremoved : forall id, id ∈ removed -> t.RowFree s id) {other : Uuid}
    (hother : s ≠ other) (id : Uuid) :
    ((t.upsertUpdates s updates).deleteUpdates removed).updateOf other id =
      t.updateOf other id := by
  rw [updateOf_deleteUpdates, updateOf_upsertUpdates]
  split
  · next hid => rw [(hremoved id hid).other hother]
  · cases hlast : Database.lastWith ContextUpdate.id id updates with
    | none => rfl
    | some u =>
        obtain ⟨hu, hid⟩ := Database.lastWith_some hlast
        simp only
        rw [← hid, (hupdates u hu).other hother]

/-!
# The order of the tables
-/

def earlier (u v : ContextUpdate) : Prop :=
  SurrealCodes.toRfc3339 u.timestamp < SurrealCodes.toRfc3339 v.timestamp ∨
    SurrealCodes.toRfc3339 u.timestamp = SurrealCodes.toRfc3339 v.timestamp ∧
      UuidText.toText u.id ≤ UuidText.toText v.id

instance (u v : ContextUpdate) : Decidable (earlier u v) :=
  inferInstanceAs (Decidable (_ ∨ _))

instance : Std.Total updateLe where
  total := by
    intro a b
    unfold updateLe
    rcases lt_trichotomy a.timestamp b.timestamp with hlt | heq | hgt
    · exact Or.inl (Or.inl hlt)
    · rcases le_total (UuidText.toText a.updateId) (UuidText.toText b.updateId) with
        hle | hge
      · exact Or.inl (Or.inr ⟨heq, hle⟩)
      · exact Or.inr (Or.inr ⟨heq.symm, hge⟩)
    · exact Or.inr (Or.inl hgt)

instance : IsTrans ContextUpdateRecord updateLe where
  trans := by
    intro a b c hab hbc
    unfold updateLe at hab hbc ⊢
    rcases hab with hab | ⟨hab, hle⟩
    · rcases hbc with hbc | ⟨hbc, -⟩
      · exact Or.inl (hab.trans hbc)
      · exact Or.inl (hbc ▸ hab)
    · rcases hbc with hbc | ⟨hbc, hle'⟩
      · exact Or.inl (hab.symm ▸ hbc)
      · exact Or.inr ⟨hab.trans hbc, hle.trans hle'⟩

instance : Std.Total earlier where
  total u v := total_of updateLe (updateRecord u.id u) (updateRecord u.id v)

instance : IsTrans ContextUpdate earlier where
  trans u v w := trans_of updateLe (a := updateRecord u.id u)
    (b := updateRecord u.id v) (c := updateRecord u.id w)

theorem earlier_antisymm [LawfulUuidText] {u v : ContextUpdate} (h : earlier u v)
    (h' : earlier v u) :
    u.id = v.id := by
  rcases h with hlt | ⟨heq, hle⟩
  · rcases h' with hgt | ⟨hsame, -⟩
    · exact absurd hgt (lt_asymm hlt)
    · exact absurd hsame.symm (ne_of_lt hlt)
  · rcases h' with hgt | ⟨-, hge⟩
    · exact absurd heq.symm (ne_of_lt hgt)
    · exact toText_inj (le_antisymm hle hge)

end

/-!
# Both backends
-/

theorem lastWith_written (session : ActiveSession) (stored : List Uuid)
    (explicit : List ContextUpdate) (removed : List Uuid) (id : Uuid) :
    Database.lastWith ContextUpdate.id id
        (writtenUpdates session stored explicit removed) =
      if id ∈ removed then none
      else (Database.lastWith ContextUpdate.id id explicit).or
        (if id ∈ stored then none
          else Database.lastWith ContextUpdate.id id session.incrementalUpdates) := by
  have hexplicit : Database.lastWith ContextUpdate.id id
      (explicit.filter (fun u => u.id ∉ removed)) =
      if id ∉ removed then Database.lastWith ContextUpdate.id id explicit else none :=
    Database.lastWith_filter explicit (fun u _ hu => by simp [hu])
  have hsession : Database.lastWith ContextUpdate.id id
      (session.incrementalUpdates.filter (fun u =>
        u.id ∉ stored ∧ u.id ∉ explicit.map ContextUpdate.id ∧ u.id ∉ removed)) =
      if id ∉ stored ∧ id ∉ explicit.map ContextUpdate.id ∧ id ∉ removed then
        Database.lastWith ContextUpdate.id id session.incrementalUpdates
      else none :=
    Database.lastWith_filter _ (fun u _ hu => by rw [decide_eq_true_eq, hu])
  rw [writtenUpdates, Database.lastWith_append, hexplicit, hsession]
  by_cases hremoved : id ∈ removed
  · simp [hremoved]
  · cases hlast : Database.lastWith ContextUpdate.id id explicit with
    | none =>
        have hnot : id ∉ explicit.map ContextUpdate.id := by
          intro hid
          obtain ⟨u, hu, huid⟩ := List.mem_map.mp hid
          exact Database.lastWith_eq_none.mp hlast u hu huid
        by_cases hstored : id ∈ stored
        · simp [hremoved, hstored]
        · simp [hremoved, hstored, hnot]
    | some u =>
        obtain ⟨hu, huid⟩ := Database.lastWith_some hlast
        have hmem : id ∈ explicit.map ContextUpdate.id :=
          List.mem_map.mpr ⟨u, hu, huid⟩
        simp [hremoved, hmem]

section

variable [UuidText] [SurrealCodes] [CharTables]

structure Backends where
  rocks : Db SessionBlob
  surreal : Backend

def Backends.empty : Backends where
  rocks := ∅
  surreal := Backend.empty

inductive BackendCall where
  | save (session : ActiveSession) (vectorized : List Uuid) (sessionId : Uuid)
      (explicit : List ContextUpdate) (removed : List Uuid) (now : Timestamp)
      (victim : Uuid)
  | batch (sessionId : Uuid) (updates : List ContextUpdate)
  | delete (sessionId : Uuid)
  | load (sessionId : Uuid) (failed : FailedSelects) (now : Timestamp)
      (victim : Uuid)

/-- `save_session_with_changes` on records. -/
def rocksSave (db : Db SessionBlob) (session : ActiveSession) (vectorized : List Uuid)
    (sessionId : Uuid) (explicit : List ContextUpdate) (removed : List Uuid) :
    Db SessionBlob :=
  if session.metadata.id ≠ sessionId then db
  else
    (persistSession db session (sessionBlob session vectorized) explicit removed).1

def BackendCall.apply (state : Backends) : BackendCall -> Backends
  | save session vectorized sessionId explicit removed now victim =>
      ⟨rocksSave state.rocks session vectorized sessionId explicit removed,
        (saveSessionWithChanges now FailedStatements.noFailure victim state.surreal
          session vectorized sessionId explicit removed).1⟩
  | batch s updates =>
      ⟨Storage.batchSaveUpdates state.rocks s updates,
        Surreal.batchSaveUpdates state.surreal s updates⟩
  | delete s =>
      ⟨Storage.deleteSession state.rocks s, Surreal.deleteSession state.surreal s⟩
  | load s failed now victim =>
      ⟨(Storage.loadSession now state.rocks s).1,
        (Surreal.loadSession now failed victim state.surreal s).1⟩

def listed (db : Db SessionBlob) (s : Uuid) : List Uuid :=
  (indexOf db s).getD []

/-- The ids of the save stand in rows of no other session, and an update that the
index lists, the save does not name and the tables do not take to be stored is as
it was stored. -/
structure SaveAgrees (state : Backends) (session : ActiveSession)
    (explicit : List ContextUpdate) (removed : List Uuid) : Prop where
  written : forall u, u ∈ explicit ++ session.incrementalUpdates ->
    state.surreal.tables.RowFree session.metadata.id u.id
  gone : forall id, id ∈ removed ->
    state.surreal.tables.RowFree session.metadata.id id
  kept : forall u, u ∈ session.incrementalUpdates ->
    u.id ∉ explicit.map ContextUpdate.id -> u.id ∉ removed ->
    u.id ∈ listed state.rocks session.metadata.id ->
    u.id ∈ (knownState state.surreal session.metadata.id).updateIds ∨
      rowOf state.rocks session.metadata.id u.id = some u

def Agreeing (state : Backends) : BackendCall -> Prop
  | BackendCall.save session _ sessionId explicit removed _ _ =>
      session.metadata.id = sessionId -> SaveAgrees state session explicit removed
  | BackendCall.batch s updates =>
      (updates = [] ∨ (indexOf state.rocks s).isSome = true) ∧
        forall u, u ∈ updates -> state.surreal.tables.RowFree s u.id
  | BackendCall.delete _ => True
  | BackendCall.load _ _ _ _ => True

def backends : System Backends BackendCall where
  init := Backends.empty
  step := fun state call => some (call.apply state)

def surrealUpdates (now : Timestamp) (failed : FailedSelects) (victim : Uuid)
    (backend : Backend) (s : Uuid) : Option (List ContextUpdate) :=
  match (Surreal.loadSession now failed victim backend s).2 with
  | Except.error _ => none
  | Except.ok loaded => some loaded.1.incrementalUpdates

/-- What the rows of both backends have in common. -/
structure Agree (state : Backends) : Prop where
  coherent : Coherent state.rocks
  current : forall s b, blobOf state.rocks s = some b ->
    exists session vectorized ids,
      b = sessionBlob session vectorized ∧ indexOf state.rocks s = some ids
  sessions : forall s,
    (state.surreal.tables.sessions[UuidText.toText s]?).isSome =
      (blobOf state.rocks s).isSome
  rows : forall s id, state.surreal.tables.updateOf s id =
    if id ∈ listed state.rocks s then rowOf state.rocks s id else none
  formed : forall k r, state.surreal.tables.updates[k]? = some r ->
    exists s u, k = UuidText.toText u.id ∧ r = updateRecord s u
  known : forall s known, state.surreal.persisted.known s = some known ->
    forall id, id ∈ known.updateIds -> id ∈ listed state.rocks s

end

/-!
# What the tables take to be stored
-/

section

variable [UuidText] [SurrealCodes]

variable {state : Backends} {s : Uuid}

theorem Agree.selected (h : Agree state) {r : ContextUpdateRecord} :
    r ∈ (state.surreal.tables.updates.toList.map Prod.snd).filter
        (fun r => r.sessionId = s) ↔
      exists u, r = updateRecord s u ∧
        state.surreal.tables.updateOf s u.id = some u := by
  constructor
  · intro hr
    obtain ⟨hmem, hs⟩ := List.mem_filter.mp hr
    obtain ⟨k, hget⟩ := Database.mem_values.mp hmem
    obtain ⟨t, u, hk, hrecord⟩ := h.formed k r hget
    have hst : t = s := by
      rw [hrecord] at hs
      exact of_decide_eq_true hs
    subst hst
    refine ⟨u, hrecord, ?_⟩
    rw [hk, hrecord] at hget
    unfold Tables.updateOf
    rw [hget]
    simp [updateRecord]
  · intro hr
    obtain ⟨u, rfl, hrow⟩ := hr
    unfold Tables.updateOf at hrow
    cases hget : state.surreal.tables.updates[UuidText.toText u.id]? with
    | none =>
        rw [hget] at hrow
        cases hrow
    | some r =>
        obtain ⟨t, w, hk, hrecord⟩ := h.formed _ _ hget
        rw [hget, hrecord] at hrow
        have htw : t = s ∧ w = u := by simpa [updateRecord] using hrow
        rw [← htw.1, ← htw.2, ← hrecord]
        refine List.mem_filter.mpr ⟨Database.mem_values.mpr ⟨_, hget⟩, ?_⟩
        rw [hrecord]
        simp [updateRecord]

theorem Agree.knownState (h : Agree state) {id : Uuid}
    (hid : id ∈ (Surreal.knownState state.surreal s).updateIds) :
    id ∈ listed state.rocks s := by
  unfold Surreal.knownState at hid
  cases hknown : state.surreal.persisted.known s with
  | some known =>
      rw [hknown] at hid
      exact h.known s known hknown id hid
  | none =>
      rw [hknown] at hid
      obtain ⟨r, hr, rfl⟩ := List.mem_map.mp hid
      obtain ⟨u, rfl, hrow⟩ := h.selected.mp hr
      rw [h.rows] at hrow
      by_contra hnot
      have hunlisted : u.id ∉ listed state.rocks s := hnot
      rw [if_neg hunlisted] at hrow
      cases hrow

/-!
# Saving
-/

theorem updateOf_query (query : SaveQuery) (t : Tables) (s other id : Uuid) :
    (query.run t s FailedStatements.noFailure).updateOf other id =
      ((t.upsertUpdates s query.updates).deleteUpdates query.removed).updateOf
        other id :=
  rfl

omit [SurrealCodes] in
theorem listed_persist (db : Db SessionBlob) (session : ActiveSession) (b : SessionBlob)
    (explicit : List ContextUpdate) (removed : List Uuid) :
    listed (persistSession db session b explicit removed).1 session.metadata.id =
      indexedIds session (listed db session.metadata.id) explicit removed := by
  rw [listed, persist_index, Option.getD_some]
  rfl

omit [SurrealCodes] in
theorem rowOf_persist [LawfulUuidText] (db : Db SessionBlob) (session : ActiveSession)
    (b : SessionBlob) (explicit : List ContextUpdate) (removed : List Uuid) (id : Uuid) :
    rowOf (persistSession db session b explicit removed).1 session.metadata.id id =
      if id ∈ removed then none
      else (Database.lastWith ContextUpdate.id id
        (writtenUpdates session (listed db session.metadata.id) explicit
          removed)).or (rowOf db session.metadata.id id) :=
  persist_exactly db session b explicit removed id

variable {session : ActiveSession} {explicit : List ContextUpdate} {removed : List Uuid}

theorem Agree.saved_rows [LawfulUuidText] (h : Agree state)
    (hsave : SaveAgrees state session explicit removed) (b : SessionBlob)
    (id : Uuid) :
    ((state.surreal.tables.upsertUpdates session.metadata.id
        (writtenUpdates session
          (Surreal.knownState state.surreal session.metadata.id).updateIds explicit
          removed)).deleteUpdates removed).updateOf session.metadata.id id =
      if id ∈ listed (persistSession state.rocks session b explicit removed).1
          session.metadata.id then
        rowOf (persistSession state.rocks session b explicit removed).1
          session.metadata.id id
      else none := by
  rw [updateOf_saved, rowOf_persist, lastWith_written, lastWith_written,
    listed_persist, h.rows]
  have hknown : id ∈ (Surreal.knownState state.surreal
      session.metadata.id).updateIds -> id ∈ listed state.rocks session.metadata.id :=
    h.knownState
  have hkept := hsave.kept
  generalize (Surreal.knownState state.surreal session.metadata.id).updateIds = known
    at hknown hkept ⊢
  generalize listed state.rocks session.metadata.id = stored at hknown hkept ⊢
  by_cases hremoved : id ∈ removed
  · rw [if_pos hremoved, if_neg (fun hid => (mem_indexedIds.mp hid).2 hremoved)]
  · rw [if_neg hremoved, if_neg hremoved, if_neg hremoved, if_neg hremoved]
    cases hexplicit : Database.lastWith ContextUpdate.id id explicit with
    | some u =>
        obtain ⟨hu, hid⟩ := Database.lastWith_some hexplicit
        rw [if_pos (mem_indexedIds.mpr ⟨Or.inr (Or.inr ⟨u, hu, hid⟩), hremoved⟩)]
        rfl
    | none =>
        have hnot : id ∉ explicit.map ContextUpdate.id := by
          intro hmem
          obtain ⟨w, hw, hid⟩ := List.mem_map.mp hmem
          exact Database.lastWith_eq_none.mp hexplicit w hw hid
        rw [Option.none_or, Option.none_or]
        by_cases hstored : id ∈ stored
        · rw [if_pos (mem_indexedIds.mpr ⟨Or.inl hstored, hremoved⟩), if_pos hstored,
            if_pos hstored, Option.none_or]
          split
          · rfl
          · next hunknown =>
            cases hlast : Database.lastWith ContextUpdate.id id
                session.incrementalUpdates with
            | none => rfl
            | some u =>
                obtain ⟨hu, hid⟩ := Database.lastWith_some hlast
                subst hid
                rw [(hkept u hu hnot hremoved hstored).resolve_left hunknown]
                rfl
        · rw [if_neg hstored, if_neg hstored, if_neg (fun hid => hstored (hknown hid)),
            Option.or_none]
          cases hlast : Database.lastWith ContextUpdate.id id
              session.incrementalUpdates with
          | none =>
              rw [Option.none_or, if_neg]
              intro hid
              rcases (mem_indexedIds.mp hid).1 with hold | ⟨w, hw, hwid⟩ | ⟨w, hw, hwid⟩
              · exact hstored hold
              · exact Database.lastWith_eq_none.mp hlast w hw hwid
              · exact Database.lastWith_eq_none.mp hexplicit w hw hwid
          | some u =>
              obtain ⟨hu, hid⟩ := Database.lastWith_some hlast
              rw [if_pos (mem_indexedIds.mpr
                ⟨Or.inr (Or.inl ⟨u, hu, hid⟩), hremoved⟩)]
              rfl

variable {db : Db SessionBlob}

omit [SurrealCodes] in
theorem SameRecords.listed {db' : Db SessionBlob} (h : SameRecords s db db') :
    Surreal.listed db' s = Surreal.listed db s := by
  unfold Surreal.listed
  rw [h.index]

theorem persist_succeeds (now : Timestamp) (victim : Uuid) (backend : Backend)
    (session : ActiveSession) (vectorized : List Uuid) (explicit : List ContextUpdate)
    (removed : List Uuid) (fullGraph : Bool) :
    (persist now FailedStatements.noFailure victim backend session vectorized explicit
        removed fullGraph).1 =
      ⟨(saveQuery now (knownState backend session.metadata.id) session vectorized
          explicit removed fullGraph).run backend.tables session.metadata.id
          FailedStatements.noFailure,
        (persistedSlot backend.persisted session.metadata.id victim).insert
          session.metadata.id
          (some (savedState (knownState backend session.metadata.id)
            (saveQuery now (knownState backend session.metadata.id) session vectorized
              explicit removed fullGraph) session FailedStatements.noFailure))⟩ := by
  unfold persist
  dsimp only
  rw [knownState_slot]
  rfl

theorem Agree.save [LawfulUuidText] (h : Agree state)
    (hsave : SaveAgrees state session explicit removed) (vectorized : List Uuid)
    (now : Timestamp) (victim : Uuid) :
    Agree
      ⟨(persistSession state.rocks session (sessionBlob session vectorized) explicit
          removed).1,
        (persist now FailedStatements.noFailure victim state.surreal session vectorized
          explicit removed false).1⟩ := by
  have hwritten : forall u, u ∈ writtenUpdates session
      (Surreal.knownState state.surreal session.metadata.id).updateIds explicit
      removed -> u ∈ explicit ++ session.incrementalUpdates := by
    intro u hu
    rcases List.mem_append.mp hu with hu | hu
    · exact List.mem_append_left _ (List.mem_filter.mp hu).1
    · exact List.mem_append_right _ (List.mem_filter.mp hu).1
  have hother : forall t, session.metadata.id ≠ t -> SameRecords t state.rocks
      (persistSession state.rocks session (sessionBlob session vectorized) explicit
        removed).1 :=
    fun t ht => persist_other _ _ _ _ _ ht
  rw [persist_succeeds]
  constructor
  · exact persist_coherent h.coherent _ _ _ _
  · intro s b hb
    by_cases hs : session.metadata.id = s
    · subst hs
      rw [show blobOf _ _ = _ from persist_blob state.rocks session _ explicit removed]
        at hb
      cases hb
      exact ⟨session, vectorized, _, rfl, persist_index _ _ _ _ _⟩
    · obtain ⟨other, ids, list, hblob, hindex⟩ :=
        h.current s b ((hother s hs).blobs.symm.trans hb)
      exact ⟨other, ids, list, hblob, (hother s hs).index.trans hindex⟩
  · intro s
    show ((state.surreal.tables.sessions.insert
      (UuidText.toText session.metadata.id) _)[UuidText.toText s]?).isSome = _
    rw [Database.get_insert]
    by_cases hs : session.metadata.id = s
    · subst hs
      rw [if_pos rfl,
        show blobOf _ _ = _ from persist_blob state.rocks session _ explicit removed]
      rfl
    · rw [if_neg (fun heq => hs (toText_inj heq)),
        h.sessions s, ← (hother s hs).blobs]
  · intro s id
    rw [updateOf_query]
    by_cases hs : session.metadata.id = s
    · subst hs
      exact h.saved_rows hsave _ id
    · refine (updateOf_saved_other (fun u hu => hsave.written u (hwritten u hu))
        hsave.gone hs id).trans ?_
      rw [h.rows, SameRecords.listed (hother s hs), (hother s hs).rows]
  · intro k r hr
    have hdeleted : ((state.surreal.tables.updates.write _).write
        (Database.deletes _))[k]? = some r := hr
    rcases Database.get_write_some hdeleted with hput | hdelete
    · rcases Database.get_write_some hput with hold | hnew
      · exact h.formed k r hold
      · obtain ⟨u, _, heq⟩ := List.mem_map.mp hnew
        cases heq
        exact ⟨_, u, rfl, rfl⟩
    · exact absurd hdelete Database.not_mem_deletes
  · intro s known hknown id hid
    rw [PersistedStates.known_insert] at hknown
    by_cases hs : session.metadata.id = s
    · subst hs
      rw [if_pos rfl] at hknown
      cases hknown
      obtain ⟨hmem, hremoved⟩ := List.mem_filter.mp hid
      rw [listed_persist, mem_indexedIds]
      refine ⟨?_, of_decide_eq_true hremoved⟩
      rcases List.mem_append.mp hmem with hold | hnew
      · exact Or.inl (h.knownState hold)
      · obtain ⟨u, hu, rfl⟩ := List.mem_map.mp hnew
        rcases List.mem_append.mp (hwritten u hu) with hexplicit | hsession
        · exact Or.inr (Or.inr ⟨u, hexplicit, rfl⟩)
        · exact Or.inr (Or.inl ⟨u, hsession, rfl⟩)
    · rw [if_neg hs] at hknown
      rw [SameRecords.listed (hother s hs)]
      exact h.known s known (PersistedStates.known_slot_some hknown) id hid

variable {updates : List ContextUpdate}

theorem Agree.batch [LawfulUuidText] (h : Agree state)
    (hcall : Agreeing state (BackendCall.batch s updates)) :
    Agree ⟨Storage.batchSaveUpdates state.rocks s updates,
      Surreal.batchSaveUpdates state.surreal s updates⟩ := by
  obtain ⟨hstored, hfree⟩ := hcall
  by_cases hnil : updates = []
  · rw [Storage.batchSaveUpdates, Surreal.batchSaveUpdates, if_pos hnil, if_pos hnil]
    exact h
  · have hother : forall t, s ≠ t -> SameRecords t state.rocks
        (Storage.batchSaveUpdates state.rocks s updates) :=
      fun t ht => batch_other _ _ _ ht
    obtain ⟨ids, hids⟩ := Option.isSome_iff_exists.mp (hstored.resolve_left hnil)
    have hlisted : listed (Storage.batchSaveUpdates state.rocks s updates) s =
        EntityGraph.extendUnique (listed state.rocks s)
          (updates.map ContextUpdate.id) := by
      rw [listed, batch_index_some hids, listed, hids]
      rfl
    rw [Surreal.batchSaveUpdates, if_neg hnil]
    constructor
    · exact batch_coherent h.coherent _ _
    · intro t b hb
      by_cases ht : s = t
      · subst ht
        rw [show blobOf _ _ = _ from batch_blob _ _ _] at hb
        obtain ⟨session, vectorized, _, hblob, _⟩ := h.current s b hb
        exact ⟨session, vectorized, _, hblob, batch_index_some hids _⟩
      · obtain ⟨session, vectorized, list, hblob, hindex⟩ :=
          h.current t b ((hother t ht).blobs.symm.trans hb)
        exact ⟨session, vectorized, list, hblob, (hother t ht).index.trans hindex⟩
    · intro t
      refine (h.sessions t).trans ?_
      by_cases ht : s = t
      · subst ht
        rw [show blobOf (Storage.batchSaveUpdates _ _ _) _ = _ from batch_blob _ _ _]
      · rw [(hother t ht).blobs]
    · intro t id
      refine (updateOf_upsertUpdates _ _ _ _ _).trans ?_
      by_cases ht : s = t
      · subst ht
        rw [hlisted, batch_exactly, if_neg List.not_mem_nil, h.rows]
        cases hlast : Database.lastWith ContextUpdate.id id updates with
        | none =>
            have hnot : id ∉ updates.map ContextUpdate.id := by
              intro hmem
              obtain ⟨u, hu, hid⟩ := List.mem_map.mp hmem
              exact Database.lastWith_eq_none.mp hlast u hu hid
            simp only [EntityGraph.mem_extendUnique, hnot, or_false, Option.none_or]
        | some u =>
            obtain ⟨hu, hid⟩ := Database.lastWith_some hlast
            have hmem : id ∈ updates.map ContextUpdate.id :=
              List.mem_map.mpr ⟨u, hu, hid⟩
            simp only [EntityGraph.mem_extendUnique, hmem, or_true, if_true,
              Option.some_or]
      · rw [SameRecords.listed (hother t ht), (hother t ht).rows, ← h.rows]
        cases hlast : Database.lastWith ContextUpdate.id id updates with
        | none => rfl
        | some u =>
            obtain ⟨hu, hid⟩ := Database.lastWith_some hlast
            subst hid
            rw [(hfree u hu).other ht]
            exact if_neg ht
    · intro k r hr
      rcases Database.get_write_some hr with hold | hnew
      · exact h.formed k r hold
      · obtain ⟨u, _, heq⟩ := List.mem_map.mp hnew
        cases heq
        exact ⟨_, u, rfl, rfl⟩
    · intro t known hknown id hid
      have hold := h.known t known hknown id hid
      by_cases ht : s = t
      · subst ht
        rw [hlisted, EntityGraph.mem_extendUnique]
        exact Or.inl hold
      · rw [SameRecords.listed (hother t ht)]
        exact hold

omit [SurrealCodes] in
theorem updateOf_filter (t : Tables) (s other id : Uuid) :
    Tables.updateOf
        { t with updates := t.updates.filter (fun _ r => r.sessionId != s) } other id =
      if s = other then none else t.updateOf other id := by
  unfold Tables.updateOf
  dsimp only
  rw [Std.ExtTreeMap.getElem?_filter']
  cases t.updates[UuidText.toText id]? with
  | none =>
      simp
  | some r =>
      rw [Option.filter_some]
      by_cases hs : r.sessionId = s
      · by_cases hother : s = other
        · simp [hs, hother]
        · simp [hs, hother]
      · by_cases hother : s = other
        · subst hother
          simp [hs]
        · simp [hs, hother]

theorem Agree.delete [LawfulUuidText] (h : Agree state) (s : Uuid) :
    Agree ⟨Storage.deleteSession state.rocks s,
      Surreal.deleteSession state.surreal s⟩ := by
  have hother : forall t, s ≠ t -> SameRecords t state.rocks
      (Storage.deleteSession state.rocks s) :=
    fun t ht => delete_other _ ht
  have hnone : listed (Storage.deleteSession state.rocks s) s = [] := by
    rw [listed, delete_index]
    rfl
  constructor
  · exact delete_coherent h.coherent s
  · intro t b hb
    by_cases ht : s = t
    · subst ht
      rw [show blobOf _ _ = _ from delete_blob _ _] at hb
      cases hb
    · obtain ⟨session, vectorized, list, hblob, hindex⟩ :=
        h.current t b ((hother t ht).blobs.symm.trans hb)
      exact ⟨session, vectorized, list, hblob, (hother t ht).index.trans hindex⟩
  · intro t
    show ((state.surreal.tables.sessions.erase
      (UuidText.toText s))[UuidText.toText t]?).isSome = _
    rw [Std.ExtTreeMap.getElem?_erase]
    by_cases ht : s = t
    · subst ht
      rw [if_pos Std.ReflCmp.compare_self,
        show blobOf (Storage.deleteSession _ _) _ = _ from delete_blob _ _]
      rfl
    · rw [if_neg (fun heq => ht (toText_inj (Std.LawfulEqOrd.eq_of_compare heq))),
        h.sessions t, ← (hother t ht).blobs]
  · intro t id
    refine (updateOf_filter state.surreal.tables s t id).trans ?_
    by_cases ht : s = t
    · subst ht
      rw [if_pos rfl, hnone, if_neg List.not_mem_nil]
    · rw [if_neg ht, h.rows, SameRecords.listed (hother t ht), (hother t ht).rows]
  · intro k r hr
    have hfilter : (state.surreal.tables.updates.filter
        (fun _ r => r.sessionId != s))[k]? = some r := hr
    rw [Std.ExtTreeMap.getElem?_filter'] at hfilter
    exact h.formed k r (Option.filter_eq_some_iff.mp hfilter).1
  · intro t known hknown id hid
    have herased : PersistedStates.known (state.surreal.persisted.erase s) t =
        some known := hknown
    rw [PersistedStates.known_erase] at herased
    by_cases ht : s = t
    · rw [if_pos ht] at herased
      cases herased
    · rw [if_neg ht] at herased
      rw [SameRecords.listed (hother t ht)]
      exact h.known t known herased id hid

/-!
# Loading
-/

theorem Agree.mem_loaded (h : Agree state) {u : ContextUpdate} :
    u ∈ loadSessionUpdates state.surreal.tables s ↔
      state.surreal.tables.updateOf s u.id = some u := by
  rw [loadSessionUpdates, loadPages_eq, List.drop_zero, selectUpdates, List.mem_map]
  constructor
  · intro hu
    obtain ⟨r, hr, hdata⟩ := hu
    obtain ⟨w, rfl, hrow⟩ := h.selected.mp ((List.mem_insertionSort updateLe).mp hr)
    have hw : w = u := hdata
    rw [← hw, hrow]
  · intro hrow
    exact ⟨updateRecord s u,
      (List.mem_insertionSort updateLe).mpr (h.selected.mpr ⟨u, rfl, hrow⟩), rfl⟩

theorem Agree.nodup_loaded (h : Agree state) (s : Uuid) :
    (loadSessionUpdates state.surreal.tables s).Nodup := by
  have hkeys : ((state.surreal.tables.updates.toList.map Prod.snd).map
      ContextUpdateRecord.updateData).map (fun u => UuidText.toText u.id) =
      state.surreal.tables.updates.keys := by
    rw [← Std.ExtTreeMap.map_fst_toList_eq_keys, List.map_map, List.map_map]
    apply List.map_congr_left
    intro e he
    obtain ⟨t, u, hk, hr⟩ := h.formed e.1 e.2
      (Std.ExtTreeMap.mem_toList_iff_getElem?_eq_some.mp he)
    rw [hk]
    show UuidText.toText e.2.updateData.id = _
    rw [hr]
    rfl
  have hnodup := Std.ExtTreeMap.nodup_keys (t := state.surreal.tables.updates)
  rw [← hkeys] at hnodup
  rw [loadSessionUpdates, loadPages_eq, List.drop_zero, selectUpdates,
    ((List.perm_insertionSort updateLe _).map _).nodup_iff]
  exact (List.Nodup.of_map _ hnodup).sublist (List.filter_sublist.map _)

theorem Agree.loaded_sorted [LawfulUuidText] (h : Agree state) {ids : List Uuid}
    (hids : indexOf state.rocks s = some ids)
    (hrows : updates.map some = ids.map (rowOf state.rocks s))
    (hsame : updates.map ContextUpdate.id = ids) :
    loadSessionUpdates state.surreal.tables s = updates.insertionSort earlier := by
  have hlisted : listed state.rocks s = ids := by
    rw [listed, hids]
    rfl
  have hnodup : (updates.map ContextUpdate.id).Nodup := by
    rw [hsame]
    exact (h.coherent s ids hids).1
  have hrow : forall u, u ∈ updates -> rowOf state.rocks s u.id = some u := by
    intro u hu
    rw [← hsame, List.map_map] at hrows
    exact (List.map_inj_left.mp hrows u hu).symm
  have hmem : forall u, u ∈ loadSessionUpdates state.surreal.tables s ↔ u ∈ updates := by
    intro u
    rw [h.mem_loaded, h.rows, hlisted, ← hsame]
    constructor
    · intro hget
      split at hget
      · next hid =>
        obtain ⟨w, hw, hwid⟩ := List.mem_map.mp hid
        rw [← hwid, hrow w hw] at hget
        rw [← Option.some.inj hget]
        exact hw
      · cases hget
    · intro hu
      rw [if_pos (List.mem_map_of_mem hu), hrow u hu]
  have hformed : forall r, r ∈ (state.surreal.tables.updates.toList.map Prod.snd).filter
      (fun r => r.sessionId = s) -> exists u, r = updateRecord s u := by
    intro r hr
    obtain ⟨u, hu, _⟩ := h.selected.mp hr
    exact ⟨u, hu⟩
  have hsorted : (loadSessionUpdates state.surreal.tables s).Pairwise earlier := by
    rw [loadSessionUpdates, loadPages_eq, List.drop_zero, selectUpdates,
      List.pairwise_map]
    refine (List.pairwise_insertionSort updateLe _).imp_of_mem ?_
    intro a b ha hb hab
    obtain ⟨u, rfl⟩ := hformed a ((List.mem_insertionSort updateLe).mp ha)
    obtain ⟨v, rfl⟩ := hformed b ((List.mem_insertionSort updateLe).mp hb)
    exact hab
  have hperm : (loadSessionUpdates state.surreal.tables s).Perm
      (updates.insertionSort earlier) :=
    ((List.perm_ext_iff_of_nodup (h.nodup_loaded s) (List.Nodup.of_map _ hnodup)).mpr hmem).trans
      (List.perm_insertionSort earlier updates).symm
  refine hperm.eq_of_pairwise ?_ hsorted (List.pairwise_insertionSort earlier updates)
  intro u v hu hv huv hvu
  exact List.inj_on_of_nodup_map hnodup ((hmem u).mp hu)
    ((List.mem_insertionSort earlier).mp hv) (earlier_antisymm huv hvu)

theorem agree_empty : Agree Backends.empty where
  coherent := coherent_empty
  current := by
    intro s b hb
    unfold Backends.empty blobOf at hb
    rw [Std.ExtTreeMap.getElem?_empty] at hb
    cases hb
  sessions := by
    intro s
    unfold Backends.empty blobOf
    rw [Std.ExtTreeMap.getElem?_empty]
    exact congrArg Option.isSome Std.ExtTreeMap.getElem?_empty
  rows := by
    intro s id
    have hnone : listed (Backends.empty).rocks s = [] := by
      unfold Backends.empty listed indexOf
      rw [Std.ExtTreeMap.getElem?_empty]
      rfl
    rw [hnone, if_neg List.not_mem_nil]
    exact congrArg (fun r => Option.bind r _) Std.ExtTreeMap.getElem?_empty
  formed := by
    intro k r hr
    rw [show Backends.empty.surreal.tables.updates = ∅ from rfl,
      Std.ExtTreeMap.getElem?_empty] at hr
    cases hr
  known := by
    intro s known hknown
    unfold PersistedStates.known at hknown
    rw [show Backends.empty.surreal.persisted = ∅ from rfl,
      Std.ExtTreeMap.getElem?_empty] at hknown
    cases hknown

variable [CharTables]

omit [SurrealCodes] in
theorem loadSession_keeps (h : Coherent db)
    (hcurrent : forall b, blobOf db s = some b ->
      exists session vectorized ids,
        b = sessionBlob session vectorized ∧ indexOf db s = some ids)
    (now : Timestamp) :
    (Storage.loadSession now db s).1 = db := by
  unfold Storage.loadSession readAt
  cases hblob : blobOf db s with
  | none =>
      unfold readSession
      rw [hblob]
  | some b =>
      obtain ⟨session, vectorized, ids, rfl, hids⟩ := hcurrent b hblob
      let data := serialize { session with incrementalUpdates := [] } vectorized
      obtain ⟨loaded, hread, _, _⟩ :=
        @read_current SessionBlob _ _ (blobJson now []) db h s (Except.ok data)
          (deserialize now data).1 ids hblob rfl rfl hids
      rw [hread]

theorem loadSession_some {backend : Backend} {r : SessionRecord}
    (hrecord : backend.tables.sessions[UuidText.toText s]? = some r)
    (failed : FailedSelects) (now : Timestamp) (victim : Uuid) :
    exists loaded : ActiveSession, loaded.metadata.id = s ∧
      loaded.incrementalUpdates = loadSessionUpdates backend.tables s ∧
      Surreal.loadSession now failed victim backend s =
        ({ backend with persisted := rememberLoaded victim backend.persisted loaded },
          Except.ok (loaded, r.vectorizedUpdateIds)) := by
  unfold Surreal.loadSession
  rw [hrecord]
  exact ⟨_, rfl, rfl, rfl⟩

theorem Agree.load (h : Agree state) (s : Uuid) (failed : FailedSelects)
    (now : Timestamp) (victim : Uuid) :
    Agree ((BackendCall.load s failed now victim).apply state) := by
  have hrocks : (Storage.loadSession now state.rocks s).1 = state.rocks :=
    loadSession_keeps h.coherent (h.current s) now
  unfold BackendCall.apply
  dsimp only
  rw [hrocks]
  cases hrecord : state.surreal.tables.sessions[UuidText.toText s]? with
  | none =>
      unfold Surreal.loadSession
      rw [hrecord]
      exact h
  | some r =>
      obtain ⟨loaded, hid, hupdates, heq⟩ := loadSession_some hrecord failed now victim
      rw [heq]
      refine ⟨h.coherent, h.current, h.sessions, h.rows, h.formed, ?_⟩
      intro t known hknown id hmem
      dsimp only [rememberLoaded] at hknown
      rw [PersistedStates.known_insert, hid] at hknown
      by_cases hst : s = t
      · subst hst
        rw [if_pos rfl] at hknown
        cases hknown
        obtain ⟨u, hu, rfl⟩ := List.mem_map.mp hmem
        rw [hupdates] at hu
        have hrow := h.mem_loaded.mp hu
        rw [h.rows] at hrow
        by_contra hnot
        rw [if_neg hnot] at hrow
        cases hrow
      · rw [if_neg hst] at hknown
        exact h.known t known (PersistedStates.known_slot_some hknown) id hmem

/-!
# Reachable states
-/

variable [LawfulUuidText]

theorem Agree.step {state : Backends} (h : Agree state) {call : BackendCall}
    (hcall : Agreeing state call) :
    Agree (call.apply state) := by
  cases call with
  | save session vectorized sessionId explicit removed now victim =>
      show Agree ⟨rocksSave _ _ _ _ _ _, (saveSessionWithChanges _ _ _ _ _ _ _ _ _).1⟩
      unfold rocksSave saveSessionWithChanges
      by_cases hid : session.metadata.id = sessionId
      · rw [if_neg (not_not.mpr hid), if_neg (not_not.mpr hid)]
        exact h.save (hcall hid) vectorized now victim
      · rw [if_pos hid, if_pos hid]
        exact h
  | batch s updates =>
      exact h.batch hcall
  | delete s =>
      exact h.delete s
  | load s failed now victim =>
      exact h.load s failed now victim

theorem agree_of_reachable (h : backends.Reachable Agreeing state) :
    Agree state :=
  h.invariant agree_empty (fun _ _ _ hs hallowed hstep => by
    cases hstep
    exact hs.step hallowed)

/-- A load from the records returns the updates in the order in which they were
added, and a load from the tables returns the same updates ordered by timestamp and
id. -/
theorem backends_agree {state : Backends} (h : backends.Reachable Agreeing state)
    (s : Uuid) (failed : FailedSelects) (now : Timestamp) (victim : Uuid) :
    (loadedUpdates now state.rocks s = none ↔
      surrealUpdates now failed victim state.surreal s = none) ∧
    forall updates, loadedUpdates now state.rocks s = some updates ->
      surrealUpdates now failed victim state.surreal s =
        some (updates.insertionSort earlier) ∧
      (surrealUpdates now failed victim state.surreal s =
          loadedUpdates now state.rocks s ↔
        updates.Pairwise earlier) := by
  have hagree := agree_of_reachable h
  have hexists := hagree.sessions s
  cases hblob : blobOf state.rocks s with
  | none =>
      rw [hblob] at hexists
      have hrocks : loadedUpdates now state.rocks s = none := by
        unfold loadedUpdates Storage.loadSession readAt readSession
        rw [hblob]
      have hsurreal : surrealUpdates now failed victim state.surreal s = none := by
        unfold surrealUpdates Surreal.loadSession
        rw [Option.isSome_eq_false_iff.mp hexists |> Option.isNone_iff_eq_none.mp]
      refine ⟨iff_of_true hrocks hsurreal, ?_⟩
      intro updates hupdates
      rw [hrocks] at hupdates
      cases hupdates
  | some b =>
      rw [hblob] at hexists
      obtain ⟨r, hrecord⟩ := Option.isSome_iff_exists.mp hexists
      obtain ⟨session, vectorized, ids, rfl, hids⟩ := hagree.current s b hblob
      obtain ⟨updates, hrocks, hrows, hsame⟩ :=
        loadedUpdates_current hagree.coherent hblob hids now
      obtain ⟨loaded, _, hloaded, heq⟩ := loadSession_some hrecord failed now victim
      have hsurreal : surrealUpdates now failed victim state.surreal s =
          some (updates.insertionSort earlier) := by
        unfold surrealUpdates
        rw [heq, ← hagree.loaded_sorted hids hrows hsame, ← hloaded]
      rw [hrocks, hsurreal]
      refine ⟨by simp, ?_⟩
      intro list hlist
      cases hlist
      refine ⟨rfl, ?_⟩
      rw [Option.some_inj]
      constructor
      · intro hsorted
        rw [← hsorted]
        exact List.pairwise_insertionSort earlier updates
      · exact fun hsorted => hsorted.insertionSort_eq

end

/-!
# A backdated update
-/

section

attribute [local instance] EntityGraph.asciiTables hyphenatedText
  lawful_hyphenatedText plainCodes

def backdatedUpdates : List ContextUpdate :=
  [ContextUpdate.plain 1 5 "text", ContextUpdate.plain 2 3 "text"]

def backdatedCall : BackendCall :=
  BackendCall.save (plainSession 7 []) [] 7 backdatedUpdates [] 0 0

theorem backdatedCall_agreeing : Agreeing Backends.empty backdatedCall := by
  intro _
  have hfree : forall id, Backends.empty.surreal.tables.RowFree 7 id := by
    intro id
    unfold Tables.RowFree
    rw [show Backends.empty.surreal.tables.updates = ∅ from rfl,
      Std.ExtTreeMap.getElem?_empty]
    rfl
  exact ⟨fun u _ => hfree u.id, fun id _ => hfree id, fun u hu => by cases hu⟩

theorem backdated_reachable :
    backends.Reachable Agreeing (backdatedCall.apply Backends.empty) :=
  System.Reachable.step System.Reachable.init backdatedCall_agreeing rfl

theorem backends_agree_backdated :
    exists updates,
      loadedUpdates 0 (backdatedCall.apply Backends.empty).rocks 7 = some updates ∧
      surrealUpdates 0 ⟨false, false⟩ 0 (backdatedCall.apply Backends.empty).surreal
        7 = some (updates.insertionSort earlier) := by
  obtain ⟨session, vectorized, ids, hblob, hids⟩ :=
    (agree_of_reachable backdated_reachable).current 7 _
      (persist_blob _ (plainSession 7 []) _ _ _)
  obtain ⟨updates, hupdates, _⟩ := loadedUpdates_current
    (agree_of_reachable backdated_reachable).coherent
    ((persist_blob _ (plainSession 7 []) _ _ _).trans (congrArg some hblob)) hids 0
  exact ⟨updates, hupdates, ((backends_agree backdated_reachable 7 ⟨false, false⟩ 0
    0).2 updates hupdates).1⟩

/-- The records list the backdated update last, the tables first. -/
theorem backdated_update_moves :
    ¬ forall state : Backends, backends.Reachable System.Anything state ->
      forall (s : Uuid) (updates : List ContextUpdate),
        loadedUpdates 0 state.rocks s = some updates ->
        surrealUpdates 0 ⟨false, false⟩ 0 state.surreal s = some updates := by
  intro hall
  have hrocks : loadedUpdates 0 (backdatedCall.apply Backends.empty).rocks 7 =
      some backdatedUpdates := by
    decide +kernel
  have hsame := hall _ backdated_reachable.anything 7 _ hrocks
  revert hsame
  decide +kernel

def bothLoads (calls : List BackendCall) (s : Uuid) :
    Option (List ContextUpdate) × Option (List ContextUpdate) :=
  let state := calls.foldl BackendCall.apply Backends.empty
  (loadedUpdates 0 state.rocks s,
    surrealUpdates 0 ⟨false, false⟩ 0 state.surreal s)

def shared : ContextUpdate :=
  ContextUpdate.plain 1 5 "new"

def savedCall (s : Uuid) (updates : List Uuid) (explicit : List ContextUpdate)
    (removed : List Uuid) : BackendCall :=
  BackendCall.save (plainSession s updates) [] s explicit removed 0 0

/-- The calls that are not `Agreeing`: an id of one session saved in a second one or
removed from it takes the row away, a row from before the session is loaded with it,
and a snapshot writes its old copy over a row that was saved in a batch. -/
theorem backends_disagree :
    bothLoads [savedCall 7 [] [shared] [], savedCall 8 [] [shared] []] 7 =
        (some [shared], some []) ∧
      bothLoads [savedCall 7 [] [shared] [], savedCall 8 [] [] [1]] 7 =
        (some [shared], some []) ∧
      bothLoads [BackendCall.batch 7 [shared], savedCall 7 [] [] []] 7 =
        (some [], some [shared]) ∧
      bothLoads [savedCall 7 [] [] [], BackendCall.batch 7 [shared],
          savedCall 7 [1] [] []] 7 =
        (some [shared], some [ContextUpdate.plain 1 0 "text"]) := by
  decide +kernel

end

end Surreal
end Storage
end PostCortex
