import PostCortex.Storage.Exporting

/-!
# Exporting and importing again

What importing the document of a store into an empty store makes of it.  Every
session comes back with its updates; the checkpoints only when they were asked
for, the workspaces as made at the time of the import, and no embedding.
-/

namespace PostCortex
namespace Storage

open PostCortex.Core
open PostCortex.Graph
open KeyValue
open Session
open Transition

/-!
# Listing
-/

section

variable [UuidText]

theorem length_sessionKey [LawfulUuidText] (s : Uuid) :
    (sessionKey s).toList.length = sessionKeyLen := by
  have hlength := LawfulUuidText.length_toText s
  have hkind : "session:".length = 8 := by
    decide
  rw [sessionKey, String.length_toList, String.length_append, hkind, hlength]
  rfl

def KeyOf (s : Uuid) (k : String) : Prop :=
  k = sessionKey s ∨ exists u, k = updateKey s u

variable {s : Uuid} {k : String}

theorem KeyOf.append (h : KeyOf s k) :
    exists rest, k = sessionKey s ++ rest := by
  rcases h with rfl | ⟨u, rfl⟩
  · exact ⟨"", by simp⟩
  · exact ⟨_, updateKey_eq s u⟩

theorem KeyOf.take [LawfulUuidText] (h : KeyOf s k) :
    k.toList.take sessionKeyLen = (sessionKey s).toList := by
  obtain ⟨rest, rfl⟩ := h.append
  rw [String.toList_append, List.take_left' (length_sessionKey s)]

theorem KeyOf.long [LawfulUuidText] (h : KeyOf s k) :
    ¬ k.toList.length < sessionKeyLen := by
  obtain ⟨rest, rfl⟩ := h.append
  rw [String.toList_append, List.length_append, length_sessionKey]
  omega

theorem sessionOfKey_sessionKey [LawfulUuidText] (s : Uuid) :
    sessionOfKey (sessionKey s) = some s := by
  have hdrop : (sessionKey s).toList.drop 8 = (UuidText.toText s).toList := by
    rw [sessionKey, String.toList_append]
    exact List.drop_left' (by decide)
  unfold sessionOfKey
  rw [if_pos (length_sessionKey s), hdrop, String.ofList_toList,
    LawfulUuidText.parse_toText]
  rfl

theorem sessionOfKey_iff [LawfulUuidText] {t : Uuid} (h : KeyOf t k) :
    sessionOfKey k = some s ↔ k = sessionKey s := by
  constructor
  · intro hk
    rcases h with rfl | ⟨u, rfl⟩
    · rw [sessionOfKey_sessionKey] at hk
      cases hk
      rfl
    · have hlength : (updateKey t u).toList.length ≠ sessionKeyLen := by
        have htext := LawfulUuidText.length_toText u
        have hkind : ":update:".length = 8 := by
          decide
        have hkey := length_sessionKey t
        have hupdate : updateKey t u =
            sessionKey t ++ (":update:" ++ UuidText.toText u) := updateKey_eq t u
        rw [hupdate, String.toList_append, List.length_append, hkey,
          String.length_toList, String.length_append, hkind, htext]
        decide
      rw [sessionOfKey, if_neg hlength] at hk
      cases hk
  · rintro rfl
    exact sessionOfKey_sessionKey s

variable {next : String}

/-- The listing meets the blob of a session that is not before the key last
sought, and no other. -/
theorem mem_sessionIdsFrom [LawfulUuidText] {keys : List String}
    (hsorted : keys.Pairwise (fun x y => compare x y = Ordering.lt))
    (hkeys : forall k, k ∈ keys -> exists t, KeyOf t k) :
    s ∈ sessionIdsFrom next keys ↔
      sessionKey s ∈ keys ∧ ¬ compare (sessionKey s) next = Ordering.lt := by
  induction keys generalizing next with
  | nil =>
      simp [sessionIdsFrom]
  | cons key rest ih =>
      obtain ⟨t, ht⟩ := hkeys key List.mem_cons_self
      obtain ⟨hlt, hpairs⟩ := List.pairwise_cons.mp hsorted
      have hrest := fun next => @ih next hpairs
        (fun k hk => hkeys k (List.mem_cons_of_mem _ hk))
      unfold sessionIdsFrom
      split
      · next hskip =>
        have hbefore := hskip.resolve_right ht.long
        rw [hrest, List.mem_cons]
        constructor
        · exact fun h => ⟨Or.inr h.1, h.2⟩
        · rintro ⟨rfl | hmem, hnext⟩
          · exact absurd hbefore hnext
          · exact ⟨hmem, hnext⟩
      · next hnot =>
        rw [not_or] at hnot
        rw [ht.take, String.ofList_toList, List.mem_append, Option.mem_toList,
          sessionOfKey_iff ht, hrest, List.mem_cons]
        constructor
        · rintro (rfl | ⟨hmem, -⟩)
          · exact ⟨Or.inl rfl, hnot.1⟩
          · refine ⟨Or.inr hmem, fun hbefore => hnot.1 ?_⟩
            exact Std.TransCmp.lt_trans (hlt _ hmem) hbefore
        · rintro ⟨rfl | hmem, -⟩
          · exact Or.inl rfl
          · refine Or.inr ⟨hmem, fun hbefore => ?_⟩
            -- A key between those of one session begins as they do.
            obtain ⟨more, hmore⟩ := ht.append
            have hafter := compare_eq_lt.mp (hlt _ hmem)
            rw [compare_eq_lt, String.toList_append] at hbefore
            rw [hmore, String.toList_append] at hafter
            have hprefix := prefix_between (fun h => List.lt_irrefl _
              (List.lt_trans h hafter)) hbefore
            have hsame : (sessionKey t).toList = (sessionKey s).toList := hprefix.eq_of_length
              ((length_sessionKey t).trans (length_sessionKey s).symm)
            rw [← hsame, ← List.append_nil (sessionKey t).toList, List.append_assoc,
              append_left_lt_iff] at hafter
            exact List.not_lt_nil _ hafter

theorem nodup_sessionIdsFrom [LawfulUuidText] {keys : List String}
    (hsorted : keys.Pairwise (fun x y => compare x y = Ordering.lt))
    (hkeys : forall k, k ∈ keys -> exists t, KeyOf t k) :
    (sessionIdsFrom next keys).Nodup := by
  induction keys generalizing next with
  | nil =>
      exact List.nodup_nil
  | cons key rest ih =>
      obtain ⟨t, ht⟩ := hkeys key List.mem_cons_self
      obtain ⟨hlt, hpairs⟩ := List.pairwise_cons.mp hsorted
      have hrest : forall k, k ∈ rest -> exists t, KeyOf t k :=
        fun k hk => hkeys k (List.mem_cons_of_mem _ hk)
      unfold sessionIdsFrom
      split
      · exact ih hpairs hrest
      · refine List.nodup_append.mpr ⟨?_, ih hpairs hrest, ?_⟩
        · cases sessionOfKey key with
          | none => exact List.nodup_nil
          | some s => exact List.nodup_singleton s
        · rintro s hs s' hs' rfl
          have hkey := (sessionOfKey_iff ht).mp (Option.mem_toList.mp hs)
          have hmem := ((mem_sessionIdsFrom hpairs hrest).mp hs').1
          rw [← hkey] at hmem
          exact absurd (hlt key hmem) (by simp [Std.ReflCmp.compare_self])

omit [UuidText] in
theorem sorted_keysWhere (db : Db SessionBlob) (p : String -> Bool) :
    (db.keysWhere p).Pairwise (fun x y => compare x y = Ordering.lt) :=
  Std.ExtTreeMap.ordered_keys.filter p

variable {db : Db SessionBlob}

theorem AllFitting.keys (h : AllFitting db)
    (hk : k ∈ db.keysWhere (hasPrefix "session:")) :
    exists t, KeyOf t k := by
  obtain ⟨hsome, hprefix⟩ := Database.mem_keysWhere.mp hk
  obtain ⟨r, hr⟩ := Option.isSome_iff_exists.mp hsome
  rcases (h k r hr).session hprefix with ⟨s, b, rfl, -⟩ | ⟨s, w, rfl, -⟩
  · exact ⟨s, Or.inl rfl⟩
  · exact ⟨s, Or.inr ⟨w.id, rfl⟩⟩

theorem mem_listSessionIds [LawfulUuidText] (h : AllFitting db) :
    s ∈ listSessionIds db ↔ exists b, blobOf db s = some b := by
  have hkeys : forall k, k ∈ db.keysWhere (hasPrefix "session:") ->
      exists t, KeyOf t k := fun k hk => h.keys hk
  have hprefix : hasPrefix "session:" (sessionKey s) = true := by
    rw [hasPrefix_iff, sessionKey, String.toList_append]
    exact List.prefix_append _ _
  have hfirst : ¬ compare (sessionKey s) "session:" = Ordering.lt := by
    rw [compare_eq_lt, sessionKey, String.toList_append,
      ← List.append_nil "session:".toList, List.append_assoc, append_left_lt_iff]
    exact List.not_lt_nil _
  rw [listSessionIds, mem_sessionIdsFrom (sorted_keysWhere db _) hkeys,
    Database.mem_keysWhere]
  constructor
  · rintro ⟨⟨hsome, -⟩, -⟩
    obtain ⟨r, hr⟩ := Option.isSome_iff_exists.mp hsome
    rcases (h _ r hr).session hprefix with ⟨t, b, hkey, rfl⟩ | ⟨t, w, hkey, -⟩
    · refine ⟨b, ?_⟩
      unfold blobOf
      rw [hr]
    · exact absurd hkey (sessionKey_ne_updateKey s t w.id)
  · rintro ⟨b, hb⟩
    refine ⟨⟨?_, hprefix⟩, hfirst⟩
    unfold blobOf at hb
    cases hget : db[sessionKey s]? with
    | none =>
        rw [hget] at hb
        cases hb
    | some r => rfl

theorem nodup_listSessionIds [LawfulUuidText] (h : AllFitting db) :
    (listSessionIds db).Nodup :=
  nodup_sessionIdsFrom (sorted_keysWhere db _) (fun _ hk => h.keys hk)

/-!
# The sessions of an export
-/

variable [CharTables]

variable {session : ActiveSession} {ids : List Uuid}

theorem loadSession_current {vectorized : List Uuid}
    (hblob : blobOf db s = some (sessionBlob session vectorized))
    (hids : indexOf db s = some ids) (now : Timestamp) :
    loadSession now db s =
      (db, Except.ok (reread now session vectorized (ids.filterMap (rowOf db s)),
        vectorized.dedup)) := by
  have hread : readAt now db s = Except.ok (some
      ⟨reread now session vectorized (ids.filterMap (rowOf db s)), none⟩) := by
    unfold readAt readSession
    rw [hblob, hids]
    rfl
  have hvectorized : vectorizedOf db s = vectorized.dedup := by
    unfold vectorizedOf
    rw [hblob]
    rfl
  unfold loadSession
  rw [hread, hvectorized]

structure ExportOf (now : Timestamp) (db : Db SessionBlob) (s : Uuid)
    (e : ExportedSession) (session : ActiveSession) (ids : List Uuid) : Prop where
  blobs : blobOf db s = some (sessionBlob session e.vectorized)
  named : session.metadata.id = s
  kept : Kept session
  distinct : e.vectorized.Nodup
  index : indexOf db s = some ids
  updates : e.updates = ids.filterMap (rowOf db s)
  reading : e.session = reread now session e.vectorized e.updates

variable {now : Timestamp} {e : ExportedSession}

theorem ExportOf.id (h : ExportOf now db s e session ids) :
    e.id = s := by
  rw [ExportedSession.id, h.reading, reread_eq]
  exact h.named

variable {store : Store}

theorem Sound.exportSession (h : Sound store) {b : SessionBlob}
    (hb : blobOf store.db s = some b) (now : Timestamp) :
    exists e session ids, exportSessionData now store.db s =
        (store.db, Except.ok e) ∧ ExportOf now store.db s e session ids := by
  obtain ⟨session, vectorized, ids, rfl, hid, hkept, hnodup, hids⟩ :=
    h.current s b hb
  refine ⟨⟨reread now session vectorized (ids.filterMap (rowOf store.db s)), vectorized,
    ids.filterMap (rowOf store.db s)⟩, session, ids, ?_,
    ⟨hb, hid, hkept, hnodup, hids, rfl, rfl⟩⟩
  unfold exportSessionData loadSessionUpdates
  rw [loadSession_current hb hids, hnodup.dedup]
  dsimp only
  rw [hids]

theorem Sound.exportSessions (h : Sound store) (now : Timestamp) {ss : List Uuid}
    (hss : forall s, s ∈ ss -> exists b, blobOf store.db s = some b) :
    exists es, Storage.exportSessions now ss store.db = (store.db, es) ∧
      es.map ExportedSession.id = ss ∧
      forall e, e ∈ es -> exists session ids,
        ExportOf now store.db e.id e session ids := by
  induction ss with
  | nil =>
      exact ⟨[], rfl, rfl, fun e he => absurd he List.not_mem_nil⟩
  | cons s rest ih =>
      obtain ⟨b, hb⟩ := hss s List.mem_cons_self
      obtain ⟨e, session, ids, hexport, he⟩ := h.exportSession hb now
      obtain ⟨es, hes, hids, hall⟩ :=
        ih (fun t ht => hss t (List.mem_cons_of_mem _ ht))
      refine ⟨e :: es, ?_, ?_, ?_⟩
      · unfold Storage.exportSessions
        rw [hexport]
        dsimp only
        rw [hes]
        rfl
      · rw [List.map_cons, hids, he.id]
      · intro e' he'
        rcases List.mem_cons.mp he' with rfl | hmem
        · rw [he.id]
          exact ⟨session, ids, he⟩
        · exact hall e' hmem

/-!
# The sessions after an import
-/

omit [CharTables] in
theorem saveExported_new [LawfulUuidText] (hnone : indexOf store.db e.id = none)
    (hsame : e.session.incrementalUpdates = e.updates)
    (hids : (e.updates.map ContextUpdate.id).Nodup) :
    indexOf (saveExported store e).db e.id = some (e.updates.map ContextUpdate.id) ∧
      (e.updates.map ContextUpdate.id).filterMap
        (rowOf (saveExported store e).db e.id) = e.updates := by
  have hextend : forall ids : List Uuid, ids.Nodup ->
      EntityGraph.extendUnique [] ids = ids :=
    fun ids h => extendUnique_append [] ids h
  constructor
  · rw [saveExported_index, hnone, savedIds, Option.getD_none, List.nil_append, hsame,
      hextend _ hids]
    have hagain := extendUnique_append (e.updates.map ContextUpdate.id) []
      (by simpa using hids)
    rw [List.append_nil] at hagain
    rw [hagain]
  · rw [List.filterMap_map]
    have hrow : forall w, w ∈ e.updates ->
        (rowOf (saveExported store e).db e.id ∘ ContextUpdate.id) w = some w :=
      fun w hw => batch_row _ e.id hids hw
    rw [List.filterMap_congr hrow]
    exact List.filterMap_some

omit [CharTables] in
theorem Coherent.ids_rows (h : Coherent db) (hids : indexOf db s = some ids) :
    (ids.filterMap (rowOf db s)).map ContextUpdate.id = ids := by
  have hrows := (h s ids hids).2
  clear hids
  induction ids with
  | nil =>
      rfl
  | cons u rest ih =>
      obtain ⟨w, hw, hid⟩ := hrows u List.mem_cons_self
      rw [List.filterMap_cons, hw]
      dsimp only
      rw [List.map_cons, hid, ih (fun v hv => hrows v (List.mem_cons_of_mem _ hv))]

def loadedDocument (now : Timestamp) (db : Db SessionBlob) (s : Uuid) :
    Except String ActiveSessionData :=
  (loadSession now db s).2.map (fun loaded => serialize loaded.1 loaded.2)

theorem loadedDocument_none (hblob : blobOf db s = none) (now : Timestamp) :
    loadedDocument now db s = Except.error "Session not found" := by
  unfold loadedDocument loadSession readAt readSession
  rw [hblob]
  rfl

theorem ExportOf.reproduced [LawfulUuidText] (h : ExportOf now db s e session ids)
    (hcoherent : Coherent db) (hnone : indexOf store.db s = none)
    {after : Db SessionBlob}
    (hafter : SameRecords s (saveExported store e).db after)
    (early later : Timestamp) :
    loadedDocument later after s = loadedDocument early db s := by
  have hid := h.id
  have hrows : e.updates.map ContextUpdate.id = ids := by
    rw [h.updates, hcoherent.ids_rows h.index]
  have hnodup : (e.updates.map ContextUpdate.id).Nodup := by
    rw [hrows]
    exact (hcoherent s ids h.index).1
  have hincremental : e.session.incrementalUpdates = e.updates := by
    rw [h.reading, reread_eq]
  subst hid
  obtain ⟨hindex, hupdates⟩ := saveExported_new hnone hincremental hnodup
  rw [← hafter.index] at hindex
  rw [← funext hafter.rows] at hupdates
  have hblob := (hafter.blobs).trans (saveExported_blob store e)
  have hload := loadSession_current hblob hindex later
  have hold := loadSession_current h.blobs h.index early
  rw [hupdates, h.distinct.dedup] at hload
  rw [← h.updates, h.distinct.dedup, h.kept.reread_time now early] at hold
  unfold loadedDocument
  rw [hload, hold]
  refine congrArg Except.ok ?_
  dsimp only
  rw [h.reading]
  exact h.kept.reread_again now later _ _

theorem Sound.exportFull (h : Sound store) (now : Timestamp)
    (includeCheckpoints : Bool) (hlisted : forall s, s ∈ listSessionIds store.db ->
      exists b, blobOf store.db s = some b) :
    (Storage.exportFull now store includeCheckpoints).1 = store ∧
      exists data, (Storage.exportFull now store includeCheckpoints).2 = data ∧
        data.formatVersion = exportFormatVersion ∧
        data.sessions.map ExportedSession.id = listSessionIds store.db ∧
        (forall e, e ∈ data.sessions -> exists session ids,
          ExportOf now store.db e.id e session ids) ∧
        data.workspaces = store.listWorkspaces.map exportWorkspace ∧
        data.checkpoints =
          if includeCheckpoints then store.listCheckpoints else [] := by
  obtain ⟨es, hexport, hids, hall⟩ := h.exportSessions now hlisted
  unfold Storage.exportFull
  rw [hexport]
  exact ⟨rfl, _, rfl, rfl, hids, hall, rfl, rfl⟩

theorem imported_sessions [LawfulUuidText] {after : Store} (h : Sound store) {data : ExportData}
    {options : ImportOptions} {clock : ImportClock} {result : ImportResult}
    (hversion : data.formatVersion = exportFormatVersion)
    (hids : data.sessions.map ExportedSession.id = listSessionIds store.db)
    (hall : forall e, e ∈ data.sessions -> exists session ids,
      ExportOf now store.db e.id e session ids)
    (hfilter : options.sessionFilter = none)
    (himport : importData clock Store.empty data options = Except.ok (after, result))
    (early later : Timestamp) (s : Uuid) :
    loadedDocument later after.db s = loadedDocument early store.db s := by
  by_cases hs : s ∈ listSessionIds store.db
  · rw [← hids] at hs
    obtain ⟨e, he, rfl⟩ := List.mem_map.mp hs
    obtain ⟨session, ids, hexport⟩ := hall e he
    have honce : (data.sessions.map ExportedSession.id).Nodup := by
      rw [hids]
      exact nodup_listSessionIds h.fitting
    have hcompatible : isVersionCompatible data.formatVersion = true := by
      rw [hversion]
      exact exportFormatVersion_compatible
    have hempty : blobOf Store.empty.db e.id = none ∧
        indexOf Store.empty.db e.id = none := by
      unfold blobOf indexOf
      rw [Store.empty, Std.ExtTreeMap.getElem?_empty, Std.ExtTreeMap.getElem?_empty]
      exact ⟨rfl, rfl⟩
    have hsaves : forall state : Store × ImportResult,
        SameRecords e.id Store.empty.db state.1.db ->
        (importSession options state e).1 = saveExported state.1 e := by
      intro state hsame
      have hnew : sessionExists state.1 e.id = false := by
        rw [sessionExists, hsame.blobs, hempty.1]
        rfl
      simp [importSession, passes, hfilter, hnew]
    obtain ⟨before, after', result', -, hbefore, hagain, hafter⟩ :=
      import_records hcompatible he honce hsaves sound_empty.coherent clock
    rw [himport] at hagain
    obtain ⟨rfl, rfl⟩ := Prod.mk.inj (Except.ok.inj hagain)
    exact hexport.reproduced h.coherent (hbefore.index.trans hempty.2) hafter early
      later
  · have hnone : blobOf store.db s = none := by
      cases hblob : blobOf store.db s with
      | none => rfl
      | some b => exact absurd ((mem_listSessionIds h.fitting).mpr ⟨b, hblob⟩) hs
    rw [← hids] at hs
    have hother := (import_other hs himport).blobs
    have hempty : blobOf Store.empty.db s = none := by
      unfold blobOf
      rw [Store.empty, Std.ExtTreeMap.getElem?_empty]
    rw [hempty] at hother
    rw [loadedDocument_none hother, loadedDocument_none hnone]

end

/-!
# Checkpoints and workspaces
-/

section

variable {value other : Type}

theorem get_foldl_insert (key : value -> String) (f : value -> other)
    (m : Database String value) (k : String) {xs : List value}
    (hxs : forall x, x ∈ xs -> m[key x]? = some x) (start : Database String other) :
    (xs.foldl (fun db x => db.insert (key x) (f x)) start)[k]? =
      if k ∈ xs.map key then m[k]?.map f else start[k]? := by
  induction xs using List.reverseRecOn with
  | nil =>
      simp
  | append_singleton rest x ih =>
      have hrest := ih (fun y hy => hxs y (List.mem_append_left _ hy))
      rw [List.foldl_append, List.foldl_cons, List.foldl_nil,
        Std.ExtTreeMap.getElem?_insert, hrest]
      by_cases hk : key x = k
      · subst hk
        rw [if_pos (by simp), if_pos (by simp), hxs x (by simp)]
        rfl
      · have hlast : k ∈ (rest ++ [x]).map key ↔ k ∈ rest.map key := by
          simp [Ne.symm hk]
        rw [if_neg (by simp [hk]), if_congr hlast rfl rfl]

theorem foldl_insert_toList (key : value -> String) {m : Database String value}
    (hkey : forall k x, m[k]? = some x -> k = key x) (f : value -> other) :
    (m.toList.map Prod.snd).foldl (fun db x => db.insert (key x) (f x)) ∅ =
      m.map (fun _ x => f x) := by
  have hmem : forall x, x ∈ m.toList.map Prod.snd -> m[key x]? = some x := by
    intro x hx
    obtain ⟨k, hget⟩ := Database.mem_values.mp hx
    rw [← hkey k x hget]
    exact hget
  apply Std.ExtTreeMap.ext_getElem?
  intro k
  rw [get_foldl_insert key f m k hmem, Std.ExtTreeMap.getElem?_map]
  split
  · rfl
  · next hnot =>
    cases hget : m[k]? with
    | none =>
        rw [Std.ExtTreeMap.getElem?_empty]
        rfl
    | some x =>
        exact absurd (List.mem_map.mpr
          ⟨x, Database.mem_values.mpr ⟨k, hget⟩, (hkey k x hget).symm⟩) hnot

end

section

variable [UuidText]

theorem importCheckpoints_eq (checkpoints : List Legacy.SessionCheckpoint)
    (state : Store × ImportResult) :
    (checkpoints.foldl importCheckpoint state).1 =
      { state.1 with
        checkpoints :=
          checkpoints.foldl (fun db c => db.insert (checkpointKey c.id) c)
            state.1.checkpoints } := by
  induction checkpoints generalizing state with
  | nil =>
      rfl
  | cons c rest ih =>
      rw [List.foldl_cons, ih]
      rfl

theorem importSessions_frame (options : ImportOptions) (es : List ExportedSession)
    (state : Store × ImportResult) :
    exists db, (es.foldl (importSession options) state).1 =
      { state.1 with db := db } := by
  induction es generalizing state with
  | nil =>
      exact ⟨state.1.db, rfl⟩
  | cons e rest ih =>
      have hone : exists db, (importSession options state e).1 =
          { state.1 with db := db } := by
        unfold importSession
        dsimp only
        split
        · exact ⟨state.1.db, rfl⟩
        · split
          · exact ⟨state.1.db, rfl⟩
          · split
            · exact ⟨state.1.db, rfl⟩
            · exact ⟨_, rfl⟩
      obtain ⟨first, hfirst⟩ := hone
      obtain ⟨db, hdb⟩ := ih (importSession options state e)
      refine ⟨db, ?_⟩
      rw [List.foldl_cons, hdb, hfirst]

def savedWorkspace (clock : ImportClock) (w : ExportedWorkspace) : StoredWorkspace where
  id := w.id
  name := w.name
  description := w.description
  sessions := (w.sessions.map Prod.fst).map (fun s => (s, SessionRole.primary))
  createdAt := clock.savedAt w.id

def memberEdits (clock : ImportClock) (w : ExportedWorkspace) :
    List (Edit String (Record SessionBlob)) :=
  w.sessions.map (fun m =>
    Edit.put (membershipKey w.id m.1)
      (Record.membership ⟨w.id, m.1, m.2, clock.addedAt w.id m.1⟩))

theorem saveWorkspace_eq (clock : ImportClock) (store : Store) (w : ExportedWorkspace) :
    saveWorkspace clock store w =
      { store with
        workspaces := store.workspaces.insert (workspaceKey w.id)
          (savedWorkspace clock w)
        db := store.db.write (memberEdits clock w) } := by
  have hmembers : forall (members : List (Uuid × SessionRole)) (store : Store),
      members.foldl (fun store m =>
          store.addSessionToWorkspace w.id m.1 m.2 (clock.addedAt w.id m.1)) store =
        { store with
          db := store.db.write (members.map (fun m =>
            Edit.put (membershipKey w.id m.1)
              (Record.membership ⟨w.id, m.1, m.2, clock.addedAt w.id m.1⟩))) } := by
    intro members
    induction members with
    | nil =>
        exact fun _ => rfl
    | cons m rest ih =>
        intro store
        rw [List.foldl_cons, ih]
        rfl
  unfold saveWorkspace
  rw [hmembers]
  rfl

variable {store : Store}

omit [UuidText] in
theorem mem_listWorkspaces {w : StoredWorkspace} (h : w ∈ store.listWorkspaces) :
    exists (k : String) (x : StoredWorkspace),
      store.workspaces[k]? = some x ∧ x.id = w.id := by
  obtain ⟨e, he, rfl⟩ := List.mem_map.mp h
  exact ⟨e.1, e.2, Std.ExtTreeMap.mem_toList_iff_getElem?_eq_some.mp he, rfl⟩

variable {options : ImportOptions} {state : Store × ImportResult}

theorem importWorkspace_new (hfilter : options.workspaceFilter = none)
    (clock : ImportClock) {w : ExportedWorkspace}
    (hnew : forall (k : String) (x : StoredWorkspace),
      state.1.workspaces[k]? = some x -> x.id ≠ w.id) :
    (importWorkspace clock options state w).1 = saveWorkspace clock state.1 w := by
  have hnone : state.1.listWorkspaces.any (fun other => other.id == w.id) = false := by
    rw [List.any_eq_false]
    intro other hother
    obtain ⟨k, x, hx, hid⟩ := mem_listWorkspaces hother
    rw [beq_iff_eq, ← hid]
    exact hnew k x hx
  simp [importWorkspace, passes, hfilter, hnone]

variable {ws : List ExportedWorkspace}

theorem importWorkspaces_eq (hfilter : options.workspaceFilter = none)
    (clock : ImportClock) (hids : (ws.map ExportedWorkspace.id).Nodup)
    (hnew : forall w, w ∈ ws -> forall (k : String) (x : StoredWorkspace),
      state.1.workspaces[k]? = some x ->
      x.id ≠ w.id) :
    (ws.foldl (importWorkspace clock options) state).1 =
      { state.1 with
        workspaces := ws.foldl (fun db w => db.insert (workspaceKey w.id)
          (savedWorkspace clock w)) state.1.workspaces
        db := state.1.db.write (ws.flatMap (memberEdits clock)) } := by
  induction ws generalizing state with
  | nil =>
      rfl
  | cons w rest ih =>
      rw [List.map_cons, List.nodup_cons] at hids
      have hfirst := importWorkspace_new hfilter clock (hnew w List.mem_cons_self)
      rw [saveWorkspace_eq] at hfirst
      have hrest : forall w', w' ∈ rest -> forall (k : String) (x : StoredWorkspace),
          (importWorkspace clock options state w).1.workspaces[k]? = some x ->
          x.id ≠ w'.id := by
        intro w' hw' k x hx
        rw [hfirst] at hx
        dsimp only at hx
        rw [Std.ExtTreeMap.getElem?_insert] at hx
        split at hx
        · cases hx
          intro heq
          have hid : w.id = w'.id := heq
          rw [hid] at hids
          exact hids.1 (List.mem_map_of_mem hw')
        · exact hnew w' (List.mem_cons_of_mem _ hw') k x hx
      rw [List.foldl_cons, ih hids.2 hrest, hfirst]
      dsimp only
      rw [List.flatMap_cons, Database.write_append]
      rfl

/-!
# Memberships
-/

def memberKey (m : StoredWorkspaceSession) : String :=
  membershipKey m.workspaceId m.sessionId

def memberOf (e : String × Record SessionBlob) : Option StoredWorkspaceSession :=
  match e.2 with
  | Record.membership m => if hasPrefix "ws_session:" e.1 then some m else none
  | _ => none

variable {m : StoredWorkspaceSession}

theorem memberOf_some {e : String × Record SessionBlob} (hfitting : Fitting e.1 e.2)
    (h : memberOf e = some m) :
    e = (memberKey m, Record.membership m) := by
  obtain ⟨k, r⟩ := e
  unfold memberOf at h
  dsimp only at h hfitting
  split at h
  · split at h
    · next hprefix =>
      cases h
      obtain ⟨m', hr, hk⟩ := hfitting.member hprefix
      cases hr
      rw [hk]
      rfl
    · cases h
  · cases h

theorem memberOf_member (m : StoredWorkspaceSession) :
    memberOf (memberKey m, Record.membership m) = some m := by
  have hprefix := membershipKey_kind m.workspaceId m.sessionId
  unfold memberOf memberKey
  dsimp only
  rw [if_pos hprefix]

theorem mem_memberships (h : AllFitting store.db) :
    m ∈ store.memberships ↔
      store.db[memberKey m]? = some (Record.membership m) := by
  have hlist : store.memberships = store.db.toList.filterMap memberOf := rfl
  rw [hlist, List.mem_filterMap]
  constructor
  · rintro ⟨e, he, hm⟩
    have hget := Std.ExtTreeMap.mem_toList_iff_getElem?_eq_some.mp he
    have heq := memberOf_some (h e.1 e.2 hget) hm
    rw [heq] at hget
    exact hget
  · intro hget
    exact ⟨_, Std.ExtTreeMap.mem_toList_iff_getElem?_eq_some.mpr hget,
      memberOf_member m⟩

variable {w : Uuid}

theorem mem_membersOf (h : AllFitting store.db) {p : Uuid × SessionRole} :
    p ∈ store.membersOf w ↔ exists addedAt, store.db[membershipKey w p.1]? =
      some (Record.membership ⟨w, p.1, p.2, addedAt⟩) := by
  unfold Store.membersOf
  rw [List.mem_map]
  constructor
  · rintro ⟨m, hm, rfl⟩
    obtain ⟨hmem, hid⟩ := List.mem_filter.mp hm
    have hget := (mem_memberships h).mp hmem
    rw [← beq_iff_eq.mp hid]
    exact ⟨m.addedAt, hget⟩
  · rintro ⟨addedAt, hget⟩
    refine ⟨⟨w, p.1, p.2, addedAt⟩, List.mem_filter.mpr ⟨?_, by simp⟩, rfl⟩
    exact (mem_memberships h).mpr hget

theorem sorted_membersOf (h : AllFitting store.db) (w : Uuid) :
    (store.membersOf w).Pairwise (fun p q =>
      compare (membershipKey w p.1) (membershipKey w q.1) = Ordering.lt) := by
  have hlist : store.memberships = store.db.toList.filterMap memberOf := rfl
  have hsorted : store.memberships.Pairwise (fun m n =>
      compare (memberKey m) (memberKey n) = Ordering.lt) := by
    rw [hlist, List.pairwise_filterMap]
    refine (Std.ExtTreeMap.ordered_keys_toList (t := store.db)).imp_of_mem ?_
    intro x y hx hy hlt m hm n hn
    have hx' := memberOf_some
      (h _ _ (Std.ExtTreeMap.mem_toList_iff_getElem?_eq_some.mp hx)) hm
    have hy' := memberOf_some
      (h _ _ (Std.ExtTreeMap.mem_toList_iff_getElem?_eq_some.mp hy)) hn
    rw [hx', hy'] at hlt
    exact hlt
  unfold Store.membersOf
  rw [List.pairwise_map]
  refine (hsorted.filter _).imp_of_mem ?_
  intro m n hm hn hlt
  have hwm := beq_iff_eq.mp (List.mem_filter.mp hm).2
  have hwn := beq_iff_eq.mp (List.mem_filter.mp hn).2
  unfold memberKey at hlt
  rw [hwm, hwn] at hlt
  exact hlt

/-- Two stores in which a workspace has the same members list them in the same
order. -/
theorem membersOf_eq {other : Store} (h : AllFitting store.db)
    (hother : AllFitting other.db)
    (hsame : forall p, p ∈ other.membersOf w ↔ p ∈ store.membersOf w) :
    other.membersOf w = store.membersOf w := by
  have : Std.Irrefl (fun p q : Uuid × SessionRole =>
      compare (membershipKey w p.1) (membershipKey w q.1) = Ordering.lt) :=
    ⟨fun p => by simp [Std.ReflCmp.compare_self]⟩
  have : Std.Antisymm (fun p q : Uuid × SessionRole =>
      compare (membershipKey w p.1) (membershipKey w q.1) = Ordering.lt) :=
    ⟨fun p q hpq hqp => absurd (Std.TransCmp.lt_trans hpq hqp)
      (by simp [Std.ReflCmp.compare_self])⟩
  exact (sorted_membersOf hother w).eq_of_mem_iff (sorted_membersOf h w) hsame

theorem membershipKey_inj [LawfulUuidText] {w' s s' : Uuid}
    (h : membershipKey w s = membershipKey w' s') :
    w = w' ∧ s = s' := by
  have hkey : forall w s, membershipKey w s =
      "ws_session:" ++ UuidText.toText w ++ (":" ++ UuidText.toText s) := by
    intro w s
    simp [membershipKey, sessionPrefix, String.append_assoc]
  rw [hkey, hkey] at h
  obtain ⟨hw, hrest⟩ := id_of_append h
  exact ⟨hw, toText_inj ((String.append_right_inj _).mp hrest)⟩

variable {clock : ImportClock}

theorem mem_memberEdits {k : String} {r : Record SessionBlob} :
    Edit.put k r ∈ ws.flatMap (memberEdits clock) ↔
      exists w m, w ∈ ws ∧ m ∈ w.sessions ∧ k = membershipKey w.id m.1 ∧
        r = Record.membership ⟨w.id, m.1, m.2, clock.addedAt w.id m.1⟩ := by
  rw [List.mem_flatMap]
  constructor
  · rintro ⟨w, hw, hput⟩
    obtain ⟨m, hm, heq⟩ := List.mem_map.mp hput
    cases heq
    exact ⟨w, m, hw, hm, rfl, rfl⟩
  · rintro ⟨w, m, hw, hm, rfl, rfl⟩
    exact ⟨w, hw, List.mem_map.mpr ⟨m, hm, rfl⟩⟩

variable {db : Db SessionBlob}

/-- The memberships written for workspaces with different ids, none of which has a
session twice. -/
theorem get_memberEdits [LawfulUuidText]
    (hnone : forall k r, db[k]? = some r -> hasPrefix "ws_session:" k = false)
    (hids : (ws.map ExportedWorkspace.id).Nodup) {w : ExportedWorkspace}
    (hw : w ∈ ws) (hmembers : (w.sessions.map Prod.fst).Nodup)
    (p : Uuid × SessionRole) :
    (exists addedAt, (db.write (ws.flatMap (memberEdits clock)))[membershipKey w.id
        p.1]? = some (Record.membership ⟨w.id, p.1, p.2, addedAt⟩)) ↔
      p ∈ w.sessions := by
  have hput : forall r, (db.write (ws.flatMap (memberEdits clock)))[membershipKey w.id
      p.1]? = some r -> exists m, m ∈ w.sessions ∧ m.1 = p.1 ∧
        r = Record.membership ⟨w.id, p.1, m.2, clock.addedAt w.id p.1⟩ := by
    intro r hr
    rcases Database.get_write_some hr with hold | hnew
    · have hprefix := membershipKey_kind w.id p.1
      rw [hnone _ r hold] at hprefix
      cases hprefix
    · obtain ⟨w', m, hw', hm, hkey, hr'⟩ := mem_memberEdits.mp hnew
      obtain ⟨hid, hs⟩ := membershipKey_inj hkey
      have hsame := List.inj_on_of_nodup_map hids hw hw' hid
      subst hsame
      refine ⟨m, hm, hs.symm, ?_⟩
      rw [hr', hs]
  constructor
  · rintro ⟨addedAt, hget⟩
    obtain ⟨m, hm, hs, hr⟩ := hput _ hget
    simp only [Record.membership.injEq, StoredWorkspaceSession.mk.injEq] at hr
    rw [show p = m from Prod.ext hs.symm hr.2.2.1]
    exact hm
  · intro hp
    have hputs : forall e, e ∈ ws.flatMap (memberEdits clock) ->
        exists k r, e = Edit.put k r := by
      intro e he
      obtain ⟨w', -, he⟩ := List.mem_flatMap.mp he
      obtain ⟨m, -, rfl⟩ := List.mem_map.mp he
      exact ⟨_, _, rfl⟩
    have hsome := (Database.isSome_write_puts db hputs (membershipKey w.id p.1)).mpr
      (Or.inl ⟨_, mem_memberEdits.mpr ⟨w, p, hw, hp, rfl, rfl⟩, rfl⟩)
    obtain ⟨r, hr⟩ := Option.isSome_iff_exists.mp hsome
    obtain ⟨m, hm, hs, rfl⟩ := hput r hr
    have hsame := List.inj_on_of_nodup_map hmembers hm hp hs
    subst hsame
    exact ⟨_, hr⟩

theorem importSessions_holds {p : String -> Record SessionBlob -> Prop}
    (hp : HoldsOfSaves p) (options : ImportOptions) (es : List ExportedSession)
    (state : Store × ImportResult)
    (h : forall k r, state.1.db[k]? = some r -> p k r) :
    forall k r, (es.foldl (importSession options) state).1.db[k]? = some r ->
      p k r := by
  induction es generalizing state with
  | nil =>
      exact h
  | cons e rest ih =>
      refine ih _ ?_
      unfold importSession
      dsimp only
      split
      · exact h
      · split
        · exact h
        · split
          · exact h
          · exact hp.batch (hp.persist h _ _ _ _) _ _

theorem saves_no_members :
    HoldsOfSaves (fun k _ => hasPrefix "ws_session:" k = false) where
  update := by
    intro s w
    rw [updateKey_eq, String.append_assoc]
    exact session_apart.not_hasPrefix _
  index := by
    intro s ids
    have hapart : Apart "ws_session:" "session_updates:" := by
      decide
    exact hapart.not_hasPrefix _
  summary := by
    intro s summary
    have hapart : Apart "ws_session:" "session_meta:" := by
      decide
    exact hapart.not_hasPrefix _
  session := fun s b => session_apart.not_hasPrefix _

theorem nodup_membersOf (h : AllFitting store.db) (w : Uuid) :
    ((store.membersOf w).map Prod.fst).Nodup := by
  rw [List.Nodup, List.pairwise_map]
  refine (sorted_membersOf h w).imp ?_
  intro p q hlt heq
  rw [heq] at hlt
  simp [Std.ReflCmp.compare_self] at hlt

/-!
# The imported store
-/

variable [CharTables]

/-- The store after an import is known from the document. -/
structure ImportOf (clock : ImportClock) (data : ExportData) (after : Store) : Prop where
  fitting : AllFitting after.db
  members : exists db : Db SessionBlob, (forall k r, db[k]? = some r ->
      hasPrefix "ws_session:" k = false) ∧
    after.db = db.write (data.workspaces.flatMap (memberEdits clock))
  workspaces : after.workspaces = data.workspaces.foldl
    (fun db w => db.insert (workspaceKey w.id) (savedWorkspace clock w)) ∅
  checkpoints : after.checkpoints = data.checkpoints.foldl
    (fun db c => db.insert (checkpointKey c.id) c) ∅
  embeddings : after.embeddings = []

variable {data : ExportData} {after : Store}

omit [CharTables] in
theorem importOf {result : ImportResult}
    (hids : (data.workspaces.map ExportedWorkspace.id).Nodup)
    (hfilter : options.workspaceFilter = none)
    (himport : importData clock Store.empty data options = Except.ok (after, result)) :
    ImportOf clock data after := by
  have hempty : forall k : String, Store.empty.db[k]? = none :=
    fun k => Std.ExtTreeMap.getElem?_empty
  unfold importData at himport
  split at himport
  · cases himport
  · let sessions := data.sessions.foldl (importSession options)
      (Store.empty, ImportResult.empty)
    obtain ⟨db, hdb⟩ := importSessions_frame options data.sessions
      (Store.empty, ImportResult.empty)
    have hsessions : sessions.1 = { Store.empty with db := db } := hdb
    have hnew : forall w, w ∈ data.workspaces ->
        forall (k : String) (x : StoredWorkspace),
          sessions.1.workspaces[k]? = some x -> x.id ≠ w.id := by
      intro w _ k x hx
      have hstored : sessions.1.workspaces = ∅ := by
        rw [hsessions]
        rfl
      rw [hstored, Std.ExtTreeMap.getElem?_empty] at hx
      cases hx
    have hworkspaces := importWorkspaces_eq hfilter clock hids hnew
    have hafter := importCheckpoints_eq data.checkpoints
      (data.workspaces.foldl (importWorkspace clock options) sessions)
    rw [hworkspaces, Except.ok.inj himport, hsessions] at hafter
    have hnomembers := importSessions_holds saves_no_members options data.sessions
      (Store.empty, ImportResult.empty)
      (fun k r hk => absurd ((hempty k).symm.trans hk) (by simp))
    have hfitting := importSessions_holds fitting_saves options data.sessions
      (Store.empty, ImportResult.empty)
      (fun k r hk => absurd ((hempty k).symm.trans hk) (by simp))
    rw [hdb] at hnomembers hfitting
    dsimp only at hafter hnomembers hfitting
    rw [hafter]
    refine ⟨every_write hfitting ?_, ⟨db, hnomembers, rfl⟩, rfl, rfl, rfl⟩
    intro k r hput
    obtain ⟨w, m, -, -, rfl, rfl⟩ := mem_memberEdits.mp hput
    exact fitting_membership ⟨w.id, m.1, m.2, clock.addedAt w.id m.1⟩

theorem imported_workspaces (h : Sound store)
    (hdata : data.workspaces = store.listWorkspaces.map exportWorkspace)
    (hafter : ImportOf clock data after)
    (hmembers : forall (k : String) (w : StoredWorkspace), store.workspaces[k]? = some w ->
      after.membersOf w.id = store.membersOf w.id) :
    after.listWorkspaces = store.listWorkspaces.map (fun w =>
      { w with createdAt := clock.savedAt w.id }) := by
  let hydrated := fun w : StoredWorkspace =>
    exportWorkspace { w with sessions := store.membersOf w.id }
  have hlist : data.workspaces = (store.workspaces.toList.map Prod.snd).map hydrated := by
    rw [hdata, Store.listWorkspaces, List.map_map, List.map_map]
    rfl
  have hmap : after.workspaces =
      store.workspaces.map (fun _ w => savedWorkspace clock (hydrated w)) := by
    rw [hafter.workspaces, hlist, List.foldl_map]
    exact foldl_insert_toList (fun w : StoredWorkspace => workspaceKey w.id) h.workspaces
      (fun w => savedWorkspace clock (hydrated w))
  unfold Store.listWorkspaces
  rw [hmap, Std.ExtTreeMap.toList_map, List.map_map, List.map_map]
  apply List.map_congr_left
  intro e he
  have hsame := hmembers e.1 e.2 (Std.ExtTreeMap.mem_toList_iff_getElem?_eq_some.mp he)
  show StoredWorkspace.mk e.2.id e.2.name e.2.description (after.membersOf e.2.id)
    (clock.savedAt e.2.id) = _
  rw [hsame]
  rfl

theorem nodup_listWorkspaces (h : Sound store) :
    (store.listWorkspaces.map StoredWorkspace.id).Nodup := by
  unfold Store.listWorkspaces
  rw [List.map_map, List.Nodup, List.pairwise_map]
  refine (Std.ExtTreeMap.ordered_keys_toList (t := store.workspaces)).imp_of_mem ?_
  intro x y hx hy hlt heq
  have hid : x.2.id = y.2.id := heq
  have hxk := h.workspaces _ _ (Std.ExtTreeMap.mem_toList_iff_getElem?_eq_some.mp hx)
  have hyk := h.workspaces _ _ (Std.ExtTreeMap.mem_toList_iff_getElem?_eq_some.mp hy)
  rw [hxk, hyk, hid] at hlt
  simp [Std.ReflCmp.compare_self] at hlt

theorem imported_members [LawfulUuidText] (h : Sound store)
    (hdata : data.workspaces = store.listWorkspaces.map exportWorkspace)
    (hids : (data.workspaces.map ExportedWorkspace.id).Nodup)
    (hafter : ImportOf clock data after) {k : String} {w : StoredWorkspace}
    (hw : store.workspaces[k]? = some w) :
    after.membersOf w.id = store.membersOf w.id := by
  obtain ⟨db, hnone, hdb⟩ := hafter.members
  let exported := exportWorkspace { w with sessions := store.membersOf w.id }
  have hexported : exported ∈ data.workspaces := by
    rw [hdata, Store.listWorkspaces, List.map_map]
    exact List.mem_map.mpr
      ⟨(k, w), Std.ExtTreeMap.mem_toList_iff_getElem?_eq_some.mpr hw, rfl⟩
  refine membersOf_eq h.fitting hafter.fitting ?_
  intro p
  rw [mem_membersOf hafter.fitting, hdb]
  exact get_memberEdits hnone hids hexported (nodup_membersOf h.fitting w.id) p

theorem imported_checkpoints (h : Sound store) {includeCheckpoints : Bool}
    (hdata : data.checkpoints =
      if includeCheckpoints then store.listCheckpoints else [])
    (hafter : ImportOf clock data after) :
    after.listCheckpoints =
      if includeCheckpoints then store.listCheckpoints else [] := by
  cases includeCheckpoints with
  | false =>
      rw [Store.listCheckpoints, hafter.checkpoints, hdata]
      rfl
  | true =>
      rw [if_pos rfl] at hdata ⊢
      have hmap : after.checkpoints = store.checkpoints.map (fun _ c => c) := by
        rw [hafter.checkpoints, hdata]
        exact foldl_insert_toList
          (fun c : Legacy.SessionCheckpoint => checkpointKey c.id)
          h.checkpoints (fun c => c)
      unfold Store.listCheckpoints
      rw [hmap, Std.ExtTreeMap.toList_map, List.map_map]
      rfl

theorem readAt_ok {s : Uuid} {data : ActiveSessionData}
    (hblob : blobOf db s = some (Except.ok data)) (now : Timestamp) :
    exists loaded, readAt now db s = Except.ok (some loaded) := by
  unfold readAt readSession
  rw [hblob]
  dsimp only
  split
  · next e herror => cases herror
  · split
    · exact ⟨_, rfl⟩
    · split
      · exact ⟨_, rfl⟩
      · exact ⟨_, rfl⟩

theorem vectorizedOf_eq (now : Timestamp) (db : Db SessionBlob) (s : Uuid) :
    vectorizedOf db s = ((loadedDocument now db s).map
      ActiveSessionData.vectorizedUpdateIds).toOption.getD [] := by
  cases hblob : blobOf db s with
  | none =>
      rw [loadedDocument_none hblob, vectorizedOf, hblob]
      rfl
  | some b =>
      cases b with
      | error e =>
          have hread : exists e, readAt now db s = Except.error e := by
            unfold readAt readSession
            rw [hblob]
            exact ⟨_, rfl⟩
          obtain ⟨e, hread⟩ := hread
          unfold loadedDocument loadSession
          rw [hread, vectorizedOf, hblob]
          rfl
      | ok data =>
          obtain ⟨loaded, hread⟩ := readAt_ok hblob now
          unfold loadedDocument loadSession
          rw [hread]
          rfl

end

section

variable [UuidText] [LawfulUuidText] [CharTables]

/-- What a round trip asks of the imported store. -/
structure Reproduced (store imported : Store) : Prop where
  sessions : forall early later s,
    loadedDocument later imported.db s = loadedDocument early store.db s
  checkpoints : imported.listCheckpoints = store.listCheckpoints
  workspaces : imported.listWorkspaces = store.listWorkspaces
  embedded : forall s id, id ∈ vectorizedOf imported.db s ->
    embeddingKey s (UuidText.toText id) ∈ imported.embeddings

/-- Checkpoints are asked for or there are none, every workspace is as old as its
import, and nothing is vectorized. -/
structure Exportable (clock : ImportClock) (includeCheckpoints : Bool)
    (store : Store) : Prop where
  checkpoints : includeCheckpoints = true ∨ store.listCheckpoints = []
  workspaces : forall w, w ∈ store.listWorkspaces -> w.createdAt = clock.savedAt w.id
  vectorized : forall s, vectorizedOf store.db s = []

theorem export_import_reproduces {store : Store}
    (h : stores.Reachable SavesKept store) (clock : ImportClock)
    {options : ImportOptions} (hsessions : options.sessionFilter = none)
    (hworkspaces : options.workspaceFilter = none) (now : Timestamp)
    (includeCheckpoints : Bool) :
    exists after result,
      importData clock Store.empty
        (exportFull now store includeCheckpoints).2 options =
          Except.ok (after, result) ∧
      (Reproduced store after ↔ Exportable clock includeCheckpoints store) := by
  have hsound := sound_of_reachable h
  obtain ⟨-, data, hdata, hversion, hids, hall, hws, hcs⟩ := hsound.exportFull now
    includeCheckpoints (fun s hs => (mem_listSessionIds hsound.fitting).mp hs)
  rw [hdata]
  have himport : exists p, importData clock Store.empty data options = Except.ok p := by
    unfold importData
    rw [hversion, exportFormatVersion_compatible]
    exact ⟨_, rfl⟩
  obtain ⟨⟨after, result⟩, himport⟩ := himport
  refine ⟨after, result, himport, ?_⟩
  have hwids : (data.workspaces.map ExportedWorkspace.id).Nodup := by
    rw [hws, List.map_map]
    exact nodup_listWorkspaces hsound
  have hafter := importOf hwids hworkspaces himport
  have hloads := imported_sessions hsound hversion hids hall hsessions himport
  have hlist := imported_workspaces hsound hws hafter
    (fun k w hw => imported_members hsound hws hwids hafter hw)
  have hcheckpoints := imported_checkpoints hsound hcs hafter
  have hvectorized : forall s, vectorizedOf after.db s = vectorizedOf store.db s := by
    intro s
    rw [vectorizedOf_eq 0, vectorizedOf_eq 0, hloads 0 0 s]
  constructor
  · intro hsame
    refine ⟨?_, ?_, ?_⟩
    · cases includeCheckpoints with
      | true => exact Or.inl rfl
      | false => exact Or.inr (hsame.checkpoints.symm.trans hcheckpoints)
    · intro w hw
      have hkept := hlist.symm.trans hsame.workspaces
      have hone := List.map_inj_left.mp (hkept.trans (List.map_id _).symm) w hw
      exact (congrArg StoredWorkspace.createdAt hone).symm
    · intro s
      rw [List.eq_nil_iff_forall_not_mem]
      intro id hid
      rw [← hvectorized] at hid
      have hkey := hsame.embedded s id hid
      rw [hafter.embeddings] at hkey
      cases hkey
  · intro hcond
    refine ⟨hloads, ?_, ?_, ?_⟩
    · rw [hcheckpoints]
      rcases hcond.checkpoints with rfl | hnone
      · rfl
      · rw [hnone, ite_self]
    · rw [hlist]
      refine (List.map_congr_left (g := id) ?_).trans (List.map_id _)
      intro w hw
      have hcreated := hcond.workspaces w hw
      rw [← hcreated]
      rfl
    · intro s id hid
      rw [hvectorized, hcond.vectorized] at hid
      cases hid

end

/-!
# Two stores
-/

section

attribute [local instance] EntityGraph.asciiTables hyphenatedText
  lawful_hyphenatedText

def plainCheckpoint : Legacy.SessionCheckpoint where
  id := 4
  sessionId := 7
  createdAt := 9
  structuredContext := StructuredContext.new
  recentUpdates := []
  codeReferences := []
  changeHistory := []
  totalUpdates := 2
  contextQualityScore := 1
  compressionRatio := 1

def plainOptions : ImportOptions where
  sessionFilter := none
  workspaceFilter := none
  skipExisting := false
  overwrite := false

theorem plainSession_kept (id : Uuid) (updates : List Uuid) :
    Kept (plainSession id updates) where
  graph := EntityGraph.restorable_new
  tier := HotContext.tiered_new 50
  room := rfl
  cold := ⟨Nat.zero_le _, fun _ hc => absurd hc List.not_mem_nil⟩

def plainContent (vectorized : List Uuid) : List StoreOp :=
  [StoreOp.persist (plainSession 7 [1, 2]) vectorized [] [],
    StoreOp.saveWorkspaceMetadata 3 "work" "plain" [7] 5,
    StoreOp.saveCheckpoint plainCheckpoint]

def plainStored (vectorized : List Uuid) : Store :=
  (plainContent vectorized).foldl StoreOp.apply Store.empty

theorem plainStored_reachable {vectorized : List Uuid} (h : vectorized.Nodup) :
    stores.Reachable SavesKept (plainStored vectorized) := by
  have hpersist : SavesKept stores.init
      (StoreOp.persist (plainSession 7 [1, 2]) vectorized [] []) :=
    ⟨plainSession_kept 7 [1, 2], h⟩
  have hworkspace : forall store, SavesKept store
      (StoreOp.saveWorkspaceMetadata 3 "work" "plain" [7] 5) := fun _ => True.intro
  have hcheckpoint : forall store, SavesKept store
      (StoreOp.saveCheckpoint plainCheckpoint) := fun _ => True.intro
  exact ((System.Reachable.init.step hpersist rfl).step (hworkspace _) rfl).step
    (hcheckpoint _) rfl

theorem vectorizedOf_plainStored (s : Uuid) :
    vectorizedOf (plainStored []).db s = [] := by
  have hdb : (plainStored []).db = (persistSession ∅ (plainSession 7 [1, 2])
      (sessionBlob (plainSession 7 [1, 2]) []) [] []).1 := rfl
  unfold vectorizedOf
  by_cases hs : (plainSession 7 [1, 2]).metadata.id = s
  · rw [hdb, ← hs, persist_blob]
    rfl
  · have hempty : blobOf (∅ : Db SessionBlob) s = none := by
      unfold blobOf
      rw [Std.ExtTreeMap.getElem?_empty]
    rw [hdb, (persist_other _ _ _ _ _ hs).blobs, hempty]

/-- A store that was filled in the second of the import. -/
theorem export_import_reproduces_plain :
    exists after result,
      importData plainClock Store.empty (exportFull 0 (plainStored []) true).2
        plainOptions = Except.ok (after, result) ∧
      Reproduced (plainStored []) after := by
  obtain ⟨after, result, himport, hiff⟩ := export_import_reproduces
    (plainStored_reachable List.nodup_nil) plainClock
    (rfl : plainOptions.sessionFilter = none) rfl 0 true
  have hcreated : forall w, w ∈ (plainStored []).listWorkspaces ->
      w.createdAt = plainClock.savedAt w.id := by
    decide +kernel
  exact ⟨after, result, himport,
    hiff.mpr ⟨Or.inl rfl, hcreated, vectorizedOf_plainStored⟩⟩

/-- A vectorized update whose embedding is not in the document. -/
theorem embedding_not_imported :
    ¬ forall (store : Store), stores.Reachable SavesKept store ->
      forall (clock : ImportClock) (now : Timestamp) (after : Store)
        (result : ImportResult),
        importData clock Store.empty (exportFull now store true).2 plainOptions =
          Except.ok (after, result) ->
        Reproduced store after := by
  intro hall
  have hembedding : SavesKept (plainStored [1])
      (StoreOp.saveEmbedding 7 (hyphenated 1)) := True.intro
  have hreach : stores.Reachable SavesKept
      (StoreOp.apply (plainStored [1]) (StoreOp.saveEmbedding 7 (hyphenated 1))) :=
    (plainStored_reachable (List.nodup_singleton 1)).step hembedding rfl
  have hrun : (importData plainClock Store.empty (exportFull 0
      (StoreOp.apply (plainStored [1]) (StoreOp.saveEmbedding 7 (hyphenated 1)))
      true).2 plainOptions).toOption.any (fun p => decide
        (1 ∈ vectorizedOf p.1.db 7 ∧ p.1.embeddings = [])) = true := by
    decide +kernel
  cases himport : importData plainClock Store.empty (exportFull 0
      (StoreOp.apply (plainStored [1]) (StoreOp.saveEmbedding 7 (hyphenated 1)))
      true).2 plainOptions with
  | error e =>
      rw [himport] at hrun
      cases hrun
  | ok p =>
      rw [himport] at hrun
      obtain ⟨hmarked, hnone⟩ := of_decide_eq_true hrun
      have hkey := (hall _ hreach plainClock 0 p.1 p.2 himport).embedded 7 1 hmarked
      rw [hnone] at hkey
      cases hkey

end

end Storage
end PostCortex
