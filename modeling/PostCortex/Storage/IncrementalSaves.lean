import PostCortex.Graph.Loading
import PostCortex.Storage.SurrealSessions

/-!
# Incremental saves

A save leaves out what the persisted state says is stored.  While what it says is
true of the rows, the save makes of the tables what a save of everything makes of
them.
-/

namespace PostCortex
namespace Storage
namespace Surreal

open PostCortex.Core
open PostCortex.Graph
open KeyValue
open Session
open Transition

section

/-!
# What a save writes
-/

variable {s other : Uuid} {t : Tables} {session : ActiveSession}
  {explicit : List ContextUpdate} {removed : List Uuid}

theorem mem_writtenUpdates {stored : List Uuid} {u : ContextUpdate}
    (hu : u ∈ writtenUpdates session stored explicit removed) :
    u ∈ explicit ++ session.incrementalUpdates ∧ u.id ∉ removed := by
  rcases List.mem_append.mp hu with hu | hu
  · obtain ⟨hmem, hremoved⟩ := List.mem_filter.mp hu
    exact ⟨List.mem_append_left _ hmem, of_decide_eq_true hremoved⟩
  · obtain ⟨hmem, hnot⟩ := List.mem_filter.mp hu
    exact ⟨List.mem_append_right _ hmem, (of_decide_eq_true hnot).2.2⟩

theorem writtenUpdates_filter (session : ActiveSession) (stored : List Uuid)
    (explicit : List ContextUpdate) (removed : List Uuid) :
    writtenUpdates session stored explicit removed =
      (writtenUpdates session [] explicit removed).filter (fun u =>
        decide (u.id ∈ explicit.map ContextUpdate.id ∨ u.id ∉ stored)) := by
  rw [writtenUpdates, writtenUpdates, List.filter_append, List.filter_filter,
    List.filter_filter]
  congr 1
  · apply List.filter_congr
    intro u hu
    simp [List.mem_map_of_mem hu]
  · apply List.filter_congr
    intro u _
    by_cases hexplicit : u.id ∈ explicit.map ContextUpdate.id
    · simp [hexplicit]
    · simp [hexplicit]

theorem nodup_allRelationships {graph : EntityGraph} (hindexed : graph.Indexed)
    (hunique : graph.relationKeys.Nodup) :
    (graph.getAllRelationships.map EntityGraph.relationKey).Nodup := by
  rw [hindexed.allRelationships]
  exact hunique

/-!
# Rows that stay
-/

/-- The rows of a session are the same in both states of the tables. -/
structure SameRows (s : Uuid) (t t' : Tables) : Prop where
  updates : forall (k : String) (r : ContextUpdateRecord), r.sessionId = s ->
    (t'.updates[k]? = some r ↔ t.updates[k]? = some r)
  entities : forall (k : String) (r : EntityRecord), r.sessionId = s ->
    (t'.entities[k]? = some r ↔ t.entities[k]? = some r)
  relations : forall (k : String) (r : RelationRow), r.sessionId = s ->
    (t'.relations[k]? = some r ↔ t.relations[k]? = some r)

theorem SameRows.refl (s : Uuid) (t : Tables) : SameRows s t t :=
  ⟨fun _ _ _ => Iff.rfl, fun _ _ _ => Iff.rfl, fun _ _ _ => Iff.rfl⟩

theorem SameRows.trans {t' t'' : Tables} (h : SameRows s t t')
    (h' : SameRows s t' t'') :
    SameRows s t t'' where
  updates k r hr := (h'.updates k r hr).trans (h.updates k r hr)
  entities k r hr := (h'.entities k r hr).trans (h.entities k r hr)
  relations k r hr := (h'.relations k r hr).trans (h.relations k r hr)

theorem same_of_write {value : Type} {db : Database String value} {p : value -> Prop}
    {batch : List (Edit String value)}
    (hforeign : forall e, e ∈ batch -> forall v, db[e.target]? = some v -> ¬ p v)
    (hputs : forall k v, Edit.put k v ∈ batch -> ¬ p v) (k : String) (v : value)
    (hv : p v) :
    (db.write batch)[k]? = some v ↔ db[k]? = some v := by
  constructor
  · intro hafter
    rcases Database.get_write_some hafter with hbefore | hput
    · exact hbefore
    · exact absurd hv (hputs k v hput)
  · intro hbefore
    rw [Database.get_write_other db, hbefore]
    intro e he hk
    subst hk
    exact hforeign e he v hbefore hv

theorem same_of_filter {value : Type} {db : Database String value}
    {session : value -> Uuid} {s other : Uuid} (hother : s ≠ other) (k : String)
    (v : value) (hv : session v = other) :
    (db.filter (fun _ v => session v != s))[k]? = some v ↔ db[k]? = some v := by
  rw [Std.ExtTreeMap.getElem?_filter', Option.filter_eq_some_iff]
  constructor
  · exact fun h => h.1
  · intro h
    refine ⟨h, ?_⟩
    rw [hv, bne_iff_ne]
    exact hother.symm

theorem sameRows_deleteGraph (t : Tables) {s other : Uuid} (hother : s ≠ other) :
    SameRows other t (t.deleteGraph s) where
  updates _ _ _ := Iff.rfl
  entities k r hr := same_of_filter hother k r hr
  relations k r hr := same_of_filter hother k r hr

variable [UuidText] [SurrealCodes]

/-- Every row stands under the key of what it holds. -/
structure Formed (t : Tables) : Prop where
  updates : forall k r, t.updates[k]? = some r ->
    exists s u, k = UuidText.toText u.id ∧ r = updateRecord s u
  entities : forall k r, t.entities[k]? = some r ->
    k = entityId r.sessionId r.entity.name
  relations : forall k row, t.relations[k]? = some row ->
    exists s r, k = relationKey s r ∧ row = relationRow s r

theorem Formed.upsertUpdates (h : Formed t) (s : Uuid)
    (updates : List ContextUpdate) :
    Formed (t.upsertUpdates s updates) where
  updates := by
    intro k r hr
    rcases Database.get_write_some hr with hold | hput
    · exact h.updates k r hold
    · obtain ⟨u, _, heq⟩ := List.mem_map.mp hput
      cases heq
      exact ⟨s, u, rfl, rfl⟩
  entities := h.entities
  relations := h.relations

theorem Formed.deleteUpdates (h : Formed t) (removed : List Uuid) :
    Formed (t.deleteUpdates removed) where
  updates := by
    intro k r hr
    rcases Database.get_write_some hr with hold | hput
    · exact h.updates k r hold
    · exact absurd hput Database.not_mem_deletes
  entities := h.entities
  relations := h.relations

theorem Formed.upsertEntities (h : Formed t) (s : Uuid)
    {entities : List (String × EntityData)}
    (hnamed : forall e, e ∈ entities -> e.2.name = e.1) :
    Formed (t.upsertEntities s entities) where
  updates := h.updates
  entities := by
    intro k r hr
    rcases Database.get_write_some hr with hold | hput
    · exact h.entities k r hold
    · obtain ⟨e, he, heq⟩ := List.mem_map.mp hput
      cases heq
      rw [hnamed e he]
  relations := h.relations

theorem Formed.upsertRelations (h : Formed t) (s : Uuid)
    (relations : List EntityRelationship) :
    Formed (t.upsertRelations s relations) where
  updates := h.updates
  entities := h.entities
  relations := by
    intro k row hrow
    rcases Database.get_write_some hrow with hold | hput
    · exact h.relations k row hold
    · obtain ⟨r, _, heq⟩ := List.mem_map.mp hput
      cases heq
      exact ⟨s, r, rfl, rfl⟩

theorem Formed.deleteGraph (h : Formed t) (s : Uuid) :
    Formed (t.deleteGraph s) where
  updates := h.updates
  entities := by
    intro k r hr
    have hfilter : (t.entities.filter (fun _ e => e.sessionId != s))[k]? = some r := hr
    rw [Std.ExtTreeMap.getElem?_filter'] at hfilter
    exact h.entities k r (Option.filter_eq_some_iff.mp hfilter).1
  relations := by
    intro k r hr
    have hfilter : (t.relations.filter (fun _ e => e.sessionId != s))[k]? = some r := hr
    rw [Std.ExtTreeMap.getElem?_filter'] at hfilter
    exact h.relations k r (Option.filter_eq_some_iff.mp hfilter).1

theorem sameRows_upsertUpdates (hother : s ≠ other) {updates : List ContextUpdate}
    (hfree : forall u, u ∈ updates -> t.RowFree s u.id) :
    SameRows other t (t.upsertUpdates s updates) where
  updates := by
    apply same_of_write
    · intro e he r hr hsession
      obtain ⟨u, hu, rfl⟩ := List.mem_map.mp he
      have hrow := hfree u hu
      unfold Tables.RowFree at hrow
      have hget : t.updates[UuidText.toText u.id]? = some r := hr
      rw [hget] at hrow
      have hs : r.sessionId = s := by simpa using hrow
      exact hother (hs.symm.trans hsession)
    · intro k r hput hsession
      obtain ⟨u, _, heq⟩ := List.mem_map.mp hput
      cases heq
      exact hother hsession
  entities _ _ _ := Iff.rfl
  relations _ _ _ := Iff.rfl

omit [SurrealCodes] in
theorem sameRows_deleteUpdates (hother : s ≠ other)
    (hfree : forall id, id ∈ removed -> t.RowFree s id) :
    SameRows other t (t.deleteUpdates removed) where
  updates := by
    apply same_of_write
    · intro e he r hr hsession
      obtain ⟨k, hk, rfl⟩ := List.mem_map.mp he
      obtain ⟨id, hid, rfl⟩ := List.mem_map.mp hk
      have hrow := hfree id hid
      unfold Tables.RowFree at hrow
      have hget : t.updates[UuidText.toText id]? = some r := hr
      rw [hget] at hrow
      have hs : r.sessionId = s := by simpa using hrow
      exact hother (hs.symm.trans hsession)
    · exact fun k r hput => absurd hput Database.not_mem_deletes
  entities _ _ _ := Iff.rfl
  relations _ _ _ := Iff.rfl

theorem sameRows_upsertEntities [LawfulUuidText] (h : Formed t) (hother : s ≠ other)
    (entities : List (String × EntityData)) :
    SameRows other t (t.upsertEntities s entities) where
  updates _ _ _ := Iff.rfl
  entities := by
    apply same_of_write
    · intro e he r hr hsession
      obtain ⟨x, _, rfl⟩ := List.mem_map.mp he
      have hkey := h.entities _ r hr
      exact hother ((entityId_inj hkey).1.trans hsession)
    · intro k r hput hsession
      obtain ⟨x, _, heq⟩ := List.mem_map.mp hput
      cases heq
      exact hother hsession
  relations _ _ _ := Iff.rfl

theorem sameRows_upsertRelations [LawfulSurrealCodes] (h : Formed t)
    (hother : s ≠ other) (relations : List EntityRelationship) :
    SameRows other t (t.upsertRelations s relations) where
  updates _ _ _ := Iff.rfl
  entities _ _ _ := Iff.rfl
  relations := by
    apply same_of_write
    · intro e he row hrow hsession
      obtain ⟨r, _, rfl⟩ := List.mem_map.mp he
      obtain ⟨owner, r', hkey, rfl⟩ := h.relations _ row hrow
      exact hother ((relationKey_inj hkey).1.trans hsession)
    · intro k row hput hsession
      obtain ⟨r, _, heq⟩ := List.mem_map.mp hput
      cases heq
      exact hother hsession

/-!
# The statements of a save
-/

def updatesSaved (query : SaveQuery) (t : Tables) (s : Uuid)
    (failed : FailedStatements) : Tables :=
  let t := if failed.updates then t else t.upsertUpdates s query.updates
  if failed.removed then t else t.deleteUpdates query.removed

theorem run_updates (query : SaveQuery) (t : Tables) (s : Uuid)
    (failed : FailedStatements) :
    (query.run t s failed).updates = (updatesSaved query t s failed).updates := by
  unfold SaveQuery.run updatesSaved
  cases failed.session <;> cases failed.updates <;> cases failed.removed <;>
    cases failed.entities <;> cases failed.relations <;> rfl

theorem run_entities (query : SaveQuery) (t : Tables) (s : Uuid)
    (failed : FailedStatements) :
    (query.run t s failed).entities =
      (if failed.entities then t else t.upsertEntities s query.entities).entities := by
  unfold SaveQuery.run
  cases failed.session <;> cases failed.updates <;> cases failed.removed <;>
    cases failed.entities <;> cases failed.relations <;> rfl

theorem run_relations (query : SaveQuery) (t : Tables) (s : Uuid)
    (failed : FailedStatements) :
    (query.run t s failed).relations =
      (if failed.relations then t
        else t.upsertRelations s query.relations).relations := by
  unfold SaveQuery.run
  cases failed.session <;> cases failed.updates <;> cases failed.removed <;>
    cases failed.entities <;> cases failed.relations <;> rfl

theorem Tables.RowFree.upsertUpdates [LawfulUuidText] {id : Uuid} (h : t.RowFree s id)
    (updates : List ContextUpdate) :
    (t.upsertUpdates s updates).RowFree s id := by
  unfold Tables.RowFree at h ⊢
  rw [updates_upsertUpdates]
  cases Database.lastWith ContextUpdate.id id updates with
  | none => exact h
  | some u => simp [updateRecord]

/-- The ids that a save writes or removes have rows of no other session. -/
structure QueryFree (query : SaveQuery) (t : Tables) (s : Uuid) : Prop where
  updates : forall u, u ∈ query.updates -> t.RowFree s u.id
  removed : forall id, id ∈ query.removed -> t.RowFree s id

variable {query : SaveQuery}

theorem sameRows_updatesSaved [LawfulUuidText] (hother : s ≠ other) (hfree : QueryFree query t s)
    (failed : FailedStatements) :
    SameRows other t (updatesSaved query t s failed) := by
  unfold updatesSaved
  cases failed.updates with
  | true =>
      cases failed.removed with
      | true => exact SameRows.refl other t
      | false => exact sameRows_deleteUpdates hother hfree.removed
  | false =>
      have hupserted := sameRows_upsertUpdates hother hfree.updates
      cases failed.removed with
      | true => exact hupserted
      | false =>
          exact hupserted.trans (sameRows_deleteUpdates hother
            (fun id hid => (hfree.removed id hid).upsertUpdates query.updates))

theorem sameRows_run [LawfulUuidText] [LawfulSurrealCodes] (h : Formed t) (hother : s ≠ other)
    (hfree : QueryFree query t s) (failed : FailedStatements) :
    SameRows other t (query.run t s failed) where
  updates := by
    rw [run_updates]
    exact (sameRows_updatesSaved hother hfree failed).updates
  entities := by
    rw [run_entities]
    cases failed.entities with
    | true => exact fun _ _ _ => Iff.rfl
    | false => exact (sameRows_upsertEntities h hother query.entities).entities
  relations := by
    rw [run_relations]
    cases failed.relations with
    | true => exact fun _ _ _ => Iff.rfl
    | false => exact (sameRows_upsertRelations h hother query.relations).relations

theorem Formed.updatesSaved (h : Formed t) (query : SaveQuery) (s : Uuid)
    (failed : FailedStatements) :
    Formed (Surreal.updatesSaved query t s failed) := by
  unfold Surreal.updatesSaved
  cases failed.updates with
  | true =>
      cases failed.removed with
      | true => exact h
      | false => exact h.deleteUpdates query.removed
  | false =>
      have hupserted := h.upsertUpdates s query.updates
      cases failed.removed with
      | true => exact hupserted
      | false => exact hupserted.deleteUpdates query.removed

theorem Formed.run (h : Formed t) (s : Uuid)
    (hnamed : forall e, e ∈ query.entities -> e.2.name = e.1)
    (failed : FailedStatements) :
    Formed (query.run t s failed) where
  updates := by
    rw [run_updates]
    exact (h.updatesSaved query s failed).updates
  entities := by
    rw [run_entities]
    cases failed.entities with
    | true => exact h.entities
    | false => exact (h.upsertEntities s hnamed).entities
  relations := by
    rw [run_relations]
    cases failed.relations with
    | true => exact h.relations
    | false => exact (h.upsertRelations s query.relations).relations

/-!
# True states
-/

/-- What is known of a session is true of its rows. -/
structure Believed (t : Tables) (s : Uuid) (known : PersistedState) : Prop where
  updates : forall id, id ∈ known.updateIds ->
    exists u, u.id = id ∧ t.updates[UuidText.toText id]? = some (updateRecord s u)
  entities : forall (name : String) (fp : SurrealCodes.Fingerprint),
    known.entities[name]? = some fp ->
    exists e, SurrealCodes.entityFingerprint e = fp ∧
      t.entities[entityId s name]? = some ⟨s, e⟩
  relations : forall (k : String) (fp : SurrealCodes.Fingerprint),
    known.relations[k]? = some fp ->
    exists r, relationIdOf s r = k ∧ SurrealCodes.relationFingerprint r = fp ∧
      t.relations[relationKey s r]? = some (relationRow s r)

variable {known : PersistedState}

theorem Believed.same {t' : Tables} (h : Believed t s known)
    (hsame : SameRows s t t') :
    Believed t' s known where
  updates := by
    intro id hid
    obtain ⟨u, hu, hrow⟩ := h.updates id hid
    exact ⟨u, hu, (hsame.updates _ _ rfl).mpr hrow⟩
  entities := by
    intro name fp hfp
    obtain ⟨e, he, hrow⟩ := h.entities name fp hfp
    exact ⟨e, he, (hsame.entities _ _ rfl).mpr hrow⟩
  relations := by
    intro k fp hfp
    obtain ⟨r, hk, hr, hrow⟩ := h.relations k fp hfp
    exact ⟨r, hk, hr, (hsame.relations _ _ rfl).mpr hrow⟩

theorem believed_knownState {backend : Backend} (hformed : Formed backend.tables)
    (h : forall known, backend.persisted.known s = some known ->
      Believed backend.tables s known) :
    Believed backend.tables s (knownState backend s) := by
  unfold knownState
  cases hknown : backend.persisted.known s with
  | some known =>
      exact h known hknown
  | none =>
      constructor
      · intro id hid
        obtain ⟨r, hr, rfl⟩ := List.mem_map.mp hid
        obtain ⟨hmem, hs⟩ := List.mem_filter.mp hr
        obtain ⟨e, he, rfl⟩ := List.mem_map.mp hmem
        have hget := Std.ExtTreeMap.mem_toList_iff_getElem?_eq_some.mp he
        obtain ⟨t, u, hk, hrecord⟩ := hformed.updates e.1 e.2 hget
        rw [hrecord] at hs
        have hts : t = s := of_decide_eq_true hs
        subst hts
        rw [hk] at hget
        exact ⟨u, by rw [hrecord]; rfl, by rw [hrecord] at hget ⊢; exact hget⟩
      · intro name fp hfp
        rw [Std.ExtTreeMap.getElem?_empty] at hfp
        cases hfp
      · intro k fp hfp
        rw [Std.ExtTreeMap.getElem?_empty] at hfp
        cases hfp

/-!
# Saves of everything
-/

def nothingKnown : PersistedState where
  updateIds := []
  entities := ∅
  relations := ∅

def everything (now : Timestamp) (session : ActiveSession) (vectorized : List Uuid)
    (explicit : List ContextUpdate) (removed : List Uuid) : SaveQuery :=
  saveQuery now nothingKnown session vectorized explicit removed true

/-- What the caller of a save sees to: the indexes of the graph agree and no triple
has two edges, an update that is not named is as it was stored, and the ids of the
save have rows of no other session. -/
structure SaveCareful (t : Tables) (known : PersistedState) (session : ActiveSession)
    (explicit : List ContextUpdate) (removed : List Uuid) : Prop where
  indexed : session.entityGraph.Indexed
  unique : session.entityGraph.relationKeys.Nodup
  stored : forall u, u ∈ session.incrementalUpdates ->
    u.id ∉ explicit.map ContextUpdate.id -> u.id ∉ removed -> u.id ∈ known.updateIds ->
    t.updates[UuidText.toText u.id]? = some (updateRecord session.metadata.id u)
  written : forall u, u ∈ explicit ++ session.incrementalUpdates ->
    t.RowFree session.metadata.id u.id
  gone : forall id, id ∈ removed -> t.RowFree session.metadata.id id

theorem SaveCareful.queryFree (h : SaveCareful t known session explicit removed)
    (now : Timestamp) (vectorized : List Uuid) (fullGraph : Bool) :
    QueryFree (saveQuery now known session vectorized explicit removed fullGraph) t
      session.metadata.id where
  updates u hu := h.written u (mem_writtenUpdates hu).1
  removed := h.gone

omit [UuidText] in
theorem saveQuery_named [UuidText] (hindexed : session.entityGraph.Indexed)
    (now : Timestamp) (known : PersistedState) (vectorized : List Uuid)
    (explicit : List ContextUpdate) (removed : List Uuid) (fullGraph : Bool)
    {e : String × EntityData}
    (he : e ∈ (saveQuery now known session vectorized explicit removed
      fullGraph).entities) :
    e.2.name = e.1 :=
  hindexed.named _ _
    (Std.ExtTreeMap.mem_toList_iff_getElem?_eq_some.mp (List.mem_filter.mp he).1)

theorem SaveCareful.updates_everything [LawfulUuidText]
    (h : SaveCareful t known session explicit removed) :
    (t.upsertUpdates session.metadata.id
        (writtenUpdates session known.updateIds explicit removed)).updates =
      (t.upsertUpdates session.metadata.id
        (writtenUpdates session [] explicit removed)).updates := by
  have hheld : forall u, u ∈ writtenUpdates session [] explicit removed ->
      u.id ∉ explicit.map ContextUpdate.id -> u.id ∈ known.updateIds ->
      t.updates[UuidText.toText u.id]? =
        some (updateRecord session.metadata.id u) := by
    intro u hu hnot hknown
    obtain ⟨hmem, hremoved⟩ := mem_writtenUpdates hu
    rcases List.mem_append.mp hmem with hexplicit | hsession
    · exact absurd (List.mem_map_of_mem hexplicit) hnot
    · exact h.stored u hsession hnot hremoved hknown
  unfold Tables.upsertUpdates
  dsimp only
  rw [writtenUpdates_filter session known.updateIds]
  apply Database.write_puts_filter
  intro u hu hunwritten
  have hnot := of_decide_eq_false hunwritten
  rw [not_or, not_not] at hnot
  have hrow := hheld u hu hnot.1 hnot.2
  refine ⟨hrow, ?_⟩
  intro w hw hkey
  have hid : w.id = u.id := toText_inj hkey
  have hrow' := hheld w hw (hid ▸ hnot.1) (hid ▸ hnot.2)
  rw [hid, hrow] at hrow'
  exact (Option.some.inj hrow').symm

variable [LawfulSurrealCodes]

theorem Believed.entities_everything [LawfulUuidText] (h : Believed t s known) (graph : EntityGraph)
    (fullGraph : Bool) :
    (t.upsertEntities s
        (graph.entities.toList.filter (entityChanged known fullGraph))).entities =
      (t.upsertEntities s graph.entities.toList).entities := by
  apply Database.write_puts_filter
  intro e he hunchanged
  have hknown : known.entities[e.1]? =
      some (SurrealCodes.entityFingerprint e.2) := by
    simpa [entityChanged] using (Bool.or_eq_false_iff.mp hunchanged).2
  obtain ⟨e', hfp, hrow⟩ := h.entities _ _ hknown
  rw [LawfulSurrealCodes.entity_inj e' e.2 hfp] at hrow
  refine ⟨hrow, ?_⟩
  intro y hy hkey
  have hget := Std.ExtTreeMap.mem_toList_iff_getElem?_eq_some.mp he
  have hget' := Std.ExtTreeMap.mem_toList_iff_getElem?_eq_some.mp hy
  rw [(entityId_inj hkey).2, hget] at hget'
  rw [Option.some.inj hget']

variable {rs : List EntityRelationship}

theorem Believed.relations_everything (h : Believed t s known)
    (hunique : (rs.map EntityGraph.relationKey).Nodup) (fullGraph : Bool) :
    (t.upsertRelations s (rs.filter (relationChanged s known fullGraph))).relations =
      (t.upsertRelations s rs).relations := by
  apply Database.write_puts_filter
  intro r hr hunchanged
  have hknown : known.relations[relationIdOf s r]? =
      some (SurrealCodes.relationFingerprint r) := by
    simpa [relationChanged] using (Bool.or_eq_false_iff.mp hunchanged).2
  obtain ⟨r', _, hfp, hrow⟩ := h.relations _ _ hknown
  rw [LawfulSurrealCodes.relation_inj r' r hfp] at hrow
  refine ⟨hrow, ?_⟩
  intro x hx hkey
  obtain ⟨-, hfrom, hto, htype⟩ := relationKey_inj hkey
  have hsame : x = r := List.inj_on_of_nodup_map hunique hx hr (by
    unfold EntityGraph.relationKey
    rw [hfrom, hto, htype])
  rw [hsame]

theorem SaveCareful.run_everything [LawfulUuidText]
    (h : SaveCareful t known session explicit removed)
    (hknown : Believed t session.metadata.id known) (now : Timestamp)
    (vectorized : List Uuid) (fullGraph : Bool) :
    (saveQuery now known session vectorized explicit removed fullGraph).run t
        session.metadata.id FailedStatements.noFailure =
      (everything now session vectorized explicit removed).run t session.metadata.id
        FailedStatements.noFailure := by
  have hentities : session.entityGraph.entities.toList.filter
      (entityChanged nothingKnown true) = session.entityGraph.entities.toList :=
    List.filter_eq_self.mpr (fun _ _ => rfl)
  have hrelations : session.entityGraph.getAllRelationships.filter
      (relationChanged session.metadata.id nothingKnown true) =
      session.entityGraph.getAllRelationships :=
    List.filter_eq_self.mpr (fun _ _ => rfl)
  ext1
  · rfl
  · show Database.write (t.upsertUpdates session.metadata.id
        (writtenUpdates session known.updateIds explicit removed)).updates _ =
      Database.write (t.upsertUpdates session.metadata.id
        (writtenUpdates session [] explicit removed)).updates _
    rw [h.updates_everything]
    rfl
  · show (t.upsertEntities session.metadata.id _).entities =
      (t.upsertEntities session.metadata.id _).entities
    refine (hknown.entities_everything session.entityGraph fullGraph).trans ?_
    rw [← hentities]
    rfl
  · show (t.upsertRelations session.metadata.id _).relations =
      (t.upsertRelations session.metadata.id _).relations
    refine (hknown.relations_everything
      (nodup_allRelationships h.indexed h.unique) fullGraph).trans ?_
    rw [← hrelations]
    rfl

omit [SurrealCodes] [LawfulSurrealCodes] in
theorem upserted_entity [LawfulUuidText] (t : Tables) (s : Uuid) (graph : EntityGraph)
    {name : String} {e : EntityData} (he : graph.entities[name]? = some e) :
    (t.upsertEntities s graph.entities.toList).entities[entityId s name]? =
      some ⟨s, e⟩ := by
  refine Database.get_write_puts (f := fun x : String × EntityData => entityId s x.1)
    (g := fun x => EntityRecord.mk s x.2) t.entities ?_
    (Std.ExtTreeMap.mem_toList_iff_getElem?_eq_some.mpr he)
  intro x hx y hy hkey
  have hget := Std.ExtTreeMap.mem_toList_iff_getElem?_eq_some.mp hx
  have hget' := Std.ExtTreeMap.mem_toList_iff_getElem?_eq_some.mp hy
  rw [← (entityId_inj hkey).2, hget] at hget'
  rw [Option.some.inj hget']

theorem upserted_relation (t : Tables) (s : Uuid)
    (hunique : (rs.map EntityGraph.relationKey).Nodup) {r : EntityRelationship}
    (hr : r ∈ rs) :
    (t.upsertRelations s rs).relations[relationKey s r]? = some (relationRow s r) := by
  refine Database.get_write_puts (g := relationRow s) t.relations ?_ hr
  intro x hx y hy hkey
  obtain ⟨-, hfrom, hto, htype⟩ := relationKey_inj hkey
  have hsame : x = y := List.inj_on_of_nodup_map hunique hx hy (by
    unfold EntityGraph.relationKey
    rw [hfrom, hto, htype])
  rw [hsame]

theorem Believed.saved [LawfulUuidText] (hknown : Believed t session.metadata.id known)
    (hindexed : session.entityGraph.Indexed)
    (hkeys : session.entityGraph.relationKeys.Nodup) (now : Timestamp)
    (vectorized : List Uuid) (explicit : List ContextUpdate) (removed : List Uuid)
    (fullGraph : Bool) (failed : FailedStatements)
    (hupdates : failed.updates = false) (hremoved : failed.removed = false) :
    Believed
      ((saveQuery now known session vectorized explicit removed fullGraph).run t
        session.metadata.id failed) session.metadata.id
      (savedState known
        (saveQuery now known session vectorized explicit removed fullGraph) session
        failed) where
  updates := by
    intro id hid
    obtain ⟨hmem, hnot⟩ := List.mem_filter.mp hid
    have hkept : id ∉ removed := of_decide_eq_true hnot
    rw [run_updates, updatesSaved, hupdates, hremoved]
    show exists u : ContextUpdate, u.id = id ∧ ((t.upsertUpdates session.metadata.id
      (writtenUpdates session known.updateIds explicit removed)).deleteUpdates
        removed).updates[UuidText.toText id]? = _
    rw [updates_deleteUpdates, if_neg hkept, updates_upsertUpdates]
    cases hlast : Database.lastWith ContextUpdate.id id
        (writtenUpdates session known.updateIds explicit removed) with
    | some u =>
        exact ⟨u, (Database.lastWith_some hlast).2, rfl⟩
    | none =>
        rcases List.mem_append.mp hmem with hold | hnew
        · exact hknown.updates id hold
        · obtain ⟨u, hu, huid⟩ := List.mem_map.mp hnew
          exact absurd huid (Database.lastWith_eq_none.mp hlast u hu)
  entities := by
    intro name fp hfp
    unfold savedState at hfp
    dsimp only at hfp
    cases hentities : failed.entities with
    | true =>
        rw [hentities] at hfp
        exact absurd hfp (by simp)
    | false =>
        rw [run_entities, hentities]
        rw [hentities] at hfp
        cases hrelations : failed.relations with
        | true =>
            rw [hrelations] at hfp
            exact absurd hfp (by simp)
        | false =>
            rw [hrelations] at hfp
            have hget : (entityFingerprints session.entityGraph)[name]? = some fp := hfp
            rw [entityFingerprints, Std.ExtTreeMap.getElem?_map] at hget
            obtain ⟨e, he, hfe⟩ := Option.map_eq_some_iff.mp hget
            refine ⟨e, hfe, ?_⟩
            have heq := hknown.entities_everything session.entityGraph fullGraph
            show (t.upsertEntities session.metadata.id
              (session.entityGraph.entities.toList.filter
                (entityChanged known fullGraph))).entities[entityId
                  session.metadata.id name]? = _
            rw [heq]
            exact upserted_entity t session.metadata.id session.entityGraph he
  relations := by
    intro k fp hfp
    unfold savedState at hfp
    dsimp only at hfp
    cases hrelations : failed.relations with
    | true =>
        rw [hrelations, Bool.not_true, Bool.and_false] at hfp
        exact absurd hfp (by simp)
    | false =>
        rw [run_relations, hrelations]
        rw [hrelations] at hfp
        cases hentities : failed.entities with
        | true =>
            rw [hentities] at hfp
            exact absurd hfp (by simp)
        | false =>
            rw [hentities] at hfp
            have hget : (relationFingerprints session.metadata.id
                session.entityGraph)[k]? = some fp := hfp
            rcases Database.get_write_some hget with hempty | hput
            · rw [Std.ExtTreeMap.getElem?_empty] at hempty
              cases hempty
            · obtain ⟨r, hr, heq⟩ := List.mem_map.mp hput
              cases heq
              refine ⟨r, rfl, rfl, ?_⟩
              have hunique := nodup_allRelationships hindexed hkeys
              have heq' := hknown.relations_everything hunique fullGraph
              show (t.upsertRelations session.metadata.id
                (session.entityGraph.getAllRelationships.filter
                  (relationChanged session.metadata.id known fullGraph))).relations[
                    relationKey session.metadata.id r]? = _
              rw [heq']
              exact upserted_relation t session.metadata.id hunique hr

end

end Surreal
end Storage
end PostCortex
