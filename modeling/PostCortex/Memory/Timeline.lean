import Mathlib.Order.Bounds.Basic
import PostCortex.Graph.Restatements
import PostCortex.KeyValue.Upserts
import PostCortex.Memory.Impact
import PostCortex.Session.ActiveSession

/-!
# Timelines

`timeline` of `graph_views.rs` over the index of a scope: when records were written
and ended and when relations were added and ended, and the records that these events
name.
-/

namespace PostCortex
namespace Memory

open PostCortex.Core
open PostCortex.Graph
open PostCortex.Graph.Temporal
open PostCortex.KeyValue
open PostCortex.Session

def updateTypeWord : UpdateType -> String
  | UpdateType.questionAnswered => "qa"
  | UpdateType.problemSolved => "problem_solved"
  | UpdateType.codeChanged => "code_change"
  | UpdateType.decisionMade => "decision_made"
  | UpdateType.conceptDefined => "concept_defined"
  | UpdateType.requirementAdded => "requirement_added"

structure GraphScope where
  sessions : List ActiveSession
  graph : EntityGraph

/-!
# The index
-/

abbrev RelationKey : Type :=
  String × String × RelationType

abbrev SessionRecord : Type :=
  Uuid × ContextUpdate

def scopeRecords (scope : GraphScope) : List SessionRecord :=
  upsertAll (fun r => r.2.id) (fun _ new => new)
    (scope.sessions.flatMap (fun session =>
      session.incrementalUpdates.map (fun update => (session.metadata.id, update)))) []

section

variable [CharTables]

def edgeKey (graph : EntityGraph) (rel : EntityRelationship) : RelationKey :=
  ((graph.resolve rel.fromEntity).getD rel.fromEntity,
    (graph.resolve rel.toEntity).getD rel.toEntity, rel.relationType)

def pushRecord (entry new : RelationKey × List Uuid) : RelationKey × List Uuid :=
  (entry.1, if entry.2.getLast? = new.2.getLast? then entry.2 else entry.2 ++ new.2)

def assertionsOf (graph : EntityGraph) (update : ContextUpdate) :
    List (RelationKey × List Uuid) :=
  update.createsRelationships.map (fun rel => (edgeKey graph rel, [update.id]))

def edgeRecords (graph : EntityGraph) (ordered : List ContextUpdate) :
    List (RelationKey × List Uuid) :=
  upsertAll Prod.fst pushRecord (ordered.flatMap (assertionsOf graph)) []

end

/-- What the records of a scope say, with the entries of its two maps in the order in
which they are iterated. -/
structure Index [CharTables] (scope : GraphScope) where
  records : List SessionRecord
  recordsPerm : records.Perm (scopeRecords scope)
  edges : List (RelationKey × List Uuid)
  edgesPerm : edges.Perm (edgeRecords scope.graph (inOrder (records.map Prod.snd)))

namespace Index

section

variable [WordTables] {scope : GraphScope}

def updates (index : Index scope) : List ContextUpdate :=
  index.records.map Prod.snd

def validity (index : Index scope) : Validities :=
  Temporal.validity index.updates scope.graph

def lookup (index : Index scope) (id : Uuid) : Option SessionRecord :=
  index.records.find? (fun r => r.2.id = id)

def edgeValidity (index : Index scope) (ids : List Uuid) :
    Option Timestamp × Option Timestamp :=
  let intervals := ids.filterMap index.validity
  ((intervals.map Validity.validFrom).min?,
    if intervals.any Validity.isCurrent then none
    else (intervals.filterMap Validity.validTo).max?)

end

end Index

/-!
# The events
-/

inductive TimelineEventKind where
  | recorded
  | ended
  | relationAdded
  | relationEnded
  deriving DecidableEq, Repr

def kindOrder : TimelineEventKind -> Nat
  | TimelineEventKind.ended => 0
  | TimelineEventKind.relationEnded => 1
  | TimelineEventKind.recorded => 2
  | TimelineEventKind.relationAdded => 3

structure TimelineEvent where
  time : Timestamp
  kind : TimelineEventKind
  record : Uuid
  sessionId : Uuid
  title : String
  interactionType : String
  relation : Option (String × String × String)
  reason : Option EndReason
  deriving DecidableEq, Repr

structure TimelineView where
  events : List TimelineEvent
  total : Nat
  deriving DecidableEq, Repr

def eventOf (r : SessionRecord) (time : Timestamp) (kind : TimelineEventKind)
    (relation : Option (String × String × String)) (reason : Option EndReason) :
    TimelineEvent where
  time := time
  kind := kind
  record := r.2.id
  sessionId := r.1
  title := r.2.content.title
  interactionType := updateTypeWord r.2.updateType
  relation := relation
  reason := reason

def shown (key : RelationKey) : String × String × String :=
  (key.1, key.2.1, relationTypeWord key.2.2)

def eventStamp (e : TimelineEvent) : Timestamp ×ₗ Nat ×ₗ Nat :=
  toLex (e.time, toLex (kindOrder e.kind, e.record.toNat))

def within (first last : Option Timestamp) (e : TimelineEvent) : Bool :=
  first.all (fun f => f ≤ e.time) && last.all (fun t => e.time ≤ t)

namespace Index

section

variable [WordTables] {scope : GraphScope}

def recordEvents (index : Index scope) (r : SessionRecord) : Option (List TimelineEvent) := do
  let v ← index.validity r.2.id
  some (eventOf r r.2.timestamp TimelineEventKind.recorded none none ::
    (v.validTo.map (fun stop =>
      eventOf r stop TimelineEventKind.ended none v.reason)).toList)

def relationEvents (index : Index scope) (edge : RelationKey × List Uuid) :
    Option (List TimelineEvent) := do
  let relation := some (shown edge.1)
  let (start, stop) := index.edgeValidity edge.2
  let first ← edge.2.head?
  let r ← index.lookup first
  let added := (start.map (fun time =>
    eventOf r time TimelineEventKind.relationAdded relation none)).toList
  match stop with
  | none => some added
  | some time => do
      let last := edge.2.getLast?.getD first
      let r ← index.lookup last
      let v ← index.validity last
      some (added ++ [eventOf r time TimelineEventKind.relationEnded relation v.reason])

def allEvents (index : Index scope) : Option (List TimelineEvent) := do
  let recorded ← index.records.mapM index.recordEvents
  let related ← index.edges.mapM index.relationEvents
  some (recorded.flatten ++ related.flatten)

def timeline (index : Index scope) (first last : Option Timestamp) (limit : Nat) :
    Option TimelineView := do
  let events ← index.allEvents
  let events := (events.filter (within first last)).insertionSort
    (fun e f => eventStamp e ≤ eventStamp f)
  some
    { events := events.drop (events.length - limit)
      total := events.length }

end

end Index

/-!
# What a scope says
-/

namespace GraphScope

def updates (scope : GraphScope) : List ContextUpdate :=
  (scopeRecords scope).map Prod.snd

section

variable [WordTables]

def validity (scope : GraphScope) : Validities :=
  Temporal.validity scope.updates scope.graph

def Asserts (scope : GraphScope) (key : RelationKey) (u : ContextUpdate) : Prop :=
  u ∈ scope.updates ∧ exists rel, rel ∈ u.createsRelationships ∧ edgeKey scope.graph rel = key

/-- The record that asserts a relation and was written before the others that do. -/
def First (scope : GraphScope) (key : RelationKey) (u : ContextUpdate) : Prop :=
  scope.Asserts key u ∧ forall w, scope.Asserts key w -> stamp u ≤ stamp w

def Last (scope : GraphScope) (key : RelationKey) (u : ContextUpdate) : Prop :=
  scope.Asserts key u ∧ forall w, scope.Asserts key w -> stamp w ≤ stamp u

def endOf (scope : GraphScope) (u : ContextUpdate) : Option Timestamp :=
  (scope.validity u.id).bind Validity.validTo

/-- The event names a record that asserts its relation and holds from its time on. -/
def AddedRight (scope : GraphScope) (e : TimelineEvent) : Prop :=
  exists key u v, e.relation = some (shown key) ∧ e.record = u.id ∧
    scope.Asserts key u ∧ scope.validity u.id = some v ∧ v.validFrom = e.time

/-- The event names a record that asserts its relation and ends at its time for its
reason, and no record that asserts it is current. -/
def EndedRight (scope : GraphScope) (e : TimelineEvent) : Prop :=
  exists key u v, e.relation = some (shown key) ∧ e.record = u.id ∧
    scope.Asserts key u ∧ scope.validity u.id = some v ∧ v.validTo = some e.time ∧
    e.reason = v.reason ∧
    forall w v', scope.Asserts key w -> scope.validity w.id = some v' ->
      v'.isCurrent = false

structure Attributed (scope : GraphScope) (view : TimelineView) : Prop where
  added : forall e, e ∈ view.events -> e.kind = TimelineEventKind.relationAdded ->
    scope.AddedRight e
  ended : forall e, e ∈ view.events -> e.kind = TimelineEventKind.relationEnded ->
    scope.EndedRight e
  inTime : view.events.Pairwise (fun e f => e.time ≤ f.time)

/-- Of the records that assert a relation the first written starts first, and when all
have ended the last written ended last. -/
structure Aligned (scope : GraphScope) : Prop where
  starts : forall key u w, scope.First key u -> scope.Asserts key w ->
    validFrom u ≤ validFrom w
  stops : forall key u, scope.Last key u ->
    (forall w, scope.Asserts key w -> (scope.endOf w).isSome = true) ->
    forall w s t, scope.Asserts key w -> scope.endOf w = some s ->
      scope.endOf u = some t -> s ≤ t

end

end GraphScope

/-!
# The index of a scope
-/

theorem keepsKey_records :
    KeepsKey (fun r : SessionRecord => r.2.id) (fun _ new => new) :=
  fun _ _ h => h.symm

theorem keepsKey_pushRecord :
    KeepsKey (Prod.fst : RelationKey × List Uuid -> RelationKey) pushRecord :=
  fun _ _ _ => rfl

theorem scope_ids_nodup (scope : GraphScope) :
    (scope.updates.map ContextUpdate.id).Nodup := by
  have h : ((scopeRecords scope).map (fun r => r.2.id)).Nodup :=
    nodup_upsertAll keepsKey_records _ List.nodup_nil
  rw [GraphScope.updates, List.map_map]
  exact h

theorem merged_same {key : RelationKey} {id : Uuid} {xs : List (RelationKey × List Uuid)}
    (hxs : forall entry, merged pushRecord xs = some entry ->
      entry.1 = key ∧ id ∉ entry.2)
    {ys : List (RelationKey × List Uuid)} (hys : forall y, y ∈ ys -> y = (key, [id])) :
    merged pushRecord (xs ++ ys) =
      if ys = [] then merged pushRecord xs
      else some (key, (merged pushRecord xs).elim [] Prod.snd ++ [id]) := by
  induction ys using List.reverseRecOn with
  | nil => rw [List.append_nil, if_pos rfl]
  | append_singleton ys y ih =>
      have hy := hys y (by simp)
      rw [if_neg (by simp), ← List.append_assoc, merged_snoc,
        ih (fun y hy => hys y (List.mem_append_left _ hy)), hy]
      by_cases hnil : ys = []
      · rw [if_pos hnil]
        cases hmerged : merged pushRecord xs with
        | none => rfl
        | some entry =>
            obtain ⟨hkey, hnot⟩ := hxs entry hmerged
            have hlast : entry.2.getLast? ≠ some id := by
              intro h
              exact hnot (List.mem_of_getLast? h)
            simp [pushRecord, hkey, hlast]
      · rw [if_neg hnil]
        simp [pushRecord]

section

variable [CharTables]

def assertsKey (graph : EntityGraph) (key : RelationKey) (u : ContextUpdate) : Bool :=
  u.createsRelationships.any (fun rel => edgeKey graph rel = key)

variable {us : List ContextUpdate}

theorem merged_assertions (graph : EntityGraph) (key : RelationKey)
    (hids : (us.map ContextUpdate.id).Nodup) :
    merged pushRecord ((us.flatMap (assertionsOf graph)).filter (fun x => x.1 = key)) =
      if us.filter (assertsKey graph key) = [] then none
      else some (key, (us.filter (assertsKey graph key)).map ContextUpdate.id) := by
  induction us using List.reverseRecOn with
  | nil => rfl
  | append_singleton us u ih =>
      rw [List.map_append, List.nodup_append] at hids
      obtain ⟨hus, -, hapart⟩ := hids
      have hnew : forall ids, ids ⊆ us.map ContextUpdate.id -> u.id ∉ ids :=
        fun ids hids hmem => hapart _ (hids hmem) u.id (by simp) rfl
      have hys : forall y, y ∈ (assertionsOf graph u).filter (fun x => x.1 = key) ->
          y = (key, [u.id]) := by
        intro y hy
        obtain ⟨hmem, hkey⟩ := List.mem_filter.mp hy
        obtain ⟨rel, -, rfl⟩ := List.mem_map.mp hmem
        rw [← of_decide_eq_true hkey]
      have hxs : forall entry,
          merged pushRecord ((us.flatMap (assertionsOf graph)).filter (fun x => x.1 = key)) =
            some entry -> entry.1 = key ∧ u.id ∉ entry.2 := by
        intro entry hentry
        rw [ih hus] at hentry
        split at hentry
        · cases hentry
        · cases hentry
          exact ⟨rfl, hnew _ (List.map_subset _ List.filter_sublist.subset)⟩
      rw [List.flatMap_append, List.flatMap_singleton, List.filter_append,
        merged_same hxs hys, ih hus, List.filter_append]
      have hnil : (assertionsOf graph u).filter (fun x => x.1 = key) = [] ↔
          assertsKey graph key u = false := by
        simp [assertionsOf, assertsKey, List.filter_eq_nil_iff]
      cases hu : assertsKey graph key u with
      | false =>
          rw [if_pos (hnil.mpr hu), List.filter_cons_of_neg (by simp [hu]), List.filter_nil,
            List.append_nil]
      | true =>
          have hholders : us.filter (assertsKey graph key) ++ [u] ≠ [] := by simp
          rw [if_neg (fun h => by simp [hnil.mp h] at hu),
            List.filter_cons_of_pos hu, List.filter_nil, if_neg hholders, List.map_append]
          split
          · next hempty =>
            rw [hempty]
            rfl
          · rfl

/-- The relations of the index are those that are asserted, with the records that assert
them in order. -/
theorem mem_edgeRecords (graph : EntityGraph)
    (hids : (us.map ContextUpdate.id).Nodup) {key : RelationKey} {ids : List Uuid} :
    (key, ids) ∈ edgeRecords graph us ↔
      us.filter (assertsKey graph key) ≠ [] ∧
        ids = (us.filter (assertsKey graph key)).map ContextUpdate.id := by
  rw [edgeRecords, mem_upsertAll keepsKey_pushRecord, merged_assertions graph key hids]
  split
  · next hnil => simp [hnil]
  · next hnil =>
    rw [Option.some.injEq, Prod.mk.injEq]
    simp [hnil, eq_comm]

end

section

variable [WordTables] {scope : GraphScope}

namespace GraphScope

variable {u : ContextUpdate}

theorem validity_starts (scope : GraphScope) (hu : u ∈ scope.updates) :
    exists v, scope.validity u.id = some v ∧ v.validFrom = validFrom u :=
  Temporal.validity_starts scope.graph (scope_ids_nodup scope) hu

def holders (scope : GraphScope) (key : RelationKey) : List ContextUpdate :=
  (inOrder scope.updates).filter (assertsKey scope.graph key)

variable {key : RelationKey}

theorem mem_holders :
    u ∈ scope.holders key ↔ scope.Asserts key u := by
  simp [holders, Asserts, assertsKey, mem_inOrder]

theorem holders_pairwise (scope : GraphScope) (key : RelationKey) :
    (scope.holders key).Pairwise (fun u w => stamp u < stamp w) :=
  (inOrder_pairwise (scope_ids_nodup scope)).filter _

theorem first_holder {rest : List ContextUpdate} (h : scope.holders key = u :: rest) :
    scope.First key u := by
  have hpairwise := scope.holders_pairwise key
  rw [h, List.pairwise_cons] at hpairwise
  refine ⟨mem_holders.mp (h ▸ List.mem_cons_self), fun w hw => ?_⟩
  have hmem := mem_holders.mpr hw
  rw [h] at hmem
  rcases List.mem_cons.mp hmem with rfl | hrest
  · exact le_refl _
  · exact le_of_lt (hpairwise.1 w hrest)

theorem last_holder {front : List ContextUpdate}
    (h : scope.holders key = front ++ [u]) : scope.Last key u := by
  have hpairwise := scope.holders_pairwise key
  rw [h, List.pairwise_append] at hpairwise
  refine ⟨mem_holders.mp (by rw [h]; simp), fun w hw => ?_⟩
  have hmem := mem_holders.mpr hw
  rw [h] at hmem
  rcases List.mem_append.mp hmem with hfront | hlast
  · exact le_of_lt (hpairwise.2.2 w hfront u List.mem_cons_self)
  · exact le_of_eq (congrArg stamp (List.mem_singleton.mp hlast))

variable {w : ContextUpdate}

theorem First.unique (hu : scope.First key u) (hw : scope.First key w) : u = w :=
  List.inj_on_of_nodup_map (scope_ids_nodup scope) hu.1.1 hw.1.1
    (stamp_inj (le_antisymm (hu.2 w hw.1) (hw.2 u hu.1)))

theorem Last.unique (hu : scope.Last key u) (hw : scope.Last key w) : u = w :=
  List.inj_on_of_nodup_map (scope_ids_nodup scope) hu.1.1 hw.1.1
    (stamp_inj (le_antisymm (hw.2 u hu.1) (hu.2 w hw.1)))

def starts (scope : GraphScope) (key : RelationKey) : Set Timestamp :=
  {t | exists u, scope.Asserts key u ∧ validFrom u = t}

def stops (scope : GraphScope) (key : RelationKey) : Set Timestamp :=
  {t | exists u, scope.Asserts key u ∧ scope.endOf u = some t}

def Over (scope : GraphScope) (key : RelationKey) : Prop :=
  forall u, scope.Asserts key u -> (scope.endOf u).isSome = true

end GraphScope

namespace Index

theorem updates_perm (index : Index scope) : index.updates.Perm scope.updates :=
  index.recordsPerm.map Prod.snd

theorem inOrder_eq (index : Index scope) :
    inOrder index.updates = inOrder scope.updates :=
  inOrder_perm (scope_ids_nodup scope) index.updates_perm

theorem validity_eq (index : Index scope) : index.validity = scope.validity := by
  unfold validity GraphScope.validity Temporal.validity
  rw [inOrder_eq]

theorem lookup_of_mem (index : Index scope) {u : ContextUpdate} (hu : u ∈ scope.updates) :
    exists session, index.lookup u.id = some (session, u) := by
  have hmem := index.updates_perm.mem_iff.mpr hu
  obtain ⟨r, hr, rfl⟩ := List.mem_map.mp hmem
  have hfound : (index.lookup r.2.id).isSome = true := by
    rw [lookup, List.find?_isSome]
    exact ⟨r, hr, decide_eq_true rfl⟩
  obtain ⟨r', hr'⟩ := Option.isSome_iff_exists.mp hfound
  have hfind : index.records.find? (fun x => x.2.id = r.2.id) = some r' := hr'
  have hid : r'.2.id = r.2.id := by
    simpa using List.find?_some hfind
  have hmem' : r'.2 ∈ scope.updates :=
    index.updates_perm.mem_iff.mp (List.mem_map_of_mem (List.mem_of_find?_eq_some hfind))
  have hsame := List.inj_on_of_nodup_map (scope_ids_nodup scope) hmem' hu hid
  exact ⟨r'.1, by rw [hr', ← hsame]⟩

variable {key : RelationKey}

theorem mem_edges (index : Index scope) {ids : List Uuid} :
    (key, ids) ∈ index.edges ↔
      scope.holders key ≠ [] ∧ ids = (scope.holders key).map ContextUpdate.id := by
  have hids := inOrder_ids_nodup (scope_ids_nodup scope)
  have hedges := index.edgesPerm.mem_iff (a := (key, ids))
  change (key, ids) ∈ index.edges ↔
    (key, ids) ∈ edgeRecords scope.graph (inOrder index.updates) at hedges
  rw [hedges, inOrder_eq, mem_edgeRecords scope.graph hids]
  rfl

variable {us : List ContextUpdate}

theorem map_starts (hus : forall u, u ∈ us -> u ∈ scope.updates) :
    ((us.map ContextUpdate.id).filterMap scope.validity).map Validity.validFrom =
      us.map validFrom := by
  induction us with
  | nil => rfl
  | cons u us ih =>
      obtain ⟨v, hv, hstart⟩ := scope.validity_starts (hus u List.mem_cons_self)
      rw [List.map_cons, List.filterMap_cons_some hv, List.map_cons, List.map_cons, hstart,
        ih (fun w hw => hus w (List.mem_cons_of_mem u hw))]

theorem filterMap_stops (us : List ContextUpdate) :
    ((us.map ContextUpdate.id).filterMap scope.validity).filterMap Validity.validTo =
      us.filterMap scope.endOf := by
  rw [List.filterMap_map, List.filterMap_filterMap]
  rfl

theorem any_current (hus : forall u, u ∈ us -> u ∈ scope.updates) :
    ((us.map ContextUpdate.id).filterMap scope.validity).any Validity.isCurrent = true ↔
      exists u, u ∈ us ∧ scope.endOf u = none := by
  rw [List.any_eq_true]
  constructor
  · rintro ⟨v, hv, hcurrent⟩
    obtain ⟨id, hid, hvalid⟩ := List.mem_filterMap.mp hv
    obtain ⟨u, hu, rfl⟩ := List.mem_map.mp hid
    refine ⟨u, hu, ?_⟩
    rw [GraphScope.endOf, hvalid]
    exact Option.isNone_iff_eq_none.mp hcurrent
  · rintro ⟨u, hu, hend⟩
    obtain ⟨v, hv, -⟩ := scope.validity_starts (hus u hu)
    rw [GraphScope.endOf, hv] at hend
    exact ⟨v, List.mem_filterMap.mpr ⟨u.id, List.mem_map_of_mem hu, hv⟩,
      Option.isNone_iff_eq_none.mpr hend⟩

theorem least_start {start : Timestamp}
    (h : ((scope.holders key).map validFrom).min? = some start) :
    IsLeast (scope.starts key) start := by
  obtain ⟨hin, hle⟩ := List.min?_eq_some_iff.mp h
  obtain ⟨u, hu, hfrom⟩ := List.mem_map.mp hin
  refine ⟨⟨u, GraphScope.mem_holders.mp hu, hfrom⟩, ?_⟩
  rintro t ⟨w, hw, rfl⟩
  exact hle _ (List.mem_map_of_mem (GraphScope.mem_holders.mpr hw))

theorem greatest_stop {stop : Timestamp}
    (h : ((scope.holders key).filterMap scope.endOf).max? = some stop) :
    IsGreatest (scope.stops key) stop := by
  obtain ⟨hin, hle⟩ := List.max?_eq_some_iff.mp h
  obtain ⟨u, hu, hend⟩ := List.mem_filterMap.mp hin
  refine ⟨⟨u, GraphScope.mem_holders.mp hu, hend⟩, ?_⟩
  rintro t ⟨w, hw, hwend⟩
  exact hle _ (List.mem_filterMap.mpr ⟨w, GraphScope.mem_holders.mpr hw, hwend⟩)

/-- The interval of a relation: from the earliest start to the latest end, open unless
every record has ended. -/
theorem edgeValidity_spec (index : Index scope) (hne : scope.holders key ≠ []) :
    exists start, IsLeast (scope.starts key) start ∧
      ((¬ scope.Over key ∧ index.edgeValidity ((scope.holders key).map ContextUpdate.id) =
          (some start, none)) ∨
        exists stop, scope.Over key ∧ IsGreatest (scope.stops key) stop ∧
          index.edgeValidity ((scope.holders key).map ContextUpdate.id) =
            (some start, some stop)) := by
  have hholders : forall u, u ∈ scope.holders key -> u ∈ scope.updates :=
    fun u hu => (GraphScope.mem_holders.mp hu).1
  have hover : (exists u, u ∈ scope.holders key ∧ scope.endOf u = none) ↔
      ¬ scope.Over key := by
    simp [GraphScope.Over, GraphScope.mem_holders]
  unfold edgeValidity
  rw [validity_eq]
  dsimp only
  rw [map_starts hholders, filterMap_stops]
  cases hstart : ((scope.holders key).map validFrom).min? with
  | none =>
      rw [List.min?_eq_none_iff, List.map_eq_nil_iff] at hstart
      exact absurd hstart hne
  | some start =>
      refine ⟨start, least_start hstart, ?_⟩
      by_cases hopen : scope.Over key
      · have hclosed := mt (hover.mp ∘ (any_current hholders).mp) (fun h => h hopen)
        rw [if_neg hclosed]
        cases hstop : ((scope.holders key).filterMap scope.endOf).max? with
        | none =>
            rw [List.max?_eq_none_iff, List.filterMap_eq_nil_iff] at hstop
            obtain ⟨u, hu⟩ := List.exists_mem_of_ne_nil _ hne
            have hend := hopen u (GraphScope.mem_holders.mp hu)
            rw [hstop u hu] at hend
            cases hend
        | some stop => exact Or.inr ⟨stop, hopen, greatest_stop hstop, rfl⟩
      · rw [if_pos ((any_current hholders).mpr (hover.mpr hopen))]
        exact Or.inl ⟨hopen, rfl⟩

theorem recordEvents_spec (index : Index scope) {r : SessionRecord} (hr : r ∈ index.records) :
    exists l, index.recordEvents r = some l ∧
      forall e, e ∈ l -> e.kind = TimelineEventKind.recorded ∨
        e.kind = TimelineEventKind.ended := by
  have hu : r.2 ∈ scope.updates :=
    index.updates_perm.mem_iff.mp (List.mem_map_of_mem hr)
  obtain ⟨v, hv, -⟩ := scope.validity_starts hu
  unfold recordEvents
  rw [validity_eq, hv]
  refine ⟨_, rfl, ?_⟩
  intro e he
  rcases List.mem_cons.mp he with rfl | hended
  · exact Or.inl rfl
  · rw [Option.mem_toList, Option.map_eq_some_iff] at hended
    obtain ⟨stop, -, rfl⟩ := hended
    exact Or.inr rfl

/-- The events of a relation: it is added by the first record that asserts it, at the
earliest start, and once all have ended it is ended by the last one, at the latest end. -/
theorem relationEvents_spec (index : Index scope) (hne : scope.holders key ≠ []) :
    exists u w s s' start v l, scope.First key u ∧ scope.Last key w ∧
      IsLeast (scope.starts key) start ∧ scope.validity w.id = some v ∧
      index.relationEvents (key, (scope.holders key).map ContextUpdate.id) = some l ∧
      forall e, e ∈ l ↔
        e = eventOf (s, u) start TimelineEventKind.relationAdded (some (shown key)) none ∨
          exists stop, scope.Over key ∧ IsGreatest (scope.stops key) stop ∧
            e = eventOf (s', w) stop TimelineEventKind.relationEnded (some (shown key))
              v.reason := by
  obtain ⟨start, hleast, hinterval⟩ := index.edgeValidity_spec hne
  obtain ⟨u, rest, hfirst⟩ := List.exists_cons_of_ne_nil hne
  obtain ⟨front, w, hlast⟩ := (List.eq_nil_or_concat (scope.holders key)).resolve_left hne
  rw [List.concat_eq_append] at hlast
  have hu := GraphScope.first_holder hfirst
  have hw := GraphScope.last_holder hlast
  obtain ⟨s, hs⟩ := index.lookup_of_mem hu.1.1
  obtain ⟨s', hs'⟩ := index.lookup_of_mem hw.1.1
  obtain ⟨v, hv, -⟩ := scope.validity_starts hw.1.1
  have hhead : ((scope.holders key).map ContextUpdate.id).head? = some u.id := by
    rw [hfirst]
    rfl
  have hback : ((scope.holders key).map ContextUpdate.id).getLast? = some w.id := by
    rw [hlast]
    simp
  let added := eventOf (s, u) start TimelineEventKind.relationAdded (some (shown key)) none
  refine ⟨u, w, s, s', start, v, ?_⟩
  unfold relationEvents
  dsimp only
  rw [hhead, hback, validity_eq]
  rcases hinterval with ⟨hopen, hvalid⟩ | ⟨stop, hover, hgreatest, hvalid⟩
  · rw [hvalid]
    refine ⟨[added], hu, hw, hleast, hv, ?_, ?_⟩
    · change (index.lookup u.id).bind _ = _
      rw [hs]
      rfl
    · intro e
      rw [List.mem_singleton]
      constructor
      · exact Or.inl
      · rintro (hadded | ⟨_, hover, _⟩)
        · exact hadded
        · exact absurd hover hopen
  · rw [hvalid]
    refine ⟨[added, eventOf (s', w) stop TimelineEventKind.relationEnded (some (shown key))
      v.reason], hu, hw, hleast, hv, ?_, ?_⟩
    · change (index.lookup u.id).bind _ = _
      rw [hs]
      change (index.lookup w.id).bind _ = _
      rw [hs']
      change (scope.validity w.id).bind _ = _
      rw [hv]
      rfl
    · intro e
      rw [List.mem_cons, List.mem_singleton]
      constructor
      · rintro (hadded | hended)
        · exact Or.inl hadded
        · exact Or.inr ⟨stop, hover, hgreatest, hended⟩
      · rintro (hadded | ⟨stop', _, hgreatest', hended⟩)
        · exact Or.inl hadded
        · rw [hgreatest'.unique hgreatest] at hended
          exact Or.inr hended

omit [WordTables] in
theorem mapM_flatten {input output : Type} {f : input -> Option (List output)}
    {xs : List input} (h : forall x, x ∈ xs -> exists l, f x = some l) :
    exists ls, xs.mapM f = some ls ∧
      forall y, y ∈ ls.flatten ↔ exists x l, x ∈ xs ∧ f x = some l ∧ y ∈ l := by
  induction xs with
  | nil => exact ⟨[], rfl, by simp⟩
  | cons x xs ih =>
      obtain ⟨l, hl⟩ := h x List.mem_cons_self
      obtain ⟨ls, hls, hmem⟩ := ih (fun y hy => h y (List.mem_cons_of_mem x hy))
      refine ⟨l :: ls, by rw [List.mapM_cons, hl, hls]; rfl, ?_⟩
      intro y
      rw [List.flatten_cons, List.mem_append, hmem]
      constructor
      · rintro (hy | ⟨z, l', hz, hl', hy⟩)
        · exact ⟨x, l, List.mem_cons_self, hl, hy⟩
        · exact ⟨z, l', List.mem_cons_of_mem x hz, hl', hy⟩
      · rintro ⟨z, l', hz, hl', hy⟩
        rcases List.mem_cons.mp hz with rfl | hz
        · rw [hl] at hl'
          cases hl'
          exact Or.inl hy
        · exact Or.inr ⟨z, l', hz, hl', hy⟩

/-- The relation events of an index are those of the relations that are asserted, and no
indexing panics. -/
theorem allEvents_spec (index : Index scope) :
    exists events, index.allEvents = some events ∧
      forall e, e.kind = TimelineEventKind.relationAdded ∨
          e.kind = TimelineEventKind.relationEnded ->
        (e ∈ events ↔ exists key l, scope.holders key ≠ [] ∧
          index.relationEvents (key, (scope.holders key).map ContextUpdate.id) = some l ∧
            e ∈ l) := by
  obtain ⟨recorded, hrecorded, hmem⟩ := mapM_flatten (fun r hr =>
    (index.recordEvents_spec hr).imp (fun _ h => h.1))
  have hedge : forall edge, edge ∈ index.edges ->
      exists l, index.relationEvents edge = some l := by
    intro edge hedge
    obtain ⟨hne, hids⟩ := index.mem_edges.mp hedge
    obtain ⟨_, _, _, _, _, _, l, _, _, _, _, hl, _⟩ := index.relationEvents_spec hne
    rw [← hids] at hl
    exact ⟨l, hl⟩
  obtain ⟨related, hrelated, hmem'⟩ := mapM_flatten hedge
  refine ⟨recorded.flatten ++ related.flatten, ?_, ?_⟩
  · rw [allEvents, hrecorded, hrelated]
    rfl
  · intro e hkind
    rw [List.mem_append, hmem, hmem']
    constructor
    · rintro (⟨r, l, hr, hl, he⟩ | ⟨edge, l, hedge, hl, he⟩)
      · obtain ⟨l', hl', hrecord⟩ := index.recordEvents_spec hr
        rw [hl] at hl'
        cases hl'
        rcases hrecord e he with hother | hother
        · rw [hother] at hkind
          simp at hkind
        · rw [hother] at hkind
          simp at hkind
      · obtain ⟨hne, hids⟩ := index.mem_edges.mp hedge
        rw [← Prod.eta edge, hids] at hl
        exact ⟨edge.1, l, hne, hl, he⟩
    · rintro ⟨key, l, hne, hl, he⟩
      exact Or.inr ⟨_, l, index.mem_edges.mpr ⟨hne, rfl⟩, hl, he⟩

theorem timeline_spec (index : Index scope) {events : List TimelineEvent}
    (hevents : index.allEvents = some events) (first last : Option Timestamp)
    (limit : Nat) :
    exists view, index.timeline first last limit = some view ∧
      (forall e, e ∈ view.events -> e ∈ events) ∧
      view.events.Pairwise (fun e f => e.time ≤ f.time) ∧
      (first = none -> last = none -> events.length ≤ limit ->
        forall e, e ∈ events -> e ∈ view.events) := by
  have hsorted : ((events.filter (within first last)).insertionSort
      (fun e f => eventStamp e ≤ eventStamp f)).Pairwise (fun e f => e.time ≤ f.time) := by
    have htotal : Std.Total (fun e f : TimelineEvent => eventStamp e ≤ eventStamp f) :=
      ⟨fun e f => le_total (eventStamp e) (eventStamp f)⟩
    have htrans : IsTrans TimelineEvent (fun e f => eventStamp e ≤ eventStamp f) :=
      ⟨fun _ _ _ => le_trans⟩
    apply (List.pairwise_insertionSort _ _).imp
    intro e f h
    exact Prod.Lex.monotone_fst _ _ h
  unfold timeline
  rw [hevents]
  refine ⟨_, rfl, ?_, hsorted.sublist (List.drop_sublist _ _), ?_⟩
  · intro e he
    have hmem := (List.mem_insertionSort _).mp (List.mem_of_mem_drop he)
    exact (List.mem_filter.mp hmem).1
  · rintro rfl rfl hlimit e he
    have hlength : ((events.filter (within none none)).insertionSort
        (fun e f => eventStamp e ≤ eventStamp f)).length ≤ limit := by
      rw [List.length_insertionSort]
      exact Nat.le_trans (List.length_filter_le _ _) hlimit
    dsimp only
    rw [Nat.sub_eq_zero_of_le hlength, List.drop_zero, List.mem_insertionSort]
    exact List.mem_filter.mpr ⟨he, rfl⟩

end Index

/-!
# Attribution
-/

variable {u : ContextUpdate}

theorem GraphScope.endOf_eq {v : Validity} (hv : scope.validity u.id = some v) :
    scope.endOf u = v.validTo := by
  rw [GraphScope.endOf, hv]
  rfl

variable {key : RelationKey}

theorem GraphScope.asserts_inj {w : ContextUpdate} (hu : u ∈ scope.updates)
    (hw : scope.Asserts key w) (h : u.id = w.id) : u = w :=
  List.inj_on_of_nodup_map (scope_ids_nodup scope) hu hw.1 h

/-- The first record that asserts a relation is named rightly when none starts before. -/
theorem addedRight_iff (hu : scope.Asserts key u) {start : Timestamp}
    (hleast : IsLeast (scope.starts key) start) {s : Uuid}
    {reason : Option EndReason} :
    scope.AddedRight (eventOf (s, u) start TimelineEventKind.relationAdded
        (some (shown key)) reason) ↔
      forall w, scope.Asserts key w -> validFrom u ≤ validFrom w := by
  obtain ⟨v, hv, hfrom⟩ := scope.validity_starts hu.1
  constructor
  · rintro ⟨key', u', v', hrelation, hid, hu', hv', hstart⟩ w hw
    have hsame := GraphScope.asserts_inj hu.1 hu' hid
    rw [← hsame, hv] at hv'
    cases hv'
    rw [← hfrom, hstart]
    exact hleast.2 ⟨w, hw, rfl⟩
  · intro hfirst
    refine ⟨key, u, v, rfl, rfl, hu, hv, ?_⟩
    obtain ⟨w, hw, hwstart⟩ := hleast.1
    apply le_antisymm
    · have hle := hfirst w hw
      rw [hfrom]
      exact hle.trans (le_of_eq hwstart)
    · rw [hfrom]
      exact hleast.2 ⟨u, hu, rfl⟩

theorem endedRight_iff (hu : scope.Asserts key u) (hover : scope.Over key)
    {stop : Timestamp} (hgreatest : IsGreatest (scope.stops key) stop)
    {v : Validity} (hv : scope.validity u.id = some v) {s : Uuid} :
    scope.EndedRight (eventOf (s, u) stop TimelineEventKind.relationEnded
        (some (shown key)) v.reason) ↔
      forall w t t', scope.Asserts key w -> scope.endOf w = some t ->
        scope.endOf u = some t' -> t ≤ t' := by
  constructor
  · rintro ⟨key', u', v', hrelation, hid, hu', hv', hstop, -⟩ w t t' hw ht ht'
    have hsame := GraphScope.asserts_inj hu.1 hu' hid
    rw [← hsame] at hv'
    rw [GraphScope.endOf_eq hv', hstop] at ht'
    cases ht'
    exact hgreatest.2 ⟨w, hw, ht⟩
  · intro hlast
    obtain ⟨t', ht'⟩ := Option.isSome_iff_exists.mp (hover u hu)
    obtain ⟨w, hw, hwstop⟩ := hgreatest.1
    have hstop : t' = stop :=
      le_antisymm (hgreatest.2 ⟨u, hu, ht'⟩) (hlast w stop t' hw hwstop ht')
    refine ⟨key, u, v, rfl, rfl, hu, hv, ?_, rfl, ?_⟩
    · rw [← GraphScope.endOf_eq hv, ht', hstop]
      rfl
    · intro x v' hx hv'
      have hended := hover x hx
      rw [GraphScope.endOf_eq hv'] at hended
      rw [Validity.isCurrent, Option.isNone_eq_false_iff]
      exact hended

theorem holders_ne_nil (hu : scope.Asserts key u) :
    scope.holders key ≠ [] :=
  List.ne_nil_of_mem (GraphScope.mem_holders.mpr hu)

/-- The events of a relation are attributed rightly when its first record starts first and
its last one ends last. -/
theorem relationEvents_right (index : Index scope) (hne : scope.holders key ≠ []) :
    exists l, index.relationEvents (key, (scope.holders key).map ContextUpdate.id) = some l ∧
      ((forall e, e ∈ l -> e.kind = TimelineEventKind.relationAdded -> scope.AddedRight e) ↔
        forall u w, scope.First key u -> scope.Asserts key w ->
          validFrom u ≤ validFrom w) ∧
      ((forall e, e ∈ l -> e.kind = TimelineEventKind.relationEnded -> scope.EndedRight e) ↔
        forall u, scope.Last key u -> scope.Over key ->
          forall w t t', scope.Asserts key w -> scope.endOf w = some t ->
            scope.endOf u = some t' -> t ≤ t') := by
  obtain ⟨u, w, s, s', start, v, l, hu, hw, hleast, hv, hl, hin⟩ :=
    index.relationEvents_spec hne
  refine ⟨l, hl, ?_, ?_⟩
  · constructor
    · intro hright u' x hu' hx
      have hadded := hright _ ((hin _).mpr (Or.inl rfl)) rfl
      rw [hu'.unique hu]
      exact (addedRight_iff hu.1 hleast).mp hadded x hx
    · intro hstarts e he hkind
      rcases (hin e).mp he with rfl | ⟨stop, -, -, rfl⟩
      · exact (addedRight_iff hu.1 hleast).mpr (fun x hx => hstarts u x hu hx)
      · cases hkind
  · constructor
    · intro hright w' hw' hover
      obtain ⟨stop, hgreatest⟩ : exists stop, IsGreatest (scope.stops key) stop := by
        obtain ⟨_, -, ⟨hopen, -⟩ | ⟨stop, -, hstop, -⟩⟩ := index.edgeValidity_spec hne
        · exact absurd hover hopen
        · exact ⟨stop, hstop⟩
      have hended := hright _ ((hin _).mpr (Or.inr ⟨stop, hover, hgreatest, rfl⟩)) rfl
      rw [hw'.unique hw]
      exact (endedRight_iff hw.1 hover hgreatest hv).mp hended
    · intro hstops e he hkind
      rcases (hin e).mp he with rfl | ⟨stop, hover, hgreatest, rfl⟩
      · cases hkind
      · exact (endedRight_iff hw.1 hover hgreatest hv).mpr (hstops w hw hover)

/-- The timelines of a scope are attributed, whatever the window, exactly when of the
records that assert a relation the first written starts first and, once all have ended,
the last written ends last. -/
theorem timeline_attributed_iff (index : Index scope) :
    (forall (first last : Option Timestamp) (limit : Nat),
      exists view, index.timeline first last limit = some view ∧ scope.Attributed view) ↔
      scope.Aligned := by
  obtain ⟨events, hevents, hmem⟩ := index.allEvents_spec
  constructor
  · intro h
    obtain ⟨view, hview, hattributed⟩ := h none none events.length
    obtain ⟨view', hview', -, -, hall⟩ := index.timeline_spec hevents none none events.length
    rw [hview] at hview'
    cases hview'
    have hshown := hall rfl rfl le_rfl
    constructor
    · intro key u w hu hw
      obtain ⟨l, hl, hstarts, -⟩ := relationEvents_right index (holders_ne_nil hw)
      refine hstarts.mp ?_ u w hu hw
      intro e he hkind
      exact hattributed.added e
        (hshown e ((hmem e (Or.inl hkind)).mpr ⟨key, l, holders_ne_nil hw, hl, he⟩)) hkind
    · intro key u hu hover w t t' hw
      obtain ⟨l, hl, -, hstops⟩ := relationEvents_right index (holders_ne_nil hw)
      refine hstops.mp ?_ u hu hover w t t' hw
      intro e he hkind
      exact hattributed.ended e
        (hshown e ((hmem e (Or.inr hkind)).mpr ⟨key, l, holders_ne_nil hw, hl, he⟩)) hkind
  · intro haligned first last limit
    obtain ⟨view, hview, hsub, hsorted, -⟩ := index.timeline_spec hevents first last limit
    refine ⟨view, hview, ?_, ?_, hsorted⟩
    · intro e he hkind
      obtain ⟨key, l, hne, hl, hel⟩ := (hmem e (Or.inl hkind)).mp (hsub e he)
      obtain ⟨l', hl', hstarts, -⟩ := relationEvents_right index hne
      cases hl.symm.trans hl'
      exact hstarts.mpr (haligned.starts key) e hel hkind
    · intro e he hkind
      obtain ⟨key, l, hne, hl, hel⟩ := (hmem e (Or.inr hkind)).mp (hsub e he)
      obtain ⟨l', hl', -, hstops⟩ := relationEvents_right index hne
      cases hl.symm.trans hl'
      exact hstops.mpr (haligned.stops key) e hel hkind

end

/-!
# A relation whose last record ends first
-/

attribute [local instance] asciiWords

def problemOf (id : Uuid) (timestamp : Timestamp) (relations : List EntityRelationship)
    (supersedes : List Uuid) (retiredAt : Option Timestamp) : ContextUpdate :=
  { ContextUpdate.plain id timestamp "" with
    updateType := UpdateType.problemSolved
    createsRelationships := relations
    metadata :=
      { UpdateMeta.default with
        supersedes := supersedes
        retiredAt := retiredAt } }

/-- Two records assert one relation; the later one is superseded before the earlier one
is forgotten. -/
def restatedScope : GraphScope where
  sessions :=
    [{ ActiveSession.new 7 none none 0 with
      incrementalUpdates :=
        [problemOf 1 0 [⟨"Api", "Store", RelationType.dependsOn, ""⟩] [] (some 10),
          problemOf 2 1 [⟨"Api", "Store", RelationType.dependsOn, ""⟩] [] none,
          problemOf 3 5 [] [2] none] }]
  graph := EntityGraph.new

def restatedIndex : Index restatedScope where
  records := scopeRecords restatedScope
  recordsPerm := List.Perm.refl _
  edges := edgeRecords restatedScope.graph
    (inOrder ((scopeRecords restatedScope).map Prod.snd))
  edgesPerm := List.Perm.refl _

/-- The relation ends with the earlier record, but the event names the later one. -/
theorem relation_ended_misattributed :
    ¬ exists view, restatedIndex.timeline none none 100 = some view ∧
      restatedScope.Attributed view := by
  rintro ⟨view, hview, hattributed⟩
  have hended : (restatedIndex.timeline none none 100).map (fun view =>
      (view.events.filter (fun e => e.kind = TimelineEventKind.relationEnded)).map
        (fun e => (e.record, e.time))) = some [(2, 10)] := by
    decide +kernel
  have hstop : (restatedScope.validity 2).bind Validity.validTo = some 5 := by
    decide +kernel
  rw [hview, Option.map_some, Option.some.injEq] at hended
  have hmem : (2, 10) ∈ (view.events.filter
      (fun e => e.kind = TimelineEventKind.relationEnded)).map
        (fun e => (e.record, e.time)) := by
    rw [hended]
    exact List.mem_cons_self
  obtain ⟨e, he, hpair⟩ := List.mem_map.mp hmem
  obtain ⟨he, hkind⟩ := List.mem_filter.mp he
  obtain ⟨hrecord, htime⟩ := Prod.mk.inj hpair
  obtain ⟨_, u, v, -, hid, -, hv, hto, -, -⟩ := hattributed.ended e he (of_decide_eq_true hkind)
  rw [← hid, hrecord] at hv
  rw [hv, Option.bind_some, hto, htime] at hstop
  exact absurd hstop (by decide)

end Memory
end PostCortex
