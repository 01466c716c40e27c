import Mathlib.Data.Finset.Card
import PostCortex.Graph.RoundTrip
import PostCortex.Session.HotTier
import PostCortex.Session.Removal

/-!
# Session documents

How a session is serialized and read back (`session/active_session.rs`).  The
document has every component; reading it shares the hot entries with the list of
updates by their ids, compacts the cold tier and rebuilds the alias index of the
graph.  Sets and maps are written in any order: a document lists the vectorized
ids as its call gives them.
-/

namespace PostCortex
namespace Session

open PostCortex.Core
open PostCortex.Graph
open Transition

/-!
# Documents
-/

/-- `ActiveSessionData`, which the view writes with the same fields. -/
structure ActiveSessionData where
  id : Uuid
  name : Option String
  description : Option String
  createdAt : Timestamp
  lastUpdated : Timestamp
  userPreferences : UserPreferences
  hotContext : List ContextUpdate
  warmContext : List CompressedUpdate
  coldContext : List StructuredSummary
  currentState : StructuredContext
  incrementalUpdates : List ContextUpdate
  codeReferences : Std.ExtTreeMap String (List CodeReference)
  changeHistory : List ChangeRecord
  entityGraph : EntityGraphData
  vectorizedUpdateIds : List Uuid

def StructuredSummary.compact (summary : StructuredSummary) : StructuredSummary :=
  { summary with
    contextSnapshot := StructuredContext.new
    referencedUpdates :=
      if 2 < summary.referencedUpdates.length then
        summary.referencedUpdates.head?.toList ++
          summary.referencedUpdates.getLast?.toList
      else summary.referencedUpdates }

def compactColdContext (cold : List StructuredSummary) : List StructuredSummary :=
  (cold.drop (cold.length - maxColdSummaries)).map StructuredSummary.compact

def byId (tail : List ContextUpdate) (id : Uuid) : Option ContextUpdate :=
  tail.reverse.find? (fun w => w.id == id)

def hotContextSharing (hot incremental : List ContextUpdate) (maxSize : Nat) :
    HotContext :=
  let tailLen := min incremental.length (max hot.length maxSize)
  let tail := incremental.drop (incremental.length - tailLen)
  HotContext.fromUpdates (hot.map (fun u => (byId tail u.id).getD u)) maxSize

def serialize (session : ActiveSession) (vectorized : List Uuid) :
    ActiveSessionData where
  id := session.metadata.id
  name := session.metadata.name
  description := session.metadata.description
  createdAt := session.metadata.createdAt
  lastUpdated := session.lastUpdated
  userPreferences := session.metadata.userPreferences
  hotContext := session.hotContext.snapshot
  warmContext := session.warmContext
  coldContext := session.coldContext
  currentState := session.currentState
  incrementalUpdates := session.incrementalUpdates
  codeReferences := session.codeReferences
  changeHistory := session.changeHistory
  entityGraph := session.entityGraph.serialize
  vectorizedUpdateIds := vectorized

def deserialize [CharTables] (now : Timestamp) (data : ActiveSessionData) :
    ActiveSession × Finset Uuid :=
  ({ metadata :=
      { id := data.id
        name := data.name
        description := data.description
        createdAt := data.createdAt
        userPreferences := data.userPreferences }
     lastUpdated := data.lastUpdated
     hotContext :=
      hotContextSharing data.hotContext data.incrementalUpdates
        data.userPreferences.maxHotContextSize
     warmContext := data.warmContext
     coldContext := compactColdContext data.coldContext
     currentState := data.currentState
     incrementalUpdates := data.incrementalUpdates
     codeReferences := data.codeReferences
     changeHistory := data.changeHistory
     entityGraph := EntityGraph.deserialize now data.entityGraph },
    data.vectorizedUpdateIds.toFinset)

def Lists (listing : List Uuid) (ids : Finset Uuid) : Prop :=
  listing.Nodup ∧ listing.toFinset = ids

instance (listing : List Uuid) (ids : Finset Uuid) : Decidable (Lists listing ids) :=
  inferInstanceAs (Decidable (_ ∧ _))

/-!
# Retirement
-/

def retireUpdate (session : ActiveSession) (entryId : Uuid) (time : Timestamp) :
    Option (ActiveSession × ContextUpdate) :=
  match session.incrementalUpdates.findIdx? (fun u => u.id == entryId) with
  | none => none
  | some pos =>
      match session.incrementalUpdates[pos]? with
      | none => none
      | some update =>
          if update.metadata.retiredAt.isSome then none
          else
            let changed :=
              { update with
                metadata := { update.metadata with retiredAt := some time } }
            some
              ({ session with
                  incrementalUpdates :=
                    session.incrementalUpdates.set pos changed
                  hotContext :=
                    if session.hotContext.containsId entryId then
                      HotContext.fromUpdates
                        (session.hotContext.snapshot.map
                          (fun u => if u.id = entryId then changed else u))
                        session.metadata.userPreferences.maxHotContextSize
                    else session.hotContext
                  warmContext :=
                    session.warmContext.map (fun c =>
                      if c.update.id = entryId then { c with update := changed }
                      else c) },
                changed)

/-!
# Runs
-/

inductive SessionEvent where
  | addIncrementalUpdateFast (draws : Draws) (update : ContextUpdate)
  | applyEntityGraphUpdate (now : Timestamp) (update : ContextUpdate)
  | removeUpdateById (entryId : Uuid)
  | removeUpdatesForFile (filePath : String)
  | rebuildEntityGraphSync (now : Timestamp)
  | mergeEntities (now : Timestamp) (written target : String)
  | retireUpdate (entryId : Uuid) (time : Timestamp)

def SessionEvent.apply [CharTables] (session : ActiveSession) :
    SessionEvent -> ActiveSession
  | addIncrementalUpdateFast draws update =>
      session.addIncrementalUpdateFast draws update
  | applyEntityGraphUpdate now update => session.applyEntityGraphUpdate now update
  | removeUpdateById entryId => (session.removeUpdateById entryId).getD session
  | removeUpdatesForFile filePath => (session.removeUpdatesForFile filePath).1
  | rebuildEntityGraphSync now => session.rebuildEntityGraphSync now
  | mergeEntities now written target =>
      { session with
        entityGraph := (session.entityGraph.mergeEntities now written target).1 }
  | retireUpdate entryId time =>
      ((Session.retireUpdate session entryId time).map Prod.fst).getD session

def sessions [CharTables] (id : Uuid) (name description : Option String)
    (now : Timestamp) : System ActiveSession SessionEvent where
  init := ActiveSession.new id name description now
  step := fun session event => some (event.apply session)

/-- An added update has an id that no update of the session has. -/
def FreshIds (session : ActiveSession) : SessionEvent -> Prop
  | SessionEvent.addIncrementalUpdateFast _ update =>
      update.id ∉ session.incrementalUpdates.map ContextUpdate.id ∧
        session.hotContext.containsId update.id = false
  | _ => True

instance (session : ActiveSession) :
    (event : SessionEvent) -> Decidable (FreshIds session event)
  | SessionEvent.addIncrementalUpdateFast _ _ => inferInstanceAs (Decidable (_ ∧ _))
  | SessionEvent.applyEntityGraphUpdate _ _ => isTrue True.intro
  | SessionEvent.removeUpdateById _ => isTrue True.intro
  | SessionEvent.removeUpdatesForFile _ => isTrue True.intro
  | SessionEvent.rebuildEntityGraphSync _ => isTrue True.intro
  | SessionEvent.mergeEntities _ _ _ => isTrue True.intro
  | SessionEvent.retireUpdate _ _ => isTrue True.intro

/-!
# The hot tier
-/

namespace HotContext

def Held (hot : HotContext) (u : ContextUpdate) : Prop :=
  exists i : Nat, hot.updates[i]? = some u

variable {hot : HotContext} {u : ContextUpdate}

theorem held_of_snapshot (hu : u ∈ hot.snapshot) :
    hot.Held u := by
  obtain ⟨i, -, hi⟩ := List.mem_filterMap.mp hu
  exact ⟨i, hi⟩

theorem Held.containsId (h : hot.Held u) :
    hot.containsId u.id = true := by
  obtain ⟨i, hi⟩ := h
  exact containsId_iff.mpr ⟨i, u, hi, rfl⟩

variable {update : ContextUpdate}

theorem get_push {i : Nat} (h : (hot.push update).updates[i]? = some u) :
    (i = hot.nextId ∧ u = update) ∨ hot.updates[i]? = some u := by
  have hinserted : (hot.updates.insert hot.nextId update)[i]? = some u ->
      (i = hot.nextId ∧ u = update) ∨ hot.updates[i]? = some u := by
    intro hi
    rw [Std.ExtTreeMap.getElem?_insert] at hi
    split at hi
    · next heq =>
      exact Or.inl ⟨(Std.LawfulEqCmp.compare_eq_iff_eq.mp heq).symm,
        (Option.some.inj hi).symm⟩
    · exact Or.inr hi
  simp only [HotContext.push] at h
  split at h
  · rw [Std.ExtTreeMap.getElem?_erase] at h
    split at h
    · cases h
    · exact hinserted h
  · exact hinserted h

theorem held_push (h : (hot.push update).Held u) :
    u = update ∨ hot.Held u := by
  obtain ⟨i, hi⟩ := h
  rcases get_push hi with ⟨-, hlast⟩ | hold
  · exact Or.inl hlast
  · exact Or.inr ⟨i, hold⟩

theorem held_removeById {entryId : Uuid} (h : (hot.removeById entryId).Held u) :
    hot.Held u := by
  obtain ⟨i, hi⟩ := h
  unfold removeById at hi
  split at hi
  · exact ⟨i, hi⟩
  · dsimp only at hi
    rw [Std.ExtTreeMap.getElem?_erase] at hi
    split at hi
    · cases hi
    · exact ⟨i, hi⟩

variable {updates : List ContextUpdate} {maxSize : Nat}

theorem held_fromUpdates (h : (fromUpdates updates maxSize).Held u) :
    u ∈ updates := by
  unfold fromUpdates at h
  induction updates using List.reverseRecOn with
  | nil =>
      obtain ⟨i, hi⟩ := h
      simp [HotContext.new] at hi
  | append_singleton rest last ih =>
      rw [List.foldl_append] at h
      rcases held_push h with hlast | hrest
      · exact List.mem_append_right _ (List.mem_singleton.mpr hlast)
      · exact List.mem_append_left _ (ih hrest)

def Tiered (hot : HotContext) : Prop :=
  exists log, HotTier.Placed ⟨hot, log⟩

theorem tiered_new (maxSize : Nat) : (new maxSize).Tiered :=
  ⟨[], HotTier.placed_new maxSize⟩

theorem Tiered.push (h : hot.Tiered) (update : ContextUpdate) :
    (hot.push update).Tiered := by
  obtain ⟨log, hlog⟩ := h
  exact ⟨_, hlog.push update⟩

theorem Tiered.removeById (h : hot.Tiered) (entryId : Uuid) :
    (hot.removeById entryId).Tiered := by
  obtain ⟨log, hlog⟩ := h
  obtain ⟨met, -, hmet⟩ := removeById_eq hot entryId
  rw [hmet]
  exact ⟨_, hlog.removeMet met⟩

theorem tiered_fromUpdates (updates : List ContextUpdate) (maxSize : Nat) :
    (fromUpdates updates maxSize).Tiered :=
  ⟨_, (HotTier.placed_new maxSize).pushAll updates⟩

theorem Tiered.bounded (h : hot.Tiered) :
    hot.snapshot.length ≤ hot.maxSize := by
  obtain ⟨log, hlog⟩ := h
  have hbounded := hlog.bounded
  rw [hlog.length] at hbounded
  exact hbounded

theorem maxSize_fromUpdates (updates : List ContextUpdate) (maxSize : Nat) :
    (fromUpdates updates maxSize).maxSize = maxSize := by
  have hfold : forall (xs : List ContextUpdate) (hot : HotContext),
      (xs.foldl push hot).maxSize = hot.maxSize := by
    intro xs
    induction xs with
    | nil =>
        exact fun _ => rfl
    | cons x rest ih =>
        exact fun hot => ih (hot.push x)
  exact hfold updates (new maxSize)

theorem maxSize_removeById (hot : HotContext) (entryId : Uuid) :
    (hot.removeById entryId).maxSize = hot.maxSize := by
  unfold removeById
  split
  · rfl
  · rfl

theorem snapshot_fromUpdates (hfits : updates.length ≤ maxSize) :
    (fromUpdates updates maxSize).snapshot = updates := by
  have hordered := ((HotTier.placed_new maxSize).pushAll updates).ordered
  have hlog : ([] ++ HotTier.logged updates).length -
      (updates.foldl push (new maxSize)).maxSize = 0 := by
    have hmax := maxSize_fromUpdates updates maxSize
    unfold fromUpdates at hmax
    rw [hmax, List.nil_append, HotTier.logged, List.length_map]
    omega
  refine hordered.trans ?_
  unfold HotTier.retained
  dsimp only
  rw [hlog, List.drop_zero, List.nil_append, HotTier.logged, List.filterMap_map]
  exact List.filterMap_some

end HotContext

/-!
# What a run keeps
-/

/-- As many summaries as are kept, none of which compacting changes. -/
structure Compact (cold : List StructuredSummary) : Prop where
  few : cold.length ≤ maxColdSummaries
  same : forall c, c ∈ cold -> c.compact = c

theorem Compact.compactColdContext {cold : List StructuredSummary}
    (h : Compact cold) :
    Session.compactColdContext cold = cold := by
  unfold Session.compactColdContext
  rw [Nat.sub_eq_zero_of_le h.few, List.drop_zero]
  exact (List.map_congr_left (g := id) h.same).trans (List.map_id cold)

theorem Compact.add {cold : List StructuredSummary} (h : Compact cold)
    {summary : StructuredSummary} (hsummary : summary.compact = summary) :
    Compact ((cold ++ [summary]).drop
      ((cold ++ [summary]).length - maxColdSummaries)) where
  few := by
    rw [List.length_drop]
    omega
  same := by
    intro c hc
    rcases List.mem_append.mp (List.mem_of_mem_drop hc) with hold | hnew
    · exact h.same c hold
    · rw [List.mem_singleton.mp hnew]
      exact hsummary

theorem length_referencedUpdates (window : List ContextUpdate) :
    (ActiveSession.referencedUpdates window).length ≤ 2 := by
  unfold ActiveSession.referencedUpdates
  split
  · split
    · exact Nat.le_refl 2
    · exact Nat.le_succ 1
  · exact Nat.le_succ 1
  · exact Nat.zero_le 2

theorem maintainContext_compact {session : ActiveSession}
    (h : Compact session.coldContext) (draws : Draws) :
    Compact (session.maintainContext draws).coldContext := by
  unfold ActiveSession.maintainContext
  split
  · refine h.add ?_
    unfold StructuredSummary.compact
    dsimp only
    rw [if_neg (Nat.not_lt.mpr (length_referencedUpdates _))]
  · exact h

/-- A hot entry and an update of the list with its id are the same. -/
def Shares (hot : HotContext) (updates : List ContextUpdate) : Prop :=
  forall u, hot.Held u -> forall w, w ∈ updates -> w.id = u.id -> w = u

theorem byId_mem {tail : List ContextUpdate} {id : Uuid} {w : ContextUpdate}
    (h : byId tail id = some w) :
    w ∈ tail ∧ w.id = id :=
  ⟨List.mem_reverse.mp (List.mem_of_find?_eq_some h),
    by simpa using List.find?_some h⟩

theorem Shares.hotContextSharing {hot : HotContext} {updates : List ContextUpdate}
    (h : Shares hot updates) (maxSize : Nat) :
    Session.hotContextSharing hot.snapshot updates maxSize =
      HotContext.fromUpdates hot.snapshot maxSize := by
  unfold Session.hotContextSharing
  dsimp only
  congr 1
  refine (List.map_congr_left (g := id) ?_).trans (List.map_id _)
  intro u hu
  generalize hfound : byId _ u.id = found
  cases found with
  | none =>
      rfl
  | some w =>
      obtain ⟨hw, hid⟩ := byId_mem hfound
      exact h u (HotContext.held_of_snapshot hu) w (List.mem_of_mem_drop hw) hid

section

/-- The hot tier of a session has the room that the preferences name. -/
structure Roomy (session : ActiveSession) : Prop where
  tier : session.hotContext.Tiered
  room : session.hotContext.maxSize =
    session.metadata.userPreferences.maxHotContextSize

variable {session after : ActiveSession} {entryId : Uuid}

theorem Roomy.same (h : Roomy session)
    (hhot : after.hotContext = session.hotContext)
    (hpreferences : after.metadata.userPreferences =
      session.metadata.userPreferences) :
    Roomy after where
  tier := hhot ▸ h.tier
  room := by
    rw [hhot, hpreferences]
    exact h.room

theorem removeUpdateById_parts (h : session.removeUpdateById entryId = some after) :
    after.metadata = session.metadata ∧
      after.coldContext = session.coldContext ∧
      after.hotContext = (session.dropEntries entryId).hotContext ∧
      after.incrementalUpdates =
        session.incrementalUpdates.filter (fun u => u.id != entryId) ∧
      after.entityGraph = ActiveSession.removeMentions session.entityGraph entryId := by
  obtain ⟨removed, -, rfl⟩ := ActiveSession.removeUpdateById_some h
  exact ⟨rfl, rfl, rfl, rfl, rfl⟩

theorem Roomy.remove (h : Roomy session) (entryId : Uuid) :
    Roomy ((session.removeUpdateById entryId).getD session) := by
  cases hafter : session.removeUpdateById entryId with
  | none => exact h
  | some after =>
      obtain ⟨hmetadata, -, hhot, -, -⟩ := removeUpdateById_parts hafter
      rw [Option.getD_some]
      rw [ActiveSession.dropEntries] at hhot
      dsimp only at hhot
      split at hhot
      · refine ⟨hhot ▸ h.tier.removeById entryId, ?_⟩
        rw [hhot, HotContext.maxSize_removeById, hmetadata]
        exact h.room
      · exact h.same hhot (by rw [hmetadata])

/-!
# What a retirement does
-/

def retireAt (time : Timestamp) (update : ContextUpdate) : ContextUpdate :=
  { update with metadata := { update.metadata with retiredAt := some time } }

/-- The session with the changed update in place of the one at `pos`, and in
place of every entry with its id. -/
def withRetired (session : ActiveSession) (entryId : Uuid) (pos : Nat)
    (changed : ContextUpdate) : ActiveSession :=
  { session with
    incrementalUpdates := session.incrementalUpdates.set pos changed
    hotContext :=
      if session.hotContext.containsId entryId then
        HotContext.fromUpdates
          (session.hotContext.snapshot.map
            (fun u => if u.id = entryId then changed else u))
          session.metadata.userPreferences.maxHotContextSize
      else session.hotContext
    warmContext :=
      session.warmContext.map (fun c =>
        if c.update.id = entryId then { c with update := changed } else c) }

def First (session : ActiveSession) (entryId : Uuid) (pos : Nat)
    (update : ContextUpdate) : Prop :=
  session.incrementalUpdates.findIdx? (fun u => u.id == entryId) = some pos ∧
    session.incrementalUpdates[pos]? = some update

variable {pos : Nat} {update : ContextUpdate}

theorem First.id_eq (h : First session entryId pos update) :
    update.id = entryId := by
  obtain ⟨hlt, hmatch, -⟩ := List.findIdx?_eq_some_iff_getElem.mp h.1
  have hat := h.2
  rw [List.getElem?_eq_getElem hlt] at hat
  rw [← Option.some.inj hat]
  simpa using hmatch

theorem retireUpdate_cases (session : ActiveSession) (entryId : Uuid)
    (time : Timestamp) :
    (entryId ∉ session.incrementalUpdates.map ContextUpdate.id ∧
        retireUpdate session entryId time = none) ∨
      exists pos update, First session entryId pos update ∧
        ((update.metadata.retiredAt.isSome = true ∧
            retireUpdate session entryId time = none) ∨
          (update.metadata.retiredAt = none ∧
            retireUpdate session entryId time =
              some (withRetired session entryId pos (retireAt time update),
                retireAt time update))) := by
  cases hpos : session.incrementalUpdates.findIdx? (fun u => u.id == entryId) with
  | none =>
      refine Or.inl ⟨?_, by rw [retireUpdate, hpos]⟩
      intro hmem
      obtain ⟨u, hu, hid⟩ := List.mem_map.mp hmem
      have habsent := List.findIdx?_eq_none_iff.mp hpos u hu
      simp [hid] at habsent
  | some pos =>
      obtain ⟨hlt, -, -⟩ := List.findIdx?_eq_some_iff_getElem.mp hpos
      have hupdate := List.getElem?_eq_getElem hlt
      generalize session.incrementalUpdates[pos] = update at hupdate
      refine Or.inr ⟨pos, update, ⟨hpos, hupdate⟩, ?_⟩
      unfold retireUpdate
      rw [hpos]
      dsimp only
      rw [hupdate]
      dsimp only
      cases hretired : update.metadata.retiredAt with
      | some _ => exact Or.inl ⟨rfl, rfl⟩
      | none => exact Or.inr ⟨rfl, rfl⟩

theorem held_withRetired {changed u : ContextUpdate}
    (hu : (withRetired session entryId pos changed).hotContext.Held u) :
    u = changed ∨ session.hotContext.Held u ∧ u.id ≠ entryId := by
  rw [withRetired] at hu
  dsimp only at hu
  split at hu
  · obtain ⟨v, hv, rfl⟩ := List.mem_map.mp (HotContext.held_fromUpdates hu)
    split
    · exact Or.inl rfl
    · next hne => exact Or.inr ⟨HotContext.held_of_snapshot hv, hne⟩
  · next habsent => exact Or.inr ⟨hu, fun heq => habsent (heq ▸ hu.containsId)⟩

theorem Roomy.retired (h : Roomy session) (entryId : Uuid) (pos : Nat)
    (changed : ContextUpdate) :
    Roomy (withRetired session entryId pos changed) := by
  by_cases hheld : session.hotContext.containsId entryId = true
  · refine ⟨?_, ?_⟩
    · rw [withRetired, if_pos hheld]
      exact HotContext.tiered_fromUpdates _ _
    · rw [withRetired, if_pos hheld]
      exact HotContext.maxSize_fromUpdates _ _
  · refine h.same ?_ rfl
    rw [withRetired, if_neg hheld]

theorem Roomy.retire (h : Roomy session) (entryId : Uuid) (time : Timestamp) :
    Roomy (((retireUpdate session entryId time).map Prod.fst).getD session) := by
  rcases retireUpdate_cases session entryId time with
    ⟨-, hnone⟩ | ⟨pos, update, -, ⟨-, hnone⟩ | ⟨-, hsome⟩⟩
  · rw [hnone]
    exact h
  · rw [hnone]
    exact h
  · rw [hsome]
    exact h.retired entryId pos _

end

section

variable [CharTables]

/-- What makes a session come back from its document. -/
structure Storable (session : ActiveSession) : Prop where
  graph : session.entityGraph.Restorable
  tier : session.hotContext.Tiered
  room : session.hotContext.maxSize =
    session.metadata.userPreferences.maxHotContextSize
  ids : (session.incrementalUpdates.map ContextUpdate.id).Nodup
  shares : Shares session.hotContext session.incrementalUpdates
  cold : Compact session.coldContext

theorem Storable.roomy {session : ActiveSession} (h : Storable session) : Roomy session :=
  ⟨h.tier, h.room⟩

theorem storable_new (id : Uuid) (name description : Option String)
    (now : Timestamp) :
    Storable (ActiveSession.new id name description now) where
  graph := EntityGraph.restorable_new
  tier := HotContext.tiered_new 50
  room := rfl
  ids := List.nodup_nil
  shares := fun _ _ _ hw => absurd hw List.not_mem_nil
  cold := ⟨Nat.zero_le _, fun _ hc => absurd hc List.not_mem_nil⟩

variable {session : ActiveSession}

theorem Storable.withGraph (h : Storable session) {graph : EntityGraph}
    (hgraph : graph.Restorable) :
    Storable { session with entityGraph := graph } where
  graph := hgraph
  tier := h.tier
  room := h.room
  ids := h.ids
  shares := h.shares
  cold := h.cold

theorem Storable.add {session : ActiveSession} (h : Storable session)
    (draws : Draws) {update : ContextUpdate}
    (hfresh : update.id ∉ session.incrementalUpdates.map ContextUpdate.id)
    (habsent : session.hotContext.containsId update.id = false) :
    Storable (session.addIncrementalUpdateFast draws update) := by
  rw [ActiveSession.addIncrementalUpdateFast_eq]
  refine ⟨h.graph, h.tier.push _, h.room, ?_, ?_, maintainContext_compact h.cold draws⟩
  · show ((session.incrementalUpdates ++ [ActiveSession.limited update]).map
      ContextUpdate.id).Nodup
    rw [List.map_append, List.nodup_append]
    refine ⟨h.ids, List.nodup_singleton _, ?_⟩
    intro u hu w hw heq
    rw [List.mem_singleton.mp hw] at heq
    exact hfresh (heq ▸ hu)
  · intro u hu w hw hid
    rcases HotContext.held_push hu with rfl | hold
    · rcases List.mem_append.mp hw with hmem | hlast
      · exact absurd (hid ▸ List.mem_map_of_mem hmem) hfresh
      · exact List.mem_singleton.mp hlast
    · rcases List.mem_append.mp hw with hmem | hlast
      · exact h.shares u hold w hmem hid
      · rw [List.mem_singleton.mp hlast] at hid
        have hheld := hold.containsId
        rw [← hid] at hheld
        exact absurd (habsent.symm.trans hheld) Bool.false_ne_true

theorem removeMentions_restorable {g : EntityGraph} (h : g.Restorable)
    (id : Uuid) :
    (ActiveSession.removeMentions g id).Restorable := by
  unfold ActiveSession.removeMentions
  split
  · exact ⟨h.resolving.frame rfl rfl rfl rfl, h.indexed.mentions rfl rfl rfl rfl rfl,
      h.exact⟩
  · exact h

variable {hot hot' : HotContext} {updates : List ContextUpdate}

omit [CharTables] in
theorem Shares.mono {updates' : List ContextUpdate} (h : Shares hot updates)
    (hhot : forall u, hot'.Held u -> hot.Held u)
    (hupdates : forall w, w ∈ updates' -> w ∈ updates) :
    Shares hot' updates' :=
  fun u hu w hw hid => h u (hhot u hu) w (hupdates w hw) hid

theorem removed_restorable (h : session.entityGraph.Restorable) (entryId : Uuid) :
    ((session.removeUpdateById entryId).getD session).entityGraph.Restorable := by
  cases hafter : session.removeUpdateById entryId with
  | none => exact h
  | some after =>
      obtain ⟨-, -, -, -, hgraph⟩ := removeUpdateById_parts hafter
      rw [Option.getD_some, hgraph]
      exact removeMentions_restorable h entryId

omit [CharTables] in
theorem removed_cold (session : ActiveSession) (entryId : Uuid) :
    ((session.removeUpdateById entryId).getD session).coldContext =
      session.coldContext := by
  cases hafter : session.removeUpdateById entryId with
  | none => rfl
  | some after =>
      obtain ⟨-, hcold, -, -, -⟩ := removeUpdateById_parts hafter
      exact hcold

theorem Storable.remove (h : Storable session) (entryId : Uuid) :
    Storable ((session.removeUpdateById entryId).getD session) := by
  have hroomy := h.roomy.remove entryId
  have hgraph := removed_restorable h.graph entryId
  have hcold := removed_cold session entryId
  cases hafter : session.removeUpdateById entryId with
  | none =>
      exact h
  | some after =>
      rw [hafter] at hroomy hgraph hcold
      obtain ⟨-, -, hhot, hupdates, -⟩ := removeUpdateById_parts hafter
      rw [Option.getD_some] at hroomy hgraph hcold ⊢
      refine ⟨hgraph, hroomy.tier, hroomy.room, ?_, ?_, ?_⟩
      · rw [hupdates]
        exact h.ids.sublist ((List.filter_sublist).map ContextUpdate.id)
      · rw [hupdates, hhot, ActiveSession.dropEntries]
        refine h.shares.mono ?_ (fun _ hw => (List.mem_filter.mp hw).1)
        dsimp only
        split
        · exact fun _ hu => HotContext.held_removeById hu
        · exact fun _ hu => hu
      · rw [hcold]
        exact h.cold

theorem Storable.removeForFile (h : Storable session) (filePath : String) :
    Storable (session.removeUpdatesForFile filePath).1 where
  graph := h.graph
  tier := h.tier
  room := h.room
  ids := h.ids.sublist ((List.filter_sublist).map ContextUpdate.id)
  shares := h.shares.mono (fun _ hu => hu) (fun _ hw => (List.mem_filter.mp hw).1)
  cold := h.cold

theorem rebuilt_restorable (session : ActiveSession) (now : Timestamp) :
    (session.rebuildEntityGraphSync now).entityGraph.Restorable := by
  have hreplayed : (session.incrementalUpdates.foldl
      (EntityGraph.applyUpdate now) EntityGraph.new).Restorable :=
    List.foldlRecOn _ _ EntityGraph.restorable_new
      (fun _ hg update _ => hg.applyUpdate now update)
  exact List.foldlRecOn _ _ hreplayed
    (fun _ hg m _ => hg.mergeEntities now m.1 m.2)

theorem Storable.rebuild (h : Storable session) (now : Timestamp) :
    Storable (session.rebuildEntityGraphSync now) :=
  h.withGraph (rebuilt_restorable session now)

variable {update changed : ContextUpdate}

omit [CharTables] in
theorem ids_set {pos : Nat} (hupdate : updates[pos]? = some update)
    (hid : changed.id = update.id) :
    (updates.set pos changed).map ContextUpdate.id =
      updates.map ContextUpdate.id := by
  obtain ⟨hlt, hat⟩ := List.getElem?_eq_some_iff.mp hupdate
  apply List.ext_getElem?
  intro i
  rw [List.getElem?_map, List.getElem?_map, List.getElem?_set]
  by_cases hi : pos = i
  · subst hi
    rw [if_pos rfl, if_pos hlt, hupdate, Option.map_some, Option.map_some, hid]
  · rw [if_neg hi]

omit [CharTables] in
/-- The changed update takes the place of its old version in the list and in the
hot tier. -/
theorem Shares.retire (h : Shares hot updates)
    (hids : (updates.map ContextUpdate.id).Nodup) {pos : Nat}
    (hupdate : updates[pos]? = some update) (hid : changed.id = update.id)
    (hhot : forall u, hot'.Held u ->
      u = changed ∨ hot.Held u ∧ u.id ≠ changed.id) :
    Shares hot' (updates.set pos changed) := by
  have hplace : changed ∈ updates.set pos changed :=
    List.mem_set (List.getElem?_eq_some_iff.mp hupdate).1 changed
  have hids' : ((updates.set pos changed).map ContextUpdate.id).Nodup := by
    rw [ids_set hupdate hid]
    exact hids
  intro u hu w hw hwu
  rcases hhot u hu with rfl | ⟨hheld, hother⟩
  · exact List.inj_on_of_nodup_map hids' hw hplace hwu
  · rcases List.mem_or_eq_of_mem_set hw with hold | hchanged
    · exact h u hheld w hold hwu
    · rw [hchanged] at hwu
      exact absurd hwu.symm hother

omit [CharTables] in
theorem retired_graph (session : ActiveSession) (entryId : Uuid) (time : Timestamp) :
    (((retireUpdate session entryId time).map Prod.fst).getD session).entityGraph =
        session.entityGraph ∧
      (((retireUpdate session entryId time).map Prod.fst).getD session).coldContext =
        session.coldContext := by
  rcases retireUpdate_cases session entryId time with
    ⟨-, hnone⟩ | ⟨pos, update, -, ⟨-, hnone⟩ | ⟨-, hsome⟩⟩
  · rw [hnone]
    exact ⟨rfl, rfl⟩
  · rw [hnone]
    exact ⟨rfl, rfl⟩
  · rw [hsome]
    exact ⟨rfl, rfl⟩

theorem Storable.retire (h : Storable session) (entryId : Uuid) (time : Timestamp) :
    Storable (((retireUpdate session entryId time).map Prod.fst).getD session) := by
  have hroomy := h.roomy.retire entryId time
  rcases retireUpdate_cases session entryId time with
    ⟨-, hnone⟩ | ⟨pos, update, hfirst, ⟨-, hnone⟩ | ⟨-, hsome⟩⟩
  · rw [hnone]
    exact h
  · rw [hnone]
    exact h
  · rw [hsome, Option.map_some, Option.getD_some] at hroomy ⊢
    have hid : (retireAt time update).id = update.id := rfl
    refine ⟨h.graph, hroomy.tier, hroomy.room, ?_, ?_, h.cold⟩
    · show ((session.incrementalUpdates.set pos _).map ContextUpdate.id).Nodup
      rw [ids_set hfirst.2 hid]
      exact h.ids
    · refine h.shares.retire h.ids hfirst.2 hid (fun u hu => ?_)
      rw [hid, hfirst.id_eq]
      exact held_withRetired hu

theorem Storable.apply (h : Storable session) {event : SessionEvent}
    (hevent : FreshIds session event) :
    Storable (event.apply session) := by
  cases event with
  | addIncrementalUpdateFast draws update => exact h.add draws hevent.1 hevent.2
  | applyEntityGraphUpdate now update =>
      exact h.withGraph (h.graph.applyUpdate now update)
  | removeUpdateById entryId => exact h.remove entryId
  | removeUpdatesForFile filePath => exact h.removeForFile filePath
  | rebuildEntityGraphSync now => exact h.rebuild now
  | mergeEntities now written target =>
      exact h.withGraph (h.graph.mergeEntities now written target)
  | retireUpdate entryId time => exact h.retire entryId time

/-!
# The round trip
-/

/-- What of a session comes back from its document. -/
structure Restored (now : Timestamp) (session loaded : ActiveSession) : Prop where
  metadata : loaded.metadata = session.metadata
  lastUpdated : loaded.lastUpdated = session.lastUpdated
  hotContext : loaded.hotContext.snapshot = session.hotContext.snapshot
  warmContext : loaded.warmContext = session.warmContext
  coldContext : loaded.coldContext = compactColdContext session.coldContext
  currentState : loaded.currentState = session.currentState
  incrementalUpdates : loaded.incrementalUpdates = session.incrementalUpdates
  codeReferences : loaded.codeReferences = session.codeReferences
  changeHistory : loaded.changeHistory = session.changeHistory
  graph : loaded.entityGraph = session.entityGraph.reload now
  entityGraph : EntityGraph.RoundTrips now session.entityGraph

def SameDocument (data data' : ActiveSessionData) : Prop :=
  data.vectorizedUpdateIds.Perm data'.vectorizedUpdateIds ∧
    { data with vectorizedUpdateIds := [] } =
      { data' with vectorizedUpdateIds := [] }

theorem Storable.restored (h : Storable session) (now : Timestamp)
    (listing : List Uuid) :
    Restored now session (deserialize now (serialize session listing)).1 where
  metadata := rfl
  lastUpdated := rfl
  hotContext := by
    have hfits := h.tier.bounded
    rw [h.room] at hfits
    exact (congrArg HotContext.snapshot (h.shares.hotContextSharing _)).trans
      (HotContext.snapshot_fromUpdates hfits)
  warmContext := rfl
  coldContext := rfl
  currentState := rfl
  incrementalUpdates := rfl
  codeReferences := rfl
  changeHistory := rfl
  graph := rfl
  entityGraph := h.graph.resolving.roundTrips h.graph.exact now

theorem Storable.sameDocument (h : Storable session) (now : Timestamp)
    {ids : Finset Uuid} {listing again : List Uuid} (hlisting : Lists listing ids)
    (hagain : Lists again ids) :
    SameDocument (serialize (deserialize now (serialize session listing)).1 again)
      (serialize session listing) := by
  have hrestored := h.restored now listing
  refine ⟨?_, ?_⟩
  · refine (List.perm_ext_iff_of_nodup hagain.1 hlisting.1).mpr ?_
    intro id
    show id ∈ again ↔ id ∈ listing
    rw [← List.mem_toFinset, hagain.2, ← hlisting.2, List.mem_toFinset]
  · have hcold : (deserialize now (serialize session listing)).1.coldContext =
        session.coldContext :=
      hrestored.coldContext.trans h.cold.compactColdContext
    have hgraph : (deserialize now
        (serialize session listing)).1.entityGraph.serialize =
          session.entityGraph.serialize := by
      rw [hrestored.graph]
      exact hrestored.entityGraph.document
    unfold serialize at *
    dsimp only at *
    rw [hrestored.hotContext, hcold, hgraph]
    rfl

/-- A session whose updates all came with new ids comes back from its document,
and its document from it. -/
theorem session_round_trips {id : Uuid} {name description : Option String}
    {created : Timestamp} {session : ActiveSession}
    (h : System.Reachable (sessions id name description created) FreshIds session)
    (now : Timestamp) {ids : Finset Uuid} {listing : List Uuid}
    (hlisting : Lists listing ids) :
    Restored now session (deserialize now (serialize session listing)).1 ∧
    session.coldContext.length ≤ maxColdSummaries ∧
    (deserialize now (serialize session listing)).2 = ids ∧
    forall again, Lists again (deserialize now (serialize session listing)).2 ->
      SameDocument
        (serialize (deserialize now (serialize session listing)).1 again)
        (serialize session listing) := by
  have hstorable : Storable session := by
    refine h.invariant (storable_new id name description created) ?_
    intro s event s' hs hevent hstep
    cases hstep
    exact hs.apply hevent
  have hids : (deserialize now (serialize session listing)).2 = ids := hlisting.2
  refine ⟨hstorable.restored now listing, hstorable.cold.few, hids, ?_⟩
  intro again hagain
  rw [hids] at hagain
  exact hstorable.sameDocument now hlisting hagain

end

section

attribute [local instance] EntityGraph.asciiTables

/-- Three updates of which one is retired and one removed, and the document of
what is left. -/
theorem session_round_trips_run :
    exists session, (sessions 0 none none 0).Reachable FreshIds session ∧
      session.incrementalUpdates.map ContextUpdate.id = [1, 4] ∧
      session.hotContext.snapshot.map (fun u => u.metadata.retiredAt) =
        [some 9, none] ∧
      Restored 10 session (deserialize 10 (serialize session [4, 1])).1 := by
  have hrun : exists session, (sessions 0 none none 0).replay FreshIds
      (sessions 0 none none 0).init
      [SessionEvent.addIncrementalUpdateFast ⟨1, 1, 2, 3⟩
          (ContextUpdate.plain 1 1 "first"),
        SessionEvent.addIncrementalUpdateFast ⟨2, 2, 5, 6⟩
          (ContextUpdate.plain 2 2 "second"),
        SessionEvent.addIncrementalUpdateFast ⟨3, 4, 7, 8⟩
          (ContextUpdate.plain 4 3 "third"),
        SessionEvent.retireUpdate 1 9,
        SessionEvent.removeUpdateById 2] = some session ∧
      session.incrementalUpdates.map ContextUpdate.id = [1, 4] ∧
      session.hotContext.snapshot.map (fun u => u.metadata.retiredAt) =
        [some 9, none] :=
    ⟨_, rfl, by decide +kernel⟩
  obtain ⟨session, hsession, hids, hretired⟩ := hrun
  have hreach := System.Reachable.init.replay hsession
  have hlists : Lists [4, 1] {1, 4} := by decide
  exact ⟨session, hreach, hids, hretired,
    (session_round_trips hreach 10 hlists).1⟩

/-- Two updates with one id: the hot tier comes back with the second one twice. -/
theorem repeated_id_shares_update :
    ¬ forall (id : Uuid) (name description : Option String) (created : Timestamp)
      (session : ActiveSession),
      (sessions id name description created).Reachable System.Anything session ->
      forall (now : Timestamp) (ids : Finset Uuid) (listing : List Uuid),
        Lists listing ids ->
        Restored now session (deserialize now (serialize session listing)).1 := by
  intro hall
  have hrun : exists session, (sessions 0 none none 0).replay System.Anything
      (sessions 0 none none 0).init
      [SessionEvent.addIncrementalUpdateFast ⟨1, 1, 2, 3⟩
          (ContextUpdate.plain 1 1 "first"),
        SessionEvent.addIncrementalUpdateFast ⟨2, 1, 5, 6⟩
          (ContextUpdate.plain 1 2 "second")] = some session ∧
      (deserialize 3 (serialize session [])).1.hotContext.snapshot ≠
        session.hotContext.snapshot :=
    ⟨_, rfl, by decide +kernel⟩
  obtain ⟨session, hsession, hdiffers⟩ := hrun
  have hrestored := hall 0 none none 0 session
    (System.Reachable.init.replay hsession) 3 ∅ [] (by decide)
  exact hdiffers hrestored.hotContext

end

end Session
end PostCortex
