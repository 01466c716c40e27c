import PostCortex.Session.ContentLimits
import PostCortex.Session.Documents

/-!
# Retiring an update

`retire_update` of `session/active_session.rs`.  It changes the first update of
the list with the id and puts the changed update in place of every hot and warm
entry with that id, the hot ones through a tier made anew.  Every session is
made with the room that its preferences name, so that tier holds all entries.
-/

namespace PostCortex
namespace Session

open PostCortex.Core
open PostCortex.Graph
open ActiveSession

/-!
# The sessions there are
-/

/-- A session that was created or loaded and then written to.  `rest` is what
the other methods do, which leave the hot tier and the preferences. -/
inductive Built [CharTables] : ActiveSession -> Prop where
  | new (id : Uuid) (name description : Option String) (now : Timestamp) :
      Built (ActiveSession.new id name description now)
  | deserialize (now : Timestamp) (data : ActiveSessionData) :
      Built (deserialize now data).1
  | event {session : ActiveSession} (h : Built session) (event : SessionEvent) :
      Built (event.apply session)
  | add {session : ActiveSession} (h : Built session) (draws : Draws)
      (update : ContextUpdate) : Built (session.addIncrementalUpdate draws update)
  | rest {session after : ActiveSession} (h : Built session)
      (hhot : after.hotContext = session.hotContext)
      (hpreferences : after.metadata.userPreferences =
        session.metadata.userPreferences) : Built after

variable {session after : ActiveSession} {update : ContextUpdate} {entryId : Uuid}
  {pos : Nat}

theorem Roomy.pushed (h : Roomy session)
    (hhot : after.hotContext = session.hotContext.push update)
    (hpreferences : after.metadata.userPreferences =
      session.metadata.userPreferences) :
    Roomy after where
  tier := hhot ▸ h.tier.push update
  room := by
    rw [hhot, HotTier.maxSize_push, hpreferences]
    exact h.room

theorem Built.roomy [CharTables] (h : Built session) :
    Roomy session := by
  induction h with
  | new id name description now => exact ⟨HotContext.tiered_new 50, rfl⟩
  | deserialize now data =>
      exact ⟨HotContext.tiered_fromUpdates _ _, HotContext.maxSize_fromUpdates _ _⟩
  | @event session _ event ih =>
      cases event with
      | addIncrementalUpdateFast draws update =>
          show Roomy (session.addIncrementalUpdateFast draws update)
          rw [addIncrementalUpdateFast_eq]
          exact ih.pushed rfl rfl
      | applyEntityGraphUpdate now update | removeUpdatesForFile filePath
      | rebuildEntityGraphSync now | mergeEntities now written target =>
          exact ih.same rfl rfl
      | removeUpdateById entryId => exact ih.remove entryId
      | retireUpdate entryId time => exact ih.retire entryId time
  | @add session _ draws update ih =>
      rw [addIncrementalUpdate_eq, addIncrementalUpdateFast_eq]
      exact ih.pushed rfl rfl
  | rest _ hhot hpreferences ih => exact ih.same hhot hpreferences

/-- The hot entries after a retirement are those before, the changed update in
place of those with its id. -/
theorem Roomy.snapshot_retired (h : Roomy session) (entryId : Uuid) (pos : Nat)
    (changed : ContextUpdate) :
    (withRetired session entryId pos changed).hotContext.snapshot =
      session.hotContext.snapshot.map
        (fun u => if u.id = entryId then changed else u) := by
  by_cases hheld : session.hotContext.containsId entryId = true
  · rw [withRetired, if_pos hheld, HotContext.snapshot_fromUpdates]
    rw [List.length_map, ← h.room]
    exact h.tier.bounded
  · rw [withRetired, if_neg hheld]
    have hother : forall u, u ∈ session.hotContext.snapshot -> u.id ≠ entryId := by
      rintro u hu rfl
      exact hheld (HotContext.held_of_snapshot hu).containsId
    refine (List.map_congr_left ?_).trans (List.map_id _) |>.symm
    intro u hu
    rw [if_neg (hother u hu)]
    rfl

theorem First.retire_again (h : First session entryId pos update)
    (time later : Timestamp) :
    retireUpdate (withRetired session entryId pos (retireAt time update)) entryId
      later = none := by
  have hids := ids_set h.2 (show (retireAt time update).id = update.id from rfl)
  have hindex : forall updates : List ContextUpdate,
      updates.findIdx? (fun u => u.id == entryId) =
        (updates.map ContextUpdate.id).findIdx? (· == entryId) := by
    intro updates
    rw [List.findIdx?_map]
    rfl
  obtain ⟨hlt, -⟩ := List.getElem?_eq_some_iff.mp h.2
  have hfirst : First (withRetired session entryId pos (retireAt time update))
      entryId pos (retireAt time update) := by
    refine ⟨?_, List.getElem?_set_self hlt⟩
    rw [hindex]
    show ((session.incrementalUpdates.set pos _).map ContextUpdate.id).findIdx? _ = _
    rw [hids, ← hindex]
    exact h.1
  rcases retireUpdate_cases (withRetired session entryId pos (retireAt time update))
      entryId later with ⟨-, hnone⟩ | ⟨pos', update', h', ⟨-, hnone⟩ | ⟨hopen, -⟩⟩
  · exact hnone
  · exact hnone
  · obtain rfl : pos' = pos := Option.some.inj (h'.1.symm.trans hfirst.1)
    obtain rfl : update' = retireAt time update :=
      Option.some.inj (h'.2.symm.trans hfirst.2)
    cases hopen

/-- The list, its first update with the id retired; the tiers as `entry` gives
their entries with the id; nothing else. -/
structure Effect (session after : ActiveSession) (entryId : Uuid)
    (time : Timestamp) (entry : ContextUpdate -> ContextUpdate) : Prop where
  incrementalUpdates : exists pos update, First session entryId pos update ∧
    after.incrementalUpdates =
      session.incrementalUpdates.set pos (retireAt time update)
  hotContext : after.hotContext.snapshot =
    session.hotContext.snapshot.map
      (fun u => if u.id = entryId then entry u else u)
  warmContext : after.warmContext =
    session.warmContext.map (fun c =>
      if c.update.id = entryId then { c with update := entry c.update } else c)
  rest : after =
    { session with
      incrementalUpdates := after.incrementalUpdates
      hotContext := after.hotContext
      warmContext := after.warmContext }

/-- The tiers hold the update only as it is in the list, but for its time of
retirement. -/
def Copies (session : ActiveSession) (entryId : Uuid) (time : Timestamp)
    (changed : ContextUpdate) : Prop :=
  (forall u, u ∈ session.hotContext.snapshot -> u.id = entryId ->
    retireAt time u = changed) ∧
  forall c, c ∈ session.warmContext -> c.update.id = entryId ->
    retireAt time c.update = changed

variable {time : Timestamp}

theorem Roomy.effect (h : Roomy session) (hfirst : First session entryId pos update) :
    Effect session (withRetired session entryId pos (retireAt time update)) entryId
      time (fun _ => retireAt time update) where
  incrementalUpdates := ⟨pos, update, hfirst, rfl⟩
  hotContext := h.snapshot_retired entryId pos _
  warmContext := rfl
  rest := rfl

/-- With the changed update in the place of an entry its own time of retirement
is set exactly when it is a copy. -/
theorem Effect.sets_iff {changed : ContextUpdate}
    (h : Effect session after entryId time (fun _ => changed)) :
    Effect session after entryId time (retireAt time) ↔
      Copies session entryId time changed := by
  constructor
  · intro hsets
    have hhot := List.map_inj_left.mp (hsets.hotContext.symm.trans h.hotContext)
    have hwarm := List.map_inj_left.mp (hsets.warmContext.symm.trans h.warmContext)
    refine ⟨?_, ?_⟩
    · intro u hu hid
      have hentry := hhot u hu
      rwa [if_pos hid, if_pos hid] at hentry
    · intro c hc hid
      have hentry := hwarm c hc
      rw [if_pos hid, if_pos hid] at hentry
      exact congrArg CompressedUpdate.update hentry
  · rintro ⟨hhot, hwarm⟩
    refine ⟨h.incrementalUpdates, ?_, ?_, h.rest⟩
    · rw [h.hotContext]
      apply List.map_congr_left
      intro u hu
      split
      · next hid => exact (hhot u hu hid).symm
      · rfl
    · rw [h.warmContext]
      apply List.map_congr_left
      intro c hc
      split
      · next hid => rw [hwarm c hc hid]
      · rfl

/-- A retirement changes nothing when the id is unknown or the update retired.
Otherwise it retires the first update of the list with the id and puts it in
place of the entries of the tiers with the id, which sets exactly their time of
retirement when they are copies of it; and there is no second one. -/
theorem retire_update_effect [CharTables] {session : ActiveSession}
    (h : Built session) (entryId : Uuid) (time : Timestamp) :
    (retireUpdate session entryId time = none ↔
      forall pos update, First session entryId pos update ->
        update.metadata.retiredAt.isSome = true) ∧
    forall after changed,
      retireUpdate session entryId time = some (after, changed) ->
        Effect session after entryId time (fun _ => changed) ∧
        (Effect session after entryId time (retireAt time) ↔
          Copies session entryId time changed) ∧
        forall later, retireUpdate after entryId later = none := by
  have hunique : forall {pos pos' : Nat} {update update' : ContextUpdate},
      First session entryId pos update -> First session entryId pos' update' ->
        update' = update := by
    intro pos pos' update update' hfirst hfirst'
    obtain rfl : pos' = pos := Option.some.inj (hfirst'.1.symm.trans hfirst.1)
    exact Option.some.inj (hfirst'.2.symm.trans hfirst.2)
  rcases retireUpdate_cases session entryId time with
    ⟨habsent, hnone⟩ | ⟨pos, update, hfirst, ⟨hretired, hnone⟩ | ⟨hopen, hsome⟩⟩
  · refine ⟨⟨fun _ pos update hfirst => ?_, fun _ => hnone⟩, ?_⟩
    · have hmem := List.mem_of_getElem? hfirst.2
      exact absurd (hfirst.id_eq ▸ List.mem_map_of_mem hmem) habsent
    · intro after changed hsome
      rw [hnone] at hsome
      cases hsome
  · refine ⟨⟨fun _ pos' update' hfirst' => ?_, fun _ => hnone⟩, ?_⟩
    · rw [hunique hfirst hfirst']
      exact hretired
    · intro after changed hsome
      rw [hnone] at hsome
      cases hsome
  · refine ⟨⟨fun hnone => ?_, fun hall => ?_⟩, ?_⟩
    · rw [hsome] at hnone
      cases hnone
    · have hretired := hall pos update hfirst
      rw [hopen] at hretired
      cases hretired
    · intro after changed hchanged
      rw [hsome] at hchanged
      cases hchanged
      have heffect : Effect session
          (withRetired session entryId pos (retireAt time update)) entryId time
          (fun _ => retireAt time update) :=
        h.roomy.effect hfirst
      exact ⟨heffect, heffect.sets_iff, hfirst.retire_again time⟩

section

attribute [local instance] EntityGraph.asciiTables

def noted (first second : Uuid) : ActiveSession :=
  ((ActiveSession.new 0 none none 0).addIncrementalUpdateFast ⟨1, 1, 2, 3⟩
    (ContextUpdate.plain first 1 "first")).addIncrementalUpdateFast ⟨2, 1, 5, 6⟩
      (ContextUpdate.plain second 2 "second")

theorem built_noted (first second : Uuid) : Built (noted first second) :=
  ((Built.new 0 none none 0).event (SessionEvent.addIncrementalUpdateFast
    ⟨1, 1, 2, 3⟩ (ContextUpdate.plain first 1 "first"))).event
      (SessionEvent.addIncrementalUpdateFast ⟨2, 1, 5, 6⟩
        (ContextUpdate.plain second 2 "second"))

theorem retire_update_effect_noted :
    exists after changed, retireUpdate (noted 1 2) 1 9 = some (after, changed) ∧
      Effect (noted 1 2) after 1 9 (retireAt 9) ∧
      forall later, retireUpdate after 1 later = none := by
  have hcopies : Copies (noted 1 2) 1 9
      (retireAt 9 (ContextUpdate.plain 1 1 "first")) := by
    refine ⟨?_, fun c hc => absurd hc List.not_mem_nil⟩
    decide +kernel
  obtain ⟨-, heffect⟩ := retire_update_effect (built_noted 1 2) 1 9
  obtain ⟨hreplaced, hiff, hsecond⟩ := heffect _ _ rfl
  exact ⟨_, _, rfl, hiff.mpr hcopies, hsecond⟩

/-- Two updates have one id: retiring it makes the second hot entry a copy of
the first. -/
theorem retired_duplicate_overwritten :
    ¬ forall session : ActiveSession, Built session ->
      forall (entryId : Uuid) (time : Timestamp) (after : ActiveSession)
        (changed : ContextUpdate),
        retireUpdate session entryId time = some (after, changed) ->
          Effect session after entryId time (retireAt time) := by
  intro hall
  have hafter : exists after changed,
      retireUpdate (noted 1 1) 1 9 = some (after, changed) ∧
        after.hotContext.snapshot ≠ (noted 1 1).hotContext.snapshot.map
          (fun u => if u.id = 1 then retireAt 9 u else u) :=
    ⟨_, _, rfl, by decide +kernel⟩
  obtain ⟨after, changed, hretire, hdiffers⟩ := hafter
  exact hdiffers (hall _ (built_noted 1 1) 1 9 after changed hretire).hotContext

end

end Session
end PostCortex
