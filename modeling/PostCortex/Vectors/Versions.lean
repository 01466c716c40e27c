import PostCortex.Session.Documents
import PostCortex.Vectors.Ingestion

/-!
# The versions of a session

What an event of a session leaves to be vectorized: an update that the version
shows afterwards was shown before under the same id and with the same text, or is
the one that the event adds.
-/

namespace PostCortex
namespace Vectors

open PostCortex.Core
open PostCortex.Graph
open PostCortex.Session

def Shown (session : ActiveSession) (u : ContextUpdate) : Prop :=
  session.hotContext.Held u ∨ u ∈ session.incrementalUpdates

structure SameText (u v : ContextUpdate) : Prop where
  id : u.id = v.id
  content : u.content = v.content
  relatedCode : u.relatedCode = v.relatedCode

theorem SameText.refl (u : ContextUpdate) : SameText u u :=
  ⟨rfl, rfl, rfl⟩

variable {u v : ContextUpdate}

theorem SameText.symm (h : SameText u v) : SameText v u :=
  ⟨h.id.symm, h.content.symm, h.relatedCode.symm⟩

theorem SameText.trans {w : ContextUpdate} (h : SameText u v) (h' : SameText v w) :
    SameText u w :=
  ⟨h.id.trans h'.id, h.content.trans h'.content, h.relatedCode.trans h'.relatedCode⟩

theorem SameText.contentsOf [CharTables] (h : SameText u v)
    (config : VectorizerConfig) :
    contentsOf config u = contentsOf config v := by
  unfold Vectors.contentsOf extractTextFromUpdate updateVectors
  rw [h.id, h.content, h.relatedCode]

variable {session : ActiveSession} {update : ContextUpdate}

theorem lookupUpdate_shown {id : Uuid} (h : lookupUpdate session id = some update) :
    Shown session update ∧ update.id = id := by
  refine ⟨?_, (lookupUpdate_shows h).1⟩
  unfold lookupUpdate at h
  split at h
  · next found hfind =>
    cases h
    exact Or.inl (HotContext.held_of_snapshot (List.mem_of_find?_eq_some hfind))
  · exact Or.inr (List.mem_reverse.mp (List.mem_of_find?_eq_some h))

theorem shows_of_shown (h : Shown session u) :
    shows session u.id = true := by
  rw [shows, Bool.or_eq_true]
  rcases h with hheld | hmem
  · exact Or.inl hheld.containsId
  · exact Or.inr (List.any_eq_true.mpr ⟨u, hmem, beq_self_eq_true u.id⟩)

/-!
# From one version to the next
-/

structure Follows (before after : ActiveSession) (added : Option ContextUpdate) :
    Prop where
  shown : forall u, Shown after u ->
    (exists v, Shown before v ∧ SameText u v) ∨ added = some u
  hot : HotDistinct before ->
    (forall u, added = some u -> shows before u.id = false) ->
    HotDistinct after
  ids : (before.incrementalUpdates.map ContextUpdate.id).Nodup ->
    (forall u, added = some u -> shows before u.id = false) ->
    (after.incrementalUpdates.map ContextUpdate.id).Nodup

variable {before after : ActiveSession}

theorem Follows.same (hhot : after.hotContext = before.hotContext)
    (hupdates : after.incrementalUpdates = before.incrementalUpdates) :
    Follows before after none where
  shown := by
    intro u hu
    rw [Shown, hhot, hupdates] at hu
    exact Or.inl ⟨u, hu, SameText.refl u⟩
  hot := by
    intro h _ i j u v hi hj
    rw [hhot] at hi hj
    exact h i j u v hi hj
  ids := by
    intro h _
    rw [hupdates]
    exact h

theorem Follows.fewer (hhot : forall (i : Nat) (u : ContextUpdate),
      after.hotContext.updates[i]? = some u ->
      before.hotContext.updates[i]? = some u)
    (hupdates : after.incrementalUpdates.Sublist before.incrementalUpdates) :
    Follows before after none where
  shown := by
    intro u hu
    refine Or.inl ⟨u, ?_, SameText.refl u⟩
    rcases hu with ⟨i, hi⟩ | hmem
    · exact Or.inl ⟨i, hhot i u hi⟩
    · exact Or.inr (hupdates.subset hmem)
  hot := by
    intro h _ i j u v hi hj
    exact h i j u v (hhot i u hi) (hhot j v hj)
  ids := by
    intro h _
    exact h.sublist (hupdates.map ContextUpdate.id)

theorem addIncrementalUpdateFast_tiers (session : ActiveSession) (draws : Draws)
    (update : ContextUpdate) :
    (session.addIncrementalUpdateFast draws update).hotContext =
        session.hotContext.push (ActiveSession.limited update) ∧
      (session.addIncrementalUpdateFast draws update).incrementalUpdates =
        session.incrementalUpdates ++ [ActiveSession.limited update] := by
  rw [ActiveSession.addIncrementalUpdateFast_eq]
  exact ⟨rfl, rfl⟩

theorem distinct_push {hot : HotContext}
    (hdistinct : forall (i j : Nat) (u v : ContextUpdate),
      hot.updates[i]? = some u -> hot.updates[j]? = some v -> u.id = v.id -> i = j)
    (hfresh : hot.containsId update.id = false) (i j : Nat) (u v : ContextUpdate)
    (hi : (hot.push update).updates[i]? = some u)
    (hj : (hot.push update).updates[j]? = some v) (hid : u.id = v.id) :
    i = j := by
  have hother : forall (k : Nat) (w : ContextUpdate),
      hot.updates[k]? = some w -> w.id ≠ update.id := by
    intro k w hk heq
    have hheld : hot.Held w := ⟨k, hk⟩
    have hcontains := hheld.containsId
    rw [heq, hfresh] at hcontains
    cases hcontains
  rcases HotContext.get_push hi with ⟨rfl, rfl⟩ | hfirst
  · rcases HotContext.get_push hj with ⟨rfl, -⟩ | hsecond
    · rfl
    · exact absurd hid.symm (hother j v hsecond)
  · rcases HotContext.get_push hj with ⟨rfl, rfl⟩ | hsecond
    · exact absurd hid (hother i u hfirst)
    · exact hdistinct i j u v hfirst hsecond hid

theorem follows_add (session : ActiveSession) (draws : Draws)
    (update : ContextUpdate) :
    Follows session (session.addIncrementalUpdateFast draws update)
      (some (ActiveSession.limited update)) := by
  obtain ⟨hhot, hupdates⟩ := addIncrementalUpdateFast_tiers session draws update
  refine ⟨?_, ?_, ?_⟩
  · intro u hu
    rw [Shown, hhot, hupdates] at hu
    rcases hu with hheld | hmem
    · rcases HotContext.held_push hheld with rfl | hold
      · exact Or.inr rfl
      · exact Or.inl ⟨u, Or.inl hold, SameText.refl u⟩
    · rcases List.mem_append.mp hmem with hold | hlast
      · exact Or.inl ⟨u, Or.inr hold, SameText.refl u⟩
      · rw [List.mem_singleton.mp hlast]
        exact Or.inr rfl
  · intro hdistinct hfresh i j u v hi hj hid
    have hnew := hfresh _ rfl
    rw [shows, Bool.or_eq_false_iff] at hnew
    rw [hhot] at hi hj
    exact distinct_push hdistinct hnew.1 i j u v hi hj hid
  · intro hids hfresh
    have hnew := hfresh _ rfl
    rw [shows, Bool.or_eq_false_iff] at hnew
    rw [hupdates, List.map_append, List.nodup_append]
    refine ⟨hids, List.nodup_singleton _, ?_⟩
    intro x hx y hy heq
    obtain ⟨w, hw, rfl⟩ := List.mem_map.mp hx
    rw [List.map_singleton, List.mem_singleton] at hy
    have hne := List.any_eq_false.mp hnew.2 w hw
    rw [heq, hy] at hne
    exact hne (beq_self_eq_true _)

theorem distinct_fromUpdates {updates : List ContextUpdate}
    (h : (updates.map ContextUpdate.id).Nodup) (maxSize : Nat) (i j : Nat)
    (u v : ContextUpdate)
    (hi : (HotContext.fromUpdates updates maxSize).updates[i]? = some u)
    (hj : (HotContext.fromUpdates updates maxSize).updates[j]? = some v)
    (hid : u.id = v.id) :
    i = j := by
  induction updates using List.reverseRecOn generalizing i j u v with
  | nil =>
      simp [HotContext.fromUpdates, HotContext.new] at hi
  | append_singleton rest last ih =>
      rw [List.map_append, List.nodup_append] at h
      obtain ⟨hrest, -, hdisjoint⟩ := h
      have hfresh : (HotContext.fromUpdates rest maxSize).containsId last.id =
          false := by
        rw [Bool.eq_false_iff]
        intro hcontains
        obtain ⟨k, w, hk, hw⟩ := HotContext.containsId_iff.mp hcontains
        have hmem := HotContext.held_fromUpdates ⟨k, hk⟩
        exact hdisjoint w.id (List.mem_map_of_mem hmem) last.id
          (List.mem_singleton.mpr rfl) hw
      rw [HotContext.fromUpdates, List.foldl_append] at hi hj
      exact distinct_push (ih hrest) hfresh i j u v hi hj hid

theorem nodup_snapshot (h : HotDistinct session) :
    (session.hotContext.snapshot.map ContextUpdate.id).Nodup := by
  have hrange : session.hotContext.idRange.Nodup := List.nodup_range'
  unfold HotContext.snapshot
  generalize session.hotContext.idRange = slots at hrange
  induction slots with
  | nil =>
      exact List.nodup_nil
  | cons i rest ih =>
      obtain ⟨hnot, hrest⟩ := List.nodup_cons.mp hrange
      rw [List.filterMap_cons]
      split
      · exact ih hrest
      · next u hi =>
        rw [List.map_cons, List.nodup_cons]
        refine ⟨?_, ih hrest⟩
        intro hmem
        obtain ⟨v, hv, hid⟩ := List.mem_map.mp hmem
        obtain ⟨j, hj, hjv⟩ := List.mem_filterMap.mp hv
        have heq := h j i v u hjv hi hid
        exact hnot (heq ▸ hj)

theorem follows_retire (session : ActiveSession) (entryId : Uuid)
    (time : Timestamp) :
    Follows session
      (((retireUpdate session entryId time).map Prod.fst).getD session) none := by
  rcases retireUpdate_cases session entryId time with
    ⟨-, hnone⟩ | ⟨pos, update, hfirst, ⟨-, hnone⟩ | ⟨-, hsome⟩⟩
  · rw [hnone]
    exact Follows.same rfl rfl
  · rw [hnone]
    exact Follows.same rfl rfl
  · rw [hsome, Option.map_some, Option.getD_some]
    have hlisted : Shown session update := Or.inr (List.mem_of_getElem? hfirst.2)
    have halike : SameText (retireAt time update) update := ⟨rfl, rfl, rfl⟩
    refine ⟨?_, ?_, ?_⟩
    · intro u hu
      rcases hu with hheld | hmem
      · rcases held_withRetired hheld with rfl | ⟨hold, -⟩
        · exact Or.inl ⟨update, hlisted, halike⟩
        · exact Or.inl ⟨u, Or.inl hold, SameText.refl u⟩
      · rcases List.mem_or_eq_of_mem_set hmem with hold | rfl
        · exact Or.inl ⟨u, Or.inr hold, SameText.refl u⟩
        · exact Or.inl ⟨update, hlisted, halike⟩
    · intro hdistinct _ i j u v hi hj huv
      rw [withRetired] at hi hj
      dsimp only at hi hj
      split at hi
      · next hcontains =>
        rw [if_pos hcontains] at hj
        refine distinct_fromUpdates ?_ _ i j u v hi hj huv
        have hids : (session.hotContext.snapshot.map (fun u =>
            if u.id = entryId then retireAt time update else u)).map
              ContextUpdate.id =
                session.hotContext.snapshot.map ContextUpdate.id := by
          rw [List.map_map]
          refine List.map_congr_left (fun w _ => ?_)
          show ContextUpdate.id (if w.id = entryId then _ else w) = w.id
          split
          · next hw => rw [hw, halike.id, hfirst.id_eq]
          · rfl
        rw [hids]
        exact nodup_snapshot hdistinct
      · next hnot =>
        rw [if_neg hnot] at hj
        exact hdistinct i j u v hi hj huv
    · intro hids _
      show ((session.incrementalUpdates.set pos _).map ContextUpdate.id).Nodup
      rw [ids_set hfirst.2 halike.id]
      exact hids

theorem follows_remove (session : ActiveSession) (entryId : Uuid) :
    Follows session ((session.removeUpdateById entryId).getD session) none := by
  cases hafter : session.removeUpdateById entryId with
  | none =>
      exact Follows.same rfl rfl
  | some after =>
      obtain ⟨hhot, hupdates, -⟩ := removeUpdateById_tiers hafter
      rw [Option.getD_some]
      refine Follows.fewer ?_ ?_
      · intro i u hi
        rw [hhot] at hi
        exact hotWithout_get hi
      · rw [hupdates]
        exact List.filter_sublist

def addedUpdate : SessionEvent -> Option ContextUpdate
  | SessionEvent.addIncrementalUpdateFast _ update =>
      some (ActiveSession.limited update)
  | _ => none

theorem follows_apply [CharTables] (session : ActiveSession)
    (event : SessionEvent) :
    Follows session (event.apply session) (addedUpdate event) := by
  cases event with
  | addIncrementalUpdateFast draws update => exact follows_add session draws update
  | applyEntityGraphUpdate now update | rebuildEntityGraphSync now
  | mergeEntities now written target =>
      exact Follows.same rfl rfl
  | removeUpdateById entryId => exact follows_remove session entryId
  | removeUpdatesForFile filePath =>
      exact Follows.fewer (fun _ _ hi => hi) List.filter_sublist
  | retireUpdate entryId time => exact follows_retire session entryId time

/-!
# Versions with one text for an id
-/

/-- The updates of a version, with the ids that the session has ever had. -/
structure Versioned (session : ActiveSession) (known : List Uuid) : Prop where
  ids : (session.incrementalUpdates.map ContextUpdate.id).Nodup
  hot : HotDistinct session
  alike : forall u v, Shown session u -> Shown session v -> u.id = v.id ->
    SameText u v
  known : forall u, Shown session u -> u.id ∈ known

theorem versioned_new (id : Uuid) (name description : Option String)
    (now : Timestamp) :
    Versioned (ActiveSession.new id name description now) [] := by
  have hnone : forall u,
      ¬ Shown (ActiveSession.new id name description now) u := by
    intro u hu
    rcases hu with ⟨i, hi⟩ | hmem
    · simp [ActiveSession.new, HotContext.new] at hi
    · cases hmem
  refine ⟨List.nodup_nil, ?_, ?_, ?_⟩
  · intro i j u v hi
    exact absurd (Or.inl ⟨i, hi⟩) (hnone u)
  · intro u v hu
    exact absurd hu (hnone u)
  · intro u hu
    exact absurd hu (hnone u)

variable {known : List Uuid}

theorem Versioned.follows (h : Versioned before known)
    {added : Option ContextUpdate} (hfollows : Follows before after added)
    (hfresh : forall u, added = some u -> u.id ∉ known) :
    Versioned after (known ++ (added.map ContextUpdate.id).toList) := by
  have hhidden : forall u, added = some u -> shows before u.id = false := by
    intro u hu
    rw [Bool.eq_false_iff]
    intro hshows
    rw [shows, Bool.or_eq_true] at hshows
    rcases hshows with hcontains | hlisted
    · obtain ⟨i, v, hi, hid⟩ := HotContext.containsId_iff.mp hcontains
      exact hfresh u hu (hid ▸ h.known v (Or.inl ⟨i, hi⟩))
    · obtain ⟨v, hv, hid⟩ := List.any_eq_true.mp hlisted
      rw [beq_iff_eq] at hid
      exact hfresh u hu (hid ▸ h.known v (Or.inr hv))
  refine ⟨hfollows.ids h.ids hhidden, hfollows.hot h.hot hhidden, ?_, ?_⟩
  · intro u v hu hv hid
    rcases hfollows.shown u hu with ⟨u', hu', hsame⟩ | hadded
    · rcases hfollows.shown v hv with ⟨v', hv', hsame'⟩ | hadded'
      · have hold := h.alike u' v' hu' hv'
          (hsame.id.symm.trans (hid.trans hsame'.id))
        exact hsame.trans (hold.trans hsame'.symm)
      · have hknown := h.known u' hu'
        rw [← hsame.id, hid] at hknown
        exact absurd hknown (hfresh v hadded')
    · rcases hfollows.shown v hv with ⟨v', hv', hsame'⟩ | hadded'
      · have hknown := h.known v' hv'
        rw [← hsame'.id, ← hid] at hknown
        exact absurd hknown (hfresh u hadded)
      · rw [hadded] at hadded'
        rw [Option.some.inj hadded']
        exact SameText.refl v
  · intro u hu
    rcases hfollows.shown u hu with ⟨v, hv, hsame⟩ | hadded
    · rw [hsame.id]
      exact List.mem_append_left _ (h.known v hv)
    · rw [hadded]
      exact List.mem_append_right _ (List.mem_singleton.mpr rfl)

theorem Versioned.removed (h : Versioned session known) {id : Uuid}
    (hafter : session.removeUpdateById id = some after) :
    Versioned after known ∧ forall u, Shown after u ->
      u.id ≠ id ∧ Shown session u := by
  have hfollows := follows_remove session id
  rw [hafter, Option.getD_some] at hfollows
  have hversioned := h.follows hfollows
    (fun u hu => absurd hu.symm (Option.some_ne_none u))
  rw [Option.map_none, Option.toList_none, List.append_nil] at hversioned
  obtain ⟨hhot, hupdates, -⟩ := removeUpdateById_tiers hafter
  refine ⟨hversioned, ?_⟩
  intro u hu
  constructor
  · intro hid
    have hshows := shows_of_shown hu
    rw [hid, (shows_removeUpdateById h.hot hafter).1] at hshows
    cases hshows
  · rcases hu with ⟨i, hi⟩ | hmem
    · rw [hhot] at hi
      exact Or.inl ⟨i, hotWithout_get hi⟩
    · rw [hupdates] at hmem
      exact Or.inr (List.mem_filter.mp hmem).1

end Vectors
end PostCortex
