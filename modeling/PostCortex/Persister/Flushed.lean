import PostCortex.Persister.Coalescing

/-!
# What is written when nothing is queued

When no slot is registered and no delete still holds a leftover, nothing is in
flight, so every request of the current handle has been part of a write.
-/

namespace PostCortex
namespace Persister

open PostCortex.Core
open Transition

/-- The delete has unregistered its slot and may still queue the leftover. -/
def DeleteStage.Midway (x : DeleteStage) : Prop :=
  x = cleared ∨ x = holding ∨ x = requeueing

instance (x : DeleteStage) : Decidable x.Midway :=
  inferInstanceAs (Decidable (_ ∨ _ ∨ _))

def NoneMidway (s : Lane) : Prop :=
  forall d, d < s.deleteCount -> ¬ (s.deletion d).stage.Midway

instance (s : Lane) : Decidable (NoneMidway s) :=
  inferInstanceAs (Decidable (forall d, d < _ -> _))

variable {s : Lane}

theorem NoneMidway.stage (hnumbered : Numbered s) (h : NoneMidway s) (d : Nat) :
    ¬ (s.deletion d).stage.Midway := by
  rcases Nat.lt_or_ge d s.deleteCount with hlt | hge
  · exact h d hlt
  · rw [hnumbered.deletion d hge]
    decide

section

variable {s : Lane} {c : Nat} {Q : Pending -> Prop}

theorem not_waiting (hbasic : Basic s) (hord : Ordered s)
    (hnone : s.registered = none) (hmidway : NoneMidway s)
    (hQ : forall p : Pending, p.Sound s.call -> Q p -> c ∈ p.requests) :
    ¬ Waiting s Q := by
  have hdelete := hmidway.stage hbasic.numbered
  have hempty : forall p : Pending, p.Sound s.call -> Q p -> ¬ p.IsEmpty := by
    intro p hsound hp hempty
    have hc := hQ p hsound hp
    rw [hsound.requests_eq_nil hempty] at hc
    cases hc
  rintro (⟨k, hk⟩ | ⟨k, hstage, hk⟩ | ⟨d, hd⟩)
  · have hkept := hempty _ (hbasic.queues.pending k) hk
    rcases hbasic.registration.stranded k hkept with hreg | ⟨d, hstage, -⟩
    · rw [hnone] at hreg
      cases hreg
    · exact hdelete d (Or.inl hstage)
  · have howns : (s.drainer k).stage.Owns := Or.inl hstage
    have hkept := hempty _ (hbasic.queues.batch k) hk
    cases hregistered : (s.drainer k).registered with
    | true =>
        have hreg := hbasic.registration.active k howns hregistered
        rw [hnone] at hreg
        cases hreg
    | false => exact hkept (hbasic.registration.retired k howns hregistered)
  · have hkept := hempty _ (hbasic.queues.leftover d) hd
    have hleftover := hord.held.sources.emptied d
      (fun hstage => hdelete d (Or.inr (Or.inl hstage)))
      (fun hstage => hdelete d (Or.inr (Or.inr hstage)))
    rw [hleftover] at hkept
    exact hkept ⟨rfl, rfl, rfl, rfl⟩

theorem not_running (hreg : Registration s) (hnone : s.registered = none) :
    ¬ Running s Q := by
  rintro ⟨k, hk, -⟩
  have hsome := hreg.writing hk
  rw [hnone] at hsome
  cases hsome

end

/-- A row or removal of the current handle was carried by some write, or the
row was cancelled by a removal. -/
theorem carried_of_drained (h : lane.Reachable Coalesces s)
    (hnone : s.registered = none) (hmidway : NoneMidway s) {c : Nat} {x : Handle}
    (hc : Counts s c x) :
    (forall r, r ∈ (s.call c).removed ->
      exists ok, CarriedRemoval s ok (Removal.mk c r)) ∧
    (forall u, u ∈ (s.call c).updates ->
      (exists ok, CarriedRow s ok (Row.mk c u)) ∨ Cancelled s c u.id) := by
  have hbasic := basic h
  have hcoal := coalesced h
  constructor
  · intro r hr
    rcases hcoal.delivers.removals c x hc with hwaiting | hrunning | ⟨ok, hcarried⟩
    · exact absurd hwaiting (not_waiting (c := c) hbasic hcoal.ordered hnone
        hmidway (fun _ _ hmem => hmem))
    · exact absurd hrunning (not_running hbasic.registration hnone)
    · exact ⟨ok, hcarried r hr⟩
  · intro u hu
    rcases hcoal.delivers.rows c x hc u hu with hwaiting | hrunning | hcarried
    · exact absurd hwaiting (not_waiting (c := c) hbasic hcoal.ordered hnone
        hmidway (fun _ hsound hmem => (hsound.row _ hmem).1))
    · exact absurd hrunning (not_running hbasic.registration hnone)
    · exact hcarried

/-!
# Nothing unflushed
-/

theorem hasUnflushed_eq_false (h : s.hasUnflushed = false) :
    s.registered = none := by
  rw [Lane.hasUnflushed, Bool.or_eq_false_iff] at h
  simpa using h.1

/-- In every run that coalesces, when the persister reports nothing unflushed
and no delete holds a leftover, every removal and every row that no failed
write carried, and that no removal cancelled, was part of a successful write. -/
theorem unflushed_written {p : Uuid -> Lane}
    (h : persister.Reachable (System.EachAllowed Coalesces) p) (id : Uuid)
    (hflushed : (p id).hasUnflushed = false) (hmidway : NoneMidway (p id))
    {c : Nat} {x : Handle} (hc : Counts (p id) c x) :
    (forall r, r ∈ ((p id).call c).removed ->
      ¬ CarriedRemoval (p id) false (Removal.mk c r) ->
      CarriedRemoval (p id) true (Removal.mk c r)) ∧
    (forall u, u ∈ ((p id).call c).updates ->
      ¬ CarriedRow (p id) false (Row.mk c u) ->
      ¬ Cancelled (p id) c u.id ->
      CarriedRow (p id) true (Row.mk c u)) := by
  rcases carried_of_drained (h.component id) (hasUnflushed_eq_false hflushed)
    hmidway hc with ⟨hremovals, hrows⟩
  constructor
  · intro r hr hfailed
    rcases hremovals r hr with ⟨ok, hcarried⟩
    cases ok with
    | true => exact hcarried
    | false => exact absurd hcarried hfailed
  · intro u hu hfailed hkept
    rcases hrows u hu with ⟨ok, hcarried⟩ | hcancelled
    · cases ok with
      | true => exact hcarried
      | false => exact absurd hcarried hfailed
    · exact absurd hcancelled hkept

def drainedRun : List Action :=
  [Action.create, Action.register 0,
    Action.enqueue 0 [ContextUpdate.plain 1 0 "kept"] [] false, Action.queue 0,
    Action.drain 0 DrainAction.request,
    Action.enqueue 0 [ContextUpdate.plain 2 0 "gone"] [3] false, Action.queue 1,
    Action.enqueue 0 [] [2] true, Action.queue 2,
    Action.drain 0 DrainAction.take, Action.drain 0 DrainAction.resolve,
    Action.drain 0 DrainAction.begin, Action.drain 0 (DrainAction.finish true),
    Action.drain 0 DrainAction.release, Action.drain 0 DrainAction.unregister]

theorem unflushed_written_drained :
    exists p,
      persister.replay (System.EachAllowed Coalesces) persister.init
          (drainedRun.map (Prod.mk 7)) = some p ∧
        CarriedRemoval (p 7) true (Removal.mk 1 3) ∧
        CarriedRow (p 7) true (Row.mk 0 (ContextUpdate.plain 1 0 "kept")) := by
  obtain ⟨p, hp, hreach, ⟨hflushed, hmidway⟩, ⟨hc, hr, hremoval⟩, hd, hu, hrow,
    hkept⟩ := persister.replay_reaches (System.EachAllowed Coalesces)
      (drainedRun.map (Prod.mk 7)) (fun p =>
        ((p 7).hasUnflushed = false ∧ NoneMidway (p 7)) ∧
        (CountsNow (p 7) 1 0 ∧ 3 ∈ ((p 7).call 1).removed ∧
          ¬ CarriedRemoval (p 7) false (Removal.mk 1 3)) ∧
        CountsNow (p 7) 0 0 ∧
        ContextUpdate.plain 1 0 "kept" ∈ ((p 7).call 0).updates ∧
        ¬ CarriedRow (p 7) false (Row.mk 0 (ContextUpdate.plain 1 0 "kept")) ∧
        ¬ CancelledNow (p 7) 0 1) (by decide +kernel)
  have hnumbered := numbered (hreach.component 7)
  refine ⟨p, hp, ?_, ?_⟩
  · exact (unflushed_written hreach 7 hflushed hmidway
      (hc.counts hnumbered)).1 3 hr hremoval
  · exact (unflushed_written hreach 7 hflushed hmidway
      (hd.counts hnumbered)).2 _ hu hrow (fun h => hkept (h.now hnumbered))

def lostRemovalRun : List Action :=
  [Action.create, Action.register 0,
    Action.enqueue 0 [] [5] true, Action.queue 0,
    Action.drain 0 DrainAction.request, Action.drain 0 DrainAction.take,
    Action.drain 0 DrainAction.resolve, Action.drain 0 DrainAction.begin,
    Action.drain 0 (DrainAction.finish false),
    Action.drain 0 DrainAction.release, Action.drain 0 DrainAction.unregister,
    Action.flushCollect, Action.enqueue 0 [] [] true, Action.queue 1,
    Action.drain 1 DrainAction.request, Action.drain 1 DrainAction.take,
    Action.drain 1 DrainAction.resolve, Action.drain 1 DrainAction.begin,
    Action.drain 1 (DrainAction.finish true),
    Action.drain 1 DrainAction.release, Action.drain 1 DrainAction.unregister]

theorem flush_loses_removal :
    ¬ forall p, persister.Reachable System.Anything p ->
      forall id, (p id).hasUnflushed = false ->
      forall c x, Counts (p id) c x ->
        (forall r, r ∈ ((p id).call c).removed ->
          CarriedRemoval (p id) true (Removal.mk c r)) ∧
        (forall u, u ∈ ((p id).call c).updates ->
          CarriedRow (p id) true (Row.mk c u)) := by
  intro h
  obtain ⟨p, -, hreach, hflushed, hc, hremoved, hnot⟩ :=
    persister.replay_reaches System.Anything (lostRemovalRun.map (Prod.mk 7)) (fun p =>
      (p 7).hasUnflushed = false ∧ CountsNow (p 7) 0 0 ∧ 5 ∈ ((p 7).call 0).removed ∧
        ¬ CarriedRemoval (p 7) true (Removal.mk 0 5)) (by decide +kernel)
  have hrun : persister.Reachable (System.EachAllowed System.Anything) p :=
    hreach.mono (fun _ _ _ => True.intro)
  have hcounts := hc.counts (numbered (hrun.component 7))
  exact hnot ((h p hreach 7 hflushed 0 0 hcounts).1 5 hremoved)

/-!
# Coalescing
-/

/-- The snapshot written last is at least as new as the session was when the
request was queued. -/
def SnapshotCovers (s : Lane) (c : Nat) (x : Handle) : Prop :=
  exists v, lastWritten s.trace = some (x, v) ∧ (s.call c).version ≤ v

theorem snapshot_of_drained (h : lane.Reachable CoalescesAndSucceeds s)
    (hnone : s.registered = none) (hmidway : NoneMidway s) {c : Nat} {x : Handle}
    (hc : Counts s c x) :
    SnapshotCovers s c x := by
  have hbasic := basic h
  have hord := (coalesced (h.mono (fun _ _ ha => ha.1))).ordered
  rcases (snapshots h).written c x hc with hwaiting | hrunning | hwritten
  · exact absurd hwaiting (not_waiting (c := c) hbasic hord hnone hmidway
      (fun _ _ hmem => hmem))
  · exact absurd hrunning (not_running hbasic.registration hnone)
  · exact hwritten

/-- In every run writes do not overlap and no queued work is stranded; when
the run coalesces, no write fails, no slot is registered and no delete holds a
leftover, the snapshot written last covers every request of the current handle
and every row was written unless a removal cancelled it. -/
theorem coalescing_safety {p : Uuid -> Lane} (id : Uuid) :
    (persister.Reachable System.Anything p ->
      WritesDisjoint (p id) ∧ NoneStranded (p id)) ∧
    (persister.Reachable (System.EachAllowed CoalescesAndSucceeds) p ->
      (p id).registered = none -> NoneMidway (p id) ->
      forall c x, Counts (p id) c x ->
        SnapshotCovers (p id) c x ∧
        forall u, u ∈ ((p id).call c).updates ->
          CarriedRow (p id) true (Row.mk c u) ∨ Cancelled (p id) c u.id) := by
  constructor
  · intro h
    have hrun : persister.Reachable (System.EachAllowed System.Anything) p :=
      h.mono (fun _ _ _ => True.intro)
    have hreg := registration (hrun.component id)
    exact ⟨hreg.writesDisjoint, hreg.noneStranded⟩
  · intro h hnone hmidway c x hc
    have hrun := h.component id
    refine ⟨snapshot_of_drained hrun hnone hmidway hc, ?_⟩
    intro u hu
    have hrows := (carried_of_drained (hrun.mono (fun _ _ ha => ha.1)) hnone
      hmidway hc).2
    rcases hrows u hu with ⟨ok, hcarried⟩ | hcancelled
    · cases ok with
      | true => exact Or.inl hcarried
      | false =>
          rcases hcarried with ⟨w, hw, -⟩
          exact absurd hw (none_failed (hrun.mono (fun _ _ ha => ha.2)) w)
    · exact Or.inr hcancelled

theorem coalescing_safety_drained :
    exists p,
      persister.replay (System.EachAllowed CoalescesAndSucceeds) persister.init
          (drainedRun.map (Prod.mk 7)) = some p ∧
        WritesDisjoint (p 7) ∧ NoneStranded (p 7) ∧
        SnapshotCovers (p 7) 1 0 ∧
        (CarriedRow (p 7) true (Row.mk 1 (ContextUpdate.plain 2 0 "gone")) ∨
          Cancelled (p 7) 1 2) := by
  obtain ⟨p, hp, hreach, ⟨hnone, hmidway⟩, hc, hu⟩ :=
    persister.replay_reaches (System.EachAllowed CoalescesAndSucceeds)
      (drainedRun.map (Prod.mk 7)) (fun p =>
        ((p 7).registered = none ∧ NoneMidway (p 7)) ∧ CountsNow (p 7) 1 0 ∧
          ContextUpdate.plain 2 0 "gone" ∈ ((p 7).call 1).updates) (by decide +kernel)
  have hcounts := hc.counts (numbered (hreach.component 7))
  have hsafe := (coalescing_safety 7).1 hreach.anything
  have hcovers := (coalescing_safety 7).2 hreach hnone hmidway 1 0 hcounts
  exact ⟨p, hp, hsafe.1, hsafe.2, hcovers.1, hcovers.2 _ hu⟩

/-- A request resolved before the delete joins the first request of the
re-created session, and its deleted source drops the batch. -/
def droppedBatchRun : List Action :=
  [Action.create, Action.register 0,
    Action.enqueue 0 [ContextUpdate.plain 1 0 "old"] [] false,
    Action.delete (some 0), Action.deletion 0 DeleteAction.retire,
    Action.deletion 0 DeleteAction.lookup, Action.deletion 0 DeleteAction.begin,
    Action.deletion 0 (DeleteAction.finish true),
    Action.create, Action.register 1,
    Action.enqueue 1 [ContextUpdate.plain 2 0 "new"] [] true, Action.queue 1,
    Action.queue 0,
    Action.drain 0 DrainAction.request, Action.drain 0 DrainAction.take,
    Action.drain 0 DrainAction.resolve, Action.drain 0 DrainAction.release,
    Action.drain 0 DrainAction.unregister]

theorem coalescing_drops_batch :
    ¬ forall p, persister.Reachable (System.EachAllowed Succeeds) p ->
      forall id, (p id).registered = none ->
      forall c x, Counts (p id) c x ->
        SnapshotCovers (p id) c x ∧
        forall u, u ∈ ((p id).call c).updates ->
          CarriedRow (p id) true (Row.mk c u) ∨ RemovedLater (p id) c u.id := by
  intro h
  obtain ⟨p, -, hreach, hnone, hc, hnever⟩ :=
    persister.replay_reaches (System.EachAllowed Succeeds)
      (droppedBatchRun.map (Prod.mk 7)) (fun p =>
        (p 7).registered = none ∧ CountsNow (p 7) 1 1 ∧ lastWritten (p 7).trace = none)
      (by decide +kernel)
  have hcounts := hc.counts (numbered (hreach.component 7))
  rcases (h p hreach 7 hnone 1 1 hcounts).1 with ⟨v, hv, -⟩
  rw [hnever] at hv
  cases hv

end Persister
end PostCortex
