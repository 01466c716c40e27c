import PostCortex.Persister.History
import PostCortex.Persister.Registration

/-!
# What a step moves

The registered slot, the exclusive sections, the locks and the queued requests
after a step, in terms of the state before it.
-/

namespace PostCortex
namespace Persister

open PostCortex.Core
open Transition

/-- The step calls `queue`, so it creates a slot when none is registered. -/
def Action.Merges : Action -> Prop
  | Action.queue _ => True
  | Action.deletion _ DeleteAction.requeue => True
  | _ => False

theorem queueWork_registered (s : Lane) (work : Pending) :
    (s.queueWork work).registered = s.registered ∨ s.registered = none := by
  unfold Lane.queueWork
  split
  · exact Or.inl rfl
  · next hnone => exact Or.inr hnone

variable {s s' : Lane} {a : Action}

theorem step_registered (hs : s.step a = some s') :
    s'.registered = s.registered ∨ s'.registered = none ∨
      (s.registered = none ∧ a.Merges) := by
  cases a with
  | create | register _ | commit _ | drop _ | enqueue _ _ _ _ | flushCollect
  | flushForget _ =>
      exact Or.inl (step_sameTasks hs True.intro).registered
  | queue c =>
      rcases guarded.mp hs with ⟨_, rfl⟩
      rcases queueWork_registered (s.recordQueued c) ((s.call c).work c) with
        hsame | hnone
      · exact Or.inl hsame
      · exact Or.inr (Or.inr ⟨hnone, True.intro⟩)
  | waitQueued =>
      rcases waitQueued_cases hs with ⟨k, _, rfl⟩
      exact Or.inl rfl
  | drain k x =>
      cases x with
      | request | take | resolve | begin | finish _ | release =>
          rcases guarded.mp hs with ⟨_, rfl⟩
          exact Or.inl rfl
      | unregister =>
          rcases guarded.mp hs with ⟨_, rfl⟩
          split
          · exact Or.inr (Or.inl rfl)
          · exact Or.inl rfl
      | recheck =>
          rcases guarded.mp hs with ⟨_, rfl⟩
          split <;> exact Or.inl rfl
  | delete live =>
      rcases guarded.mp hs with ⟨_, rfl⟩
      exact Or.inl rfl
  | deletion d x =>
      cases x with
      | retire | lookup | begin | finish _ =>
          rcases guarded.mp hs with ⟨_, rfl⟩
          exact Or.inl rfl
      | request | take | release =>
          rcases guardedSlot.mp hs with ⟨k, hslot, _, rfl⟩
          exact Or.inl rfl
      | unregister =>
          rcases guarded.mp hs with ⟨_, rfl⟩
          by_cases hslot : s.registered = (s.deletion d).slot
          · exact Or.inr (Or.inl (if_pos hslot))
          · exact Or.inl (if_neg hslot)
      | judge =>
          rcases guarded.mp hs with ⟨_, rfl⟩
          split <;> exact Or.inl rfl
      | requeue =>
          rcases guarded.mp hs with ⟨_, rfl⟩
          rcases queueWork_registered s (s.deletion d).leftover with
            hsame | hnone
          · exact Or.inl hsame
          · exact Or.inr (Or.inr ⟨hnone, True.intro⟩)
  | exclusive =>
      cases hs
      exact Or.inl rfl
  | critical e x =>
      exact Or.inl (criticalStep_same hs).registered

theorem step_critical (hs : s.step a = some s') (e : Nat) :
    s'.critical e = s.critical e ∨
    (exists x, a = Action.critical e x ∧
      (s'.critical e).slot = (s.critical e).slot ∧
      (s'.critical e).since = (s.critical e).since) ∨
    (e = s.sectionCount ∧ a = Action.exclusive ∧
      s'.critical e =
        { Section.none with
          stage := SectionStage.seen
          slot := s.registered
          since := s.queuedCount }) := by
  cases a with
  | create | register _ | commit _ | drop _ | enqueue _ _ _ _ | flushCollect
  | flushForget _ =>
      left
      rw [(step_sameTasks hs True.intro).critical]
  | queue c =>
      left
      rcases guarded.mp hs with ⟨_, rfl⟩
      rcases queue_eq s c with ⟨r, n, w, p, l, x, t, heq⟩
      rw [heq]
      rfl
  | waitQueued =>
      left
      rcases waitQueued_cases hs with ⟨k, _, rfl⟩
      rfl
  | drain k x =>
      left
      rcases drain_eq hs with ⟨f, r, w, p, l, y, t, rfl⟩
      rfl
  | delete live =>
      left
      rcases guarded.mp hs with ⟨_, rfl⟩
      rfl
  | deletion d x =>
      left
      rcases deletionStep_eq hs with ⟨i, f, r, n, w, p, l, y, z, m, t, rfl, -⟩
      rfl
  | exclusive =>
      cases hs
      by_cases he : e = s.sectionCount
      · subst he
        exact Or.inr (Or.inr ⟨rfl, rfl, by simp [Lane.exclusive]⟩)
      · left
        simp [Lane.exclusive, he]
  | critical n x =>
      rcases criticalStep_eq hs with ⟨w, y, rfl, -⟩
      by_cases he : e = n
      · subst he
        exact Or.inr (Or.inl ⟨x, rfl, by simp, by simp⟩)
      · exact Or.inl (Function.update_of_ne he ..)

/-!
# Locks
-/

/-- How a step changes the queue of the lock of slot `k`. -/
inductive MovesLock (s : Lane) (k : SlotId) : Action -> List Party -> Prop where
  | kept {a : Action} : MovesLock s k a (s.writeLock k)
  | drainer :
      (s.drainer k).stage = DrainStage.start ->
      MovesLock s k (Action.drain k DrainAction.request)
        (s.writeLock k ++ [Party.drainer])
  | deletion {d : Nat} :
      MovesLock s k (Action.deletion d DeleteAction.request)
        (s.writeLock k ++ [Party.deletion d])
  | critical {e : Nat} :
      (s.critical e).stage = SectionStage.seen ->
      (s.critical e).slot = some k ->
      MovesLock s k (Action.critical e SectionAction.request)
        (s.writeLock k ++ [Party.exclusive e])
  | written :
      (s.drainer k).stage = DrainStage.finished ->
      MovesLock s k (Action.drain k DrainAction.release) (s.writeLock k).tail
  | deleted {d : Nat} :
      (s.writeLock k).head? = some (Party.deletion d) ->
      MovesLock s k (Action.deletion d DeleteAction.release)
        (s.writeLock k).tail
  | finished {e : Nat} :
      (s.writeLock k).head? = some (Party.exclusive e) ->
      MovesLock s k (Action.critical e SectionAction.finish)
        (s.writeLock k).tail
  | created {a : Action} :
      s.registered = none -> a.Merges -> k = s.slotCount -> MovesLock s k a []

theorem queueWork_lock (s : Lane) (work : Pending) (k : SlotId) :
    (s.queueWork work).writeLock k = s.writeLock k ∨
      (s.registered = none ∧ k = s.slotCount ∧
        (s.queueWork work).writeLock k = []) := by
  unfold Lane.queueWork
  split
  · exact Or.inl rfl
  · next hnone =>
      by_cases hk : k = s.slotCount
      · exact Or.inr ⟨hnone, hk, by simp [hk]⟩
      · exact Or.inl (Function.update_of_ne hk ..)

theorem step_lock (hlocks : Locks s) (hs : s.step a = some s') (k : SlotId) :
    MovesLock s k a (s'.writeLock k) := by
  have hset : forall {t : Lane} {j : SlotId} {parties : List Party},
      t.writeLock = s.writeLock ->
      (j = k -> MovesLock s k a parties) ->
      MovesLock s k a ((t.setLock j parties).writeLock k) := by
    intro t j parties hlock hmoves
    by_cases hj : k = j
    · subst hj
      simpa [Lane.setLock] using hmoves rfl
    · simp only [Lane.setLock, Function.update_of_ne hj, hlock]
      exact MovesLock.kept
  cases a with
  | create | register _ | commit _ | drop _ | enqueue _ _ _ _ | flushCollect
  | flushForget _ =>
      rw [(step_sameTasks hs True.intro).writeLock]
      exact MovesLock.kept
  | queue c =>
      rcases guarded.mp hs with ⟨_, rfl⟩
      rcases queueWork_lock (s.recordQueued c) ((s.call c).work c) k with
        hsame | ⟨hnone, hk, hnew⟩
      · simp only [Lane.queue, Lane.emit, hsame]
        exact MovesLock.kept
      · simp only [Lane.queue, Lane.emit, hnew]
        exact MovesLock.created hnone True.intro hk
  | waitQueued =>
      rcases waitQueued_cases hs with ⟨j, _, rfl⟩
      exact MovesLock.kept
  | drain j x =>
      cases x with
      | request =>
          rcases guarded.mp hs with ⟨hstage, rfl⟩
          apply hset rfl
          rintro rfl
          exact MovesLock.drainer hstage
      | release =>
          rcases guarded.mp hs with ⟨hstage, rfl⟩
          apply hset rfl
          rintro rfl
          exact MovesLock.written hstage
      | take | resolve | begin | finish _ =>
          rcases guarded.mp hs with ⟨_, rfl⟩
          exact MovesLock.kept
      | unregister | recheck =>
          rcases guarded.mp hs with ⟨_, rfl⟩
          split <;> exact MovesLock.kept
  | delete live =>
      rcases guarded.mp hs with ⟨_, rfl⟩
      exact MovesLock.kept
  | deletion d x =>
      cases x with
      | retire | lookup | begin | finish _ | unregister =>
          rcases guarded.mp hs with ⟨_, rfl⟩
          exact MovesLock.kept
      | request =>
          rcases guardedSlot.mp hs with ⟨j, hslot, _, rfl⟩
          apply hset rfl
          rintro rfl
          exact MovesLock.deletion
      | take =>
          rcases guardedSlot.mp hs with ⟨j, hslot, _, rfl⟩
          exact MovesLock.kept
      | release =>
          rcases guardedSlot.mp hs with ⟨j, hslot, hstage, rfl⟩
          apply hset rfl
          rintro rfl
          apply MovesLock.deleted
          exact hlocks.deletionOwns d j (by simp [DeleteStage.Owns, hstage]) hslot
      | judge =>
          rcases guarded.mp hs with ⟨_, rfl⟩
          split <;> exact MovesLock.kept
      | requeue =>
          rcases guarded.mp hs with ⟨_, rfl⟩
          rcases queueWork_lock s (s.deletion d).leftover k with
            hsame | ⟨hnone, hk, hnew⟩
          · simp only [Lane.setDeletion, hsame]
            exact MovesLock.kept
          · simp only [Lane.setDeletion, hnew]
            exact MovesLock.created hnone True.intro hk
  | exclusive =>
      cases hs
      exact MovesLock.kept
  | critical e x =>
      cases x with
      | request =>
          rcases guardedSlot.mp hs with ⟨j, hslot, hstage, rfl⟩
          apply hset rfl
          rintro rfl
          exact MovesLock.critical hstage hslot
      | begin =>
          rcases guarded.mp hs with ⟨_, rfl⟩
          exact MovesLock.kept
      | finish =>
          rcases guarded.mp hs with ⟨hstage, rfl⟩
          cases hslot : (s.critical e).slot with
          | none => exact MovesLock.kept
          | some j =>
              apply hset rfl
              rintro rfl
              exact MovesLock.finished (hlocks.criticalOwns e j hstage hslot)

/-!
# Requests
-/

variable {k : SlotId} {c : Nat}

theorem queueWork_requests {work : Pending}
    (hc : c ∈ ((s.queueWork work).pending k).requests) :
    c ∈ (s.pending k).requests ∨ c ∈ work.requests := by
  unfold Lane.queueWork at hc
  split at hc
  · next j hj =>
      by_cases hk : k = j
      · subst hk
        simpa [Pending.merge] using hc
      · left
        simpa [hk] using hc
  · by_cases hk : k = s.slotCount
    · subst hk
      right
      simpa [Pending.merge, Pending.empty] using hc
    · left
      simpa [hk] using hc

/-- A request in a slot after a step was there before, is queued by the step,
or comes from a leftover. -/
theorem step_pending (hs : s.step a = some s') (hc : c ∈ (s'.pending k).requests) :
    (c ∈ (s.pending k).requests ∧
      a ≠ Action.drain k DrainAction.take) ∨
    (s'.call c).order = s.queuedCount ∨
    exists d, a = Action.deletion d DeleteAction.requeue ∧
      (s.deletion d).stage = DeleteStage.requeueing ∧
      c ∈ (s.deletion d).leftover.requests := by
  cases a with
  | create | register _ | commit _ | drop _ | enqueue _ _ _ _ | flushCollect
  | flushForget _ =>
      rw [(step_sameTasks hs True.intro).pending] at hc
      exact Or.inl ⟨hc, by simp⟩
  | queue n =>
      rcases guarded.mp hs with ⟨_, rfl⟩
      rcases queueWork_requests (s := s.recordQueued n) hc with hold | hnew
      · exact Or.inl ⟨hold, by simp⟩
      · right
        left
        have hcn : c = n := by simpa [Call.work] using hnew
        rw [queue_call, hcn, Function.update_self]
        rfl
  | waitQueued =>
      rcases waitQueued_cases hs with ⟨j, _, rfl⟩
      by_cases hcn : c = s.callCount
      · right
        left
        simp [Lane.waitQueued, Lane.setPending, Lane.addCall, hcn,
          Lane.waitingCall]
      · left
        refine ⟨?_, by simp⟩
        by_cases hk : k = j
        · subst hk
          simpa [Lane.waitQueued, Lane.setPending, hcn] using hc
        · simpa [Lane.waitQueued, Lane.setPending, Lane.addCall, hk] using hc
  | drain j x =>
      left
      cases x with
      | request | resolve | begin | finish _ | release =>
          rcases guarded.mp hs with ⟨_, rfl⟩
          exact ⟨hc, by simp⟩
      | take =>
          rcases guarded.mp hs with ⟨_, rfl⟩
          by_cases hk : k = j
          · subst hk
            simp [Lane.setPending, Pending.empty] at hc
          · refine ⟨by simpa [Lane.setPending, Lane.setDrainer, hk] using hc, ?_⟩
            intro heq
            cases heq
            exact hk rfl
      | unregister | recheck =>
          rcases guarded.mp hs with ⟨_, rfl⟩
          split at hc <;> exact ⟨hc, by simp⟩
  | delete live =>
      rcases guarded.mp hs with ⟨_, rfl⟩
      exact Or.inl ⟨hc, by simp⟩
  | deletion d x =>
      cases x with
      | retire | lookup | begin | finish _ | unregister =>
          rcases guarded.mp hs with ⟨_, rfl⟩
          exact Or.inl ⟨hc, by simp⟩
      | request | release =>
          rcases guardedSlot.mp hs with ⟨j, hslot, _, rfl⟩
          exact Or.inl ⟨hc, by simp⟩
      | take =>
          rcases guardedSlot.mp hs with ⟨j, hslot, _, rfl⟩
          left
          refine ⟨?_, by simp⟩
          by_cases hk : k = j
          · subst hk
            simp [Lane.setPending, Pending.empty] at hc
          · simpa [Lane.setPending, Lane.setDeletion, hk] using hc
      | judge =>
          rcases guarded.mp hs with ⟨_, rfl⟩
          split at hc <;> exact Or.inl ⟨hc, by simp⟩
      | requeue =>
          rcases guarded.mp hs with ⟨hstage, rfl⟩
          rcases queueWork_requests (s := s) hc with hold | hnew
          · exact Or.inl ⟨hold, by simp⟩
          · exact Or.inr (Or.inr ⟨d, rfl, hstage, hnew⟩)
  | exclusive =>
      cases hs
      exact Or.inl ⟨hc, by simp⟩
  | critical e x =>
      rw [(criticalStep_same hs).pending] at hc
      exact Or.inl ⟨hc, by simp⟩

/-- A request a writer task carries after a step was carried before, or was in
the slot the task takes. -/
theorem step_carried (hs : s.step a = some s') (hk : (s'.drainer k).stage.Carries)
    (hc : c ∈ (s'.drainer k).batch.requests) :
    ((s.drainer k).stage.Carries ∧ c ∈ (s.drainer k).batch.requests) ∨
      c ∈ (s.pending k).requests := by
  rcases step_drainer hs k with hsame | ⟨x, rfl⟩ | ⟨-, hspawned⟩
  · rw [hsame] at hk hc
    exact Or.inl ⟨hk, hc⟩
  · cases x with
    | request | release =>
        rcases guarded.mp hs with ⟨_, rfl⟩
        simp [Lane.setDrainer, Lane.setLock, Lane.emit,
          DrainStage.Carries] at hk
    | take =>
        rcases guarded.mp hs with ⟨_, rfl⟩
        right
        simpa [Lane.setDrainer, Lane.setPending] using hc
    | resolve =>
        rcases guarded.mp hs with ⟨hstage, rfl⟩
        left
        refine ⟨Or.inl hstage, ?_⟩
        simpa [Lane.setDrainer, resolveBatch_batch] using hc
    | begin =>
        rcases guarded.mp hs with ⟨hstage, rfl⟩
        left
        refine ⟨Or.inr (Or.inl hstage), ?_⟩
        simpa [Lane.setDrainer, Lane.emit] using hc
    | finish ok =>
        rcases guarded.mp hs with ⟨_, rfl⟩
        simp [Lane.finishWrite, Lane.emit, DrainStage.Carries] at hk
    | unregister | recheck =>
        rcases guarded.mp hs with ⟨_, rfl⟩
        split at hk <;> simp [Lane.setDrainer, DrainStage.Carries] at hk
  · rw [hspawned] at hk
    simp [Drainer.spawned, DrainStage.Carries] at hk

/-- A request in a leftover after a step was there before, or was in the slot
the delete empties. -/
theorem step_leftover (hs : s.step a = some s') {d : Nat}
    (hc : c ∈ (s'.deletion d).leftover.requests) :
    c ∈ (s.deletion d).leftover.requests ∨
      (a = Action.deletion d DeleteAction.take ∧
        exists k, (s.deletion d).slot = some k ∧
          c ∈ (s.pending k).requests) := by
  rcases step_deletion hs d with hsame | ⟨x, rfl⟩ | ⟨-, live, -, hnew⟩
  · rw [hsame] at hc
    exact Or.inl hc
  · cases x with
    | retire | lookup | begin | finish _ | unregister =>
        rcases guarded.mp hs with ⟨_, rfl⟩
        left
        simpa [Lane.setDeletion, Lane.emit] using hc
    | request | release =>
        rcases guardedSlot.mp hs with ⟨k, hslot, _, rfl⟩
        left
        simpa [Lane.setDeletion, Lane.setLock] using hc
    | take =>
        rcases guardedSlot.mp hs with ⟨k, hslot, _, rfl⟩
        right
        exact ⟨rfl, k, hslot,
          by simpa [Lane.setDeletion, Lane.setPending] using hc⟩
    | judge =>
        rcases guarded.mp hs with ⟨_, rfl⟩
        left
        split at hc
        · simpa [Lane.setDeletion] using hc
        · simp [Lane.setDeletion, Lane.emit, Pending.empty] at hc
    | requeue =>
        rcases guarded.mp hs with ⟨_, rfl⟩
        simp [Lane.setDeletion, Pending.empty] at hc
  · rw [hnew] at hc
    cases hc

theorem step_slot (hnumbered : Numbered s) (hs : s.step a = some s') {d : Nat}
    (hstage : (s.deletion d).stage ≠ DeleteStage.unused ∧
      (s.deletion d).stage ≠ DeleteStage.retired) :
    (s'.deletion d).slot = (s.deletion d).slot := by
  rcases step_deletion hs d with hsame | ⟨x, rfl⟩ | ⟨rfl, -⟩
  · rw [hsame]
  · cases x with
    | retire | begin | finish _ | unregister =>
        rcases guarded.mp hs with ⟨_, rfl⟩
        simp [Lane.setDeletion, Lane.emit]
    | lookup =>
        rcases guarded.mp hs with ⟨hretired, _⟩
        exact absurd hretired hstage.2
    | request | take | release =>
        rcases guardedSlot.mp hs with ⟨k, hslot, _, rfl⟩
        simp [Lane.setDeletion, Lane.setLock, Lane.setPending]
    | judge =>
        rcases guarded.mp hs with ⟨_, rfl⟩
        split <;> simp [Lane.setDeletion, Lane.emit]
    | requeue =>
        rcases guarded.mp hs with ⟨_, rfl⟩
        simp [Lane.setDeletion]
  · exact absurd (hnumbered.deletion s.deleteCount (Nat.le_refl _)) hstage.1

end Persister
end PostCortex
