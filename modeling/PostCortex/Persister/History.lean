import PostCortex.Persister.Queues

/-!
# What a step adds to the history

The calls a step makes or queues, and the events it emits, with the state of
the task that emits them.
-/

namespace PostCortex
namespace Persister

open PostCortex.Core
open Transition

variable {s s' : Lane} {a : Action}

/-- The calls made by a step: `enqueue` and `wait_queued` make a new one,
`queue` queues a resolved one. -/
theorem step_call (hs : s.step a = some s') (c : Nat) :
    s'.call c = s.call c ∨
    (a = Action.queue c ∧ (s.call c).stage = CallStage.resolved ∧
      s'.call c = s.queuedCall c) ∨
    (c = s.callCount ∧ a = Action.waitQueued ∧ s'.call c = s.waitingCall) ∨
    (c = s.callCount ∧ exists x updates removed waits,
      a = Action.enqueue x updates removed waits ∧ s.alive x = true ∧
      (s'.call c).handle = some x ∧
      ((s'.call c).stage = CallStage.refused ∨
        ((s'.call c).stage = CallStage.resolved ∧
          (s.standing x = Standing.current ∧ (s'.call c).source = x ∨
            s.standing x =
              Standing.superseded (some (s'.call c).source))))) := by
  cases a with
  | create | exclusive =>
      cases hs
      exact Or.inl rfl
  | register _ | commit _ | drop _ | flushForget _ | delete _ =>
      rcases guarded.mp hs with ⟨_, rfl⟩
      exact Or.inl rfl
  | enqueue x updates removed waits =>
      rcases guarded.mp hs with ⟨halive, rfl⟩
      by_cases hc : c = s.callCount
      · refine Or.inr (Or.inr (Or.inr ⟨hc, x, updates, removed, waits, rfl, halive, ?_⟩))
        unfold Lane.enqueue
        rcases hstand : s.standing x with _ | ⟨_ | y⟩ | _ <;>
          simp [Lane.addCall, Lane.emit, hc]
      · left
        rcases s.enqueue_eq x updates removed waits with ⟨x', events, heq⟩
        simp [heq, Lane.addCall, Lane.emit, hc]
  | queue n =>
      rcases guarded.mp hs with ⟨hstage, rfl⟩
      rw [queue_call]
      by_cases hc : c = n
      · subst hc
        exact Or.inr (Or.inl ⟨rfl, hstage, Function.update_self ..⟩)
      · exact Or.inl (Function.update_of_ne hc ..)
  | waitQueued =>
      rcases waitQueued_cases hs with ⟨k, _, rfl⟩
      by_cases hc : c = s.callCount
      · refine Or.inr (Or.inr (Or.inl ⟨hc, rfl, ?_⟩))
        simp [Lane.waitQueued, Lane.setPending, Lane.addCall, hc]
      · left
        simp [Lane.waitQueued, Lane.setPending, Lane.addCall, hc]
  | flushCollect =>
      rcases Option.map_eq_some_iff.mp hs with ⟨x, _, rfl⟩
      exact Or.inl rfl
  | drain k a =>
      left
      rcases drain_eq hs with ⟨f, r, w, p, l, x, t, rfl⟩
      rfl
  | deletion d a =>
      left
      rcases deletionStep_eq hs with ⟨i, f, r, n, w, p, l, x, y, m, t, rfl, -⟩
      rfl
  | critical e a =>
      left
      rw [(criticalStep_same hs).call]

theorem step_call_queued (hnumbered : Numbered s) (hs : s.step a = some s')
    {c : Nat} (hc : (s.call c).stage = CallStage.queued) :
    s'.call c = s.call c := by
  have hnew := hnumbered.call s.callCount (Nat.le_refl _)
  rcases step_call hs c with h | ⟨-, h, -⟩ | ⟨h, -⟩ | ⟨h, -⟩
  · exact h
  · rw [hc] at h
    cases h
  · rw [h, hnew] at hc
    cases hc
  · rw [h, hnew] at hc
    cases hc

theorem drain_other {j k : SlotId} {a : DrainAction} (hs : s.drain k a = some s')
    (hj : j ≠ k) :
    s'.drainer j = s.drainer j := by
  rcases drain_eq hs with ⟨f, r, w, p, l, x, t, rfl⟩
  exact Function.update_of_ne hj ..

theorem drain_deletion {k : SlotId} {a : DrainAction} (hs : s.drain k a = some s') :
    s'.deletion = s.deletion := by
  rcases drain_eq hs with ⟨f, r, w, p, l, x, t, rfl⟩
  rfl

theorem step_deletion (hs : s.step a = some s') (d : Nat) :
    s'.deletion d = s.deletion d ∨ (exists x, a = Action.deletion d x) ∨
      (d = s.deleteCount ∧ exists live, a = Action.delete live ∧
        s'.deletion d =
          { Deletion.none with stage := DeleteStage.marked, live := live }) := by
  cases a with
  | create | register _ | commit _ | drop _ | enqueue _ _ _ _ | flushCollect
  | flushForget _ =>
      left
      rw [(step_sameTasks hs True.intro).deletion]
  | queue c =>
      left
      rcases guarded.mp hs with ⟨_, rfl⟩
      exact congrFun (queueWork_deletion (s.recordQueued c) _) d
  | waitQueued =>
      rcases waitQueued_cases hs with ⟨k, _, rfl⟩
      exact Or.inl rfl
  | drain k x =>
      left
      rw [drain_deletion hs]
  | delete live =>
      rcases guarded.mp hs with ⟨_, rfl⟩
      by_cases hd : d = s.deleteCount
      · refine Or.inr (Or.inr ⟨hd, live, rfl, ?_⟩)
        simp [Lane.delete, hd]
      · left
        simp [Lane.delete, hd]
  | deletion d' x =>
      by_cases hd : d = d'
      · exact Or.inr (Or.inl ⟨x, hd ▸ rfl⟩)
      · left
        rcases deletionStep_eq hs with ⟨i, f, r, n, w, p, l, y, z, m, t, rfl, -⟩
        exact Function.update_of_ne hd ..
  | exclusive =>
      cases hs
      exact Or.inl rfl
  | critical e x =>
      left
      rw [(criticalStep_same hs).deletion]

theorem step_drainer (hs : s.step a = some s') (k : SlotId) :
    s'.drainer k = s.drainer k ∨ (exists x, a = Action.drain k x) ∨
      (k = s.slotCount ∧ s'.drainer k = Drainer.spawned) := by
  cases a with
  | create | register _ | commit _ | drop _ | enqueue _ _ _ _ | flushCollect
  | flushForget _ =>
      left
      rw [(step_sameTasks hs True.intro).drainer]
  | queue c =>
      rcases guarded.mp hs with ⟨_, rfl⟩
      rcases queueWork_new (s.recordQueued c) ((s.call c).work c) k with
        hsame | hnew
      · exact Or.inl hsame
      · exact Or.inr (Or.inr hnew)
  | waitQueued =>
      rcases waitQueued_cases hs with ⟨j, _, rfl⟩
      exact Or.inl rfl
  | drain j x =>
      by_cases hj : k = j
      · exact Or.inr (Or.inl ⟨x, hj ▸ rfl⟩)
      · exact Or.inl (drain_other hs hj)
  | delete live =>
      rcases guarded.mp hs with ⟨_, rfl⟩
      exact Or.inl rfl
  | deletion d x =>
      rcases deletionStep_eq hs with ⟨i, f, r, n, w, p, l, y, z, m, t, rfl, hnew⟩
      exact (hnew k).imp_right Or.inr
  | exclusive =>
      cases hs
      exact Or.inl rfl
  | critical e x =>
      left
      rw [(criticalStep_same hs).drainer]

def Action.queues : Action -> Nat
  | Action.queue _ => 1
  | Action.waitQueued => 1
  | _ => 0

structure CountersStep (s : Lane) (a : Action) (s' : Lane) : Prop where
  queued : s'.queuedCount = s.queuedCount + a.queues
  handles : s.handleCount ≤ s'.handleCount
  version : forall h, h ≠ s.handleCount -> s.version h ≤ s'.version h

theorem CountersStep.still (hqueued : s'.queuedCount = s.queuedCount + a.queues)
    (hhandles : s'.handleCount = s.handleCount) (hversion : s'.version = s.version) :
    CountersStep s a s' :=
  ⟨hqueued, Nat.le_of_eq hhandles.symm,
    fun h _ => Nat.le_of_eq (congrFun hversion h).symm⟩

theorem step_counters (hs : s.step a = some s') :
    CountersStep s a s' := by
  cases a with
  | create =>
      cases hs
      exact ⟨rfl, Nat.le_succ _, fun h hne => by simp [Lane.create, hne]⟩
  | commit x =>
      rcases guarded.mp hs with ⟨_, rfl⟩
      refine ⟨rfl, Nat.le_refl _, fun h _ => ?_⟩
      by_cases hx : h = x
      · subst hx
        simp
      · simp [hx]
  | exclusive =>
      cases hs
      exact CountersStep.still rfl rfl rfl
  | register _ | drop _ | flushForget _ | delete _ =>
      rcases guarded.mp hs with ⟨_, rfl⟩
      exact CountersStep.still rfl rfl rfl
  | enqueue x updates removed waits =>
      rcases guarded.mp hs with ⟨_, rfl⟩
      rcases s.enqueue_eq x updates removed waits with ⟨c, events, heq⟩
      rw [heq]
      exact CountersStep.still rfl rfl rfl
  | queue c =>
      rcases guarded.mp hs with ⟨_, rfl⟩
      rcases queue_eq s c with ⟨r, n, w, p, l, x, t, heq⟩
      rw [heq]
      exact CountersStep.still rfl rfl rfl
  | waitQueued =>
      rcases waitQueued_cases hs with ⟨k, _, rfl⟩
      exact CountersStep.still rfl rfl rfl
  | flushCollect =>
      rcases Option.map_eq_some_iff.mp hs with ⟨x, _, rfl⟩
      exact CountersStep.still rfl rfl rfl
  | drain k a =>
      rcases drain_eq hs with ⟨f, r, w, p, l, x, t, rfl⟩
      exact CountersStep.still rfl rfl rfl
  | deletion d a =>
      rcases deletionStep_eq hs with ⟨i, f, r, n, w, p, l, x, y, m, t, rfl, -⟩
      exact CountersStep.still rfl rfl rfl
  | critical e a =>
      rcases criticalStep_eq hs with ⟨w, x, rfl, -⟩
      exact CountersStep.still rfl rfl rfl

inductive Emits (s : Lane) : Action -> Event -> Prop where
  | queued {c : Nat} :
      (s.call c).stage = CallStage.resolved ->
      Emits s (Action.queue c) (Event.queued c)
  | refused {h : Handle} {updates : List ContextUpdate} {removed : List Uuid}
      {waits : Bool} {outcome : Outcome} :
      outcome ≠ Outcome.ok ->
      Emits s (Action.enqueue h updates removed waits)
        (Event.told s.callCount outcome)
  | writeStarted {k : SlotId} :
      (s.drainer k).stage = DrainStage.ready ->
      Emits s (Action.drain k DrainAction.begin)
        (Event.writeStarted
          (Lane.writeOf (s.drainer k) (s.version (s.drainer k).handle)))
  | wrote {k : SlotId} {ok : Bool} :
      (s.drainer k).stage = DrainStage.writing ->
      Emits s (Action.drain k (DrainAction.finish ok))
        (Event.wrote (Lane.writeOf (s.drainer k) (s.drainer k).version) ok)
  | told {k : SlotId} {c : Nat} :
      (s.drainer k).stage = DrainStage.finished ->
      c ∈ (s.drainer k).batch.waiters ->
      Emits s (Action.drain k DrainAction.release)
        (Event.told c (s.drainer k).outcome)
  | erased {d : Nat} {ok : Bool} :
      (s.deletion d).stage = DeleteStage.deleting ->
      Emits s (Action.deletion d (DeleteAction.finish ok))
        (Event.erased (s.deletion d).below ok)
  | dropped {d c : Nat} :
      (s.deletion d).stage = DeleteStage.holding ->
      c ∈ (s.deletion d).leftover.waiters ->
      Emits s (Action.deletion d DeleteAction.judge)
        (Event.told c Outcome.deleted)

theorem mem_tell {waiters : List Nat} {outcome : Outcome} {e : Event} :
    e ∈ Lane.tell waiters outcome ↔
      exists c, c ∈ waiters ∧ Event.told c outcome = e := by
  simp [Lane.tell]

theorem enqueue_trace (s : Lane) (x : Handle) (updates : List ContextUpdate)
    (removed : List Uuid) (waits : Bool) :
    exists events, (s.enqueue x updates removed waits).trace = events ++ s.trace ∧
      (forall e, e ∈ events ->
        Emits s (Action.enqueue x updates removed waits) e) ∧
      events.length ≤ 1 := by
  have hrefuse : forall outcome, outcome ≠ Outcome.ok ->
      forall e, e ∈ Lane.tell (if waits then [s.callCount] else []) outcome ->
        Emits s (Action.enqueue x updates removed waits) e := by
    intro outcome hne e he
    rcases mem_tell.mp he with ⟨c, hc, rfl⟩
    have heq : c = s.callCount := by
      cases waits <;> simp_all
    subst heq
    exact Emits.refused hne
  have hlength : forall outcome,
      (Lane.tell (if waits then [s.callCount] else []) outcome).length ≤ 1 := by
    intro outcome
    cases waits <;> simp [Lane.tell]
  unfold Lane.enqueue
  rcases s.standing x with _ | ⟨_ | y⟩ | _
  · exact ⟨[], rfl, by simp, by simp⟩
  · exact ⟨_, rfl, hrefuse _ (by simp), hlength _⟩
  · exact ⟨[], rfl, by simp, by simp⟩
  · exact ⟨_, rfl, hrefuse _ (by simp), hlength _⟩

/-- A step puts the events of its action in front of the trace: at most one,
or the answers to the waiters of a queue. -/
theorem step_trace (hs : s.step a = some s') :
    exists events, s'.trace = events ++ s.trace ∧
      (forall e, e ∈ events -> Emits s a e) ∧
      (events.length ≤ 1 ∨ exists waiters outcome,
        events = Lane.tell waiters outcome) := by
  have hnone : s'.trace = s.trace -> exists events,
      s'.trace = events ++ s.trace ∧ (forall e, e ∈ events -> Emits s a e) ∧
      (events.length ≤ 1 ∨ exists waiters outcome,
        events = Lane.tell waiters outcome) :=
    fun h => ⟨[], h, by simp, by simp⟩
  cases a with
  | create | exclusive =>
      cases hs
      exact hnone rfl
  | register _ | commit _ | drop _ | flushForget _ | delete _ =>
      rcases guarded.mp hs with ⟨_, rfl⟩
      exact hnone rfl
  | enqueue x updates removed waits =>
      rcases guarded.mp hs with ⟨halive, rfl⟩
      rcases enqueue_trace s x updates removed waits with
        ⟨events, heq, hemits, hlength⟩
      exact ⟨events, heq, hemits, Or.inl hlength⟩
  | queue n =>
      rcases guarded.mp hs with ⟨hstage, rfl⟩
      rcases (s.recordQueued n).queueWork_eq ((s.call n).work n) with
        ⟨r, m, w, p, l, x, heq⟩
      refine ⟨[Event.queued n], ?_, ?_, by simp⟩
      · unfold Lane.queue
        rw [heq]
        rfl
      · simpa using Emits.queued hstage
  | waitQueued =>
      rcases waitQueued_cases hs with ⟨k, _, rfl⟩
      exact hnone rfl
  | flushCollect =>
      rcases Option.map_eq_some_iff.mp hs with ⟨x, _, rfl⟩
      exact hnone rfl
  | drain k a =>
      cases a with
      | request | take | resolve =>
          rcases guarded.mp hs with ⟨_, rfl⟩
          exact hnone rfl
      | begin =>
          rcases guarded.mp hs with ⟨hstage, rfl⟩
          exact ⟨_, rfl, by simpa using Emits.writeStarted hstage, by simp⟩
      | finish ok =>
          rcases guarded.mp hs with ⟨hstage, rfl⟩
          exact ⟨_, rfl, by simpa using Emits.wrote hstage, by simp⟩
      | release =>
          rcases guarded.mp hs with ⟨hstage, rfl⟩
          refine ⟨_, rfl, ?_, Or.inr ⟨_, _, rfl⟩⟩
          intro e he
          rcases mem_tell.mp he with ⟨c, hc, rfl⟩
          exact Emits.told hstage hc
      | unregister | recheck =>
          rcases guarded.mp hs with ⟨_, rfl⟩
          apply hnone
          split <;> rfl
  | deletion d a =>
      cases a with
      | retire | lookup | begin | unregister =>
          rcases guarded.mp hs with ⟨_, rfl⟩
          exact hnone rfl
      | finish ok =>
          rcases guarded.mp hs with ⟨hstage, rfl⟩
          exact ⟨_, rfl, by simpa using Emits.erased hstage, by simp⟩
      | request | take | release =>
          rcases guardedSlot.mp hs with ⟨k, hslot, _, rfl⟩
          exact hnone rfl
      | judge =>
          rcases guarded.mp hs with ⟨hstage, rfl⟩
          by_cases hkeep : s.Keeps (s.deletion d).leftover
          · apply hnone
            rw [if_pos hkeep]
            rfl
          · rw [if_neg hkeep]
            refine ⟨_, rfl, ?_, Or.inr ⟨_, _, rfl⟩⟩
            intro e he
            rcases mem_tell.mp he with ⟨c, hc, rfl⟩
            exact Emits.dropped hstage hc
      | requeue =>
          rcases guarded.mp hs with ⟨_, rfl⟩
          rcases s.queueWork_eq (s.deletion d).leftover with
            ⟨r, n, w, p, l, x, heq⟩
          apply hnone
          rw [heq]
          rfl
  | critical e a =>
      rcases criticalStep_eq hs with ⟨w, x, rfl, -⟩
      exact hnone rfl

end Persister
end PostCortex
