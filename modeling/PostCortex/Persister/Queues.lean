import PostCortex.Persister.Registration

/-!
# Contents of the queues

Rows, removals and waiters of a queue belong to requests merged into it, and a
queue without a source holds only waiters of `wait_queued`.  This is kept by
`merge` and holds of the pending queues, of the batch a writer task took and of
the leftover of a delete.
-/

namespace PostCortex
namespace Persister

open PostCortex.Core
open Transition

namespace Pending

structure Sound (call : Nat -> Call) (p : Pending) : Prop where
  queued : forall c, c ∈ p.requests -> (call c).stage = CallStage.queued
  waiter : forall c, c ∈ p.waiters -> c ∈ p.requests
  row : forall x, x ∈ p.updates ->
    x.call ∈ p.requests ∧ x.update ∈ (call x.call).updates
  removal : forall c id, c ∈ p.requests -> id ∈ (call c).removed ->
    Removal.mk c id ∈ p.removed
  bare : p.source = none ->
    p.updates = [] ∧ p.removed = [] ∧
      forall c, c ∈ p.requests -> (call c).handle = none
  waits : forall c, c ∈ p.requests -> (call c).handle = none ->
    c ∈ p.waiters

theorem sound_empty (call : Nat -> Call) : Sound call empty := by
  constructor <;> simp [empty]

variable {call : Nat -> Call} {p : Pending}

theorem Sound.requests_eq_nil (h : Sound call p) (hempty : p.IsEmpty) :
    p.requests = [] := by
  rcases hempty with ⟨hsource, -, -, hwaiters⟩
  rw [List.eq_nil_iff_forall_not_mem]
  intro c hc
  have hwait := h.waits c hc ((h.bare hsource).2.2 c hc)
  simp [hwaiters] at hwait

theorem Sound.congr {call' : Nat -> Call} (h : Sound call p)
    (hcall : forall c, (call c).stage = CallStage.queued -> call' c = call c) :
    Sound call' p := by
  rcases h with ⟨hqueued, hwaiter, hrow, hremoval, hbare, hwaits⟩
  constructor <;> grind

variable {work : Pending}

theorem mem_merge_updates {x : Row} :
    x ∈ (p.merge work).updates ↔
      (x ∈ p.updates ∨ x ∈ work.updates) ∧ ¬ Cancels work.removed x := by
  simp [merge, or_and_right]

theorem Sound.merge (h : Sound call p) (hwork : Sound call work) :
    Sound call (p.merge work) := by
  constructor
  · intro c hc
    rcases List.mem_append.mp hc with hc | hc
    · exact h.queued c hc
    · exact hwork.queued c hc
  · intro c hc
    rcases List.mem_append.mp hc with hc | hc
    · exact List.mem_append_left _ (h.waiter c hc)
    · exact List.mem_append_right _ (hwork.waiter c hc)
  · intro x hx
    rcases mem_merge_updates.mp hx with ⟨hx | hx, -⟩
    · exact ⟨List.mem_append_left _ (h.row x hx).1, (h.row x hx).2⟩
    · exact ⟨List.mem_append_right _ (hwork.row x hx).1, (hwork.row x hx).2⟩
  · intro c id hc hid
    rcases List.mem_append.mp hc with hc | hc
    · exact List.mem_append_left _ (h.removal c id hc hid)
    · exact List.mem_append_right _ (hwork.removal c id hc hid)
  · intro hsource
    have hnone : work.source = none ∧ p.source = none := by
      cases hw : work.source <;> simp_all [Pending.merge]
    rcases hwork.bare hnone.1 with ⟨hworkUpdates, hworkRemoved, hworkBare⟩
    rcases h.bare hnone.2 with ⟨hupdates, hremoved, hbare⟩
    refine ⟨?_, ?_, ?_⟩
    · simp [Pending.merge, hupdates, hworkUpdates]
    · simp [Pending.merge, hremoved, hworkRemoved]
    · intro c hc
      rcases List.mem_append.mp hc with hc | hc
      · exact hbare c hc
      · exact hworkBare c hc
  · intro c hc hnone
    rcases List.mem_append.mp hc with hc | hc
    · exact List.mem_append_left _ (h.waits c hc hnone)
    · exact List.mem_append_right _ (hwork.waits c hc hnone)

theorem Sound.wait {c : Nat} (h : Sound call p)
    (hstage : (call c).stage = CallStage.queued) (hhandle : (call c).handle = none)
    (hremoved : (call c).removed = []) :
    Sound call
      { p with waiters := p.waiters ++ [c], requests := p.requests ++ [c] } := by
  rcases h with ⟨hqueued, hwaiter, hrow, hremoval, hbare, hwaits⟩
  constructor <;> grind

end Pending

theorem Call.work_sound (call : Nat -> Call) (c : Nat)
    (hstage : (call c).stage = CallStage.queued)
    (hhandle : (call c).handle ≠ Option.none) :
    ((call c).work c).Sound call := by
  constructor <;> simp [Call.work] <;> grind

structure Queues (s : Lane) : Prop where
  pending : forall k, (s.pending k).Sound s.call
  batch : forall k, (s.drainer k).batch.Sound s.call
  leftover : forall d, (s.deletion d).leftover.Sound s.call
  resolved : forall c, (s.call c).stage = CallStage.resolved ->
    (s.call c).handle ≠ none

theorem queues_empty : Queues Lane.empty := by
  constructor
  · exact fun _ => Pending.sound_empty _
  · exact fun _ => Pending.sound_empty _
  · exact fun _ => Pending.sound_empty _
  · intro c hc
    cases hc

variable {s s' : Lane}

theorem Queues.congr (h : Queues s) (hpending : s'.pending = s.pending)
    (hdrainer : s'.drainer = s.drainer) (hdeletion : s'.deletion = s.deletion)
    (hcall : forall c, (s.call c).stage = CallStage.queued ->
      s'.call c = s.call c)
    (hresolved : forall c, (s'.call c).stage = CallStage.resolved ->
      (s'.call c).handle ≠ none) :
    Queues s' := by
  constructor
  · intro k
    rw [hpending]
    exact (h.pending k).congr hcall
  · intro k
    rw [hdrainer]
    exact (h.batch k).congr hcall
  · intro d
    rw [hdeletion]
    exact (h.leftover d).congr hcall
  · exact hresolved

theorem Queues.update (h : Queues s) (hpending : s'.pending = s.pending)
    (hdrainer : s'.drainer = s.drainer) (hdeletion : s'.deletion = s.deletion)
    (hcall : s'.call = s.call) :
    Queues s' := by
  apply h.congr hpending hdrainer hdeletion
  · intro c _
    rw [hcall]
  · rw [hcall]
    exact h.resolved

theorem Queues.addCall (hnumbered : Numbered s) (h : Queues s) {c : Call}
    (hresolved : c.stage = CallStage.resolved -> c.handle ≠ none) :
    Queues (s.addCall c) := by
  have hnew := hnumbered.call s.callCount (Nat.le_refl _)
  have hold := h.resolved
  refine h.congr rfl rfl rfl ?_ ?_ <;> simp only [Lane.addCall] <;> grind

theorem queueWork_queues (h : Queues s) {work : Pending} (hwork : work.Sound s.call) :
    Queues (s.queueWork work) := by
  rcases h with ⟨hpending, hbatch, hleftover, hresolved⟩
  unfold Lane.queueWork
  split
  · next k hk =>
      refine ⟨?_, hbatch, hleftover, hresolved⟩
      intro j
      by_cases hj : j = k
      · subst hj
        simpa using (hpending j).merge hwork
      · simpa [hj] using hpending j
  · refine ⟨?_, ?_, hleftover, hresolved⟩
    · intro j
      by_cases hj : j = s.slotCount
      · subst hj
        simpa using (Pending.sound_empty s.call).merge hwork
      · simpa [hj] using hpending j
    · intro j
      by_cases hj : j = s.slotCount
      · subst hj
        simp only [Function.update_self]
        exact Pending.sound_empty s.call
      · simpa [hj] using hbatch j

theorem Queues.setDrainer {k : SlotId} {x : Drainer} (h : Queues s)
    (hdrainer : s'.drainer = Function.update s.drainer k x)
    (hpending : s'.pending = s.pending) (hdeletion : s'.deletion = s.deletion)
    (hcall : s'.call = s.call) (hx : x.batch.Sound s.call) :
    Queues s' := by
  constructor
  · rw [hpending, hcall]
    exact h.pending
  · rw [hdrainer, hcall]
    intro j
    by_cases hj : j = k
    · subst hj
      rwa [Function.update_self]
    · rw [Function.update_of_ne hj]
      exact h.batch j
  · rw [hdeletion, hcall]
    exact h.leftover
  · rw [hcall]
    exact h.resolved

theorem Queues.setDeletion {d : Nat} {x : Deletion} (h : Queues s)
    (hdeletion : s'.deletion = Function.update s.deletion d x)
    (hpending : s'.pending = s.pending) (hdrainer : s'.drainer = s.drainer)
    (hcall : s'.call = s.call) (hx : x.leftover.Sound s.call) :
    Queues s' := by
  constructor
  · rw [hpending, hcall]
    exact h.pending
  · rw [hdrainer, hcall]
    exact h.batch
  · rw [hdeletion, hcall]
    intro j
    by_cases hj : j = d
    · subst hj
      rwa [Function.update_self]
    · rw [Function.update_of_ne hj]
      exact h.leftover j
  · rw [hcall]
    exact h.resolved

theorem Queues.setPending (h : Queues s) (k : SlotId) {p : Pending}
    (hp : p.Sound s.call) :
    Queues (s.setPending k p) := by
  refine ⟨?_, h.batch, h.leftover, h.resolved⟩
  intro j
  by_cases hj : j = k
  · subst hj
    simpa [Lane.setPending] using hp
  · simpa [Lane.setPending, hj] using h.pending j

theorem resolveBatch_batch (s : Lane) (k : SlotId) :
    (s.resolveBatch k).batch = (s.drainer k).batch := by
  unfold Lane.resolveBatch
  grind

theorem drain_queues {k : SlotId} {a : DrainAction} (h : Queues s)
    (hs : s.drain k a = some s') :
    Queues s' := by
  have hbatch := h.batch k
  have hnone := Pending.sound_empty s.call
  cases a with
  | request | begin | finish _ =>
      rcases guarded.mp hs with ⟨_, rfl⟩
      exact h.setDrainer rfl rfl rfl rfl hbatch
  | take =>
      rcases guarded.mp hs with ⟨_, rfl⟩
      refine Queues.setPending ?_ k hnone
      exact h.setDrainer rfl rfl rfl rfl (h.pending k)
  | resolve =>
      rcases guarded.mp hs with ⟨_, rfl⟩
      refine h.setDrainer rfl rfl rfl rfl ?_
      rwa [resolveBatch_batch]
  | release =>
      rcases guarded.mp hs with ⟨_, rfl⟩
      exact h.setDrainer rfl rfl rfl rfl hnone
  | unregister | recheck =>
      rcases guarded.mp hs with ⟨_, rfl⟩
      split <;> exact h.setDrainer rfl rfl rfl rfl hbatch

theorem deletion_queues {d : Nat} {a : DeleteAction} (h : Queues s)
    (hs : s.deletionStep d a = some s') :
    Queues s' := by
  have hleftover := h.leftover d
  have hnone := Pending.sound_empty s.call
  cases a with
  | retire | lookup | begin | finish _ | unregister =>
      rcases guarded.mp hs with ⟨_, rfl⟩
      exact h.setDeletion rfl rfl rfl rfl hleftover
  | request | release =>
      rcases guardedSlot.mp hs with ⟨k, hslot, _, rfl⟩
      exact h.setDeletion rfl rfl rfl rfl hleftover
  | take =>
      rcases guardedSlot.mp hs with ⟨k, hslot, _, rfl⟩
      refine Queues.setPending ?_ k hnone
      exact h.setDeletion rfl rfl rfl rfl (h.pending k)
  | judge =>
      rcases guarded.mp hs with ⟨_, rfl⟩
      split
      · exact h.setDeletion rfl rfl rfl rfl hleftover
      · exact h.setDeletion rfl rfl rfl rfl hnone
  | requeue =>
      rcases guarded.mp hs with ⟨_, rfl⟩
      exact (queueWork_queues h hleftover).setDeletion rfl rfl rfl rfl
        (Pending.sound_empty _)

/-- Slots, writer tasks, deletes and calls are the same. -/
structure SameQueues (s s' : Lane) : Prop where
  registered : s'.registered = s.registered
  slotCount : s'.slotCount = s.slotCount
  pending : s'.pending = s.pending
  drainer : s'.drainer = s.drainer
  deletion : s'.deletion = s.deletion
  call : s'.call = s.call

theorem criticalStep_same {e : Nat} {a : SectionAction}
    (hs : s.criticalStep e a = some s') :
    SameQueues s s' := by
  rcases criticalStep_eq hs with ⟨w, x, rfl, -⟩
  constructor <;> rfl

theorem enqueue_queues (hnumbered : Numbered s) (h : Queues s) (x : Handle)
    (updates : List ContextUpdate) (removed : List Uuid) (waits : Bool) :
    Queues (s.enqueue x updates removed waits) := by
  unfold Lane.enqueue
  rcases s.standing x with _ | ⟨_ | newest⟩ | _
  · exact h.addCall hnumbered (by simp)
  · exact (h.addCall hnumbered (by simp)).update rfl rfl rfl rfl
  · exact h.addCall hnumbered (by simp)
  · exact (h.addCall hnumbered (by simp)).update rfl rfl rfl rfl

theorem queuedCall_work (s : Lane) (c : Nat) :
    (s.queuedCall c).work c = (s.call c).work c := rfl

theorem queue_queues (h : Queues s) {c : Nat}
    (hstage : (s.call c).stage = CallStage.resolved) :
    Queues (s.queue c) := by
  have hhandle := h.resolved c hstage
  have hold := h.resolved
  have hcalls : Queues (s.recordQueued c) := by
    refine h.congr rfl rfl rfl ?_ ?_ <;> simp only [Lane.recordQueued] <;>
      grind [Lane.queuedCall]
  have hwork : ((s.call c).work c).Sound (s.recordQueued c).call := by
    have hsound := Call.work_sound (Function.update s.call c (s.queuedCall c)) c
      (by simp [Lane.queuedCall]) (by simpa [Lane.queuedCall] using hhandle)
    rwa [Function.update_self, queuedCall_work] at hsound
  exact (queueWork_queues hcalls hwork).update rfl rfl rfl rfl

theorem waitQueued_queues (hnumbered : Numbered s) (h : Queues s) (k : SlotId) :
    Queues (s.waitQueued k) := by
  have hcall : Queues (s.addCall s.waitingCall) :=
    h.addCall hnumbered (by simp [Lane.waitingCall])
  refine Queues.update (hcall.setPending k ?_) rfl rfl rfl rfl
  apply (hcall.pending k).wait <;>
    simp [Lane.addCall, Lane.waitingCall, Call.none]

theorem step_queues {a : Action} (hnumbered : Numbered s) (h : Queues s)
    (hs : s.step a = some s') :
    Queues s' := by
  cases a with
  | create | exclusive =>
      cases hs
      exact h.update rfl rfl rfl rfl
  | register x | commit x | drop x | flushForget f =>
      rcases guarded.mp hs with ⟨_, rfl⟩
      exact h.update rfl rfl rfl rfl
  | enqueue x updates removed waits =>
      rcases guarded.mp hs with ⟨_, rfl⟩
      exact enqueue_queues hnumbered h x updates removed waits
  | queue c =>
      rcases guarded.mp hs with ⟨hstage, rfl⟩
      exact queue_queues h hstage
  | waitQueued =>
      rcases waitQueued_cases hs with ⟨k, _, rfl⟩
      exact waitQueued_queues hnumbered h k
  | flushCollect =>
      rcases Option.map_eq_some_iff.mp hs with ⟨x, _, rfl⟩
      exact h.update rfl rfl rfl rfl
  | drain k a => exact drain_queues h hs
  | delete live =>
      rcases guarded.mp hs with ⟨_, rfl⟩
      exact h.setDeletion rfl rfl rfl rfl (Pending.sound_empty _)
  | deletion d a => exact deletion_queues h hs
  | critical e a =>
      have hsame := criticalStep_same hs
      exact h.update hsame.pending hsame.drainer hsame.deletion hsame.call

theorem queues {allowed : Lane -> Action -> Prop} (h : lane.Reachable allowed s) :
    Queues s :=
  h.invariant_of (P := Queues) (fun _ h => numbered h) queues_empty
    (fun _ _ _ hnumbered hqueues _ hs => step_queues hnumbered hqueues hs)

end Persister
end PostCortex
