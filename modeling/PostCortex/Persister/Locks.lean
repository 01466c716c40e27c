import PostCortex.Persister.Steps

/-!
# Slots, locks and registration

What holds in every run of a lane without any condition: the owner of a write
lock is the task that is inside its critical part, a writer task that chose to
write works on the registered slot, and a slot with queued work has a writer
task that will still take it.
-/

namespace PostCortex
namespace Persister

open PostCortex.Core
open Transition

variable {s s' : Lane}

theorem guarded {p : Prop} [Decidable p] :
    (if p then some s else none) = some s' ↔ p ∧ s = s' := by
  simp

theorem guardedSlot {slot : Option SlotId} {p : Prop} [Decidable p]
    {f : SlotId -> Lane} :
    (slot.bind fun k => if p then some (f k) else none) = some s' ↔
      exists k, slot = some k ∧ p ∧ f k = s' := by
  simp only [Option.bind_eq_some_iff, guarded]

theorem Lane.enqueue_eq (s : Lane) (h : Handle) (updates : List ContextUpdate)
    (removed : List Uuid) (waits : Bool) :
    exists c events,
      s.enqueue h updates removed waits = (s.addCall c).emit events := by
  unfold Lane.enqueue
  rcases s.standing h with _ | ⟨_ | newest⟩ | _
  · exact ⟨_, [], rfl⟩
  · exact ⟨_, _, rfl⟩
  · exact ⟨_, [], rfl⟩
  · exact ⟨_, _, rfl⟩

theorem waitQueued_cases (hs : s.step Action.waitQueued = some s') :
    exists k, s.registered = some k ∧ s.waitQueued k = s' := by
  simp only [Lane.step] at hs
  split at hs
  · next k hk =>
      exact ⟨k, hk, Option.some.inj hs⟩
  · cases hs

structure SameTasks (s s' : Lane) : Prop where
  registered : s'.registered = s.registered
  slotCount : s'.slotCount = s.slotCount
  writeLock : s'.writeLock = s.writeLock
  pending : s'.pending = s.pending
  lastResult : s'.lastResult = s.lastResult
  drainer : s'.drainer = s.drainer
  deletion : s'.deletion = s.deletion
  critical : s'.critical = s.critical

/-- The actions on handles, and `enqueue` before it queues. -/
def Action.OnHandles : Action -> Prop
  | Action.create => True
  | Action.register _ => True
  | Action.commit _ => True
  | Action.drop _ => True
  | Action.enqueue .. => True
  | Action.flushCollect => True
  | Action.flushForget _ => True
  | _ => False

variable {a : Action}

theorem step_sameTasks (hs : s.step a = some s') (ha : a.OnHandles) :
    SameTasks s s' := by
  cases a with
  | create =>
      cases hs
      constructor <;> rfl
  | register x | commit x | drop x | flushForget f =>
      rcases guarded.mp hs with ⟨_, rfl⟩
      constructor <;> rfl
  | enqueue x updates removed waits =>
      rcases guarded.mp hs with ⟨_, rfl⟩
      rcases s.enqueue_eq x updates removed waits with ⟨c, events, heq⟩
      rw [heq]
      constructor <;> rfl
  | flushCollect =>
      rcases Option.map_eq_some_iff.mp hs with ⟨x, _, rfl⟩
      constructor <;> rfl
  | queue _ | waitQueued | drain _ _ | delete _ | deletion _ _ | exclusive
  | critical _ _ =>
      cases ha

namespace DrainStage

def Owns (x : DrainStage) : Prop :=
  x = taken ∨ x = ready ∨ x = writing ∨ x = finished

def Carries (x : DrainStage) : Prop :=
  x = taken ∨ x = ready ∨ x = writing

end DrainStage

namespace DeleteStage

def Owns (x : DeleteStage) : Prop :=
  x = deleting ∨ x = deleted ∨ x = cleared ∨ x = holding ∨ x = requeueing ∨
    x = finishing

def Cleared (x : DeleteStage) : Prop :=
  x = cleared ∨ x = holding ∨ x = requeueing ∨ x = finishing

end DeleteStage

/-!
# Lock ownership
-/

structure Locks (s : Lane) : Prop where
  drainerOwns : forall k, (s.drainer k).stage.Owns ->
    (s.writeLock k).head? = some Party.drainer
  deletionOwns : forall d k, (s.deletion d).stage.Owns ->
    (s.deletion d).slot = some k ->
    (s.writeLock k).head? = some (Party.deletion d)
  criticalOwns : forall e k, (s.critical e).stage = SectionStage.running ->
    (s.critical e).slot = some k ->
    (s.writeLock k).head? = some (Party.exclusive e)
  registeredLt : forall k, s.registered = some k -> k < s.slotCount
  deletionLt : forall d k, (s.deletion d).slot = some k -> k < s.slotCount
  criticalLt : forall e k, (s.critical e).slot = some k -> k < s.slotCount

theorem locks_empty : Locks Lane.empty := by
  constructor <;>
    simp [Lane.empty, Drainer.none, Deletion.none, Section.none,
      DrainStage.Owns, DeleteStage.Owns]

theorem Lane.queueWork_eq (s : Lane) (work : Pending) :
    exists registered slotCount writeLock pending lastResult drainer,
      s.queueWork work =
        { s with
          registered := registered
          slotCount := slotCount
          writeLock := writeLock
          pending := pending
          lastResult := lastResult
          drainer := drainer } := by
  unfold Lane.queueWork
  split <;> exact ⟨_, _, _, _, _, _, rfl⟩

theorem queue_eq (s : Lane) (c : Nat) :
    exists registered slotCount writeLock pending lastResult drainer trace,
      s.queue c =
        { s.recordQueued c with
          registered := registered
          slotCount := slotCount
          writeLock := writeLock
          pending := pending
          lastResult := lastResult
          drainer := drainer
          trace := trace } := by
  rcases (s.recordQueued c).queueWork_eq ((s.call c).work c) with
    ⟨r, n, w, p, l, x, heq⟩
  unfold Lane.queue
  rw [heq]
  exact ⟨_, _, _, _, _, _, _, rfl⟩

theorem queueWork_new (s : Lane) (work : Pending) (k : SlotId) :
    (s.queueWork work).drainer k = s.drainer k ∨
      (k = s.slotCount ∧ (s.queueWork work).drainer k = Drainer.spawned) := by
  unfold Lane.queueWork
  split
  · exact Or.inl rfl
  · by_cases hk : k = s.slotCount
    · exact Or.inr ⟨hk, by simp [hk]⟩
    · exact Or.inl (Function.update_of_ne hk ..)

theorem drain_eq {k : SlotId} {a : DrainAction} (hs : s.drain k a = some s') :
    exists failed registered writeLock pending lastResult x trace,
      s' =
        { s with
          failed := failed
          registered := registered
          writeLock := writeLock
          pending := pending
          lastResult := lastResult
          drainer := Function.update s.drainer k x
          trace := trace } := by
  cases a with
  | request | take | resolve | begin | finish _ | release =>
      rcases guarded.mp hs with ⟨_, rfl⟩
      exact ⟨_, _, _, _, _, _, _, rfl⟩
  | unregister | recheck =>
      rcases guarded.mp hs with ⟨_, rfl⟩
      split <;> exact ⟨_, _, _, _, _, _, _, rfl⟩

def DeleteAction.origin (slot : Option SlotId) : DeleteAction -> DeleteStage
  | DeleteAction.retire => DeleteStage.marked
  | DeleteAction.lookup => DeleteStage.retired
  | DeleteAction.request => DeleteStage.seen
  | DeleteAction.begin => DeleteStage.entry slot
  | DeleteAction.finish _ => DeleteStage.deleting
  | DeleteAction.unregister => DeleteStage.deleted
  | DeleteAction.take => DeleteStage.cleared
  | DeleteAction.judge => DeleteStage.holding
  | DeleteAction.requeue => DeleteStage.requeueing
  | DeleteAction.release => DeleteStage.finishing

theorem deletion_origin {d : Nat} {a : DeleteAction}
    (hs : s.deletionStep d a = some s') :
    (s.deletion d).stage = a.origin (s.deletion d).slot := by
  cases a with
  | retire | lookup | finish _ | unregister | judge | requeue =>
      exact (guarded.mp hs).1
  | request | take | release =>
      rcases guardedSlot.mp hs with ⟨k, _, hstage, _⟩
      exact hstage
  | begin => exact (guarded.mp hs).1.1

theorem deletionStep_eq {d : Nat} {a : DeleteAction}
    (hs : s.deletionStep d a = some s') :
    exists lineage failed registered slotCount writeLock pending lastResult
      drainer x deletes trace,
      s' =
        { s with
          lineage := lineage
          failed := failed
          registered := registered
          slotCount := slotCount
          writeLock := writeLock
          pending := pending
          lastResult := lastResult
          drainer := drainer
          deletion := Function.update s.deletion d x
          deletes := deletes
          trace := trace } ∧
      forall k, drainer k = s.drainer k ∨
        (k = s.slotCount ∧ drainer k = Drainer.spawned) := by
  cases a with
  | retire | lookup | begin | finish _ | unregister =>
      rcases guarded.mp hs with ⟨_, rfl⟩
      exact ⟨_, _, _, _, _, _, _, _, _, _, _, rfl, fun _ => Or.inl rfl⟩
  | request | take | release =>
      rcases guardedSlot.mp hs with ⟨k, hslot, _, rfl⟩
      exact ⟨_, _, _, _, _, _, _, _, _, _, _, rfl, fun _ => Or.inl rfl⟩
  | judge =>
      rcases guarded.mp hs with ⟨_, rfl⟩
      split <;> exact ⟨_, _, _, _, _, _, _, _, _, _, _, rfl, fun _ => Or.inl rfl⟩
  | requeue =>
      rcases guarded.mp hs with ⟨_, rfl⟩
      have hnew := queueWork_new s (s.deletion d).leftover
      rcases s.queueWork_eq (s.deletion d).leftover with ⟨r, n, w, p, l, x, heq⟩
      rw [heq] at hnew ⊢
      exact ⟨_, _, _, _, _, _, _, _, _, _, _, rfl, hnew⟩

theorem criticalStep_eq {e : Nat} {a : SectionAction}
    (hs : s.criticalStep e a = some s') :
    exists writeLock stage,
      s' =
        { s with
          writeLock := writeLock
          critical :=
            Function.update s.critical e { s.critical e with stage := stage } } ∧
      (s.critical e).stage ≠ SectionStage.unused := by
  cases a with
  | request =>
      rcases guardedSlot.mp hs with ⟨k, hslot, hstage, rfl⟩
      exact ⟨_, _, rfl, by simp [hstage]⟩
  | begin =>
      rcases guarded.mp hs with ⟨⟨hstage, _⟩, rfl⟩
      refine ⟨_, _, rfl, ?_⟩
      rw [hstage]
      cases (s.critical e).slot <;> simp [SectionStage.entry]
  | finish =>
      rcases guarded.mp hs with ⟨hstage, rfl⟩
      cases (s.critical e).slot <;> exact ⟨_, _, rfl, by simp [hstage]⟩

theorem queueWork_deletion (s : Lane) (work : Pending) :
    (s.queueWork work).deletion = s.deletion := by
  rcases s.queueWork_eq work with ⟨r, n, w, p, l, x, heq⟩
  rw [heq]

theorem queue_call (s : Lane) (c : Nat) :
    (s.queue c).call = Function.update s.call c (s.queuedCall c) := by
  rcases queue_eq s c with ⟨r, n, w, p, l, x, t, heq⟩
  rw [heq]
  rfl

theorem queueWork_locks (h : Locks s) (work : Pending) :
    Locks (s.queueWork work) := by
  rcases h with ⟨hdrainer, hdeletion, hcritical, hreg, hdel, hcrit⟩
  unfold Lane.queueWork
  split
  · exact ⟨hdrainer, hdeletion, hcritical, hreg, hdel, hcrit⟩
  · constructor
    · intro k hk
      by_cases hnew : k = s.slotCount
      · subst hnew
        simp [Drainer.spawned, DrainStage.Owns] at hk
      · simp only [Function.update_of_ne hnew] at hk ⊢
        exact hdrainer k hk
    · intro d k hstage hslot
      have hlt := hdel d k hslot
      simp only [Function.update_of_ne (Nat.ne_of_lt hlt)]
      exact hdeletion d k hstage hslot
    · intro e k hstage hslot
      have hlt := hcrit e k hslot
      simp only [Function.update_of_ne (Nat.ne_of_lt hlt)]
      exact hcritical e k hstage hslot
    · intro k hk
      have hk' : s.slotCount = k := by simpa using hk
      simp [← hk']
    · intro d k hslot
      exact Nat.lt_succ_of_lt (hdel d k hslot)
    · intro e k hslot
      exact Nat.lt_succ_of_lt (hcrit e k hslot)

theorem drain_locks {k : SlotId} {a : DrainAction} (h : Locks s)
    (hs : s.drain k a = some s') :
    Locks s' := by
  rcases h with ⟨hdrainer, hdeletion, hcritical, hreg, hdel, hcrit⟩
  cases a with
  | request =>
      rcases guarded.mp hs with ⟨hstage, rfl⟩
      refine ⟨?_, ?_, ?_, hreg, hdel, hcrit⟩ <;>
        simp only [Lane.setDrainer, Lane.setLock] <;>
        grind [DrainStage.Owns]
  | take =>
      rcases guarded.mp hs with ⟨⟨hstage, hhead⟩, rfl⟩
      refine ⟨?_, hdeletion, hcritical, hreg, hdel, hcrit⟩
      simp only [Lane.setDrainer, Lane.setPending]
      grind
  | resolve | begin | finish _ =>
      rcases guarded.mp hs with ⟨hstage, rfl⟩
      refine ⟨?_, hdeletion, hcritical, hreg, hdel, hcrit⟩
      simp only [Lane.setDrainer, Lane.finishWrite, Lane.emit]
      grind [DrainStage.Owns]
  | release =>
      rcases guarded.mp hs with ⟨hstage, rfl⟩
      refine ⟨?_, ?_, ?_, hreg, hdel, hcrit⟩ <;>
        simp only [Lane.setDrainer, Lane.setLock, Lane.emit] <;>
        grind [DrainStage.Owns]
  | unregister =>
      rcases guarded.mp hs with ⟨hstage, rfl⟩
      split
      · refine ⟨?_, hdeletion, hcritical, ?_, hdel, hcrit⟩ <;>
          simp only [Lane.setDrainer] <;>
          grind [DrainStage.Owns]
      · refine ⟨?_, hdeletion, hcritical, hreg, hdel, hcrit⟩
        simp only [Lane.setDrainer]
        grind [DrainStage.Owns]
  | recheck =>
      rcases guarded.mp hs with ⟨hstage, rfl⟩
      split <;>
      · refine ⟨?_, hdeletion, hcritical, hreg, hdel, hcrit⟩
        simp only [Lane.setDrainer]
        grind [DrainStage.Owns]

variable {d : Nat}

theorem deletion_locks {a : DeleteAction} (h : Locks s)
    (hs : s.deletionStep d a = some s') :
    Locks s' := by
  have hlocks := h
  rcases h with ⟨hdrainer, hdeletion, hcritical, hreg, hdel, hcrit⟩
  cases a with
  | retire | lookup | finish _ =>
      rcases guarded.mp hs with ⟨hstage, rfl⟩
      refine ⟨hdrainer, ?_, hcritical, hreg, ?_, hcrit⟩ <;>
        simp only [Lane.setDeletion, Lane.emit] <;>
        grind [DeleteStage.Owns]
  | request | release =>
      rcases guardedSlot.mp hs with ⟨k, hslot, hstage, rfl⟩
      refine ⟨?_, ?_, ?_, hreg, ?_, hcrit⟩ <;>
        simp only [Lane.setDeletion, Lane.setLock] <;>
        grind [DeleteStage.Owns]
  | begin =>
      rcases guarded.mp hs with ⟨⟨hstage, hgranted⟩, rfl⟩
      refine ⟨hdrainer, ?_, hcritical, hreg, ?_, hcrit⟩ <;>
        simp only [Lane.setDeletion] <;>
        grind [Lane.Granted]
  | unregister =>
      rcases guarded.mp hs with ⟨hstage, rfl⟩
      refine ⟨hdrainer, ?_, hcritical, ?_, ?_, hcrit⟩ <;>
        simp only [Lane.setDeletion] <;>
        grind [DeleteStage.Owns]
  | take =>
      rcases guardedSlot.mp hs with ⟨k, hslot, hstage, rfl⟩
      refine ⟨hdrainer, ?_, hcritical, hreg, ?_, hcrit⟩ <;>
        simp only [Lane.setDeletion, Lane.setPending] <;>
        grind [DeleteStage.Owns]
  | judge =>
      rcases guarded.mp hs with ⟨hstage, rfl⟩
      split <;>
      · refine ⟨hdrainer, ?_, hcritical, hreg, ?_, hcrit⟩ <;>
          simp only [Lane.setDeletion, Lane.emit] <;>
          grind [DeleteStage.Owns]
  | requeue =>
      rcases guarded.mp hs with ⟨hstage, rfl⟩
      have hqueue := queueWork_locks hlocks (s.deletion d).leftover
      rcases hqueue with ⟨hdrainer', hdeletion', hcritical', hreg', hdel', hcrit'⟩
      have hsame := queueWork_deletion s (s.deletion d).leftover
      rw [hsame] at hdeletion' hdel'
      refine ⟨hdrainer', ?_, hcritical', hreg', ?_, hcrit'⟩
      · intro d' k howns hslot
        by_cases hd : d' = d
        · subst hd
          simp only [Lane.setDeletion, Function.update_self] at hslot
          exact hdeletion' d' k (by simp [DeleteStage.Owns, hstage]) hslot
        · simp only [Lane.setDeletion, Function.update_of_ne hd, hsame] at howns hslot
          exact hdeletion' d' k howns hslot
      · intro d' k hslot
        by_cases hd : d' = d
        · subst hd
          simp only [Lane.setDeletion, Function.update_self] at hslot
          exact hdel' d' k hslot
        · simp only [Lane.setDeletion, Function.update_of_ne hd, hsame] at hslot
          exact hdel' d' k hslot

variable {e : Nat}

theorem critical_locks {a : SectionAction} (h : Locks s)
    (hs : s.criticalStep e a = some s') :
    Locks s' := by
  rcases h with ⟨hdrainer, hdeletion, hcritical, hreg, hdel, hcrit⟩
  cases a with
  | request =>
      rcases guardedSlot.mp hs with ⟨k, hslot, hstage, rfl⟩
      refine ⟨?_, ?_, ?_, hreg, hdel, ?_⟩ <;>
        simp only [Lane.setCritical, Lane.setLock] <;>
        grind
  | begin =>
      rcases guarded.mp hs with ⟨⟨hstage, hgranted⟩, rfl⟩
      refine ⟨hdrainer, hdeletion, ?_, hreg, hdel, ?_⟩ <;>
        simp only [Lane.setCritical] <;>
        grind [Lane.Granted]
  | finish =>
      rcases guarded.mp hs with ⟨hstage, rfl⟩
      cases hslot : (s.critical e).slot with
      | none =>
          refine ⟨hdrainer, hdeletion, ?_, hreg, hdel, ?_⟩ <;>
            simp only [Lane.setCritical, Lane.unlock] <;>
            grind
      | some k =>
          refine ⟨?_, ?_, ?_, hreg, hdel, ?_⟩ <;>
            simp only [Lane.setCritical, Lane.unlock, Lane.setLock] <;>
            grind

theorem Locks.update (h : Locks s) (hlock : s'.writeLock = s.writeLock)
    (hdrainer : s'.drainer = s.drainer) (hdeletion : s'.deletion = s.deletion)
    (hcritical : s'.critical = s.critical) (hreg : s'.registered = s.registered)
    (hcount : s'.slotCount = s.slotCount) :
    Locks s' := by
  constructor
  · rw [hlock, hdrainer]
    exact h.drainerOwns
  · rw [hlock, hdeletion]
    exact h.deletionOwns
  · rw [hlock, hcritical]
    exact h.criticalOwns
  · rw [hreg, hcount]
    exact h.registeredLt
  · rw [hdeletion, hcount]
    exact h.deletionLt
  · rw [hcritical, hcount]
    exact h.criticalLt

theorem Locks.frame (h : Locks s) (hsame : SameTasks s s') :
    Locks s' :=
  h.update hsame.writeLock hsame.drainer hsame.deletion hsame.critical
    hsame.registered hsame.slotCount

theorem step_locks (h : Locks s) (hs : s.step a = some s') :
    Locks s' := by
  cases a with
  | create | register x | commit x | drop x | enqueue x updates removed waits
  | flushCollect | flushForget f =>
      exact h.frame (step_sameTasks hs True.intro)
  | queue c =>
      rcases guarded.mp hs with ⟨_, rfl⟩
      have hcalls : Locks (s.recordQueued c) := h.update rfl rfl rfl rfl rfl rfl
      exact (queueWork_locks hcalls _).update rfl rfl rfl rfl rfl rfl
  | waitQueued =>
      rcases waitQueued_cases hs with ⟨k, _, rfl⟩
      exact h.update rfl rfl rfl rfl rfl rfl
  | drain k a =>
      exact drain_locks h hs
  | delete live =>
      rcases guarded.mp hs with ⟨_, rfl⟩
      have howns := h.deletionOwns
      have hlt := h.deletionLt
      refine ⟨h.drainerOwns, ?_, h.criticalOwns, h.registeredLt, ?_, h.criticalLt⟩ <;>
        simp only [Lane.delete] <;>
        grind [DeleteStage.Owns, Deletion.none]
  | deletion d a =>
      exact deletion_locks h hs
  | exclusive =>
      cases hs
      have howns := h.criticalOwns
      have hlt := h.criticalLt
      have hreg := h.registeredLt
      refine ⟨h.drainerOwns, h.deletionOwns, ?_, h.registeredLt, h.deletionLt, ?_⟩ <;>
        simp only [Lane.exclusive] <;>
        grind [Section.none]
  | critical e a =>
      exact critical_locks h hs

variable {allowed : Lane -> Action -> Prop}

theorem locks (h : lane.Reachable allowed s) :
    Locks s :=
  h.invariant (P := Locks) locks_empty
    (fun _ _ _ hlocks _ hs => step_locks hlocks hs)

/-!
# Numbers in use
-/

/-- Handles, calls and tasks beyond the counters are untouched. -/
structure Numbered (s : Lane) : Prop where
  handle : forall h, s.handleCount ≤ h ->
    s.alive h = false ∧ s.incarnation h = none
  call : forall c, s.callCount ≤ c -> (s.call c).stage = CallStage.unused
  deletion : forall d, s.deleteCount ≤ d ->
    (s.deletion d).stage = DeleteStage.unused
  critical : forall e, s.sectionCount ≤ e ->
    (s.critical e).stage = SectionStage.unused

theorem numbered_empty : Numbered Lane.empty := by
  constructor <;>
    simp [Lane.empty, Call.none, Deletion.none, Section.none]

theorem Numbered.addCall (h : Numbered s) (c : Call) :
    Numbered (s.addCall c) := by
  rcases h with ⟨h1, h2, h3, h4⟩
  constructor <;> simp only [Lane.addCall] <;> grind

theorem Numbered.update (h : Numbered s) (hcount : s'.handleCount = s.handleCount)
    (halive : s'.alive = s.alive) (hincarnation : s'.incarnation = s.incarnation)
    (hcalls : s'.callCount = s.callCount) (hcall : s'.call = s.call)
    (hdeletes : s'.deleteCount = s.deleteCount)
    (hdeletion : s'.deletion = s.deletion)
    (hsections : s'.sectionCount = s.sectionCount)
    (hcritical : s'.critical = s.critical) :
    Numbered s' := by
  rcases h with ⟨h1, h2, h3, h4⟩
  constructor <;>
    simp only [hcount, halive, hincarnation, hcalls, hcall, hdeletes, hdeletion,
      hsections, hcritical] <;>
    assumption

theorem queueWork_numbered (h : Numbered s) (work : Pending) :
    Numbered (s.queueWork work) := by
  unfold Lane.queueWork
  split <;> exact h.update rfl rfl rfl rfl rfl rfl rfl rfl rfl

theorem Numbered.setDeletion (h : Numbered s)
    (hd : (s.deletion d).stage ≠ DeleteStage.unused) (x : Deletion) :
    Numbered (s.setDeletion d x) := by
  rcases h with ⟨h1, h2, h3, h4⟩
  constructor <;> simp only [Lane.setDeletion] <;> grind

theorem Numbered.setCritical (h : Numbered s)
    (he : (s.critical e).stage ≠ SectionStage.unused) (x : Section) :
    Numbered (s.setCritical e x) := by
  rcases h with ⟨h1, h2, h3, h4⟩
  constructor <;> simp only [Lane.setCritical] <;> grind

theorem drain_numbered {k : SlotId} {a : DrainAction} (h : Numbered s)
    (hs : s.drain k a = some s') :
    Numbered s' := by
  rcases drain_eq hs with ⟨f, r, w, p, l, x, t, rfl⟩
  exact h.update rfl rfl rfl rfl rfl rfl rfl rfl rfl

theorem deletion_numbered {a : DeleteAction} (h : Numbered s)
    (hs : s.deletionStep d a = some s') :
    Numbered s' := by
  have hd : (s.deletion d).stage ≠ DeleteStage.unused := by
    rw [deletion_origin hs]
    cases a <;> cases (s.deletion d).slot <;> rintro ⟨⟩
  rcases deletionStep_eq hs with ⟨i, f, r, n, w, p, l, y, x, m, t, rfl, -⟩
  exact (h.setDeletion hd x).update rfl rfl rfl rfl rfl rfl rfl rfl rfl

theorem critical_numbered {a : SectionAction} (h : Numbered s)
    (hs : s.criticalStep e a = some s') :
    Numbered s' := by
  rcases criticalStep_eq hs with ⟨w, x, rfl, he⟩
  exact (h.setCritical he _).update rfl rfl rfl rfl rfl rfl rfl rfl rfl

theorem step_numbered (h : Numbered s) (hs : s.step a = some s') :
    Numbered s' := by
  cases a with
  | create =>
      cases hs
      rcases h with ⟨h1, h2, h3, h4⟩
      constructor <;> simp only [Lane.create] <;> grind
  | register x =>
      rcases guarded.mp hs with ⟨⟨halive, hnew⟩, rfl⟩
      rcases h with ⟨h1, h2, h3, h4⟩
      constructor <;> simp only [Lane.register] <;> grind
  | commit x | flushForget f =>
      rcases guarded.mp hs with ⟨_, rfl⟩
      exact h.update rfl rfl rfl rfl rfl rfl rfl rfl rfl
  | drop x =>
      rcases guarded.mp hs with ⟨_, rfl⟩
      rcases h with ⟨h1, h2, h3, h4⟩
      constructor <;> grind
  | enqueue x updates removed waits =>
      rcases guarded.mp hs with ⟨_, rfl⟩
      rcases s.enqueue_eq x updates removed waits with ⟨c, events, heq⟩
      rw [heq]
      exact (h.addCall c).update rfl rfl rfl rfl rfl rfl rfl rfl rfl
  | queue c =>
      rcases guarded.mp hs with ⟨hstage, rfl⟩
      have hcalls : Numbered (s.recordQueued c) := by
        rcases h with ⟨h1, h2, h3, h4⟩
        constructor <;> simp only [Lane.recordQueued] <;> grind
      exact (queueWork_numbered hcalls _).update
        rfl rfl rfl rfl rfl rfl rfl rfl rfl
  | waitQueued =>
      rcases waitQueued_cases hs with ⟨k, hreg, rfl⟩
      exact (h.addCall _).update rfl rfl rfl rfl rfl rfl rfl rfl rfl
  | flushCollect =>
      rcases Option.map_eq_some_iff.mp hs with ⟨x, _, rfl⟩
      exact h.update rfl rfl rfl rfl rfl rfl rfl rfl rfl
  | drain k a => exact drain_numbered h hs
  | delete live =>
      rcases guarded.mp hs with ⟨_, rfl⟩
      rcases h with ⟨h1, h2, h3, h4⟩
      constructor <;> simp only [Lane.delete] <;> grind
  | deletion d a => exact deletion_numbered h hs
  | exclusive =>
      cases hs
      rcases h with ⟨h1, h2, h3, h4⟩
      constructor <;> simp only [Lane.exclusive] <;> grind
  | critical e a => exact critical_numbered h hs

theorem numbered (h : lane.Reachable allowed s) :
    Numbered s :=
  h.invariant (P := Numbered) numbered_empty
    (fun _ _ _ hnumbered _ hs => step_numbered hnumbered hs)

end Persister
end PostCortex
