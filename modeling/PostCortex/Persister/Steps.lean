import PostCortex.Persister.Lane

/-!
# The persister's step relation

One action for each atomic step of the source: a map or queue operation under
its lock, the start and the end of a storage call.  `enqueue` is two steps,
since `standing` and `queue` lock different maps; so is every look-up of a slot
followed by a request for its lock.  The outcome of a storage call is part of
the action that ends it.

`flush_all` and `wait_idle` are clients: they call `enqueue` on the handle they
read from `failed` and queue waiters with `wait_queued`.  Only `flush_all`'s
removal of a failed entry whose handle is gone needs actions of its own.
-/

namespace PostCortex
namespace Persister

open PostCortex.Core
open Transition

inductive DrainAction where
  | request
  | take
  | resolve
  | begin
  | finish (ok : Bool)
  | release
  | unregister
  | recheck
  deriving DecidableEq, Repr

inductive DeleteAction where
  | retire
  | lookup
  | request
  | begin
  | finish (ok : Bool)
  | unregister
  | take
  | judge
  | requeue
  | release
  deriving DecidableEq, Repr

inductive SectionAction where
  | request
  | begin
  | finish
  deriving DecidableEq, Repr

inductive Action where
  | create
  | register (h : Handle)
  | commit (h : Handle)
  | drop (h : Handle)
  | enqueue (h : Handle) (updates : List ContextUpdate) (removed : List Uuid)
      (waits : Bool)
  | queue (c : Nat)
  | waitQueued
  | flushCollect
  | flushForget (f : Nat)
  | drain (k : SlotId) (a : DrainAction)
  | delete (live : Option Handle)
  | deletion (d : Nat) (a : DeleteAction)
  | exclusive
  | critical (e : Nat) (a : SectionAction)
  deriving DecidableEq, Repr

namespace Lane

/-!
# Handles
-/

def create (s : Lane) : Lane :=
  { s with
    handleCount := s.handleCount + 1
    alive := Function.update s.alive s.handleCount true
    version := Function.update s.version s.handleCount 0
    incarnation := Function.update s.incarnation s.handleCount none }

def register (s : Lane) (h : Handle) : Lane :=
  { s with
    lineage :=
      { s.lineage.prune s.alive with
        members := (s.lineage.prune s.alive).members ++ [(h, s.lineage.next)]
        next := s.lineage.next + 1 }
    incarnation := Function.update s.incarnation h (some s.deletes)
    since := Function.update s.since h s.queuedCount }

/-!
# Calls of `enqueue` and `wait_queued`
-/

def addCall (s : Lane) (c : Call) : Lane :=
  { s with
    callCount := s.callCount + 1
    call := Function.update s.call s.callCount c }

def enqueue (s : Lane) (h : Handle) (updates : List ContextUpdate)
    (removed : List Uuid) (waits : Bool) : Lane :=
  let c :=
    { Call.none with
      handle := some h
      updates := updates
      removed := removed
      waits := waits }
  let refuse (outcome : Outcome) :=
    (s.addCall { c with stage := CallStage.refused }).emit
      (tell (if waits then [s.callCount] else []) outcome)
  match s.standing h with
  | Standing.current =>
      s.addCall { c with stage := CallStage.resolved, source := h }
  | Standing.superseded (some newest) =>
      s.addCall { c with stage := CallStage.resolved, source := newest }
  | Standing.superseded none => refuse Outcome.superseded
  | Standing.deleted => refuse Outcome.deleted

def queuedCall (s : Lane) (c : Nat) : Call :=
  { s.call c with
    stage := CallStage.queued
    version :=
      match (s.call c).handle with
      | some h => s.version h
      | none => 0
    order := s.queuedCount }

def recordQueued (s : Lane) (c : Nat) : Lane :=
  { s with
    call := Function.update s.call c (s.queuedCall c)
    queuedCount := s.queuedCount + 1 }

def queue (s : Lane) (c : Nat) : Lane :=
  ((s.recordQueued c).queueWork ((s.call c).work c)).emit [Event.queued c]

def waitingCall (s : Lane) : Call :=
  { Call.none with
    stage := CallStage.queued
    waits := true
    order := s.queuedCount }

def waitQueued (s : Lane) (k : SlotId) : Lane :=
  { (s.addCall s.waitingCall).setPending k
      { s.pending k with
        waiters := (s.pending k).waiters ++ [s.callCount]
        requests := (s.pending k).requests ++ [s.callCount] } with
    queuedCount := s.queuedCount + 1 }

/-- `flush_all` reads the failed entry. -/
def flushCollect (s : Lane) (h : Handle) : Lane :=
  { s with
    flushCount := s.flushCount + 1
    flush := Function.update s.flush s.flushCount h }

/-!
# The writer task
-/

/-- `write_batch` up to its choice of the handle to write. -/
def resolveBatch (s : Lane) (k : SlotId) : Drainer :=
  let x := s.drainer k
  let skip (outcome : Outcome) :=
    { x with stage := DrainStage.finished, outcome := outcome }
  let use (h : Handle) := { x with stage := DrainStage.ready, handle := h }
  match x.batch.source, x.registered with
  | none, true => skip (s.lastResult k)
  | some h, true =>
      match s.standing h with
      | Standing.current => use h
      | Standing.superseded (some newest) => use newest
      | Standing.superseded none => skip Outcome.superseded
      | Standing.deleted => skip Outcome.deleted
  | _, false => skip Outcome.deleted

def writeOf (x : Drainer) (version : Nat) : Write where
  handle := x.handle
  version := version
  updates := x.batch.updates
  removed := x.batch.removed
  requests := x.batch.requests

def finishWrite (s : Lane) (k : SlotId) (ok : Bool) : Lane :=
  let x := s.drainer k
  let outcome := if ok then Outcome.ok else Outcome.failed
  ({ s with
      failed := if ok then none else some x.handle
      lastResult := Function.update s.lastResult k outcome
      drainer := Function.update s.drainer k
        { x with stage := DrainStage.finished, outcome := outcome } }).emit
    [Event.wrote (writeOf x x.version) ok]

def drain (s : Lane) (k : SlotId) : DrainAction -> Option Lane
  | DrainAction.request =>
      if (s.drainer k).stage = DrainStage.start then
        some ((s.setDrainer k
          { s.drainer k with stage := DrainStage.queued }).setLock k
            (s.writeLock k ++ [Party.drainer]))
      else none
  | DrainAction.take =>
      if (s.drainer k).stage = DrainStage.queued ∧
          (s.writeLock k).head? = some Party.drainer then
        some ((s.setDrainer k
          { s.drainer k with
            stage := DrainStage.taken
            batch := s.pending k
            registered := decide (s.registered = some k) }).setPending k
              Pending.empty)
      else none
  | DrainAction.resolve =>
      if (s.drainer k).stage = DrainStage.taken then
        some (s.setDrainer k (s.resolveBatch k))
      else none
  | DrainAction.begin =>
      if (s.drainer k).stage = DrainStage.ready then
        some ((s.setDrainer k
          { s.drainer k with
            stage := DrainStage.writing
            version := s.version (s.drainer k).handle }).emit
              [Event.writeStarted
                (writeOf (s.drainer k) (s.version (s.drainer k).handle))])
      else none
  | DrainAction.finish ok =>
      if (s.drainer k).stage = DrainStage.writing then
        some (s.finishWrite k ok)
      else none
  | DrainAction.release =>
      if (s.drainer k).stage = DrainStage.finished then
        some (((s.setDrainer k
          { s.drainer k with
            stage := DrainStage.released
            batch := Pending.empty }).setLock k
              (s.writeLock k).tail).emit
                (tell (s.drainer k).batch.waiters (s.drainer k).outcome))
      else none
  | DrainAction.unregister =>
      if (s.drainer k).stage = DrainStage.released then
        some (if s.registered = some k ∧ (s.pending k).IsEmpty then
          { s.setDrainer k
            { s.drainer k with stage := DrainStage.exited } with
            registered := none }
        else
          s.setDrainer k { s.drainer k with stage := DrainStage.kept })
      else none
  | DrainAction.recheck =>
      if (s.drainer k).stage = DrainStage.kept then
        some (if s.registered ≠ some k ∧ (s.pending k).IsEmpty then
          s.setDrainer k { s.drainer k with stage := DrainStage.exited }
        else
          s.setDrainer k { s.drainer k with stage := DrainStage.start })
      else none

/-!
# Deletes

A delete or an exclusive section that found no slot runs without a lock.
-/

def Granted (s : Lane) (p : Party) : Option SlotId -> Prop
  | some k => (s.writeLock k).head? = some p
  | none => True

instance (s : Lane) (p : Party) (slot : Option SlotId) :
    Decidable (s.Granted p slot) := by
  cases slot <;> unfold Granted <;> infer_instance

def unlock (s : Lane) : Option SlotId -> Lane
  | some k => s.setLock k (s.writeLock k).tail
  | none => s

end Lane

/-- The stage from which `sink.delete` starts. -/
def DeleteStage.entry : Option SlotId -> DeleteStage
  | some _ => waiting
  | none => seen

/-- The stage `sink.delete` leads to. -/
def DeleteStage.afterErase : Option SlotId -> DeleteStage
  | some _ => deleted
  | none => done

def SectionStage.entry : Option SlotId -> SectionStage
  | some _ => waiting
  | none => seen

namespace Lane

def delete (s : Lane) (live : Option Handle) : Lane :=
  let retained := s.tombstones.filter s.alive
  { s with
    tombstones :=
      match live with
      | none => s.tombstones
      | some h => if h ∈ retained then retained else retained ++ [h]
    deleteCount := s.deleteCount + 1
    deletion := Function.update s.deletion s.deleteCount
      { Deletion.none with stage := DeleteStage.marked, live := live } }

/-- The leftover of a delete belongs to a session re-created meanwhile. -/
def Keeps (s : Lane) (leftover : Pending) : Prop :=
  match leftover.source with
  | some h => s.standing h ≠ Standing.deleted
  | none => False

instance (s : Lane) (leftover : Pending) : Decidable (s.Keeps leftover) := by
  unfold Keeps
  split <;> infer_instance

/-- The steps of the `d`-th `delete` after its tombstone. -/
def deletionStep (s : Lane) (d : Nat) : DeleteAction -> Option Lane
  | DeleteAction.retire =>
      if (s.deletion d).stage = DeleteStage.marked then
        some { s.setDeletion d
          { s.deletion d with
            stage := DeleteStage.retired
            below := s.deletes + 1 } with
          lineage :=
            { s.lineage.prune s.alive with deletedBelow := s.lineage.next }
          deletes := s.deletes + 1 }
      else none
  | DeleteAction.lookup =>
      if (s.deletion d).stage = DeleteStage.retired then
        some { s.setDeletion d
          { s.deletion d with
            stage := DeleteStage.seen
            slot := s.registered } with
          failed := none }
      else none
  | DeleteAction.request =>
      (s.deletion d).slot.bind fun k =>
        if (s.deletion d).stage = DeleteStage.seen then
          some ((s.setDeletion d
            { s.deletion d with stage := DeleteStage.waiting }).setLock k
              (s.writeLock k ++ [Party.deletion d]))
        else none
  | DeleteAction.begin =>
      if (s.deletion d).stage = DeleteStage.entry (s.deletion d).slot ∧
          s.Granted (Party.deletion d) (s.deletion d).slot then
        some (s.setDeletion d
          { s.deletion d with stage := DeleteStage.deleting })
      else none
  | DeleteAction.finish ok =>
      if (s.deletion d).stage = DeleteStage.deleting then
        some ((s.setDeletion d
          { s.deletion d with
            stage := DeleteStage.afterErase (s.deletion d).slot }).emit
                [Event.erased (s.deletion d).below ok])
      else none
  | DeleteAction.unregister =>
      if (s.deletion d).stage = DeleteStage.deleted then
        some { s.setDeletion d
          { s.deletion d with stage := DeleteStage.cleared } with
          registered :=
            if s.registered = (s.deletion d).slot then none else s.registered }
      else none
  | DeleteAction.take =>
      (s.deletion d).slot.bind fun k =>
        if (s.deletion d).stage = DeleteStage.cleared then
          some ((s.setDeletion d
            { s.deletion d with
              stage := DeleteStage.holding
              leftover := s.pending k }).setPending k Pending.empty)
        else none
  | DeleteAction.judge =>
      if (s.deletion d).stage = DeleteStage.holding then
        some (if s.Keeps (s.deletion d).leftover then
          s.setDeletion d
            { s.deletion d with stage := DeleteStage.requeueing }
        else
          (s.setDeletion d
            { s.deletion d with
              stage := DeleteStage.finishing
              leftover := Pending.empty }).emit
                (tell (s.deletion d).leftover.waiters Outcome.deleted))
      else none
  | DeleteAction.requeue =>
      if (s.deletion d).stage = DeleteStage.requeueing then
        some ((s.queueWork (s.deletion d).leftover).setDeletion d
          { s.deletion d with
            stage := DeleteStage.finishing
            leftover := Pending.empty })
      else none
  | DeleteAction.release =>
      (s.deletion d).slot.bind fun k =>
        if (s.deletion d).stage = DeleteStage.finishing then
          some ((s.setDeletion d
            { s.deletion d with stage := DeleteStage.done }).setLock k
              (s.writeLock k).tail)
        else none

/-!
# Exclusive sections
-/

def exclusive (s : Lane) : Lane :=
  { s with
    sectionCount := s.sectionCount + 1
    critical := Function.update s.critical s.sectionCount
      { Section.none with
        stage := SectionStage.seen
        slot := s.registered
        since := s.queuedCount } }

/-- The steps of the `e`-th call of `exclusive` after its look-up. -/
def criticalStep (s : Lane) (e : Nat) : SectionAction -> Option Lane
  | SectionAction.request =>
      (s.critical e).slot.bind fun k =>
        if (s.critical e).stage = SectionStage.seen then
          some ((s.setCritical e
            { s.critical e with stage := SectionStage.waiting }).setLock k
              (s.writeLock k ++ [Party.exclusive e]))
        else none
  | SectionAction.begin =>
      if (s.critical e).stage = SectionStage.entry (s.critical e).slot ∧
          s.Granted (Party.exclusive e) (s.critical e).slot then
        some (s.setCritical e
          { s.critical e with stage := SectionStage.running })
      else none
  | SectionAction.finish =>
      if (s.critical e).stage = SectionStage.running then
        some ((s.setCritical e
          { s.critical e with stage := SectionStage.done }).unlock
            (s.critical e).slot)
      else none

def step (s : Lane) : Action -> Option Lane
  | Action.create => some s.create
  | Action.register h =>
      if s.alive h = true ∧ s.incarnation h = none then some (s.register h)
      else none
  | Action.commit h =>
      if s.alive h = true then
        some { s with version := Function.update s.version h (s.version h + 1) }
      else none
  | Action.drop h =>
      if s.alive h = true ∧ ¬ s.Referenced h then
        some { s with alive := Function.update s.alive h false }
      else none
  | Action.enqueue h updates removed waits =>
      if s.alive h = true then some (s.enqueue h updates removed waits)
      else none
  | Action.queue c =>
      if (s.call c).stage = CallStage.resolved then some (s.queue c)
      else none
  | Action.waitQueued =>
      match s.registered with
      | some k => some (s.waitQueued k)
      | none => none
  | Action.flushCollect => s.failed.map s.flushCollect
  | Action.flushForget f =>
      if f < s.flushCount ∧ s.alive (s.flush f) = false then
        some { s with failed := none }
      else none
  | Action.drain k a => s.drain k a
  | Action.delete live =>
      if (match live with
          | some h => s.alive h
          | none => true) = true then some (s.delete live)
      else none
  | Action.deletion d a => s.deletionStep d a
  | Action.exclusive => some s.exclusive
  | Action.critical e a => s.criticalStep e a

end Lane

def lane : System Lane Action where
  init := Lane.empty
  step := Lane.step

def persister : System (Uuid -> Lane) (Uuid × Action) :=
  lane.family Uuid

end Persister
end PostCortex
