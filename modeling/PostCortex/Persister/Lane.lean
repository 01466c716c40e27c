import Mathlib.Data.List.MinMax
import PostCortex.Core.ContextUpdate
import PostCortex.Transition.System

/-!
# One session's lane of the persister

`SessionPersister` (`memory_system/persister.rs`) keeps four maps keyed by
session id.  No operation on one session reads another session's entries, so a
lane is the persister read at one id: the entry of `slots` (`registered`),
of `lineages`, of `tombstones` and of `failed`, together with the slots ever
allocated for the id and the tasks working on it.  The whole persister is the
family of lanes, one per session id.

Slots are numbered in allocation order; the fields of a `Slot` are the three
maps `writeLock`, `pending` and `lastResult`.  A handle is the
identity of an `Arc<ArcSwap<ActiveSession>>` allocation and its version counts
the compare-and-swaps that succeeded on it, so a snapshot is a handle with a
version.  A lock is the queue of the parties that asked for it, the owner
first: `tokio::sync::Mutex` grants the lock in the order of the requests.

Rows and removals carry the number of the call they came in with, and a queue
lists the calls merged into it.  These numbers, the incarnation of a handle
and the trace are history: no step depends on them.
-/

namespace PostCortex
namespace Persister

open PostCortex.Core
open Transition

abbrev Handle := Nat

abbrev SlotId := Nat

/-- `Result<(), String>` of a persist, by the error it can carry. -/
inductive Outcome where
  | ok
  | failed
  | superseded
  | deleted
  deriving DecidableEq, Repr

structure Row where
  call : Nat
  update : ContextUpdate
  deriving DecidableEq, Repr

structure Removal where
  call : Nat
  id : Uuid
  deriving DecidableEq, Repr

structure Pending where
  source : Option Handle
  updates : List Row
  removed : List Removal
  waiters : List Nat
  requests : List Nat
  deriving DecidableEq, Repr

namespace Pending

def empty : Pending where
  source := none
  updates := []
  removed := []
  waiters := []
  requests := []

def IsEmpty (p : Pending) : Prop :=
  p.source = none ∧ p.updates = [] ∧ p.removed = [] ∧ p.waiters = []

instance (p : Pending) : Decidable p.IsEmpty :=
  inferInstanceAs (Decidable (_ ∧ _ ∧ _ ∧ _))

def Cancels (removed : List Removal) (row : Row) : Prop :=
  row.update.id ∈ removed.map Removal.id

instance (removed : List Removal) (row : Row) : Decidable (Cancels removed row) :=
  inferInstanceAs (Decidable (_ ∈ _))

/-- The source merged last wins, rows are concatenated, and a removal cancels a
queued row of the same update. -/
def merge (p work : Pending) : Pending where
  source := work.source <|> p.source
  updates := (p.updates ++ work.updates).filter
    (fun row => decide (¬ Cancels work.removed row))
  removed := p.removed ++ work.removed
  waiters := p.waiters ++ work.waiters
  requests := p.requests ++ work.requests

end Pending

/-- The tasks that lock a slot: its writer task, a delete, an `exclusive`
section. -/
inductive Party where
  | drainer
  | deletion (d : Nat)
  | exclusive (e : Nat)
  deriving DecidableEq, Repr

/-!
# Handle lineage
-/

structure Lineage where
  members : List (Handle × Nat)
  next : Nat
  deletedBelow : Nat
  deriving DecidableEq, Repr

namespace Lineage

def empty : Lineage where
  members := []
  next := 0
  deletedBelow := 0

def prune (alive : Handle -> Bool) (l : Lineage) : Lineage :=
  { l with members := l.members.filter (fun m => alive m.1) }

def generationOf (l : Lineage) (h : Handle) : Option Nat :=
  (l.members.find? (fun m => m.1 == h)).map Prod.snd

def newestAlive (alive : Handle -> Bool) (l : Lineage) : Option (Handle × Nat) :=
  (l.members.filter (fun m => alive m.1)).argmax Prod.snd

end Lineage

inductive Standing where
  | current
  | superseded (newest : Option Handle)
  | deleted
  deriving DecidableEq, Repr

/-!
# Tasks
-/

/-- Where the writer task of a slot stands in `drain`. -/
inductive DrainStage where
  | start
  | queued
  | taken
  | ready
  | writing
  | finished
  | released
  | kept
  | exited
  deriving DecidableEq, Repr

structure Drainer where
  stage : DrainStage
  batch : Pending
  registered : Bool
  handle : Handle
  version : Nat
  outcome : Outcome
  deriving DecidableEq, Repr

def Drainer.none : Drainer where
  stage := DrainStage.exited
  batch := Pending.empty
  registered := false
  handle := 0
  version := 0
  outcome := Outcome.ok

def Drainer.spawned : Drainer :=
  { Drainer.none with stage := DrainStage.start }

/-- Where a call of `enqueue` stands: `resolved` lies between its
`standing` check and `queue`. -/
inductive CallStage where
  | unused
  | resolved
  | queued
  | refused
  deriving DecidableEq, Repr

/-- A call of `enqueue`, or of `wait_queued` when it has no handle. -/
structure Call where
  stage : CallStage
  handle : Option Handle
  updates : List ContextUpdate
  removed : List Uuid
  waits : Bool
  source : Handle
  version : Nat
  order : Nat
  deriving DecidableEq, Repr

def Call.none : Call where
  stage := CallStage.unused
  handle := Option.none
  updates := []
  removed := []
  waits := false
  source := 0
  version := 0
  order := 0

def Call.work (c : Call) (n : Nat) : Pending where
  source := some c.source
  updates := c.updates.map (Row.mk n)
  removed := c.removed.map (Removal.mk n)
  waiters := if c.waits then [n] else []
  requests := [n]

inductive DeleteStage where
  | unused
  | marked
  | retired
  | seen
  | waiting
  | deleting
  | deleted
  | cleared
  | holding
  | requeueing
  | finishing
  | done
  deriving DecidableEq, Repr

structure Deletion where
  stage : DeleteStage
  live : Option Handle
  below : Nat
  slot : Option SlotId
  leftover : Pending
  deriving DecidableEq, Repr

def Deletion.none : Deletion where
  stage := DeleteStage.unused
  live := Option.none
  below := 0
  slot := Option.none
  leftover := Pending.empty

inductive SectionStage where
  | unused
  | seen
  | waiting
  | running
  | done
  deriving DecidableEq, Repr

structure Section where
  stage : SectionStage
  slot : Option SlotId
  since : Nat
  deriving DecidableEq, Repr

def Section.none : Section where
  stage := SectionStage.unused
  slot := Option.none
  since := 0

structure Write where
  handle : Handle
  version : Nat
  updates : List Row
  removed : List Removal
  requests : List Nat
  deriving DecidableEq, Repr

inductive Event where
  | queued (call : Nat)
  | writeStarted (w : Write)
  | wrote (w : Write) (ok : Bool)
  | told (call : Nat) (outcome : Outcome)
  | erased (below : Nat) (ok : Bool)
  deriving DecidableEq, Repr

/-!
# Lanes
-/

structure Lane where
  handleCount : Nat
  alive : Handle -> Bool
  version : Handle -> Nat
  lineage : Lineage
  tombstones : List Handle
  failed : Option Handle
  registered : Option SlotId
  slotCount : Nat
  writeLock : SlotId -> List Party
  pending : SlotId -> Pending
  lastResult : SlotId -> Outcome
  drainer : SlotId -> Drainer
  callCount : Nat
  call : Nat -> Call
  queuedCount : Nat
  flushCount : Nat
  flush : Nat -> Handle
  deleteCount : Nat
  deletion : Nat -> Deletion
  sectionCount : Nat
  critical : Nat -> Section
  deletes : Nat
  incarnation : Handle -> Option Nat
  since : Handle -> Nat
  trace : List Event

namespace Lane

def empty : Lane where
  handleCount := 0
  alive := fun _ => false
  version := fun _ => 0
  lineage := Lineage.empty
  tombstones := []
  failed := none
  registered := none
  slotCount := 0
  writeLock := fun _ => []
  pending := fun _ => Pending.empty
  lastResult := fun _ => Outcome.ok
  drainer := fun _ => Drainer.none
  callCount := 0
  call := fun _ => Call.none
  queuedCount := 0
  flushCount := 0
  flush := fun _ => 0
  deleteCount := 0
  deletion := fun _ => Deletion.none
  sectionCount := 0
  critical := fun _ => Section.none
  deletes := 0
  incarnation := fun _ => none
  since := fun _ => 0
  trace := []

/-- `standing`.  Dropping dead tombstones on the way is not observable: only
live handles are looked up. -/
def standing (s : Lane) (h : Handle) : Standing :=
  if h ∈ s.tombstones then Standing.deleted
  else
    match s.lineage.generationOf h with
    | none => Standing.current
    | some generation =>
        if generation < s.lineage.deletedBelow then Standing.deleted
        else if generation + 1 = s.lineage.next then Standing.current
        else
          Standing.superseded
            (((s.lineage.newestAlive s.alive).filter
              (fun m => decide (generation < m.2))).map Prod.fst)

def hasUnflushed (s : Lane) : Bool :=
  s.registered.isSome || s.failed.isSome

/-- Some task or queue of the lane owns an `Arc` of the handle. -/
def Referenced (s : Lane) (h : Handle) : Prop :=
  (exists k, k < s.slotCount ∧
    ((s.pending k).source = some h ∨
      ((s.drainer k).stage = DrainStage.taken ∧
        (s.drainer k).batch.source = some h) ∨
      ((s.drainer k).stage = DrainStage.ready ∧ (s.drainer k).handle = h) ∨
      ((s.drainer k).stage = DrainStage.writing ∧ (s.drainer k).handle = h))) ∨
  (exists c, c < s.callCount ∧
    ((s.call c).stage = CallStage.resolved ∧
      ((s.call c).source = h ∨ (s.call c).handle = some h))) ∨
  (exists d, d < s.deleteCount ∧
    (s.deletion d).stage ≠ DeleteStage.done ∧
      ((s.deletion d).live = some h ∨ (s.deletion d).leftover.source = some h))

instance (s : Lane) (h : Handle) : Decidable (s.Referenced h) := by
  unfold Referenced
  infer_instance

/-- `queue`: merge the work into the registered slot, or register a new slot
and spawn its writer task. -/
def queueWork (s : Lane) (work : Pending) : Lane :=
  match s.registered with
  | some k =>
      { s with
        pending := Function.update s.pending k ((s.pending k).merge work) }
  | none =>
      { s with
        registered := some s.slotCount
        slotCount := s.slotCount + 1
        writeLock := Function.update s.writeLock s.slotCount []
        pending := Function.update s.pending s.slotCount
          (Pending.empty.merge work)
        lastResult := Function.update s.lastResult s.slotCount Outcome.ok
        drainer := Function.update s.drainer s.slotCount Drainer.spawned }

def tell (waiters : List Nat) (outcome : Outcome) : List Event :=
  waiters.map (fun c => Event.told c outcome)

def setDrainer (s : Lane) (k : SlotId) (d : Drainer) : Lane :=
  { s with drainer := Function.update s.drainer k d }

def setDeletion (s : Lane) (d : Nat) (x : Deletion) : Lane :=
  { s with deletion := Function.update s.deletion d x }

def setCritical (s : Lane) (e : Nat) (x : Section) : Lane :=
  { s with critical := Function.update s.critical e x }

def setLock (s : Lane) (k : SlotId) (parties : List Party) : Lane :=
  { s with writeLock := Function.update s.writeLock k parties }

def setPending (s : Lane) (k : SlotId) (p : Pending) : Lane :=
  { s with pending := Function.update s.pending k p }

def emit (s : Lane) (events : List Event) : Lane :=
  { s with trace := events ++ s.trace }

end Lane
end Persister
end PostCortex
