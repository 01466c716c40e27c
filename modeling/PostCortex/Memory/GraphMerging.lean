import PostCortex.Graph.Counts
import PostCortex.Memory.CommittedUpdates
import PostCortex.Memory.SessionWrites
import PostCortex.Session.Removal

/-!
# Deferred graph work

Deferred writes to a session handle, the graph work they leave behind, purges
and deletions, on the compare-and-swap cell of the handle.  A write that has
committed submits its update (`submit_derived_work` of `services.rs`) to the
bounded queue of `pipeline/graph.rs`, whose worker runs one
`apply_entity_graph_update_now` after the other; when the queue is full or
closed the same call runs on a task of its own.
-/

namespace PostCortex
namespace Memory
namespace GraphMerging

open PostCortex.Core
open PostCortex.Graph
open PostCortex.Graph.EntityGraph
open Session
open Cas
open Transition

inductive Work where
  | write (description : String)
      (metadata : Option (Except String ContextUpdate)) (waitDurable : Bool)
  | apply (update : ContextUpdate)
  | purge (id : Uuid)
  | delete (id : Uuid)

abbrev WorkCell : Type :=
  Cell ActiveSession Work Draws Answer String

/-- `pending` are the updates of committed writes that have not submitted their
graph work yet; `worker` is the call the queue's worker has made last. -/
structure State where
  cell : WorkCell
  pending : List ContextUpdate
  queue : List ContextUpdate
  worker : Option Nat

inductive Action where
  | request (work : Work)
  | load (i : Nat)
  | compute (i : Nat) (draws : Draws)
  | swap (i : Nat)
  | submit (update : ContextUpdate) (closed : Bool)
  | take

def committedUpdate (cell : WorkCell) (i : Nat) : List ContextUpdate :=
  match cell.calls[i]? with
  | some ⟨_, _, Stage.returned (Outcome.committed (Answer.added _ update))⟩ =>
      [update]
  | _ => []

def isIdle (s : State) : Bool :=
  match s.worker with
  | none => true
  | some j =>
      match s.cell.calls[j]? with
      | some ⟨_, _, Stage.returned _⟩ => true
      | _ => false

section

variable [CharTables] [UuidText]

def purgeUpdate (id : Uuid) (draws : Draws × Unit) (session : ActiveSession) :
    Option ActiveSession :=
  (session.removeUpdateById id).map
    (fun removed => removed.rebuildEntityGraphSync draws.1.now)

def Work.request : Work -> Request Unit
  | Work.write description metadata waitDurable =>
      Request.addIncrementalUpdate description metadata
        (WriteMode.deferred waitDurable)
  | Work.apply update => Request.applyEntityGraphUpdate update
  | Work.purge id => Request.casUpdateSession "purge_update" (purgeUpdate id)
  | Work.delete id =>
      Request.casUpdateSession "delete_update"
        (fun _ session => session.removeUpdateById id)

def workLoop (sessionId : Uuid) :
    Loop ActiveSession Work Draws Answer String where
  attempt := fun work draws session =>
    (sessionLoop Unit sessionId).attempt work.request (draws, ()) session
  maxAttempts := maxCasAttempts
  exhausted := fun work => exhausted sessionId work.request

def callApply (sessionId : Uuid) (cell : WorkCell) (update : ContextUpdate) :
    Option WorkCell :=
  (workLoop sessionId).step cell (Cas.Action.call (Work.apply update))

def step (sessionId : Uuid) (capacity : Nat) (s : State) :
    Action -> Option State
  | Action.request work =>
      match work with
      | Work.apply _ => none
      | Work.write _ _ _ | Work.purge _ | Work.delete _ =>
          ((workLoop sessionId).step s.cell (Cas.Action.call work)).map
            (fun cell => { s with cell := cell })
  | Action.load i =>
      ((workLoop sessionId).step s.cell (Cas.Action.load i)).map
        (fun cell => { s with cell := cell })
  | Action.compute i draws =>
      ((workLoop sessionId).step s.cell (Cas.Action.compute i draws)).map
        (fun cell => { s with cell := cell })
  | Action.swap i =>
      ((workLoop sessionId).step s.cell (Cas.Action.swap i)).map
        (fun cell =>
          { s with
            cell := cell
            pending := s.pending ++ committedUpdate cell i })
  | Action.submit update closed =>
      if update ∈ s.pending then
        if closed = false ∧ s.queue.length < capacity then
          some { s with
            pending := s.pending.erase update
            queue := s.queue ++ [update] }
        else
          (callApply sessionId s.cell update).map
            (fun cell =>
              { s with
                cell := cell
                pending := s.pending.erase update })
      else none
  | Action.take =>
      match s.queue with
      | [] => none
      | update :: rest =>
          if isIdle s then
            (callApply sessionId s.cell update).map
              (fun cell =>
                { s with
                  cell := cell
                  queue := rest
                  worker := some s.cell.calls.length })
          else none

/-!
# What has been counted
-/

/-- A session with the updates its graph has been given, each with the time it
was applied at. -/
structure Ledger where
  session : ActiveSession
  counted : List (Timestamp × ContextUpdate)

def Ledger.enter (sessionId : Uuid) (ledger : Ledger) (e : Swap Work Draws) :
    Ledger :=
  let session := (workLoop sessionId).apply ledger.session e
  { session := session
    counted :=
      match e.request with
      | Work.write _ _ _ | Work.delete _ => ledger.counted
      | Work.apply update => ledger.counted ++ [(e.d.now, update)]
      | Work.purge _ =>
          session.incrementalUpdates.map (fun u => (e.d.now, u)) }

def ledgerOf (sessionId : Uuid) (start : Ledger) (log : List (Swap Work Draws)) :
    Ledger :=
  log.foldl (Ledger.enter sessionId) start

def merging (sessionId : Uuid) (capacity : Nat) (start : Ledger) :
    System State Action where
  init := ⟨⟨start.session, [], []⟩, [], [], none⟩
  step := step sessionId capacity

end

def timesCounted (counted : List (Timestamp × ContextUpdate)) (id : Uuid) :
    Nat :=
  counted.countP (fun x => x.2.id == id)

def idsOf (session : ActiveSession) : List Uuid :=
  session.incrementalUpdates.map ContextUpdate.id

def Work.isApply : Work -> Bool
  | Work.apply _ => true
  | _ => false

def lastChange (log : List (Swap Work Draws)) : Option (Swap Work Draws) :=
  (log.filter (fun e => !e.request.isApply)).getLast?

def isRunning (id : Uuid) (call : Call ActiveSession Work Draws Answer String) :
    Bool :=
  match call.request, call.stage with
  | Work.apply _, Stage.returned _ => false
  | Work.apply update, _ => update.id == id
  | _, _ => false

def named (id : Uuid) (update : ContextUpdate) : Bool :=
  update.id == id

def outstanding (s : State) (id : Uuid) : Nat :=
  s.pending.countP (named id) + s.queue.countP (named id) +
    s.cell.calls.countP (isRunning id)

def writtenId (work : Work) (draws : Draws) : Option Uuid :=
  match work with
  | Work.write _ none _ => some draws.updateId
  | Work.write _ (some (Except.ok update)) _ => some update.id
  | _ => none

def known (start : Ledger) (log : List (Swap Work Draws)) : List Uuid :=
  idsOf start.session ++ start.counted.map (fun x => x.2.id) ++
    log.filterMap (fun e => writtenId e.request e.d)

def isFresh (start : Ledger) (s : State) : Action -> Bool
  | Action.swap i =>
      match s.cell.calls[i]? with
      | some ⟨work, _, Stage.prepared _ _ draws _ _⟩ =>
          (writtenId work draws).all
            (fun id => !(known start s.cell.log).contains id)
      | _ => true
  | _ => true

def isSettled (s : State) (purged : Uuid) : Bool :=
  s.cell.current.incrementalUpdates.all
    (fun u => u.id == purged || outstanding s u.id == 0)

/-- A purge commits when the graph work of the updates that remain is done. -/
def purgesSettled (s : State) : Action -> Bool
  | Action.swap i =>
      match s.cell.calls[i]? with
      | some ⟨Work.purge id, _, Stage.prepared _ version _ _ _⟩ =>
          version != s.cell.log.length || isSettled s id
      | _ => true
  | _ => true

def FreshIds (start : Ledger) (s : State) (a : Action) : Prop :=
  isFresh start s a = true

instance (start : Ledger) (s : State) (a : Action) :
    Decidable (FreshIds start s a) :=
  inferInstanceAs (Decidable (_ = true))

def SettledPurges (start : Ledger) (s : State) (a : Action) : Prop :=
  isFresh start s a = true ∧ purgesSettled s a = true

instance (start : Ledger) (s : State) (a : Action) :
    Decidable (SettledPurges start s a) :=
  inferInstanceAs (Decidable (_ ∧ _))

/-!
# What a swap changes
-/

section

theorem entityGraph_addIncrementalUpdateFast (session : ActiveSession)
    (draws : Draws) (update : ContextUpdate) :
    (session.addIncrementalUpdateFast draws update).entityGraph =
      session.entityGraph := by
  rw [ActiveSession.addIncrementalUpdateFast_eq]

variable [CharTables] [UuidText]

variable {sessionId : Uuid} {draws : Draws} {session next : ActiveSession} {a : Answer}

theorem write_changed {description : String}
    {metadata : Option (Except String ContextUpdate)} {waitDurable : Bool}
    (h : (workLoop sessionId).attempt
        (Work.write description metadata waitDurable) draws session =
      Attempt.changed next a) :
    exists update, a = Answer.added (UuidText.toText update.id) update ∧
      writtenId (Work.write description metadata waitDurable) draws =
        some update.id ∧
      idsOf next = idsOf session ++ [update.id] ∧
      next.entityGraph = session.entityGraph := by
  have hadded : forall update : ContextUpdate,
      idsOf (session.addIncrementalUpdateFast draws update) =
        idsOf session ++ [update.id] := by
    intro update
    rw [idsOf, ActiveSession.incrementalUpdates_addIncrementalUpdateFast,
      List.map_append]
    rfl
  simp only [workLoop, sessionLoop, Work.request, addIncrementalUpdateInternal,
    ActiveSession.addContextUpdate] at h
  cases metadata with
  | none =>
      cases h
      exact ⟨_, rfl, rfl, hadded _, entityGraph_addIncrementalUpdateFast _ _ _⟩
  | some parsed =>
      cases parsed with
      | error e =>
          cases h
      | ok update =>
          cases h
          exact ⟨update, rfl, rfl, hadded update,
            entityGraph_addIncrementalUpdateFast _ _ _⟩

theorem apply_changed {update : ContextUpdate}
    (h : (workLoop sessionId).attempt (Work.apply update) draws session =
      Attempt.changed next a) :
    update.id ∈ idsOf session ∧ a = Answer.merged ∧
      next.incrementalUpdates = session.incrementalUpdates ∧
      next.entityGraph = session.entityGraph.applyUpdate draws.now update := by
  simp only [workLoop, sessionLoop, Work.request, applyEntityGraphUpdateNow] at h
  split at h
  · next hany =>
    cases h
    obtain ⟨u, hu, hid⟩ := List.any_eq_true.mp hany
    exact ⟨List.mem_map.mpr ⟨u, hu, by simpa using hid⟩, rfl, rfl, rfl⟩
  · cases h

variable {id : Uuid}

omit [CharTables] [UuidText] in
theorem removeUpdateById_kept {removed : ActiveSession}
    (h : session.removeUpdateById id = some removed) :
    removed.incrementalUpdates =
        session.incrementalUpdates.filter (fun u => u.id != id) ∧
      removed.entityGraph.unlinked = session.entityGraph.unlinked := by
  obtain ⟨update, -, rfl⟩ := ActiveSession.removeUpdateById_some h
  refine ⟨rfl, ?_⟩
  show (ActiveSession.removeMentions _ id).unlinked = _
  unfold ActiveSession.removeMentions
  split
  · rfl
  · rfl

theorem delete_changed
    (h : (workLoop sessionId).attempt (Work.delete id) draws session =
      Attempt.changed next a) :
    (exists s, a = Answer.updated s) ∧
      next.incrementalUpdates =
        session.incrementalUpdates.filter (fun u => u.id != id) ∧
      next.entityGraph.unlinked = session.entityGraph.unlinked := by
  simp only [workLoop, sessionLoop, Work.request, casUpdateSession] at h
  split at h
  · cases h
  · next removed hremoved =>
    cases h
    exact ⟨⟨_, rfl⟩, removeUpdateById_kept hremoved⟩

/-- A purge leaves the graph that the remaining updates make, if no entity has an
alias of its own. -/
theorem purge_changed
    (h : (workLoop sessionId).attempt (Work.purge id) draws session =
      Attempt.changed next a) (hplain : session.entityGraph.explicitAliases = []) :
    (exists s, a = Answer.updated s) ∧
      next.incrementalUpdates =
        session.incrementalUpdates.filter (fun u => u.id != id) ∧
      next.entityGraph =
        applyAll (next.incrementalUpdates.map (fun u => (draws.now, u))) := by
  simp only [workLoop, sessionLoop, Work.request, casUpdateSession,
    purgeUpdate] at h
  split at h
  · cases h
  · next purged hpurged =>
    cases h
    obtain ⟨removed, hremoved, rfl⟩ := Option.map_eq_some_iff.mp hpurged
    obtain ⟨hupdates, hgraph⟩ := removeUpdateById_kept hremoved
    refine ⟨⟨_, rfl⟩, hupdates, ?_⟩
    have hnone : removed.entityGraph.explicitAliases = [] := by
      rw [explicitAliases_congr hgraph]
      exact hplain
    simp only [ActiveSession.rebuildEntityGraphSync, hnone, List.foldl_nil,
      applyAll, List.foldl_map]

end

/-!
# Counting outstanding work
-/

theorem countP_set {α : Type} {p : α -> Bool} {xs : List α} {i : Nat} {x y : α}
    (hi : xs[i]? = some x) :
    (xs.set i y).countP p + (if p x then 1 else 0) =
      xs.countP p + (if p y then 1 else 0) := by
  obtain ⟨hlt, hx⟩ := List.getElem?_eq_some_iff.mp hi
  have hset := List.countP_set (p := p) (a := y) hlt
  rw [hx] at hset
  have hle : (if p x then 1 else 0) ≤ xs.countP p := by
    split
    · next hp =>
      exact List.countP_pos_iff.mpr ⟨x, List.mem_of_getElem? hi, hp⟩
    · exact Nat.zero_le _
  omega

theorem countP_erase {p : ContextUpdate -> Bool} {xs : List ContextUpdate}
    {x : ContextUpdate} (hx : x ∈ xs) :
    (xs.erase x).countP p + (if p x then 1 else 0) = xs.countP p := by
  have hperm := (List.perm_cons_erase hx).countP_eq p
  rw [hperm, List.countP_cons]

theorem isRunning_returned (id : Uuid) (work : Work) (arrived : Nat)
    (outcome : Outcome Draws Answer String) :
    isRunning id ⟨work, arrived, Stage.returned outcome⟩ = false := by
  cases work with
  | write description metadata waitDurable | apply update | purge purged
  | delete deleted =>
      rfl

variable {arrived : Nat} {stage stage' : Stage ActiveSession Draws Answer String}

theorem isRunning_of_stage {id : Uuid} {work : Work}
    (hbefore : forall outcome, stage ≠ Stage.returned outcome)
    (h : isRunning id ⟨work, arrived, stage'⟩ = true) :
    isRunning id ⟨work, arrived, stage⟩ = true := by
  cases work with
  | apply update =>
      have hid : (update.id == id) = true := by
        cases stage' with
        | returned outcome =>
            cases h
        | waiting attempts | loaded attempts version seen
        | prepared attempts version draws next a =>
            exact h
      cases stage with
      | returned outcome =>
          exact absurd rfl (hbefore outcome)
      | waiting attempts | loaded attempts version seen
      | prepared attempts version draws next a =>
          exact hid
  | write description metadata waitDurable | purge purged | delete deleted =>
      cases h

theorem running_set_le {id : Uuid}
    {calls : List (Call ActiveSession Work Draws Answer String)} {i : Nat}
    {work : Work} (hi : calls[i]? = some ⟨work, arrived, stage⟩)
    (hbefore : forall outcome, stage ≠ Stage.returned outcome) :
    (calls.set i ⟨work, arrived, stage'⟩).countP (isRunning id) ≤
      calls.countP (isRunning id) := by
  have hset := countP_set (p := isRunning id) (y := ⟨work, arrived, stage'⟩) hi
  by_cases hafter : isRunning id ⟨work, arrived, stage'⟩ = true
  · rw [if_pos hafter, if_pos (isRunning_of_stage hbefore hafter)] at hset
    omega
  · rw [if_neg hafter] at hset
    omega

theorem running_snoc (id : Uuid) (hwork : work.isApply = false) (arrived : Nat)
    (stage : Stage ActiveSession Draws Answer String)
    (calls : List (Call ActiveSession Work Draws Answer String)) :
    (calls ++ [(⟨work, arrived, stage⟩ :
        Call ActiveSession Work Draws Answer String)]).countP (isRunning id) =
      calls.countP (isRunning id) := by
  rw [List.countP_append, List.countP_singleton]
  cases work with
  | apply update =>
      cases hwork
  | write description metadata waitDurable | purge purged | delete deleted =>
      rfl

theorem timesCounted_map (updates : List ContextUpdate) (now : Timestamp)
    (id : Uuid) :
    timesCounted (updates.map (fun u => (now, u))) id =
      (updates.map ContextUpdate.id).count id := by
  rw [timesCounted, List.countP_map, List.count_eq_countP, List.countP_map]
  rfl

theorem timesCounted_eq_zero {counted : List (Timestamp × ContextUpdate)}
    {id : Uuid} (h : forall x, x ∈ counted -> x.2.id ≠ id) :
    timesCounted counted id = 0 := by
  rw [timesCounted, List.countP_eq_zero]
  intro x hx
  simpa using h x hx

theorem known_snoc (start : Ledger) (log : List (Swap Work Draws))
    (e : Swap Work Draws) :
    known start (log ++ [e]) =
      known start log ++ (writtenId e.request e.d).toList := by
  unfold known
  rw [List.filterMap_append, ← List.append_assoc]
  cases hwritten : writtenId e.request e.d with
  | none | some id => simp [hwritten]

variable {start : Ledger} {log : List (Swap Work Draws)} {e : Swap Work Draws}

theorem known_of_known {id : Uuid} (h : id ∈ known start log) :
    id ∈ known start (log ++ [e]) := by
  rw [known_snoc]
  exact List.mem_append_left _ h

theorem lastChange_apply (log : List (Swap Work Draws)) (i : Nat)
    (update : ContextUpdate) (draws : Draws) :
    lastChange (log ++ [⟨i, Work.apply update, draws⟩]) = lastChange log := by
  simp [lastChange, Work.isApply]

theorem lastChange_other (h : e.request.isApply = false) :
    lastChange (log ++ [e]) = some e := by
  simp [lastChange, h]

/-!
# Won swaps
-/

def wonCell (cell : WorkCell) (i arrived : Nat) (work : Work) (draws : Draws)
    (next : ActiveSession) (a : Answer) : WorkCell where
  current := next
  log := cell.log ++ [⟨i, work, draws⟩]
  calls := cell.calls.set i
    ⟨work, arrived, Stage.returned (Outcome.committed a)⟩

def won (s : State) (i arrived : Nat) (work : Work) (draws : Draws)
    (next : ActiveSession) (a : Answer) : State :=
  { s with
    cell := wonCell s.cell i arrived work draws next a
    pending :=
      s.pending ++
        committedUpdate (wonCell s.cell i arrived work draws next a) i }

variable {cell : WorkCell} {i : Nat} {work : Work} {draws : Draws}
  {next : ActiveSession} {a : Answer}

theorem committedUpdate_won (hcall : cell.calls[i]? = some ⟨work, arrived, stage⟩) :
    committedUpdate (wonCell cell i arrived work draws next a) i =
      match a with
      | Answer.added _ update => [update]
      | _ => [] := by
  unfold committedUpdate wonCell
  dsimp only
  rw [List.getElem?_set_self (List.getElem?_eq_some_iff.mp hcall).1]
  cases a with
  | added text update | updated session | merged =>
      rfl

variable {attempts : Nat} {s : State}

theorem outstanding_won {version : Nat} (id : Uuid) (hcall : s.cell.calls[i]? =
      some ⟨work, arrived, Stage.prepared attempts version draws next a⟩) :
    outstanding (won s i arrived work draws next a) id +
        (if isRunning id
            ⟨work, arrived, Stage.prepared attempts version draws next a⟩
          then 1 else 0) =
      outstanding s id +
        (committedUpdate (wonCell s.cell i arrived work draws next a) i).countP
          (named id) := by
  have hset := countP_set (p := isRunning id)
    (y := ⟨work, arrived, Stage.returned (Outcome.committed a)⟩) hcall
  rw [isRunning_returned, if_neg Bool.false_ne_true, Nat.add_zero] at hset
  have hpending : (won s i arrived work draws next a).pending.countP (named id) =
      s.pending.countP (named id) +
        (committedUpdate (wonCell s.cell i arrived work draws next a) i).countP
          (named id) :=
    List.countP_append
  have hcalls : (won s i arrived work draws next a).cell.calls =
      s.cell.calls.set i
        ⟨work, arrived, Stage.returned (Outcome.committed a)⟩ := rfl
  have hqueue : (won s i arrived work draws next a).queue = s.queue := rfl
  unfold outstanding
  rw [hpending, hcalls, hqueue]
  omega

/-!
# The invariant
-/

section

variable [CharTables] [UuidText]

/-- The graph is that of the counted updates; an update that remains has been
counted or is to be counted, once at most. -/
structure Kept (sessionId : Uuid) (start : Ledger) (s : State) : Prop where
  tracked : (workLoop sessionId).Tracked start.session s.cell
  counts : s.cell.current.entityGraph.unlinked =
    (applyAll (ledgerOf sessionId start s.cell.log).counted).unlinked
  distinct : (idsOf s.cell.current).Nodup
  ids : forall id, id ∈ idsOf s.cell.current -> id ∈ known start s.cell.log
  counted : forall x, x ∈ (ledgerOf sessionId start s.cell.log).counted ->
    x.2.id ∈ known start s.cell.log
  waiting : forall id, outstanding s id ≠ 0 -> id ∈ known start s.cell.log
  once : forall id, id ∈ idsOf s.cell.current ->
    timesCounted (ledgerOf sessionId start s.cell.log).counted id +
      outstanding s id ≤ 1
  purged : forall (e : Swap Work Draws) (id : Uuid),
    lastChange s.cell.log = some e -> e.request = Work.purge id ->
      (ledgerOf sessionId start s.cell.log).counted =
        s.cell.current.incrementalUpdates.map (fun u => (e.d.now, u))

variable {sessionId : Uuid} {start : Ledger} {s s' : State}

theorem Kept.relax (h : Kept sessionId start s)
    (htracked : (workLoop sessionId).Tracked start.session s'.cell)
    (hcurrent : s'.cell.current = s.cell.current) (hlog : s'.cell.log = s.cell.log)
    (houtstanding : forall id, outstanding s' id ≤ outstanding s id) :
    Kept sessionId start s' where
  tracked := htracked
  counts := by
    rw [hcurrent, hlog]
    exact h.counts
  distinct := by
    rw [hcurrent]
    exact h.distinct
  ids := by
    rw [hcurrent, hlog]
    exact h.ids
  counted := by
    rw [hlog]
    exact h.counted
  waiting := by
    intro id hid
    rw [hlog]
    apply h.waiting id
    have := houtstanding id
    omega
  once := by
    intro id hid
    rw [hcurrent] at hid
    rw [hlog]
    have := h.once id hid
    have := houtstanding id
    omega
  purged := by
    rw [hlog, hcurrent]
    exact h.purged

theorem ledgerOf_snoc (sessionId : Uuid) (start : Ledger)
    (log : List (Swap Work Draws)) (e : Swap Work Draws) :
    ledgerOf sessionId start (log ++ [e]) =
      (ledgerOf sessionId start log).enter sessionId e := by
  simp [ledgerOf]

theorem ledgerOf_session (sessionId : Uuid) (start : Ledger)
    (log : List (Swap Work Draws)) :
    (ledgerOf sessionId start log).session =
      (workLoop sessionId).fold start.session log := by
  induction log using List.reverseRecOn with
  | nil =>
      rfl
  | append_singleton log e ih =>
      rw [ledgerOf_snoc, Loop.fold_append, ← ih]
      rfl

theorem Kept.attempted (h : Kept sessionId start s)
    (hcall : s.cell.calls[i]? = some ⟨work, arrived,
      Stage.prepared attempts s.cell.log.length draws next a⟩) :
    (workLoop sessionId).attempt work draws s.cell.current =
      Attempt.changed next a := by
  obtain ⟨_, _, _, hattempt⟩ := h.tracked.fits i work arrived _ hcall
  rw [Loop.versionAt_length, ← h.tracked.current] at hattempt
  exact hattempt

theorem Kept.explicitAliases (h : Kept sessionId start s) :
    s.cell.current.entityGraph.explicitAliases = [] := by
  rw [explicitAliases_congr h.counts]
  exact explicitAliases_applyAll _

theorem Kept.won_write {description : String}
    {metadata : Option (Except String ContextUpdate)} {waitDurable : Bool}
    (h : Kept sessionId start s) (hcall : s.cell.calls[i]? =
      some ⟨Work.write description metadata waitDurable, arrived,
        Stage.prepared attempts s.cell.log.length draws next a⟩)
    (hfresh : (writtenId (Work.write description metadata waitDurable)
      draws).all (fun id => !(known start s.cell.log).contains id) = true) :
    Kept sessionId start
      (won s i arrived (Work.write description metadata waitDurable) draws next
        a) := by
  obtain ⟨update, rfl, hwritten, hids, hgraph⟩ := write_changed (h.attempted hcall)
  rw [hwritten] at hfresh
  have hnew : update.id ∉ known start s.cell.log := by
    simpa using hfresh
  have hcounted : (ledgerOf sessionId start (s.cell.log ++
      [⟨i, Work.write description metadata waitDurable, draws⟩])).counted =
      (ledgerOf sessionId start s.cell.log).counted := by
    rw [ledgerOf_snoc]
    rfl
  have houtstanding : forall id,
      outstanding (won s i arrived
          (Work.write description metadata waitDurable) draws next
          (Answer.added (UuidText.toText update.id) update)) id =
        outstanding s id + (if update.id == id then 1 else 0) := by
    intro id
    have hwon := outstanding_won id hcall
    rw [committedUpdate_won hcall] at hwon
    simp only [isRunning, List.countP_singleton] at hwon
    exact hwon
  refine ⟨h.tracked.win hcall, ?_, ?_, ?_, ?_, ?_, ?_, ?_⟩
  · change next.entityGraph.unlinked =
      (applyAll (ledgerOf sessionId start (s.cell.log ++ [_])).counted).unlinked
    rw [hcounted, hgraph]
    exact h.counts
  · change (idsOf next).Nodup
    rw [hids]
    refine List.nodup_append.mpr
      ⟨h.distinct, List.nodup_singleton _, ?_⟩
    intro id hid other hother
    rw [List.mem_singleton.mp hother]
    rintro rfl
    exact hnew (h.ids update.id hid)
  · intro id hid
    change id ∈ idsOf next at hid
    rw [hids] at hid
    rcases List.mem_append.mp hid with hold | hadded
    · exact known_of_known (h.ids id hold)
    · change id ∈ known start (s.cell.log ++ [_])
      rw [known_snoc, hwritten]
      exact List.mem_append_right _ (by simpa using hadded)
  · intro x hx
    change x ∈ (ledgerOf sessionId start (s.cell.log ++ [_])).counted at hx
    rw [hcounted] at hx
    exact known_of_known (h.counted x hx)
  · intro id hid
    rw [houtstanding] at hid
    by_cases heq : update.id = id
    · change id ∈ known start (s.cell.log ++ [_])
      rw [known_snoc, hwritten]
      exact List.mem_append_right _ (by simp [heq])
    · refine known_of_known (h.waiting id ?_)
      simpa [heq] using hid
  · intro id hid
    change id ∈ idsOf next at hid
    change timesCounted (ledgerOf sessionId start (s.cell.log ++ [_])).counted id
      + _ ≤ 1
    rw [hcounted, houtstanding]
    rw [hids] at hid
    by_cases heq : update.id = id
    · subst heq
      have hnone : timesCounted
          (ledgerOf sessionId start s.cell.log).counted update.id = 0 := by
        apply timesCounted_eq_zero
        intro x hx hxid
        exact hnew (hxid ▸ h.counted x hx)
      have hidle : outstanding s update.id = 0 := by
        by_contra hwaiting
        exact hnew (h.waiting update.id hwaiting)
      rw [hnone, hidle]
      simp
    · have hold : id ∈ idsOf s.cell.current := by
        rcases List.mem_append.mp hid with hold | hadded
        · exact hold
        · exact absurd (List.mem_singleton.mp hadded).symm heq
      have := h.once id hold
      simpa [heq] using this
  · intro e id hlast hpurge
    change lastChange (s.cell.log ++ [_]) = some e at hlast
    rw [lastChange_other rfl] at hlast
    cases hlast
    cases hpurge

variable {update : ContextUpdate}

theorem Kept.won_apply (h : Kept sessionId start s)
    (hcall : s.cell.calls[i]? = some ⟨Work.apply update, arrived,
      Stage.prepared attempts s.cell.log.length draws next a⟩) :
    Kept sessionId start
      (won s i arrived (Work.apply update) draws next a) := by
  obtain ⟨hmem, rfl, hupdates, hgraph⟩ := apply_changed (h.attempted hcall)
  have hids : idsOf next = idsOf s.cell.current := by
    rw [idsOf, hupdates]
    rfl
  have hcounted : (ledgerOf sessionId start (s.cell.log ++
      [⟨i, Work.apply update, draws⟩])).counted =
      (ledgerOf sessionId start s.cell.log).counted ++
        [(draws.now, update)] := by
    rw [ledgerOf_snoc]
    rfl
  have houtstanding : forall id,
      outstanding (won s i arrived (Work.apply update) draws next Answer.merged)
          id + (if update.id == id then 1 else 0) =
        outstanding s id := by
    intro id
    have hwon := outstanding_won id hcall
    rw [committedUpdate_won hcall] at hwon
    simp only [isRunning, List.countP_nil, Nat.add_zero] at hwon
    exact hwon
  refine ⟨h.tracked.win hcall, ?_, ?_, ?_, ?_, ?_, ?_, ?_⟩
  · change next.entityGraph.unlinked =
      (applyAll (ledgerOf sessionId start (s.cell.log ++ [_])).counted).unlinked
    rw [hcounted, applyAll_snoc, hgraph]
    exact applyUpdate_congr h.counts draws.now update
  · change (idsOf next).Nodup
    rw [hids]
    exact h.distinct
  · intro id hid
    change id ∈ idsOf next at hid
    rw [hids] at hid
    exact known_of_known (h.ids id hid)
  · intro x hx
    change x ∈ (ledgerOf sessionId start (s.cell.log ++ [_])).counted at hx
    rw [hcounted] at hx
    rcases List.mem_append.mp hx with hold | hadded
    · exact known_of_known (h.counted x hold)
    · rw [List.mem_singleton.mp hadded]
      exact known_of_known (h.ids update.id hmem)
  · intro id hid
    have := houtstanding id
    exact known_of_known (h.waiting id (by omega))
  · intro id hid
    change id ∈ idsOf next at hid
    change timesCounted (ledgerOf sessionId start (s.cell.log ++ [_])).counted id
      + _ ≤ 1
    rw [hids] at hid
    have hbefore := h.once id hid
    have hafter := houtstanding id
    rw [hcounted, timesCounted, List.countP_append, List.countP_singleton]
    unfold timesCounted at hbefore
    dsimp only
    omega
  · intro e id hlast hpurge
    change lastChange (s.cell.log ++ [_]) = some e at hlast
    rw [lastChange_apply] at hlast
    -- the update is counted since the purge, so no work of it can be running
    have hcountedOnce : 0 < timesCounted
        (ledgerOf sessionId start s.cell.log).counted update.id := by
      rw [h.purged e id hlast hpurge, timesCounted_map]
      exact List.count_pos_iff.mpr hmem
    have hbefore := h.once update.id hmem
    have hafter := houtstanding update.id
    rw [beq_self_eq_true, if_pos rfl] at hafter
    omega

theorem Kept.won_purge {purged : Uuid} (h : Kept sessionId start s)
    (hcall : s.cell.calls[i]? = some ⟨Work.purge purged, arrived,
      Stage.prepared attempts s.cell.log.length draws next a⟩)
    (hsettled : isSettled s purged = true) :
    Kept sessionId start
      (won s i arrived (Work.purge purged) draws next a) := by
  obtain ⟨⟨session, rfl⟩, hupdates, hgraph⟩ :=
    purge_changed (h.attempted hcall) h.explicitAliases
  have hfold := (h.tracked.win hcall).current
  have hcounted : (ledgerOf sessionId start (s.cell.log ++
      [⟨i, Work.purge purged, draws⟩])).counted =
      next.incrementalUpdates.map (fun u => (draws.now, u)) := by
    have hsession := ledgerOf_session sessionId start
      (s.cell.log ++ [⟨i, Work.purge purged, draws⟩])
    rw [← hfold] at hsession
    rw [ledgerOf_snoc] at hsession ⊢
    change ((ledgerOf sessionId start s.cell.log).enter sessionId
      ⟨i, Work.purge purged, draws⟩).session.incrementalUpdates.map _ = _
    rw [hsession]
  have houtstanding : forall id,
      outstanding (won s i arrived (Work.purge purged) draws next
        (Answer.updated session)) id = outstanding s id := by
    intro id
    have hwon := outstanding_won id hcall
    rw [committedUpdate_won hcall] at hwon
    exact hwon
  have hsub : (idsOf next).Sublist (idsOf s.cell.current) := by
    rw [idsOf, hupdates]
    exact List.filter_sublist.map _
  refine ⟨h.tracked.win hcall, ?_, ?_, ?_, ?_, ?_, ?_, ?_⟩
  · change next.entityGraph.unlinked =
      (applyAll (ledgerOf sessionId start (s.cell.log ++ [_])).counted).unlinked
    rw [hcounted, hgraph]
  · exact h.distinct.sublist hsub
  · intro id hid
    exact known_of_known (h.ids id (hsub.subset hid))
  · intro x hx
    change x ∈ (ledgerOf sessionId start (s.cell.log ++ [_])).counted at hx
    rw [hcounted] at hx
    obtain ⟨u, hu, rfl⟩ := List.mem_map.mp hx
    exact known_of_known (h.ids u.id (hsub.subset (List.mem_map_of_mem hu)))
  · intro id hid
    rw [houtstanding] at hid
    exact known_of_known (h.waiting id hid)
  · intro id hid
    change timesCounted (ledgerOf sessionId start (s.cell.log ++ [_])).counted id
      + _ ≤ 1
    rw [hcounted, timesCounted_map, houtstanding]
    have honce := List.nodup_iff_count_le_one.mp (h.distinct.sublist hsub) id
    have hidle : outstanding s id = 0 := by
      obtain ⟨u, hu, rfl⟩ := List.mem_map.mp hid
      change u ∈ next.incrementalUpdates at hu
      rw [hupdates] at hu
      obtain ⟨hu, hne⟩ := List.mem_filter.mp hu
      have hquiet := List.all_eq_true.mp hsettled u hu
      rw [bne_iff_ne] at hne
      simpa [hne] using hquiet
    rw [hidle]
    exact honce
  · intro e id hlast _
    change lastChange (s.cell.log ++ [_]) = some e at hlast
    rw [lastChange_other rfl] at hlast
    cases hlast
    exact hcounted

theorem Kept.won_delete {deleted : Uuid} (h : Kept sessionId start s)
    (hcall : s.cell.calls[i]? = some ⟨Work.delete deleted, arrived,
      Stage.prepared attempts s.cell.log.length draws next a⟩) :
    Kept sessionId start
      (won s i arrived (Work.delete deleted) draws next a) := by
  obtain ⟨⟨session, rfl⟩, hupdates, hgraph⟩ := delete_changed (h.attempted hcall)
  have hcounted : (ledgerOf sessionId start (s.cell.log ++
      [⟨i, Work.delete deleted, draws⟩])).counted =
      (ledgerOf sessionId start s.cell.log).counted := by
    rw [ledgerOf_snoc]
    rfl
  have houtstanding : forall id,
      outstanding (won s i arrived (Work.delete deleted) draws next
        (Answer.updated session)) id = outstanding s id := by
    intro id
    have hwon := outstanding_won id hcall
    rw [committedUpdate_won hcall] at hwon
    exact hwon
  have hsub : (idsOf next).Sublist (idsOf s.cell.current) := by
    rw [idsOf, hupdates]
    exact List.filter_sublist.map _
  refine ⟨h.tracked.win hcall, ?_, h.distinct.sublist hsub, ?_, ?_, ?_, ?_, ?_⟩
  · change next.entityGraph.unlinked =
      (applyAll (ledgerOf sessionId start (s.cell.log ++ [_])).counted).unlinked
    rw [hcounted, hgraph]
    exact h.counts
  · intro id hid
    exact known_of_known (h.ids id (hsub.subset hid))
  · intro x hx
    change x ∈ (ledgerOf sessionId start (s.cell.log ++ [_])).counted at hx
    rw [hcounted] at hx
    exact known_of_known (h.counted x hx)
  · intro id hid
    rw [houtstanding] at hid
    exact known_of_known (h.waiting id hid)
  · intro id hid
    change timesCounted (ledgerOf sessionId start (s.cell.log ++ [_])).counted id
      + _ ≤ 1
    rw [hcounted, houtstanding]
    exact h.once id (hsub.subset hid)
  · intro e id hlast hpurge
    change lastChange (s.cell.log ++ [_]) = some e at hlast
    rw [lastChange_other rfl] at hlast
    cases hlast
    cases hpurge

/-!
# All steps
-/

theorem callApply_kept (h : Kept sessionId start s)
    (hcell : callApply sessionId s.cell update = some cell) (hs : s'.cell = cell)
    (hfewer : forall id, s'.pending.countP (named id) +
        s'.queue.countP (named id) + (if update.id == id then 1 else 0) ≤
      s.pending.countP (named id) + s.queue.countP (named id)) :
    Kept sessionId start s' := by
  have htracked := h.tracked.step hcell
  rw [← hs] at htracked
  cases hcell
  refine h.relax htracked (by rw [hs]) (by rw [hs]) ?_
  intro id
  have := hfewer id
  have hcalls : s'.cell.calls.countP (isRunning id) =
      s.cell.calls.countP (isRunning id) +
        (if update.id == id then 1 else 0) := by
    rw [hs]
    dsimp only
    rw [List.countP_append, List.countP_singleton]
    rfl
  unfold outstanding
  omega

theorem Kept.moved {stage' : Stage ActiveSession Draws Answer String}
    (h : Kept sessionId start s)
    (hi : s.cell.calls[i]? = some ⟨work, arrived, stage⟩)
    (hbefore : forall outcome, stage ≠ Stage.returned outcome)
    (htracked : (workLoop sessionId).Tracked start.session s'.cell)
    (hcell : s'.cell =
      { s.cell with calls := s.cell.calls.set i ⟨work, arrived, stage'⟩ })
    (hpending : s'.pending = s.pending) (hqueue : s'.queue = s.queue) :
    Kept sessionId start s' := by
  refine h.relax htracked (by rw [hcell]) (by rw [hcell]) ?_
  intro id
  have hcalls : s'.cell.calls.countP (isRunning id) ≤
      s.cell.calls.countP (isRunning id) := by
    rw [hcell]
    exact running_set_le hi hbefore
  unfold outstanding
  rw [hpending, hqueue]
  omega

theorem request_kept (h : Kept sessionId start s) (hwork : work.isApply = false)
    (hcell : (workLoop sessionId).step s.cell (Cas.Action.call work) =
      some cell) :
    Kept sessionId start { s with cell := cell } := by
  have htracked := h.tracked.step hcell
  cases hcell
  refine h.relax htracked rfl rfl ?_
  intro id
  have hcalls := running_snoc id hwork s.cell.log.length (Stage.waiting 0)
    s.cell.calls
  unfold outstanding
  dsimp only
  rw [hcalls]

theorem load_kept (h : Kept sessionId start s)
    (hcell : (workLoop sessionId).step s.cell (Cas.Action.load i) = some cell) :
    Kept sessionId start { s with cell := cell } := by
  have htracked := h.tracked.step hcell
  cases Loop.step_moves _ hcell with
  | load hi =>
      refine h.moved hi ?_ htracked rfl rfl rfl
      intro outcome hreturned
      cases hreturned

theorem compute_kept (h : Kept sessionId start s)
    (hcell : (workLoop sessionId).step s.cell (Cas.Action.compute i draws) =
      some cell) :
    Kept sessionId start { s with cell := cell } := by
  have htracked := h.tracked.step hcell
  cases Loop.step_moves _ hcell with
  | compute _ hi =>
      refine h.moved hi ?_ htracked rfl rfl rfl
      intro outcome hreturned
      cases hreturned

theorem committedUpdate_lost (hi : cell.calls[i]? = some ⟨work, arrived, stage⟩) :
    committedUpdate
        { cell with
          calls := cell.calls.set i
            ⟨work, arrived, (workLoop sessionId).lost work attempts⟩ } i =
      [] := by
  have hcall := List.getElem?_set_self
    (a := (⟨work, arrived, (workLoop sessionId).lost work attempts⟩ :
      Call ActiveSession Work Draws Answer String))
    (List.getElem?_eq_some_iff.mp hi).1
  simp only [committedUpdate, hcall]
  by_cases hlast : attempts + 1 < (workLoop sessionId).maxAttempts
  · rw [Loop.lost, if_pos hlast]
  · rw [Loop.lost, if_neg hlast]

theorem swap_kept (h : Kept sessionId start s)
    (hallowed : SettledPurges start s (Action.swap i))
    (hcell : (workLoop sessionId).step s.cell (Cas.Action.swap i) = some cell) :
    Kept sessionId start
      { s with
        cell := cell
        pending := s.pending ++ committedUpdate cell i } := by
  obtain ⟨hfresh, hsettled⟩ := hallowed
  have htracked := h.tracked.step hcell
  cases Loop.step_moves _ hcell with
  | @win _ _ n work draws next a hi =>
      simp only [isFresh, hi] at hfresh
      simp only [purgesSettled, hi] at hsettled
      cases work with
      | write description metadata waitDurable =>
          exact h.won_write hi hfresh
      | apply update =>
          exact h.won_apply hi
      | purge id =>
          exact h.won_purge hi (by simpa using hsettled)
      | delete id =>
          exact h.won_delete hi
  | lose hi hversion =>
      rw [committedUpdate_lost hi, List.append_nil]
      refine h.moved hi ?_ htracked rfl rfl rfl
      intro outcome hreturned
      cases hreturned

variable {capacity : Nat}

theorem submit_kept {closed : Bool} (h : Kept sessionId start s)
    (hstep : step sessionId capacity s (Action.submit update closed) =
      some s') :
    Kept sessionId start s' := by
  simp only [step] at hstep
  split at hstep
  · next hmem =>
    have herase : forall id, (s.pending.erase update).countP (named id) +
        (if update.id == id then 1 else 0) =
          s.pending.countP (named id) := by
      intro id
      exact countP_erase hmem
    split at hstep
    · cases hstep
      refine h.relax h.tracked rfl rfl ?_
      intro id
      have := herase id
      unfold outstanding
      dsimp only
      rw [List.countP_append, List.countP_singleton]
      unfold named at this ⊢
      omega
    · obtain ⟨cell, hcell, rfl⟩ := Option.map_eq_some_iff.mp hstep
      refine callApply_kept h hcell rfl ?_
      intro id
      have := herase id
      dsimp only
      omega
  · cases hstep

theorem take_kept (h : Kept sessionId start s)
    (hstep : step sessionId capacity s Action.take = some s') :
    Kept sessionId start s' := by
  simp only [step] at hstep
  split at hstep
  · cases hstep
  · next update rest hqueue =>
    split at hstep
    · obtain ⟨cell, hcell, rfl⟩ := Option.map_eq_some_iff.mp hstep
      refine callApply_kept h hcell rfl ?_
      intro id
      dsimp only
      rw [hqueue, List.countP_cons]
      unfold named
      omega
    · cases hstep

theorem step_kept {action : Action} (h : Kept sessionId start s)
    (hallowed : SettledPurges start s action)
    (hstep : step sessionId capacity s action = some s') :
    Kept sessionId start s' := by
  cases action with
  | request work =>
      simp only [step] at hstep
      cases work with
      | apply update =>
          cases hstep
      | write description metadata waitDurable | purge id | delete id =>
          obtain ⟨cell, hcell, rfl⟩ := Option.map_eq_some_iff.mp hstep
          exact request_kept h rfl hcell
  | load i =>
      simp only [step] at hstep
      obtain ⟨cell, hcell, rfl⟩ := Option.map_eq_some_iff.mp hstep
      exact load_kept h hcell
  | compute i draws =>
      simp only [step] at hstep
      obtain ⟨cell, hcell, rfl⟩ := Option.map_eq_some_iff.mp hstep
      exact compute_kept h hcell
  | swap i =>
      simp only [step] at hstep
      obtain ⟨cell, hcell, rfl⟩ := Option.map_eq_some_iff.mp hstep
      exact swap_kept h hallowed hcell
  | submit update closed =>
      exact submit_kept h hstep
  | take =>
      exact take_kept h hstep

/-!
# All runs
-/

/-- The graph of a start is that of updates counted once each. -/
structure Ledger.Sound (start : Ledger) : Prop where
  counts : start.session.entityGraph.unlinked =
    (applyAll start.counted).unlinked
  distinct : (idsOf start.session).Nodup
  once : forall id, id ∈ idsOf start.session ->
    timesCounted start.counted id ≤ 1

theorem kept_init (hstart : start.Sound) :
    Kept sessionId start (merging sessionId capacity start).init where
  tracked := by
    have hreachable : System.Reachable ((workLoop sessionId).system start.session)
        System.Anything (merging sessionId capacity start).init.cell :=
      System.Reachable.init
    exact Loop.tracked hreachable
  counts := hstart.counts
  distinct := hstart.distinct
  ids := by
    intro id hid
    exact List.mem_append_left _ (List.mem_append_left _ hid)
  counted := by
    intro x hx
    exact List.mem_append_left _
      (List.mem_append_right _ (List.mem_map_of_mem hx))
  waiting := by
    intro id hid
    exact absurd rfl hid
  once := by
    intro id hid
    exact hstart.once id hid
  purged := by
    intro e id hlast
    cases hlast

theorem kept_reachable (hstart : start.Sound)
    (h : (merging sessionId capacity start).Reachable (SettledPurges start) s) :
    Kept sessionId start s :=
  h.invariant (kept_init hstart)
    (fun _ _ _ hs hallowed hstep => step_kept hs hallowed hstep)

def isQuiet (sessionId : Uuid) (s : State) : Bool :=
  s.pending.isEmpty && s.queue.isEmpty &&
    s.cell.calls.all (fun call =>
      match call.stage with
      | Stage.returned (Outcome.failed e) =>
          e != (workLoop sessionId).exhausted call.request
      | Stage.returned _ => true
      | _ => false)

/-- The graph is that of the counted updates, none that remains is counted
twice, and after a purge each that remains is counted once. -/
structure ExactlyOnce (sessionId : Uuid) (start : Ledger) (s : State) :
    Prop where
  counts : s.cell.current.entityGraph.unlinked =
    (applyAll (ledgerOf sessionId start s.cell.log).counted).unlinked
  once : forall id, id ∈ idsOf s.cell.current ->
    timesCounted (ledgerOf sessionId start s.cell.log).counted id ≤ 1
  purged : isQuiet sessionId s = true -> forall (e : Swap Work Draws) (id : Uuid),
    lastChange s.cell.log = some e -> e.request = Work.purge id ->
      s.cell.current.entityGraph.unlinked =
        (applyAll (s.cell.current.incrementalUpdates.map
          (fun u => (e.d.now, u)))).unlinked

/-- The graph merges each update once in every run in which purges commit when
the graph work of the updates that remain is done. -/
theorem settled_purges_merge_once {sessionId : Uuid} {capacity : Nat}
    {start : Ledger} (hstart : start.Sound) {s : State}
    (h : (merging sessionId capacity start).Reachable (SettledPurges start) s) :
    ExactlyOnce sessionId start s := by
  have hkept := kept_reachable hstart h
  refine ⟨hkept.counts, ?_, ?_⟩
  · intro id hid
    have := hkept.once id hid
    omega
  · intro _ e id hlast hpurge
    rw [hkept.counts, hkept.purged e id hlast hpurge]

end

/-!
# A purge after the graph work, and one before it
-/

attribute [local instance] EntityGraph.asciiTables hyphenatedText

def emptyLedger : Ledger where
  session := ActiveSession.new 0 none none 0
  counted := []

def naming (id : Uuid) (name : String) : ContextUpdate :=
  { ContextUpdate.plain id 1 "named" with createsEntities := [name] }

def writing (id : Uuid) (name : String) : Action :=
  Action.request
    (Work.write "" (some (Except.ok (naming id name))) false)

def committing (i : Nat) (now : Timestamp) : List Action :=
  [Action.load i, Action.compute i ⟨now, 9, 8, 7⟩, Action.swap i]

theorem emptyLedger_sound : emptyLedger.Sound where
  counts := rfl
  distinct := List.nodup_nil
  once := by
    intro id hid
    cases hid

def settledRun : List Action :=
  [writing 1 "a"] ++ committing 0 1 ++ [writing 2 "a"] ++ committing 1 2 ++
    [Action.submit (naming 1 "a") false, Action.submit (naming 2 "a") false,
      Action.take] ++ committing 2 3 ++ [Action.take] ++ committing 3 4 ++
    [Action.request (Work.purge 1)] ++ committing 4 5

def earlyPurgeRun : List Action :=
  [writing 1 "a"] ++ committing 0 1 ++
    [Action.submit (naming 1 "a") false, Action.take] ++ committing 1 2 ++
    [writing 2 "a"] ++ committing 2 3 ++
    [Action.request (Work.purge 1)] ++ committing 3 4 ++
    [Action.submit (naming 2 "a") false, Action.take] ++ committing 4 5

def mentionCountOf (s : State) (name : String) : Option Nat :=
  s.cell.current.entityGraph.entities[name]?.map EntityData.mentionCount

theorem settled_purges_merge_once_in_order :
    exists s, (merging 0 2 emptyLedger).Reachable (SettledPurges emptyLedger) s ∧
      isQuiet 0 s = true ∧ idsOf s.cell.current = [2] ∧
      mentionCountOf s "a" = some 1 ∧ ExactlyOnce 0 emptyLedger s := by
  obtain ⟨s, -, hreach, hquiet, hids, hcount⟩ :=
    (merging 0 2 emptyLedger).replay_reaches (SettledPurges emptyLedger) settledRun
      (fun s => isQuiet 0 s = true ∧ idsOf s.cell.current = [2] ∧
        mentionCountOf s "a" = some 1) (by decide +kernel)
  exact ⟨s, hreach, hquiet, hids, hcount,
    settled_purges_merge_once emptyLedger_sound hreach⟩

/-- The update that remains is counted by the purge and by its own work. -/
theorem early_purge_counts_twice :
    exists s, (merging 0 2 emptyLedger).Reachable (FreshIds emptyLedger) s ∧
      isQuiet 0 s = true ∧ idsOf s.cell.current = [2] ∧
      mentionCountOf s "a" = some 2 ∧
      ¬ ExactlyOnce 0 emptyLedger s := by
  obtain ⟨s, -, hreach, hquiet, hids, hcount, htwice⟩ :=
    (merging 0 2 emptyLedger).replay_reaches (FreshIds emptyLedger) earlyPurgeRun
      (fun s => isQuiet 0 s = true ∧ idsOf s.cell.current = [2] ∧
        mentionCountOf s "a" = some 2 ∧
        timesCounted (ledgerOf 0 emptyLedger s.cell.log).counted 2 = 2)
      (by decide +kernel)
  refine ⟨s, hreach, hquiet, hids, hcount, ?_⟩
  intro honce
  have := honce.once 2 (by rw [hids]; exact List.mem_singleton_self _)
  omega

end GraphMerging
end Memory
end PostCortex
