import PostCortex.Persister.Coverage

/-!
# Coalescing

What the merged requests of the current handle get: their rows and removals
are part of a successful write, and the last successful write is at least as
new as every one of them.
-/

namespace PostCortex
namespace Persister

open PostCortex.Core
open Transition

/-- A delete that requeues its leftover drops no row: `merge` applies the
leftover's removals to rows queued after them. -/
def RequeueKeepsRows (s : Lane) : Action -> Prop
  | Action.deletion d DeleteAction.requeue =>
      (forall x, x ∈ (s.deletion d).leftover.updates ->
        ¬ Pending.Cancels (s.deletion d).leftover.removed x) ∧
      forall k, k ∈ s.registered -> forall x, x ∈ (s.pending k).updates ->
        ¬ Pending.Cancels (s.deletion d).leftover.removed x
  | _ => True

instance (s : Lane) : (a : Action) -> Decidable (RequeueKeepsRows s a)
  | Action.deletion _ DeleteAction.requeue => inferInstanceAs (Decidable (_ ∧ _))
  | Action.create | Action.register _ | Action.commit _ | Action.drop _
  | Action.enqueue _ _ _ _ | Action.queue _ | Action.waitQueued
  | Action.flushCollect | Action.flushForget _ | Action.drain _ _
  | Action.delete _ | Action.exclusive | Action.critical _ _
  | Action.deletion _ DeleteAction.retire
  | Action.deletion _ DeleteAction.lookup
  | Action.deletion _ DeleteAction.request
  | Action.deletion _ DeleteAction.begin
  | Action.deletion _ (DeleteAction.finish _)
  | Action.deletion _ DeleteAction.unregister
  | Action.deletion _ DeleteAction.take
  | Action.deletion _ DeleteAction.judge
  | Action.deletion _ DeleteAction.release => isTrue trivial

def Succeeds (_ : Lane) : Action -> Prop
  | Action.drain _ (DrainAction.finish false) => False
  | _ => True

instance (s : Lane) (a : Action) : Decidable (Succeeds s a) := by
  unfold Succeeds
  split <;> infer_instance

/-- Handles are registered before use, no request joins a queue that holds a
request of a later incarnation, and requeueing drops no row. -/
def Coalesces (s : Lane) (a : Action) : Prop :=
  UsesRegistered s a ∧ JoinsNoneNewer s a ∧ RequeueKeepsRows s a

instance (s : Lane) (a : Action) : Decidable (Coalesces s a) :=
  inferInstanceAs (Decidable (_ ∧ _ ∧ _))

/-!
# Rows and removals
-/

def CarriedRow (s : Lane) (ok : Bool) (x : Row) : Prop :=
  exists w, Event.wrote w ok ∈ s.trace ∧ x ∈ w.updates

def CarriedRemoval (s : Lane) (ok : Bool) (x : Removal) : Prop :=
  exists w, Event.wrote w ok ∈ s.trace ∧ x ∈ w.removed

def Event.ended (ok : Bool) : Event -> Option Write
  | Event.wrote w result => if result = ok then some w else none
  | _ => none

theorem mem_ended {trace : List Event} {ok : Bool} {w : Write} :
    w ∈ trace.filterMap (Event.ended ok) ↔ Event.wrote w ok ∈ trace := by
  rw [List.mem_filterMap]
  constructor
  · rintro ⟨e, he, hended⟩
    cases e with
    | wrote v result =>
        simp only [Event.ended, Option.ite_none_right_eq_some,
          Option.some.injEq] at hended
        rcases hended with ⟨rfl, rfl⟩
        exact he
    | queued _ | writeStarted _ | told _ _ | erased _ _ => cases hended
  · intro he
    exact ⟨_, he, if_pos rfl⟩

instance (s : Lane) (ok : Bool) (x : Row) : Decidable (CarriedRow s ok x) :=
  decidable_of_iff
    (exists w, w ∈ s.trace.filterMap (Event.ended ok) ∧ x ∈ w.updates)
    (by simp only [mem_ended, CarriedRow])

instance (s : Lane) (ok : Bool) (x : Removal) :
    Decidable (CarriedRemoval s ok x) :=
  decidable_of_iff
    (exists w, w ∈ s.trace.filterMap (Event.ended ok) ∧ x ∈ w.removed)
    (by simp only [mem_ended, CarriedRemoval])

def RemovedLater (s : Lane) (c : Nat) (id : Uuid) : Prop :=
  exists n, (s.call n).stage = CallStage.queued ∧
    (s.call c).order < (s.call n).order ∧ id ∈ (s.call n).removed

def Cancelled (s : Lane) (c : Nat) (id : Uuid) : Prop :=
  id ∈ (s.call c).removed ∨ RemovedLater s c id

/-- `Cancelled`, as far as the counters go. -/
def CancelledNow (s : Lane) (c : Nat) (id : Uuid) : Prop :=
  id ∈ (s.call c).removed ∨
    exists n, n < s.callCount ∧ (s.call n).stage = CallStage.queued ∧
      (s.call c).order < (s.call n).order ∧ id ∈ (s.call n).removed

instance (s : Lane) (c : Nat) (id : Uuid) : Decidable (CancelledNow s c id) := by
  unfold CancelledNow
  infer_instance

variable {s : Lane} {c : Nat}

theorem Cancelled.now (hnumbered : Numbered s) {id : Uuid} (h : Cancelled s c id) :
    CancelledNow s c id := by
  rcases h with hself | ⟨n, hn, hlater⟩
  · exact Or.inl hself
  · right
    refine ⟨n, ?_, hn, hlater⟩
    by_contra hge
    rw [hnumbered.call n (Nat.le_of_not_lt hge)] at hn
    cases hn

def Counts (s : Lane) (c : Nat) (h : Handle) : Prop :=
  (s.call c).stage = CallStage.queued ∧ (s.call c).handle = some h ∧ Live s h

/-- `Counts`, as far as the counters go. -/
def CountsNow (s : Lane) (c : Nat) (h : Handle) : Prop :=
  (s.call c).stage = CallStage.queued ∧ (s.call c).handle = some h ∧
    Known s h ∧ s.standing h = Standing.current ∧
    forall d, d < s.deleteCount -> (s.deletion d).stage ≠ DeleteStage.marked

instance (s : Lane) (c : Nat) (h : Handle) : Decidable (CountsNow s c h) := by
  unfold CountsNow Known
  infer_instance

variable {h : Handle}

theorem CountsNow.counts (hnumbered : Numbered s) (hc : CountsNow s c h) :
    Counts s c h := by
  rcases hc with ⟨hstage, hhandle, hknown, hstand, hunmarked⟩
  refine ⟨hstage, hhandle, hknown, hstand, ?_⟩
  rintro ⟨d, hd⟩
  rcases Nat.lt_or_ge d s.deleteCount with hlt | hge
  · exact hunmarked d hlt hd
  · rw [hnumbered.deletion d hge] at hd
    cases hd

structure Delivers (s : Lane) : Prop where
  numbers : Numbers s
  rows : forall c h, Counts s c h -> forall u, u ∈ (s.call c).updates ->
    Waiting s (fun p => Row.mk c u ∈ p.updates) ∨
    Running s (fun p => Row.mk c u ∈ p.updates) ∨
    (exists ok, CarriedRow s ok (Row.mk c u)) ∨ Cancelled s c u.id
  removals : forall c h, Counts s c h ->
    Waiting s (fun p => c ∈ p.requests) ∨
    Running s (fun p => c ∈ p.requests) ∨
    exists ok, forall id, id ∈ (s.call c).removed ->
      CarriedRemoval s ok (Removal.mk c id)

theorem delivers_empty : Delivers Lane.empty := by
  constructor
  · intro c hc
    cases hc
  · intro c h hc
    cases hc.1
  · intro c h hc
    cases hc.1

theorem CarriedRow.step {s s' : Lane} {a : Action} (hs : s.step a = some s')
    {ok : Bool} {x : Row} (h : CarriedRow s ok x) :
    CarriedRow s' ok x := by
  rcases step_trace hs with ⟨events, heq, -⟩
  rcases h with ⟨w, hw, hx⟩
  exact ⟨w, heq ▸ List.mem_append_right _ hw, hx⟩

theorem CarriedRemoval.step {s s' : Lane} {a : Action}
    (hs : s.step a = some s') {ok : Bool} {x : Removal}
    (h : CarriedRemoval s ok x) :
    CarriedRemoval s' ok x := by
  rcases step_trace hs with ⟨events, heq, -⟩
  rcases h with ⟨w, hw, hx⟩
  exact ⟨w, heq ▸ List.mem_append_right _ hw, hx⟩

theorem Cancelled.step {s s' : Lane} {a : Action} (hnumbered : Numbered s)
    (hs : s.step a = some s') {c : Nat} {id : Uuid}
    (hc : (s.call c).stage = CallStage.queued) (h : Cancelled s c id) :
    Cancelled s' c id := by
  unfold Cancelled
  rw [step_call_queued hnumbered hs hc]
  rcases h with hself | ⟨n, hn, hlt, hid⟩
  · exact Or.inl hself
  · right
    refine ⟨n, ?_, ?_, ?_⟩
    · rwa [step_call_queued hnumbered hs hn]
    · rwa [step_call_queued hnumbered hs hn, step_call_queued hnumbered hs hc]
    · rwa [step_call_queued hnumbered hs hn]

variable {s' : Lane} {a : Action}

theorem step_counts (hbasic : Basic s) (hdir' : Directory s') (hord : Ordered s)
    (hs : s.step a = some s') (hc : Counts s' c h) :
    (Counts s c h ∧ s'.call c = s.call c) ∨
      (a = Action.queue c ∧ s'.call c = s.queuedCall c ∧
        exists k p, s'.pending k = Pending.merge p ((s'.call c).work c)) := by
  rcases hc with ⟨hstage, hhandle, hlive⟩
  rcases step_queued hs hstage hhandle with ⟨hold, hsame⟩ | hnew
  · left
    rw [hsame] at hhandle
    refine ⟨⟨hold, hhandle, ?_⟩, hsame⟩
    rcases step_live hbasic.numbered hbasic.directory hdir' hs hlive with
      hlive | rfl
    · exact hlive
    · have hborn := (hord.held.same c h (Or.inr hold) hhandle).2
      exact absurd (guarded.mp hs).1.2 hborn
  · exact Or.inr hnew

variable {k : SlotId}

theorem finish_written {ok : Bool}
    (hs : s.step (Action.drain k (DrainAction.finish ok)) = some s') :
    Event.wrote (Lane.writeOf (s.drainer k) (s.drainer k).version) ok ∈
      s'.trace := by
  rcases guarded.mp hs with ⟨_, rfl⟩
  simp [Lane.finishWrite, Lane.emit]

theorem queued_removal {n : Nat} (hnumbers : Numbers s)
    (hs : s.step (Action.queue n) = some s')
    (hc : (s.call c).stage = CallStage.queued) (hsame : s'.call c = s.call c)
    {x : Row} (hcancels : Pending.Cancels ((s.call n).work n).removed x) :
    RemovedLater s' c x.update.id := by
  rcases guarded.mp hs with ⟨_, rfl⟩
  have hcall : (s.queue n).call n = s.queuedCall n := by
    rw [queue_call, Function.update_self]
  refine ⟨n, ?_, ?_, ?_⟩
  · rw [hcall]
    rfl
  · rw [hcall, hsame]
    exact hnumbers c hc
  · have hmem : x.update.id ∈ (s.call n).removed := by
      simpa [Pending.Cancels, Call.work] using hcancels
    rw [hcall]
    exact hmem

variable {u : ContextUpdate}

theorem tracks_row (hnumbers : Numbers s) (hkeeps : RequeueKeepsRows s a)
    (hs : s.step a = some s') (hc : (s.call c).stage = CallStage.queued)
    (hsame : s'.call c = s.call c) (hlater : ¬ Cancelled s' c u.id) :
    Tracks s a c (fun p => Row.mk c u ∈ p.updates) := by
  constructor
  · exact fun p hsound hrow => (hsound.row _ hrow).1
  · intro k work hreg hwork hrow
    refine Pending.mem_merge_updates.mpr ⟨Or.inl hrow, ?_⟩
    rcases hwork with ⟨n, rfl, rfl⟩ | ⟨d, rfl, rfl⟩
    · exact fun hcancels =>
        hlater (Or.inr (queued_removal hnumbers hs hc hsame hcancels))
    · exact hkeeps.2 k hreg _ hrow
  · rintro d p rfl hrow
    exact Pending.mem_merge_updates.mpr ⟨Or.inr hrow, hkeeps.1 _ hrow⟩
  · exact fun p n hrow => hrow

theorem tracks_requests (s : Lane) (a : Action) (c : Nat) :
    Tracks s a c (fun p => c ∈ p.requests) := by
  constructor
  · exact fun p _ hc => hc
  · exact fun k work _ _ hc => List.mem_append_left _ hc
  · exact fun d p _ hc => List.mem_append_right _ hc
  · exact fun p n hc => List.mem_append_left _ hc

variable {x : Handle}

theorem step_rows (hbasic : Basic s) (hdir' : Directory s') (hord : Ordered s)
    (h : Delivers s) (hkeeps : RequeueKeepsRows s a) (hs : s.step a = some s')
    (hc : Counts s' c x) (hu : u ∈ (s'.call c).updates) :
    Waiting s' (fun p => Row.mk c u ∈ p.updates) ∨
    Running s' (fun p => Row.mk c u ∈ p.updates) ∨
    (exists ok, CarriedRow s' ok (Row.mk c u)) ∨ Cancelled s' c u.id := by
  by_cases hlater : Cancelled s' c u.id
  · exact Or.inr (Or.inr (Or.inr hlater))
  rcases step_counts hbasic hdir' hord hs hc with
    ⟨hold, hsame⟩ | ⟨rfl, hcall, k, p, hpending⟩
  · have hQ := tracks_row h.numbers hkeeps hs hold.1 hsame hlater
    have hflight := step_inFlight hbasic hord hQ hold.2.1 hold.2.2 hs
      (E := (exists ok, CarriedRow s' ok (Row.mk c u)) ∨
        Cancelled s' c u.id) (by
        rintro k ok rfl hrow
        exact Or.inl ⟨ok, _, finish_written hs, hrow⟩)
    rw [hsame] at hu
    rcases h.rows c x hold u hu with
      hwaiting | hrunning | ⟨ok, hcarried⟩ | hremoved
    · exact hflight (Or.inl hwaiting)
    · exact hflight (Or.inr hrunning)
    · exact Or.inr (Or.inr (Or.inl ⟨ok, hcarried.step hs⟩))
    · exact absurd (hremoved.step hbasic.numbered hs hold.1) hlater
  · left
    left
    refine ⟨k, ?_⟩
    rw [hpending]
    refine Pending.mem_merge_updates.mpr ⟨Or.inr ?_, ?_⟩
    · exact List.mem_map.mpr ⟨u, hu, rfl⟩
    · intro hcancels
      apply hlater
      left
      simpa [Pending.Cancels, Call.work] using hcancels

theorem step_removals (hbasic : Basic s) (hdir' : Directory s') (hord : Ordered s)
    (h : Delivers s) (hs : s.step a = some s') (hc : Counts s' c x) :
    Waiting s' (fun p => c ∈ p.requests) ∨
    Running s' (fun p => c ∈ p.requests) ∨
    exists ok, forall id, id ∈ (s'.call c).removed ->
      CarriedRemoval s' ok (Removal.mk c id) := by
  rcases step_counts hbasic hdir' hord hs hc with
    ⟨hold, hsame⟩ | ⟨rfl, hcall, k, p, hpending⟩
  · rw [hsame]
    have hflight := step_inFlight hbasic hord (tracks_requests s a c)
      hold.2.1 hold.2.2 hs
      (E := exists ok, forall id, id ∈ (s.call c).removed ->
        CarriedRemoval s' ok (Removal.mk c id)) (by
        rintro k ok rfl hrequest
        refine ⟨ok, fun id hid => ⟨_, finish_written hs, ?_⟩⟩
        exact (hbasic.queues.batch k).removal c id hrequest hid)
    rcases h.removals c x hold with hwaiting | hrunning | ⟨ok, hcarried⟩
    · exact hflight (Or.inl hwaiting)
    · exact hflight (Or.inr hrunning)
    · exact Or.inr (Or.inr ⟨ok, fun id hid => (hcarried id hid).step hs⟩)
  · left
    left
    refine ⟨k, ?_⟩
    rw [hpending]
    exact List.mem_append_right _ (List.mem_singleton.mpr rfl)

theorem step_delivers (hbasic : Basic s) (hdir' : Directory s') (hord : Ordered s)
    (h : Delivers s) (hkeeps : RequeueKeepsRows s a) (hs : s.step a = some s') :
    Delivers s' where
  numbers := step_numbers h.numbers hs
  rows _ _ hc _ hu := step_rows hbasic hdir' hord h hkeeps hs hc hu
  removals _ _ hc := step_removals hbasic hdir' hord h hs hc

/-!
# Snapshots
-/

def lastWritten (trace : List Event) : Option (Handle × Nat) :=
  trace.findSome? (fun e =>
    match e with
    | Event.wrote w true => some (w.handle, w.version)
    | _ => none)

theorem finish_lastWritten
    (hs : s.step (Action.drain k (DrainAction.finish true)) = some s') :
    lastWritten s'.trace =
      some ((s.drainer k).handle, (s.drainer k).version) := by
  rcases guarded.mp hs with ⟨_, rfl⟩
  rfl

theorem step_lastWritten (hs : s.step a = some s')
    (hfinish : forall k, a ≠ Action.drain k (DrainAction.finish true)) :
    lastWritten s'.trace = lastWritten s.trace := by
  rcases step_trace hs with ⟨events, heq, hemits, -⟩
  unfold lastWritten
  rw [heq, List.findSome?_append]
  have hnone : events.findSome? (fun e =>
      match e with
      | Event.wrote w true => some (w.handle, w.version)
      | _ => none) = none := by
    rw [List.findSome?_eq_none_iff]
    intro e he
    cases hemits e he with
    | @wrote k ok _ =>
        cases ok with
        | true => exact absurd rfl (hfinish k)
        | false => rfl
    | queued _ | refused _ | writeStarted _ | told _ _ | erased _
    | dropped _ _ => rfl
  rw [hnone]
  rfl

theorem step_version (hnumbered : Numbered s) (hs : s.step a = some s')
    (hx : s.incarnation x ≠ none) :
    s.version x ≤ s'.version x := by
  apply (step_counters hs).version
  rintro rfl
  exact hx (hnumbered.handle _ (Nat.le_refl _)).2

structure Snapshots (s : Lane) : Prop where
  versions : forall c h, (s.call c).stage = CallStage.queued ->
    (s.call c).handle = some h -> (s.call c).version ≤ s.version h
  serves : forall c h k, Counts s c h ->
    ¬ Waiting s (fun p => c ∈ p.requests) ->
    (s.drainer k).stage = DrainStage.ready ∨
      (s.drainer k).stage = DrainStage.writing ->
    (s.drainer k).handle = h ∧
      ((s.drainer k).stage = DrainStage.writing ->
        (s.call c).version ≤ (s.drainer k).version)
  written : forall c h, Counts s c h ->
    Waiting s (fun p => c ∈ p.requests) ∨
    Running s (fun p => c ∈ p.requests) ∨
    exists v, lastWritten s.trace = some (h, v) ∧ (s.call c).version ≤ v

theorem snapshots_empty : Snapshots Lane.empty := by
  constructor
  · intro c h hc
    cases hc
  · intro c h k hc
    cases hc.1
  · intro c h hc
    cases hc.1

theorem step_versions (hbasic : Basic s) (hord : Ordered s) (h : Snapshots s)
    (hs : s.step a = some s') (hc : (s'.call c).stage = CallStage.queued)
    (hhandle : (s'.call c).handle = some x) :
    (s'.call c).version ≤ s'.version x := by
  rcases step_queued hs hc hhandle with ⟨hold, hsame⟩ | ⟨rfl, hcall, -⟩
  · rw [hsame] at hhandle ⊢
    have hborn := (hord.held.same c x (Or.inr hold) hhandle).2
    exact Nat.le_trans (h.versions c x hold hhandle)
      (step_version hbasic.numbered hs hborn)
  · rw [hcall] at hhandle ⊢
    have hstage := (guarded.mp hs).1
    have hhandle : (s.call c).handle = some x := hhandle
    have hborn := (hord.held.same c x (Or.inl hstage) hhandle).2
    have hversion : (s.queuedCall c).version = s.version x := by
      simp [Lane.queuedCall, hhandle]
    rw [hversion]
    exact step_version hbasic.numbered hs hborn

theorem resolve_live (hbasic : Basic s) (hord : Ordered s) (hh : Live s h)
    (hstage : (s.drainer k).stage = DrainStage.taken)
    (hready : (s.resolveBatch k).stage = DrainStage.ready) :
    (s.resolveBatch k).handle = h := by
  have hnewest := (hh.born hbasic.directory).2
  rcases resolveBatch_cases s k with hfinished | ⟨-, x, hx, hstand⟩
  · rw [hready] at hfinished
    cases hfinished
  · have hknown := hord.held.sources.batch k x hstage hx
    rcases hstand with ⟨hcurrent, hsame⟩ | hsuperseded
    · rw [hsame]
      exact hbasic.directory.newest_unique
        (standing_current hbasic.directory hknown hcurrent).1 hnewest
    · exact (standing_superseded_some hbasic.directory hknown
        hsuperseded).2.2 h hnewest

theorem step_chooses (hs : s.step a = some s')
    (hk : (s'.drainer k).stage = DrainStage.ready ∨
      (s'.drainer k).stage = DrainStage.writing) :
    ((s.drainer k).stage = DrainStage.ready ∨
      (s.drainer k).stage = DrainStage.writing) ∨
    (a = Action.drain k DrainAction.resolve ∧
      (s.drainer k).stage = DrainStage.taken ∧
      s'.drainer k = s.resolveBatch k) := by
  rcases step_drainer hs k with hsame | ⟨x, rfl⟩ | ⟨-, hspawned⟩
  · rw [hsame] at hk
    exact Or.inl hk
  · cases x with
    | request | release =>
        rcases guarded.mp hs with ⟨_, rfl⟩
        simp [Lane.setDrainer, Lane.setLock, Lane.emit] at hk
    | take =>
        rcases guarded.mp hs with ⟨_, rfl⟩
        simp [Lane.setDrainer, Lane.setPending] at hk
    | resolve =>
        rcases guarded.mp hs with ⟨hstage, rfl⟩
        exact Or.inr ⟨rfl, hstage, by simp [Lane.setDrainer]⟩
    | begin =>
        rcases guarded.mp hs with ⟨hstage, rfl⟩
        exact Or.inl (Or.inl hstage)
    | finish ok =>
        rcases guarded.mp hs with ⟨_, rfl⟩
        simp [Lane.finishWrite, Lane.emit] at hk
    | unregister | recheck =>
        rcases guarded.mp hs with ⟨_, rfl⟩
        split at hk <;> simp [Lane.setDrainer] at hk
  · rw [hspawned] at hk
    rcases hk with hk | hk <;> cases hk

theorem step_serves (hbasic : Basic s) (hdir' : Directory s')
    (hreg' : Registration s') (hord : Ordered s) (h : Snapshots s)
    (hs : s.step a = some s') (hc : Counts s' c x)
    (hwaiting : ¬ Waiting s' (fun p => c ∈ p.requests))
    (hk : (s'.drainer k).stage = DrainStage.ready ∨
      (s'.drainer k).stage = DrainStage.writing) :
    (s'.drainer k).handle = x ∧
      ((s'.drainer k).stage = DrainStage.writing ->
        (s'.call c).version ≤ (s'.drainer k).version) := by
  rcases step_counts hbasic hdir' hord hs hc with
    ⟨hold, hsame⟩ | ⟨rfl, hcall, j, p, hpending⟩
  · rw [hsame]
    rcases step_chooses hs hk with hrunning | ⟨rfl, htaken, heq⟩
    · rcases step_running hord hs hrunning with
        ⟨-, -, hhandle, hversion⟩ | ⟨ok, rfl, hstage⟩
      · by_cases hbefore : Waiting s (fun p => c ∈ p.requests)
        · rcases step_waiting hbasic hord (tracks_requests s a c) hold.2.1
              hold.2.2 hs hbefore with hafter | ⟨j, ha, hready, hserved, -⟩
          · exact absurd hafter hwaiting
          · have hj := hreg'.writing (Or.inl hready)
            have hjk : j = k := Option.some.inj (hj.symm.trans (hreg'.writing hk))
            subst hjk
            exact ⟨hserved, fun hwriting => by rw [hready] at hwriting; cases hwriting⟩
        · rcases h.serves c x k hold hbefore hrunning with ⟨hserved, hle⟩
          refine ⟨hhandle.trans hserved, ?_⟩
          intro hwriting
          rcases hversion hwriting with ⟨hwas, hsame⟩ | hsame
          · rw [hsame]
            exact hle hwas
          · rw [hsame, hserved]
            exact h.versions c x hold.1 hold.2.1
      · rcases guarded.mp hs with ⟨_, rfl⟩
        simp [Lane.finishWrite, Lane.emit] at hk
    · have hready : (s.resolveBatch k).stage = DrainStage.ready := by
        rw [heq] at hk
        rcases hk with hk | hk
        · exact hk
        · rcases resolveBatch_cases s k with hcase | ⟨hcase, -⟩ <;>
            rw [hk] at hcase <;> cases hcase
      rw [heq]
      refine ⟨resolve_live hbasic hord hold.2.2 htaken hready, ?_⟩
      intro hwriting
      rw [hready] at hwriting
      cases hwriting
  · apply absurd _ hwaiting
    left
    refine ⟨j, ?_⟩
    rw [hpending]
    exact List.mem_append_right _ (List.mem_singleton.mpr rfl)

theorem step_written (hbasic : Basic s) (hdir' : Directory s') (hord : Ordered s)
    (h : Snapshots s) (hsucceeds : Succeeds s a) (hs : s.step a = some s')
    (hc : Counts s' c x) :
    Waiting s' (fun p => c ∈ p.requests) ∨
    Running s' (fun p => c ∈ p.requests) ∨
    exists v, lastWritten s'.trace = some (x, v) ∧ (s'.call c).version ≤ v := by
  rcases step_counts hbasic hdir' hord hs hc with
    ⟨hold, hsame⟩ | ⟨rfl, hcall, k, p, hpending⟩
  · rw [hsame]
    by_cases hwaiting : Waiting s (fun p => c ∈ p.requests)
    · rcases step_waiting hbasic hord (tracks_requests s a c) hold.2.1
          hold.2.2 hs hwaiting with hafter | ⟨j, -, hready, -, hrequest⟩
      · exact Or.inl hafter
      · exact Or.inr (Or.inl ⟨j, Or.inl hready, hrequest⟩)
    · by_cases hfinish : exists k, a = Action.drain k (DrainAction.finish true)
      · rcases hfinish with ⟨k, rfl⟩
        have hstage := (guarded.mp hs).1
        rcases h.serves c x k hold hwaiting (Or.inr hstage) with ⟨hserved, hle⟩
        exact Or.inr (Or.inr
          ⟨_, by rw [finish_lastWritten hs, hserved], hle hstage⟩)
      · rcases h.written c x hold with hbefore | ⟨k, hk, hrequest⟩ | hwritten
        · exact absurd hbefore hwaiting
        · rcases step_running hord hs hk with ⟨hk', hbatch, -⟩ | ⟨ok, rfl, -⟩
          · exact Or.inr (Or.inl ⟨k, hk', by rwa [hbatch]⟩)
          · cases ok with
            | false => exact hsucceeds.elim
            | true => exact absurd ⟨k, rfl⟩ hfinish
        · have hlast := step_lastWritten hs (fun k heq => hfinish ⟨k, heq⟩)
          exact Or.inr (Or.inr (by rwa [hlast]))
  · left
    left
    refine ⟨k, ?_⟩
    rw [hpending]
    exact List.mem_append_right _ (List.mem_singleton.mpr rfl)

theorem step_snapshots (hbasic : Basic s) (hbasic' : Basic s') (hord : Ordered s)
    (h : Snapshots s) (hsucceeds : Succeeds s a) (hs : s.step a = some s') :
    Snapshots s' where
  versions _ _ hc hhandle := step_versions hbasic hord h hs hc hhandle
  serves _ _ _ hc hwaiting hk :=
    step_serves hbasic hbasic'.directory hbasic'.registration hord h hs hc
      hwaiting hk
  written _ _ hc :=
    step_written hbasic hbasic'.directory hord h hsucceeds hs hc

/-!
# Runs
-/

structure Coalesced (s : Lane) : Prop where
  ordered : Ordered s
  delivers : Delivers s

theorem coalesced (h : lane.Reachable Coalesces s) :
    Coalesced s :=
  h.invariant_between (fun _ h => basic h) ⟨ordered_empty, delivers_empty⟩
    (fun _ _ _ hbasic hbasic' hcoal ha hs =>
      { ordered := step_ordered hbasic hcoal.ordered ha.1 ha.2.1 hs
        delivers := step_delivers hbasic hbasic'.directory hcoal.ordered
          hcoal.delivers ha.2.2 hs })

def CoalescesAndSucceeds (s : Lane) (a : Action) : Prop :=
  Coalesces s a ∧ Succeeds s a

instance (s : Lane) (a : Action) : Decidable (CoalescesAndSucceeds s a) :=
  inferInstanceAs (Decidable (_ ∧ _))

theorem snapshots (h : lane.Reachable CoalescesAndSucceeds s) :
    Snapshots s :=
  h.invariant_between
    (fun _ h => And.intro (basic h)
      (coalesced (h.mono (fun _ _ ha => ha.1))))
    snapshots_empty
    (fun _ _ _ hknown hknown' hsnap ha hs =>
      step_snapshots hknown.1 hknown'.1 hknown.2.ordered hsnap ha.2 hs)

theorem none_failed (h : lane.Reachable Succeeds s) (w : Write) :
    Event.wrote w false ∉ s.trace := by
  refine h.invariant (P := fun s => Event.wrote w false ∉ s.trace) ?_ ?_
  · intro hw
    cases hw
  · intro s a s' hnone hsucceeds hs hw
    rcases step_trace hs with ⟨events, heq, hemits, -⟩
    rw [heq] at hw
    rcases List.mem_append.mp hw with hnew | hold
    · cases hemits _ hnew with
      | wrote _ => exact hsucceeds
    · exact hnone hold

end Persister
end PostCortex
