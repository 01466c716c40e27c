import PostCortex.Persister.Current

/-!
# Queued work is written

A request made through the current handle stays in some queue until a write
carries it, unless an older request takes over the queue: the source of a
queue is the one merged last, and `write_batch` drops the whole batch when that
source was deleted.  So a run must not merge a request over one of a later
incarnation.
-/

namespace PostCortex
namespace Persister

open PostCortex.Core
open Transition

theorem lists_requests : Lists Pending.requests := by
  constructor
  · exact fun _ _ _ _ hc => hc
  · intro work c hc
    simpa [Pending.merge, Pending.empty] using hc
  · intro x n c hc
    simpa [Call.work] using hc
  · intro p n c hc
    simpa using hc

abbrev NoneNewer : Lane -> Handle -> Pending -> Prop :=
  Compares (fun n m => m ≤ n) Pending.requests

abbrev JoinsNoneNewer : Lane -> Action -> Prop :=
  Joins (fun n m => m ≤ n) Pending.requests

/-- The invariant of the runs that merge no request over a later one. -/
structure Ordered (s : Lane) : Prop where
  held : Held s
  newer : QueuesIn (NoneNewer s) s
  tombstoned : Tombstoned s

theorem ordered_empty : Ordered Lane.empty := by
  refine ⟨held_empty, queuesIn_empty _, ?_⟩
  intro h hh
  cases hh

structure Basic (s : Lane) : Prop where
  locks : Locks s
  numbered : Numbered s
  registration : Registration s
  queues : Queues s
  directory : Directory s

variable {s : Lane}

theorem basic {allowed : Lane -> Action -> Prop} (h : lane.Reachable allowed s) :
    Basic s :=
  ⟨locks h, numbered h, registration h, queues h, directory h⟩

variable {s' : Lane} {a : Action}

theorem step_ordered (hbasic : Basic s) (h : Ordered s)
    (hregistered : UsesRegistered s a) (hjoins : JoinsNoneNewer s a)
    (hs : s.step a = some s') :
    Ordered s' where
  held := step_held hbasic.locks hbasic.numbered hbasic.registration
    hbasic.directory h.held hregistered hs
  newer := step_compares lists_requests Nat.le_refl hbasic.numbered
    hbasic.queues hbasic.directory h.held h.newer hjoins hs
  tombstoned := step_tombstoned hbasic.numbered hbasic.directory h.held
    h.tombstoned hs

/-!
# A batch or leftover of the current handle is kept
-/

variable {h : Handle}

theorem Live.born (hdir : Directory s) (hh : Live s h) :
    s.incarnation h = some s.deletes ∧ Newest s h := by
  rcases standing_current hdir hh.1 hh.2.1 with ⟨hnewest, hborn, -⟩
  exact ⟨hborn, hnewest⟩

variable {c : Nat}

theorem source_of_live (hbasic : Basic s) (hord : Ordered s) {p : Pending}
    (hsound : p.Sound s.call) (hknown : forall x, p.source = some x -> Known s x)
    (hnewer : forall x, p.source = some x -> NoneNewer s x p) (hc : c ∈ p.requests)
    (hhandle : (s.call c).handle = some h) (hh : Live s h) :
    exists x, p.source = some x ∧ Known s x ∧
      s.incarnation x = some s.deletes ∧
      s.standing x ≠ Standing.deleted := by
  cases hsource : p.source with
  | none =>
      have hnone := (hsound.bare hsource).2.2 c hc
      rw [hhandle] at hnone
      cases hnone
  | some x =>
      have hx := hknown x hsource
      rcases Option.ne_none_iff_exists'.mp hx.2 with ⟨n, hn⟩
      have hle := hbasic.directory.born x n hn
      have hge := hnewer x hsource c hc h hhandle
      have hborn := (hh.born hbasic.directory).1
      simp only [Lane.born, hborn, hn, Option.getD_some] at hge
      have hsame : n = s.deletes := Nat.le_antisymm hle hge
      rw [hsame] at hn
      exact ⟨x, rfl, hx, hn,
        standing_of_live hbasic.directory hord.tombstoned hh hx hn⟩

/-- `write_batch` writes a batch with a request of the current handle, and
writes that handle's state. -/
theorem batch_of_live (hbasic : Basic s) (hord : Ordered s) {k : SlotId}
    (hstage : (s.drainer k).stage = DrainStage.taken)
    (hc : c ∈ (s.drainer k).batch.requests) (hhandle : (s.call c).handle = some h)
    (hh : Live s h) :
    (s.resolveBatch k).stage = DrainStage.ready ∧
      (s.resolveBatch k).handle = h := by
  have hsound := hbasic.queues.batch k
  rcases source_of_live hbasic hord hsound
      (fun x hx => hord.held.sources.batch k x hstage hx)
      (fun x hx => hord.newer.batch k x hstage hx) hc hhandle hh with
    ⟨x, hx, hknown, hborn, hstand⟩
  have hregistered : (s.drainer k).registered = true := by
    by_contra hnot
    have hempty := hbasic.registration.retired k
      (by simp [DrainStage.Owns, hstage]) (by simpa using hnot)
    have hnil := hsound.requests_eq_nil hempty
    simp [hnil] at hc
  have hnewest := (hh.born hbasic.directory).2
  unfold Lane.resolveBatch
  simp only [hx, hregistered]
  cases hcase : s.standing x with
  | current =>
      have hsame := (standing_current hbasic.directory hknown hcase).1
      exact ⟨rfl, hbasic.directory.newest_unique hsame hnewest⟩
  | superseded newest =>
      cases newest with
      | none =>
          exact absurd hnewest
            (standing_superseded_none hbasic.directory hknown hcase h)
      | some y =>
          exact ⟨rfl, (standing_superseded_some hbasic.directory hknown
            hcase).2.2 h hnewest⟩
  | deleted => exact absurd hcase hstand

theorem leftover_of_live (hbasic : Basic s) (hord : Ordered s) {d : Nat}
    (hc : c ∈ (s.deletion d).leftover.requests)
    (hhandle : (s.call c).handle = some h) (hh : Live s h) :
    s.Keeps (s.deletion d).leftover := by
  rcases source_of_live hbasic hord (hbasic.queues.leftover d)
      (hord.held.sources.leftover d) (hord.newer.leftover d) hc hhandle hh with
    ⟨x, hx, -, -, hstand⟩
  simp only [Lane.Keeps, hx]
  exact hstand

/-!
# In flight
-/

/-- A queue not yet given to `sink.write` satisfies `Q`. -/
def Waiting (s : Lane) (Q : Pending -> Prop) : Prop :=
  (exists k, Q (s.pending k)) ∨
  (exists k, (s.drainer k).stage = DrainStage.taken ∧ Q (s.drainer k).batch) ∨
  (exists d, Q (s.deletion d).leftover)

/-- A batch about to be written, or being written, satisfies `Q`. -/
def Running (s : Lane) (Q : Pending -> Prop) : Prop :=
  exists k,
    ((s.drainer k).stage = DrainStage.ready ∨
      (s.drainer k).stage = DrainStage.writing) ∧
    Q (s.drainer k).batch

def MergesWork (s : Lane) (a : Action) (work : Pending) : Prop :=
  (exists c, a = Action.queue c ∧ work = (s.call c).work c) ∨
  (exists d, a = Action.deletion d DeleteAction.requeue ∧
    work = (s.deletion d).leftover)

/-- `Q` says that a queue holds something of the call `c`, and the step's
merges keep it. -/
structure Tracks (s : Lane) (a : Action) (c : Nat) (Q : Pending -> Prop) :
    Prop where
  requests : forall p : Pending, p.Sound s.call -> Q p -> c ∈ p.requests
  merge : forall k work, s.registered = some k -> MergesWork s a work ->
    Q (s.pending k) -> Q ((s.pending k).merge work)
  requeue : forall d p, a = Action.deletion d DeleteAction.requeue ->
    Q (s.deletion d).leftover -> Q (Pending.merge p (s.deletion d).leftover)
  wait : forall (p : Pending) n, Q p ->
    Q { p with waiters := p.waiters ++ [n], requests := p.requests ++ [n] }

section

variable {s s' : Lane} {a : Action} {c : Nat} {h : Handle} {Q : Pending -> Prop}

theorem Tracks.not_empty (hQ : Tracks s a c Q) : ¬ Q Pending.empty := by
  intro hempty
  have hc := hQ.requests _ (Pending.sound_empty s.call) hempty
  cases hc

variable {k : SlotId}

theorem Tracks.slot (hbasic : Basic s) (hQ : Tracks s a c Q) (hk : Q (s.pending k)) :
    k < s.slotCount := by
  have hc := hQ.requests _ (hbasic.queues.pending k) hk
  have hne : ¬ (s.pending k).IsEmpty := by
    intro hempty
    have hnil := (hbasic.queues.pending k).requests_eq_nil hempty
    simp [hnil] at hc
  rcases hbasic.registration.stranded k hne with hreg | ⟨d, -, hslot⟩
  · exact hbasic.locks.registeredLt k hreg
  · exact hbasic.locks.deletionLt d k hslot

theorem Waiting.update (hpending : s'.pending = s.pending)
    (hdrainer : s'.drainer = s.drainer) (hdeletion : s'.deletion = s.deletion)
    (hwaiting : Waiting s Q) :
    Waiting s' Q := by
  unfold Waiting
  rw [hpending, hdrainer, hdeletion]
  exact hwaiting

variable {work : Pending}

theorem queueWork_waiting (hbasic : Basic s) (hord : Ordered s)
    (hQ : Tracks s a c Q) (hwork : MergesWork s a work) (hwaiting : Waiting s Q) :
    Waiting (s.queueWork work) Q := by
  have hslots : forall k, Q (s.pending k) -> k < s.slotCount :=
    fun k hk => hQ.slot hbasic hk
  have hunspawned := hord.held.sources.unspawned
  have hmerge := hQ.merge
  unfold Lane.queueWork
  split
  · next k hk =>
      rcases hwaiting with ⟨j, hj⟩ | hwaiting
      · left
        by_cases hjk : j = k
        · subst hjk
          exact ⟨j, by simpa using hmerge j work hk hwork hj⟩
        · exact ⟨j, by simpa [hjk] using hj⟩
      · exact Or.inr hwaiting
  · rcases hwaiting with ⟨j, hj⟩ | ⟨j, hstage, hj⟩ | hwaiting
    · left
      have hne : j ≠ s.slotCount := Nat.ne_of_lt (hslots j hj)
      exact ⟨j, by simpa [hne] using hj⟩
    · right
      left
      have hne : j ≠ s.slotCount := by
        rintro rfl
        rw [hunspawned _ (Nat.le_refl _)] at hstage
        cases hstage
      exact ⟨j, by simpa [hne] using hstage, by simpa [hne] using hj⟩
    · exact Or.inr (Or.inr hwaiting)

theorem queue_slots (s : Lane) (n : Nat) :
    (s.queue n).pending = (s.queueWork ((s.call n).work n)).pending ∧
    (s.queue n).drainer = (s.queueWork ((s.call n).work n)).drainer ∧
    (s.queue n).deletion = (s.queueWork ((s.call n).work n)).deletion := by
  unfold Lane.queue Lane.queueWork Lane.recordQueued
  cases s.registered <;> exact ⟨rfl, rfl, rfl⟩

theorem merged_pending (hQ : forall p : Pending, Q (p.merge work)) :
    exists k, Q ((s.queueWork work).pending k) := by
  unfold Lane.queueWork
  split
  · next k hk => exact ⟨k, by simpa using hQ (s.pending k)⟩
  · exact ⟨s.slotCount, by simpa using hQ Pending.empty⟩

theorem drain_waiting {x : DrainAction} (hbasic : Basic s) (hord : Ordered s)
    (hQ : Tracks s a c Q) (hhandle : (s.call c).handle = some h) (hh : Live s h)
    (hs : s.drain k x = some s') (hwaiting : Waiting s Q) :
    Waiting s' Q ∨
      (x = DrainAction.resolve ∧
        (s'.drainer k).stage = DrainStage.ready ∧
        (s'.drainer k).handle = h ∧ Q (s'.drainer k).batch) := by
  have hother : forall j, j ≠ k -> s'.drainer j = s.drainer j :=
    fun j hj => drain_other hs hj
  have hdeletion := drain_deletion hs
  have hkept : s'.pending = s.pending ->
      ((s.drainer k).stage = DrainStage.taken ->
        (s'.drainer k).stage = DrainStage.taken ∧
          (s'.drainer k).batch = (s.drainer k).batch) ->
      Waiting s' Q := by
    intro hpending htaken
    rcases hwaiting with ⟨j, hj⟩ | ⟨j, hstage, hj⟩ | ⟨d, hd⟩
    · exact Or.inl ⟨j, by rwa [hpending]⟩
    · right
      left
      by_cases hjk : j = k
      · subst hjk
        rcases htaken hstage with ⟨hstage', hbatch⟩
        exact ⟨j, hstage', by rwa [hbatch]⟩
      · exact ⟨j, by rwa [hother j hjk], by rwa [hother j hjk]⟩
    · exact Or.inr (Or.inr ⟨d, by rwa [hdeletion]⟩)
  cases x with
  | request | begin | finish _ | release =>
      rcases guarded.mp hs with ⟨hstage, rfl⟩
      exact Or.inl (hkept rfl (fun htaken => by rw [htaken] at hstage; cases hstage))
  | take =>
      left
      rcases guarded.mp hs with ⟨⟨hstage, hhead⟩, rfl⟩
      rcases hwaiting with ⟨j, hj⟩ | ⟨j, htaken, hj⟩ | hwaiting
      · by_cases hjk : j = k
        · subst hjk
          exact Or.inr (Or.inl ⟨j, by simp [Lane.setDrainer, Lane.setPending],
            by simpa [Lane.setDrainer, Lane.setPending] using hj⟩)
        · exact Or.inl ⟨j, by simpa [Lane.setPending, Lane.setDrainer, hjk] using hj⟩
      · have hjk : j ≠ k := by
          rintro rfl
          rw [hstage] at htaken
          cases htaken
        exact Or.inr (Or.inl ⟨j, by rwa [hother j hjk], by rwa [hother j hjk]⟩)
      · exact Or.inr (Or.inr hwaiting)
  | resolve =>
      rcases guarded.mp hs with ⟨hstage, rfl⟩
      by_cases hbatch : Q (s.drainer k).batch
      · right
        have hc := hQ.requests _ (hbasic.queues.batch k) hbatch
        rcases batch_of_live hbasic hord hstage hc hhandle hh with
          ⟨hready, hsame⟩
        refine ⟨rfl, ?_⟩
        simp only [Lane.setDrainer, Function.update_self]
        exact ⟨hready, hsame, by rwa [resolveBatch_batch]⟩
      · left
        rcases hwaiting with hwaiting | ⟨j, htaken, hj⟩ | hwaiting
        · exact Or.inl hwaiting
        · have hjk : j ≠ k := by
            rintro rfl
            exact hbatch hj
          exact Or.inr (Or.inl ⟨j, by rwa [hother j hjk], by rwa [hother j hjk]⟩)
        · exact Or.inr (Or.inr hwaiting)
  | unregister | recheck =>
      rcases guarded.mp hs with ⟨hstage, heq⟩
      have hpending : s'.pending = s.pending := by
        rw [← heq]
        split <;> rfl
      exact Or.inl (hkept hpending
        (fun htaken => by rw [htaken] at hstage; cases hstage))

theorem deletion_waiting {d : Nat} {x : DeleteAction} (hbasic : Basic s)
    (hord : Ordered s) (hQ : Tracks s (Action.deletion d x) c Q)
    (hhandle : (s.call c).handle = some h) (hh : Live s h)
    (hs : s.deletionStep d x = some s') (hwaiting : Waiting s Q) :
    Waiting s' Q := by
  have hempty : forall e, Q (s.deletion e).leftover ->
      (s.deletion e).leftover ≠ Pending.empty := by
    intro e he hnone
    rw [hnone] at he
    exact hQ.not_empty he
  have hkept : s'.pending = s.pending -> s'.drainer = s.drainer ->
      (forall e, e ≠ d -> s'.deletion e = s.deletion e) ->
      (s'.deletion d).leftover = (s.deletion d).leftover ->
      Waiting s' Q := by
    intro hpending hdrainer hother hsame
    unfold Waiting
    rw [hpending, hdrainer]
    rcases hwaiting with hwaiting | hwaiting | ⟨e, he⟩
    · exact Or.inl hwaiting
    · exact Or.inr (Or.inl hwaiting)
    · right
      right
      by_cases hed : e = d
      · subst hed
        exact ⟨e, by rwa [hsame]⟩
      · exact ⟨e, by rwa [hother e hed]⟩
  cases x with
  | retire | lookup | begin | finish _ | unregister =>
      rcases guarded.mp hs with ⟨hstage, rfl⟩
      exact hkept rfl rfl (fun e he => Function.update_of_ne he ..)
        (by simp [Lane.setDeletion, Lane.emit])
  | request | release =>
      rcases guardedSlot.mp hs with ⟨k, hslot, hstage, rfl⟩
      exact hkept rfl rfl (fun e he => Function.update_of_ne he ..)
        (by simp [Lane.setDeletion, Lane.setLock])
  | take =>
      rcases guardedSlot.mp hs with ⟨k, hslot, hstage, rfl⟩
      rcases hwaiting with ⟨j, hj⟩ | hwaiting | ⟨e, he⟩
      · by_cases hjk : j = k
        · subst hjk
          exact Or.inr (Or.inr ⟨d, by simpa [Lane.setDeletion, Lane.setPending] using hj⟩)
        · exact Or.inl ⟨j, by simpa [Lane.setDeletion, Lane.setPending, hjk] using hj⟩
      · exact Or.inr (Or.inl hwaiting)
      · have hed : e ≠ d := by
          rintro rfl
          exact hempty e he (hord.held.sources.emptied e (by simp [hstage])
            (by simp [hstage]))
        exact Or.inr (Or.inr ⟨e, by simpa [Lane.setDeletion, Lane.setPending, hed] using he⟩)
  | judge =>
      rcases guarded.mp hs with ⟨hstage, rfl⟩
      by_cases hkeep : s.Keeps (s.deletion d).leftover
      · rw [if_pos hkeep] at hkept ⊢
        exact hkept rfl rfl (fun e he => Function.update_of_ne he ..)
          (by simp [Lane.setDeletion])
      · rw [if_neg hkeep]
        rcases hwaiting with hwaiting | hwaiting | ⟨e, he⟩
        · exact Or.inl hwaiting
        · exact Or.inr (Or.inl hwaiting)
        · have hed : e ≠ d := by
            rintro rfl
            have hc := hQ.requests _ (hbasic.queues.leftover e) he
            exact hkeep (leftover_of_live hbasic hord hc hhandle hh)
          exact Or.inr (Or.inr ⟨e, by simpa [Lane.setDeletion, Lane.emit, hed] using he⟩)
  | requeue =>
      rcases guarded.mp hs with ⟨hstage, rfl⟩
      have hqueue : Waiting (s.queueWork (s.deletion d).leftover) Q ->
          (forall e, Q (s.deletion e).leftover -> e ≠ d) ->
          Waiting ((s.queueWork (s.deletion d).leftover).setDeletion d
            { s.deletion d with
              stage := DeleteStage.finishing
              leftover := Pending.empty }) Q := by
        intro hqueue hne
        rcases hqueue with hqueue | hqueue | ⟨e, he⟩
        · exact Or.inl hqueue
        · exact Or.inr (Or.inl hqueue)
        · rw [queueWork_deletion] at he
          exact Or.inr (Or.inr ⟨e, by
            simpa [Lane.setDeletion, hne e he, queueWork_deletion] using he⟩)
      by_cases hd : Q (s.deletion d).leftover
      · exact Or.inl (merged_pending (fun p => hQ.requeue d p rfl hd))
      · apply hqueue
        · exact queueWork_waiting hbasic hord hQ (Or.inr ⟨d, rfl, rfl⟩) hwaiting
        · rintro e he rfl
          exact hd he

/-- Work that waits keeps waiting, until a writer task is about to write it
with the state of the current handle. -/
theorem step_waiting (hbasic : Basic s) (hord : Ordered s)
    (hQ : Tracks s a c Q) (hhandle : (s.call c).handle = some h)
    (hh : Live s h) (hs : s.step a = some s') (hwaiting : Waiting s Q) :
    Waiting s' Q ∨ exists k, a = Action.drain k DrainAction.resolve ∧
      (s'.drainer k).stage = DrainStage.ready ∧
      (s'.drainer k).handle = h ∧ Q (s'.drainer k).batch := by
  cases a with
  | create | register _ | commit _ | drop _ | enqueue _ _ _ _ | flushCollect
  | flushForget _ =>
      have hsame := step_sameTasks hs True.intro
      exact Or.inl (hwaiting.update hsame.pending hsame.drainer hsame.deletion)
  | queue n =>
      left
      rcases guarded.mp hs with ⟨hstage, rfl⟩
      have hqueue := queueWork_waiting hbasic hord hQ (Or.inl ⟨n, rfl, rfl⟩)
        hwaiting
      exact hqueue.update (queue_slots s n).1 (queue_slots s n).2.1
        (queue_slots s n).2.2
  | waitQueued =>
      left
      rcases waitQueued_cases hs with ⟨k, _, rfl⟩
      rcases hwaiting with ⟨j, hj⟩ | hwaiting
      · left
        by_cases hjk : j = k
        · subst hjk
          have hwait := hQ.wait (s.pending j) s.callCount hj
          exact ⟨j, by simpa [Lane.waitQueued, Lane.setPending] using hwait⟩
        · refine ⟨j, ?_⟩
          simpa [Lane.waitQueued, Lane.setPending, Lane.addCall, hjk] using hj
      · exact Or.inr hwaiting
  | drain k x =>
      rcases drain_waiting hbasic hord hQ hhandle hh hs hwaiting with
        hwaiting | ⟨rfl, hready, hsame, hbatch⟩
      · exact Or.inl hwaiting
      · exact Or.inr ⟨k, rfl, hready, hsame, hbatch⟩
  | delete live =>
      left
      rcases guarded.mp hs with ⟨_, rfl⟩
      rcases hwaiting with hwaiting | hwaiting | ⟨d, hd⟩
      · exact Or.inl hwaiting
      · exact Or.inr (Or.inl hwaiting)
      · have hne : d ≠ s.deleteCount := by
          rintro rfl
          have hnew := hbasic.numbered.deletion s.deleteCount (Nat.le_refl _)
          rw [hord.held.sources.emptied _ (by simp [hnew]) (by simp [hnew])] at hd
          exact hQ.not_empty hd
        exact Or.inr (Or.inr ⟨d, by simpa [Lane.delete, hne] using hd⟩)
  | deletion d x =>
      exact Or.inl (deletion_waiting hbasic hord hQ hhandle hh hs hwaiting)
  | exclusive =>
      cases hs
      exact Or.inl hwaiting
  | critical e x =>
      have hsame := criticalStep_same hs
      exact Or.inl (hwaiting.update hsame.pending hsame.drainer hsame.deletion)

theorem step_running (hord : Ordered s) (hs : s.step a = some s')
    (hk : (s.drainer k).stage = DrainStage.ready ∨
      (s.drainer k).stage = DrainStage.writing) :
    (((s'.drainer k).stage = DrainStage.ready ∨
      (s'.drainer k).stage = DrainStage.writing) ∧
      (s'.drainer k).batch = (s.drainer k).batch ∧
      (s'.drainer k).handle = (s.drainer k).handle ∧
      ((s'.drainer k).stage = DrainStage.writing ->
        ((s.drainer k).stage = DrainStage.writing ∧
          (s'.drainer k).version = (s.drainer k).version) ∨
        (s'.drainer k).version = s.version (s.drainer k).handle)) ∨
    exists ok, a = Action.drain k (DrainAction.finish ok) ∧
      (s.drainer k).stage = DrainStage.writing := by
  rcases step_drainer hs k with hsame | ⟨x, rfl⟩ | ⟨rfl, -⟩
  · rw [hsame]
    exact Or.inl ⟨hk, rfl, rfl, fun hwriting => Or.inl ⟨hwriting, rfl⟩⟩
  · cases x with
    | begin =>
        rcases guarded.mp hs with ⟨hstage, rfl⟩
        left
        simp [Lane.setDrainer, Lane.emit]
    | finish ok =>
        rcases guarded.mp hs with ⟨hstage, rfl⟩
        exact Or.inr ⟨ok, rfl, hstage⟩
    | request | resolve | release | unregister | recheck =>
        rcases guarded.mp hs with ⟨hstage, _⟩
        rw [hstage] at hk
        rcases hk with hk | hk <;> cases hk
    | take =>
        rcases guarded.mp hs with ⟨⟨hstage, _⟩, _⟩
        rw [hstage] at hk
        rcases hk with hk | hk <;> cases hk
  · rw [hord.held.sources.unspawned _ (Nat.le_refl _)] at hk
    rcases hk with hk | hk <;> cases hk

theorem step_inFlight (hbasic : Basic s) (hord : Ordered s)
    (hQ : Tracks s a c Q) (hhandle : (s.call c).handle = some h)
    (hh : Live s h) (hs : s.step a = some s') {E : Prop}
    (hend : forall k ok, a = Action.drain k (DrainAction.finish ok) ->
      Q (s.drainer k).batch -> E)
    (hflight : Waiting s Q ∨ Running s Q) :
    Waiting s' Q ∨ Running s' Q ∨ E := by
  rcases hflight with hwaiting | ⟨k, hk, hbatch⟩
  · rcases step_waiting hbasic hord hQ hhandle hh hs hwaiting with
      hwaiting | ⟨k, -, hready, -, hbatch⟩
    · exact Or.inl hwaiting
    · exact Or.inr (Or.inl ⟨k, Or.inl hready, hbatch⟩)
  · rcases step_running hord hs hk with ⟨hk', hsame, -⟩ | ⟨ok, ha, -⟩
    · exact Or.inr (Or.inl ⟨k, hk', by rwa [hsame]⟩)
    · exact Or.inr (Or.inr (hend k ok ha hbatch))

end

/-!
# Calls and their queues
-/

/-- Queued calls are numbered in the order of their `queue`. -/
def Numbers (s : Lane) : Prop :=
  forall c, (s.call c).stage = CallStage.queued ->
    (s.call c).order < s.queuedCount

theorem step_numbers (h : Numbers s) (hs : s.step a = some s') :
    Numbers s' := by
  have hcount := (step_counters hs).queued
  intro c hc
  rcases step_call hs c with hsame | ⟨rfl, -, hcall⟩ | ⟨-, rfl, hcall⟩ |
    ⟨-, y, updates, removed, waits, -, -, -, hcall⟩
  · rw [hsame] at hc ⊢
    rw [hcount]
    exact Nat.lt_of_lt_of_le (h c hc) (Nat.le_add_right _ _)
  · rw [hcall, hcount]
    exact Nat.lt_succ_self _
  · rw [hcall, hcount]
    exact Nat.lt_succ_self _
  · rcases hcall with hrefused | ⟨hresolved, -⟩
    · rw [hrefused] at hc
      cases hc
    · rw [hresolved] at hc
      cases hc

/-- A call with a handle that is queued after a step was queued before, or the
step queues it and its work is in the registered slot. -/
theorem step_queued (hs : s.step a = some s')
    (hc : (s'.call c).stage = CallStage.queued)
    (hhandle : (s'.call c).handle = some h) :
    ((s.call c).stage = CallStage.queued ∧ s'.call c = s.call c) ∨
      (a = Action.queue c ∧ s'.call c = s.queuedCall c ∧
        exists k p, s'.pending k = Pending.merge p ((s'.call c).work c)) := by
  rcases step_call hs c with hsame | ⟨rfl, -, hcall⟩ | ⟨-, -, hcall⟩ |
    ⟨-, y, updates, removed, waits, -, -, -, hcall⟩
  · rw [hsame] at hc
    exact Or.inl ⟨hc, hsame⟩
  · right
    refine ⟨rfl, hcall, ?_⟩
    rw [hcall, queuedCall_work]
    rcases guarded.mp hs with ⟨_, rfl⟩
    rw [(queue_slots s c).1]
    unfold Lane.queueWork
    split
    · next k hk => exact ⟨k, s.pending k, by simp⟩
    · exact ⟨s.slotCount, Pending.empty, by simp⟩
  · rw [hcall] at hhandle
    cases hhandle
  · rcases hcall with hrefused | ⟨hresolved, -⟩
    · rw [hrefused] at hc
      cases hc
    · rw [hresolved] at hc
      cases hc

end Persister
end PostCortex
