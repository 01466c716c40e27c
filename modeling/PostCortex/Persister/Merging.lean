import PostCortex.Persister.Sources

/-!
# Relations between a queue and its source

A relation between the source of a queue and the queue holds of every queue of
the lane if the merges keep it: all other steps move queues around as they are,
or replace a superseded source by the newest handle.
-/

namespace PostCortex
namespace Persister

open PostCortex.Core
open Transition

/-- `N` relates the source of every queue, or the handle chosen for it, to the
queue. -/
structure QueuesIn (N : Handle -> Pending -> Prop) (s : Lane) : Prop where
  pending : forall k h, (s.pending k).source = some h -> N h (s.pending k)
  batch : forall k h, (s.drainer k).stage = DrainStage.taken ->
    (s.drainer k).batch.source = some h -> N h (s.drainer k).batch
  chosen : forall k,
    (s.drainer k).stage = DrainStage.ready ∨
      (s.drainer k).stage = DrainStage.writing ->
    N (s.drainer k).handle (s.drainer k).batch
  leftover : forall d h, (s.deletion d).leftover.source = some h ->
    N h (s.deletion d).leftover

theorem queuesIn_empty (N : Handle -> Pending -> Prop) :
    QueuesIn N Lane.empty := by
  constructor <;>
    simp [Lane.empty, Drainer.none, Deletion.none, Pending.empty]

section

variable {N : Handle -> Pending -> Prop} {s s' : Lane}

theorem QueuesIn.update (h : QueuesIn N s)
    (hpending : s'.pending = s.pending) (hdrainer : s'.drainer = s.drainer)
    (hdeletion : s'.deletion = s.deletion) :
    QueuesIn N s' := by
  rcases h with ⟨h1, h2, h3, h4⟩
  constructor <;> simp only [hpending, hdrainer, hdeletion] <;> assumption

/-- The work can be merged into the registered slot, or into a new one. -/
def Merges (N : Handle -> Pending -> Prop) (s : Lane) (work : Pending) : Prop :=
  forall h, work.source = some h ->
    (forall k, s.registered = some k -> N h ((s.pending k).merge work)) ∧
      N h (Pending.empty.merge work)

theorem merge_source_some {p work : Pending} {h : Handle}
    (hwork : work.source = some h) :
    (p.merge work).source = some h := by
  simp [Pending.merge, hwork]

theorem queueWork_queuesIn {work : Pending} {h : Handle}
    (hwork : work.source = some h) (hmerges : Merges N s work)
    (hqueues : QueuesIn N s) :
    QueuesIn N (s.queueWork work) := by
  rcases hmerges h hwork with ⟨hmerge, hnew⟩
  have hsource : forall p : Pending, (p.merge work).source = some h :=
    fun p => merge_source_some hwork
  have hspawned : Drainer.spawned.stage = DrainStage.start := rfl
  rcases hqueues with ⟨h1, h2, h3, h4⟩
  unfold Lane.queueWork
  split <;> constructor <;> grind

theorem drain_queuesIn {k : SlotId} {a : DrainAction}
    (hnewest : forall x y, (s.drainer k).stage = DrainStage.taken ->
      (s.drainer k).batch.source = some x ->
      s.standing x = Standing.superseded (some y) ->
      N y (s.drainer k).batch)
    (h : QueuesIn N s) (hs : s.drain k a = some s') :
    QueuesIn N s' := by
  have hempty : Pending.empty.source = none := rfl
  rcases h with ⟨h1, h2, h3, h4⟩
  cases a with
  | request | begin | finish _ | release =>
      rcases guarded.mp hs with ⟨hstage, rfl⟩
      constructor <;>
        simp only [Lane.setDrainer, Lane.setLock, Lane.finishWrite, Lane.emit] <;>
        grind
  | take =>
      rcases guarded.mp hs with ⟨⟨hstage, hhead⟩, rfl⟩
      constructor <;> simp only [Lane.setDrainer, Lane.setPending] <;> grind
  | resolve =>
      rcases guarded.mp hs with ⟨hstage, rfl⟩
      have hcases := resolveBatch_cases s k
      have hbatch := resolveBatch_batch s k
      constructor <;> simp only [Lane.setDrainer] <;> grind
  | unregister | recheck =>
      rcases guarded.mp hs with ⟨hstage, rfl⟩
      split <;> constructor <;> simp only [Lane.setDrainer] <;> grind

theorem deletion_queuesIn {d : Nat} {a : DeleteAction}
    (hkept : (s.deletion d).stage = DeleteStage.requeueing ->
      (s.deletion d).leftover.source ≠ none)
    (hrequeue : a = DeleteAction.requeue ->
      Merges N s (s.deletion d).leftover)
    (h : QueuesIn N s) (hs : s.deletionStep d a = some s') :
    QueuesIn N s' := by
  have hempty : Pending.empty.source = none := rfl
  have hqueues := h
  rcases h with ⟨h1, h2, h3, h4⟩
  cases a with
  | retire | lookup | begin | finish _ | unregister =>
      rcases guarded.mp hs with ⟨hstage, rfl⟩
      constructor <;> simp only [Lane.setDeletion, Lane.emit] <;> grind
  | request | release =>
      rcases guardedSlot.mp hs with ⟨k, hslot, hstage, rfl⟩
      constructor <;> simp only [Lane.setDeletion, Lane.setLock] <;> grind
  | take =>
      rcases guardedSlot.mp hs with ⟨k, hslot, hstage, rfl⟩
      constructor <;> simp only [Lane.setDeletion, Lane.setPending] <;> grind
  | judge =>
      rcases guarded.mp hs with ⟨hstage, rfl⟩
      split <;> constructor <;> simp only [Lane.setDeletion, Lane.emit] <;>
        grind
  | requeue =>
      rcases guarded.mp hs with ⟨hstage, rfl⟩
      rcases Option.ne_none_iff_exists'.mp (hkept hstage) with ⟨x, hx⟩
      rcases queueWork_queuesIn hx (hrequeue rfl) hqueues with ⟨h1, h2, h3, h4⟩
      constructor <;> simp only [Lane.setDeletion] <;> grind

theorem step_queuesIn {K : Handle -> Prop} {a : Action} (hsources : SourcesIn K s)
    (hnewest : forall k x y, (s.drainer k).stage = DrainStage.taken ->
      (s.drainer k).batch.source = some x ->
      s.standing x = Standing.superseded (some y) ->
      N y (s.drainer k).batch)
    (hqueue : forall c, a = Action.queue c ->
      Merges N s ((s.call c).work c))
    (hrequeue : forall d, a = Action.deletion d DeleteAction.requeue ->
      Merges N s (s.deletion d).leftover)
    (hwait : forall k h, a = Action.waitQueued -> s.registered = some k ->
      (s.pending k).source = some h -> N h ((s.waitQueued k).pending k))
    (h : QueuesIn N s) (hs : s.step a = some s') :
    QueuesIn N s' := by
  have hempty : Pending.empty.source = none := rfl
  cases a with
  | create | exclusive =>
      cases hs
      exact h.update rfl rfl rfl
  | register _ | commit _ | drop _ | flushForget _ =>
      rcases guarded.mp hs with ⟨_, rfl⟩
      exact h.update rfl rfl rfl
  | enqueue x updates removed waits =>
      have hsame := step_sameTasks hs True.intro
      exact h.update hsame.pending hsame.drainer hsame.deletion
  | queue c =>
      rcases guarded.mp hs with ⟨hstage, rfl⟩
      have hcalls : QueuesIn N (s.recordQueued c) := h.update rfl rfl rfl
      have hmerges : Merges N (s.recordQueued c) ((s.call c).work c) :=
        hqueue c rfl
      exact (queueWork_queuesIn rfl hmerges hcalls).update rfl rfl rfl
  | waitQueued =>
      rcases waitQueued_cases hs with ⟨k, hk, rfl⟩
      have hwaiting : forall h, (s.pending k).source = some h ->
          N h ((s.waitQueued k).pending k) := fun h => hwait k h rfl hk
      rcases h with ⟨h1, h2, h3, h4⟩
      constructor <;>
        simp only [Lane.waitQueued, Lane.setPending, Lane.addCall] at * <;>
        grind
  | flushCollect =>
      rcases Option.map_eq_some_iff.mp hs with ⟨x, _, rfl⟩
      exact h.update rfl rfl rfl
  | drain k a => exact drain_queuesIn (hnewest k) h hs
  | delete live =>
      rcases guarded.mp hs with ⟨_, rfl⟩
      have hnone : Deletion.none.leftover = Pending.empty := rfl
      rcases h with ⟨h1, h2, h3, h4⟩
      constructor <;> simp only [Lane.delete] <;> grind
  | deletion d a =>
      exact deletion_queuesIn (hsources.kept d)
        (fun ha => hrequeue d (ha ▸ rfl)) h hs
  | critical e a =>
      have hsame := criticalStep_same hs
      exact h.update hsame.pending hsame.drainer hsame.deletion

end

theorem QueuesIn.mono {K : Handle -> Prop} {N N' : Handle -> Pending -> Prop}
    {s : Lane} (hqueues : Queues s) (hsources : SourcesIn K s)
    (hN : forall h p, p.Sound s.call -> K h -> N h p -> N' h p)
    (h : QueuesIn N s) :
    QueuesIn N' s := by
  constructor
  · intro k x hx
    exact hN x _ (hqueues.pending k) (hsources.pending k x hx) (h.pending k x hx)
  · intro k x hstage hx
    exact hN x _ (hqueues.batch k) (hsources.batch k x hstage hx)
      (h.batch k x hstage hx)
  · intro k hstage
    exact hN _ _ (hqueues.batch k) (hsources.chosen k hstage)
      (h.chosen k hstage)
  · intro d x hx
    exact hN x _ (hqueues.leftover d) (hsources.leftover d x hx)
      (h.leftover d x hx)

/-!
# Incarnations in a queue

`Compares R f` relates the incarnation of a queue's source to those of the
calls that `f` lists.
-/

def Lane.born (s : Lane) (h : Handle) : Nat :=
  (s.incarnation h).getD 0

def Compares (R : Nat -> Nat -> Prop) (f : Pending -> List Nat) (s : Lane)
    (h : Handle) (p : Pending) : Prop :=
  forall c, c ∈ f p -> forall y, y ∈ (s.call c).handle ->
    R (s.born h) (s.born y)

/-- The work compares with what it meets in the registered slot. -/
def Meets (R : Nat -> Nat -> Prop) (f : Pending -> List Nat) (s : Lane)
    (work : Pending) : Prop :=
  forall h, h ∈ work.source -> forall k, k ∈ s.registered ->
    Compares R f s h ((s.pending k).merge work)

def Joins (R : Nat -> Nat -> Prop) (f : Pending -> List Nat) (s : Lane) :
    Action -> Prop
  | Action.queue c => Meets R f s ((s.call c).work c)
  | Action.deletion d DeleteAction.requeue => Meets R f s (s.deletion d).leftover
  | _ => True

section

variable {R : Nat -> Nat -> Prop} {f : Pending -> List Nat}

instance [DecidableRel R] (s : Lane) (h : Handle) (p : Pending) :
    Decidable (Compares R f s h p) :=
  inferInstanceAs (Decidable (forall c, c ∈ f p -> _))

instance [DecidableRel R] (s : Lane) (work : Pending) :
    Decidable (Meets R f s work) :=
  inferInstanceAs (Decidable (forall h, h ∈ work.source -> _))

instance [DecidableRel R] (s : Lane) (a : Action) : Decidable (Joins R f s a) := by
  unfold Joins
  split <;> infer_instance

end

/-- `f` lists requests of a queue, and nothing else. -/
structure Lists (f : Pending -> List Nat) : Prop where
  requests : forall (call : Nat -> Call) (p : Pending), p.Sound call ->
    forall c, c ∈ f p -> c ∈ p.requests
  merge : forall work c, c ∈ f (Pending.empty.merge work) -> c ∈ f work
  work : forall (x : Call) n c, c ∈ f (x.work n) -> c = n
  wait : forall (p : Pending) n c,
    c ∈ f { p with waiters := p.waiters ++ [n], requests := p.requests ++ [n] } ->
    c ∈ f p ∨ c = n

theorem born_eq {s s' : Lane} {a : Action} (hnumbered : Numbered s)
    (hs : s.step a = some s') {x : Handle} (hx : s.incarnation x ≠ none) :
    s'.born x = s.born x := by
  rcases Option.ne_none_iff_exists'.mp hx with ⟨n, hn⟩
  unfold Lane.born
  rw [step_incarnation hnumbered hs hn, hn]

section

variable {R : Nat -> Nat -> Prop} {f : Pending -> List Nat} {s s' : Lane}

theorem Compares.step {a : Action} (hf : Lists f) (hnumbered : Numbered s)
    (hsame : SameIncarnation s) (hs : s.step a = some s') {h : Handle}
    {p : Pending} (hsound : p.Sound s.call) (hh : Known s h)
    (hp : Compares R f s h p) :
    Compares R f s' h p := by
  intro c hc y hy
  have hqueued := hsound.queued c (hf.requests s.call p hsound c hc)
  rw [step_call_queued hnumbered hs hqueued] at hy
  rw [born_eq hnumbered hs hh.2,
    born_eq hnumbered hs (hsame c y (Or.inr hqueued) hy).2]
  exact hp c hc y hy

theorem Compares.congr (hcall : forall c, (s'.call c).handle = (s.call c).handle)
    (hincarnation : s'.incarnation = s.incarnation) {h : Handle} {p : Pending}
    (hp : Compares R f s h p) :
    Compares R f s' h p := by
  intro c hc y hy
  rw [hcall] at hy
  unfold Lane.born
  rw [hincarnation]
  exact hp c hc y hy

theorem step_compares {a : Action} (hf : Lists f) (hrefl : forall n, R n n)
    (hnumbered : Numbered s) (hqueues : Queues s) (hdir : Directory s)
    (hheld : Held s) (h : QueuesIn (Compares R f s) s) (ha : Joins R f s a)
    (hs : s.step a = some s') :
    QueuesIn (Compares R f s') s' := by
  have hold : QueuesIn (Compares R f s') s :=
    h.mono hqueues hheld.sources (fun _ _ hsound hknown hp =>
      hp.step hf hnumbered hheld.same hs hsound hknown)
  apply step_queuesIn hheld.sources ?_ ?_ ?_ ?_ hold hs
  · intro k x y hstage hx hstand
    have hknown := hheld.sources.batch k x hstage hx
    have hborn := (standing_not_deleted hdir hknown (by simp [hstand])).1
    rcases standing_superseded_some hdir hknown hstand with ⟨hy, hborn', -⟩
    intro c hc z hz
    have hle := hold.batch k x hstage hx c hc z hz
    rw [born_eq hnumbered hs hknown.2] at hle
    rw [born_eq hnumbered hs hy.2]
    simpa [Lane.born, hborn, hborn'] using hle
  · rintro c rfl x hx
    rcases guarded.mp hs with ⟨hstage, rfl⟩
    have hcall : forall n, ((s.queue c).call n).handle = (s.call n).handle := by
      intro n
      rw [queue_call]
      by_cases hn : n = c
      · rw [hn, Function.update_self]
        rfl
      · rw [Function.update_of_ne hn]
    have hsame := (step_sameHandles hs (fun hmoves => hmoves)).incarnation
    constructor
    · intro k hk
      exact Compares.congr hcall hsame (ha x hx k hk)
    · refine Compares.congr hcall hsame ?_
      intro n hn y hy
      have hnc : n = c := hf.work _ _ n (hf.merge _ n hn)
      subst hnc
      have hborn := (hheld.same n y (Or.inl hstage) hy).1
      have hsource : (s.call n).source = x := Option.some.inj hx
      rw [hsource] at hborn
      unfold Lane.born
      rw [hborn]
      exact hrefl _
  · rintro d rfl x hx
    have hsame := (step_sameHandles hs (fun hmoves => by cases hmoves)).incarnation
    have hcall : forall n, (s'.call n).handle = (s.call n).handle := by
      intro n
      rcases step_call hs n with heq | ⟨heq, -⟩ | ⟨-, heq, -⟩ |
        ⟨-, y, updates, removed, waits, heq, -⟩
      · rw [heq]
      · cases heq
      · cases heq
      · cases heq
    constructor
    · intro k hk
      exact Compares.congr hcall hsame (ha x hx k hk)
    · intro n hn
      exact hold.leftover d x hx n (hf.merge _ n hn)
  · rintro k x rfl hk hx
    rcases waitQueued_cases hs with ⟨j, hj, rfl⟩
    have hjk : j = k := Option.some.inj (hj.symm.trans hk)
    subst hjk
    intro c hc y hy
    have hpending : (s.waitQueued j).pending j =
        { s.pending j with
          waiters := (s.pending j).waiters ++ [s.callCount]
          requests := (s.pending j).requests ++ [s.callCount] } := by
      simp [Lane.waitQueued, Lane.setPending]
    rw [hpending] at hc
    rcases hf.wait _ _ c hc with hmem | rfl
    · exact hold.pending j x hx c hmem y hy
    · simp [Lane.waitQueued, Lane.setPending, Lane.addCall, Lane.waitingCall,
        Call.none] at hy

end

end Persister
end PostCortex
