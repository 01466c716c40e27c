import PostCortex.Persister.Merging

/-!
# Deletes

After a delete has succeeded, nothing of a request made through a handle that
the delete killed reaches storage, as long as no request joins a queue that
still holds a row or a waiter of an earlier incarnation.  `merge` does not look
at the incarnations: without this condition the stale row is written with the
new session, and the stale waiter is told `Ok`.
-/

namespace PostCortex
namespace Persister

open PostCortex.Core
open Transition

/-- The handle belongs to an incarnation that the delete numbered `m` ended. -/
def Killed (s : Lane) (m : Nat) (h : Handle) : Prop :=
  exists n, s.incarnation h = some n ∧ n < m

def Pending.owes (p : Pending) : List Nat :=
  p.waiters ++ p.updates.map Row.call

theorem lists_owes : Lists Pending.owes := by
  constructor
  · intro call p hsound c hc
    rcases List.mem_append.mp hc with hc | hc
    · exact hsound.waiter c hc
    · rcases List.mem_map.mp hc with ⟨x, hx, rfl⟩
      exact (hsound.row x hx).1
  · intro work c hc
    simp only [Pending.owes, Pending.merge, Pending.empty, List.nil_append,
      List.mem_append, List.mem_map, List.mem_filter] at hc ⊢
    grind
  · intro x n c hc
    simp only [Pending.owes, Call.work] at hc
    grind
  · intro p n c hc
    simp only [Pending.owes] at hc ⊢
    grind

abbrev NoneOlder : Lane -> Handle -> Pending -> Prop :=
  Compares (fun n m => n ≤ m) Pending.owes

abbrev JoinsNoneOlder : Lane -> Action -> Prop :=
  Joins (fun n m => n ≤ m) Pending.owes

/-- Handles are registered before use, and no request joins a queue that holds
a row or a waiter of an earlier incarnation. -/
def SeparatesIncarnations (s : Lane) (a : Action) : Prop :=
  UsesRegistered s a ∧ JoinsNoneOlder s a

instance (s : Lane) (a : Action) : Decidable (SeparatesIncarnations s a) :=
  inferInstanceAs (Decidable (_ ∧ _))

/-!
# Running writes

While a delete waits for its lock, a write of an earlier incarnation can only
be the one whose lock it waits for; so when `sink.delete` ends there is none.
-/

/-- The delete has looked up its slot, and `sink.delete` has not ended. -/
def DeleteStage.Awaits (x : DeleteStage) : Prop :=
  x = DeleteStage.seen ∨ x = DeleteStage.waiting ∨ x = DeleteStage.deleting

/-- The writer task may still write, or answer `Ok`, for something older than
`m`; `b` and `w` are the incarnations of handles and calls. -/
def Lingers (b : Handle -> Nat) (w : Nat -> Option Nat) (m : Nat)
    (x : Drainer) : Prop :=
  ((x.stage = DrainStage.ready ∨ x.stage = DrainStage.writing) ∧
    b x.handle < m) ∨
  (x.stage = DrainStage.finished ∧ x.outcome = Outcome.ok ∧
    exists c n, c ∈ x.batch.waiters ∧ w c = some n ∧ n < m)

structure Watched (b : Handle -> Nat) (w : Nat -> Option Nat) (s : Lane) :
    Prop where
  below : forall d, (s.deletion d).below ≤ s.deletes
  lingers : forall d k, (s.deletion d).stage.Awaits ->
    Lingers b w (s.deletion d).below (s.drainer k) ->
    (s.deletion d).slot = some k
  erased : forall m ok, Event.erased m ok ∈ s.trace -> m ≤ s.deletes
  gone : forall m, Event.erased m true ∈ s.trace ->
    forall k, ¬ Lingers b w m (s.drainer k)

variable {s s' : Lane} {a : Action} {m : Nat}

theorem step_erased (hs : s.step a = some s') {ok : Bool}
    (hm : Event.erased m ok ∈ s'.trace) :
    Event.erased m ok ∈ s.trace ∨
      exists d, a = Action.deletion d (DeleteAction.finish ok) ∧
        (s.deletion d).stage = DeleteStage.deleting ∧
        m = (s.deletion d).below := by
  rcases step_trace hs with ⟨events, heq, hemits, -⟩
  rw [heq] at hm
  rcases List.mem_append.mp hm with hm | hm
  · right
    cases hemits _ hm with
    | erased hstage => exact ⟨_, rfl, hstage, rfl⟩
  · exact Or.inl hm

theorem resolveBatch_skip (s : Lane) (k : SlotId)
    (hstage : (s.resolveBatch k).stage = DrainStage.finished)
    (hok : (s.resolveBatch k).outcome = Outcome.ok) :
    (s.drainer k).batch.source = none := by
  unfold Lane.resolveBatch at hstage hok
  grind

variable {b : Handle -> Nat} {w : Nat -> Option Nat}

theorem drain_lingers {k : SlotId} {a : DrainAction} (hchosen : forall c n,
      (s.drainer k).stage = DrainStage.writing ->
      c ∈ (s.drainer k).batch.waiters -> w c = some n ->
      b (s.drainer k).handle ≤ n)
    (hresolve : (s.drainer k).stage = DrainStage.taken ->
      (s.resolveBatch k).stage = DrainStage.ready ->
      m ≤ b (s.resolveBatch k).handle) (hbare : (s.drainer k).batch.source = none ->
      forall c, c ∈ (s.drainer k).batch.waiters -> w c = none)
    (hs : s.drain k a = some s') {j : SlotId}
    (hlingers : Lingers b w m (s'.drainer j)) :
    Lingers b w m (s.drainer j) := by
  by_cases hj : j = k
  · subst hj
    cases a with
    | request =>
        rcases guarded.mp hs with ⟨hstage, rfl⟩
        simp [Lane.setDrainer, Lane.setLock, Lingers] at hlingers
    | take =>
        rcases guarded.mp hs with ⟨hstage, rfl⟩
        simp [Lane.setDrainer, Lane.setPending, Lingers] at hlingers
    | resolve =>
        rcases guarded.mp hs with ⟨hstage, rfl⟩
        have hcases := resolveBatch_cases s j
        have hbatch := resolveBatch_batch s j
        have hskip := resolveBatch_skip s j
        simp only [Lane.setDrainer, Function.update_self, Lingers] at hlingers
        grind
    | begin =>
        rcases guarded.mp hs with ⟨hstage, rfl⟩
        simp only [Lane.setDrainer, Lane.emit, Function.update_self, Lingers]
          at hlingers ⊢
        grind
    | finish ok =>
        rcases guarded.mp hs with ⟨hstage, rfl⟩
        simp only [Lane.finishWrite, Lane.emit, Function.update_self, Lingers]
          at hlingers ⊢
        grind
    | release =>
        rcases guarded.mp hs with ⟨hstage, rfl⟩
        simp [Lane.setDrainer, Lane.setLock, Lane.emit, Lingers] at hlingers
    | unregister | recheck =>
        rcases guarded.mp hs with ⟨hstage, rfl⟩
        split at hlingers <;> simp [Lane.setDrainer, Lingers] at hlingers
  · rwa [drain_other hs hj] at hlingers

section

variable {b : Handle -> Nat} {w : Nat -> Option Nat} {s s' : Lane}

theorem Watched.update (h : Watched b w s)
    (hdeletion : s'.deletion = s.deletion) (hdrainer : s'.drainer = s.drainer)
    (hdeletes : s'.deletes = s.deletes)
    (htrace : forall m ok, Event.erased m ok ∈ s'.trace ->
      Event.erased m ok ∈ s.trace) :
    Watched b w s' := by
  rcases h with ⟨h1, h2, h3, h4⟩
  constructor <;> simp only [hdeletion, hdrainer, hdeletes]
  · exact h1
  · exact h2
  · exact fun m ok hm => h3 m ok (htrace m ok hm)
  · exact fun m hm => h4 m (htrace m true hm)

theorem Lingers.registered {m : Nat} {k : SlotId} (hreg : Registration s)
    (h : Lingers b w m (s.drainer k)) :
    s.registered = some k ∧ (s.drainer k).stage.Owns := by
  rcases h with ⟨hstage, -⟩ | ⟨hstage, hok, -⟩
  · refine ⟨hreg.writing hstage, ?_⟩
    rcases hstage with hstage | hstage <;> simp [DrainStage.Owns, hstage]
  · have howns : (s.drainer k).stage.Owns := by simp [DrainStage.Owns, hstage]
    exact ⟨hreg.active k howns (hreg.succeeded k hstage hok), howns⟩

theorem drain_watched {k : SlotId} {a : DrainAction}
    (hchosen : forall c n, (s.drainer k).stage = DrainStage.writing ->
      c ∈ (s.drainer k).batch.waiters -> w c = some n ->
      b (s.drainer k).handle ≤ n)
    (hresolve : (s.drainer k).stage = DrainStage.taken ->
      (s.resolveBatch k).stage = DrainStage.ready ->
      b (s.resolveBatch k).handle = s.deletes)
    (hbare : (s.drainer k).batch.source = none ->
      forall c, c ∈ (s.drainer k).batch.waiters -> w c = none)
    (h : Watched b w s) (hs : s.step (Action.drain k a) = some s') :
    Watched b w s' := by
  have hstep : s.drain k a = some s' := hs
  have hdeletion := drain_deletion hstep
  have hdeletes : s'.deletes = s.deletes :=
    (step_sameHandles hs (fun hmoves => hmoves)).deletes
  have herased : forall m ok, Event.erased m ok ∈ s'.trace ->
      Event.erased m ok ∈ s.trace := by
    intro m ok hm
    rcases step_erased hs hm with hm | ⟨d, heq, -⟩
    · exact hm
    · cases heq
  have hlingers : forall m j, m ≤ s.deletes ->
      Lingers b w m (s'.drainer j) -> Lingers b w m (s.drainer j) := by
    intro m j hm
    exact drain_lingers hchosen
      (fun htaken hready => (hresolve htaken hready).symm ▸ hm) hbare hstep
  constructor
  · rw [hdeletion, hdeletes]
    exact h.below
  · rw [hdeletion]
    intro d j hawaits hj
    exact h.lingers d j hawaits (hlingers _ j (h.below d) hj)
  · rw [hdeletes]
    exact fun m ok hm => h.erased m ok (herased m ok hm)
  · intro m hm j hj
    have hold := herased m true hm
    exact h.gone m hold j (hlingers m j (h.erased m true hold) hj)

theorem deletion_watched {d : Nat} {a : DeleteAction} (hlocks : Locks s)
    (hreg : Registration s) (h : Watched b w s)
    (hs : s.step (Action.deletion d a) = some s') :
    Watched b w s' := by
  have hstep : s.deletionStep d a = some s' := hs
  have herased : forall m ok, Event.erased m ok ∈ s'.trace ->
      Event.erased m ok ∈ s.trace ∨
        ((s.deletion d).stage = DeleteStage.deleting ∧
          m = (s.deletion d).below) := by
    intro m ok hm
    rcases step_erased hs hm with hm | ⟨d', heq, hstage, hbelow⟩
    · exact Or.inl hm
    · cases heq
      exact Or.inr ⟨hstage, hbelow⟩
  have hregistered : forall m k, Lingers b w m (s.drainer k) ->
      s.registered = some k := fun m k hk => (hk.registered hreg).1
  have hnone : (s.deletion d).stage = DeleteStage.deleting ->
      forall k, ¬ Lingers b w (s.deletion d).below (s.drainer k) := by
    intro hstage k hk
    have hslot := h.lingers d k (by simp [DeleteStage.Awaits, hstage]) hk
    have hdelete := hlocks.deletionOwns d k
      (by simp [DeleteStage.Owns, hstage]) hslot
    have hdrainer := hlocks.drainerOwns k (hk.registered hreg).2
    rw [hdelete] at hdrainer
    cases hdrainer
  have hspawned : forall m, ¬ Lingers b w m Drainer.spawned := by
    intro m hm
    simp [Lingers, Drainer.spawned, Drainer.none] at hm
  rcases h with ⟨h1, h2, h3, h4⟩
  cases a with
  | retire | unregister =>
      rcases guarded.mp hstep with ⟨hstage, rfl⟩
      constructor <;> simp only [Lane.setDeletion] at herased ⊢ <;>
        grind [DeleteStage.Awaits]
  | lookup =>
      rcases guarded.mp hstep with ⟨hstage, rfl⟩
      constructor <;> simp only [Lane.setDeletion] at herased ⊢ <;> grind
  | request | take | release =>
      rcases guardedSlot.mp hstep with ⟨k, hslot, hstage, rfl⟩
      constructor <;>
        simp only [Lane.setDeletion, Lane.setLock, Lane.setPending]
          at herased ⊢ <;>
        grind [DeleteStage.Awaits]
  | begin =>
      rcases guarded.mp hstep with ⟨⟨hstage, hgranted⟩, rfl⟩
      have hawaits : (s.deletion d).stage.Awaits := by
        rw [hstage]
        cases (s.deletion d).slot <;>
          simp [DeleteStage.entry, DeleteStage.Awaits]
      constructor <;> simp only [Lane.setDeletion] at herased ⊢ <;> grind
  | finish ok =>
      rcases guarded.mp hstep with ⟨hstage, rfl⟩
      have hafter : forall slot, ¬ (DeleteStage.afterErase slot).Awaits := by
        intro slot
        cases slot <;> simp [DeleteStage.afterErase, DeleteStage.Awaits]
      constructor <;> simp only [Lane.setDeletion, Lane.emit] at herased ⊢ <;>
        grind
  | judge =>
      rcases guarded.mp hstep with ⟨hstage, rfl⟩
      split at herased <;> split <;> constructor <;>
        simp only [Lane.setDeletion, Lane.emit] at herased ⊢ <;>
        grind [DeleteStage.Awaits]
  | requeue =>
      rcases guarded.mp hstep with ⟨hstage, rfl⟩
      have hdrainer := queueWork_new s (s.deletion d).leftover
      rcases s.queueWork_eq (s.deletion d).leftover with ⟨r, n, l, p, o, x, heq⟩
      rw [heq] at herased hdrainer ⊢
      constructor <;> simp only [Lane.setDeletion] at herased hdrainer ⊢ <;>
        grind [DeleteStage.Awaits]

theorem step_watched {a : Action} (hlocks : Locks s) (hreg : Registration s)
    (hchosen : forall k c n, (s.drainer k).stage = DrainStage.writing ->
      c ∈ (s.drainer k).batch.waiters -> w c = some n ->
      b (s.drainer k).handle ≤ n)
    (hresolve : forall k, (s.drainer k).stage = DrainStage.taken ->
      (s.resolveBatch k).stage = DrainStage.ready ->
      b (s.resolveBatch k).handle = s.deletes)
    (hbare : forall k, (s.drainer k).batch.source = none ->
      forall c, c ∈ (s.drainer k).batch.waiters -> w c = none)
    (h : Watched b w s) (hs : s.step a = some s') :
    Watched b w s' := by
  have herased : (forall d ok, a ≠ Action.deletion d (DeleteAction.finish ok)) ->
      forall m ok, Event.erased m ok ∈ s'.trace ->
        Event.erased m ok ∈ s.trace := by
    intro hne m ok hm
    rcases step_erased hs hm with hm | ⟨d, heq, -⟩
    · exact hm
    · exact absurd heq (hne d _)
  cases a with
  | create | exclusive =>
      cases hs
      exact h.update rfl rfl rfl (herased (by simp))
  | register _ | commit _ | drop _ | flushForget _ =>
      rcases guarded.mp hs with ⟨_, rfl⟩
      exact h.update rfl rfl rfl (herased (by simp))
  | enqueue x updates removed waits =>
      have hsame := step_sameTasks hs True.intro
      have hdeletes := (step_sameHandles hs (fun hmoves => hmoves)).deletes
      exact h.update hsame.deletion hsame.drainer hdeletes (herased (by simp))
  | queue c =>
      have herased := herased (by simp)
      rcases guarded.mp hs with ⟨_, rfl⟩
      have hspawned : forall m, ¬ Lingers b w m Drainer.spawned := by
        intro m hm
        simp [Lingers, Drainer.spawned, Drainer.none] at hm
      have hdrainer :=
        queueWork_new (s.recordQueued c) ((s.call c).work c)
      rcases (s.recordQueued c).queueWork_eq ((s.call c).work c) with
        ⟨r, n, l, p, o, x, heq⟩
      unfold Lane.queue at herased ⊢
      rw [heq] at herased hdrainer ⊢
      rcases h with ⟨h1, h2, h3, h4⟩
      constructor <;>
        simp only [Lane.emit, Lane.recordQueued] at herased hdrainer ⊢ <;>
        grind
  | waitQueued =>
      have herased := herased (by simp)
      rcases waitQueued_cases hs with ⟨k, _, rfl⟩
      exact h.update rfl rfl rfl herased
  | flushCollect =>
      rcases Option.map_eq_some_iff.mp hs with ⟨x, _, rfl⟩
      exact h.update rfl rfl rfl (herased (by simp))
  | drain k a =>
      exact drain_watched (hchosen k) (hresolve k) (hbare k) h hs
  | delete live =>
      have herased := herased (by simp)
      rcases guarded.mp hs with ⟨_, rfl⟩
      have hnone : Deletion.none.below = 0 := rfl
      rcases h with ⟨h1, h2, h3, h4⟩
      constructor <;> simp only [Lane.delete] at herased ⊢ <;>
        grind [DeleteStage.Awaits]
  | deletion d a => exact deletion_watched hlocks hreg h hs
  | critical e a =>
      have hsame := criticalStep_same hs
      have hdeletes := (step_sameHandles hs (fun hmoves => hmoves)).deletes
      exact h.update hsame.deletion hsame.drainer hdeletes (herased (by simp))

end

def Lane.bornCall (s : Lane) (c : Nat) : Option Nat :=
  (s.call c).handle.map s.born

variable {b' : Handle -> Nat} {w' : Nat -> Option Nat}

theorem Lingers.congr {x : Drainer}
    (hb : x.stage = DrainStage.ready ∨ x.stage = DrainStage.writing ->
      b' x.handle = b x.handle) (hw : forall c, c ∈ x.batch.waiters -> w' c = w c)
    (h : Lingers b' w' m x) :
    Lingers b w m x := by
  unfold Lingers at h ⊢
  grind

theorem Watched.congr (hb : forall k,
      (s.drainer k).stage = DrainStage.ready ∨
        (s.drainer k).stage = DrainStage.writing ->
      b' (s.drainer k).handle = b (s.drainer k).handle)
    (hw : forall k c, c ∈ (s.drainer k).batch.waiters -> w' c = w c)
    (h : Watched b w s) :
    Watched b' w' s := by
  refine ⟨h.below, ?_, h.erased, ?_⟩
  · intro d k hawaits hk
    exact h.lingers d k hawaits (hk.congr (hb k) (hw k))
  · intro m hm k hk
    exact h.gone m hm k (hk.congr (hb k) (hw k))

theorem step_watched_born (hlocks : Locks s) (hnumbered : Numbered s)
    (hreg : Registration s) (hqueues : Queues s) (hdir : Directory s)
    (hheld : Held s) (holder : QueuesIn (NoneOlder s) s)
    (h : Watched s.born s.bornCall s) (hs : s.step a = some s') :
    Watched s'.born s'.bornCall s' := by
  have hcall : forall c, (s.call c).stage = CallStage.queued ->
      s'.bornCall c = s.bornCall c := by
    intro c hc
    unfold Lane.bornCall
    rw [step_call_queued hnumbered hs hc]
    cases hy : (s.call c).handle with
    | none => rfl
    | some y =>
        have hborn := (hheld.same c y (Or.inr hc) hy).2
        simp [born_eq hnumbered hs hborn]
  have hwaiter : forall k c, c ∈ (s.drainer k).batch.waiters ->
      s'.bornCall c = s.bornCall c := by
    intro k c hc
    exact hcall c ((hqueues.batch k).queued c ((hqueues.batch k).waiter c hc))
  have hhandle : forall k,
      (s.drainer k).stage = DrainStage.ready ∨
        (s.drainer k).stage = DrainStage.writing ->
      s'.born (s.drainer k).handle = s.born (s.drainer k).handle :=
    fun k hk => born_eq hnumbered hs (hheld.sources.chosen k hk).2
  apply step_watched hlocks hreg ?_ ?_ ?_ (h.congr hhandle hwaiter) hs
  · intro k c n hstage hc hn
    rw [hwaiter k c hc] at hn
    rw [hhandle k (Or.inr hstage)]
    rcases Option.map_eq_some_iff.mp hn with ⟨y, hy, rfl⟩
    exact holder.chosen k (Or.inr hstage) c (List.mem_append_left _ hc) y hy
  · intro k htaken hready
    rcases resolveBatch_cases s k with hstage | ⟨-, x, hx, hstand⟩
    · rw [hready] at hstage
      cases hstage
    · have hknown := hheld.sources.batch k x htaken hx
      have hborn : s.incarnation (s.resolveBatch k).handle = some s.deletes := by
        rcases hstand with ⟨hcurrent, hsame⟩ | hnewest
        · rw [hsame]
          exact (standing_current hdir hknown hcurrent).2.1
        · exact (standing_superseded_some hdir hknown hnewest).2.1
      unfold Lane.born
      rw [step_incarnation hnumbered hs hborn]
      rfl
  · intro k hsource c hc
    have hsound := hqueues.batch k
    have hhandle := (hsound.bare hsource).2.2 c (hsound.waiter c hc)
    rw [hwaiter k c hc]
    simp [Lane.bornCall, hhandle]

/-!
# The trace
-/

/-- The event does nothing for a handle that the delete numbered `m` killed:
no snapshot and no row of it is written, and no waiter of it is told `Ok`. -/
def Fresh (s : Lane) (m : Nat) : Event -> Prop
  | Event.writeStarted w | Event.wrote w _ =>
      ¬ Killed s m w.handle ∧
        forall x, x ∈ w.updates ->
          forall y, (s.call x.call).handle = some y -> ¬ Killed s m y
  | Event.told c outcome => outcome = Outcome.ok ->
      forall y, (s.call c).handle = some y -> ¬ Killed s m y
  | _ => True

def DeleteSafe (s : Lane) : Prop :=
  s.trace.Pairwise (fun later earlier =>
    forall m, earlier = Event.erased m true -> Fresh s m later)

def Event.names : Event -> List Nat
  | Event.writeStarted w | Event.wrote w _ => w.updates.map Row.call
  | Event.told c _ => [c]
  | _ => []

def NamesCalls (s : Lane) : Prop :=
  forall e, e ∈ s.trace -> forall c, c ∈ e.names ->
    (s.call c).stage ≠ CallStage.unused

theorem step_call_used (hnumbered : Numbered s) (hs : s.step a = some s') {c : Nat}
    (hc : (s.call c).stage ≠ CallStage.unused) :
    (s'.call c).handle = (s.call c).handle ∧
      (s'.call c).stage ≠ CallStage.unused := by
  have hnew := hnumbered.call s.callCount (Nat.le_refl _)
  rcases step_call hs c with h | ⟨-, -, h⟩ | ⟨rfl, -⟩ | ⟨rfl, -⟩
  · rw [h]
    exact ⟨rfl, hc⟩
  · rw [h]
    exact ⟨rfl, by simp [Lane.queuedCall]⟩
  · exact absurd hnew hc
  · exact absurd hnew hc

variable {y : Handle}

theorem step_newborn (hs : s.step a = some s') {n : Nat}
    (hold : s.incarnation y = none) (hn : s'.incarnation y = some n) :
    n = s.deletes := by
  cases step_handles hs with
  | same _ hsame =>
      rw [hsame.incarnation, hold] at hn
      cases hn
  | create =>
      simp only [Lane.create] at hn
      grind
  | register _ =>
      simp only [Lane.register] at hn
      grind
  | drop | delete | retire _ => exact absurd (hold.symm.trans hn) (by simp)

theorem killed_step (hnumbered : Numbered s) (hs : s.step a = some s')
    (hm : m ≤ s.deletes) (hy : Killed s' m y) :
    Killed s m y := by
  rcases hy with ⟨n, hn, hlt⟩
  cases hold : s.incarnation y with
  | some n' =>
      have hsame := step_incarnation hnumbered hs hold
      rw [hn] at hsame
      exact ⟨n, by rw [hold, hsame], hlt⟩
  | none =>
      have hborn := step_newborn hs hold hn
      exact absurd hlt (Nat.not_lt.mpr (hborn ▸ hm))

variable {e : Event}

theorem fresh_step (hnumbered : Numbered s) (hs : s.step a = some s')
    (hm : m ≤ s.deletes)
    (hnames : forall c, c ∈ e.names -> (s.call c).stage ≠ CallStage.unused)
    (h : Fresh s m e) :
    Fresh s' m e := by
  cases e with
  | queued c | erased below ok => exact True.intro
  | writeStarted w | wrote w ok =>
      refine ⟨fun hkilled => h.1 (killed_step hnumbered hs hm hkilled), ?_⟩
      intro x hx y hy hkilled
      have hused := hnames x.call (List.mem_map.mpr ⟨x, hx, rfl⟩)
      rw [(step_call_used hnumbered hs hused).1] at hy
      exact h.2 x hx y hy (killed_step hnumbered hs hm hkilled)
  | told c outcome =>
      intro hok y hy hkilled
      rw [(step_call_used hnumbered hs (hnames c (by simp [Event.names]))).1] at hy
      exact h hok y hy (killed_step hnumbered hs hm hkilled)

theorem not_killed (hm : m ≤ s.born y) :
    ¬ Killed s m y := by
  rintro ⟨n, hn, hlt⟩
  simp only [Lane.born, hn, Option.getD_some] at hm
  exact absurd hlt (Nat.not_lt.mpr hm)

theorem fresh_emits (holder : QueuesIn (NoneOlder s) s)
    (h : Watched s.born s.bornCall s) (hm : Event.erased m true ∈ s.trace)
    (he : Emits s a e) :
    Fresh s m e := by
  have hchosen : forall k,
      (s.drainer k).stage = DrainStage.ready ∨
        (s.drainer k).stage = DrainStage.writing ->
      m ≤ s.born (s.drainer k).handle := by
    intro k hk
    by_contra hlt
    exact h.gone m hm k (Or.inl ⟨hk, Nat.lt_of_not_le hlt⟩)
  have hwrite : forall k version,
      (s.drainer k).stage = DrainStage.ready ∨
        (s.drainer k).stage = DrainStage.writing ->
      Fresh s m (Event.writeStarted (Lane.writeOf (s.drainer k) version)) := by
    intro k version hk
    refine ⟨not_killed (hchosen k hk), ?_⟩
    intro x hx y hy
    have howes : x.call ∈ (s.drainer k).batch.owes :=
      List.mem_append_right _ (List.mem_map.mpr ⟨x, hx, rfl⟩)
    exact not_killed
      (Nat.le_trans (hchosen k hk) (holder.chosen k hk x.call howes y hy))
  cases he with
  | queued _ | erased _ => exact True.intro
  | refused hne => exact fun hok => absurd hok hne
  | dropped _ _ => exact fun hok => by cases hok
  | writeStarted hstage => exact hwrite _ _ (Or.inl hstage)
  | wrote hstage => exact hwrite _ _ (Or.inr hstage)
  | @told k c hstage hc =>
      intro hok y hy
      apply not_killed
      by_contra hlt
      have hborn : s.bornCall c = some (s.born y) := by
        simp [Lane.bornCall, hy]
      exact h.gone m hm k
        (Or.inr ⟨hstage, hok, c, _, hc, hborn, Nat.lt_of_not_le hlt⟩)

/-- The calls a step's events name were made before, or the event refuses the
call that makes it. -/
theorem names_emits (hqueues : Queues s) (he : Emits s a e) {c : Nat}
    (hc : c ∈ e.names) :
    (s.call c).stage ≠ CallStage.unused ∨
      exists h updates removed waits outcome,
        a = Action.enqueue h updates removed waits ∧ outcome ≠ Outcome.ok ∧
          e = Event.told s.callCount outcome := by
  have hqueued : forall (p : Pending) n, p.Sound s.call -> n ∈ p.requests ->
      (s.call n).stage ≠ CallStage.unused := by
    intro p n hp hn
    simp [hp.queued n hn]
  cases he with
  | queued _ | erased _ => cases hc
  | refused hne =>
      exact Or.inr ⟨_, _, _, _, _, rfl, hne, rfl⟩
  | @writeStarted k _ | @wrote k _ _ =>
      left
      rcases List.mem_map.mp hc with ⟨x, hx, rfl⟩
      exact hqueued _ _ (hqueues.batch k) ((hqueues.batch k).row x hx).1
  | @told k n _ hn =>
      left
      have hcn : c = n := by simpa [Event.names] using hc
      rw [hcn]
      exact hqueued _ _ (hqueues.batch k) ((hqueues.batch k).waiter n hn)
  | @dropped d n _ hn =>
      left
      have hcn : c = n := by simpa [Event.names] using hc
      rw [hcn]
      exact hqueued _ _ (hqueues.leftover d) ((hqueues.leftover d).waiter n hn)

/-- The invariant of the runs that separate incarnations. -/
structure Separated (s : Lane) : Prop where
  held : Held s
  older : QueuesIn (NoneOlder s) s
  watched : Watched s.born s.bornCall s
  names : NamesCalls s
  safe : DeleteSafe s

theorem separated_empty : Separated Lane.empty := by
  refine ⟨held_empty, queuesIn_empty _, ?_, ?_, List.Pairwise.nil⟩
  · constructor
    · intro d
      exact Nat.le_refl 0
    · intro d k hawaits
      simp [Lane.empty, Deletion.none, DeleteStage.Awaits] at hawaits
    · intro m ok hm
      cases hm
    · intro m hm
      cases hm
  · intro e he
    cases he

theorem step_names (hnumbered : Numbered s) (hqueues : Queues s) (h : NamesCalls s)
    (hs : s.step a = some s') :
    NamesCalls s' := by
  rcases step_trace hs with ⟨events, heq, hemits, -⟩
  intro e he c hc
  rw [heq] at he
  rcases List.mem_append.mp he with he | he
  · rcases names_emits hqueues (hemits e he) hc with
      hused | ⟨x, updates, removed, waits, outcome, rfl, hne, rfl⟩
    · exact (step_call_used hnumbered hs hused).2
    · have hcount : c = s.callCount := by simpa [Event.names] using hc
      subst hcount
      rcases guarded.mp hs with ⟨_, rfl⟩
      unfold Lane.enqueue
      rcases s.standing x with _ | ⟨_ | y⟩ | _ <;>
        simp [Lane.addCall, Lane.emit]
  · exact (step_call_used hnumbered hs (h e he c hc)).2

theorem step_deleteSafe (hnumbered : Numbered s) (hqueues : Queues s)
    (h : Separated s) (hs : s.step a = some s') :
    DeleteSafe s' := by
  rcases step_trace hs with ⟨events, heq, hemits, hshape⟩
  unfold DeleteSafe
  rw [heq, List.pairwise_append]
  refine ⟨?_, ?_, ?_⟩
  · rcases hshape with hlength | ⟨waiters, outcome, rfl⟩
    · rcases events with _ | ⟨e, _ | ⟨e', rest⟩⟩
      · exact List.Pairwise.nil
      · exact List.pairwise_singleton _ _
      · simp at hlength
    · apply List.pairwise_of_forall_mem_list
      intro later _ earlier hearlier m heq
      rcases mem_tell.mp hearlier with ⟨c, -, rfl⟩
      cases heq
  · apply h.safe.imp_of_mem
    intro later earlier hlater hearlier hfresh m hm
    subst hm
    exact fresh_step hnumbered hs (h.watched.erased m true hearlier)
      (h.names later hlater) (hfresh m rfl)
  · intro later hlater earlier hearlier m hm
    subst hm
    have hfresh := fresh_emits h.older h.watched hearlier (hemits later hlater)
    have hle := h.watched.erased m true hearlier
    cases hemits later hlater with
    | queued _ | erased _ => exact True.intro
    | refused hne => exact fun hok => absurd hok hne
    | writeStarted _ | wrote _ | told _ _ | dropped _ _ =>
        apply fresh_step hnumbered hs hle ?_ hfresh
        intro c hc
        rcases names_emits hqueues (hemits _ hlater) hc with
          hused | ⟨_, _, _, _, _, heq, -⟩
        · exact hused
        · cases heq

theorem step_separated (hlocks : Locks s) (hnumbered : Numbered s)
    (hreg : Registration s) (hqueues : Queues s) (hdir : Directory s)
    (h : Separated s) (ha : SeparatesIncarnations s a) (hs : s.step a = some s') :
    Separated s' where
  held := step_held hlocks hnumbered hreg hdir h.held ha.1 hs
  older := step_compares lists_owes Nat.le_refl hnumbered hqueues hdir h.held
    h.older ha.2 hs
  watched := step_watched_born hlocks hnumbered hreg hqueues hdir h.held
    h.older h.watched hs
  names := step_names hnumbered hqueues h.names hs
  safe := step_deleteSafe hnumbered hqueues h hs

theorem separated (h : lane.Reachable SeparatesIncarnations s) :
    Separated s :=
  h.invariant_of (P := Separated)
    (fun _ h => And.intro (locks h) (And.intro (numbered h)
      (And.intro (registration h) (And.intro (queues h) (directory h)))))
    separated_empty
    (fun _ _ _ hknown hsep ha hs =>
      step_separated hknown.1 hknown.2.1 hknown.2.2.1 hknown.2.2.2.1
        hknown.2.2.2.2 hsep ha hs)

/-- In every run of the persister that separates incarnations, after a delete
of a session has succeeded no snapshot and no row of a request made through a
handle the delete killed is written, and no waiter of one is told `Ok`. -/
theorem delete_safety {p : Uuid -> Lane}
    (h : persister.Reachable (System.EachAllowed SeparatesIncarnations) p)
    (id : Uuid) :
    DeleteSafe (p id) :=
  (separated (h.component id)).safe

def recreatedRun : List Action :=
  [Action.create, Action.register 0,
    Action.enqueue 0 [ContextUpdate.plain 1 0 "old"] [] true, Action.queue 0,
    Action.drain 0 DrainAction.request, Action.delete none,
    Action.deletion 0 DeleteAction.retire, Action.deletion 0 DeleteAction.lookup,
    Action.deletion 0 DeleteAction.request, Action.drain 0 DrainAction.take,
    Action.drain 0 DrainAction.resolve, Action.drain 0 DrainAction.release,
    Action.drain 0 DrainAction.unregister, Action.deletion 0 DeleteAction.begin,
    Action.deletion 0 (DeleteAction.finish true),
    Action.deletion 0 DeleteAction.unregister,
    Action.deletion 0 DeleteAction.take, Action.deletion 0 DeleteAction.judge,
    Action.deletion 0 DeleteAction.release,
    Action.create, Action.register 1,
    Action.enqueue 1 [ContextUpdate.plain 2 0 "new"] [] true, Action.queue 1,
    Action.drain 1 DrainAction.request, Action.drain 1 DrainAction.take,
    Action.drain 1 DrainAction.resolve, Action.drain 1 DrainAction.begin,
    Action.drain 1 (DrainAction.finish true),
    Action.drain 1 DrainAction.release]

theorem delete_safety_recreated :
    exists p,
      persister.replay (System.EachAllowed SeparatesIncarnations) persister.init
          (recreatedRun.map (Prod.mk 7)) = some p ∧
        DeleteSafe (p 7) := by
  have hrun : (persister.replay (System.EachAllowed SeparatesIncarnations)
      persister.init (recreatedRun.map (Prod.mk 7))).isSome = true := by
    decide +kernel
  rcases Option.isSome_iff_exists.mp hrun with ⟨p, hp⟩
  exact ⟨p, hp, delete_safety (System.Reachable.init.replay hp) 7⟩

/-!
# A stale row on a fresh request
-/

/-- The last event starts a write of a row of a killed handle. -/
def WritesStaleRow (s : Lane) (m : Nat) : Prop :=
  match s.trace with
  | Event.writeStarted w :: rest =>
      Event.erased m true ∈ rest ∧
        exists x, x ∈ w.updates ∧
          exists y, y ∈ (s.call x.call).handle ∧ Killed s m y
  | _ => False

instance (s : Lane) (m : Nat) (h : Handle) : Decidable (Killed s m h) :=
  inferInstanceAs (Decidable (exists n, n ∈ s.incarnation h ∧ n < m))

instance (s : Lane) (m : Nat) : Decidable (WritesStaleRow s m) := by
  unfold WritesStaleRow
  split <;> infer_instance

theorem WritesStaleRow.not_safe (h : WritesStaleRow s m) :
    ¬ DeleteSafe s := by
  intro hsafe
  unfold WritesStaleRow at h
  unfold DeleteSafe at hsafe
  split at h
  · next w rest htrace =>
      rcases h with ⟨herased, x, hx, y, hy, hkilled⟩
      rw [htrace, List.pairwise_cons] at hsafe
      exact (hsafe.1 _ herased m rfl).2 x hx y hy hkilled
  · exact h

/-- A delete waits for a running write; the session is re-created, and its
first request joins the request still queued for the deleted session. -/
def staleRun : List Action :=
  [Action.create, Action.register 0,
    Action.enqueue 0 [ContextUpdate.plain 1 0 "first"] [] false, Action.queue 0,
    Action.drain 0 DrainAction.request, Action.drain 0 DrainAction.take,
    Action.enqueue 0 [ContextUpdate.plain 2 0 "second"] [] true, Action.queue 1,
    Action.delete none, Action.deletion 0 DeleteAction.retire,
    Action.deletion 0 DeleteAction.lookup,
    Action.deletion 0 DeleteAction.request,
    Action.create, Action.register 1,
    Action.enqueue 1 [] [] false, Action.queue 2,
    Action.drain 0 DrainAction.resolve, Action.drain 0 DrainAction.release,
    Action.deletion 0 DeleteAction.begin,
    Action.deletion 0 (DeleteAction.finish true),
    Action.deletion 0 DeleteAction.unregister,
    Action.deletion 0 DeleteAction.take, Action.deletion 0 DeleteAction.judge,
    Action.deletion 0 DeleteAction.requeue,
    Action.drain 1 DrainAction.request, Action.drain 1 DrainAction.take,
    Action.drain 1 DrainAction.resolve, Action.drain 1 DrainAction.begin]

theorem delete_unsafe_stale_row :
    ¬ forall p, persister.Reachable System.Anything p ->
      forall id, DeleteSafe (p id) := by
  intro h
  obtain ⟨p, -, hreach, hstale⟩ := persister.replay_reaches System.Anything
    (staleRun.map (Prod.mk 7)) (fun p => WritesStaleRow (p 7) 1) (by decide +kernel)
  exact hstale.not_safe (h p hreach 7)

end Persister
end PostCortex
