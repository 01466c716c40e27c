import PostCortex.Persister.Locks

/-!
# Registration of slots

Which slot is registered, in terms of what the tasks are doing: a writer task
that chose to write works on the registered slot, a writer task exits only when
its slot is unregistered and empty, and queued work is either in the
registered slot or about to be taken by the delete that unregistered it.
-/

namespace PostCortex
namespace Persister

open PostCortex.Core
open Transition

/-- A delete has unregistered the slot and not yet taken its queue. -/
def Clearing (deletion : Nat -> Deletion) (k : SlotId) : Prop :=
  exists d, (deletion d).stage = DeleteStage.cleared ∧
    (deletion d).slot = some k

variable {deletion : Nat -> Deletion} {d : Nat} {k : SlotId}

theorem Clearing.update (x : Deletion)
    (hd : (deletion d).stage ≠ DeleteStage.cleared ∨ (deletion d).slot ≠ some k)
    (h : Clearing deletion k) :
    Clearing (Function.update deletion d x) k := by
  rcases h with ⟨d', hstage, hslot⟩
  have hne : d' ≠ d := by
    rintro rfl
    exact hd.elim (fun hd => hd hstage) (fun hd => hd hslot)
  exact ⟨d', by rwa [Function.update_of_ne hne], by rwa [Function.update_of_ne hne]⟩

theorem Clearing.self {x : Deletion} (hstage : x.stage = DeleteStage.cleared)
    (hslot : x.slot = some k) :
    Clearing (Function.update deletion d x) k :=
  ⟨d, by rwa [Function.update_self], by rwa [Function.update_self]⟩

variable {s : Lane}

theorem Clearing.locked (hlocks : Locks s) (h : Clearing s.deletion k) :
    (s.writeLock k).head? ≠ some Party.drainer := by
  rcases h with ⟨d, hstage, hslot⟩
  have hhead := hlocks.deletionOwns d k (by simp [DeleteStage.Owns, hstage]) hslot
  simp [hhead]

structure Registration (s : Lane) : Prop where
  active : forall k, (s.drainer k).stage.Owns ->
    (s.drainer k).registered = true -> s.registered = some k
  chosen : forall k,
    (s.drainer k).stage = DrainStage.ready ∨
      (s.drainer k).stage = DrainStage.writing ->
    (s.drainer k).registered = true
  succeeded : forall k, (s.drainer k).stage = DrainStage.finished ->
    (s.drainer k).outcome = Outcome.ok -> (s.drainer k).registered = true
  retired : forall k, (s.drainer k).stage.Owns ->
    (s.drainer k).registered = false -> (s.drainer k).batch.IsEmpty
  exited : forall k, (s.drainer k).stage = DrainStage.exited ->
    s.registered ≠ some k ∧ (s.pending k).IsEmpty
  stranded : forall k, ¬ (s.pending k).IsEmpty ->
    s.registered = some k ∨ Clearing s.deletion k
  cleared : forall d k, (s.deletion d).stage.Cleared ->
    (s.deletion d).slot = some k -> s.registered ≠ some k

theorem registration_empty : Registration Lane.empty := by
  constructor <;>
    simp [Lane.empty, Drainer.none, Deletion.none, DeleteStage.Cleared,
      DrainStage.Owns, Pending.IsEmpty, Pending.empty]

variable {s' : Lane}

theorem Registration.update (h : Registration s) (hdrainer : s'.drainer = s.drainer)
    (hdeletion : s'.deletion = s.deletion) (hreg : s'.registered = s.registered)
    (hpending : s'.pending = s.pending) :
    Registration s' := by
  rcases h with ⟨h1, h2, h3, h4, h5, h6, h7⟩
  constructor <;> simp only [hdrainer, hdeletion, hreg, hpending] <;> assumption

theorem queueWork_registration (hlocks : Locks s) (h : Registration s)
    (work : Pending) :
    Registration (s.queueWork work) := by
  rcases h with ⟨h1, h2, h3, h4, h5, h6, h7⟩
  have hlt := hlocks.deletionLt
  unfold Lane.queueWork
  split
  · constructor <;> grind
  · constructor <;>
      grind [Drainer.spawned, Drainer.none, DrainStage.Owns]

/-- What the writer task of slot `k` keeps to. -/
structure Fits (registered : Option SlotId) (pending : Pending) (k : SlotId)
    (x : Drainer) : Prop where
  active : x.stage.Owns -> x.registered = true -> registered = some k
  chosen : x.stage = DrainStage.ready ∨ x.stage = DrainStage.writing ->
    x.registered = true
  succeeded : x.stage = DrainStage.finished -> x.outcome = Outcome.ok ->
    x.registered = true
  retired : x.stage.Owns -> x.registered = false -> x.batch.IsEmpty
  exited : x.stage = DrainStage.exited -> registered ≠ some k ∧ pending.IsEmpty

variable {x : Drainer}

theorem Fits.idle {registered : Option SlotId} {pending : Pending}
    (howns : ¬ x.stage.Owns)
    (hexited : x.stage = DrainStage.exited -> registered ≠ some k ∧ pending.IsEmpty) :
    Fits registered pending k x where
  active := fun hx => absurd hx howns
  chosen := fun hx => absurd (Or.inr (hx.imp_right Or.inl)) howns
  succeeded := fun hx => absurd (Or.inr (Or.inr (Or.inr hx))) howns
  retired := fun hx => absurd hx howns
  exited := hexited

theorem Registration.fits (h : Registration s) (k : SlotId) :
    Fits s.registered (s.pending k) k (s.drainer k) :=
  ⟨h.active k, h.chosen k, h.succeeded k, h.retired k, h.exited k⟩

theorem registration_of_fits
    (hfits : forall k, Fits s.registered (s.pending k) k (s.drainer k))
    (hstranded : forall k, ¬ (s.pending k).IsEmpty ->
      s.registered = some k ∨ Clearing s.deletion k)
    (hcleared : forall d k, (s.deletion d).stage.Cleared ->
      (s.deletion d).slot = some k -> s.registered ≠ some k) :
    Registration s :=
  ⟨fun k => (hfits k).active, fun k => (hfits k).chosen,
    fun k => (hfits k).succeeded, fun k => (hfits k).retired,
    fun k => (hfits k).exited, hstranded, hcleared⟩

theorem Registration.setDrainer (h : Registration s)
    (hdrainer : s'.drainer = Function.update s.drainer k x)
    (hdeletion : s'.deletion = s.deletion) (hreg : s'.registered = s.registered)
    (hpending : s'.pending = s.pending)
    (hfits : Fits s.registered (s.pending k) k x) :
    Registration s' := by
  apply registration_of_fits <;> simp only [hdrainer, hdeletion, hreg, hpending]
  · intro j
    by_cases hj : j = k
    · subst hj
      rwa [Function.update_self]
    · rw [Function.update_of_ne hj]
      exact h.fits j
  · exact h.stranded
  · exact h.cleared

theorem take_registration (hlocks : Locks s) (h : Registration s)
    (hs : s.drain k DrainAction.take = some s') :
    Registration s' := by
  rcases guarded.mp hs with ⟨⟨hstage, hhead⟩, rfl⟩
  have hclearing : ¬ Clearing s.deletion k :=
    fun hclearing => hclearing.locked hlocks hhead
  have hempty : Pending.empty.IsEmpty := ⟨rfl, rfl, rfl, rfl⟩
  apply registration_of_fits <;> simp only [Lane.setDrainer, Lane.setPending]
  · intro j
    by_cases hj : j = k
    · subst hj
      rw [Function.update_self, Function.update_self]
      refine ⟨by simp, by simp, by simp, ?_, by simp⟩
      intro _ hregistered
      have hretired : s.registered ≠ some j := by simpa using hregistered
      by_contra hkept
      rcases h.stranded j hkept with hreg | hcleared
      · exact hretired hreg
      · exact hclearing hcleared
    · rw [Function.update_of_ne hj, Function.update_of_ne hj]
      exact h.fits j
  · intro j hkept
    by_cases hj : j = k
    · subst hj
      simp [hempty] at hkept
    · exact h.stranded j (by simpa [hj] using hkept)
  · exact h.cleared

theorem unregister_registration (h : Registration s)
    (hx : x.stage = DrainStage.exited) (hreg : s.registered = some k)
    (hempty : (s.pending k).IsEmpty) :
    Registration { s.setDrainer k x with registered := none } := by
  apply registration_of_fits <;> simp only [Lane.setDrainer]
  · intro j
    by_cases hjk : j = k
    · subst hjk
      rw [Function.update_self]
      exact Fits.idle (by simp [hx, DrainStage.Owns]) (fun _ => ⟨by simp, hempty⟩)
    · rw [Function.update_of_ne hjk]
      refine ⟨?_, h.chosen j, h.succeeded j, h.retired j, ?_⟩
      · intro howns hregistered
        have hsame := (h.active j howns hregistered).symm.trans hreg
        exact absurd (Option.some.inj hsame) hjk
      · exact fun hexited => ⟨by simp, (h.exited j hexited).2⟩
  · intro j hkept
    rcases h.stranded j hkept with hsame | hclearing
    · have hjk := Option.some.inj (hsame.symm.trans hreg)
      exact absurd (hjk ▸ hempty) hkept
    · exact Or.inr hclearing
  · simp

theorem drain_registration {a : DrainAction} (hlocks : Locks s) (h : Registration s)
    (hs : s.drain k a = some s') :
    Registration s' := by
  cases a with
  | take => exact take_registration hlocks h hs
  | request | release =>
      rcases guarded.mp hs with ⟨hstage, rfl⟩
      exact h.setDrainer rfl rfl rfl rfl
        (Fits.idle (by simp [DrainStage.Owns]) (by simp))
  | resolve =>
      rcases guarded.mp hs with ⟨hstage, rfl⟩
      have howns : (s.drainer k).stage.Owns := Or.inl hstage
      have hregistered : (s.resolveBatch k).registered =
          (s.drainer k).registered := by
        unfold Lane.resolveBatch
        grind
      have hbatch : (s.resolveBatch k).batch = (s.drainer k).batch := by
        unfold Lane.resolveBatch
        grind
      refine h.setDrainer rfl rfl rfl rfl ⟨?_, ?_, ?_, ?_, ?_⟩
      · intro _ hactive
        exact h.active k howns (hregistered ▸ hactive)
      · rw [hregistered]
        unfold Lane.resolveBatch
        grind
      · rw [hregistered]
        unfold Lane.resolveBatch
        grind
      · intro _ hretired
        rw [hbatch]
        exact h.retired k howns (hregistered ▸ hretired)
      · unfold Lane.resolveBatch
        grind
  | begin =>
      rcases guarded.mp hs with ⟨hstage, rfl⟩
      have howns : (s.drainer k).stage.Owns := Or.inr (Or.inl hstage)
      exact h.setDrainer rfl rfl rfl rfl ⟨fun _ => h.active k howns,
        fun _ => h.chosen k (Or.inl hstage), by simp,
        fun _ => h.retired k howns, by simp⟩
  | finish ok =>
      rcases guarded.mp hs with ⟨hstage, rfl⟩
      have howns : (s.drainer k).stage.Owns :=
        Or.inr (Or.inr (Or.inl hstage))
      exact h.setDrainer rfl rfl rfl rfl ⟨fun _ => h.active k howns, by simp,
        fun _ _ => h.chosen k (Or.inr hstage), fun _ => h.retired k howns,
        by simp⟩
  | unregister =>
      rcases guarded.mp hs with ⟨hstage, rfl⟩
      split
      · next hlast =>
          exact unregister_registration h rfl hlast.1 hlast.2
      · exact h.setDrainer rfl rfl rfl rfl
          (Fits.idle (by simp [DrainStage.Owns]) (by simp))
  | recheck =>
      rcases guarded.mp hs with ⟨hstage, rfl⟩
      split
      · next hlast =>
          exact h.setDrainer rfl rfl rfl rfl
            (Fits.idle (by simp [DrainStage.Owns]) (fun _ => hlast))
      · exact h.setDrainer rfl rfl rfl rfl
          (Fits.idle (by simp [DrainStage.Owns]) (by simp))

theorem Registration.setDeletion {x : Deletion} (h : Registration s)
    (hdrainer : s'.drainer = s.drainer)
    (hdeletion : s'.deletion = Function.update s.deletion d x)
    (hreg : s'.registered = s.registered) (hpending : s'.pending = s.pending)
    (hstage : (s.deletion d).stage ≠ DeleteStage.cleared)
    (hcleared : x.stage.Cleared -> x.slot = (s.deletion d).slot ∧
      (s.deletion d).stage.Cleared) :
    Registration s' := by
  rcases h with ⟨h1, h2, h3, h4, h5, h6, h7⟩
  constructor <;> simp only [hdrainer, hdeletion, hreg, hpending]
  · exact h1
  · exact h2
  · exact h3
  · exact h4
  · exact h5
  · intro k hkept
    exact (h6 k hkept).imp_right (fun hold => hold.update x (Or.inl hstage))
  · intro e k he hslot
    by_cases hed : e = d
    · subst hed
      rcases hcleared (by simpa using he) with ⟨hsame, hwas⟩
      exact h7 e k hwas (by simpa [hsame] using hslot)
    · exact h7 e k (by simpa [hed] using he) (by simpa [hed] using hslot)

theorem clear_registration (hlocks : Locks s) (h : Registration s)
    (hs : s.deletionStep d DeleteAction.unregister = some s') :
    Registration s' := by
  rcases guarded.mp hs with ⟨hstage, rfl⟩
  rcases h with ⟨h1, h2, h3, h4, h5, h6, h7⟩
  have howns : forall k, (s.deletion d).slot = some k ->
      ¬ (s.drainer k).stage.Owns := by
    intro k hslot hk
    have hdrainer := hlocks.drainerOwns k hk
    have hdelete := hlocks.deletionOwns d k (Or.inr (Or.inl hstage)) hslot
    rw [hdrainer] at hdelete
    cases hdelete
  have hkeep : forall k, s.registered = some k ->
      s.registered ≠ (s.deletion d).slot ->
      (if s.registered = (s.deletion d).slot then none else s.registered) =
        some k := by
    intro k hk hne
    rw [if_neg hne, hk]
  have hlost : forall k,
      (if s.registered = (s.deletion d).slot then none else s.registered) =
        some k ->
      s.registered = some k ∧ s.registered ≠ (s.deletion d).slot := by
    intro k hk
    split at hk
    · cases hk
    · next hne => exact ⟨hk, hne⟩
  constructor <;> simp only [Lane.setDeletion]
  · intro k hk hregistered
    have hreg := h1 k hk hregistered
    exact hkeep k hreg (fun hslot => howns k (hslot ▸ hreg) hk)
  · exact h2
  · exact h3
  · exact h4
  · intro k hk
    exact ⟨fun hreg => (h5 k hk).1 (hlost k hreg).1, (h5 k hk).2⟩
  · intro k hkept
    rcases h6 k hkept with hreg | hclearing
    · by_cases hslot : s.registered = (s.deletion d).slot
      · exact Or.inr (Clearing.self rfl (hslot ▸ hreg))
      · exact Or.inl (hkeep k hreg hslot)
    · right
      exact hclearing.update _ (Or.inl (by rw [hstage]; decide))
  · intro e k he hslot hreg
    rcases hlost k hreg with ⟨hold, hne⟩
    by_cases hed : e = d
    · subst hed
      have hslot : (s.deletion e).slot = some k := by simpa using hslot
      exact hne (hold.trans hslot.symm)
    · exact h7 e k (by simpa [hed] using he) (by simpa [hed] using hslot) hold

theorem collect_registration (h : Registration s)
    (hs : s.deletionStep d DeleteAction.take = some s') :
    Registration s' := by
  rcases guardedSlot.mp hs with ⟨k, hslot, hstage, rfl⟩
  rcases h with ⟨h1, h2, h3, h4, h5, h6, h7⟩
  have hempty : Pending.empty.IsEmpty := ⟨rfl, rfl, rfl, rfl⟩
  constructor <;> simp only [Lane.setDeletion, Lane.setPending]
  · exact h1
  · exact h2
  · exact h3
  · exact h4
  · intro j hj
    refine ⟨(h5 j hj).1, ?_⟩
    by_cases hjk : j = k
    · subst hjk
      simpa using hempty
    · simpa [hjk] using (h5 j hj).2
  · intro j hkept
    by_cases hjk : j = k
    · subst hjk
      simp [hempty] at hkept
    · refine (h6 j (by simpa [hjk] using hkept)).imp_right ?_
      intro hclearing
      apply hclearing.update
      right
      rw [hslot]
      exact fun heq => hjk (Option.some.inj heq).symm
  · intro e j he hj
    by_cases hed : e = d
    · subst hed
      exact h7 e j (Or.inl hstage) (by simpa using hj)
    · exact h7 e j (by simpa [hed] using he) (by simpa [hed] using hj)

theorem deletion_registration {a : DeleteAction} (hlocks : Locks s)
    (h : Registration s) (hs : s.deletionStep d a = some s') :
    Registration s' := by
  cases a with
  | unregister => exact clear_registration hlocks h hs
  | take => exact collect_registration h hs
  | retire | lookup =>
      rcases guarded.mp hs with ⟨hstage, rfl⟩
      exact h.setDeletion rfl rfl rfl rfl (by rw [hstage]; decide)
        (by simp [DeleteStage.Cleared])
  | request | release =>
      rcases guardedSlot.mp hs with ⟨k, hslot, hstage, rfl⟩
      exact h.setDeletion rfl rfl rfl rfl (by rw [hstage]; decide)
        (by simp [DeleteStage.Cleared])
  | begin =>
      rcases guarded.mp hs with ⟨⟨hstage, hgranted⟩, rfl⟩
      refine h.setDeletion rfl rfl rfl rfl ?_ (by simp [DeleteStage.Cleared])
      rw [hstage]
      cases (s.deletion d).slot <;> simp [DeleteStage.entry]
  | finish ok =>
      rcases guarded.mp hs with ⟨hstage, rfl⟩
      refine h.setDeletion rfl rfl rfl rfl (by rw [hstage]; decide) ?_
      cases (s.deletion d).slot <;>
        simp [DeleteStage.afterErase, DeleteStage.Cleared]
  | judge =>
      rcases guarded.mp hs with ⟨hstage, rfl⟩
      have hcleared : (s.deletion d).stage.Cleared := Or.inr (Or.inl hstage)
      split
      · exact h.setDeletion rfl rfl rfl rfl (by rw [hstage]; decide)
          (fun _ => ⟨rfl, hcleared⟩)
      · exact h.setDeletion rfl rfl rfl rfl (by rw [hstage]; decide)
          (fun _ => ⟨rfl, hcleared⟩)
  | requeue =>
      rcases guarded.mp hs with ⟨hstage, rfl⟩
      have hqueue := queueWork_registration hlocks h (s.deletion d).leftover
      have hdeletion := queueWork_deletion s (s.deletion d).leftover
      refine hqueue.setDeletion rfl rfl rfl rfl ?_ ?_
      · rw [hdeletion, hstage]
        decide
      · rw [hdeletion]
        exact fun _ => ⟨rfl, Or.inr (Or.inr (Or.inl hstage))⟩

theorem Registration.frame (h : Registration s) (hsame : SameTasks s s') :
    Registration s' :=
  h.update hsame.drainer hsame.deletion hsame.registered hsame.pending

theorem step_registration {a : Action} (hlocks : Locks s) (hnumbered : Numbered s)
    (h : Registration s) (hs : s.step a = some s') :
    Registration s' := by
  cases a with
  | create | register x | commit x | drop x | enqueue x updates removed waits
  | flushCollect | flushForget f =>
      exact h.frame (step_sameTasks hs True.intro)
  | queue c =>
      rcases guarded.mp hs with ⟨_, rfl⟩
      have hlocks : Locks (s.recordQueued c) :=
        hlocks.update rfl rfl rfl rfl rfl rfl
      have hcalls : Registration (s.recordQueued c) := h.update rfl rfl rfl rfl
      exact (queueWork_registration hlocks hcalls _).update rfl rfl rfl rfl
  | waitQueued =>
      rcases waitQueued_cases hs with ⟨k, hreg, rfl⟩
      rcases h with ⟨h1, h2, h3, h4, h5, h6, h7⟩
      constructor <;> simp only [Lane.waitQueued, Lane.setPending, Lane.addCall] <;>
        grind
  | drain k a =>
      exact drain_registration hlocks h hs
  | delete live =>
      rcases guarded.mp hs with ⟨_, rfl⟩
      have hnew : (s.deletion s.deleteCount).stage = DeleteStage.unused :=
        hnumbered.deletion s.deleteCount (Nat.le_refl _)
      rcases h with ⟨h1, h2, h3, h4, h5, h6, h7⟩
      constructor <;> simp only [Lane.delete] <;>
        grind [Clearing.update, DeleteStage.Cleared]
  | deletion d a =>
      exact deletion_registration hlocks h hs
  | exclusive =>
      cases hs
      exact h.update rfl rfl rfl rfl
  | critical e a =>
      rcases criticalStep_eq hs with ⟨w, x, rfl, -⟩
      exact h.update rfl rfl rfl rfl

theorem registration {allowed : Lane -> Action -> Prop}
    (h : lane.Reachable allowed s) :
    Registration s :=
  h.invariant_of (P := Registration)
    (fun _ h => And.intro (locks h) (numbered h)) registration_empty
    (fun _ _ _ hknown hreg _ hs =>
      step_registration hknown.1 hknown.2 hreg hs)

/-!
# Writes do not overlap, and queued work is not stranded
-/

/-- Two `sink.write` calls of the session never run at the same time. -/
def WritesDisjoint (s : Lane) : Prop :=
  forall k l, (s.drainer k).stage = DrainStage.writing ->
    (s.drainer l).stage = DrainStage.writing -> k = l

/-- A slot with a request or a waiter has a writer task that has not exited. -/
def NoneStranded (s : Lane) : Prop :=
  forall k, ¬ (s.pending k).IsEmpty -> (s.drainer k).stage ≠ DrainStage.exited

theorem Registration.writing (h : Registration s)
    (hk : (s.drainer k).stage = DrainStage.ready ∨
      (s.drainer k).stage = DrainStage.writing) :
    s.registered = some k := by
  apply h.active k
  · rcases hk with hk | hk <;> simp [DrainStage.Owns, hk]
  · exact h.chosen k hk

theorem Registration.writesDisjoint (h : Registration s) :
    WritesDisjoint s := by
  intro k l hk hl
  have hsame : some k = some l :=
    (h.writing (Or.inr hk)).symm.trans (h.writing (Or.inr hl))
  exact Option.some.inj hsame

theorem Registration.noneStranded (h : Registration s) :
    NoneStranded s :=
  fun k hpending hexited => hpending (h.exited k hexited).2

end Persister
end PostCortex
