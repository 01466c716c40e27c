import PostCortex.Persister.Coverage
import PostCortex.Persister.Flushed
import PostCortex.Persister.Movement

/-!
# Exclusive sections

A delete or an exclusive section locks the slot it finds registered, or no
slot.  Its lock excludes the session's writes only while no other slot is
created, and keeps the order of the requests only when the writer task of the
slot asked for the lock before it.
-/

namespace PostCortex
namespace Persister

open PostCortex.Core
open Transition

/-!
# Sections that overlap
-/

/-- The calls that claim a session's storage for themselves. -/
inductive Interval where
  | write (k : SlotId)
  | erase (d : Nat)
  | critical (e : Nat)
  deriving DecidableEq, Repr

def Interval.Running (s : Lane) : Interval -> Prop
  | write k => (s.drainer k).stage = DrainStage.writing
  | erase d => (s.deletion d).stage = DeleteStage.deleting
  | critical e => (s.critical e).stage = SectionStage.running

/-- No two writes, deletes or exclusive sections run at the same time. -/
def SectionsDisjoint (s : Lane) : Prop :=
  forall i j, Interval.Running s i -> Interval.Running s j -> i = j

def Early (s : Lane) (e c : Nat) : Prop :=
  (s.call c).stage = CallStage.queued ∧
    (s.call c).order < (s.critical e).since

/-- A section runs only after the write of every request queued before it was
attempted. -/
def SectionsLate (s : Lane) : Prop :=
  forall e c, (s.critical e).stage = SectionStage.running -> Early s e c ->
    ¬ Waiting s (fun p => c ∈ p.requests) ∧
    ¬ Running s (fun p => c ∈ p.requests)

/-!
# Between look-up and end
-/

/-- The delete has looked its slot up and `sink.delete` has not ended. -/
def DeleteStage.Engaged (x : DeleteStage) : Prop :=
  x = seen ∨ x = waiting ∨ x = deleting

def SectionStage.Engaged (x : SectionStage) : Prop :=
  x = seen ∨ x = waiting ∨ x = running

instance (x : DeleteStage) : Decidable x.Engaged :=
  inferInstanceAs (Decidable (_ ∨ _ ∨ _))

instance (x : SectionStage) : Decidable x.Engaged :=
  inferInstanceAs (Decidable (_ ∨ _ ∨ _))

def Engages (s : Lane) (found : Option SlotId) : Party -> Prop
  | Party.drainer => False
  | Party.deletion d =>
      (s.deletion d).stage.Engaged ∧ (s.deletion d).slot = found
  | Party.exclusive e =>
      (s.critical e).stage.Engaged ∧ (s.critical e).slot = found

def NoneEngaged (s : Lane) : Prop :=
  (forall d, d < s.deleteCount -> ¬ (s.deletion d).stage.Engaged) ∧
    forall e, e < s.sectionCount -> ¬ (s.critical e).stage.Engaged

instance (s : Lane) : Decidable (NoneEngaged s) :=
  inferInstanceAs (Decidable (_ ∧ _))

variable {s : Lane}

theorem NoneEngaged.not_engages (hnumbered : Numbered s) (h : NoneEngaged s)
    (found : Option SlotId) (p : Party) :
    ¬ Engages s found p := by
  cases p with
  | drainer => exact id
  | deletion d =>
      rintro ⟨hengaged, -⟩
      rcases Nat.lt_or_ge d s.deleteCount with hlt | hge
      · exact h.1 d hlt hengaged
      · rw [hnumbered.deletion d hge] at hengaged
        revert hengaged
        decide
  | exclusive e =>
      rintro ⟨hengaged, -⟩
      rcases Nat.lt_or_ge e s.sectionCount with hlt | hge
      · exact h.2 e hlt hengaged
      · rw [hnumbered.critical e hge] at hengaged
        revert hengaged
        decide

/-- The section has the early requests of its slot behind it only if the
slot's writer task asked for the lock already. -/
def QueuesBehind (s : Lane) (e : Nat) (k : SlotId) : Prop :=
  (s.drainer k).stage = DrainStage.queued ∨
    forall c, c ∈ (s.pending k).requests ->
      (s.critical e).since ≤ (s.call c).order

instance (s : Lane) (e : Nat) (k : SlotId) : Decidable (QueuesBehind s e k) :=
  inferInstanceAs (Decidable (_ ∨ _))

/-- With no slot registered, none is created and none is looked up while a
delete or a section is engaged; a section does not start while a delete may
still requeue, and asks for its lock behind the writer task. -/
def SharesLock (s : Lane) : Action -> Prop
  | Action.queue _ => s.registered = none -> NoneEngaged s
  | Action.deletion _ DeleteAction.requeue =>
      s.registered = none -> NoneEngaged s
  | Action.deletion _ DeleteAction.lookup =>
      s.registered = none -> NoneEngaged s
  | Action.exclusive =>
      (s.registered = none -> NoneEngaged s) ∧ NoneMidway s
  | Action.critical e SectionAction.request =>
      forall k, k ∈ (s.critical e).slot -> QueuesBehind s e k
  | _ => True

instance (s : Lane) : (a : Action) -> Decidable (SharesLock s a)
  | Action.queue _
  | Action.deletion _ DeleteAction.requeue
  | Action.deletion _ DeleteAction.lookup => inferInstanceAs (Decidable (_ -> _))
  | Action.exclusive => inferInstanceAs (Decidable (_ ∧ _))
  | Action.critical e SectionAction.request =>
      inferInstanceAs
        (Decidable (forall k, k ∈ (s.critical e).slot -> QueuesBehind s e k))
  | Action.create | Action.register _ | Action.commit _ | Action.drop _
  | Action.enqueue _ _ _ _ | Action.waitQueued | Action.flushCollect
  | Action.flushForget _ | Action.drain _ _ | Action.delete _
  | Action.critical _ SectionAction.begin
  | Action.critical _ SectionAction.finish
  | Action.deletion _ DeleteAction.retire
  | Action.deletion _ DeleteAction.request
  | Action.deletion _ DeleteAction.begin
  | Action.deletion _ (DeleteAction.finish _)
  | Action.deletion _ DeleteAction.unregister
  | Action.deletion _ DeleteAction.take
  | Action.deletion _ DeleteAction.judge
  | Action.deletion _ DeleteAction.release => isTrue trivial

variable {a : Action}

theorem SharesLock.merges (h : SharesLock s a) (hmerges : a.Merges)
    (hnone : s.registered = none) :
    NoneEngaged s := by
  cases a with
  | queue _ => exact h hnone
  | deletion d x =>
      cases x with
      | requeue => exact h hnone
      | retire | lookup | request | begin | finish _ | unregister | take
      | judge | release => exact hmerges.elim
  | create | register _ | commit _ | drop _ | enqueue _ _ _ _ | waitQueued
  | flushCollect | flushForget _ | drain _ _ | delete _ | exclusive
  | critical _ _ => exact hmerges.elim

/-!
# One lock for all
-/

/-- Whoever is engaged found the same slot, which is registered unless none
is. -/
structure Shares (s : Lane) : Prop where
  same : forall p q found found', Engages s found p -> Engages s found' q ->
    found = found'
  alone : forall p q, Engages s none p -> Engages s none q -> p = q
  registered : forall p found, Engages s found p ->
    s.registered = none ∨ s.registered = found

theorem shares_empty : Shares Lane.empty := by
  have hnone : forall found p, ¬ Engages Lane.empty found p :=
    NoneEngaged.not_engages numbered_empty (by decide)
  constructor
  · exact fun p q found found' hp => absurd hp (hnone found p)
  · exact fun p q hp => absurd hp (hnone none p)
  · exact fun p found hp => absurd hp (hnone found p)

def LooksUp (s : Lane) : Action -> Party -> Prop
  | Action.deletion d DeleteAction.lookup, p => p = Party.deletion d
  | Action.exclusive, p => p = Party.exclusive s.sectionCount
  | _, _ => False

variable {p : Party}

theorem LooksUp.unique {q : Party} (hp : LooksUp s a p) (hq : LooksUp s a q) :
    p = q := by
  unfold LooksUp at hp hq
  split at hp
  · exact hp.trans hq.symm
  · exact hp.trans hq.symm
  · exact hp.elim

theorem SharesLock.looksUp (h : SharesLock s a) (hp : LooksUp s a p)
    (hnone : s.registered = none) :
    NoneEngaged s := by
  unfold LooksUp at hp
  split at hp
  · exact h hnone
  · exact h.1 hnone
  · exact hp.elim

variable {s' : Lane}

theorem step_engages (hs : s.step a = some s') {found : Option SlotId}
    (hp : Engages s' found p) :
    Engages s found p ∨
      (LooksUp s a p ∧ found = s.registered ∧ s'.registered = s.registered) := by
  cases p with
  | drainer => exact hp.elim
  | deletion d =>
      rcases hp with ⟨hengaged, hslot⟩
      rcases step_deletion hs d with hsame | ⟨x, rfl⟩ | ⟨-, live, -, hnew⟩
      · rw [hsame] at hengaged hslot
        exact Or.inl ⟨hengaged, hslot⟩
      · cases x with
        | lookup =>
            rcases guarded.mp hs with ⟨_, rfl⟩
            right
            refine ⟨rfl, ?_, rfl⟩
            simpa [Lane.setDeletion] using hslot.symm
        | request =>
            rcases guardedSlot.mp hs with ⟨k, hk, hstage, rfl⟩
            left
            refine ⟨Or.inl hstage, ?_⟩
            simpa [Lane.setDeletion, Lane.setLock] using hslot
        | begin =>
            rcases guarded.mp hs with ⟨⟨hstage, _⟩, rfl⟩
            left
            refine ⟨?_, by simpa [Lane.setDeletion] using hslot⟩
            rw [hstage]
            cases (s.deletion d).slot with
            | none => exact Or.inl rfl
            | some k => exact Or.inr (Or.inl rfl)
        | finish ok =>
            rcases guarded.mp hs with ⟨hstage, rfl⟩
            left
            refine ⟨Or.inr (Or.inr hstage), ?_⟩
            simpa [Lane.setDeletion, Lane.emit] using hslot
        | retire | unregister | requeue =>
            rcases guarded.mp hs with ⟨_, rfl⟩
            simp [Lane.setDeletion, DeleteStage.Engaged] at hengaged
        | take | release =>
            rcases guardedSlot.mp hs with ⟨k, hk, _, rfl⟩
            simp [Lane.setDeletion, Lane.setPending, Lane.setLock,
              DeleteStage.Engaged] at hengaged
        | judge =>
            rcases guarded.mp hs with ⟨_, rfl⟩
            split at hengaged <;>
              simp [Lane.setDeletion, Lane.emit, DeleteStage.Engaged] at hengaged
      · rw [hnew] at hengaged
        simp [DeleteStage.Engaged] at hengaged
  | exclusive e =>
      rcases hp with ⟨hengaged, hslot⟩
      rcases step_critical hs e with hsame | ⟨x, rfl, hsame, -⟩ | ⟨rfl, rfl, hnew⟩
      · rw [hsame] at hengaged hslot
        exact Or.inl ⟨hengaged, hslot⟩
      · left
        refine ⟨?_, hsame.symm.trans hslot⟩
        cases x with
        | request =>
            rcases Option.bind_eq_some_iff.mp hs with ⟨k, hk, hs⟩
            exact Or.inl (guarded.mp hs).1
        | begin =>
            rw [(guarded.mp hs).1.1]
            cases (s.critical e).slot with
            | none => exact Or.inl rfl
            | some k => exact Or.inr (Or.inl rfl)
        | finish => exact Or.inr (Or.inr (guarded.mp hs).1)
      · right
        rw [hnew] at hslot
        cases hs
        exact ⟨rfl, hslot.symm, rfl⟩

theorem step_shares (hnumbered : Numbered s) (h : Shares s) (ha : SharesLock s a)
    (hs : s.step a = some s') :
    Shares s' := by
  have hjoins : forall p q found, Engages s found p -> LooksUp s a q ->
      s.registered = found ∧ found ≠ none := by
    intro p q found hp hq
    have hsome : s.registered ≠ none := by
      intro hnone
      exact (ha.looksUp hq hnone).not_engages hnumbered found p hp
    rcases h.registered p found hp with hnone | hsame
    · exact absurd hnone hsome
    · exact ⟨hsame, hsame ▸ hsome⟩
  constructor
  · intro p q found found' hp hq
    rcases step_engages hs hp with hp | ⟨hp, hfound, -⟩
    · rcases step_engages hs hq with hq | ⟨hq, hfound', -⟩
      · exact h.same p q found found' hp hq
      · rw [hfound']
        exact (hjoins p q found hp hq).1.symm
    · rcases step_engages hs hq with hq | ⟨hq, hfound', -⟩
      · rw [hfound]
        exact (hjoins q p found' hq hp).1
      · exact hfound.trans hfound'.symm
  · intro p q hp hq
    rcases step_engages hs hp with hp | ⟨hp, -⟩
    · rcases step_engages hs hq with hq | ⟨hq, -⟩
      · exact h.alone p q hp hq
      · exact absurd rfl (hjoins p q none hp hq).2
    · rcases step_engages hs hq with hq | ⟨hq, -⟩
      · exact absurd rfl (hjoins q p none hq hp).2
      · exact hp.unique hq
  · intro p found hp
    rcases step_engages hs hp with hp | ⟨-, hfound, hsame⟩
    · rcases step_registered hs with hsame | hnone | ⟨hnone, hmerges⟩
      · rw [hsame]
        exact h.registered p found hp
      · exact Or.inl hnone
      · exact absurd hp
          ((ha.merges hmerges hnone).not_engages hnumbered found p)
    · exact Or.inr (hsame.trans hfound.symm)

theorem Shares.disjoint (hlocks : Locks s) (hreg : Registration s) (h : Shares s) :
    SectionsDisjoint s := by
  have hwrite : forall k p found, (s.drainer k).stage = DrainStage.writing ->
      Engages s found p ->
      (forall j, found = some j -> (s.writeLock j).head? = some p) -> False := by
    intro k p found hk hp howns
    have hregistered := hreg.writing (Or.inr hk)
    have hfound : found = some k := by
      rcases h.registered p found hp with hnone | hsame
      · rw [hregistered] at hnone
        cases hnone
      · exact hsame.symm.trans hregistered
    have hdrainer := hlocks.drainerOwns k (Or.inr (Or.inr (Or.inl hk)))
    rw [howns k hfound] at hdrainer
    have heq := Option.some.inj hdrainer
    subst heq
    exact hp
  have htwo : forall p q found found', Engages s found p -> Engages s found' q ->
      (forall j, found = some j -> (s.writeLock j).head? = some p) ->
      (forall j, found' = some j -> (s.writeLock j).head? = some q) -> p = q := by
    intro p q found found' hp hq hpowns hqowns
    have hsame := h.same p q found found' hp hq
    subst hsame
    cases found with
    | none => exact h.alone p q hp hq
    | some j =>
        exact Option.some.inj ((hpowns j rfl).symm.trans (hqowns j rfl))
  have herase : forall d, (s.deletion d).stage = DeleteStage.deleting ->
      Engages s (s.deletion d).slot (Party.deletion d) ∧
      forall j, (s.deletion d).slot = some j ->
        (s.writeLock j).head? = some (Party.deletion d) :=
    fun d hd => ⟨⟨Or.inr (Or.inr hd), rfl⟩,
      fun j hj => hlocks.deletionOwns d j (Or.inl hd) hj⟩
  have hcritical : forall e, (s.critical e).stage = SectionStage.running ->
      Engages s (s.critical e).slot (Party.exclusive e) ∧
      forall j, (s.critical e).slot = some j ->
        (s.writeLock j).head? = some (Party.exclusive e) :=
    fun e he => ⟨⟨Or.inr (Or.inr he), rfl⟩,
      fun j hj => hlocks.criticalOwns e j he hj⟩
  intro i j hi hj
  cases i with
  | write k =>
      cases j with
      | write l =>
          exact congrArg Interval.write (hreg.writesDisjoint k l hi hj)
      | erase d =>
          exact (hwrite k _ _ hi (herase d hj).1 (herase d hj).2).elim
      | critical e =>
          exact (hwrite k _ _ hi (hcritical e hj).1 (hcritical e hj).2).elim
  | erase d =>
      cases j with
      | write k =>
          exact (hwrite k _ _ hj (herase d hi).1 (herase d hi).2).elim
      | erase d' =>
          have heq := htwo _ _ _ _ (herase d hi).1 (herase d' hj).1
            (herase d hi).2 (herase d' hj).2
          exact congrArg Interval.erase (Party.deletion.inj heq)
      | critical e =>
          have heq := htwo _ _ _ _ (herase d hi).1 (hcritical e hj).1
            (herase d hi).2 (hcritical e hj).2
          cases heq
  | critical e =>
      cases j with
      | write k =>
          exact (hwrite k _ _ hj (hcritical e hi).1 (hcritical e hi).2).elim
      | erase d =>
          have heq := htwo _ _ _ _ (hcritical e hi).1 (herase d hj).1
            (hcritical e hi).2 (herase d hj).2
          cases heq
      | critical e' =>
          have heq := htwo _ _ _ _ (hcritical e hi).1 (hcritical e' hj).1
            (hcritical e hi).2 (hcritical e' hj).2
          exact congrArg Interval.critical (Party.exclusive.inj heq)

/-!
# Order of the requests
-/

def Ahead (lock : List Party) (e : Nat) : Prop :=
  exists before after, lock = before ++ after ∧ Party.drainer ∈ before ∧
    Party.exclusive e ∉ before

variable {lock : List Party} {e : Nat}

theorem Ahead.append (h : Ahead lock e) (p : Party) :
    Ahead (lock ++ [p]) e := by
  rcases h with ⟨before, after, rfl, hdrainer, hcritical⟩
  exact ⟨before, after ++ [p], List.append_assoc .., hdrainer, hcritical⟩

theorem Ahead.tail (h : Ahead lock e) (hhead : lock.head? = some p)
    (hp : p ≠ Party.drainer) :
    Ahead lock.tail e := by
  rcases h with ⟨before, after, rfl, hdrainer, hcritical⟩
  cases before with
  | nil => cases hdrainer
  | cons q rest =>
      have hq : q = p := by simpa using hhead
      subst hq
      refine ⟨rest, after, rfl, ?_, ?_⟩
      · rcases List.mem_cons.mp hdrainer with heq | hrest
        · exact absurd heq.symm hp
        · exact hrest
      · exact fun hmem => hcritical (List.mem_cons_of_mem _ hmem)

theorem Ahead.not_head (h : Ahead lock e) :
    lock.head? ≠ some (Party.exclusive e) := by
  rcases h with ⟨before, after, rfl, hdrainer, hcritical⟩
  cases before with
  | nil => cases hdrainer
  | cons q rest =>
      intro hhead
      have hq : q = Party.exclusive e := by simpa using hhead
      exact hcritical (hq ▸ List.mem_cons_self ..)

structure Line (s : Lane) : Prop where
  drainer : forall k, (s.drainer k).stage = DrainStage.queued ->
    Party.drainer ∈ s.writeLock k
  critical : forall e k, Party.exclusive e ∈ s.writeLock k ->
    (s.critical e).stage ≠ SectionStage.unused ∧
      (s.critical e).stage ≠ SectionStage.seen
  since : forall e, (s.critical e).since ≤ s.queuedCount

theorem line_empty : Line Lane.empty := by
  constructor
  · intro k hk
    cases hk
  · intro e k he
    cases he
  · exact fun e => Nat.le_refl _

theorem criticalStep_stage {x : SectionAction} (hs : s.criticalStep e x = some s') :
    (s'.critical e).stage ≠ SectionStage.unused ∧
      (s'.critical e).stage ≠ SectionStage.seen := by
  cases x with
  | request =>
      rcases guardedSlot.mp hs with ⟨k, hslot, _, rfl⟩
      simp [Lane.setCritical, Lane.setLock]
  | begin =>
      rcases guarded.mp hs with ⟨_, rfl⟩
      simp [Lane.setCritical]
  | finish =>
      rcases guarded.mp hs with ⟨_, rfl⟩
      cases hslot : (s.critical e).slot <;>
        simp [Lane.setCritical, Lane.unlock, Lane.setLock]

theorem mem_tail {q : Party} (hp : p ∈ lock) (hhead : lock.head? = some q)
    (hne : p ≠ q) :
    p ∈ lock.tail := by
  cases lock with
  | nil => cases hp
  | cons r rest =>
      have hr : r = q := by simpa using hhead
      rcases List.mem_cons.mp hp with heq | hrest
      · exact absurd (heq.trans hr) hne
      · exact hrest

theorem step_line (hlocks : Locks s) (hnumbered : Numbered s)
    (hsources : SourcesIn (fun _ => True) s) (h : Line s) (hs : s.step a = some s') :
    Line s' := by
  constructor
  · intro k hk
    have hlock := step_lock hlocks hs k
    have hkept : (s.drainer k).stage = DrainStage.queued ->
        Party.drainer ∈ s'.writeLock k := by
      intro hqueued
      have hmem := h.drainer k hqueued
      revert hlock
      generalize s'.writeLock k = lock
      intro hlock
      cases hlock with
      | kept => exact hmem
      | drainer hstage | written hstage =>
          rw [hqueued] at hstage
          cases hstage
      | deletion | critical _ _ => exact List.mem_append_left _ hmem
      | deleted hhead | finished hhead => exact mem_tail hmem hhead (by simp)
      | created _ _ hnew =>
          rw [hsources.unspawned k (Nat.le_of_eq hnew.symm)] at hqueued
          cases hqueued
    rcases step_drainer hs k with hsame | ⟨x, rfl⟩ | ⟨-, hspawned⟩
    · rw [hsame] at hk
      exact hkept hk
    · cases x with
      | request =>
          rcases guarded.mp hs with ⟨_, rfl⟩
          simp [Lane.setLock]
      | take =>
          rcases guarded.mp hs with ⟨⟨hqueued, _⟩, _⟩
          exact hkept hqueued
      | resolve =>
          rcases guarded.mp hs with ⟨_, rfl⟩
          rcases resolveBatch_cases s k with hstage | ⟨hstage, -⟩ <;>
            simp [Lane.setDrainer, hstage] at hk
      | begin | finish _ | release =>
          rcases guarded.mp hs with ⟨_, rfl⟩
          simp [Lane.setDrainer, Lane.setLock, Lane.finishWrite, Lane.emit] at hk
      | unregister | recheck =>
          rcases guarded.mp hs with ⟨_, rfl⟩
          split at hk <;> simp [Lane.setDrainer] at hk
    · rw [hspawned] at hk
      cases hk
  · intro e k he
    have hlock := step_lock hlocks hs k
    have hbefore : Party.exclusive e ∈ s.writeLock k ∨
        a = Action.critical e SectionAction.request := by
      revert hlock he
      generalize s'.writeLock k = lock
      intro he hlock
      cases hlock with
      | kept => exact Or.inl he
      | drainer _ | deletion =>
          left
          simpa using he
      | critical _ _ =>
          rcases List.mem_append.mp he with hold | hnew
          · exact Or.inl hold
          · right
            have heq : e = _ := Party.exclusive.inj (List.mem_singleton.mp hnew)
            rw [heq]
      | written _ | deleted _ | finished _ =>
          exact Or.inl (List.mem_of_mem_tail he)
      | created _ _ _ => cases he
    rcases hbefore with hold | rfl
    · have hstage := h.critical e k hold
      rcases step_critical hs e with hsame | ⟨x, rfl, -⟩ | ⟨rfl, -⟩
      · rwa [hsame]
      · exact criticalStep_stage hs
      · exact absurd (hnumbered.critical _ (Nat.le_refl _)) hstage.1
    · exact criticalStep_stage (x := SectionAction.request) hs
  · intro e
    have hcount := (step_counters hs).queued
    have hle : s.queuedCount ≤ s'.queuedCount :=
      hcount ▸ Nat.le_add_right _ _
    rcases step_critical hs e with hsame | ⟨x, -, -, hsame⟩ | ⟨-, -, hnew⟩
    · rw [hsame]
      exact Nat.le_trans (h.since e) hle
    · rw [hsame]
      exact Nat.le_trans (h.since e) hle
    · rw [hnew]
      exact hle

/-- The requests queued before an engaged section are in its slot, where the
writer task is ahead of it, or already under the slot's lock. -/
structure Drains (s : Lane) : Prop where
  pending : forall e k c, (s.critical e).stage.Engaged -> Early s e c ->
    c ∈ (s.pending k).requests ->
    (s.critical e).slot = some k ∧
      ((s.critical e).stage ≠ SectionStage.seen ->
        (s.drainer k).stage = DrainStage.queued ∧ Ahead (s.writeLock k) e)
  batch : forall e k c, (s.critical e).stage.Engaged -> Early s e c ->
    (s.drainer k).stage.Carries -> c ∈ (s.drainer k).batch.requests ->
    (s.critical e).slot = some k
  leftover : forall e d c, (s.critical e).stage.Engaged -> Early s e c ->
    c ∈ (s.deletion d).leftover.requests ->
    exists k, (s.deletion d).slot = some k ∧ (s.critical e).slot = some k

theorem drains_empty : Drains Lane.empty := by
  constructor
  · intro e k c _ _ hc
    cases hc
  · intro e k c _ _ hk
    rcases hk with hk | hk | hk <;> cases hk
  · intro e d c _ _ hc
    cases hc

theorem DrainStage.Carries.owns {x : DrainStage} (h : x.Carries) : x.Owns :=
  h.imp_right (fun hx => hx.imp_right Or.inl)

theorem start_drains (hbasic : Basic s) (hsources : SourcesIn (fun _ => True) s)
    (hmidway : NoneMidway s) (hs : s.step Action.exclusive = some s') {c : Nat} :
    (forall k, c ∈ (s'.pending k).requests -> s.registered = some k) ∧
    (forall k, (s'.drainer k).stage.Carries ->
      c ∈ (s'.drainer k).batch.requests -> s.registered = some k) ∧
    forall d, c ∉ (s'.deletion d).leftover.requests := by
  cases hs
  have hempty : forall p : Pending, p.Sound s.call -> c ∈ p.requests ->
      ¬ p.IsEmpty := by
    intro p hsound hp hempty
    rw [hsound.requests_eq_nil hempty] at hp
    cases hp
  have hdelete := hmidway.stage hbasic.numbered
  refine ⟨?_, ?_, ?_⟩
  · intro k hc
    have hkept := hempty _ (hbasic.queues.pending k) hc
    rcases hbasic.registration.stranded k hkept with hreg | ⟨d, hstage, -⟩
    · exact hreg
    · exact absurd (Or.inl hstage) (hdelete d)
  · intro k hk hc
    have hkept := hempty _ (hbasic.queues.batch k) hc
    have howns : (s.drainer k).stage.Owns := hk.owns
    cases hregistered : (s.drainer k).registered with
    | true => exact hbasic.registration.active k howns hregistered
    | false =>
        exact absurd (hbasic.registration.retired k howns hregistered) hkept
  · intro d hc
    have hkept := hempty _ (hbasic.queues.leftover d) hc
    have hleftover := hsources.emptied d
      (fun hstage => hdelete d (Or.inr (Or.inl hstage)))
      (fun hstage => hdelete d (Or.inr (Or.inr hstage)))
    have hleftover : (s.deletion d).leftover = Pending.empty := hleftover
    apply hkept
    rw [hleftover]
    exact ⟨rfl, rfl, rfl, rfl⟩

/-- What `SharesLock` and the earlier invariants say of a step. -/
structure Exclusion (s : Lane) : Prop where
  basic : Basic s
  sources : SourcesIn (fun _ => True) s
  line : Line s
  shares : Shares s

section

variable {s s' : Lane} {a : Action} {e : Nat}

theorem engaged_before (hs : s.step a = some s') (ha : a ≠ Action.exclusive)
    (he : (s'.critical e).stage.Engaged) :
    (s.critical e).stage.Engaged ∧
      (s'.critical e).slot = (s.critical e).slot ∧
      (s'.critical e).since = (s.critical e).since := by
  have hengaged : Engages s' (s'.critical e).slot (Party.exclusive e) := ⟨he, rfl⟩
  have hold : (s.critical e).stage.Engaged := by
    rcases step_engages hs hengaged with hold | ⟨hlooks, -⟩
    · exact hold.1
    · unfold LooksUp at hlooks
      split at hlooks
      · cases hlooks
      · exact absurd rfl ha
      · exact hlooks.elim
  rcases step_critical hs e with hsame | ⟨x, -, hslot, hsince⟩ | ⟨-, hexclusive, -⟩
  · rw [hsame]
    exact ⟨hold, rfl, rfl⟩
  · exact ⟨hold, hslot, hsince⟩
  · exact absurd hexclusive ha

variable {c : Nat}

theorem early_before (hnumbered : Numbered s) (hs : s.step a = some s')
    (hsince : (s'.critical e).since = (s.critical e).since)
    (hqueued : (s.call c).stage = CallStage.queued) (hc : Early s' e c) :
    Early s e c := by
  rcases hc with ⟨-, hlt⟩
  rw [hsince, step_call_queued hnumbered hs hqueued] at hlt
  exact ⟨hqueued, hlt⟩

variable {k : SlotId}

theorem request_ahead (hline : Line s)
    (ha : SharesLock s (Action.critical e SectionAction.request))
    (hs : s.step (Action.critical e SectionAction.request) = some s')
    (hslot : (s.critical e).slot = some k) (hc : Early s e c)
    (hpending : c ∈ (s.pending k).requests) :
    (s'.drainer k).stage = DrainStage.queued ∧ Ahead (s'.writeLock k) e := by
  have hqueued : (s.drainer k).stage = DrainStage.queued := by
    rcases ha k hslot with hqueued | hlate
    · exact hqueued
    · exact absurd hc.2 (Nat.not_lt_of_le (hlate c hpending))
  rcases guardedSlot.mp hs with ⟨j, hj, hseen, rfl⟩
  have hjk : j = k := Option.some.inj (hj.symm.trans hslot)
  subst hjk
  refine ⟨hqueued, s.writeLock j, [Party.exclusive e], ?_, ?_, ?_⟩
  · simp [Lane.setLock]
  · exact hline.drainer j hqueued
  · exact fun hmem => (hline.critical e j hmem).2 hseen

theorem stays_ahead (hlocks : Locks s) (hsources : SourcesIn (fun _ => True) s)
    (hs : s.step a = some s') (ha : a ≠ Action.drain k DrainAction.take)
    (hqueued : (s.drainer k).stage = DrainStage.queued)
    (hahead : Ahead (s.writeLock k) e) :
    (s'.drainer k).stage = DrainStage.queued ∧ Ahead (s'.writeLock k) e := by
  have hnew : k ≠ s.slotCount := by
    intro hk
    rw [hsources.unspawned k (Nat.le_of_eq hk.symm)] at hqueued
    cases hqueued
  constructor
  · rcases step_drainer hs k with hsame | ⟨x, rfl⟩ | ⟨hk, -⟩
    · rwa [hsame]
    · cases x with
      | take => exact absurd rfl ha
      | request | resolve | begin | finish _ | release | unregister
      | recheck =>
          rcases guarded.mp hs with ⟨hstage, _⟩
          rw [hqueued] at hstage
          cases hstage
    · exact absurd hk hnew
  · have hlock := step_lock hlocks hs k
    revert hlock
    generalize s'.writeLock k = lock
    intro hlock
    cases hlock with
    | kept => exact hahead
    | drainer hstage | written hstage =>
        rw [hqueued] at hstage
        cases hstage
    | deletion | critical _ _ => exact hahead.append _
    | deleted hhead | finished hhead => exact hahead.tail hhead (by simp)
    | created _ _ hk => exact absurd hk hnew

theorem step_pending_drains (hex : Exclusion s) (h : Drains s) (ha : SharesLock s a)
    (hs : s.step a = some s') (hexclusive : a ≠ Action.exclusive)
    (he : (s'.critical e).stage.Engaged) (hc : Early s' e c)
    (hpending : c ∈ (s'.pending k).requests) :
    (s'.critical e).slot = some k ∧
      ((s'.critical e).stage ≠ SectionStage.seen ->
        (s'.drainer k).stage = DrainStage.queued ∧
          Ahead (s'.writeLock k) e) := by
  rcases engaged_before hs hexclusive he with ⟨hold, hslot, hsince⟩
  have hbasic := hex.basic
  rcases step_pending hs hpending with ⟨hbefore, htake⟩ | hnew | ⟨d, rfl, hstage, hd⟩
  · have hearly := early_before hbasic.numbered hs hsince
      ((hbasic.queues.pending k).queued c hbefore) hc
    rcases h.pending e k c hold hearly hbefore with ⟨hk, hahead⟩
    refine ⟨hslot.trans hk, fun hstage => ?_⟩
    by_cases hseen : (s.critical e).stage = SectionStage.seen
    · rcases step_critical hs e with hsame | ⟨x, rfl, -⟩ | ⟨-, heq, -⟩
      · rw [hsame] at hstage
        exact absurd hseen hstage
      · cases x with
        | request => exact request_ahead hex.line ha hs hk hearly hbefore
        | begin =>
            rcases guarded.mp hs with ⟨⟨hentry, _⟩, _⟩
            rw [hk, hseen] at hentry
            cases hentry
        | finish =>
            rcases guarded.mp hs with ⟨hrunning, _⟩
            rw [hseen] at hrunning
            cases hrunning
      · exact absurd heq hexclusive
    · rcases hahead hseen with ⟨hqueued, hfirst⟩
      exact stays_ahead hbasic.locks hex.sources hs htake hqueued hfirst
  · have hlt := hc.2
    rw [hnew, hsince] at hlt
    exact absurd hlt (Nat.not_lt_of_le (hex.line.since e))
  · have hearly := early_before hbasic.numbered hs hsince
      ((hbasic.queues.leftover d).queued c hd) hc
    rcases h.leftover e d c hold hearly hd with ⟨j, hdj, hej⟩
    have hengages : Engages s (some j) (Party.exclusive e) := ⟨hold, hej⟩
    rcases hex.shares.registered _ _ hengages with hnone | hreg
    · exact absurd hengages ((ha hnone).not_engages hbasic.numbered _ _)
    · exact absurd hreg (hbasic.registration.cleared d j
        (Or.inr (Or.inr (Or.inl hstage))) hdj)

theorem start_section (hex : Exclusion s) (h : Drains s)
    (hmidway : NoneMidway s) (hs : s.step Action.exclusive = some s') :
    Drains s' := by
  have hstart := fun c => start_drains (c := c) hex.basic hex.sources hmidway hs
  cases hs
  have hcritical : forall n,
      s.exclusive.critical n = s.critical n ∨
        ((s.exclusive.critical n).slot = s.registered ∧
          (s.exclusive.critical n).stage = SectionStage.seen) := by
    intro n
    by_cases hn : n = s.sectionCount
    · right
      simp [Lane.exclusive, hn]
    · left
      simp [Lane.exclusive, hn]
  have hearly : forall n c, s.exclusive.critical n = s.critical n ->
      Early s.exclusive n c -> Early s n c := by
    intro n c hsame hc
    unfold Early at hc
    rw [hsame] at hc
    exact hc
  constructor
  · intro n k c hn hc hpending
    rcases hcritical n with hsame | ⟨hslot, hseen⟩
    · rw [hsame] at hn ⊢
      exact h.pending n k c hn (hearly n c hsame hc) hpending
    · exact ⟨hslot.trans ((hstart c).1 k hpending),
        fun hstage => absurd hseen hstage⟩
  · intro n k c hn hc hk hbatch
    rcases hcritical n with hsame | ⟨hslot, -⟩
    · rw [hsame] at hn ⊢
      exact h.batch n k c hn (hearly n c hsame hc) hk hbatch
    · exact hslot.trans ((hstart c).2.1 k hk hbatch)
  · intro n d c hn hc hleftover
    rcases hcritical n with hsame | -
    · rw [hsame] at hn ⊢
      exact h.leftover n d c hn (hearly n c hsame hc) hleftover
    · exact absurd hleftover ((hstart c).2.2 d)

theorem step_drains (hex : Exclusion s) (h : Drains s)
    (ha : SharesLock s a) (hs : s.step a = some s') :
    Drains s' := by
  have hbasic := hex.basic
  by_cases hexclusive : a = Action.exclusive
  · subst hexclusive
    exact start_section hex h ha.2 hs
  constructor
  · intro n k c hn hc hpending
    exact step_pending_drains hex h ha hs hexclusive hn hc hpending
  · intro n k c hn hc hk hbatch
    rcases engaged_before hs hexclusive hn with ⟨hold, hslot, hsince⟩
    rw [hslot]
    rcases step_carried hs hk hbatch with ⟨hcarries, hbefore⟩ | hbefore
    · have hearly := early_before hbasic.numbered hs hsince
        ((hbasic.queues.batch k).queued c hbefore) hc
      exact h.batch n k c hold hearly hcarries hbefore
    · have hearly := early_before hbasic.numbered hs hsince
        ((hbasic.queues.pending k).queued c hbefore) hc
      exact (h.pending n k c hold hearly hbefore).1
  · intro n d c hn hc hleftover
    rcases engaged_before hs hexclusive hn with ⟨hold, hslot, hsince⟩
    rw [hslot]
    rcases step_leftover hs hleftover with hbefore | ⟨rfl, k, hk, hbefore⟩
    · have hearly := early_before hbasic.numbered hs hsince
        ((hbasic.queues.leftover d).queued c hbefore) hc
      have hstage : (s.deletion d).stage ≠ DeleteStage.unused ∧
          (s.deletion d).stage ≠ DeleteStage.retired := by
        constructor <;>
        · intro hstage
          rw [hex.sources.emptied d (by simp [hstage]) (by simp [hstage])] at hbefore
          cases hbefore
      rw [step_slot hbasic.numbered hs hstage]
      exact h.leftover n d c hold hearly hbefore
    · have hearly := early_before hbasic.numbered hs hsince
        ((hbasic.queues.pending k).queued c hbefore) hc
      have hstage : (s.deletion d).stage = DeleteStage.cleared := by
        rcases Option.bind_eq_some_iff.mp hs with ⟨j, hj, hs⟩
        exact (guarded.mp hs).1
      rw [step_slot hbasic.numbered hs (by simp [hstage])]
      exact ⟨k, hk, (h.pending n k c hold hearly hbefore).1⟩

end

theorem Drains.late (hex : Exclusion s) (h : Drains s) :
    SectionsLate s := by
  intro e c hrunning hc
  have hengaged : (s.critical e).stage.Engaged := Or.inr (Or.inr hrunning)
  have howner : forall k, (s.critical e).slot = some k ->
      (s.writeLock k).head? = some (Party.exclusive e) :=
    fun k hk => hex.basic.locks.criticalOwns e k hrunning hk
  have hcarried : forall k, (s.drainer k).stage.Carries ->
      c ∉ (s.drainer k).batch.requests := by
    intro k hk hbatch
    have hdrainer := hex.basic.locks.drainerOwns k hk.owns
    rw [howner k (h.batch e k c hengaged hc hk hbatch)] at hdrainer
    cases hdrainer
  constructor
  · rintro (⟨k, hk⟩ | ⟨k, hstage, hk⟩ | ⟨d, hd⟩)
    · rcases h.pending e k c hengaged hc hk with ⟨hslot, hahead⟩
      exact (hahead (by simp [hrunning])).2.not_head (howner k hslot)
    · exact hcarried k (Or.inl hstage) hk
    · rcases h.leftover e d c hengaged hc hd with ⟨k, hslot, hfound⟩
      have howns : (s.deletion d).stage.Owns := by
        by_contra hnot
        rw [hex.sources.emptied d
          (fun hstage => hnot (by simp [DeleteStage.Owns, hstage]))
          (fun hstage => hnot (by simp [DeleteStage.Owns, hstage]))] at hd
        cases hd
      have hdelete := hex.basic.locks.deletionOwns d k howns hslot
      rw [howner k hfound] at hdelete
      cases hdelete
  · rintro ⟨k, hk, hbatch⟩
    exact hcarried k (Or.inr hk) hbatch

/-!
# Runs that share one lock
-/

theorem exclusion (h : lane.Reachable SharesLock s) :
    Exclusion s where
  basic := basic h
  sources := sources h
  line := h.invariant_of (P := Line)
    (fun _ h => And.intro (locks h) (And.intro (numbered h) (sources h)))
    line_empty
    (fun _ _ _ hknown hline _ hs =>
      step_line hknown.1 hknown.2.1 hknown.2.2 hline hs)
  shares := h.invariant_of (P := Shares) (fun _ h => numbered h) shares_empty
    (fun _ _ _ hnumbered hshares ha hs => step_shares hnumbered hshares ha hs)

theorem drains (h : lane.Reachable SharesLock s) :
    Drains s :=
  h.invariant_of (P := Drains) (fun _ h => exclusion h) drains_empty
    (fun _ _ _ hex hdrains ha hs => step_drains hex hdrains ha hs)

/-- In every run that shares one lock, writes, deletes and exclusive sections
of a session do not overlap, and a section runs after the writes of the
requests queued before it. -/
theorem exclusivity {p : Uuid -> Lane}
    (h : persister.Reachable (System.EachAllowed SharesLock) p) (id : Uuid) :
    SectionsDisjoint (p id) ∧ SectionsLate (p id) := by
  have hrun := h.component id
  have hex := exclusion hrun
  exact ⟨hex.shares.disjoint hex.basic.locks hex.basic.registration,
    (drains hrun).late hex⟩

def queuedSectionRun : List Action :=
  [Action.create, Action.register 0,
    Action.enqueue 0 [ContextUpdate.plain 1 0 "first"] [] true, Action.queue 0,
    Action.drain 0 DrainAction.request, Action.exclusive,
    Action.critical 0 SectionAction.request, Action.drain 0 DrainAction.take,
    Action.drain 0 DrainAction.resolve, Action.drain 0 DrainAction.begin,
    Action.drain 0 (DrainAction.finish true),
    Action.drain 0 DrainAction.release,
    Action.critical 0 SectionAction.begin]

theorem exclusivity_queued :
    exists p,
      persister.replay (System.EachAllowed SharesLock) persister.init
          (queuedSectionRun.map (Prod.mk 7)) = some p ∧
        ((p 7).critical 0).stage = SectionStage.running ∧ Early (p 7) 0 0 ∧
        SectionsDisjoint (p 7) ∧ SectionsLate (p 7) := by
  obtain ⟨p, hp, hreach, hrunning, hearly⟩ :=
    persister.replay_reaches (System.EachAllowed SharesLock)
      (queuedSectionRun.map (Prod.mk 7)) (fun p =>
        ((p 7).critical 0).stage = SectionStage.running ∧
        ((p 7).call 0).stage = CallStage.queued ∧
        ((p 7).call 0).order < ((p 7).critical 0).since) (by decide +kernel)
  have hdisjoint := exclusivity hreach 7
  exact ⟨p, hp, hrunning, hearly, hdisjoint.1, hdisjoint.2⟩

def unlockedSectionRun : List Action :=
  [Action.create, Action.register 0, Action.exclusive,
    Action.critical 0 SectionAction.begin,
    Action.enqueue 0 [ContextUpdate.plain 1 0 "first"] [] true, Action.queue 0,
    Action.drain 0 DrainAction.request, Action.drain 0 DrainAction.take,
    Action.drain 0 DrainAction.resolve, Action.drain 0 DrainAction.begin]

theorem section_overlaps_write :
    ¬ forall p, persister.Reachable System.Anything p ->
      forall id, SectionsDisjoint (p id) ∧ SectionsLate (p id) := by
  intro h
  obtain ⟨p, -, hreach, hwriting, hrunning⟩ :=
    persister.replay_reaches System.Anything (unlockedSectionRun.map (Prod.mk 7))
      (fun p => ((p 7).drainer 0).stage = DrainStage.writing ∧
        ((p 7).critical 0).stage = SectionStage.running) (by decide +kernel)
  have hdisjoint := (h p hreach 7).1
  have hsame := hdisjoint (Interval.write 0) (Interval.critical 0) hwriting
    hrunning
  cases hsame

end Persister
end PostCortex
