import PostCortex.Persister.Handles
import PostCortex.Persister.History

/-!
# Sources of the queued work

Every caller of the persister registers a handle before anyone can use it.  In
such runs each source still to be written is registered and alive.
-/

namespace PostCortex
namespace Persister

open PostCortex.Core
open Transition

def UsesRegistered (s : Lane) : Action -> Prop
  | Action.enqueue h _ _ _ => s.incarnation h ≠ none
  | Action.delete (some h) => s.incarnation h ≠ none
  | _ => True

instance (s : Lane) (a : Action) : Decidable (UsesRegistered s a) := by
  unfold UsesRegistered
  split <;> infer_instance

/-- Every handle that a queue, a writer task, a call or a delete may still
use satisfies `K`. -/
structure SourcesIn (K : Handle -> Prop) (s : Lane) : Prop where
  pending : forall k h, (s.pending k).source = some h -> K h
  batch : forall k h, (s.drainer k).stage = DrainStage.taken ->
    (s.drainer k).batch.source = some h -> K h
  chosen : forall k,
    (s.drainer k).stage = DrainStage.ready ∨
      (s.drainer k).stage = DrainStage.writing ->
    K (s.drainer k).handle
  resolved : forall c, (s.call c).stage = CallStage.resolved ->
    K (s.call c).source
  named : forall c h, (s.call c).stage = CallStage.resolved ->
    (s.call c).handle = some h -> K h
  leftover : forall d h, (s.deletion d).leftover.source = some h -> K h
  emptied : forall d, (s.deletion d).stage ≠ DeleteStage.holding ->
    (s.deletion d).stage ≠ DeleteStage.requeueing ->
    (s.deletion d).leftover = Pending.empty
  kept : forall d, (s.deletion d).stage = DeleteStage.requeueing ->
    (s.deletion d).leftover.source ≠ none
  unspawned : forall k, s.slotCount ≤ k ->
    (s.drainer k).stage = DrainStage.exited

theorem sourcesIn_empty (K : Handle -> Prop) : SourcesIn K Lane.empty := by
  constructor <;>
    simp [Lane.empty, Drainer.none, Deletion.none, Call.none, Pending.empty]

theorem merge_source {p work : Pending} {h : Handle}
    (hsource : (p.merge work).source = some h) :
    work.source = some h ∨ p.source = some h := by
  cases hw : work.source <;> simp_all [Pending.merge]

section

variable {K : Handle -> Prop} {s s' : Lane}

theorem SourcesIn.update (h : SourcesIn K s)
    (hpending : s'.pending = s.pending) (hdrainer : s'.drainer = s.drainer)
    (hdeletion : s'.deletion = s.deletion) (hcall : s'.call = s.call)
    (hcount : s'.slotCount = s.slotCount) :
    SourcesIn K s' := by
  rcases h with ⟨h1, h2, h3, h4, h5, h6, h7, h8, h9⟩
  constructor <;>
    simp only [hpending, hdrainer, hdeletion, hcall, hcount] <;> assumption

theorem queueWork_sources (h : SourcesIn K s) {work : Pending}
    (hwork : forall x, work.source = some x -> K x) :
    SourcesIn K (s.queueWork work) := by
  rcases h with ⟨h1, h2, h3, h4, h5, h6, h7, h8, h9⟩
  have hempty : Pending.empty.source = none := rfl
  have hspawned : Drainer.spawned.stage = DrainStage.start := rfl
  unfold Lane.queueWork
  split <;> constructor <;> grind [→ merge_source]

theorem resolveBatch_cases (s : Lane) (k : SlotId) :
    ((s.resolveBatch k).stage = DrainStage.finished) ∨
    ((s.resolveBatch k).stage = DrainStage.ready ∧
      exists x, (s.drainer k).batch.source = some x ∧
        (s.standing x = Standing.current ∧ (s.resolveBatch k).handle = x ∨
          s.standing x =
            Standing.superseded (some (s.resolveBatch k).handle))) := by
  unfold Lane.resolveBatch
  grind

theorem drain_sources {k : SlotId} {a : DrainAction}
    (hnewest : forall x y, K x ->
      s.standing x = Standing.superseded (some y) -> K y)
    (h : SourcesIn K s) (hs : s.drain k a = some s') :
    SourcesIn K s' := by
  rcases h with ⟨h1, h2, h3, h4, h5, h6, h7, h8, h9⟩
  cases a with
  | request | begin | finish _ | release =>
      rcases guarded.mp hs with ⟨hstage, rfl⟩
      constructor <;>
        simp only [Lane.setDrainer, Lane.setLock, Lane.finishWrite, Lane.emit] <;>
        grind
  | take =>
      rcases guarded.mp hs with ⟨⟨hstage, hhead⟩, rfl⟩
      have hempty : Pending.empty.source = none := rfl
      constructor <;> simp only [Lane.setDrainer, Lane.setPending] <;> grind
  | resolve =>
      rcases guarded.mp hs with ⟨hstage, rfl⟩
      have hcases := resolveBatch_cases s k
      constructor <;> simp only [Lane.setDrainer] <;> grind
  | unregister | recheck =>
      rcases guarded.mp hs with ⟨hstage, rfl⟩
      split <;> constructor <;> simp only [Lane.setDrainer] <;> grind

theorem deletion_sources {d : Nat} {a : DeleteAction}
    (h : SourcesIn K s) (hs : s.deletionStep d a = some s') :
    SourcesIn K s' := by
  have hempty : Pending.empty.source = none := rfl
  have hleftover := h.leftover d
  have hsources := h
  rcases h with ⟨h1, h2, h3, h4, h5, h6, h7, h8, h9⟩
  cases a with
  | retire | lookup | finish _ | unregister =>
      rcases guarded.mp hs with ⟨hstage, rfl⟩
      have hafter : forall slot,
          DeleteStage.afterErase slot ≠ DeleteStage.requeueing := by
        intro slot
        cases slot <;> simp [DeleteStage.afterErase]
      constructor <;> simp only [Lane.setDeletion, Lane.emit] <;> grind
  | request | release =>
      rcases guardedSlot.mp hs with ⟨k, hslot, hstage, rfl⟩
      constructor <;> simp only [Lane.setDeletion, Lane.setLock] <;> grind
  | begin =>
      rcases guarded.mp hs with ⟨⟨hstage, hgranted⟩, rfl⟩
      have hentry : forall slot, DeleteStage.entry slot ≠ DeleteStage.holding ∧
          DeleteStage.entry slot ≠ DeleteStage.requeueing := by
        intro slot
        cases slot <;> simp [DeleteStage.entry]
      constructor <;> simp only [Lane.setDeletion] <;> grind
  | take =>
      rcases guardedSlot.mp hs with ⟨k, hslot, hstage, rfl⟩
      constructor <;> simp only [Lane.setDeletion, Lane.setPending] <;> grind
  | judge =>
      rcases guarded.mp hs with ⟨hstage, rfl⟩
      split
      · next hkeep =>
          have hsource : (s.deletion d).leftover.source ≠ none := by
            intro hnone
            simp [Lane.Keeps, hnone] at hkeep
          constructor <;> simp only [Lane.setDeletion] <;> grind
      · constructor <;> simp only [Lane.setDeletion, Lane.emit] <;> grind
  | requeue =>
      rcases guarded.mp hs with ⟨hstage, rfl⟩
      rcases queueWork_sources hsources hleftover with
        ⟨h1, h2, h3, h4, h5, h6, h7, h8, h9⟩
      constructor <;> simp only [Lane.setDeletion] <;> grind

theorem addCall_sources {c : Call}
    (hresolved : c.stage = CallStage.resolved ->
      K c.source ∧ forall x, c.handle = some x -> K x)
    (h : SourcesIn K s) :
    SourcesIn K (s.addCall c) := by
  rcases h with ⟨h1, h2, h3, h4, h5, h6, h7, h8, h9⟩
  constructor <;> simp only [Lane.addCall] <;> grind

theorem enqueue_sources {x : Handle} {updates : List ContextUpdate}
    {removed : List Uuid} {waits : Bool} (hx : K x)
    (hnewest : forall y, s.standing x = Standing.superseded (some y) -> K y)
    (h : SourcesIn K s) :
    SourcesIn K (s.enqueue x updates removed waits) := by
  unfold Lane.enqueue
  rcases hstand : s.standing x with _ | ⟨_ | y⟩ | _
  · exact addCall_sources (by simp [hx]) h
  · exact (addCall_sources (by simp) h).update rfl rfl rfl rfl rfl
  · exact addCall_sources (by simp [hx, hnewest y hstand]) h
  · exact (addCall_sources (by simp) h).update rfl rfl rfl rfl rfl

theorem queue_sources {c : Nat}
    (hstage : (s.call c).stage = CallStage.resolved) (h : SourcesIn K s) :
    SourcesIn K (s.queue c) := by
  have hcalls : SourcesIn K (s.recordQueued c) := by
    rcases h with ⟨h1, h2, h3, h4, h5, h6, h7, h8, h9⟩
    constructor <;> simp only [Lane.recordQueued, Lane.queuedCall] <;> grind
  refine SourcesIn.update (queueWork_sources hcalls ?_) rfl rfl rfl rfl rfl
  intro x hx
  have hsource : (s.call c).source = x := Option.some.inj hx
  exact hsource ▸ h.resolved c hstage

theorem waitQueued_sources (k : SlotId) (h : SourcesIn K s) :
    SourcesIn K (s.waitQueued k) := by
  have hcall : SourcesIn K (s.addCall s.waitingCall) :=
    addCall_sources (by simp [Lane.waitingCall]) h
  have hsource := h.pending k
  rcases hcall with ⟨h1, h2, h3, h4, h5, h6, h7, h8, h9⟩
  constructor <;> simp only [Lane.waitQueued, Lane.setPending] <;> grind

theorem step_sources {a : Action}
    (hnewest : forall x y, K x ->
      s.standing x = Standing.superseded (some y) -> K y)
    (hlive : forall x updates removed waits,
      a = Action.enqueue x updates removed waits -> K x)
    (h : SourcesIn K s) (hs : s.step a = some s') :
    SourcesIn K s' := by
  have hempty : Pending.empty.source = none := rfl
  cases a with
  | create | exclusive =>
      cases hs
      exact h.update rfl rfl rfl rfl rfl
  | register _ | commit _ | drop _ | flushForget _ =>
      rcases guarded.mp hs with ⟨_, rfl⟩
      exact h.update rfl rfl rfl rfl rfl
  | enqueue x updates removed waits =>
      rcases guarded.mp hs with ⟨_, rfl⟩
      have hx := hlive x updates removed waits rfl
      exact enqueue_sources hx (fun y => hnewest x y hx) h
  | queue c =>
      rcases guarded.mp hs with ⟨hstage, rfl⟩
      exact queue_sources hstage h
  | waitQueued =>
      rcases waitQueued_cases hs with ⟨k, _, rfl⟩
      exact waitQueued_sources k h
  | flushCollect =>
      rcases Option.map_eq_some_iff.mp hs with ⟨x, _, rfl⟩
      exact h.update rfl rfl rfl rfl rfl
  | drain k a => exact drain_sources hnewest h hs
  | delete live =>
      rcases guarded.mp hs with ⟨_, rfl⟩
      have hnone : Deletion.none.leftover = Pending.empty := rfl
      rcases h with ⟨h1, h2, h3, h4, h5, h6, h7, h8, h9⟩
      constructor <;> simp only [Lane.delete] <;> grind
  | deletion d a => exact deletion_sources h hs
  | critical e a =>
      have hsame := criticalStep_same hs
      exact h.update hsame.pending hsame.drainer hsame.deletion hsame.call
        hsame.slotCount

end

variable {s : Lane}

theorem sources {allowed : Lane -> Action -> Prop} (h : lane.Reachable allowed s) :
    SourcesIn (fun _ => True) s :=
  h.invariant (P := SourcesIn (fun _ => True)) (sourcesIn_empty _)
    (fun _ _ _ hsources _ hs =>
      step_sources (fun _ _ _ _ => True.intro) (fun _ _ _ _ _ => True.intro)
        hsources hs)

variable {K K' : Handle -> Prop}

theorem SourcesIn.mono (hK : forall x, K x -> K' x) (h : SourcesIn K s) :
    SourcesIn K' s := by
  rcases h with ⟨h1, h2, h3, h4, h5, h6, h7, h8, h9⟩
  constructor <;> grind

theorem SourcesIn.and (h : SourcesIn K s) (h' : SourcesIn K' s) :
    SourcesIn (fun x => K x ∧ K' x) s := by
  rcases h with ⟨h1, h2, h3, h4, h5, h6, h7, h8, h9⟩
  rcases h' with ⟨h1', h2', h3', h4', h5', h6', h7', h8', h9'⟩
  constructor <;> grind

variable {x : Handle}

theorem sources_ne (hlocks : Locks s) (hnumbered : Numbered s)
    (hreg : Registration s) (h : SourcesIn K s) (hx : ¬ s.Referenced x) :
    SourcesIn (fun y => y ≠ x) s := by
  have hslots : forall k, (s.drainer k).stage ≠ DrainStage.exited ->
      k < s.slotCount := by
    intro k hk
    by_contra hlt
    exact hk (h.unspawned k (Nat.le_of_not_lt hlt))
  have hqueues : forall k, (s.pending k).source ≠ none -> k < s.slotCount := by
    intro k hk
    have hstranded := hreg.stranded k (fun hempty => hk hempty.1)
    rcases hstranded with hstranded | ⟨d, -, hslot⟩
    · exact hlocks.registeredLt k hstranded
    · exact hlocks.deletionLt d k hslot
  have hcalls : forall c, (s.call c).stage ≠ CallStage.unused ->
      c < s.callCount := by
    intro c hc
    by_contra hlt
    exact hc (hnumbered.call c (Nat.le_of_not_lt hlt))
  have hdeletes : forall d, (s.deletion d).stage ≠ DeleteStage.unused ->
      d < s.deleteCount := by
    intro d hd
    by_contra hlt
    exact hd (hnumbered.deletion d (Nat.le_of_not_lt hlt))
  have hempty : Pending.empty.source = none := rfl
  rcases h with ⟨h1, h2, h3, h4, h5, h6, h7, h8, h9⟩
  unfold Lane.Referenced at hx
  constructor <;> grind

/-- A call's handle and the handle it was redirected to belong to the same
incarnation. -/
def SameIncarnation (s : Lane) : Prop :=
  forall c h,
    (s.call c).stage = CallStage.resolved ∨
      (s.call c).stage = CallStage.queued ->
    (s.call c).handle = some h ->
    s.incarnation h = s.incarnation (s.call c).source ∧
      s.incarnation h ≠ none

structure Held (s : Lane) : Prop where
  sources : SourcesIn (Known s) s
  same : SameIncarnation s
  tombstone : forall h, h ∈ s.tombstones -> s.incarnation h ≠ none

theorem held_empty : Held Lane.empty := by
  refine ⟨sourcesIn_empty _, ?_, ?_⟩
  · intro c h hstage
    rcases hstage with hstage | hstage <;> cases hstage
  · intro h hh
    cases hh

variable {s' : Lane} {a : Action}

theorem step_known (hnumbered : Numbered s) (hs : s.step a = some s')
    (hx : Known s x) (hdrop : a ≠ Action.drop x) :
    Known s' x := by
  have hnew := hnumbered.handle
  cases step_handles hs with
  | same _ hsame =>
      unfold Known
      rw [hsame.alive, hsame.incarnation]
      exact hx
  | create =>
      simp only [Known, Lane.create] at hx ⊢
      grind
  | register _ =>
      simp only [Known, Lane.register] at hx ⊢
      grind
  | @drop y =>
      have hne : x ≠ y := fun heq => hdrop (heq ▸ rfl)
      simpa [Known, hne] using hx
  | delete | retire _ => exact hx

theorem step_incarnation (hnumbered : Numbered s) (hs : s.step a = some s')
    {n : Nat} (hx : s.incarnation x = some n) :
    s'.incarnation x = some n := by
  have hnew := hnumbered.handle
  cases step_handles hs with
  | same _ hsame =>
      rw [hsame.incarnation]
      exact hx
  | create =>
      simp only [Lane.create]
      grind
  | register _ =>
      simp only [Lane.register]
      grind
  | drop | delete | retire _ => exact hx

theorem step_sameIncarnation (hnumbered : Numbered s) (hdir : Directory s)
    (h : SameIncarnation s) (ha : UsesRegistered s a) (hs : s.step a = some s') :
    SameIncarnation s' := by
  have hkeep : forall x y, s.incarnation x = s.incarnation y ->
      s.incarnation x ≠ none ->
      s'.incarnation x = s'.incarnation y ∧ s'.incarnation x ≠ none := by
    intro x y heq hne
    rcases Option.ne_none_iff_exists'.mp hne with ⟨n, hn⟩
    rw [step_incarnation hnumbered hs hn,
      step_incarnation hnumbered hs (heq ▸ hn)]
    exact ⟨rfl, by simp⟩
  intro c x hstage hhandle
  rcases step_call hs c with hsame | ⟨-, hresolved, hcall⟩ | ⟨-, -, hcall⟩ |
    ⟨-, y, updates, removed, waits, rfl, halive, hy, hcall⟩
  · rw [hsame] at hstage hhandle ⊢
    rcases h c x hstage hhandle with ⟨heq, hne⟩
    exact hkeep _ _ heq hne
  · rw [hcall] at hhandle ⊢
    rcases h c x (Or.inl hresolved) hhandle with ⟨heq, hne⟩
    exact hkeep _ _ heq hne
  · rw [hcall] at hhandle
    cases hhandle
  · have hxy : y = x := Option.some.inj (hy.symm.trans hhandle)
    subst hxy
    have hknown : Known s y := ⟨halive, ha⟩
    rcases hcall with hrefused | ⟨-, ⟨hcurrent, hsource⟩ | hnewest⟩
    · rw [hrefused] at hstage
      rcases hstage with hstage | hstage <;> cases hstage
    · rw [hsource]
      exact hkeep _ _ rfl ha
    · have hborn := (standing_not_deleted hdir hknown (by simp [hnewest])).1
      have hsource := (standing_superseded_some hdir hknown hnewest).2.1
      exact hkeep _ _ (hborn.trans hsource.symm) ha

theorem step_tombstones (hs : s.step a = some s') (hx : x ∈ s'.tombstones) :
    x ∈ s.tombstones ∨ a = Action.delete (some x) := by
  cases step_handles hs with
  | same _ hsame =>
      rw [hsame.tombstones] at hx
      exact Or.inl hx
  | create | register _ | drop | retire _ => exact Or.inl hx
  | @delete live =>
      cases live with
      | none => exact Or.inl hx
      | some y =>
          simp only [Lane.delete] at hx
          grind

theorem step_held (hlocks : Locks s) (hnumbered : Numbered s)
    (hreg : Registration s) (hdir : Directory s) (h : Held s)
    (ha : UsesRegistered s a) (hs : s.step a = some s') :
    Held s' := by
  have hnewest : forall x y, Known s x ->
      s.standing x = Standing.superseded (some y) -> Known s y :=
    fun x y hx hstand => (standing_superseded_some hdir hx hstand).1
  have hlive : forall x updates removed waits,
      a = Action.enqueue x updates removed waits -> Known s x := by
    rintro x updates removed waits rfl
    exact ⟨(guarded.mp hs).1, ha⟩
  have hsources := step_sources hnewest hlive h.sources hs
  constructor
  · by_cases hdrop : exists x, a = Action.drop x
    · rcases hdrop with ⟨x, rfl⟩
      rcases guarded.mp hs with ⟨⟨_, hunreferenced⟩, rfl⟩
      have hne := sources_ne hlocks hnumbered hreg h.sources hunreferenced
      apply (hsources.and (hne.update rfl rfl rfl rfl rfl)).mono
      rintro y ⟨hy, hyx⟩
      simpa [Known, hyx] using hy
    · apply hsources.mono
      intro x hx
      exact step_known hnumbered hs hx (fun heq => hdrop ⟨x, heq⟩)
  · exact step_sameIncarnation hnumbered hdir h.same ha hs
  · intro x hx
    have hborn : s.incarnation x ≠ none := by
      rcases step_tombstones hs hx with hx | rfl
      · exact h.tombstone x hx
      · exact ha
    rcases Option.ne_none_iff_exists'.mp hborn with ⟨n, hn⟩
    simp [step_incarnation hnumbered hs hn]

end Persister
end PostCortex
