import PostCortex.Persister.Merging

/-!
# The current handle

The handle a session is current in: registered last, alive, and not marked by
a delete.  At most one handle is current, and it becomes so only by being
registered.
-/

namespace PostCortex
namespace Persister

open PostCortex.Core
open Transition

/-- A delete has marked its live handle and not yet retired the others. -/
def Marking (s : Lane) : Prop :=
  exists d, (s.deletion d).stage = DeleteStage.marked

/-- The session's current handle, with no delete about to retire it. -/
def Live (s : Lane) (h : Handle) : Prop :=
  Known s h ∧ s.standing h = Standing.current ∧ ¬ Marking s

/-- A marked handle is of an ended incarnation, or its delete is about to end
the current one. -/
def Tombstoned (s : Lane) : Prop :=
  forall h, h ∈ s.tombstones ->
    Marking s ∨ exists n, s.incarnation h = some n ∧ n < s.deletes

variable {s s' : Lane}

theorem marked_action {d : Nat} {x : DeleteAction}
    (hs : s.step (Action.deletion d x) = some s')
    (hd : (s.deletion d).stage = DeleteStage.marked) :
    x = DeleteAction.retire := by
  have horigin := deletion_origin hs
  rw [hd] at horigin
  cases x with
  | retire => rfl
  | begin => cases hslot : (s.deletion d).slot <;> rw [hslot] at horigin <;> cases horigin
  | lookup | request | finish _ | unregister | take | judge | requeue | release =>
      cases horigin

variable {a : Action}

theorem marking_step (hnumbered : Numbered s) (hs : s.step a = some s')
    (ha : forall d, a ≠ Action.deletion d DeleteAction.retire) (h : Marking s) :
    Marking s' := by
  rcases h with ⟨d, hd⟩
  refine ⟨d, ?_⟩
  rcases step_deletion hs d with heq | ⟨x, rfl⟩ | ⟨rfl, -⟩
  · rw [heq]
    exact hd
  · have hretire := marked_action hs hd
    exact absurd (by rw [hretire]) (ha d)
  · rw [hnumbered.deletion s.deleteCount (Nat.le_refl _)] at hd
    cases hd

theorem step_deletes (hs : s.step a = some s')
    (ha : forall d, a ≠ Action.deletion d DeleteAction.retire) :
    s'.deletes = s.deletes := by
  cases step_handles hs with
  | same _ hsame => exact hsame.deletes
  | create | register _ | drop | delete => rfl
  | @retire d _ => exact absurd rfl (ha d)

theorem retire_deletes {d : Nat}
    (hs : s.step (Action.deletion d DeleteAction.retire) = some s') :
    s'.deletes = s.deletes + 1 := by
  rcases guarded.mp hs with ⟨_, rfl⟩
  rfl

theorem step_tombstoned (hnumbered : Numbered s) (hdir : Directory s)
    (hheld : Held s) (h : Tombstoned s) (hs : s.step a = some s') :
    Tombstoned s' := by
  intro x hx
  rcases step_tombstones hs hx with hold | rfl
  · by_cases ha : exists d, a = Action.deletion d DeleteAction.retire
    · rcases ha with ⟨d, rfl⟩
      rcases Option.ne_none_iff_exists'.mp (hheld.tombstone x hold) with ⟨n, hn⟩
      refine Or.inr ⟨n, step_incarnation hnumbered hs hn, ?_⟩
      rw [retire_deletes hs]
      exact Nat.lt_succ_of_le (hdir.born x n hn)
    · have hne : forall d, a ≠ Action.deletion d DeleteAction.retire :=
        fun d heq => ha ⟨d, heq⟩
      rcases h x hold with hmark | ⟨n, hn, hlt⟩
      · exact Or.inl (marking_step hnumbered hs hne hmark)
      · refine Or.inr ⟨n, step_incarnation hnumbered hs hn, ?_⟩
        rwa [step_deletes hs hne]
  · rcases guarded.mp hs with ⟨_, rfl⟩
    exact Or.inl ⟨s.deleteCount, by simp [Lane.delete]⟩

theorem standing_congr (h : SameHandles s s') (x : Handle) :
    s'.standing x = s.standing x := by
  unfold Lane.standing
  rw [h.tombstones, h.lineage, h.alive]

/-- A handle that is current after a step was current before it, or the step
registers it. -/
theorem step_live (hnumbered : Numbered s) (hdir : Directory s)
    (hdir' : Directory s') (hs : s.step a = some s') {x : Handle} (hx : Live s' x) :
    Live s x ∨ a = Action.register x := by
  rcases hx with ⟨hknown, hstand, hmark⟩
  rcases standing_current hdir' hknown hstand with ⟨⟨-, g, hmem, hnext⟩, hborn, htomb⟩
  cases step_handles hs with
  | same hmoves hsame =>
      left
      have hretire : forall d, a ≠ Action.deletion d DeleteAction.retire := by
        rintro d rfl
        exact hmoves rfl
      rw [standing_congr hsame] at hstand
      have hknown : Known s x := by
        unfold Known at hknown ⊢
        rwa [hsame.alive, hsame.incarnation] at hknown
      exact ⟨hknown, hstand,
        fun hold => hmark (marking_step hnumbered hs hretire hold)⟩
  | create =>
      left
      rcases hdir.member (x, g) hmem with ⟨n, hn, -⟩
      have hold : x ≠ s.handleCount := by
        rintro rfl
        rw [(hnumbered.handle _ (Nat.le_refl _)).2] at hn
        cases hn
      have hknown : Known s x := by simpa [Known, Lane.create, hold] using hknown
      have hborn : s.incarnation x = some s.deletes := by
        simpa [Lane.create, hold] using hborn
      exact ⟨hknown, standing_current_of hdir ⟨hknown, g, hmem, hnext⟩ hborn htomb,
        hmark⟩
  | @register y _ =>
      right
      rcases mem_register_members.mp hmem with ⟨hold, -⟩ | hnew
      · have hlt := hdir.generation (x, g) hold
        have hnext : g = s.lineage.next := Nat.succ.inj hnext
        exact absurd hnext (Nat.ne_of_lt hlt)
      · rw [show x = y from congrArg Prod.fst hnew]
  | @drop y =>
      left
      have hne : x ≠ y := by
        rintro rfl
        simp [Known] at hknown
      have hknown : Known s x := by simpa [Known, hne] using hknown
      exact ⟨hknown, standing_current_of hdir ⟨hknown, g, hmem, hnext⟩ hborn htomb,
        hmark⟩
  | delete => exact absurd ⟨s.deleteCount, by simp [Lane.delete]⟩ hmark
  | retire _ =>
      have hle := hdir.born x (s.deletes + 1) hborn
      exact absurd hle (Nat.not_succ_le_self _)

theorem standing_of_live (hdir : Directory s) (htomb : Tombstoned s) {x y : Handle}
    (hx : Live s x) (hy : Known s y) (hborn : s.incarnation y = some s.deletes) :
    s.standing y ≠ Standing.deleted := by
  apply standing_of_incarnation hdir hy hborn
  intro hmem
  rcases htomb y hmem with hmark | ⟨n, hn, hlt⟩
  · exact hx.2.2 hmark
  · rw [hborn] at hn
    cases hn
    exact absurd hlt (Nat.lt_irrefl _)

end Persister
end PostCortex
