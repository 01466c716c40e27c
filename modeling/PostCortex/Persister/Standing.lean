import PostCortex.Persister.Rerouting

/-!
# The standing of handles over a run

A delete ends every handle there is: the registered ones by its mark in the
lineage, the one it is given by a tombstone.  Of the handles registered later
the last one is current and the others give way to a newer one: but `merge` keeps
the source merged last, which may be older than the one it replaces.
-/

namespace PostCortex
namespace Persister

open PostCortex.Core
open Transition

def Unretired (_ : Lane) : Action -> Prop
  | Action.register _ => False
  | Action.delete _ => False
  | Action.deletion _ a => a ≠ DeleteAction.retire
  | _ => True

def Retired (s : Lane) (d : Nat) : Prop :=
  (s.deletion d).stage ≠ DeleteStage.marked

variable {s : Lane} {x : Handle}

/-!
# What stays
-/

variable {s' : Lane} {a : Action}

theorem step_dead (hs : s.step a = some s') (hlt : x < s.handleCount)
    (hdead : s.alive x = false) :
    s'.alive x = false := by
  cases step_handles hs with
  | same _ hsame =>
      rw [hsame.alive]
      exact hdead
  | create =>
      have hne : x ≠ s.handleCount := Nat.ne_of_lt hlt
      simpa [Lane.create, hne] using hdead
  | @drop y =>
      by_cases hxy : x = y
      · simp [hxy]
      · simpa [hxy] using hdead
  | register _ | delete | retire _ => exact hdead

theorem step_tombstone (hs : s.step a = some s') (halive : s.alive x = true)
    (hx : x ∈ s.tombstones) :
    x ∈ s'.tombstones := by
  cases step_handles hs with
  | same _ hsame =>
      rw [hsame.tombstones]
      exact hx
  | create | register _ | drop | retire _ => exact hx
  | @delete live =>
      cases live with
      | none => exact hx
      | some y =>
          have hkept : x ∈ s.tombstones.filter s.alive :=
            List.mem_filter.mpr ⟨hx, halive⟩
          simp only [Lane.delete]
          split
          · exact hkept
          · exact List.mem_append_left _ hkept

theorem deletes_le (hs : s.step a = some s') :
    s.deletes ≤ s'.deletes := by
  by_cases ha : exists d, a = Action.deletion d DeleteAction.retire
  · rcases ha with ⟨d, rfl⟩
    rw [retire_deletes hs]
    exact Nat.le_succ _
  · rw [step_deletes hs (fun d heq => ha ⟨d, heq⟩)]

variable {live : Option Handle}

theorem delete_tombstone (hs : s.step (Action.delete live) = some s')
    (hx : live = some x) :
    x ∈ s'.tombstones := by
  rcases guarded.mp hs with ⟨_, rfl⟩
  subst hx
  simp only [Lane.delete]
  split
  · next hmem => exact hmem
  · exact List.mem_append_right _ (List.mem_singleton_self _)

/-!
# After a delete
-/

/-- What the `d`-th delete, made in `s`, leaves of a handle of `s`. -/
structure Ended (s : Lane) (d : Nat) (x : Handle) (t : Lane) : Prop where
  marked : (t.deletion d).stage = DeleteStage.marked ∨ s.deletes < t.deletes
  later : s.deletes ≤ t.deletes
  numbered : x < t.handleCount
  born : forall n, s.incarnation x = some n -> t.incarnation x = some n
  tomb : s.incarnation x = none -> x ∈ t.tombstones ∨ t.alive x = false

theorem delete_ended (hnumbered : Numbered s)
    (hs : s.step (Action.delete live) = some s') (halive : s.alive x = true)
    (hlive : s.incarnation x = none -> live = some x) :
    Ended s s.deleteCount x s' := by
  have htomb : s.incarnation x = none -> x ∈ s'.tombstones :=
    fun hnone => delete_tombstone hs (hlive hnone)
  have hlt : x < s.handleCount := by
    by_contra hge
    rw [(hnumbered.handle x (Nat.not_lt.mp hge)).1] at halive
    cases halive
  rcases guarded.mp hs with ⟨_, rfl⟩
  refine ⟨Or.inl (by simp [Lane.delete]), Nat.le_refl _, hlt,
    fun n hn => hn, fun hnone => Or.inl (htomb hnone)⟩

variable {t : Lane}

theorem step_ended {t' : Lane} {d : Nat} (hnumbered : Numbered t)
    (h : Ended s d x t) (hs : t.step a = some t') :
    Ended s d x t' where
  marked := by
    rcases h.marked with hmark | hlater
    · rcases step_deletion hs d with heq | ⟨y, rfl⟩ | ⟨rfl, -⟩
      · rw [heq]
        exact Or.inl hmark
      · have hretire := marked_action hs hmark
        subst hretire
        right
        rw [retire_deletes hs]
        exact Nat.lt_succ_of_le h.later
      · rw [hnumbered.deletion t.deleteCount (Nat.le_refl _)] at hmark
        cases hmark
    · exact Or.inr (Nat.lt_of_lt_of_le hlater (deletes_le hs))
  later := Nat.le_trans h.later (deletes_le hs)
  numbered := Nat.lt_of_lt_of_le h.numbered (step_counters hs).handles
  born := fun n hn => step_incarnation hnumbered hs (h.born n hn)
  tomb := by
    intro hnone
    cases halive : t.alive x with
    | true =>
        rcases h.tomb hnone with hmem | hdead
        · exact Or.inl (step_tombstone hs halive hmem)
        · rw [halive] at hdead
          cases hdead
    | false =>
        exact Or.inr (step_dead hs h.numbered halive)

theorem standing_tombstone (h : x ∈ s.tombstones) :
    s.standing x = Standing.deleted := by
  unfold Lane.standing
  rw [if_pos h]

theorem Ended.standing {d : Nat} (hdir : Directory t) (h : Ended s d x t)
    (hborn : forall n, s.incarnation x = some n ->
      n ≤ s.deletes) (hretired : Retired t d) (halive : t.alive x = true) :
    t.standing x = Standing.deleted := by
  have hlater : s.deletes < t.deletes := h.marked.resolve_left hretired
  cases hinc : s.incarnation x with
  | none =>
      rcases h.tomb hinc with hmem | hdead
      · exact standing_tombstone hmem
      · rw [halive] at hdead
        cases hdead
  | some n =>
      have hn := h.born n hinc
      by_contra hstand
      have hknown : Known t x := ⟨halive, by simp [hn]⟩
      have hsame := (standing_not_deleted hdir hknown hstand).1
      rw [hn] at hsame
      cases hsame
      exact absurd hlater (Nat.not_lt.mpr (hborn t.deletes hinc))

/-!
# The last handle registered
-/

/-- The handle was registered last, after the last delete. -/
structure Last (x : Handle) (t : Lane) : Prop where
  numbered : x < t.handleCount
  born : t.incarnation x = some t.deletes
  member : exists g, (x, g) ∈ t.lineage.members ∧ g + 1 = t.lineage.next
  untombed : x ∉ t.tombstones

theorem register_last (hnumbered : Numbered s)
    (hs : s.step (Action.register x) = some s') (hnot : x ∉ s.tombstones) :
    Last x s' := by
  rcases guarded.mp hs with ⟨⟨halive, -⟩, rfl⟩
  refine ⟨?_, by simp [Lane.register], ⟨s.lineage.next, ?_, rfl⟩, hnot⟩
  · by_contra hge
    rw [(hnumbered.handle x (Nat.not_lt.mp hge)).1] at halive
    cases halive
  · exact mem_register_members.mpr (Or.inr rfl)

theorem step_last {t' : Lane} (hnumbered : Numbered t) (h : Last x t)
    (ha : Unretired t a) (hs : t.step a = some t') :
    Last x t' := by
  have hlt := Nat.lt_of_lt_of_le h.numbered (step_counters hs).handles
  have hborn := step_incarnation hnumbered hs h.born
  have hnot : x ∉ t'.tombstones := by
    intro hmem
    rcases step_tombstones hs hmem with hold | rfl
    · exact h.untombed hold
    · exact ha
  cases step_handles hs with
  | same _ hsame =>
      refine ⟨hlt, ?_, ?_, hnot⟩
      · rw [hsame.deletes]
        exact hborn
      · rw [hsame.lineage]
        exact h.member
  | create | drop => exact ⟨hlt, hborn, h.member, hnot⟩
  | register _ | delete => exact absurd ha id
  | retire _ => exact absurd rfl ha

theorem Last.standing (hdir : Directory t) (h : Last x t)
    (halive : t.alive x = true) :
    t.standing x = Standing.current :=
  standing_current_of hdir ⟨⟨halive, by simp [h.born]⟩, h.member⟩ h.born
    h.untombed

/-!
# Every run
-/

/-- A request made through a superseded handle, or whose handle is superseded
when its batch is judged, is written through a newer handle that is alive. -/
theorem superseded_written {x : Handle} {g : Nat} {updates : List ContextUpdate}
    {removed : List Uuid} {waits : Bool} (hreach : lane.Reachable System.Anything s)
    (hg : s.lineage.generationOf x = some g)
    (hs : s.step (Action.enqueue x updates removed waits) = some s')
    (hrun : lane.Steps MergesForward s' t) {k : SlotId}
    (hc : s.callCount ∈ (t.drainer k).batch.requests) :
    (s.standing x ≠ Standing.current ->
      ((t.drainer k).stage = DrainStage.ready ∨
        (t.drainer k).stage = DrainStage.writing) ->
      t.alive (t.drainer k).handle = true ∧ Since t (g + 1) (t.drainer k).handle) ∧
    forall newest t', t.standing x = Standing.superseded newest ->
      t.step (Action.drain k DrainAction.resolve) = some t' ->
      (t'.drainer k).stage = DrainStage.finished ∨
        (t'.drainer k).stage = DrainStage.ready ∧
          t.alive (t'.drainer k).handle = true ∧
          Since t (g + 1) (t'.drainer k).handle := by
  have hreach' : lane.Reachable System.Anything s' :=
    System.Reachable.step (a := Action.enqueue x updates removed waits) hreach
      True.intro hs
  have hafter : forall {u}, lane.Steps MergesForward s' u ->
      lane.Reachable System.Anything u :=
    fun hsteps => hreach'.trans (hsteps.mono fun _ _ _ => True.intro)
  have hrouted : forall b, b ≤ g ∨ b = g + 1 ∧ s.standing x ≠ Standing.current ->
      Routed s.callCount b t := by
    intro b hb
    refine hrun.invariant (enqueue_routed (numbered hreach) (queues hreach)
      (directory hreach) hg hb hs) ?_
    intro u a u' hsteps hold ha hnext
    have hu := hafter hsteps
    have hu' := hafter (System.Steps.tail hsteps ha hnext)
    exact hold.step (numbered hu) (queues hu) (directory hu) (directory hu')
      (aliveSources hu) ha hnext
  have hsources := aliveSources (hafter hrun)
  constructor
  · intro hstand hstage
    exact (hrouted (g + 1) (Or.inr ⟨rfl, hstand⟩)).chosen hsources hstage hc
  · intro newest t' hstand hnext
    have hmember : t.lineage.generationOf x ≠ none := by
      intro hnone
      simp only [Lane.standing, hnone] at hstand
      split at hstand <;> cases hstand
    rcases Option.ne_none_iff_exists'.mp hmember with ⟨g', hg'⟩
    have hgen : s'.lineage.generationOf x = some g := by
      rw [(step_sameHandles hs (fun hmoves => hmoves)).lineage]
      exact hg
    rw [run_generation hreach' (hrun.mono fun _ _ _ => True.intro) hgen hg'] at hg'
    exact (hrouted g (Or.inl (Nat.le_refl g))).resolve hsources
      (directory (hafter hrun)) hg' (by simp [hstand]) (by simp [hstand]) hc hnext

/-- A handle that existed before a delete is reported as deleted from then on,
at most one registered handle is current, and the handle registered last since
the last delete is current.  The request of a superseded handle is written only
through a newer one that is alive as long as no merge replaces the source of a
queue by an older one. -/
theorem handle_lineage {s : Lane} (hreach : lane.Reachable System.Anything s) :
    (forall (s' t : Lane) (live : Option Handle) (x : Handle),
      s.step (Action.delete live) = some s' ->
      lane.Steps System.Anything s' t ->
      Retired t s.deleteCount ->
      s.alive x = true ->
      (s.incarnation x = none -> live = some x) ->
      t.alive x = true ->
      t.standing x = Standing.deleted) ∧
    (forall (x y : Handle),
      Known s x -> Known s y ->
      s.standing x = Standing.current ->
      s.standing y = Standing.current ->
      x = y) ∧
    (forall (s' t : Lane) (x : Handle) (g : Nat) (updates : List ContextUpdate)
        (removed : List Uuid) (waits : Bool) (k : SlotId),
      s.lineage.generationOf x = some g ->
      s.step (Action.enqueue x updates removed waits) = some s' ->
      lane.Steps MergesForward s' t ->
      s.callCount ∈ (t.drainer k).batch.requests ->
      (s.standing x ≠ Standing.current ->
        ((t.drainer k).stage = DrainStage.ready ∨
          (t.drainer k).stage = DrainStage.writing) ->
        t.alive (t.drainer k).handle = true ∧
          Since t (g + 1) (t.drainer k).handle) ∧
      forall newest t', t.standing x = Standing.superseded newest ->
        t.step (Action.drain k DrainAction.resolve) = some t' ->
        (t'.drainer k).stage = DrainStage.finished ∨
          (t'.drainer k).stage = DrainStage.ready ∧
            t.alive (t'.drainer k).handle = true ∧
            Since t (g + 1) (t'.drainer k).handle) ∧
    forall (s' t : Lane) (x : Handle),
      x ∉ s.tombstones ->
      s.step (Action.register x) = some s' ->
      lane.Steps Unretired s' t ->
      t.alive x = true ->
      t.standing x = Standing.current := by
  refine ⟨?_, ?_, ?_, ?_⟩
  · intro s' t live x hs hrun hretired halive hlive halive'
    have hreach' : lane.Reachable System.Anything s' :=
      System.Reachable.step (a := Action.delete live) hreach True.intro hs
    have hended : Ended s s.deleteCount x t :=
      hrun.invariant (delete_ended (numbered hreach) hs halive hlive)
        (fun _ _ _ hsteps hold _ hnext =>
          step_ended (numbered (hreach'.trans hsteps)) hold hnext)
    exact hended.standing (directory (hreach'.trans hrun))
      ((directory hreach).born x) hretired halive'
  · intro x y hx hy hcurrent hcurrent'
    have hdir := directory hreach
    exact hdir.newest_unique (standing_current hdir hx hcurrent).1
      (standing_current hdir hy hcurrent').1
  · intro s' t x g updates removed waits k hg hs hrun hc
    exact superseded_written hreach hg hs hrun hc
  · intro s' t x hnot hs hrun halive
    have hreach' : lane.Reachable System.Anything s' :=
      System.Reachable.step (a := Action.register x) hreach True.intro hs
    have hrun' : lane.Reachable System.Anything t :=
      hreach'.trans (hrun.mono fun _ _ _ => True.intro)
    have hlast : Last x t :=
      hrun.invariant (register_last (numbered hreach) hs hnot)
        (fun u _ _ hsteps hold ha hnext => by
          have hu : lane.Reachable System.Anything u :=
            hreach'.trans (hsteps.mono fun _ _ _ => True.intro)
          exact step_last (numbered hu) hold ha hnext)
    exact hlast.standing (directory hrun') halive

def twoHandles : List Action :=
  [Action.create, Action.register 0, Action.create]

/-- Handle 1 is superseded by 2 while a request of handle 0 is on its way to the
queue. -/
def supersededRun : List Action :=
  [Action.create, Action.register 0, Action.enqueue 0 [] [] false,
    Action.create, Action.register 1, Action.create, Action.register 2]

def inOrderRun : List Action :=
  [Action.queue 0, Action.queue 1, Action.drain 0 DrainAction.request,
    Action.drain 0 DrainAction.take, Action.drain 0 DrainAction.resolve,
    Action.drain 0 DrainAction.begin]

/-- The older request joins the queue last, and handle 2 is dropped. -/
def overtakenRun : List Action :=
  [Action.queue 1, Action.queue 0, Action.drop 2,
    Action.drain 0 DrainAction.request, Action.drain 0 DrainAction.take,
    Action.drain 0 DrainAction.resolve, Action.drain 0 DrainAction.begin]

theorem handle_lineage_superseded :
    (exists s s' t, lane.replay System.Anything lane.init twoHandles = some s ∧
      s.step (Action.delete (some 1)) = some s' ∧
      lane.replay System.Anything s'
          [Action.deletion 0 DeleteAction.retire] = some t ∧
      t.standing 0 = Standing.deleted ∧ t.standing 1 = Standing.deleted) ∧
    (exists s s' t, lane.replay System.Anything lane.init supersededRun = some s ∧
      s.step (Action.enqueue 1 [] [] false) = some s' ∧
      lane.replay MergesForward s' inOrderRun = some t ∧
      (forall x, Known s x -> s.standing x = Standing.current -> x = 2) ∧
      s.standing 1 = Standing.superseded (some 2) ∧
      (t.drainer 0).stage = DrainStage.writing ∧
      (t.alive (t.drainer 0).handle = true ∧ Since t 2 (t.drainer 0).handle)) ∧
    exists s s' t, lane.replay System.Anything lane.init [Action.create] =
        some s ∧
      s.step (Action.register 0) = some s' ∧
      s'.step (Action.commit 0) = some t ∧
      t.standing 0 = Standing.current := by
  refine ⟨?_, ?_, ?_⟩
  · obtain ⟨s, hs, hreach, ⟨h0, h1, hborn, hcount⟩, hend⟩ :=
      lane.replay_reaches System.Anything twoHandles (fun s =>
        (s.alive 0 = true ∧ s.alive 1 = true ∧ s.incarnation 0 ≠ none ∧
          s.deleteCount = 0) ∧
        (s.step (Action.delete (some 1))).any (fun s' =>
          (lane.replay System.Anything s'
            [Action.deletion 0 DeleteAction.retire]).any (fun t =>
              t.alive 0 && t.alive 1 &&
                decide ((t.deletion 0).stage ≠ DeleteStage.marked))) = true)
        (by decide +kernel)
    simp only [Bool.and_eq_true, Option.any_eq_true, decide_eq_true_eq] at hend
    rcases hend with ⟨s', hs', t, ht, ⟨h0', h1'⟩, hretired⟩
    have hsteps := System.Steps.refl.replay ht
    have hdeleted := (handle_lineage hreach).1 s' t (some 1)
    have hretired' : Retired t s.deleteCount := by
      rw [hcount]
      exact hretired
    refine ⟨s, s', t, hs, hs', ht,
      hdeleted 0 hs' hsteps hretired' h0 (fun hnone => absurd hnone hborn) h0',
      hdeleted 1 hs' hsteps hretired' h1 (fun _ => rfl) h1'⟩
  · obtain ⟨s, hs, hreach, ⟨hcurrent, hknown, hstand, hg, hcount⟩, hend⟩ :=
      lane.replay_reaches System.Anything supersededRun (fun s =>
        (s.standing 2 = Standing.current ∧
          (s.alive 2 = true ∧ s.incarnation 2 ≠ none) ∧
          s.standing 1 = Standing.superseded (some 2) ∧
          s.lineage.generationOf 1 = some 1 ∧ s.callCount = 1) ∧
        (s.step (Action.enqueue 1 [] [] false)).any (fun s' =>
          (lane.replay MergesForward s' inOrderRun).any (fun t =>
            decide ((t.drainer 0).stage = DrainStage.writing ∧
              1 ∈ (t.drainer 0).batch.requests))) = true)
        (by decide +kernel)
    simp only [Option.any_eq_true, decide_eq_true_eq] at hend
    rcases hend with ⟨s', hs', t, ht, hwriting, hmem⟩
    have hsteps : lane.Steps MergesForward s' t := System.Steps.refl.replay ht
    rw [← hcount] at hmem
    refine ⟨s, s', t, hs, hs', ht, ?_, hstand, hwriting,
      ((handle_lineage hreach).2.2.1 s' t 1 1 [] [] false 0 hg hs' hsteps hmem).1
        (by simp [hstand]) (Or.inr hwriting)⟩
    intro x hx hxcurrent
    exact (handle_lineage hreach).2.1 x 2 hx hknown hxcurrent hcurrent
  · obtain ⟨s, hs, hreach, hnot, hend⟩ :=
      lane.replay_reaches System.Anything [Action.create] (fun s => 0 ∉ s.tombstones ∧
        (s.step (Action.register 0)).any (fun s' =>
          (s'.step (Action.commit 0)).any (fun t => t.alive 0)) = true)
        (by decide +kernel)
    simp only [Option.any_eq_true] at hend
    rcases hend with ⟨s', hs', t, ht, halive⟩
    have hsteps : lane.Steps Unretired s' t :=
      System.Steps.tail (a := Action.commit 0) System.Steps.refl True.intro ht
    exact ⟨s, s', t, hs, hs', ht,
      (handle_lineage hreach).2.2.2 s' t 0 hnot hs' hsteps halive⟩

theorem superseded_writes_itself :
    ¬ forall (s s' t : Lane) (x : Handle) (g : Nat) (newest : Option Handle)
        (updates : List ContextUpdate) (removed : List Uuid) (waits : Bool)
        (k : SlotId),
      lane.Reachable System.Anything s ->
      s.lineage.generationOf x = some g ->
      s.standing x = Standing.superseded newest ->
      s.step (Action.enqueue x updates removed waits) = some s' ->
      lane.Steps System.Anything s' t ->
      (t.drainer k).stage = DrainStage.writing ->
      s.callCount ∈ (t.drainer k).batch.requests ->
      t.alive (t.drainer k).handle = true ∧
        Since t (g + 1) (t.drainer k).handle := by
  intro h
  obtain ⟨s, -, hreach, ⟨hstand, hg, hcount⟩, hend⟩ :=
    lane.replay_reaches System.Anything supersededRun (fun s =>
      (s.standing 1 = Standing.superseded (some 2) ∧
        s.lineage.generationOf 1 = some 1 ∧ s.callCount = 1) ∧
      (s.step (Action.enqueue 1 [] [] false)).any (fun s' =>
        (lane.replay System.Anything s' overtakenRun).any (fun t =>
          decide ((t.drainer 0).stage = DrainStage.writing ∧
            1 ∈ (t.drainer 0).batch.requests ∧ (t.drainer 0).handle = 1 ∧
            ¬ Since t 2 1))) = true)
      (by decide +kernel)
  simp only [Option.any_eq_true, decide_eq_true_eq] at hend
  rcases hend with ⟨s', hs', t, ht, hwriting, hmem, hhandle, hnot⟩
  rw [← hcount] at hmem
  have hnewer := (h s s' t 1 1 (some 2) [] [] false 0 hreach hg hstand hs'
    (System.Steps.refl.replay ht) hwriting hmem).2
  rw [hhandle] at hnewer
  exact hnot hnewer

end Persister
end PostCortex
