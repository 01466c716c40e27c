import PostCortex.Persister.Current

/-!
# Requests of superseded handles

A request is written through the source of the queue it is merged into, or
through a newer handle when that source is superseded.  As long as no merge
replaces the source of a queue by an older one, the source of every queue a
request is in stays as new as the handle the request was given at first.
-/

namespace PostCortex
namespace Persister

open PostCortex.Core
open Transition

/-- The handle is registered, in generation `b` or later. -/
def Since (s : Lane) (b : Nat) (y : Handle) : Prop :=
  exists g, g ∈ s.lineage.generationOf y ∧ b ≤ g

/-- The source of the work is registered no earlier than the source of the
queue that the work joins. -/
def Forward (s : Lane) (work : Pending) : Prop :=
  forall z, z ∈ work.source -> forall k, k ∈ s.registered ->
    forall y, y ∈ (s.pending k).source ->
      forall g, g ∈ s.lineage.generationOf y -> Since s g z

def MergesForward (s : Lane) : Action -> Prop
  | Action.queue c => Forward s ((s.call c).work c)
  | Action.deletion d DeleteAction.requeue => Forward s (s.deletion d).leftover
  | _ => True

instance (s : Lane) (b : Nat) (y : Handle) : Decidable (Since s b y) :=
  inferInstanceAs (Decidable (exists g, g ∈ s.lineage.generationOf y ∧ b ≤ g))

instance (s : Lane) (work : Pending) : Decidable (Forward s work) :=
  inferInstanceAs (Decidable (forall z, z ∈ work.source -> _))

instance (s : Lane) : (a : Action) -> Decidable (MergesForward s a)
  | Action.queue c => inferInstanceAs (Decidable (Forward s ((s.call c).work c)))
  | Action.deletion d DeleteAction.requeue =>
      inferInstanceAs (Decidable (Forward s (s.deletion d).leftover))
  | Action.create | Action.register _ | Action.commit _ | Action.drop _
  | Action.enqueue _ _ _ _ | Action.waitQueued
  | Action.flushCollect | Action.flushForget _ | Action.drain _ _
  | Action.delete _ | Action.exclusive | Action.critical _ _
  | Action.deletion _ DeleteAction.retire
  | Action.deletion _ DeleteAction.lookup
  | Action.deletion _ DeleteAction.request
  | Action.deletion _ DeleteAction.begin
  | Action.deletion _ (DeleteAction.finish _)
  | Action.deletion _ DeleteAction.unregister
  | Action.deletion _ DeleteAction.take
  | Action.deletion _ DeleteAction.judge
  | Action.deletion _ DeleteAction.release => isTrue trivial

variable {s s' : Lane} {a : Action}

/-!
# Generations
-/

section

variable {x y : Handle} {g b : Nat}

theorem Directory.generationOf_iff (hdir : Directory s) :
    s.lineage.generationOf x = some g ↔ (x, g) ∈ s.lineage.members := by
  constructor
  · exact Lineage.generationOf_mem
  · intro hmem
    cases hfound : s.lineage.generationOf x with
    | none => exact absurd hmem (Lineage.generationOf_none hfound g)
    | some g' =>
        have hmem' := Lineage.generationOf_mem hfound
        have heq := hdir.distinct (x, g') (x, g) hmem' hmem (Or.inl rfl)
        exact congrArg (fun m => some m.2) heq

theorem Since.mono {b' : Nat} (hle : b' ≤ b) (h : Since s b y) : Since s b' y := by
  rcases h with ⟨g, hg, hb⟩
  exact ⟨g, hg, Nat.le_trans hle hb⟩

theorem step_generation (hdir : Directory s) (hdir' : Directory s')
    (hs : s.step a = some s') (halive : s.alive y = true)
    (hg : s.lineage.generationOf y = some g) :
    s'.lineage.generationOf y = some g := by
  rw [hdir'.generationOf_iff]
  have hmem := hdir.generationOf_iff.mp hg
  cases step_handles hs with
  | same _ hsame =>
      rw [hsame.lineage]
      exact hmem
  | create | drop | delete => exact hmem
  | register _ => exact mem_register_members.mpr (Or.inl ⟨hmem, halive⟩)
  | retire _ => exact List.mem_filter.mpr ⟨hmem, halive⟩

/-- A handle is registered once. -/
theorem step_member {m : Handle × Nat} (hs : s.step a = some s')
    (hborn : s.incarnation m.1 ≠ none) (hm : m ∈ s'.lineage.members) :
    m ∈ s.lineage.members := by
  cases step_handles hs with
  | same _ hsame => rwa [hsame.lineage] at hm
  | create | drop | delete => exact hm
  | register hnew =>
      rcases mem_register_members.mp hm with ⟨hold, -⟩ | rfl
      · exact hold
      · exact absurd hnew hborn
  | retire _ => exact (List.mem_filter.mp hm).1

theorem run_generation {t : Lane} (hreach : lane.Reachable System.Anything s)
    (hrun : lane.Steps System.Anything s t)
    (hg : s.lineage.generationOf x = some g) {g' : Nat}
    (hg' : t.lineage.generationOf x = some g') :
    g' = g := by
  have hmem := Lineage.generationOf_mem hg
  have hback : t.incarnation x ≠ none ∧
      forall m, m ∈ t.lineage.members -> m.1 = x -> m ∈ s.lineage.members := by
    refine hrun.invariant (P := fun u => u.incarnation x ≠ none ∧
      forall m, m ∈ u.lineage.members -> m.1 = x -> m ∈ s.lineage.members) ?_ ?_
    · rcases (directory hreach).member _ hmem with ⟨n, hn, -⟩
      exact ⟨by simp [hn], fun _ hm _ => hm⟩
    · rintro u b u' hsteps ⟨hborn, hold⟩ - hnext
      rcases Option.ne_none_iff_exists'.mp hborn with ⟨n, hn⟩
      refine ⟨by simp [step_incarnation (numbered (hreach.trans hsteps)) hnext hn], ?_⟩
      intro m hm hx
      exact hold m (step_member hnext (by rwa [hx]) hm) hx
  have hold := hback.2 _ (Lineage.generationOf_mem hg') rfl
  exact congrArg Prod.snd ((directory hreach).distinct _ _ hold hmem (Or.inl rfl))

theorem Since.step (hdir : Directory s) (hdir' : Directory s')
    (hs : s.step a = some s') (halive : s.alive y = true) (h : Since s b y) :
    Since s' b y := by
  rcases h with ⟨g, hg, hb⟩
  exact ⟨g, step_generation hdir hdir' hs halive hg, hb⟩

theorem superseded_since (hg : s.lineage.generationOf x = some g)
    (h : s.standing x = Standing.superseded (some y)) (hdir : Directory s) :
    s.alive y = true ∧ Since s (g + 1) y := by
  unfold Lane.standing at h
  split at h
  · cases h
  · rw [hg] at h
    simp only at h
    split at h
    · cases h
    · split at h
      · cases h
      · have hfound := Standing.superseded.inj h
        rcases Option.map_eq_some_iff.mp hfound with ⟨m, hm, rfl⟩
        rcases Option.filter_eq_some_iff.mp hm with ⟨hm, hlt⟩
        rcases Lineage.newestAlive_some hm with ⟨hmember, halive, -⟩
        exact ⟨halive, m.2, hdir.generationOf_iff.mpr hmember, of_decide_eq_true hlt⟩

/-- The current handle is as new as any, and newer than a superseded one. -/
theorem current_since (hy : Since s g y) (hg : s.lineage.generationOf x = some g)
    (hcurrent : s.standing y = Standing.current)
    (hstand : s.standing x ≠ Standing.current)
    (hdeleted : s.standing x ≠ Standing.deleted) :
    Since s (g + 1) y := by
  rcases hy with ⟨g', hg', hle⟩
  refine ⟨g', hg', Nat.lt_of_le_of_ne hle ?_⟩
  rintro rfl
  unfold Lane.standing at hcurrent hstand hdeleted
  rw [Option.mem_def.mp hg'] at hcurrent
  rw [hg] at hstand hdeleted
  grind

end

/-!
# Sources are alive
-/

theorem standing_alive {x y : Handle}
    (h : s.standing x = Standing.superseded (some y)) :
    s.alive y = true := by
  unfold Lane.standing at h
  split at h
  · cases h
  · split at h
    · cases h
    · split at h
      · cases h
      · split at h
        · cases h
        · have hfound := Standing.superseded.inj h
          rcases Option.map_eq_some_iff.mp hfound with ⟨m, hm, rfl⟩
          exact (Lineage.newestAlive_some (Option.filter_eq_some_iff.mp hm).1).2.1

theorem step_alive (hs : s.step a = some s') {x : Handle} (hx : s.alive x = true)
    (hdrop : a ≠ Action.drop x) :
    s'.alive x = true := by
  cases step_handles hs with
  | same _ hsame =>
      rw [hsame.alive]
      exact hx
  | create =>
      simp only [Lane.create]
      grind
  | @drop y =>
      have hne : x ≠ y := fun heq => hdrop (heq ▸ rfl)
      simpa [hne] using hx
  | register _ | delete | retire _ => exact hx

theorem aliveSources {allowed : Lane -> Action -> Prop}
    (h : lane.Reachable allowed s) :
    SourcesIn (fun x => s.alive x = true) s := by
  refine h.invariant_of (Q := fun u => lane.Reachable allowed u)
    (P := fun u => SourcesIn (fun x => u.alive x = true) u)
    (fun _ hu => hu) (sourcesIn_empty _) ?_
  intro u b u' hreach hsources _ hs
  have hnext := step_sources (fun _ _ _ hstand => standing_alive hstand)
    (by rintro x updates removed waits rfl; exact (guarded.mp hs).1) hsources hs
  by_cases hdrop : exists x, b = Action.drop x
  · rcases hdrop with ⟨x, rfl⟩
    rcases guarded.mp hs with ⟨⟨_, hunreferenced⟩, rfl⟩
    have hne := sources_ne (locks hreach) (numbered hreach) (registration hreach)
      hsources hunreferenced
    apply (hnext.and (hne.update rfl rfl rfl rfl rfl)).mono
    rintro y ⟨hy, hyx⟩
    simpa [hyx] using hy
  · exact hnext.mono fun x hx => step_alive hs hx (fun heq => hdrop ⟨x, heq⟩)

/-!
# One request over a run
-/

/-- The source of every queue that holds the request `c`, and the handle chosen
for it, are of generation `b` or later. -/
structure Routed (c b : Nat) (t : Lane) : Prop where
  made : (t.call c).stage ≠ CallStage.unused
  handle : (t.call c).handle ≠ none
  source : (t.call c).stage = CallStage.resolved -> Since t b (t.call c).source
  queues : QueuesIn (fun y p => c ∈ p.requests -> Since t b y) t

variable {c b : Nat}

theorem unmade_queuesIn (hnumbered : Numbered s) (hqueues : Queues s)
    (N : Handle -> Prop) (hsame : SameTasks s s') :
    QueuesIn (fun y p => s.callCount ∈ p.requests -> N y) s' := by
  have hunused : forall p : Pending, p.Sound s.call -> s.callCount ∉ p.requests := by
    intro p hsound hc
    have hqueued := hsound.queued _ hc
    rw [hnumbered.call s.callCount (Nat.le_refl _)] at hqueued
    cases hqueued
  constructor
  · intro k x _ hc
    rw [hsame.pending] at hc
    exact absurd hc (hunused _ (hqueues.pending k))
  · intro k x _ _ hc
    rw [hsame.drainer] at hc
    exact absurd hc (hunused _ (hqueues.batch k))
  · intro k _ hc
    rw [hsame.drainer] at hc
    exact absurd hc (hunused _ (hqueues.batch k))
  · intro d x _ hc
    rw [hsame.deletion] at hc
    exact absurd hc (hunused _ (hqueues.leftover d))

/-- Work merged forward into a queue keeps the source as new as it was. -/
theorem Forward.merges {work : Pending} (hqueues : Queues s)
    (h : QueuesIn (fun y p => c ∈ p.requests -> Since s b y) s)
    (hhandle : (s.call c).handle ≠ none) (hforward : Forward s work)
    (hwork : forall z, work.source = some z -> c ∈ work.requests -> Since s b z) :
    Merges (fun y p => c ∈ p.requests -> Since s b y) s work := by
  intro z hz
  constructor
  · intro k hk hc
    rcases List.mem_append.mp hc with hold | hnew
    · have hsome : (s.pending k).source ≠ none :=
        fun hnone => hhandle (((hqueues.pending k).bare hnone).2.2 c hold)
      rcases Option.ne_none_iff_exists'.mp hsome with ⟨y, hy⟩
      rcases h.pending k y hy hold with ⟨g, hg, hb⟩
      exact (hforward z hz k hk y hy g hg).mono hb
    · exact hwork z hz hnew
  · intro hc
    exact hwork z hz (by simpa [Pending.merge, Pending.empty] using hc)

theorem Since.congr {t : Lane} {y : Handle} (hlineage : t.lineage = s.lineage)
    (h : Since s b y) :
    Since t b y := by
  unfold Since
  rwa [hlineage]

theorem Merges.mono {N N' : Handle -> Pending -> Prop} {work : Pending}
    (hN : forall y p, N y p -> N' y p) (h : Merges N s work) :
    Merges N' s work :=
  fun z hz => ⟨fun k hk => hN _ _ ((h z hz).1 k hk), hN _ _ (h z hz).2⟩

theorem Routed.step_call (hnumbered : Numbered s) (h : Routed c b s)
    (hs : s.step a = some s') :
    c ≠ s.callCount ∧ (s'.call c).stage ≠ CallStage.unused ∧
      (s'.call c).handle = (s.call c).handle ∧
      ((s'.call c).stage = CallStage.resolved ->
        (s.call c).stage = CallStage.resolved ∧
          (s'.call c).source = (s.call c).source) := by
  have hne : c ≠ s.callCount := by
    rintro rfl
    exact h.made (hnumbered.call s.callCount (Nat.le_refl _))
  rcases Persister.step_call hs c with hsame | ⟨-, -, hcall⟩ | ⟨hnew, -⟩ | ⟨hnew, -⟩
  · rw [hsame]
    exact ⟨hne, h.made, rfl, fun hstage => ⟨hstage, rfl⟩⟩
  · rw [hcall]
    exact ⟨hne, by simp [Lane.queuedCall], rfl, fun hstage => by cases hstage⟩
  · exact absurd hnew hne
  · exact absurd hnew hne

theorem Routed.step (hnumbered : Numbered s) (hqueues : Queues s)
    (hdir : Directory s) (hdir' : Directory s')
    (hsources : SourcesIn (fun x => s.alive x = true) s) (h : Routed c b s)
    (ha : MergesForward s a) (hs : s.step a = some s') :
    Routed c b s' := by
  have hsince : forall y, s.alive y = true -> Since s b y -> Since s' b y :=
    fun y halive hy => hy.step hdir hdir' hs halive
  rcases h.step_call hnumbered hs with ⟨hne, hmade, hhandle, hstage⟩
  refine ⟨hmade, by rw [hhandle]; exact h.handle, ?_, ?_⟩
  · intro hresolved
    rcases hstage hresolved with ⟨hresolved, hsource⟩
    rw [hsource]
    exact hsince _ (hsources.resolved c hresolved) (h.source hresolved)
  · have hold : QueuesIn (fun y p => c ∈ p.requests -> Since s' b y) s :=
      h.queues.mono hqueues hsources
        (fun y _ _ halive hy hc => hsince y halive (hy hc))
    have hmerges : forall work, SameHandles s s' -> Forward s work ->
        (forall z, work.source = some z -> c ∈ work.requests -> Since s b z) ->
        Merges (fun y p => c ∈ p.requests -> Since s' b y) s work := by
      intro work hsame hforward hwork
      exact (hforward.merges hqueues h.queues h.handle hwork).mono
        (fun _ _ hy hc => (hy hc).congr hsame.lineage)
    apply step_queuesIn hsources ?_ ?_ ?_ ?_ hold hs
    · intro k x y hstage hx hstand hc
      rcases h.queues.batch k x hstage hx hc with ⟨g, hg, hb⟩
      rcases superseded_since hg hstand hdir with ⟨halive, hy⟩
      exact hsince y halive (hy.mono (Nat.le_succ_of_le hb))
    · rintro n rfl
      refine hmerges _ (step_sameHandles hs (fun hmoves => hmoves)) ha ?_
      intro z hz hc
      have hcn : c = n := List.mem_singleton.mp hc
      subst hcn
      have hsource : (s.call c).source = z := Option.some.inj hz
      exact hsource ▸ h.source (guarded.mp hs).1
    · rintro d rfl
      refine hmerges _ (step_sameHandles hs (fun hmoves => by cases hmoves)) ha ?_
      exact fun z hz hc => h.queues.leftover d z hz hc
    · rintro k x rfl hk hx hc
      have hmem : c ∈ (s.pending k).requests := by
        simpa [Lane.waitQueued, Lane.setPending, hne] using hc
      exact hold.pending k x hx hmem

theorem enqueue_routed {x : Handle} {g : Nat} {updates : List ContextUpdate}
    {removed : List Uuid} {waits : Bool} (hnumbered : Numbered s)
    (hqueues : Queues s) (hdir : Directory s)
    (hg : s.lineage.generationOf x = some g)
    (hb : b ≤ g ∨ b = g + 1 ∧ s.standing x ≠ Standing.current)
    (hs : s.step (Action.enqueue x updates removed waits) = some s') :
    Routed s.callCount b s' := by
  have hlineage := (step_sameHandles hs (fun hmoves => hmoves)).lineage
  have htasks := step_sameTasks hs True.intro
  have hself : b ≤ g -> Since s b x := fun hle => ⟨g, hg, hle⟩
  have hnewest : forall y, s.standing x = Standing.superseded (some y) ->
      Since s b y := by
    intro y hstand
    refine (superseded_since hg hstand hdir).2.mono ?_
    rcases hb with hle | ⟨rfl, -⟩
    · exact Nat.le_succ_of_le hle
    · exact Nat.le_refl _
  have hcall : (s'.call s.callCount).stage ≠ CallStage.unused ∧
      (s'.call s.callCount).handle ≠ none ∧
      ((s'.call s.callCount).stage = CallStage.resolved ->
        Since s b (s'.call s.callCount).source) := by
    rcases guarded.mp hs with ⟨_, rfl⟩
    unfold Lane.enqueue
    rcases hstand : s.standing x with _ | ⟨_ | y⟩ | _ <;>
      simp only [Lane.addCall, Lane.emit, Function.update_self, ne_eq, reduceCtorEq,
        not_false_eq_true, true_and, false_implies, forall_const]
    · exact hself (hb.resolve_right fun hnot => hnot.2 hstand)
    · exact hnewest y hstand
  exact ⟨hcall.1, hcall.2.1, fun hstage => (hcall.2.2 hstage).congr hlineage,
    unmade_queuesIn hnumbered hqueues _ htasks⟩

/-- A request written through the queues it is merged forward into is written
through a handle that is alive and of the generation it was routed with. -/
theorem Routed.chosen (h : Routed c b s)
    (hsources : SourcesIn (fun x => s.alive x = true) s) {k : SlotId}
    (hstage : (s.drainer k).stage = DrainStage.ready ∨
      (s.drainer k).stage = DrainStage.writing)
    (hc : c ∈ (s.drainer k).batch.requests) :
    s.alive (s.drainer k).handle = true ∧ Since s b (s.drainer k).handle :=
  ⟨hsources.chosen k hstage, h.queues.chosen k hstage hc⟩

/-- `write_batch` judges a batch with a request of a superseded handle. -/
theorem Routed.resolve {x : Handle} {g : Nat} {k : SlotId} (h : Routed c g s)
    (hsources : SourcesIn (fun x => s.alive x = true) s) (hdir : Directory s)
    (hg : s.lineage.generationOf x = some g)
    (hcurrent : s.standing x ≠ Standing.current)
    (hdeleted : s.standing x ≠ Standing.deleted)
    (hc : c ∈ (s.drainer k).batch.requests)
    (hs : s.step (Action.drain k DrainAction.resolve) = some s') :
    (s'.drainer k).stage = DrainStage.finished ∨
      (s'.drainer k).stage = DrainStage.ready ∧
        s.alive (s'.drainer k).handle = true ∧
        Since s (g + 1) (s'.drainer k).handle := by
  rcases guarded.mp hs with ⟨hstage, rfl⟩
  have hself : (s.setDrainer k (s.resolveBatch k)).drainer k = s.resolveBatch k := by
    simp [Lane.setDrainer]
  rw [hself]
  rcases resolveBatch_cases s k with hskip | ⟨hready, y, hy, hcase⟩
  · exact Or.inl hskip
  · have hsource := h.queues.batch k y hstage hy hc
    refine Or.inr ⟨hready, ?_⟩
    rcases hcase with ⟨hstand, hhandle⟩ | hnewest
    · rw [hhandle]
      exact ⟨hsources.batch k y hstage hy,
        current_since hsource hg hstand hcurrent hdeleted⟩
    · rcases hsource with ⟨g', hg', hle⟩
      rcases superseded_since hg' hnewest hdir with ⟨halive, hsince⟩
      exact ⟨halive, hsince.mono (Nat.succ_le_succ hle)⟩

end Persister
end PostCortex
