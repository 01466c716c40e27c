import PostCortex.Persister.Queues

/-!
# Registered handles

The lineage of a session lists every registered handle that is alive, with
generations that grow in the order of registration.  A handle's incarnation is
the number of deletes before its registration, so a generation is below
`deleted_below` exactly when the incarnation is an earlier one.  From this the
answer of `standing` is read off.
-/

namespace PostCortex
namespace Persister

open PostCortex.Core
open Transition

def Known (s : Lane) (h : Handle) : Prop :=
  s.alive h = true ∧ s.incarnation h ≠ none

def Action.MovesHandles : Action -> Prop
  | Action.create => True
  | Action.register _ => True
  | Action.drop _ => True
  | Action.delete _ => True
  | Action.deletion _ a => a = DeleteAction.retire
  | _ => False

structure SameHandles (s s' : Lane) : Prop where
  alive : s'.alive = s.alive
  lineage : s'.lineage = s.lineage
  tombstones : s'.tombstones = s.tombstones
  incarnation : s'.incarnation = s.incarnation
  deletes : s'.deletes = s.deletes

variable {s s' : Lane}

theorem step_sameHandles {a : Action} (hs : s.step a = some s')
    (ha : ¬ a.MovesHandles) :
    SameHandles s s' := by
  cases a with
  | create | register _ | drop _ | delete _ =>
      exact absurd True.intro ha
  | commit x | flushForget f =>
      rcases guarded.mp hs with ⟨_, rfl⟩
      constructor <;> rfl
  | enqueue x updates removed waits =>
      rcases guarded.mp hs with ⟨_, rfl⟩
      rcases s.enqueue_eq x updates removed waits with ⟨c, events, heq⟩
      rw [heq]
      constructor <;> rfl
  | queue c =>
      rcases guarded.mp hs with ⟨_, rfl⟩
      rcases queue_eq s c with ⟨r, n, w, p, l, x, t, heq⟩
      rw [heq]
      constructor <;> rfl
  | waitQueued =>
      rcases waitQueued_cases hs with ⟨k, _, rfl⟩
      constructor <;> rfl
  | flushCollect =>
      rcases Option.map_eq_some_iff.mp hs with ⟨x, _, rfl⟩
      constructor <;> rfl
  | drain k a =>
      rcases drain_eq hs with ⟨f, r, w, p, l, x, t, rfl⟩
      constructor <;> rfl
  | deletion d a =>
      cases a with
      | retire => exact absurd rfl ha
      | lookup | begin | finish _ | unregister =>
          rcases guarded.mp hs with ⟨_, rfl⟩
          constructor <;> rfl
      | request | take | release =>
          rcases guardedSlot.mp hs with ⟨k, hslot, _, rfl⟩
          constructor <;> rfl
      | judge =>
          rcases guarded.mp hs with ⟨_, rfl⟩
          split <;> constructor <;> rfl
      | requeue =>
          rcases guarded.mp hs with ⟨_, rfl⟩
          rcases s.queueWork_eq (s.deletion d).leftover with
            ⟨r, n, w, p, l, x, heq⟩
          rw [heq]
          constructor <;> rfl
  | exclusive =>
      cases hs
      constructor <;> rfl
  | critical e a =>
      rcases criticalStep_eq hs with ⟨w, x, rfl, -⟩
      constructor <;> rfl

inductive HandleStep (s : Lane) : Action -> Lane -> Prop where
  | same {a : Action} {s' : Lane} :
      ¬ a.MovesHandles -> SameHandles s s' -> HandleStep s a s'
  | create : HandleStep s Action.create s.create
  | register {h : Handle} :
      s.incarnation h = none -> HandleStep s (Action.register h) (s.register h)
  | drop {h : Handle} :
      HandleStep s (Action.drop h) { s with alive := Function.update s.alive h false }
  | delete {live : Option Handle} :
      HandleStep s (Action.delete live) (s.delete live)
  | retire {d : Nat} (deletion : Nat -> Deletion) :
      HandleStep s (Action.deletion d DeleteAction.retire)
        { s with
          deletion := deletion
          lineage :=
            { s.lineage.prune s.alive with deletedBelow := s.lineage.next }
          deletes := s.deletes + 1 }

theorem step_handles {a : Action} (hs : s.step a = some s') : HandleStep s a s' := by
  by_cases ha : a.MovesHandles
  · cases a with
    | create =>
        cases hs
        exact HandleStep.create
    | register h =>
        rcases guarded.mp hs with ⟨⟨_, hnew⟩, rfl⟩
        exact HandleStep.register hnew
    | drop h =>
        rcases guarded.mp hs with ⟨_, rfl⟩
        exact HandleStep.drop
    | delete live =>
        rcases guarded.mp hs with ⟨_, rfl⟩
        exact HandleStep.delete
    | deletion d a =>
        have hretire : a = DeleteAction.retire := ha
        subst hretire
        rcases guarded.mp hs with ⟨_, rfl⟩
        exact HandleStep.retire _
    | commit _ | enqueue _ _ _ _ | queue _ | waitQueued | flushCollect
    | flushForget _ | drain _ _ | exclusive | critical _ _ =>
        cases ha
  · exact HandleStep.same ha (step_sameHandles hs ha)

structure Directory (s : Lane) : Prop where
  member : forall m, m ∈ s.lineage.members ->
    exists n, s.incarnation m.1 = some n ∧
      (m.2 < s.lineage.deletedBelow ↔ n < s.deletes)
  generation : forall m, m ∈ s.lineage.members -> m.2 < s.lineage.next
  distinct : forall m m', m ∈ s.lineage.members -> m' ∈ s.lineage.members ->
    m.1 = m'.1 ∨ m.2 = m'.2 -> m = m'
  enrolled : forall h, Known s h -> exists g, (h, g) ∈ s.lineage.members
  born : forall h n, s.incarnation h = some n -> n ≤ s.deletes
  below : s.lineage.deletedBelow ≤ s.lineage.next

theorem directory_empty : Directory Lane.empty := by
  constructor <;> simp [Lane.empty, Lineage.empty, Known]

theorem Directory.update (h : Directory s) (hlineage : s'.lineage = s.lineage)
    (halive : s'.alive = s.alive) (hincarnation : s'.incarnation = s.incarnation)
    (hdeletes : s'.deletes = s.deletes) :
    Directory s' := by
  rcases h with ⟨h1, h2, h3, h4, h5, h6⟩
  constructor <;>
    simp only [hlineage, halive, hincarnation, hdeletes, Known] <;> assumption

theorem create_directory (hnumbered : Numbered s) (h : Directory s) :
    Directory s.create := by
  have hnew := hnumbered.handle s.handleCount (Nat.le_refl _)
  rcases h with ⟨h1, h2, h3, h4, h5, h6⟩
  constructor <;> simp only [Lane.create, Known] at * <;> grind

variable {x : Handle} {m : Handle × Nat}

theorem mem_register_members :
    m ∈ (s.register x).lineage.members ↔
      (m ∈ s.lineage.members ∧ s.alive m.1 = true) ∨
        m = (x, s.lineage.next) := by
  simp [Lane.register, Lineage.prune]

theorem register_directory (h : Directory s) (hnew : s.incarnation x = none) :
    Directory (s.register x) := by
  rcases h with ⟨h1, h2, h3, h4, h5, h6⟩
  have hold : forall m, m ∈ s.lineage.members -> m.1 ≠ x := by
    intro m hm hx
    rcases h1 m hm with ⟨n, hn, -⟩
    rw [hx, hnew] at hn
    cases hn
  constructor
  · intro m hm
    rcases mem_register_members.mp hm with ⟨hm, -⟩ | rfl
    · rcases h1 m hm with ⟨n, hn, hbelow⟩
      exact ⟨n, by simpa [Lane.register, hold m hm] using hn, hbelow⟩
    · refine ⟨s.deletes, by simp [Lane.register], ?_⟩
      simpa [Lane.register, Lineage.prune] using h6
  · intro m hm
    rcases mem_register_members.mp hm with ⟨hm, -⟩ | rfl
    · exact Nat.lt_succ_of_lt (h2 m hm)
    · exact Nat.lt_succ_self _
  · intro m m' hm hm' hsame
    rcases mem_register_members.mp hm with ⟨hm, -⟩ | rfl <;>
      rcases mem_register_members.mp hm' with ⟨hm', -⟩ | rfl
    · exact h3 m m' hm hm' hsame
    · rcases hsame with hsame | hsame
      · exact absurd hsame (hold m hm)
      · exact absurd hsame (Nat.ne_of_lt (h2 m hm))
    · rcases hsame with hsame | hsame
      · exact absurd hsame.symm (hold m' hm')
      · exact absurd hsame.symm (Nat.ne_of_lt (h2 m' hm'))
    · rfl
  · rintro y ⟨halive, hy⟩
    by_cases hx : y = x
    · exact ⟨s.lineage.next, mem_register_members.mpr (Or.inr (by rw [hx]))⟩
    · have hinc : s.incarnation y ≠ none := by
        simpa [Lane.register, hx] using hy
      rcases h4 y ⟨halive, hinc⟩ with ⟨g, hg⟩
      exact ⟨g, mem_register_members.mpr (Or.inl ⟨hg, halive⟩)⟩
  · intro y n hn
    by_cases hx : y = x
    · have hn : s.deletes = n := by simpa [Lane.register, hx] using hn
      exact Nat.le_of_eq hn.symm
    · exact h5 y n (by simpa [Lane.register, hx] using hn)
  · exact Nat.le_succ_of_le h6

theorem retire_directory (h : Directory s) :
    Directory
      { s with
        lineage := { s.lineage.prune s.alive with deletedBelow := s.lineage.next }
        deletes := s.deletes + 1 } := by
  rcases h with ⟨h1, h2, h3, h4, h5, h6⟩
  constructor <;> simp only [Lineage.prune, Known] at * <;> grind

theorem drop_directory (h : Directory s) :
    Directory { s with alive := Function.update s.alive x false } := by
  rcases h with ⟨h1, h2, h3, h4, h5, h6⟩
  constructor <;> simp only [Known] at * <;> grind

theorem step_directory {a : Action} (hnumbered : Numbered s) (h : Directory s)
    (hs : s.step a = some s') :
    Directory s' := by
  cases step_handles hs with
  | same _ hsame =>
      exact h.update hsame.lineage hsame.alive hsame.incarnation hsame.deletes
  | create => exact create_directory hnumbered h
  | register hnew => exact register_directory h hnew
  | drop => exact drop_directory h
  | delete => exact h.update rfl rfl rfl rfl
  | retire _ => exact (retire_directory h).update rfl rfl rfl rfl

theorem directory {allowed : Lane -> Action -> Prop} (h : lane.Reachable allowed s) :
    Directory s :=
  h.invariant_of (P := Directory) (fun _ h => numbered h) directory_empty
    (fun _ _ _ hnumbered hdir _ hs => step_directory hnumbered hdir hs)

/-!
# The answers of `standing`
-/

def Newest (s : Lane) (h : Handle) : Prop :=
  Known s h ∧ exists g, (h, g) ∈ s.lineage.members ∧ g + 1 = s.lineage.next

theorem Directory.newest_unique (hdir : Directory s) {y : Handle} (hx : Newest s x)
    (hy : Newest s y) :
    x = y := by
  rcases hx with ⟨-, g, hx, hg⟩
  rcases hy with ⟨-, g', hy, hg'⟩
  have hsame : g = g' := Nat.succ.inj (hg.trans hg'.symm)
  have heq := hdir.distinct (x, g) (y, g') hx hy (Or.inr hsame)
  exact congrArg Prod.fst heq

variable {l : Lineage}

theorem Lineage.generationOf_mem {h : Handle} {g : Nat}
    (hg : l.generationOf h = some g) :
    (h, g) ∈ l.members := by
  rcases Option.map_eq_some_iff.mp hg with ⟨m, hm, rfl⟩
  have hfst : m.1 = h := by simpa using List.find?_some hm
  have hmem := List.mem_of_find?_eq_some hm
  rwa [← hfst]

theorem Lineage.generationOf_none {h : Handle} (hg : l.generationOf h = none)
    (g : Nat) :
    (h, g) ∉ l.members := by
  intro hmem
  have hnone := List.find?_eq_none.mp (Option.map_eq_none_iff.mp hg) _ hmem
  simp at hnone

variable {alive : Handle -> Bool}

theorem Lineage.newestAlive_some (hm : l.newestAlive alive = some m) :
    m ∈ l.members ∧ alive m.1 = true ∧
      forall m', m' ∈ l.members -> alive m'.1 = true -> m'.2 ≤ m.2 := by
  have hmem := List.argmax_mem (Option.mem_def.mpr hm)
  rcases List.mem_filter.mp hmem with ⟨hmember, halive⟩
  refine ⟨hmember, halive, ?_⟩
  intro m' hm' halive'
  exact List.le_of_mem_argmax (List.mem_filter.mpr ⟨hm', halive'⟩)
    (Option.mem_def.mpr hm)

theorem Lineage.newestAlive_none (hm : l.newestAlive alive = none)
    (hmem : m ∈ l.members) :
    alive m.1 = false := by
  have hnil := List.argmax_eq_none.mp hm
  have hnot := List.filter_eq_nil_iff.mp hnil m hmem
  simpa using hnot

theorem standing_known (hdir : Directory s) (hx : Known s x) :
    exists g n, (x, g) ∈ s.lineage.members ∧ s.incarnation x = some n ∧
      n ≤ s.deletes ∧ (g < s.lineage.deletedBelow ↔ n < s.deletes) ∧
      s.standing x =
        if x ∈ s.tombstones then Standing.deleted
        else if g < s.lineage.deletedBelow then Standing.deleted
        else if g + 1 = s.lineage.next then Standing.current
        else
          Standing.superseded
            (((s.lineage.newestAlive s.alive).filter
              (fun m => decide (g < m.2))).map Prod.fst) := by
  cases hg : s.lineage.generationOf x with
  | none =>
      rcases hdir.enrolled x hx with ⟨g, hmem⟩
      exact absurd hmem (Lineage.generationOf_none hg g)
  | some g =>
      have hmem := Lineage.generationOf_mem hg
      rcases hdir.member _ hmem with ⟨n, hn, hbelow⟩
      refine ⟨g, n, hmem, hn, hdir.born x n hn, hbelow, ?_⟩
      unfold Lane.standing
      rw [hg]

theorem standing_current (hdir : Directory s) (hx : Known s x)
    (hstand : s.standing x = Standing.current) :
    Newest s x ∧ s.incarnation x = some s.deletes ∧ x ∉ s.tombstones := by
  rcases standing_known hdir hx with ⟨g, n, hmem, hn, hle, hbelow, heq⟩
  rw [hstand] at heq
  have hnot : x ∉ s.tombstones := by grind
  have hnext : g + 1 = s.lineage.next := by grind
  have hsame : n = s.deletes := by grind
  exact ⟨⟨hx, g, hmem, hnext⟩, hsame ▸ hn, hnot⟩

theorem standing_current_of (hdir : Directory s) (hx : Newest s x)
    (hborn : s.incarnation x = some s.deletes) (hnot : x ∉ s.tombstones) :
    s.standing x = Standing.current := by
  rcases hx with ⟨hknown, g', hmem', hnext⟩
  rcases standing_known hdir hknown with ⟨g, n, hmem, hn, hle, hbelow, heq⟩
  have hsame : n = s.deletes := Option.some.inj (hn.symm.trans hborn)
  have hgen : g = g' :=
    congrArg Prod.snd (hdir.distinct (x, g) (x, g') hmem hmem' (Or.inl rfl))
  rw [heq]
  grind

theorem standing_not_deleted (hdir : Directory s) (hx : Known s x)
    (hstand : s.standing x ≠ Standing.deleted) :
    s.incarnation x = some s.deletes ∧ x ∉ s.tombstones := by
  rcases standing_known hdir hx with ⟨g, n, hmem, hn, hle, hbelow, heq⟩
  rw [heq] at hstand
  have hnot : x ∉ s.tombstones := by grind
  have hsame : n = s.deletes := by grind
  exact ⟨hsame ▸ hn, hnot⟩

theorem standing_superseded_some (hdir : Directory s) {y : Handle} (hx : Known s x)
    (hstand : s.standing x = Standing.superseded (some y)) :
    Known s y ∧ s.incarnation y = some s.deletes ∧
      forall z, Newest s z -> y = z := by
  rcases standing_known hdir hx with ⟨g, n, hmem, hn, hle, hbelow, heq⟩
  rw [hstand] at heq
  have hfound : some y = ((s.lineage.newestAlive s.alive).filter
      (fun m => decide (g < m.2))).map Prod.fst := by
    grind
  rcases Option.map_eq_some_iff.mp hfound.symm with ⟨m, hm, rfl⟩
  rcases Option.filter_eq_some_iff.mp hm with ⟨hm, hlt⟩
  rcases Lineage.newestAlive_some hm with ⟨hmember, halive, hmax⟩
  rcases hdir.member m hmember with ⟨n', hn', hbelow'⟩
  have hle' := hdir.born m.1 n' hn'
  have hknown : Known s m.1 := ⟨halive, by simp [hn']⟩
  have hsame : n' = s.deletes := by grind
  refine ⟨hknown, hsame ▸ hn', ?_⟩
  rintro z ⟨hz, g', hzmem, hg'⟩
  have hge := hmax (z, g') hzmem hz.1
  have hlt' := hdir.generation m hmember
  have hgen : m.2 = g' := by grind
  exact congrArg Prod.fst (hdir.distinct m (z, g') hmember hzmem (Or.inr hgen))

theorem standing_superseded_none (hdir : Directory s) (hx : Known s x)
    (hstand : s.standing x = Standing.superseded none) (z : Handle) :
    ¬ Newest s z := by
  rintro ⟨hz, g', hzmem, hg'⟩
  rcases standing_known hdir hx with ⟨g, n, hmem, hn, hle, hbelow, heq⟩
  rw [hstand] at heq
  have hnext : g + 1 ≠ s.lineage.next := by grind
  have hlost : ((s.lineage.newestAlive s.alive).filter
      (fun m => decide (g < m.2))).map Prod.fst = none := by
    grind
  have hfilter := Option.map_eq_none_iff.mp hlost
  cases hm : s.lineage.newestAlive s.alive with
  | none =>
      have hdead := Lineage.newestAlive_none hm hzmem
      rw [hz.1] at hdead
      cases hdead
  | some m =>
      rcases Lineage.newestAlive_some hm with ⟨hmember, halive, hmax⟩
      have hge := hmax (z, g') hzmem hz.1
      have hgen := hdir.generation (x, g) hmem
      have hlt : g < m.2 := by grind
      have hnotlt : m.2 ≤ g := by simpa [hm] using hfilter
      exact absurd hlt (Nat.not_lt.mpr hnotlt)

/-- A handle of the current incarnation that no delete has marked is not
reported as deleted. -/
theorem standing_of_incarnation (hdir : Directory s) (hx : Known s x)
    (hinc : s.incarnation x = some s.deletes) (hnot : x ∉ s.tombstones) :
    s.standing x ≠ Standing.deleted := by
  rcases standing_known hdir hx with ⟨g, n, hmem, hn, hle, hbelow, heq⟩
  have hsame : n = s.deletes := Option.some.inj (hn.symm.trans hinc)
  rw [heq]
  grind

end Persister
end PostCortex
