import Mathlib.Logic.Function.Basic
import PostCortex.Transition.Calls
import PostCortex.Transition.System

/-!
# The pipeline

`pipeline.rs` with its three queues: a submit sends its item and then raises the
backlog, a worker receives an item, processes it and then lowers the backlog.  A
state also counts how often the backlog was raised and lowered, for the statements
alone.
-/

namespace PostCortex
namespace Memory
namespace Pipeline

open Transition

inductive QueueName where
  | embedding
  | graph
  | summary
  deriving DecidableEq, Repr

def maxPermits : Nat :=
  2305843009213693951

/-- A channel is not made with another capacity. -/
structure PipelineConfig where
  capacity : QueueName -> Nat
  positive : forall q, 0 < capacity q
  permitted : forall q, capacity q ≤ maxPermits

inductive PipelineError where
  | backpressure (queue : QueueName)
  deriving DecidableEq, Repr

variable {item : Type}

/-!
# Steps
-/

inductive Worker (item : Type) where
  | receiving
  | processing (x : item)
  | lowering (x : item)
  deriving DecidableEq

inductive Submit (item : Type) where
  | sending (q : QueueName) (x : item)
  | raising (q : QueueName)
  | returned (result : Except PipelineError Unit)

structure State (item : Type) where
  waiting : QueueName -> List item
  workers : QueueName -> Worker item
  submits : List (Submit item)
  backlog : UInt64
  raised : Nat
  lowered : Nat

inductive Action (item : Type) where
  | submit (q : QueueName) (x : item)
  | advance (i : Nat)
  | work (q : QueueName)

def advanceSubmit (config : PipelineConfig) (s : State item) (i : Nat) :
    Submit item -> Option (State item)
  | Submit.sending q x =>
      if (s.waiting q).length < config.capacity q then
        some { s with
          waiting := Function.update s.waiting q (s.waiting q ++ [x])
          submits := s.submits.set i (Submit.raising q) }
      else
        some { s with
          submits := s.submits.set i
            (Submit.returned (Except.error (PipelineError.backpressure q))) }
  | Submit.raising _ =>
      some { s with
        submits := s.submits.set i (Submit.returned (Except.ok ()))
        backlog := s.backlog + 1
        raised := s.raised + 1 }
  | Submit.returned _ => none

def advanceWorker (s : State item) (q : QueueName) : Worker item -> Option (State item)
  | Worker.receiving =>
      match s.waiting q with
      | [] => none
      | x :: rest =>
          some { s with
            waiting := Function.update s.waiting q rest
            workers := Function.update s.workers q (Worker.processing x) }
  | Worker.processing x =>
      some { s with workers := Function.update s.workers q (Worker.lowering x) }
  | Worker.lowering _ =>
      some { s with
        workers := Function.update s.workers q Worker.receiving
        backlog := s.backlog - 1
        lowered := s.lowered + 1 }

def step (config : PipelineConfig) (s : State item) : Action item -> Option (State item)
  | Action.submit q x => some { s with submits := s.submits ++ [Submit.sending q x] }
  | Action.advance i => s.submits[i]?.bind (advanceSubmit config s i)
  | Action.work q => advanceWorker s q (s.workers q)

def start : State item where
  waiting := fun _ => []
  workers := fun _ => Worker.receiving
  submits := []
  backlog := 0
  raised := 0
  lowered := 0

def pipeline (config : PipelineConfig) : System (State item) (Action item) where
  init := start
  step := step config

/-!
# What the backlog should be
-/

def Worker.busy : Worker item -> Nat
  | receiving => 0
  | processing _ => 1
  | lowering _ => 1

def State.pending (s : State item) (q : QueueName) : Nat :=
  (s.waiting q).length + (s.workers q).busy

def total (f : QueueName -> Nat) : Nat :=
  f QueueName.embedding + f QueueName.graph + f QueueName.summary

def State.unfinished (s : State item) : Nat :=
  total s.pending

def Submit.isRaising : Submit item -> Bool
  | raising _ => true
  | _ => false

def Submit.isReturned : Submit item -> Bool
  | returned _ => true
  | _ => false

def State.unannounced (s : State item) : Nat :=
  s.submits.countP Submit.isRaising

def State.submitting (s : State item) : Nat :=
  s.submits.countP (fun c => !c.isReturned)

/-- The backlog is the number of times it was raised less the number of times it was
lowered, and at most the items that are not processed and those being submitted. -/
structure Accurate (s : State item) : Prop where
  exact : (s.backlog.toNat : Int) = s.raised - s.lowered
  bounded : s.backlog.toNat ≤ s.unfinished + s.submitting

/-- A worker lowers the backlog while more items are not processed than submits have
yet to raise it. -/
def Timely (s : State item) : Action item -> Prop
  | Action.work q =>
      forall x, s.workers q = Worker.lowering x -> s.unannounced < s.unfinished
  | _ => True

/-!
# One step
-/

/-- The queues are not over their capacity, and the backlog wraps as the difference
of what raised and what lowered it does. -/
structure Balanced (config : PipelineConfig) (s : State item) : Prop where
  room : forall q, (s.waiting q).length ≤ config.capacity q
  backlog : s.backlog + UInt64.ofNat s.lowered = UInt64.ofNat s.raised
  raised : s.raised + s.unannounced = s.lowered + s.unfinished

theorem total_update (f : QueueName -> Nat) (q : QueueName) (n : Nat) :
    total (Function.update f q n) + f q = total f + n := by
  cases q <;> simp [total] <;> omega

theorem pending_sent (s : State item) (q : QueueName) (x : item)
    (submits : List (Submit item)) :
    State.pending
      { s with
        waiting := Function.update s.waiting q (s.waiting q ++ [x])
        submits := submits } =
      Function.update s.pending q (s.pending q + 1) := by
  funext q'
  unfold State.pending
  by_cases hq : q' = q
  · subst hq
    simp only [Function.update_self, List.length_append, List.length_singleton]
    omega
  · simp only [Function.update_of_ne hq]

theorem pending_worked (s : State item) (q : QueueName) (xs : List item)
    (w : Worker item) (backlog : UInt64) (lowered : Nat) :
    State.pending
      { s with
        waiting := Function.update s.waiting q xs
        workers := Function.update s.workers q w
        backlog := backlog
        lowered := lowered } =
      Function.update s.pending q (xs.length + w.busy) := by
  funext q'
  unfold State.pending
  by_cases hq : q' = q
  · subst hq
    simp only [Function.update_self]
  · simp only [Function.update_of_ne hq]

theorem ofNat_succ (n : Nat) : UInt64.ofNat (n + 1) = UInt64.ofNat n + 1 := by
  simp

variable {config : PipelineConfig} {s s' : State item} {c : Submit item}

theorem Balanced.submit (h : Balanced config s) {i : Nat}
    (hi : s.submits[i]? = some c) (hstep : advanceSubmit config s i c = some s') :
    Balanced config s' := by
  have hcount := countP_set_add (p := Submit.isRaising) hi
  have hraised := h.raised
  unfold State.unannounced State.unfinished at hraised
  cases c with
  | sending q x =>
      rw [advanceSubmit] at hstep
      split at hstep
      · next hroom =>
        cases hstep
        constructor
        · intro q'
          by_cases hq : q' = q
          · subst hq
            simp only [Function.update_self, List.length_append, List.length_singleton]
            exact hroom
          · simp only [Function.update_of_ne hq]
            exact h.room q'
        · exact h.backlog
        · have hset := hcount (Submit.raising q)
          have htotal := total_update s.pending q (s.pending q + 1)
          unfold State.unannounced State.unfinished
          rw [pending_sent]
          simp [Submit.isRaising] at hset
          dsimp only
          omega
      · cases hstep
        constructor
        · exact h.room
        · exact h.backlog
        · have hset := hcount (Submit.returned (Except.error
            (PipelineError.backpressure q)))
          simp [Submit.isRaising] at hset
          show s.raised + List.countP Submit.isRaising
            (s.submits.set i (Submit.returned (Except.error
              (PipelineError.backpressure q)))) = s.lowered + total s.pending
          omega
  | raising q =>
      cases hstep
      constructor
      · exact h.room
      · show s.backlog + 1 + UInt64.ofNat s.lowered = UInt64.ofNat (s.raised + 1)
        rw [ofNat_succ, ← h.backlog, UInt64.add_assoc, UInt64.add_assoc,
          UInt64.add_comm 1]
      · have hset := hcount (Submit.returned (Except.ok ()))
        simp [Submit.isRaising] at hset
        show s.raised + 1 + List.countP Submit.isRaising
          (s.submits.set i (Submit.returned (Except.ok ()))) =
            s.lowered + total s.pending
        omega
  | returned result => cases hstep

theorem Balanced.work (h : Balanced config s) {q : QueueName}
    (hstep : advanceWorker s q (s.workers q) = some s') :
    Balanced config s' := by
  have hraised := h.raised
  unfold State.unannounced State.unfinished at hraised
  cases hworker : s.workers q with
  | receiving =>
      rw [hworker, advanceWorker] at hstep
      cases hwaiting : s.waiting q with
      | nil =>
          rw [hwaiting] at hstep
          cases hstep
      | cons x rest =>
          rw [hwaiting] at hstep
          cases hstep
          constructor
          · intro q'
            have hroom := h.room q
            rw [hwaiting, List.length_cons] at hroom
            by_cases hq : q' = q
            · subst hq
              simp only [Function.update_self]
              omega
            · simp only [Function.update_of_ne hq]
              exact h.room q'
          · exact h.backlog
          · have hpending : s.pending q = rest.length + 1 := by
              rw [State.pending, hwaiting, hworker]
              rfl
            have htotal := total_update s.pending q (rest.length + 1)
            unfold State.unannounced State.unfinished
            rw [pending_worked s q rest (Worker.processing x) s.backlog s.lowered]
            simp only [Worker.busy]
            omega
  | processing x =>
      rw [hworker] at hstep
      cases hstep
      constructor
      · exact h.room
      · exact h.backlog
      · have hpending : s.pending q = (s.waiting q).length + 1 := by
          rw [State.pending, hworker]
          rfl
        have htotal := total_update s.pending q ((s.waiting q).length + 1)
        have hworked := pending_worked s q (s.waiting q) (Worker.lowering x) s.backlog
          s.lowered
        rw [Function.update_eq_self] at hworked
        unfold State.unannounced State.unfinished
        rw [hworked]
        simp only [Worker.busy]
        omega
  | lowering x =>
      rw [hworker] at hstep
      cases hstep
      constructor
      · exact h.room
      · show s.backlog - 1 + UInt64.ofNat (s.lowered + 1) = UInt64.ofNat s.raised
        rw [ofNat_succ, ← h.backlog, UInt64.add_comm _ 1, ← UInt64.add_assoc,
          UInt64.sub_add_cancel]
      · have hpending : s.pending q = (s.waiting q).length + 1 := by
          rw [State.pending, hworker]
          rfl
        have htotal := total_update s.pending q (s.waiting q).length
        have hworked := pending_worked s q (s.waiting q) Worker.receiving
          (s.backlog - 1) (s.lowered + 1)
        rw [Function.update_eq_self] at hworked
        unfold State.unannounced State.unfinished
        rw [hworked]
        simp only [Worker.busy, Nat.add_zero]
        omega

theorem Balanced.step {config : PipelineConfig} {s s' : State item} {a : Action item}
    (h : Balanced config s) (hstep : step config s a = some s') :
    Balanced config s' := by
  cases a with
  | submit q x =>
      cases hstep
      constructor
      · exact h.room
      · exact h.backlog
      · have hraised := h.raised
        unfold State.unannounced State.unfinished at hraised ⊢
        show s.raised + List.countP Submit.isRaising (s.submits ++ [_]) =
          s.lowered + total s.pending
        rw [List.countP_append]
        exact hraised
  | advance i =>
      obtain ⟨c, hi, hnext⟩ := Option.bind_eq_some_iff.mp hstep
      exact h.submit hi hnext
  | work q =>
      exact h.work hstep

theorem balanced_of_reachable {allowed : State item -> Action item -> Prop}
    (h : (pipeline config).Reachable allowed s) :
    Balanced config s := by
  refine h.invariant ?_ (fun _ _ _ hs _ hstep => hs.step hstep)
  exact ⟨fun _ => Nat.zero_le _, rfl, rfl⟩

/-!
# The value of the backlog
-/

theorem raising_le_submitting (s : State item) : s.unannounced ≤ s.submitting := by
  apply List.countP_mono_left
  intro c _ hc
  cases c with
  | raising q => rfl
  | sending q x | returned result => cases hc

theorem Balanced.unfinished_le (h : Balanced config s) :
    s.unfinished < 18446744073709551616 := by
  have hpending : forall q, s.pending q ≤ maxPermits + 1 := by
    intro q
    have hroom := Nat.le_trans (h.room q) (config.permitted q)
    have hbusy : (s.workers q).busy ≤ 1 := by
      cases s.workers q <;> simp [Worker.busy]
    exact Nat.add_le_add hroom hbusy
  have hembedding := hpending QueueName.embedding
  have hgraph := hpending QueueName.graph
  have hsummary := hpending QueueName.summary
  unfold State.unfinished total
  unfold maxPermits at hembedding hgraph hsummary
  omega

/-- Whatever the run, the backlog is accurate as long as the items that are not
processed are at least the submits that have yet to raise it. -/
theorem Balanced.accurate_iff (h : Balanced config s) :
    Accurate s ↔ s.unannounced ≤ s.unfinished := by
  have hraised := h.raised
  have hlimit := h.unfinished_le
  constructor
  · intro haccurate
    have hexact := haccurate.exact
    omega
  · intro hle
    have hvalue : s.backlog.toNat = s.raised - s.lowered := by
      have hbacklog := congrArg UInt64.toNat h.backlog
      simp only [UInt64.toNat_add, UInt64.toNat_ofNat'] at hbacklog
      have hlt := s.backlog.toNat_lt
      omega
    refine ⟨?_, ?_⟩
    · omega
    · omega

/-- Whatever the run, once all submits have returned and all items are processed the
backlog is zero. -/
theorem Balanced.backlog_zero (h : Balanced config s) (hsubmits : s.submitting = 0)
    (hitems : s.unfinished = 0) :
    s.backlog = 0 := by
  have hraising := raising_le_submitting s
  have haccurate := h.accurate_iff.mpr (by omega)
  have hbounded := haccurate.bounded
  rw [hsubmits, hitems] at hbounded
  exact UInt64.toNat_inj.mp (Nat.le_zero.mp hbounded)

theorem advanceSubmit_counts {i : Nat} (h : advanceSubmit config s i c = some s') :
    s'.lowered = s.lowered ∧ s.raised ≤ s'.raised := by
  cases c with
  | sending q x =>
      rw [advanceSubmit] at h
      split at h <;> cases h <;> exact ⟨rfl, Nat.le_refl _⟩
  | raising q =>
      cases h
      exact ⟨rfl, Nat.le_succ _⟩
  | returned result => cases h

theorem lowered_step {a : Action item} (h : Balanced config s)
    (hle : s.lowered ≤ s.raised) (htimely : Timely s a)
    (hstep : step config s a = some s') :
    s'.lowered ≤ s'.raised := by
  cases a with
  | submit q x =>
      cases hstep
      exact hle
  | advance i =>
      obtain ⟨c, _, hnext⟩ := Option.bind_eq_some_iff.mp hstep
      obtain ⟨hlowered, hraised⟩ := advanceSubmit_counts hnext
      rw [hlowered]
      exact Nat.le_trans hle hraised
  | work q =>
      have hwork : advanceWorker s q (s.workers q) = some s' := hstep
      cases hworker : s.workers q with
      | receiving =>
          rw [hworker, advanceWorker] at hwork
          cases hwaiting : s.waiting q with
          | nil =>
              rw [hwaiting] at hwork
              cases hwork
          | cons x rest =>
              rw [hwaiting] at hwork
              cases hwork
              exact hle
      | processing x =>
          rw [hworker] at hwork
          cases hwork
          exact hle
      | lowering x =>
          rw [hworker] at hwork
          cases hwork
          have hroom := htimely x hworker
          have hraised := h.raised
          show s.lowered + 1 ≤ s.raised
          omega

/-- In a timely run the backlog is accurate, and zero once all submits have returned
and all items are processed. -/
theorem backlog_accurate {config : PipelineConfig} {s : State item}
    (h : (pipeline config).Reachable Timely s) :
    Accurate s ∧ (s.submitting = 0 -> s.unfinished = 0 -> s.backlog = 0) := by
  have hbalanced := balanced_of_reachable h
  have hinit : (pipeline config).Reachable Timely (start : State item) :=
    System.Reachable.init
  have hstart := balanced_of_reachable hinit
  have hle : Balanced config s ∧ s.lowered ≤ s.raised := by
    refine h.invariant (P := fun t => Balanced config t ∧ t.lowered ≤ t.raised)
      ⟨hstart, Nat.le_refl 0⟩ ?_
    intro t a t' ht htimely hstep
    exact ⟨ht.1.step hstep, lowered_step ht.1 ht.2 htimely hstep⟩
  have hraised := hbalanced.raised
  refine ⟨hbalanced.accurate_iff.mpr (by omega), hbalanced.backlog_zero⟩

def oneEach : PipelineConfig where
  capacity := fun _ => 1
  positive := fun _ => Nat.one_pos
  permitted := fun _ => by decide

instance (s : State item) : (a : Action item) -> Decidable (Timely s a)
  | Action.submit _ _ => isTrue True.intro
  | Action.advance _ => isTrue True.intro
  | Action.work q =>
      match hworker : s.workers q with
      | Worker.lowering x =>
          if hlt : s.unannounced < s.unfinished then isTrue (fun _ _ => hlt)
          else isFalse (fun htimely => hlt (htimely x hworker))
      | Worker.receiving | Worker.processing _ =>
          isTrue (by
            intro x hx
            rw [hworker] at hx
            cases hx)

/-- The worker lowers the backlog for the first item before the second submit has
raised it. -/
def loweredRun : List (Action Nat) :=
  [Action.submit QueueName.graph 7, Action.advance 0, Action.work QueueName.graph,
    Action.submit QueueName.graph 8, Action.advance 1, Action.advance 0,
    Action.work QueueName.graph, Action.work QueueName.graph, Action.advance 1]

def drainedRun : List (Action Nat) :=
  loweredRun ++ [Action.work QueueName.graph, Action.work QueueName.graph,
    Action.work QueueName.graph]

theorem backlog_accurate_lowered :
    (exists s : State Nat, (pipeline oneEach).Reachable Timely s ∧
      s.raised = 2 ∧ s.lowered = 1 ∧ Accurate s) ∧
    exists s : State Nat, (pipeline oneEach).Reachable Timely s ∧
      s.lowered = 2 ∧ s.backlog = 0 := by
  constructor
  · obtain ⟨s, -, hreach, hraised, hlowered⟩ :=
      (pipeline oneEach).replay_reaches Timely loweredRun
        (fun s => s.raised = 2 ∧ s.lowered = 1) (by decide +kernel)
    exact ⟨s, hreach, hraised, hlowered, (backlog_accurate hreach).1⟩
  · obtain ⟨s, -, hreach, hlowered, hsubmits, hitems⟩ :=
      (pipeline oneEach).replay_reaches Timely drainedRun
        (fun s => s.lowered = 2 ∧ s.submitting = 0 ∧ s.unfinished = 0)
        (by decide +kernel)
    exact ⟨s, hreach, hlowered, (backlog_accurate hreach).2 hsubmits hitems⟩

def overtakenSubmit : List (Action Nat) :=
  [Action.submit QueueName.graph 7, Action.advance 0, Action.work QueueName.graph,
    Action.work QueueName.graph, Action.work QueueName.graph]

theorem backlog_wraps :
    ¬ forall s : State Nat, (pipeline oneEach).Reachable System.Anything s ->
      Accurate s := by
  intro hall
  obtain ⟨s, -, hreach, hwrapped⟩ :=
    (pipeline oneEach).replay_reaches System.Anything overtakenSubmit
      (fun s => ¬ s.backlog.toNat ≤ s.unfinished + s.submitting) (by decide +kernel)
  exact hwrapped (hall s hreach).bounded

end Pipeline
end Memory
end PostCortex
