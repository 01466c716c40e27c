import PostCortex.Transition.Calls
import PostCortex.Transition.System

/-!
# The circuit breaker

`memory_system/circuit_breaker.rs`: every load, store and addition of a call is a
step, and any number of calls run at once.  A state also counts the failures that
were recorded and the resets of the failure count, for the statements alone.
-/

namespace PostCortex
namespace Memory
namespace Breaking

open Transition

structure CircuitBreaker where
  isOpen : Bool
  failureCount : UInt64
  lastFailureTimestamp : UInt64
  successCount : UInt64
  lastSuccessTimestamp : UInt64
  failureThreshold : UInt64
  timeoutSeconds : UInt64
  deriving DecidableEq

def CircuitBreaker.new (failureThreshold timeoutSeconds : UInt64) : CircuitBreaker where
  isOpen := false
  failureCount := 0
  lastFailureTimestamp := 0
  successCount := 0
  lastSuccessTimestamp := 0
  failureThreshold := failureThreshold
  timeoutSeconds := timeoutSeconds

def saturatingSub (a b : UInt64) : UInt64 :=
  if a < b then 0 else a - b

/-!
# Calls
-/

/-- The next step of a call.  What a call has counted comes with the number of
resets before. -/
inductive Stage where
  | loadOpen
  | loadLastFailure (now : UInt64)
  | storeClosed
  | storeZero
  | answered (isOpen : Bool)
  | countFailure (now : UInt64)
  | stampFailure (now failures : UInt64) (resets : Nat)
  | storeOpen (failures : UInt64) (resets : Nat)
  | countSuccess (now : UInt64)
  | stampSuccess (now : UInt64)
  | loadFailures
  | dropFailure
  | returned
  deriving DecidableEq

structure Shared where
  breaker : CircuitBreaker
  recorded : Nat
  sinceReset : Nat
  resets : Nat
  deriving DecidableEq

def advance (now : UInt64) (s : Shared) : Stage -> Option (Shared × Stage)
  | Stage.loadOpen =>
      if s.breaker.isOpen then some (s, Stage.loadLastFailure now)
      else some (s, Stage.answered false)
  | Stage.loadLastFailure now =>
      if s.breaker.timeoutSeconds <
          saturatingSub now s.breaker.lastFailureTimestamp then
        some (s, Stage.storeClosed)
      else some (s, Stage.answered true)
  | Stage.storeClosed =>
      some ({ s with breaker := { s.breaker with isOpen := false } }, Stage.storeZero)
  | Stage.storeZero =>
      some ({ s with
        breaker := { s.breaker with failureCount := 0 }
        sinceReset := 0
        resets := s.resets + 1 }, Stage.answered false)
  | Stage.countFailure now =>
      some ({ s with
        breaker := { s.breaker with failureCount := s.breaker.failureCount + 1 }
        recorded := s.recorded + 1
        sinceReset := s.sinceReset + 1 },
        Stage.stampFailure now (s.breaker.failureCount + 1) s.resets)
  | Stage.stampFailure now failures resets =>
      some ({ s with breaker := { s.breaker with lastFailureTimestamp := now } },
        if s.breaker.failureThreshold ≤ failures then Stage.storeOpen failures resets
        else Stage.returned)
  | Stage.storeOpen _ _ =>
      some ({ s with breaker := { s.breaker with isOpen := true } }, Stage.returned)
  | Stage.countSuccess now =>
      some ({ s with
        breaker := { s.breaker with successCount := s.breaker.successCount + 1 } },
        Stage.stampSuccess now)
  | Stage.stampSuccess now =>
      some ({ s with breaker := { s.breaker with lastSuccessTimestamp := now } },
        Stage.loadFailures)
  | Stage.loadFailures =>
      some (s, if 0 < s.breaker.failureCount then Stage.dropFailure
        else Stage.returned)
  | Stage.dropFailure =>
      some ({ s with
        breaker := { s.breaker with failureCount := s.breaker.failureCount - 1 } },
        Stage.returned)
  | Stage.answered _ => none
  | Stage.returned => none

/-- Calls are numbered in the order they arrive. -/
structure State where
  shared : Shared
  calls : List Stage
  deriving DecidableEq

inductive Action where
  | isOpen
  | recordFailure (now : UInt64)
  | recordSuccess (now : UInt64)
  | advance (i : Nat) (now : UInt64)

def step (s : State) : Action -> Option State
  | Action.isOpen => some { s with calls := s.calls ++ [Stage.loadOpen] }
  | Action.recordFailure now =>
      some { s with calls := s.calls ++ [Stage.countFailure now] }
  | Action.recordSuccess now =>
      some { s with calls := s.calls ++ [Stage.countSuccess now] }
  | Action.advance i now =>
      s.calls[i]?.bind (fun stage =>
        (advance now s.shared stage).map (fun r => ⟨r.1, s.calls.set i r.2⟩))

def circuitBreaker (failureThreshold timeoutSeconds : UInt64) :
    System State Action where
  init := ⟨⟨CircuitBreaker.new failureThreshold timeoutSeconds, 0, 0, 0⟩, []⟩
  step := step

/-!
# One step
-/

/-- A success is taken from a count that is not zero now, and the breaker is opened
while the failures that a call counted are not reset. -/
def Timely (s : State) : Action -> Prop
  | Action.advance i _ =>
      forall stage, s.calls[i]? = some stage ->
        (stage = Stage.dropFailure -> 0 < s.shared.breaker.failureCount) ∧
          forall failures resets, stage = Stage.storeOpen failures resets ->
            resets = s.shared.resets
  | _ => True

variable {s : State} {stage : Stage}

theorem timely_advance {i : Nat} (hi : s.calls[i]? = some stage)
    (hdrop : stage ≠ Stage.dropFailure)
    (hopen : forall failures resets, stage = Stage.storeOpen failures resets ->
      resets = s.shared.resets) (now : UInt64) :
    Timely s (Action.advance i now) := by
  intro other hother
  rw [hi] at hother
  cases hother
  exact ⟨fun heq => absurd heq hdrop, hopen⟩

/-- What a call has counted was recorded since the last reset, unless there was one
after it; a call that will open the breaker has counted enough. -/
def Accounted (s : Shared) : Stage -> Prop
  | Stage.stampFailure _ failures resets =>
      resets ≤ s.resets ∧ (resets = s.resets -> failures.toNat ≤ s.sinceReset)
  | Stage.storeOpen failures resets =>
      resets ≤ s.resets ∧ (resets = s.resets -> failures.toNat ≤ s.sinceReset) ∧
        s.breaker.failureThreshold ≤ failures
  | _ => True

structure Counted (failureThreshold : UInt64) (s : State) : Prop where
  threshold : s.shared.breaker.failureThreshold = failureThreshold
  count : s.shared.breaker.failureCount.toNat ≤ s.shared.sinceReset
  recorded : s.shared.sinceReset ≤ s.shared.recorded
  calls : forall stage, stage ∈ s.calls -> Accounted s.shared stage

structure Later (s s' : Shared) : Prop where
  threshold : s'.breaker.failureThreshold = s.breaker.failureThreshold
  resets : s.resets ≤ s'.resets
  sinceReset : s'.resets = s.resets -> s.sinceReset ≤ s'.sinceReset

variable {s' : Shared}

theorem Accounted.later {s : Shared} (h : Accounted s stage) (hlater : Later s s') :
    Accounted s' stage := by
  cases stage with
  | stampFailure now failures resets =>
      obtain ⟨hresets, hcount⟩ := h
      refine ⟨Nat.le_trans hresets hlater.resets, fun heq => ?_⟩
      have hsame : s'.resets = s.resets :=
        Nat.le_antisymm (heq ▸ hresets) hlater.resets
      exact Nat.le_trans (hcount (heq.trans hsame)) (hlater.sinceReset hsame)
  | storeOpen failures resets =>
      obtain ⟨hresets, hcount, hthreshold⟩ := h
      refine ⟨Nat.le_trans hresets hlater.resets, fun heq => ?_, ?_⟩
      · have hsame : s'.resets = s.resets :=
          Nat.le_antisymm (heq ▸ hresets) hlater.resets
        exact Nat.le_trans (hcount (heq.trans hsame)) (hlater.sinceReset hsame)
      · rw [hlater.threshold]
        exact hthreshold
  | _ => exact True.intro

variable {stage' : Stage}

theorem advance_later {now : UInt64} {s : Shared}
    (h : advance now s stage = some (s', stage')) :
    Later s s' := by
  cases stage with
  | loadOpen | loadLastFailure now =>
      rw [advance] at h
      split at h <;> cases h <;> exact ⟨rfl, Nat.le_refl _, fun _ => Nat.le_refl _⟩
  | storeZero =>
      cases h
      exact ⟨rfl, Nat.le_succ _, fun heq => absurd heq (Nat.succ_ne_self _)⟩
  | countFailure now =>
      cases h
      exact ⟨rfl, Nat.le_refl _, fun _ => Nat.le_succ _⟩
  | answered isOpen | returned => cases h
  | _ =>
      cases h
      exact ⟨rfl, Nat.le_refl _, fun _ => Nat.le_refl _⟩

theorem toNat_succ_le (count : UInt64) : (count + 1).toNat ≤ count.toNat + 1 := by
  rw [UInt64.toNat_add]
  exact Nat.mod_le _ _

theorem toNat_pred {count : UInt64} (h : 0 < count) :
    (count - 1).toNat ≤ count.toNat := by
  have hle : (1 : UInt64) ≤ count := by
    rw [UInt64.le_iff_toNat_le]
    exact UInt64.lt_iff_toNat_lt.mp h
  rw [UInt64.toNat_sub_of_le _ _ hle]
  exact Nat.sub_le _ _

theorem advance_counted {now : UInt64} {s : Shared}
    (hcount : s.breaker.failureCount.toNat ≤ s.sinceReset)
    (hrecorded : s.sinceReset ≤ s.recorded) (hstage : Accounted s stage)
    (hdrop : stage = Stage.dropFailure -> 0 < s.breaker.failureCount)
    (h : advance now s stage = some (s', stage')) :
    s'.breaker.failureCount.toNat ≤ s'.sinceReset ∧ s'.sinceReset ≤ s'.recorded ∧
      Accounted s' stage' := by
  cases stage with
  | loadOpen | loadLastFailure now =>
      rw [advance] at h
      split at h <;> cases h <;> exact ⟨hcount, hrecorded, True.intro⟩
  | storeZero =>
      cases h
      exact ⟨Nat.le_refl 0, Nat.zero_le _, True.intro⟩
  | countFailure now =>
      cases h
      have hsucc := toNat_succ_le s.breaker.failureCount
      have hown : (s.breaker.failureCount + 1).toNat ≤ s.sinceReset + 1 :=
        Nat.le_trans hsucc (Nat.succ_le_succ hcount)
      exact ⟨hown, Nat.succ_le_succ hrecorded, Nat.le_refl _, fun _ => hown⟩
  | stampFailure now failures resets =>
      cases h
      refine ⟨hcount, hrecorded, ?_⟩
      by_cases hthreshold : s.breaker.failureThreshold ≤ failures
      · rw [if_pos hthreshold]
        exact ⟨hstage.1, hstage.2, hthreshold⟩
      · rw [if_neg hthreshold]
        exact True.intro
  | loadFailures =>
      cases h
      refine ⟨hcount, hrecorded, ?_⟩
      split <;> exact True.intro
  | dropFailure =>
      cases h
      exact ⟨Nat.le_trans (toNat_pred (hdrop rfl)) hcount, hrecorded, True.intro⟩
  | answered isOpen | returned => cases h
  | _ =>
      cases h
      exact ⟨hcount, hrecorded, True.intro⟩

variable {threshold : UInt64}

theorem Counted.call (h : Counted threshold s) (hstage : Accounted s.shared stage) :
    Counted threshold { s with calls := s.calls ++ [stage] } where
  threshold := h.threshold
  count := h.count
  recorded := h.recorded
  calls := by
    intro other hmem
    rcases List.mem_append.mp hmem with hold | hnew
    · exact h.calls other hold
    · rw [List.mem_singleton.mp hnew]
      exact hstage

theorem Counted.step {threshold : UInt64} {s s' : State} {a : Action}
    (h : Counted threshold s) (htimely : Timely s a) (hstep : step s a = some s') :
    Counted threshold s' := by
  cases a with
  | isOpen | recordFailure now | recordSuccess now =>
      cases hstep
      exact h.call True.intro
  | advance i now =>
      obtain ⟨stage, hi, hnext⟩ := Option.bind_eq_some_iff.mp hstep
      obtain ⟨r, hr, rfl⟩ := Option.map_eq_some_iff.mp hnext
      have hmem := List.mem_of_getElem? hi
      have hlater := advance_later hr
      obtain ⟨hcount, hrecorded, hown⟩ := advance_counted h.count h.recorded
        (h.calls stage hmem) (htimely stage hi).1 hr
      constructor
      · exact hlater.threshold.trans h.threshold
      · exact hcount
      · exact hrecorded
      · exact forall_mem_set hi hown (fun j other _ hj =>
          (h.calls other (List.mem_of_getElem? hj)).later hlater)

/-!
# All runs
-/

theorem counted_of_reachable {timeout : UInt64}
    (h : (circuitBreaker threshold timeout).Reachable Timely s) :
    Counted threshold s := by
  refine h.invariant ?_ (fun _ _ _ hs htimely hstep => hs.step htimely hstep)
  refine ⟨rfl, Nat.le_refl 0, Nat.le_refl 0, ?_⟩
  intro stage hstage
  cases hstage

/-- In a timely run the failure count is at most the number of failures since the
last reset, and the breaker is opened after a threshold of them. -/
theorem failures_counted {threshold timeout : UInt64} {s : State}
    (h : (circuitBreaker threshold timeout).Reachable Timely s) :
    s.shared.breaker.failureCount.toNat ≤ s.shared.sinceReset ∧
      s.shared.sinceReset ≤ s.shared.recorded ∧
      forall (i : Nat) (now failures : UInt64) (resets : Nat),
        s.calls[i]? = some (Stage.storeOpen failures resets) ->
        Timely s (Action.advance i now) ->
        threshold.toNat ≤ s.shared.sinceReset := by
  have hcounted := counted_of_reachable h
  refine ⟨hcounted.count, hcounted.recorded, ?_⟩
  intro i now failures resets hi htimely
  obtain ⟨_, hfailures, hthreshold⟩ := hcounted.calls _ (List.mem_of_getElem? hi)
  rw [hcounted.threshold, UInt64.le_iff_toNat_le] at hthreshold
  exact Nat.le_trans hthreshold (hfailures ((htimely _ hi).2 failures resets rfl))

def opening : State where
  shared := ⟨{ CircuitBreaker.new 1 300 with failureCount := 1, lastFailureTimestamp := 5 },
    1, 1, 0⟩
  calls := [Stage.storeOpen 1 0]

theorem opening_reachable : (circuitBreaker 1 300).Reachable Timely opening := by
  have hcalled : (circuitBreaker 1 300).Reachable Timely
      ⟨⟨CircuitBreaker.new 1 300, 0, 0, 0⟩, [Stage.countFailure 5]⟩ :=
    System.Reachable.step (a := Action.recordFailure 5) System.Reachable.init
      True.intro rfl
  have hcounted : (circuitBreaker 1 300).Reachable Timely
      ⟨⟨{ CircuitBreaker.new 1 300 with failureCount := 1 }, 1, 1, 0⟩,
        [Stage.stampFailure 5 1 0]⟩ := by
    have htimely := timely_advance
      (s := ⟨⟨CircuitBreaker.new 1 300, 0, 0, 0⟩, [Stage.countFailure 5]⟩) (i := 0) rfl
      Stage.noConfusion (fun _ _ h => Stage.noConfusion h) 5
    exact System.Reachable.step hcalled htimely rfl
  have htimely := timely_advance
    (s := ⟨⟨{ CircuitBreaker.new 1 300 with failureCount := 1 }, 1, 1, 0⟩,
      [Stage.stampFailure 5 1 0]⟩) (i := 0) rfl
    Stage.noConfusion (fun _ _ h => Stage.noConfusion h) 5
  exact System.Reachable.step hcounted htimely rfl

theorem failures_counted_opening :
    (1 : UInt64).toNat ≤ opening.shared.sinceReset := by
  have htimely := timely_advance (s := opening) (i := 0) rfl Stage.noConfusion
    (fun _ _ h => by
      cases h
      rfl) 5
  exact (failures_counted opening_reachable).2.2 0 5 1 0 rfl htimely

def overlappingSuccesses : List Action :=
  [Action.recordFailure 1, Action.advance 0 1, Action.advance 0 1,
    Action.recordSuccess 1, Action.recordSuccess 1,
    Action.advance 1 1, Action.advance 1 1, Action.advance 1 1,
    Action.advance 2 1, Action.advance 2 1, Action.advance 2 1,
    Action.advance 1 1, Action.advance 2 1]

def overtakenFailure : List Action :=
  [Action.recordFailure 1, Action.advance 0 1, Action.advance 0 1,
    Action.recordFailure 1, Action.advance 1 1, Action.advance 1 1,
    Action.advance 1 1, Action.isOpen, Action.advance 2 900,
    Action.advance 2 900, Action.advance 2 900, Action.advance 2 900]

theorem failures_lost :
    (¬ forall s, (circuitBreaker 5 300).Reachable System.Anything s ->
      s.shared.breaker.failureCount.toNat ≤ s.shared.recorded) ∧
    ¬ forall s, (circuitBreaker 1 300).Reachable System.Anything s ->
      s.calls[0]? = some (Stage.storeOpen 1 0) ->
      (1 : UInt64).toNat ≤ s.shared.sinceReset := by
  constructor
  · intro hall
    obtain ⟨s, -, hreach, hwrapped⟩ := (circuitBreaker 5 300).replay_reaches
      System.Anything overlappingSuccesses
      (fun s => ¬ s.shared.breaker.failureCount.toNat ≤ s.shared.recorded)
      (by decide +kernel)
    exact hwrapped (hall s hreach)
  · intro hall
    obtain ⟨s, -, hreach, hcall, hnone⟩ := (circuitBreaker 1 300).replay_reaches
      System.Anything overtakenFailure
      (fun s => s.calls[0]? = some (Stage.storeOpen 1 0) ∧
        ¬ (1 : UInt64).toNat ≤ s.shared.sinceReset) (by decide +kernel)
    exact hnone (hall s hreach hcall)

end Breaking
end Memory
end PostCortex
