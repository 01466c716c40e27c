import PostCortex.Transition.Calls
import PostCortex.Transition.System

/-!
# The load gate

`with_load_gate` of `session_manager.rs` at one session id: `entry` is the
session's entry of the map `loading`.  A gate is the identity of its `Arc`, and
`strong_count` counts the map's reference and the clones that tasks hold.  A
task looks the entry up and clones it under the entry's lock, so that is one
step, and so is `remove_if`; a task drops its clone only when the call returns.
-/

namespace PostCortex
namespace Memory
namespace LoadGate

open Transition

abbrev Gate := Nat

/-- Where a call stands; `leaving` lies between `remove_if` and the drop of the
clone. -/
inductive Task where
  | waiting (gate : Gate)
  | running (gate : Gate)
  | finished (gate : Gate)
  | leaving (gate : Gate)
  | done
  deriving DecidableEq, Repr

structure State where
  entry : Option Gate
  gateCount : Nat
  tasks : List Task
  deriving DecidableEq, Repr

/-- Tasks are numbered in the order they arrive. -/
inductive Action where
  | call
  | lock (i : Nat)
  | unlock (i : Nat)
  | removeIf (i : Nat)
  | drop (i : Nat)
  deriving DecidableEq, Repr

def Task.holds (gate : Gate) : Task -> Bool
  | waiting g => g == gate
  | running g => g == gate
  | finished g => g == gate
  | leaving g => g == gate
  | done => false

def strongCount (s : State) (gate : Gate) : Nat :=
  (if s.entry = some gate then 1 else 0) + s.tasks.countP (Task.holds gate)

/-- `entry(session_id).or_insert_with(..)` and the clone of the gate. -/
def call (s : State) : State :=
  match s.entry with
  | some gate => { s with tasks := s.tasks ++ [Task.waiting gate] }
  | none =>
      { entry := some s.gateCount
        gateCount := s.gateCount + 1
        tasks := s.tasks ++ [Task.waiting s.gateCount] }

def step (s : State) : Action -> Option State
  | Action.call => some (call s)
  | Action.lock i =>
      match s.tasks[i]? with
      | some (Task.waiting gate) =>
          if Task.running gate ∈ s.tasks then none
          else some { s with tasks := s.tasks.set i (Task.running gate) }
      | _ => none
  | Action.unlock i =>
      match s.tasks[i]? with
      | some (Task.running gate) =>
          some { s with tasks := s.tasks.set i (Task.finished gate) }
      | _ => none
  | Action.removeIf i =>
      match s.tasks[i]? with
      | some (Task.finished gate) =>
          some { s with
            entry :=
              if s.entry = some gate ∧ strongCount s gate ≤ 2 then none
              else s.entry
            tasks := s.tasks.set i (Task.leaving gate) }
      | _ => none
  | Action.drop i =>
      match s.tasks[i]? with
      | some (Task.leaving _) =>
          some { s with tasks := s.tasks.set i Task.done }
      | _ => none

def loadGate : System State Action where
  init := ⟨none, 0, []⟩
  step := step

/-!
# What a step does
-/

inductive Moves (s : State) : Action -> State -> Prop where
  | join {gate : Gate} :
      s.entry = some gate ->
      Moves s Action.call
        { s with tasks := s.tasks ++ [Task.waiting gate] }
  | enter :
      s.entry = none ->
      Moves s Action.call
        { entry := some s.gateCount
          gateCount := s.gateCount + 1
          tasks := s.tasks ++ [Task.waiting s.gateCount] }
  | lock {i : Nat} {gate : Gate} :
      s.tasks[i]? = some (Task.waiting gate) ->
      Task.running gate ∉ s.tasks ->
      Moves s (Action.lock i)
        { s with tasks := s.tasks.set i (Task.running gate) }
  | unlock {i : Nat} {gate : Gate} :
      s.tasks[i]? = some (Task.running gate) ->
      Moves s (Action.unlock i)
        { s with tasks := s.tasks.set i (Task.finished gate) }
  | removeIf {i : Nat} {gate : Gate} :
      s.tasks[i]? = some (Task.finished gate) ->
      Moves s (Action.removeIf i)
        { s with
          entry :=
            if s.entry = some gate ∧ strongCount s gate ≤ 2 then none
            else s.entry
          tasks := s.tasks.set i (Task.leaving gate) }
  | drop {i : Nat} {gate : Gate} :
      s.tasks[i]? = some (Task.leaving gate) ->
      Moves s (Action.drop i) { s with tasks := s.tasks.set i Task.done }

variable {s s' : State} {a : Action}

theorem step_moves (h : step s a = some s') :
    Moves s a s' := by
  cases a with
  | call =>
      cases h
      unfold call
      split
      · next gate hentry => exact Moves.join hentry
      · next hentry => exact Moves.enter hentry
  | lock i =>
      simp only [step] at h
      split at h
      · next gate hi =>
        split at h
        · cases h
        · next hfree =>
          cases h
          exact Moves.lock hi hfree
      · cases h
  | unlock i =>
      simp only [step] at h
      split at h
      · next gate hi =>
        cases h
        exact Moves.unlock hi
      · cases h
  | removeIf i =>
      simp only [step] at h
      split at h
      · next gate hi =>
        cases h
        exact Moves.removeIf hi
      · cases h
  | drop i =>
      simp only [step] at h
      split at h
      · next gate hi =>
        cases h
        exact Moves.drop hi
      · cases h

/-!
# One gate for all
-/

def Task.needs (gate : Gate) : Task -> Prop
  | waiting g => g = gate
  | running g => g = gate
  | finished g => g = gate
  | leaving _ => False
  | done => False

def Task.isRunning : Task -> Bool
  | running _ => true
  | _ => false

def Exclusive (tasks : List Task) : Prop :=
  forall (i j : Nat) (task other : Task), tasks[i]? = some task ->
    tasks[j]? = some other -> task.isRunning = true ->
      other.isRunning = true -> i = j

/-- Every task that has not left needs the gate that the map holds, and one of
them at most runs. -/
structure Shared (s : State) : Prop where
  needed : forall (i : Nat) (task : Task), s.tasks[i]? = some task ->
    forall gate, task.needs gate -> s.entry = some gate
  exclusive : Exclusive s.tasks

variable {task : Task} {gate : Gate}

theorem Task.holds_of_needs (h : task.needs gate) :
    task.holds gate = true := by
  cases task with
  | waiting g | running g | finished g => exact beq_iff_eq.mpr h
  | leaving g | done => exact h.elim

variable {i : Nat}

theorem two_lt_strongCount {j : Nat} {other : Task} (hentry : s.entry = some gate)
    (hi : s.tasks[i]? = some task) (hj : s.tasks[j]? = some other) (hne : j ≠ i)
    (htask : task.holds gate = true) (hother : other.holds gate = true) :
    2 < strongCount s gate := by
  have hrest : 0 < (s.tasks.set i Task.done).countP (Task.holds gate) := by
    refine List.countP_pos_iff.mpr ⟨other, ?_, hother⟩
    refine List.mem_of_getElem? (i := j) ?_
    rw [List.getElem?_set_ne (Ne.symm hne)]
    exact hj
  obtain ⟨hlt, hget⟩ := List.getElem?_eq_some_iff.mp hi
  rw [List.countP_set hlt, hget, htask] at hrest
  have hdone : Task.holds gate Task.done = false := rfl
  simp only [hdone, if_true, Bool.false_eq_true, if_false, Nat.add_zero] at hrest
  unfold strongCount
  rw [if_pos hentry]
  omega

theorem Exclusive.quiet {tasks : List Task} {task' : Task} (h : Exclusive tasks)
    (hi : tasks[i]? = some task) (hquiet : task'.isRunning = false) :
    Exclusive (tasks.set i task') := by
  intro j k x y hj hk hx hy
  rcases getElem?_set_cases hi hj with ⟨-, rfl⟩ | ⟨-, hj⟩
  · rw [hquiet] at hx
    cases hx
  · rcases getElem?_set_cases hi hk with ⟨-, rfl⟩ | ⟨-, hk⟩
    · rw [hquiet] at hy
      cases hy
    · exact h j k x y hj hk hx hy

theorem Exclusive.snoc {tasks : List Task} {task : Task}
    (h : Exclusive tasks) (hquiet : task.isRunning = false) :
    Exclusive (tasks ++ [task]) := by
  have hold : forall (j : Nat) (x : Task), (tasks ++ [task])[j]? = some x ->
      x.isRunning = true -> tasks[j]? = some x := by
    refine forall_getElem?_snoc (P := fun j x =>
      x.isRunning = true -> tasks[j]? = some x) ?_ ?_
    · intro hx
      rw [hquiet] at hx
      cases hx
    · intro j x hj _
      exact hj
  intro j k x y hj hk hx hy
  exact h j k x y (hold j x hj hx) (hold k y hk hy) hx hy

theorem Shared.lock {s : State} {i : Nat} {gate : Gate} (h : Shared s)
    (hi : s.tasks[i]? = some (Task.waiting gate))
    (hfree : Task.running gate ∉ s.tasks) :
    Exclusive (s.tasks.set i (Task.running gate)) := by
  have hnone : forall (j : Nat) (x : Task), s.tasks[j]? = some x ->
      x.isRunning = false := by
    intro j x hj
    cases x with
    | running g =>
        have hentry := h.needed j _ hj g rfl
        rw [h.needed i _ hi gate rfl] at hentry
        cases hentry
        exact absurd (List.mem_of_getElem? hj) hfree
    | waiting g | finished g | leaving g | done =>
        rfl
  have honly : forall (j : Nat) (x : Task),
      (s.tasks.set i (Task.running gate))[j]? = some x ->
        x.isRunning = true -> j = i := by
    intro j x hj hx
    rcases getElem?_set_cases hi hj with ⟨rfl, -⟩ | ⟨-, hj⟩
    · rfl
    · rw [hnone j x hj] at hx
      cases hx
  intro j k x y hj hk hx hy
  exact (honly j x hj hx).trans (honly k y hk hy).symm

theorem step_shared (h : Shared s) (hstep : step s a = some s') :
    Shared s' := by
  cases step_moves hstep with
  | @join gate hentry =>
      refine ⟨?_, h.exclusive.snoc rfl⟩
      refine forall_getElem?_snoc ?_ h.needed
      rintro g rfl
      exact hentry
  | enter hentry =>
      refine ⟨?_, h.exclusive.snoc rfl⟩
      refine forall_getElem?_snoc ?_ ?_
      · rintro g rfl
        rfl
      · intro j other hj g hneeds
        rw [h.needed j other hj g hneeds] at hentry
        cases hentry
  | @lock i gate hi hfree =>
      refine ⟨?_, h.lock hi hfree⟩
      refine forall_getElem?_set hi ?_ (fun j other _ => h.needed j other)
      intro g hneeds
      exact h.needed i (Task.waiting gate) hi g hneeds
  | @unlock i gate hi =>
      refine ⟨?_, h.exclusive.quiet hi rfl⟩
      refine forall_getElem?_set hi ?_ (fun j other _ => h.needed j other)
      intro g hneeds
      exact h.needed i (Task.running gate) hi g hneeds
  | @removeIf i gate hi =>
      refine ⟨?_, h.exclusive.quiet hi rfl⟩
      refine forall_getElem?_set hi (fun g hneeds => hneeds.elim) ?_
      intro j other hne hj g hneeds
      have hentry := h.needed j other hj g hneeds
      have hsame := h.needed i _ hi gate rfl
      rw [hentry] at hsame
      cases hsame
      -- the other task still holds the gate, so the entry stays
      have hcount := two_lt_strongCount hentry hi hj hne
        (beq_self_eq_true gate) (Task.holds_of_needs hneeds)
      rw [if_neg (fun hboth => Nat.not_lt.mpr hboth.2 hcount)]
      exact hentry
  | @drop i gate hi =>
      refine ⟨?_, h.exclusive.quiet hi rfl⟩
      exact forall_getElem?_set hi (fun g hneeds => hneeds.elim)
        (fun j other _ => h.needed j other)

theorem shared {allowed : State -> Action -> Prop}
    (h : loadGate.Reachable allowed s) :
    Shared s := by
  refine h.invariant (P := Shared) ?_
    (fun _ _ _ hs _ hstep => step_shared hs hstep)
  constructor
  · intro i task hi
    cases hi
  · intro i j task other hi
    cases hi

/-!
# No entry is left
-/

def Task.isLeaving : Task -> Bool
  | leaving _ => true
  | _ => false

/-- No task that has run its `remove_if` still holds a clone when another runs
it. -/
def Undisturbed (s : State) : Action -> Prop
  | Action.removeIf _ => s.tasks.all (fun task => !task.isLeaving) = true
  | _ => True

instance (s : State) (a : Action) : Decidable (Undisturbed s a) :=
  match a with
  | Action.removeIf _ => inferInstanceAs (Decidable (_ = true))
  | Action.call | Action.lock _ | Action.unlock _ | Action.drop _ =>
      inferInstanceAs (Decidable True)

/-- The entry belongs to a task that will still run its `remove_if`. -/
def Owed (s : State) : Prop :=
  forall gate, s.entry = some gate ->
    exists (i : Nat) (task : Task), s.tasks[i]? = some task ∧ task.needs gate

theorem Owed.set {task' : Task} (h : Owed s) (hi : s.tasks[i]? = some task)
    (hkeeps : forall gate, task.needs gate -> task'.needs gate) :
    Owed { s with tasks := s.tasks.set i task' } := by
  intro gate hentry
  obtain ⟨j, other, hj, hneeds⟩ := h gate hentry
  by_cases hji : j = i
  · subst hji
    rw [hi] at hj
    cases hj
    exact ⟨j, task', List.getElem?_set_self (List.getElem?_eq_some_iff.mp hi).1,
      hkeeps gate hneeds⟩
  · refine ⟨j, other, ?_, hneeds⟩
    exact (List.getElem?_set_ne (Ne.symm hji)).trans hj

theorem mem_of_two_lt_strongCount (hi : s.tasks[i]? = some task)
    (hcount : 2 < strongCount s gate) :
    exists (j : Nat) (other : Task), j ≠ i ∧ s.tasks[j]? = some other ∧
      other.holds gate = true := by
  have hrest : 0 < (s.tasks.set i Task.done).countP (Task.holds gate) := by
    obtain ⟨hlt, hget⟩ := List.getElem?_eq_some_iff.mp hi
    have hdone : Task.holds gate Task.done = false := rfl
    rw [List.countP_set hlt, hget]
    unfold strongCount at hcount
    simp only [hdone, Bool.false_eq_true, if_false, Nat.add_zero]
    split at hcount <;> split <;> omega
  obtain ⟨other, hmem, hholds⟩ := List.countP_pos_iff.mp hrest
  obtain ⟨j, hj⟩ := List.getElem?_of_mem hmem
  rcases getElem?_set_cases hi hj with ⟨-, rfl⟩ | ⟨hji, hj⟩
  · cases hholds
  · exact ⟨j, other, hji, hj, hholds⟩

theorem step_owed (hshared : Shared s) (h : Owed s) (hallowed : Undisturbed s a)
    (hstep : step s a = some s') :
    Owed s' := by
  cases step_moves hstep with
  | @join gate hentry =>
      intro g hg
      refine ⟨s.tasks.length, Task.waiting gate, ?_, ?_⟩
      · exact List.getElem?_concat_length
      · exact Option.some.inj (hentry.symm.trans hg)
  | enter hentry =>
      intro g hg
      exact ⟨s.tasks.length, _, List.getElem?_concat_length,
        Option.some.inj hg⟩
  | @lock i gate hi hfree | @unlock i gate hi =>
      exact h.set hi (fun _ hneeds => hneeds)
  | @removeIf i gate hi =>
      have hentry := hshared.needed i _ hi gate rfl
      intro g hg
      dsimp only at hg
      split at hg
      · cases hg
      · next hkept =>
        rw [hentry] at hg
        cases hg
        have hcount : 2 < strongCount s gate := by
          by_contra hle
          exact hkept ⟨hentry, Nat.not_lt.mp hle⟩
        obtain ⟨j, other, hji, hj, hholds⟩ :=
          mem_of_two_lt_strongCount hi hcount
        -- the other holder is not leaving, so its `remove_if` is to come
        have hstays := List.all_eq_true.mp hallowed other
          (List.mem_of_getElem? hj)
        refine ⟨j, other, (List.getElem?_set_ne (Ne.symm hji)).trans hj, ?_⟩
        cases other with
        | waiting g' | running g' | finished g' => exact beq_iff_eq.mp hholds
        | leaving g' => cases hstays
        | done => cases hholds
  | @drop i gate hi =>
      exact h.set hi (fun _ hneeds => hneeds.elim)

def allDone (s : State) : Bool :=
  s.tasks.all (fun task => task == Task.done)

/-- In every run one load section runs at a time; once all tasks are done no
entry is left, if no task runs its `remove_if` while another that has run its
own still holds a clone. -/
theorem load_gate_single_flight {s : State}
    (h : loadGate.Reachable System.Anything s) :
    Exclusive s.tasks ∧
      (loadGate.Reachable Undisturbed s -> allDone s = true ->
        s.entry = none) := by
  constructor
  · exact (shared h).exclusive
  · intro h hdone
    have howed : Owed s := by
      refine h.invariant_of (fun _ h => shared h) ?_
        (fun _ _ _ hshared hs hallowed hstep =>
          step_owed hshared hs hallowed hstep)
      intro gate hentry
      cases hentry
    by_contra hne
    obtain ⟨gate, hentry⟩ := Option.ne_none_iff_exists'.mp hne
    obtain ⟨i, task, hi, hneeds⟩ := howed gate hentry
    have htask := beq_iff_eq.mp
      (List.all_eq_true.mp hdone task (List.mem_of_getElem? hi))
    subst htask
    exact hneeds

/-- The second task runs its section after the first, and arrives before the
first leaves. -/
def orderedRun : List Action :=
  [Action.call, Action.lock 0, Action.call, Action.unlock 0, Action.removeIf 0,
    Action.drop 0, Action.lock 1, Action.unlock 1, Action.removeIf 1,
    Action.drop 1]

theorem load_gate_single_flight_ordered :
    exists s, loadGate.replay Undisturbed loadGate.init orderedRun = some s ∧
      s.gateCount = 1 ∧ Exclusive s.tasks ∧ s.entry = none := by
  obtain ⟨s, hs, hreach, hcount, hdone⟩ := loadGate.replay_reaches Undisturbed orderedRun
    (fun s => s.gateCount = 1 ∧ allDone s = true) (by decide)
  obtain ⟨hexclusive, hentry⟩ := load_gate_single_flight hreach.anything
  exact ⟨s, hs, hcount, hexclusive, hentry hreach hdone⟩

/-- Each of the two tasks runs its `remove_if` while the other still holds its
clone. -/
def crossedRun : List Action :=
  [Action.call, Action.call, Action.lock 0, Action.unlock 0, Action.lock 1,
    Action.unlock 1, Action.removeIf 1, Action.removeIf 0, Action.drop 0,
    Action.drop 1]

theorem crossed_leave_entry :
    ¬ forall s, loadGate.Reachable System.Anything s -> allDone s = true ->
      s.entry = none := by
  intro hall
  obtain ⟨s, -, hreach, hdone, hleft⟩ := loadGate.replay_reaches System.Anything
    crossedRun (fun s => allDone s = true ∧ s.entry ≠ none) (by decide)
  exact hleft (hall s hreach hdone)

end LoadGate
end Memory
end PostCortex
