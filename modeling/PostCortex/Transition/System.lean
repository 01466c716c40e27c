import Mathlib.Logic.Function.Basic
import Mathlib.Data.List.Basic

/-!
# Guarded transition systems

A system is an initial state and an executable step function: `step s a` is
the next state when action `a` is possible in `s`, and `none` otherwise.  Runs
may be restricted by a condition `allowed s a` on each step, so that one
system serves results about all of its runs and about the runs that avoid some
step.  The module gives the induction rule for reachable states, replay of
explicit action lists, and the family of independent copies of a system.
-/

namespace PostCortex
namespace Transition

structure System (state action : Type) where
  init : state
  step : state -> action -> Option state

namespace System

variable {state action index : Type}

def Anything (_ : state) (_ : action) : Prop :=
  True

instance (s : state) (a : action) : Decidable (Anything s a) :=
  inferInstanceAs (Decidable True)

inductive Reachable (M : System state action)
    (allowed : state -> action -> Prop) : state -> Prop where
  | init : Reachable M allowed M.init
  | step {s s' : state} {a : action} :
      Reachable M allowed s ->
      allowed s a ->
      M.step s a = some s' ->
      Reachable M allowed s'

/-- The states of a run from `s`, whatever `s` is. -/
inductive Steps (M : System state action)
    (allowed : state -> action -> Prop) (s : state) : state -> Prop where
  | refl : Steps M allowed s s
  | tail {t t' : state} {a : action} :
      Steps M allowed s t ->
      allowed t a ->
      M.step t a = some t' ->
      Steps M allowed s t'

theorem Reachable.mono {M : System state action}
    {allowed allowed' : state -> action -> Prop} {s : state}
    (hsub : forall t a, allowed t a -> allowed' t a)
    (h : Reachable M allowed s) :
    Reachable M allowed' s := by
  induction h with
  | init =>
      exact Reachable.init
  | step _ hallowed hstep ih =>
      exact Reachable.step ih (hsub _ _ hallowed) hstep

theorem Reachable.anything {M : System state action}
    {allowed : state -> action -> Prop} {s : state}
    (h : Reachable M allowed s) :
    Reachable M Anything s :=
  h.mono (fun _ _ _ => True.intro)

theorem Reachable.trans {M : System state action}
    {allowed : state -> action -> Prop} {s t : state}
    (hs : Reachable M allowed s) (hrun : Steps M allowed s t) :
    Reachable M allowed t := by
  induction hrun with
  | refl =>
      exact hs
  | tail _ hallowed hstep ih =>
      exact Reachable.step ih hallowed hstep

/-!
# Invariants

An invariant holds initially and is kept by every allowed step.  The other
rules let the step lemma use facts already known of reachable states.
-/

theorem Reachable.invariant {M : System state action}
    {allowed : state -> action -> Prop} {P : state -> Prop}
    (hinit : P M.init)
    (hstep : forall s a s', P s -> allowed s a -> M.step s a = some s' -> P s')
    {s : state} (h : Reachable M allowed s) :
    P s := by
  induction h with
  | init =>
      exact hinit
  | step _ hallowed hnext ih =>
      exact hstep _ _ _ ih hallowed hnext

theorem Reachable.invariant_between {M : System state action}
    {allowed : state -> action -> Prop} {Q P : state -> Prop}
    (hknown : forall s, Reachable M allowed s -> Q s)
    (hinit : P M.init)
    (hstep : forall s a s', Q s -> Q s' -> P s -> allowed s a ->
      M.step s a = some s' -> P s')
    {s : state} (h : Reachable M allowed s) :
    P s := by
  induction h with
  | init =>
      exact hinit
  | step hreach hallowed hnext ih =>
      have hafter := hknown _ (Reachable.step hreach hallowed hnext)
      exact hstep _ _ _ (hknown _ hreach) hafter ih hallowed hnext

theorem Reachable.invariant_of {M : System state action}
    {allowed : state -> action -> Prop} {Q P : state -> Prop}
    (hknown : forall s, Reachable M allowed s -> Q s)
    (hinit : P M.init)
    (hstep : forall s a s', Q s -> P s -> allowed s a ->
      M.step s a = some s' -> P s')
    {s : state} (h : Reachable M allowed s) :
    P s :=
  h.invariant_between hknown hinit
    (fun s a s' hs _ hP hallowed hnext => hstep s a s' hs hP hallowed hnext)

theorem Steps.mono {M : System state action}
    {allowed allowed' : state -> action -> Prop} {s t : state}
    (hsub : forall u a, allowed u a -> allowed' u a)
    (h : Steps M allowed s t) :
    Steps M allowed' s t := by
  induction h with
  | refl =>
      exact Steps.refl
  | tail _ hallowed hnext ih =>
      exact Steps.tail ih (hsub _ _ hallowed) hnext

theorem Steps.invariant {M : System state action}
    {allowed : state -> action -> Prop} {s : state} {P : state -> Prop}
    (hinit : P s)
    (hstep : forall t a t', Steps M allowed s t -> P t -> allowed t a ->
      M.step t a = some t' -> P t')
    {t : state} (h : Steps M allowed s t) :
    P t := by
  induction h with
  | refl =>
      exact hinit
  | tail hrun hallowed hnext ih =>
      exact hstep _ _ _ hrun ih hallowed hnext

/-!
# Replay

`replay` runs a list of actions and fails at the first one that is not
possible or not allowed.
-/

def replay (M : System state action) (allowed : state -> action -> Prop)
    [forall s a, Decidable (allowed s a)] :
    state -> List action -> Option state
  | s, [] => some s
  | s, a :: rest =>
      if allowed s a then
        match M.step s a with
        | none => none
        | some s' => replay M allowed s' rest
      else none

theorem Steps.replay {M : System state action}
    {allowed : state -> action -> Prop} [forall s a, Decidable (allowed s a)]
    {s t u : state} {actions : List action} (hs : Steps M allowed s t)
    (h : M.replay allowed t actions = some u) :
    Steps M allowed s u := by
  induction actions generalizing t with
  | nil =>
      have htu : t = u := by simpa [System.replay] using h
      exact htu ▸ hs
  | cons a rest ih =>
      by_cases hallowed : allowed t a
      · cases hstep : M.step t a with
        | none =>
            simp [System.replay, hallowed, hstep] at h
        | some t' =>
            apply ih (Steps.tail hs hallowed hstep)
            simpa [System.replay, hallowed, hstep] using h
      · simp [System.replay, hallowed] at h

theorem Reachable.replay {M : System state action}
    {allowed : state -> action -> Prop} [forall s a, Decidable (allowed s a)]
    {s t : state} {actions : List action}
    (hs : Reachable M allowed s)
    (h : M.replay allowed s actions = some t) :
    Reachable M allowed t :=
  hs.trans (Steps.refl.replay h)

theorem replay_reaches (M : System state action) (allowed : state -> action -> Prop)
    [forall s a, Decidable (allowed s a)] (actions : List action)
    (P : state -> Prop) [DecidablePred P]
    (h : (M.replay allowed M.init actions).any (fun s => decide (P s)) = true) :
    exists s, M.replay allowed M.init actions = some s ∧ Reachable M allowed s ∧ P s := by
  obtain ⟨s, hs, hend⟩ := (Option.any_eq_true _ _).mp h
  exact ⟨s, hs, Reachable.init.replay hs, of_decide_eq_true hend⟩

/-!
# Families of independent copies

One copy of the system per index; an action names the copy it moves.
-/

def family (M : System state action) (index : Type) [DecidableEq index] :
    System (index -> state) (index × action) where
  init := fun _ => M.init
  step := fun p a => (M.step (p a.1) a.2).map (Function.update p a.1)

def EachAllowed (allowed : state -> action -> Prop)
    (p : index -> state) (a : index × action) : Prop :=
  allowed (p a.1) a.2

instance {allowed : state -> action -> Prop}
    [forall s a, Decidable (allowed s a)] (p : index -> state)
    (a : index × action) : Decidable (EachAllowed allowed p a) :=
  inferInstanceAs (Decidable (allowed _ _))

theorem Reachable.component {M : System state action} [DecidableEq index]
    {allowed : state -> action -> Prop} {p : index -> state}
    (h : Reachable (M.family index) (EachAllowed allowed) p) (i : index) :
    Reachable M allowed (p i) := by
  induction h with
  | init =>
      exact Reachable.init
  | @step p p' a _ hallowed hnext ih =>
      rcases Option.map_eq_some_iff.mp hnext with ⟨t, hstep, hp'⟩
      subst hp'
      by_cases hi : i = a.1
      · subst hi
        rw [Function.update_self]
        exact Reachable.step ih hallowed hstep
      · rw [Function.update_of_ne hi]
        exact ih

end System
end Transition
end PostCortex
