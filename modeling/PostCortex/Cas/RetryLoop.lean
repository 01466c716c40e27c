import PostCortex.Transition.System

/-!
# Compare-and-swap loops on one cell

A cell holds the current version of a value.  A caller loads the version,
works on a copy of its value, and swaps the copy in if the cell still holds
the version it loaded; otherwise it tries again, `maxAttempts` times at most.
Any number of callers run at once and every step is interleaved.

Versions are compared by identity, so the `n`-th version is the number `n`,
whatever its value.  The log lists the swaps in the order they happened.
-/

namespace PostCortex
namespace Cas

open Transition

/-- What one attempt makes of the value it loaded: a new value to swap in, an
answer without a change, or an error. -/
inductive Attempt (value answer error : Type) where
  | changed (next : value) (a : answer)
  | unchanged (a : answer)
  | failed (e : error)
  deriving DecidableEq, Repr

/-- A family of loops, one for each request; `draws` is what one attempt reads
from outside. -/
structure Loop (value request draws answer error : Type) where
  attempt : request -> draws -> value -> Attempt value answer error
  maxAttempts : Nat
  exhausted : request -> error

inductive Outcome (draws answer error : Type) where
  | committed (a : answer)
  | declined (version : Nat) (d : draws) (a : answer)
  | failed (e : error)
  deriving DecidableEq, Repr

inductive Stage (value draws answer error : Type) where
  | waiting (attempts : Nat)
  | loaded (attempts version : Nat) (seen : value)
  | prepared (attempts version : Nat) (d : draws) (next : value) (a : answer)
  | returned (outcome : Outcome draws answer error)
  deriving DecidableEq, Repr

/-- `arrived` is the version the cell held when the call was made. -/
structure Call (value request draws answer error : Type) where
  request : request
  arrived : Nat
  stage : Stage value draws answer error
  deriving DecidableEq, Repr

structure Swap (request draws : Type) where
  caller : Nat
  request : request
  d : draws
  deriving DecidableEq, Repr

structure Cell (value request draws answer error : Type) where
  current : value
  log : List (Swap request draws)
  calls : List (Call value request draws answer error)
  deriving DecidableEq, Repr

/-- Callers are numbered in the order they arrive. -/
inductive Action (request draws : Type) where
  | call (r : request)
  | load (i : Nat)
  | compute (i : Nat) (d : draws)
  | swap (i : Nat)
  deriving DecidableEq, Repr

variable {value request draws answer error : Type}

def Cell.setStage (c : Cell value request draws answer error) (i : Nat)
    (call : Call value request draws answer error)
    (stage : Stage value draws answer error) :
    Cell value request draws answer error :=
  { c with calls := c.calls.set i { call with stage := stage } }

namespace Loop

variable (L : Loop value request draws answer error)

def attempted (r : request) (attempts version : Nat) (seen : value)
    (d : draws) : Stage value draws answer error :=
  match L.attempt r d seen with
  | Attempt.changed next a => Stage.prepared attempts version d next a
  | Attempt.unchanged a => Stage.returned (Outcome.declined version d a)
  | Attempt.failed e => Stage.returned (Outcome.failed e)

def lost (r : request) (attempts : Nat) : Stage value draws answer error :=
  if attempts + 1 < L.maxAttempts then Stage.waiting (attempts + 1)
  else Stage.returned (Outcome.failed (L.exhausted r))

def step (c : Cell value request draws answer error) :
    Action request draws -> Option (Cell value request draws answer error)
  | Action.call r =>
      some { c with
        calls := c.calls ++ [⟨r, c.log.length, Stage.waiting 0⟩] }
  | Action.load i =>
      match c.calls[i]? with
      | some call =>
          match call.stage with
          | Stage.waiting attempts =>
              some (c.setStage i call
                (Stage.loaded attempts c.log.length c.current))
          | _ => none
      | none => none
  | Action.compute i d =>
      match c.calls[i]? with
      | some call =>
          match call.stage with
          | Stage.loaded attempts version seen =>
              some (c.setStage i call
                (L.attempted call.request attempts version seen d))
          | _ => none
      | none => none
  | Action.swap i =>
      match c.calls[i]? with
      | some call =>
          match call.stage with
          | Stage.prepared attempts version d next a =>
              if version = c.log.length then
                some { c.setStage i call
                    (Stage.returned (Outcome.committed a)) with
                  current := next
                  log := c.log ++ [⟨i, call.request, d⟩] }
              else some (c.setStage i call (L.lost call.request attempts))
          | _ => none
      | none => none

def system (start : value) :
    System (Cell value request draws answer error) (Action request draws) where
  init := ⟨start, [], []⟩
  step := L.step

/-!
# Folding the log
-/

def apply (v : value) (e : Swap request draws) : value :=
  match L.attempt e.request e.d v with
  | Attempt.changed next _ => next
  | Attempt.unchanged _ | Attempt.failed _ => v

def fold (start : value) (log : List (Swap request draws)) : value :=
  log.foldl L.apply start

def versionAt (start : value) (log : List (Swap request draws)) (n : Nat) :
    value :=
  L.fold start (log.take n)

theorem fold_append (start : value) (xs ys : List (Swap request draws)) :
    L.fold start (xs ++ ys) = L.fold (L.fold start xs) ys := by
  simp [fold]

variable {n : Nat}

theorem versionAt_append (start : value) (xs ys : List (Swap request draws))
    (hn : n ≤ xs.length) :
    L.versionAt start (xs ++ ys) n = L.versionAt start xs n := by
  simp [versionAt, List.take_append_of_le_length hn]

@[simp] theorem versionAt_length (start : value)
    (log : List (Swap request draws)) :
    L.versionAt start log log.length = L.fold start log := by
  simp [versionAt]

/-!
# What a step does
-/

/-- A step moves one call, or adds one; only a won swap changes the value. -/
inductive Moves (c : Cell value request draws answer error) :
    Action request draws -> Cell value request draws answer error -> Prop where
  | call (r : request) :
      Moves c (Action.call r)
        { c with calls := c.calls ++ [⟨r, c.log.length, Stage.waiting 0⟩] }
  | load {i attempts n : Nat} {r : request} :
      c.calls[i]? = some ⟨r, n, Stage.waiting attempts⟩ ->
      Moves c (Action.load i)
        { c with
          calls := c.calls.set i
            ⟨r, n, Stage.loaded attempts c.log.length c.current⟩ }
  | compute {i attempts version n : Nat} {r : request} {seen : value}
      (d : draws) :
      c.calls[i]? = some ⟨r, n, Stage.loaded attempts version seen⟩ ->
      Moves c (Action.compute i d)
        { c with
          calls := c.calls.set i
            ⟨r, n, L.attempted r attempts version seen d⟩ }
  | win {i attempts n : Nat} {r : request} {d : draws} {next : value}
      {a : answer} :
      c.calls[i]? =
        some ⟨r, n, Stage.prepared attempts c.log.length d next a⟩ ->
      Moves c (Action.swap i)
        { current := next
          log := c.log ++ [⟨i, r, d⟩]
          calls := c.calls.set i
            ⟨r, n, Stage.returned (Outcome.committed a)⟩ }
  | lose {i attempts version n : Nat} {r : request} {d : draws} {next : value}
      {a : answer} :
      c.calls[i]? = some ⟨r, n, Stage.prepared attempts version d next a⟩ ->
      version ≠ c.log.length ->
      Moves c (Action.swap i)
        { c with calls := c.calls.set i ⟨r, n, L.lost r attempts⟩ }

variable {c c' : Cell value request draws answer error}

theorem step_moves {a : Action request draws} (h : L.step c a = some c') :
    L.Moves c a c' := by
  cases a with
  | call r =>
      cases h
      exact Moves.call r
  | load i =>
      simp only [step] at h
      split at h
      · next call hcall =>
        obtain ⟨r, n, stage⟩ := call
        cases stage with
        | waiting attempts =>
            cases h
            exact Moves.load hcall
        | loaded _ _ _ | prepared _ _ _ _ _ | returned _ =>
            cases h
      · cases h
  | compute i d =>
      simp only [step] at h
      split at h
      · next call hcall =>
        obtain ⟨r, n, stage⟩ := call
        cases stage with
        | loaded attempts version seen =>
            cases h
            exact Moves.compute d hcall
        | waiting _ | prepared _ _ _ _ _ | returned _ =>
            cases h
      · cases h
  | swap i =>
      simp only [step] at h
      split at h
      · next call hcall =>
        obtain ⟨r, n, stage⟩ := call
        cases stage with
        | prepared attempts version d next a =>
            simp only at h
            by_cases hv : version = c.log.length
            · rw [if_pos hv] at h
              cases h
              subst hv
              exact Moves.win hcall
            · rw [if_neg hv] at h
              cases h
              exact Moves.lose hcall hv
        | waiting _ | loaded _ _ _ | returned _ =>
            cases h
      · cases h

/-!
# Runs
-/

def swapsOf (i : Nat) (log : List (Swap request draws)) :
    List (Swap request draws) :=
  log.filter (fun e => e.caller == i)

theorem swapsOf_append (i : Nat) (xs ys : List (Swap request draws)) :
    swapsOf i (xs ++ ys) = swapsOf i xs ++ swapsOf i ys := by
  simp [swapsOf]

/-- What the log holds of a call and what the call has seen of the log; what it
has seen was current during the call. -/
def Fits (start : value) (log : List (Swap request draws)) (i n : Nat)
    (r : request) : Stage value draws answer error -> Prop
  | Stage.waiting _ => swapsOf i log = [] ∧ n ≤ log.length
  | Stage.loaded _ version seen =>
      swapsOf i log = [] ∧ n ≤ version ∧ version ≤ log.length ∧
        seen = L.versionAt start log version
  | Stage.prepared _ version d next a =>
      swapsOf i log = [] ∧ n ≤ version ∧ version ≤ log.length ∧
        L.attempt r d (L.versionAt start log version) = Attempt.changed next a
  | Stage.returned (Outcome.committed _) => exists d, swapsOf i log = [⟨i, r, d⟩]
  | Stage.returned (Outcome.declined version d a) =>
      swapsOf i log = [] ∧ n ≤ version ∧ version ≤ log.length ∧
        L.attempt r d (L.versionAt start log version) = Attempt.unchanged a
  | Stage.returned (Outcome.failed _) => swapsOf i log = []

/-- The entry at a place of the log was a change at that place, and its caller
has been told so. -/
def Changed (start : value) (c : Cell value request draws answer error)
    (n : Nat) (e : Swap request draws) : Prop :=
  exists a,
    L.attempt e.request e.d (L.versionAt start c.log n) =
        Attempt.changed (L.versionAt start c.log (n + 1)) a ∧
      exists n, c.calls[e.caller]? =
        some ⟨e.request, n, Stage.returned (Outcome.committed a)⟩

structure Tracked (start : value)
    (c : Cell value request draws answer error) : Prop where
  current : c.current = L.fold start c.log
  changed : forall n e, c.log[n]? = some e -> L.Changed start c n e
  fits : forall i r n stage, c.calls[i]? = some ⟨r, n, stage⟩ ->
    L.Fits start c.log i n r stage

variable {L}

variable {start : value} {log : List (Swap request draws)} {i : Nat} {r : request}
  {stage : Stage value draws answer error}

theorem Fits.append {more : List (Swap request draws)}
    (h : L.Fits start log i n r stage) (hmore : swapsOf i more = []) :
    L.Fits start (log ++ more) i n r stage := by
  have hswaps : swapsOf i (log ++ more) = swapsOf i log := by
    rw [swapsOf_append, hmore, List.append_nil]
  have hlength : forall version, version ≤ log.length ->
      version ≤ (log ++ more).length := by
    intro version hv
    simp only [List.length_append]
    omega
  cases stage with
  | waiting attempts =>
      exact ⟨hswaps.trans h.1, hlength n h.2⟩
  | loaded attempts version seen =>
      obtain ⟨hnone, hn, hv, hseen⟩ := h
      refine ⟨hswaps.trans hnone, hn, hlength version hv, ?_⟩
      rw [L.versionAt_append _ _ _ hv]
      exact hseen
  | prepared attempts version d next a =>
      obtain ⟨hnone, hn, hv, hattempt⟩ := h
      refine ⟨hswaps.trans hnone, hn, hlength version hv, ?_⟩
      rw [L.versionAt_append _ _ _ hv]
      exact hattempt
  | returned outcome =>
      cases outcome with
      | committed a =>
          obtain ⟨d, hd⟩ := h
          exact ⟨d, hswaps.trans hd⟩
      | declined version d a =>
          obtain ⟨hnone, hn, hv, hattempt⟩ := h
          refine ⟨hswaps.trans hnone, hn, hlength version hv, ?_⟩
          rw [L.versionAt_append _ _ _ hv]
          exact hattempt
      | failed e =>
          exact hswaps.trans h

theorem Fits.running (h : L.Fits start log i n r stage)
    (hrunning : forall outcome, stage ≠ Stage.returned outcome) :
    swapsOf i log = [] ∧ n ≤ log.length := by
  cases stage with
  | waiting attempts => exact h
  | loaded attempts version seen | prepared attempts version d next a =>
      exact ⟨h.1, Nat.le_trans h.2.1 h.2.2.1⟩
  | returned outcome => exact absurd rfl (hrunning outcome)

variable {attempts : Nat}

theorem Fits.attempted {version : Nat} {seen : value}
    (h : L.Fits start log i n r (Stage.loaded attempts version seen)) (d : draws) :
    L.Fits start log i n r (L.attempted r attempts version seen d) := by
  obtain ⟨hnone, hn, hv, hseen⟩ := h
  subst hseen
  unfold Loop.attempted
  cases hattempt : L.attempt r d (L.versionAt start log version) with
  | changed next a | unchanged a => exact ⟨hnone, hn, hv, hattempt⟩
  | failed e => exact hnone

theorem Fits.lost (h : swapsOf i log = [] ∧ n ≤ log.length) :
    L.Fits start log i n r (L.lost r attempts) := by
  unfold Loop.lost
  split
  · exact h
  · exact h.1

theorem Tracked.setStage (h : L.Tracked start c)
    {stage' : Stage value draws answer error}
    (hcall : c.calls[i]? = some ⟨r, n, stage⟩)
    (hrunning : forall outcome, stage ≠ Stage.returned outcome)
    (hfits : L.Fits start c.log i n r stage') :
    L.Tracked start { c with calls := c.calls.set i ⟨r, n, stage'⟩ } := by
  have hlt : i < c.calls.length :=
    (List.getElem?_eq_some_iff.mp hcall).1
  constructor
  · exact h.current
  · intro m e he
    obtain ⟨a, hattempt, n', hcaller⟩ := h.changed m e he
    refine ⟨a, hattempt, n', ?_⟩
    have hne : i ≠ e.caller := by
      intro heq
      subst heq
      rw [hcaller] at hcall
      cases hcall
      exact hrunning _ rfl
    exact (List.getElem?_set_ne hne).trans hcaller
  · intro j r' n' stage'' hj
    by_cases hij : i = j
    · subst hij
      rw [List.getElem?_set_self hlt] at hj
      cases hj
      exact hfits
    · rw [List.getElem?_set_ne hij] at hj
      exact h.fits j r' n' stage'' hj

theorem Tracked.call (h : L.Tracked start c) (r : request) :
    L.Tracked start
      { c with calls := c.calls ++ [⟨r, c.log.length, Stage.waiting 0⟩] } := by
  constructor
  · exact h.current
  · intro m e he
    obtain ⟨a, hattempt, n, hcaller⟩ := h.changed m e he
    refine ⟨a, hattempt, n, ?_⟩
    have hlt : e.caller < c.calls.length :=
      (List.getElem?_eq_some_iff.mp hcaller).1
    exact (List.getElem?_append_left hlt).trans hcaller
  · intro i r' n stage hi
    by_cases hlt : i < c.calls.length
    · rw [List.getElem?_append_left hlt] at hi
      exact h.fits i r' n stage hi
    · rw [List.getElem?_append_right (Nat.not_lt.mp hlt)] at hi
      have hzero := (List.getElem?_eq_some_iff.mp hi).1
      simp only [List.length_singleton] at hzero
      have hi0 : i - c.calls.length = 0 := by omega
      have hlast : i = c.calls.length := by omega
      rw [hi0] at hi
      cases hi
      subst hlast
      refine ⟨?_, Nat.le_refl _⟩
      -- a logged caller would be numbered below the new one
      apply List.filter_eq_nil_iff.mpr
      intro e he hcaller
      obtain ⟨m, hm⟩ := List.getElem?_of_mem he
      obtain ⟨a, -, n', hknown⟩ := h.changed m e hm
      have hbelow := (List.getElem?_eq_some_iff.mp hknown).1
      have heq : e.caller = c.calls.length := by simpa using hcaller
      omega

theorem Tracked.win {start : value}
    {c : Cell value request draws answer error} (h : L.Tracked start c)
    {i n attempts : Nat} {r : request} {d : draws} {next : value} {a : answer}
    (hcall : c.calls[i]? =
      some ⟨r, n, Stage.prepared attempts c.log.length d next a⟩) :
    L.Tracked start
      { current := next
        log := c.log ++ [⟨i, r, d⟩]
        calls := c.calls.set i
          ⟨r, n, Stage.returned (Outcome.committed a)⟩ } := by
  have hlt : i < c.calls.length :=
    (List.getElem?_eq_some_iff.mp hcall).1
  obtain ⟨hnone, -, -, hattempt⟩ := h.fits i r n _ hcall
  rw [L.versionAt_length] at hattempt
  have hnext : L.fold start (c.log ++ [⟨i, r, d⟩]) = next := by
    rw [L.fold_append]
    show L.apply (L.fold start c.log) ⟨i, r, d⟩ = next
    simp only [apply, hattempt]
  have hlast : L.versionAt start (c.log ++ [⟨i, r, d⟩]) (c.log.length + 1) =
      next := by
    rw [← hnext, versionAt, List.take_of_length_le (by simp)]
  constructor
  · exact hnext.symm
  · intro m e he
    by_cases hm : m < c.log.length
    · rw [List.getElem?_append_left hm] at he
      obtain ⟨b, hold, n', hcaller⟩ := h.changed m e he
      refine ⟨b, ?_, n', ?_⟩
      · rw [L.versionAt_append _ _ _ (Nat.le_of_lt hm),
          L.versionAt_append _ _ _ hm]
        exact hold
      · have hne : i ≠ e.caller := by
          intro heq
          subst heq
          rw [hcaller] at hcall
          cases hcall
        exact (List.getElem?_set_ne hne).trans hcaller
    · have hbound := (List.getElem?_eq_some_iff.mp he).1
      simp only [List.length_append, List.length_singleton] at hbound
      have hm' : m = c.log.length := by omega
      subst hm'
      rw [List.getElem?_concat_length] at he
      cases he
      refine ⟨a, ?_, n, List.getElem?_set_self hlt⟩
      rw [hlast, L.versionAt_append _ _ _ (Nat.le_refl _), L.versionAt_length]
      exact hattempt
  · intro j r' n' stage hj
    by_cases hij : i = j
    · subst hij
      rw [List.getElem?_set_self hlt] at hj
      cases hj
      refine ⟨d, ?_⟩
      rw [swapsOf_append, hnone]
      simp [swapsOf]
    · rw [List.getElem?_set_ne hij] at hj
      exact (h.fits j r' n' stage hj).append (by simp [swapsOf, hij])

theorem Tracked.step {start : value}
    {c c' : Cell value request draws answer error} {a : Action request draws}
    (h : L.Tracked start c) (hstep : L.step c a = some c') :
    L.Tracked start c' := by
  cases L.step_moves hstep with
  | call r =>
      exact h.call r
  | load hcall =>
      have hrunning := (h.fits _ _ _ _ hcall).running nofun
      refine h.setStage hcall nofun
        ⟨hrunning.1, hrunning.2, Nat.le_refl _, ?_⟩
      rw [L.versionAt_length]
      exact h.current
  | compute d hcall =>
      exact h.setStage hcall nofun ((h.fits _ _ _ _ hcall).attempted d)
  | win hcall =>
      exact h.win hcall
  | lose hcall _ =>
      exact h.setStage hcall nofun
        (Fits.lost ((h.fits _ _ _ _ hcall).running nofun))

variable
  {allowed : Cell value request draws answer error -> Action request draws -> Prop}

/-- In every run the cell is the fold of the log, each entry was a change at
its place, and each call has the entries its outcome says. -/
theorem tracked (h : System.Reachable (L.system start) allowed c) :
    L.Tracked start c := by
  refine h.invariant ?_ (fun c a c' hc _ hstep => hc.step hstep)
  constructor
  · rfl
  · intro n e he
    cases he
  · intro i r n stage hi
    cases hi

theorem log_prefix (h : System.Steps (L.system start) allowed c c') :
    c.log <+: c'.log := by
  induction h with
  | refl =>
      exact List.prefix_refl _
  | tail _ _ hstep ih =>
      refine ih.trans ?_
      cases L.step_moves hstep with
      | call _ | load _ | compute _ _ | lose _ _ =>
          exact List.prefix_refl _
      | win _ => exact List.prefix_append _ _

end Loop
end Cas
end PostCortex
