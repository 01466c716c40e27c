import PostCortex.Search.BreadthFirst

/-!
# Search level by level

A search that goes from the nodes of one distance to those of the next, with a
visited set.  After as many rounds as the limit, or when a level is empty, the nodes
visited are those within the limit.
-/

namespace PostCortex
namespace Search

/-!
# Keys not seen before
-/

section

variable {item key : Type} [DecidableEq key]

def unseen (keyOf : item -> key) : List key -> List item -> List item
  | _, [] => []
  | seen, m :: rest =>
      if keyOf m ∈ seen then unseen keyOf seen rest
      else m :: unseen keyOf (keyOf m :: seen) rest

variable {keyOf : item -> key}

theorem mem_unseen_iff {seen : List key} {list : List item} {k : key} :
    k ∈ (unseen keyOf seen list).map keyOf ↔ k ∈ list.map keyOf ∧ k ∉ seen := by
  induction list generalizing seen with
  | nil => simp [unseen]
  | cons m rest ih =>
      rw [unseen]
      split
      · next hseen =>
          rw [ih, List.map_cons, List.mem_cons]
          constructor
          · exact fun h => ⟨Or.inr h.1, h.2⟩
          · rintro ⟨rfl | hk, hnot⟩
            · exact absurd hseen hnot
            · exact ⟨hk, hnot⟩
      · next hnew =>
          rw [List.map_cons, List.mem_cons, ih, List.map_cons, List.mem_cons,
            List.mem_cons]
          by_cases hk : k = keyOf m
          · simp [hk, hnew]
          · simp [hk]

theorem nodup_unseen (seen : List key) (list : List item) :
    ((unseen keyOf seen list).map keyOf).Nodup := by
  induction list generalizing seen with
  | nil => exact List.nodup_nil
  | cons m rest ih =>
      rw [unseen]
      split
      · exact ih seen
      · rw [List.map_cons, List.nodup_cons]
        refine ⟨?_, ih (keyOf m :: seen)⟩
        intro hm
        exact (mem_unseen_iff.mp hm).2 List.mem_cons_self

end

variable {node : Type}

/-!
# Entering nodes
-/

section

variable [DecidableEq node]

def enter (w : List node × List node) (y : node) : List node × List node :=
  if y ∈ w.1 then w else (y :: w.1, w.2 ++ [y])

theorem foldl_enter (ys : List node) (w : List node × List node) :
    exists new : List node,
      (ys.foldl enter w).2 = w.2 ++ new ∧
      (forall y, y ∈ (ys.foldl enter w).1 ↔ y ∈ w.1 ∨ y ∈ new) ∧
      new.Nodup ∧
      forall y, y ∈ new ↔ y ∉ w.1 ∧ y ∈ ys := by
  induction ys generalizing w with
  | nil =>
      exact ⟨[], by simp⟩
  | cons x rest ih =>
      rw [List.foldl_cons]
      by_cases hx : x ∈ w.1
      · rw [enter, if_pos hx]
        obtain ⟨new, hlevel, hvisited, hnodup, hnew⟩ := ih w
        refine ⟨new, hlevel, hvisited, hnodup, ?_⟩
        intro y
        rw [hnew, List.mem_cons]
        refine and_congr_right ?_
        intro hfresh
        have hne : y ≠ x := fun heq => hfresh (heq ▸ hx)
        exact (or_iff_right hne).symm
      · rw [enter, if_neg hx]
        obtain ⟨new, hlevel, hvisited, hnodup, hnew⟩ := ih (x :: w.1, w.2 ++ [x])
        have hfresh : x ∉ new := fun hmem => ((hnew x).mp hmem).1 List.mem_cons_self
        refine ⟨x :: new, ?_, ?_, List.nodup_cons.mpr ⟨hfresh, hnodup⟩, ?_⟩
        · rw [hlevel, List.append_assoc, List.singleton_append]
        · intro y
          rw [hvisited, List.mem_cons, List.mem_cons, or_assoc]
          exact or_left_comm
        · intro y
          rw [List.mem_cons, hnew, List.mem_cons, List.mem_cons]
          by_cases hy : y = x
          · simp [hy, hx]
          · simp [hy]

def nextLevel (next : node -> List node) (visited level : List node) :
    List node × List node :=
  level.foldl (fun w x => (next x).foldl enter w) (visited, [])

def levelRounds (next : node -> List node) :
    Nat -> List node -> List node -> List node
  | 0, visited, _ => visited
  | n + 1, visited, level =>
      let w := nextLevel next visited level
      if w.2 = [] then w.1 else levelRounds next n w.1 w.2

end

/-!
# Levels
-/

/-- The nodes within a distance and the nodes at it. -/
structure Levels (next : node -> List node) (a : node) (n : Nat)
    (visited level : List node) : Prop where
  visited : forall x, x ∈ visited ↔ exists m, m ≤ n ∧ Distance next a m x
  level : forall x, x ∈ level ↔ Distance next a n x

theorem levels_start (next : node -> List node) (a : node) :
    Levels next a 0 [a] [a] := by
  have hzero : forall x, x ∈ [a] ↔ Distance next a 0 x := by
    intro x
    rw [List.mem_singleton]
    constructor
    · rintro rfl
      exact distance_zero next x
    · exact fun h => h.1.eq_start
  refine ⟨?_, hzero⟩
  intro x
  rw [hzero]
  constructor
  · exact fun h => ⟨0, Nat.le_refl 0, h⟩
  · rintro ⟨m, hm, h⟩
    rwa [Nat.le_zero.mp hm] at h

variable {next : node -> List node} {a : node} {n : Nat} {visited level : List node}

theorem Levels.step (h : Levels next a n visited level) {visited' level' : List node}
    (hvisited : forall y, y ∈ visited' ↔ y ∈ visited ∨ y ∈ level')
    (hlevel : forall y, y ∈ level' ↔ y ∉ visited ∧ exists x, x ∈ level ∧ y ∈ next x) :
    Levels next a (n + 1) visited' level' := by
  have hnext : forall y, y ∈ level' ↔ Distance next a (n + 1) y := by
    intro y
    rw [hlevel, h.visited]
    constructor
    · rintro ⟨hfar, x, hx, hy⟩
      obtain ⟨m, hm, hdist⟩ := ((h.level x).mp hx).neighbour hy
      have hne : ¬ m ≤ n := fun hle => hfar ⟨m, hle, hdist⟩
      rwa [show m = n + 1 by omega] at hdist
    · intro hdist
      obtain ⟨x, hx, hy⟩ := hdist.nearer
      refine ⟨?_, x, (h.level x).mpr hx, hy⟩
      rintro ⟨m, hm, hdist'⟩
      have heq := hdist'.unique hdist
      omega
  refine ⟨?_, hnext⟩
  intro y
  rw [hvisited, h.visited, hnext]
  constructor
  · rintro (⟨m, hm, hdist⟩ | hdist)
    · exact ⟨m, Nat.le_succ_of_le hm, hdist⟩
    · exact ⟨n + 1, Nat.le_refl _, hdist⟩
  · rintro ⟨m, hm, hdist⟩
    rcases Nat.le_or_eq_of_le_succ hm with hle | rfl
    · exact Or.inl ⟨m, hle, hdist⟩
    · exact Or.inr hdist

variable {x : node}

theorem Distance.below {m : Nat} (hempty : forall y, ¬ Distance next a n y)
    (hx : Distance next a m x) :
    m < n := by
  by_contra hle
  obtain ⟨k, rfl⟩ := Nat.exists_eq_add_of_le (Nat.not_lt.mp hle)
  induction k generalizing x with
  | zero => exact hempty x hx
  | succ k ih =>
      obtain ⟨y, hy, _⟩ := hx.nearer
      exact ih hy (by omega)

/-!
# Additional neighbours
-/

/-- Additional neighbours leave the distances up to a limit exactly when they are, for
every node nearer than the limit, at most one further away than it. -/
theorem distance_agrees_iff {next' : node -> List node}
    (hsub : forall x y, y ∈ next x -> y ∈ next' x) (limit : Nat) :
    (forall n x, n ≤ limit -> (Distance next a n x ↔ Distance next' a n x)) ↔
      forall n x, n < limit -> Distance next a n x -> forall y, y ∈ next' x ->
        exists m, m ≤ n + 1 ∧ Distance next a m y := by
  constructor
  · intro hagree n x hn hx y hy
    obtain ⟨m, hm, hdist⟩ := ((hagree n x (Nat.le_of_lt hn)).mp hx).neighbour hy
    exact ⟨m, hm, (hagree m y (Nat.le_trans hm hn)).mpr hdist⟩
  · intro hnear
    have hpath : forall n x, Path next' a n x -> n ≤ limit ->
        exists m, m ≤ n ∧ Distance next a m x := by
      intro n x hpath
      induction hpath with
      | nil => exact fun _ => ⟨0, Nat.le_refl 0, distance_zero next a⟩
      | @snoc n x y _ hy ih =>
          intro hn
          obtain ⟨m, hm, hx⟩ := ih (Nat.le_of_succ_le hn)
          obtain ⟨k, hk, hdist⟩ := hnear m x (Nat.lt_of_le_of_lt hm hn) hx y hy
          exact ⟨k, Nat.le_trans hk (Nat.succ_le_succ hm), hdist⟩
    intro n x hn
    constructor
    · intro hx
      refine ⟨hx.1.mono hsub, ?_⟩
      intro m hm
      by_contra hlt
      obtain ⟨k, hk, hdist⟩ := hpath m x hm (by omega)
      have hle := hx.2 k hdist.1
      omega
    · intro hx
      obtain ⟨m, hm, hdist⟩ := hpath n x hx.1 hn
      have hle := hx.2 m (hdist.1.mono hsub)
      rwa [Nat.le_antisymm hle hm]

theorem Distance.pos_iff (h : Distance next a n x) : 0 < n ↔ x ≠ a := by
  constructor
  · rintro hpos rfl
    exact absurd (h.unique (distance_zero next x)) (Nat.pos_iff_ne_zero.mp hpos)
  · intro hne
    cases n with
    | zero => exact absurd h.1.eq_start hne
    | succ n => exact Nat.succ_pos n

theorem distance_zero_iff : Distance next a 0 x ↔ x = a := by
  constructor
  · exact fun h => h.1.eq_start
  · rintro rfl
    exact distance_zero next x

theorem distance_one_iff : Distance next a 1 x ↔ x ≠ a ∧ x ∈ next a := by
  constructor
  · intro h
    obtain ⟨y, hy, hx⟩ := h.nearer
    rw [distance_zero_iff.mp hy] at hx
    exact ⟨h.pos_iff.mp Nat.zero_lt_one, hx⟩
  · rintro ⟨hne, hx⟩
    refine ⟨Path.snoc Path.nil hx, ?_⟩
    intro m hm
    cases m with
    | zero => exact absurd hm.eq_start hne
    | succ m => exact Nat.succ_le_succ (Nat.zero_le m)

variable [DecidableEq node]

theorem Levels.succ (h : Levels next a n visited level) :
    Levels next a (n + 1) (nextLevel next visited level).1
      (nextLevel next visited level).2 := by
  have hflat : nextLevel next visited level =
      (level.flatMap next).foldl enter (visited, []) :=
    List.foldl_flatMap.symm
  obtain ⟨new, hlevel, hvisited, _, hnew⟩ :=
    foldl_enter (level.flatMap next) (visited, [])
  rw [List.nil_append] at hlevel
  rw [hflat, hlevel]
  refine h.step hvisited ?_
  intro y
  rw [hnew, List.mem_flatMap]

theorem Levels.rounds (h : Levels next a n visited level) (k : Nat) (x : node) :
    x ∈ levelRounds next k visited level ↔
      exists m, m ≤ n + k ∧ Distance next a m x := by
  induction k generalizing n visited level with
  | zero =>
      exact h.visited x
  | succ k ih =>
      have hnext := h.succ
      unfold levelRounds
      dsimp only
      split
      · next hempty =>
        rw [hempty] at hnext
        rw [hnext.visited]
        constructor
        · rintro ⟨m, hm, hdist⟩
          exact ⟨m, by omega, hdist⟩
        · rintro ⟨m, _, hdist⟩
          have hlt := hdist.below (fun y hy => List.not_mem_nil ((hnext.level y).mpr hy))
          exact ⟨m, by omega, hdist⟩
      · rw [ih hnext, Nat.add_right_comm n 1 k]
        rfl

end Search
end PostCortex
