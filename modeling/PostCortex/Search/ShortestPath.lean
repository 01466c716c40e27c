import Mathlib.Combinatorics.SimpleGraph.Metric
import PostCortex.Search.BreadthFirst

/-!
# Breadth-first search for a shortest path

A search that keeps the path to every node of its queue and ends at the first
neighbour that is the goal.  Without the paths it is the search to a depth that is
never reached, so the path to a node is as long as its depth, and a goal not seen
among the nodes of lesser depth is no nearer.
-/

namespace PostCortex
namespace Search

variable {node : Type}

section

variable [DecidableEq node]

structure Frontier (node : Type) where
  visited : List node
  queue : List (node × List node)

def Frontier.start (a : node) : Frontier node :=
  ⟨[a], [(a, [a])]⟩

def meetNeighbours (goal : node) (path : List node) :
    List node -> Frontier node -> Except (List node) (Frontier node)
  | [], w => Except.ok w
  | y :: ys, w =>
      if y = goal then Except.error (path ++ [y])
      else if y ∈ w.visited then meetNeighbours goal path ys w
      else
        meetNeighbours goal path ys
          ⟨y :: w.visited, w.queue ++ [(y, path ++ [y])]⟩

def searchPath (next : node -> List node) (goal : node) :
    Nat -> Frontier node -> Option (Option (List node))
  | 0, w => if w.queue = [] then some none else none
  | fuel + 1, w =>
      match w.queue with
      | [] => some none
      | (x, path) :: rest =>
          match meetNeighbours goal path (next x) ⟨w.visited, rest⟩ with
          | Except.error found => some (some found)
          | Except.ok w => searchPath next goal fuel w

/-- The nodes of a path from `a`, the last one named. -/
inductive Trail (next : node -> List node) (a : node) : List node -> node -> Prop where
  | start : Trail next a [a] a
  | step {p : List node} {x y : node} :
      Trail next a p x ->
      y ∈ next x ->
      Trail next a (p ++ [y]) y

structure Shortest (next : node -> List node) (a goal : node) (p : List node) :
    Prop where
  trail : Trail next a p goal
  nodup : p.Nodup
  length : exists n, p.length = n + 1 ∧ Distance next a n goal

structure Answers (next : node -> List node) (a goal : node)
    (answer : Option (List node)) : Prop where
  missing : answer = none ↔ forall n, ¬ Path next a n goal
  found : forall p, answer = some p -> Shortest next a goal p

end

/-!
# The depth of a path
-/

def label (p : node × List node) : node × Nat :=
  (p.1, p.2.length - 1)

def Frontier.walk (w : Frontier node) (found : List node) : Walk node :=
  ⟨w.visited, w.queue.map label, found⟩

section

variable {next : node -> List node} {a x : node} {p : List node}

theorem Trail.length_pos (h : Trail next a p x) : 0 < p.length := by
  cases h with
  | start => exact Nat.zero_lt_one
  | step _ _ => simp

theorem Trail.path (h : Trail next a p x) : Path next a (p.length - 1) x := by
  induction h with
  | start => exact Path.nil
  | @step p x y hp hy ih =>
      have hlength : (p ++ [y]).length - 1 = p.length - 1 + 1 := by
        have hpos := hp.length_pos
        rw [List.length_append, List.length_singleton]
        omega
      rw [hlength]
      exact Path.snoc ih hy

end

/-!
# The neighbours of one node
-/

variable {goal : node} {ys : List node}

theorem meetNeighbours_goal [DecidableEq node] (h : goal ∈ ys) (path : List node)
    (w : Frontier node) :
    meetNeighbours goal path ys w = Except.error (path ++ [goal]) := by
  induction ys generalizing w with
  | nil =>
      cases h
  | cons y ys ih =>
      unfold meetNeighbours
      by_cases hy : y = goal
      · rw [if_pos hy, hy]
      · have hrest := (List.mem_cons.mp h).resolve_left (fun heq => hy heq.symm)
        rw [if_neg hy, ih hrest, ih hrest]
        split <;> rfl

theorem meetNeighbours_visit [DecidableEq node] (h : goal ∉ ys) (path : List node)
    (w : Frontier node)
    (found : List node) :
    exists w', meetNeighbours goal path ys w = Except.ok w' ∧
      w'.walk found = ys.foldl (visit path.length) (w.walk found) ∧
      (forall y, y ∈ w'.visited -> y ∈ w.visited ∨ y ∈ ys) ∧
      w.visited ⊆ w'.visited ∧
      forall p, p ∈ w'.queue -> p ∈ w.queue ∨
        p.1 ∈ ys ∧ p.1 ∉ w.visited ∧ p.1 ∈ w'.visited ∧ p.2 = path ++ [p.1] := by
  induction ys generalizing w with
  | nil =>
      exact ⟨w, rfl, rfl, fun _ hy => Or.inl hy, List.Subset.refl _,
        fun _ hp => Or.inl hp⟩
  | cons y ys ih =>
      have hy : y ≠ goal := fun heq => h (heq ▸ List.mem_cons_self)
      have hrest : goal ∉ ys := fun hmem => h (List.mem_cons_of_mem _ hmem)
      unfold meetNeighbours
      rw [if_neg hy, List.foldl_cons]
      by_cases hvisited : y ∈ w.visited
      · have hsame : visit path.length (w.walk found) y = w.walk found :=
          if_pos hvisited
        obtain ⟨w', hmeet, hwalk, hnew, hsub, hqueue⟩ := ih hrest w
        rw [if_pos hvisited, hsame]
        refine ⟨w', hmeet, hwalk, ?_, hsub, ?_⟩
        · intro z hz
          exact (hnew z hz).imp_right (List.mem_cons_of_mem _)
        · intro p hp
          exact (hqueue p hp).imp_right (fun hadd =>
            ⟨List.mem_cons_of_mem _ hadd.1, hadd.2⟩)
      · have hadded : visit path.length (w.walk found) y =
            Frontier.walk ⟨y :: w.visited, w.queue ++ [(y, path ++ [y])]⟩ found := by
          rw [visit, if_neg (show y ∉ (w.walk found).visited from hvisited)]
          simp [Frontier.walk, label]
        obtain ⟨w', hmeet, hwalk, hnew, hsub, hqueue⟩ :=
          ih hrest ⟨y :: w.visited, w.queue ++ [(y, path ++ [y])]⟩
        rw [if_neg hvisited, hadded]
        refine ⟨w', hmeet, hwalk, ?_, ?_, ?_⟩
        · intro z hz
          rcases hnew z hz with hold | hmem
          · rcases List.mem_cons.mp hold with rfl | hold
            · exact Or.inr List.mem_cons_self
            · exact Or.inl hold
          · exact Or.inr (List.mem_cons_of_mem _ hmem)
        · exact fun z hz => hsub (List.mem_cons_of_mem _ hz)
        · intro p hp
          rcases hqueue p hp with hold | ⟨hmem, hfresh, hin, hpath⟩
          · rcases List.mem_append.mp hold with hold | hlast
            · exact Or.inl hold
            · rw [List.mem_singleton.mp hlast]
              exact Or.inr ⟨List.mem_cons_self, hvisited, hsub List.mem_cons_self,
                rfl⟩
          · exact Or.inr ⟨List.mem_cons_of_mem _ hmem,
              fun hold => hfresh (List.mem_cons_of_mem _ hold), hin, hpath⟩

/-!
# Nodes above a depth
-/

section

variable {next : node -> List node} {maxDepth : Nat} {a : node} {w : Walk node}
  {done : List (node × Nat)}

variable {p : node × Nat}

theorem Labelled.taken_of_lt (h : Labelled next maxDepth a w done) {q : node × Nat}
    (hhead : w.queue.head? = some p) (hq : q ∈ done ++ w.queue) (hlt : q.2 < p.2) :
    q ∈ done := by
  rcases List.mem_append.mp hq with hdone | hqueue
  · exact hdone
  · obtain ⟨rest, hrest⟩ := List.head?_eq_some_iff.mp hhead
    have hsorted := (List.pairwise_append.mp h.sorted).2.1
    rw [hrest] at hsorted hqueue
    rcases List.mem_cons.mp hqueue with rfl | hmem
    · exact absurd hlt (Nat.lt_irrefl _)
    · exact absurd hlt (Nat.not_lt.mpr ((List.pairwise_cons.mp hsorted).1 q hmem))

theorem Labelled.level (h : Labelled next maxDepth a w done)
    (hhead : w.queue.head? = some p) {n : Nat} {x : node} (hpath : Path next a n x)
    (hn : n ≤ p.2) :
    exists q, q ∈ done ++ w.queue ∧ q.1 = x ∧ q.2 ≤ n := by
  have hhere : p ∈ done ++ w.queue :=
    List.mem_append_right _ (List.mem_of_head? hhead)
  induction hpath with
  | nil =>
      exact ⟨(a, 0), h.first, rfl, Nat.le_refl _⟩
  | @snoc n x y _ hy ih =>
      obtain ⟨q, hq, rfl, hle⟩ := ih (Nat.le_of_succ_le hn)
      have hlt : q.2 < p.2 := Nat.lt_of_le_of_lt hle hn
      have hwithin := h.within p hhere
      obtain ⟨r, hr, hfst, hlabel⟩ :=
        h.closed q (h.taken_of_lt hhead hq hlt) (Nat.lt_of_lt_of_le hlt hwithin) y hy
      exact ⟨r, hr, hfst, Nat.le_trans hlabel (Nat.succ_le_succ hle)⟩

end

/-!
# Paths kept
-/

structure Trailed (next : node -> List node) (maxDepth : Nat) (a goal : node)
    (w : Frontier node) (done : List (node × List node)) : Prop where
  labelled : exists found, Labelled next maxDepth a (w.walk found) (done.map label)
  trail : forall p, p ∈ done ++ w.queue ->
    Trail next a p.2 p.1 ∧ p.2.Nodup ∧ p.2 ⊆ w.visited
  unmet : goal ∉ w.visited
  missed : forall p, p ∈ done -> goal ∉ next p.1

theorem trailed_start (next : node -> List node) (maxDepth : Nat) {a : node}
    (hne : a ≠ goal) :
    Trailed next maxDepth a goal (Frontier.start a) [] where
  labelled := ⟨[], labelled_start next maxDepth a⟩
  trail := by
    intro p hp
    rw [List.mem_singleton.mp hp]
    exact ⟨Trail.start, List.nodup_singleton a, List.Subset.refl _⟩
  unmet := fun hmem => hne (List.mem_singleton.mp hmem).symm
  missed := fun p hp => absurd hp List.not_mem_nil

section

variable {next : node -> List node} {maxDepth : Nat} {a goal : node}
  {w : Frontier node} {done : List (node × List node)}

theorem label_append (done : List (node × List node)) (w : Frontier node) :
    done.map label ++ w.queue.map label = (done ++ w.queue).map label :=
  List.map_append.symm

variable {x : node}

theorem Trailed.mem_visited (h : Trailed next maxDepth a goal w done) :
    x ∈ w.visited ↔ exists p, p ∈ done ++ w.queue ∧ p.1 = x := by
  obtain ⟨found, hlabelled⟩ := h.labelled
  have hvisited := hlabelled.visited x
  dsimp only [Frontier.walk] at hvisited
  rw [hvisited, label_append, List.map_map, List.mem_map]
  rfl

variable {rest : List (node × List node)}

theorem Trailed.expand [DecidableEq node]
    (h : Trailed next maxDepth a goal w done) {path : List node}
    (hqueue : w.queue = (x, path) :: rest) (hshort : path.length ≤ maxDepth)
    (hgoal : goal ∉ next x) :
    exists w', meetNeighbours goal path (next x) ⟨w.visited, rest⟩ = Except.ok w' ∧
      Trailed next maxDepth a goal w' (done ++ [(x, path)]) := by
  obtain ⟨found, hlabelled⟩ := h.labelled
  have hhere : (x, path) ∈ done ++ w.queue := by
    rw [hqueue]
    exact List.mem_append_right _ List.mem_cons_self
  obtain ⟨htrail, hnodup, hsub⟩ := h.trail _ hhere
  have hpos : 0 < path.length := htrail.length_pos
  have hdepth : path.length = path.length - 1 + 1 := by omega
  obtain ⟨w', hmeet, hwalk, hnew, hmono, hadded⟩ := meetNeighbours_visit hgoal path
    ⟨w.visited, rest⟩ (if 0 < path.length - 1 then found ++ [x] else found)
  -- the round of the search to a depth
  have hexpand : Search.expand next maxDepth (w.walk found) x (path.length - 1)
      (rest.map label) =
        w'.walk (if 0 < path.length - 1 then found ++ [x] else found) := by
    rw [hwalk, Search.expand, if_neg (by omega), ← hdepth]
    rfl
  have hhead : (w.walk found).queue = (x, path.length - 1) :: rest.map label := by
    rw [Frontier.walk, hqueue]
    rfl
  have hround := hlabelled.expand hhead
  rw [hexpand] at hround
  refine ⟨w', hmeet, ⟨_, by rw [List.map_append]; exact hround⟩, ?_, ?_, ?_⟩
  · intro p hp
    have hold : p ∈ done ++ w.queue -> Trail next a p.2 p.1 ∧ p.2.Nodup ∧
        p.2 ⊆ w'.visited := by
      intro hmem
      obtain ⟨htrail, hnodup, hsub⟩ := h.trail p hmem
      exact ⟨htrail, hnodup, fun y hy => hmono (hsub hy)⟩
    rw [List.append_assoc] at hp
    rcases List.mem_append.mp hp with hdone | hp
    · exact hold (List.mem_append_left _ hdone)
    · rcases List.mem_cons.mp hp with rfl | hp
      · exact hold hhere
      · rcases hadded p hp with hrest | ⟨hmem, hfresh, hin, hpath⟩
        · refine hold (List.mem_append_right _ ?_)
          rw [hqueue]
          exact List.mem_cons_of_mem _ hrest
        · rw [hpath]
          refine ⟨Trail.step htrail hmem, ?_, ?_⟩
          · refine List.nodup_append.mpr ⟨hnodup, List.nodup_singleton _, ?_⟩
            intro y hy z hz heq
            rw [List.mem_singleton.mp hz] at heq
            exact hfresh (heq ▸ hsub hy)
          · intro y hy
            rcases List.mem_append.mp hy with hy | hlast
            · exact hmono (hsub hy)
            · rw [List.mem_singleton.mp hlast]
              exact hin
  · intro hmem
    rcases hnew goal hmem with hold | hnext
    · exact h.unmet hold
    · exact hgoal hnext
  · intro p hp
    rcases List.mem_append.mp hp with hdone | hlast
    · exact h.missed p hdone
    · rw [List.mem_singleton.mp hlast]
      exact hgoal

theorem Trailed.answer (h : Trailed next maxDepth a goal w done) {path : List node}
    (hqueue : w.queue = (x, path) :: rest) (hgoal : goal ∈ next x) :
    Shortest next a goal (path ++ [goal]) := by
  obtain ⟨found, hlabelled⟩ := h.labelled
  have hhere : (x, path) ∈ done ++ w.queue := by
    rw [hqueue]
    exact List.mem_append_right _ List.mem_cons_self
  obtain ⟨htrail, hnodup, hsub⟩ := h.trail _ hhere
  have hpos : 0 < path.length := htrail.length_pos
  have hstep := Trail.step htrail hgoal
  refine ⟨hstep, ?_, path.length, by simp, ?_, ?_⟩
  · refine List.nodup_append.mpr ⟨hnodup, List.nodup_singleton _, ?_⟩
    intro y hy z hz heq
    rw [List.mem_singleton.mp hz] at heq
    exact h.unmet (heq ▸ hsub hy)
  · have hpath := hstep.path
    rwa [List.length_append, List.length_singleton, Nat.add_sub_cancel] at hpath
  · intro n hn
    by_contra hlt
    cases n with
    | zero =>
        refine h.unmet (h.mem_visited.mpr ?_)
        obtain ⟨q, hq, hq'⟩ := List.mem_map.mp (by
          have hfirst := hlabelled.first
          dsimp only [Frontier.walk] at hfirst
          rwa [label_append] at hfirst)
        refine ⟨q, hq, ?_⟩
        rw [hn.eq_start]
        exact congrArg Prod.fst hq'
    | succ n =>
        -- a node before the goal on a shorter path was taken already
        obtain ⟨z, hz, hnext⟩ := hn.last
        have hhead : (w.walk found).queue.head? = some (x, path.length - 1) := by
          rw [Frontier.walk, hqueue]
          rfl
        obtain ⟨q, hq, hfst, hle⟩ := hlabelled.level hhead hz (by dsimp only; omega)
        have hdone := hlabelled.taken_of_lt hhead hq (by dsimp only; omega)
        obtain ⟨p, hp, rfl⟩ := List.mem_map.mp hdone
        have hsame : p.1 = z := hfst
        exact h.missed p hp (hsame ▸ hnext)

theorem Trailed.unreachable (h : Trailed next maxDepth a goal w done)
    (hempty : w.queue = [])
    (hshort : forall p, p ∈ done ++ w.queue -> p.2.length ≤ maxDepth) (n : Nat) :
    ¬ Path next a n goal := by
  obtain ⟨found, hlabelled⟩ := h.labelled
  have hall : forall p, p ∈ done.map label ++ (w.walk found).queue ->
      exists q, q ∈ done ∧ label q = p := by
    intro p hp
    dsimp only [Frontier.walk] at hp
    rw [hempty, List.map_nil, List.append_nil] at hp
    exact List.mem_map.mp hp
  have hreached : forall n x, Path next a n x -> exists q, q ∈ done ∧ q.1 = x := by
    intro n x hpath
    induction hpath with
    | nil =>
        obtain ⟨q, hq, heq⟩ := hall _ hlabelled.first
        exact ⟨q, hq, congrArg Prod.fst heq⟩
    | @snoc n x y _ hy ih =>
        obtain ⟨q, hq, rfl⟩ := ih
        have hmem : q ∈ done ++ w.queue := List.mem_append_left _ hq
        have hpos := (h.trail q hmem).1.length_pos
        have hle := hshort q hmem
        obtain ⟨r, hr, hfst, _⟩ := hlabelled.closed (label q) (List.mem_map_of_mem hq)
          (by dsimp only [label]; omega) y hy
        obtain ⟨q', hq', rfl⟩ := hall r hr
        exact ⟨q', hq', hfst⟩
  intro hpath
  obtain ⟨q, hq, heq⟩ := hreached n goal hpath
  exact h.unmet (h.mem_visited.mpr ⟨q, List.mem_append_left _ hq, heq⟩)

variable {nodes : List node}

theorem Trailed.bounds (h : Trailed next maxDepth a goal w done)
    (hnodes : forall n x, Path next a n x -> x ∈ nodes) :
    (done ++ w.queue).length ≤ nodes.length ∧
      forall p, p ∈ done ++ w.queue -> p.2.length ≤ nodes.length := by
  obtain ⟨found, hlabelled⟩ := h.labelled
  have hvisited : w.visited ⊆ nodes := by
    intro x hx
    obtain ⟨p, hp, rfl⟩ := h.mem_visited.mp hx
    exact hnodes _ _ (h.trail p hp).1.path
  constructor
  · have hnodup := hlabelled.nodup
    dsimp only [Frontier.walk] at hnodup
    rw [label_append, List.map_map] at hnodup
    have hsub : (done ++ w.queue).map (Prod.fst ∘ label) ⊆ nodes := by
      intro x hx
      obtain ⟨p, hp, rfl⟩ := List.mem_map.mp hx
      exact hvisited (h.mem_visited.mpr ⟨p, hp, rfl⟩)
    have hlength := (List.subperm_of_subset hnodup hsub).length_le
    rwa [List.length_map] at hlength
  · intro p hp
    obtain ⟨_, hnodup, hsub⟩ := h.trail p hp
    exact (List.subperm_of_subset hnodup (fun x hx => hvisited (hsub hx))).length_le

theorem Trailed.search [DecidableEq node] (hnodes : forall n x, Path next a n x -> x ∈ nodes)
    {fuel : Nat} (h : Trailed next nodes.length a goal w done)
    (hfuel : nodes.length ≤ done.length + fuel) :
    exists answer, searchPath next goal fuel w = some answer ∧
      Answers next a goal answer := by
  have hmissing : forall {w : Frontier node} {done : List (node × List node)},
      Trailed next nodes.length a goal w done -> w.queue = [] ->
        Answers next a goal none := by
    intro w done h hempty
    refine ⟨⟨fun _ => h.unreachable hempty (h.bounds hnodes).2, fun _ => rfl⟩, ?_⟩
    intro p hp
    cases hp
  induction fuel generalizing w done with
  | zero =>
      have hcount := (h.bounds hnodes).1
      rw [List.length_append] at hcount
      have hempty : w.queue = [] := List.eq_nil_of_length_eq_zero (by omega)
      refine ⟨none, ?_, hmissing h hempty⟩
      rw [searchPath, if_pos hempty]
  | succ fuel ih =>
      rw [searchPath]
      cases hqueue : w.queue with
      | nil =>
          exact ⟨none, rfl, hmissing h hqueue⟩
      | cons p rest =>
          obtain ⟨x, path⟩ := p
          dsimp only
          by_cases hgoal : goal ∈ next x
          · rw [meetNeighbours_goal hgoal]
            have hshortest := h.answer hqueue hgoal
            obtain ⟨n, _, hdistance⟩ := hshortest.length
            refine ⟨some (path ++ [goal]), rfl,
              ⟨?_, fun hnone => absurd hdistance.1 (hnone n)⟩, ?_⟩
            · intro hnone
              cases hnone
            · intro q hq
              rw [← Option.some.inj hq]
              exact hshortest
          · have hshort : path.length ≤ nodes.length := by
              refine (h.bounds hnodes).2 (x, path) ?_
              rw [hqueue]
              exact List.mem_append_right _ List.mem_cons_self
            obtain ⟨w', hmeet, htrailed⟩ := h.expand hqueue hshort hgoal
            rw [hmeet]
            refine ih htrailed ?_
            rw [List.length_append, List.length_singleton]
            omega

theorem searchPath_answers [DecidableEq node]
    (hnodes : forall n x, Path next a n x -> x ∈ nodes)
    (hne : a ≠ goal) :
    exists answer, searchPath next goal nodes.length (Frontier.start a) = some answer ∧
      Answers next a goal answer :=
  (trailed_start next nodes.length hne).search hnodes (by simp)

end

/-!
# Undirected graphs
-/

section

variable {next : node -> List node} {G : SimpleGraph node} {a x y : node}

theorem Path.cons {n : Nat} (hx : x ∈ next a) (h : Path next x n y) :
    Path next a (n + 1) y := by
  induction h with
  | nil => exact Path.snoc Path.nil hx
  | snoc _ hy ih => exact Path.snoc ih hy

theorem Path.of_walk (hadj : forall x y, G.Adj x y -> y ∈ next x) (walk : G.Walk x y) :
    Path next x walk.length y := by
  induction walk with
  | nil => exact Path.nil
  | cons hedge _ ih => exact Path.cons (hadj _ _ hedge) ih

theorem Path.reachable (hedge : forall x y, y ∈ next x -> x = y ∨ G.Adj x y) {n : Nat}
    (h : Path next a n x) :
    G.Reachable a x := by
  induction h with
  | nil => exact SimpleGraph.Reachable.refl _
  | @snoc n x y _ hy ih =>
      rcases hedge x y hy with rfl | hxy
      · exact ih
      · exact ih.trans hxy.reachable

theorem Trail.walk (hedge : forall x y, y ∈ next x -> x = y ∨ G.Adj x y) {p : List node}
    (h : Trail next a p x) (hnodup : p.Nodup) :
    exists walk : G.Walk a x, walk.support = p := by
  induction h with
  | start => exact ⟨SimpleGraph.Walk.nil, rfl⟩
  | @step p x y hp hy ih =>
      obtain ⟨hold, -, hfresh⟩ := List.nodup_append.mp hnodup
      obtain ⟨walk, hwalk⟩ := ih hold
      have hx : x ∈ p := hwalk ▸ walk.end_mem_support
      rcases hedge x y hy with rfl | hxy
      · exact absurd rfl (hfresh x hx x (List.mem_singleton.mpr rfl))
      · exact ⟨walk.concat hxy, by rw [SimpleGraph.Walk.support_concat, hwalk]⟩

structure Geodesic (G : SimpleGraph node) (a goal : node)
    (answer : Option (List node)) : Prop where
  missing : answer = none ↔ ¬ G.Reachable a goal
  found : forall p, answer = some p ->
    exists walk : G.Walk a goal, walk.support = p ∧ walk.IsPath ∧
      walk.length = G.dist a goal

theorem Answers.geodesic (hadj : forall x y, G.Adj x y -> y ∈ next x)
    (hedge : forall x y, y ∈ next x -> x = y ∨ G.Adj x y) {answer : Option (List node)}
    (h : Answers next a x answer) :
    Geodesic G a x answer where
  missing := by
    rw [h.missing]
    constructor
    · rintro hnone ⟨walk⟩
      exact hnone _ (Path.of_walk hadj walk)
    · exact fun hnone n hpath => hnone (hpath.reachable hedge)
  found := by
    intro p hp
    obtain ⟨htrail, hnodup, n, hlength, hdistance⟩ := h.found p hp
    obtain ⟨walk, rfl⟩ := htrail.walk hedge hnodup
    rw [SimpleGraph.Walk.length_support] at hlength
    obtain ⟨shortest, hshortest⟩ :=
      SimpleGraph.Reachable.exists_walk_length_eq_dist ⟨walk⟩
    have hle := hdistance.2 _ (Path.of_walk hadj shortest)
    refine ⟨walk, rfl, walk.isPath_def.mpr hnodup,
      Nat.le_antisymm ?_ (SimpleGraph.dist_le walk)⟩
    rw [← hshortest]
    omega

theorem geodesic_start (G : SimpleGraph node) (a : node) :
    Geodesic G a a (some [a]) where
  missing := by
    constructor
    · intro h
      cases h
    · exact fun h => absurd (SimpleGraph.Reachable.refl a) h
  found := by
    intro p hp
    refine ⟨SimpleGraph.Walk.nil, Option.some.inj hp, SimpleGraph.Walk.IsPath.nil, ?_⟩
    exact SimpleGraph.dist_self.symm

end

end Search
end PostCortex
