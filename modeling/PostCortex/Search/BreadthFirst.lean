import Mathlib.Data.List.Nodup
import Mathlib.Data.List.Perm.Subperm
import Mathlib.Data.Nat.Find

/-!
# Breadth-first search to a depth

A search from one node along `next`, with a visited set and a queue of nodes
with their depths.  A node is found when it is taken from the queue, and its
neighbours are looked up only above the greatest depth.  The search finds
exactly the other nodes at the end of a path that is not longer, each once, and
needs as many rounds as there are nodes.
-/

namespace PostCortex
namespace Search

variable {node : Type}

section

variable [DecidableEq node]

structure Walk (node : Type) where
  visited : List node
  queue : List (node × Nat)
  found : List node

def visit (depth : Nat) (w : Walk node) (x : node) : Walk node :=
  if x ∈ w.visited then w
  else
    { w with
      visited := x :: w.visited
      queue := w.queue ++ [(x, depth)] }

def expand (next : node -> List node) (maxDepth : Nat) (w : Walk node)
    (x : node) (depth : Nat) (rest : List (node × Nat)) : Walk node :=
  let found := if 0 < depth then w.found ++ [x] else w.found
  if maxDepth ≤ depth then ⟨w.visited, rest, found⟩
  else (next x).foldl (visit (depth + 1)) ⟨w.visited, rest, found⟩

def search (next : node -> List node) (maxDepth : Nat) :
    Nat -> Walk node -> Option (List node)
  | 0, w =>
      match w.queue with
      | [] => some w.found
      | _ :: _ => none
  | fuel + 1, w =>
      match w.queue with
      | [] => some w.found
      | (x, depth) :: rest =>
          search next maxDepth fuel (expand next maxDepth w x depth rest)

def start (a : node) : Walk node :=
  ⟨[a], [(a, 0)], []⟩

inductive Path (next : node -> List node) (a : node) : Nat -> node -> Prop where
  | nil : Path next a 0 a
  | snoc {n : Nat} {x y : node} :
      Path next a n x ->
      y ∈ next x ->
      Path next a (n + 1) y

/-!
# One round
-/

theorem foldl_visit (depth : Nat) (xs : List node) (w : Walk node) :
    exists new : List node,
      (xs.foldl (visit depth) w).queue = w.queue ++ new.map (fun y => (y, depth)) ∧
      (xs.foldl (visit depth) w).found = w.found ∧
      (forall y, y ∈ (xs.foldl (visit depth) w).visited ↔
        y ∈ w.visited ∨ y ∈ new) ∧
      new.Nodup ∧
      (forall y, y ∈ new -> y ∈ xs ∧ y ∉ w.visited) ∧
      forall y, y ∈ xs -> y ∈ w.visited ∨ y ∈ new := by
  induction xs generalizing w with
  | nil =>
      exact ⟨[], by simp⟩
  | cons x rest ih =>
      rw [List.foldl_cons]
      by_cases hx : x ∈ w.visited
      · rw [visit, if_pos hx]
        obtain ⟨new, hqueue, hfound, hvisited, hnodup, hnew, hall⟩ := ih w
        refine ⟨new, hqueue, hfound, hvisited, hnodup, ?_, ?_⟩
        · intro y hy
          exact ⟨List.mem_cons_of_mem _ (hnew y hy).1, (hnew y hy).2⟩
        · intro y hy
          rcases List.mem_cons.mp hy with rfl | hrest
          · exact Or.inl hx
          · exact hall y hrest
      · rw [visit, if_neg hx]
        obtain ⟨new, hqueue, hfound, hvisited, hnodup, hnew, hall⟩ :=
          ih { w with
            visited := x :: w.visited
            queue := w.queue ++ [(x, depth)] }
        refine ⟨x :: new, ?_, hfound, ?_, ?_, ?_, ?_⟩
        · rw [hqueue, List.append_assoc]
          rfl
        · intro y
          rw [hvisited, List.mem_cons, List.mem_cons, or_assoc]
          exact or_left_comm
        · refine List.nodup_cons.mpr ⟨?_, hnodup⟩
          intro hmem
          exact (hnew x hmem).2 List.mem_cons_self
        · intro y hy
          rcases List.mem_cons.mp hy with rfl | hmem
          · exact ⟨List.mem_cons_self, hx⟩
          · exact ⟨List.mem_cons_of_mem _ (hnew y hmem).1,
              fun h => (hnew y hmem).2 (List.mem_cons_of_mem _ h)⟩
        · intro y hy
          rcases List.mem_cons.mp hy with rfl | hrest
          · exact Or.inr List.mem_cons_self
          · rcases hall y hrest with hold | hmem
            · rcases List.mem_cons.mp hold with rfl | hold
              · exact Or.inr List.mem_cons_self
              · exact Or.inl hold
            · exact Or.inr (List.mem_cons_of_mem _ hmem)

theorem expand_cases (next : node -> List node) (maxDepth : Nat)
    (w : Walk node) (x : node) (depth : Nat) (rest : List (node × Nat)) :
    exists new : List node,
      (expand next maxDepth w x depth rest).queue =
        rest ++ new.map (fun y => (y, depth + 1)) ∧
      (expand next maxDepth w x depth rest).found =
        (if 0 < depth then w.found ++ [x] else w.found) ∧
      (forall y, y ∈ (expand next maxDepth w x depth rest).visited ↔
        y ∈ w.visited ∨ y ∈ new) ∧
      new.Nodup ∧
      (forall y, y ∈ new -> y ∈ next x ∧ y ∉ w.visited ∧ depth < maxDepth) ∧
      (depth < maxDepth -> forall y, y ∈ next x -> y ∈ w.visited ∨ y ∈ new) := by
  unfold expand
  dsimp only
  split
  · next hdeep =>
    refine ⟨[], ?_⟩
    simp [Nat.not_lt.mpr hdeep]
  · next hshallow =>
    obtain ⟨new, hqueue, hfound, hvisited, hnodup, hnew, hall⟩ :=
      foldl_visit (depth + 1) (next x)
        ⟨w.visited, rest, if 0 < depth then w.found ++ [x] else w.found⟩
    exact ⟨new, hqueue, hfound, hvisited, hnodup,
      fun y hy => ⟨(hnew y hy).1, (hnew y hy).2, Nat.not_le.mp hshallow⟩,
      fun _ => hall⟩

end

/-!
# Depths

`done` lists the nodes taken from the queue.  All nodes stand in the order of
their depths, the queue spans two depths at most, and a neighbour of a node
taken is at most one deeper.
-/

/-- Entries in the order of their depths, of two depths at most in the queue. -/
structure Layered (done queue : List (node × Nat)) : Prop where
  sorted : (done ++ queue).Pairwise (fun p q => p.2 ≤ q.2)
  span : forall p, queue.head? = some p ->
    forall q, q ∈ done ++ queue -> q.2 ≤ p.2 + 1

def deeper (depth : Nat) (new : List node) : List (node × Nat) :=
  new.map (fun y => (y, depth + 1))

theorem deeper_fst (depth : Nat) (new : List node) :
    (deeper depth new).map Prod.fst = new := by
  rw [deeper, List.map_map]
  exact List.map_id' new

section

variable {done rest : List (node × Nat)} {x : node} {depth : Nat}

theorem append_taken (done rest : List (node × Nat)) (x : node) (depth : Nat)
    (new : List node) :
    done ++ [(x, depth)] ++ (rest ++ deeper depth new) =
      done ++ (x, depth) :: rest ++ deeper depth new := by
  simp

variable {p : node × Nat}

theorem mem_append_deeper {entries : List (node × Nat)} {new : List node}
    (hp : p ∈ entries ++ deeper depth new) :
    p ∈ entries ∨ p.1 ∈ new ∧ p.2 = depth + 1 := by
  rcases List.mem_append.mp hp with hold | hadded
  · exact Or.inl hold
  · obtain ⟨y, hy, rfl⟩ := List.mem_map.mp hadded
    exact Or.inr ⟨hy, rfl⟩

theorem Layered.later (h : Layered done ((x, depth) :: rest)) (hp : p ∈ rest) :
    depth ≤ p.2 :=
  (List.pairwise_cons.mp (List.pairwise_append.mp h.sorted).2.1).1 p hp

theorem Layered.expand (h : Layered done ((x, depth) :: rest)) (new : List node) :
    Layered (done ++ [(x, depth)]) (rest ++ deeper depth new) := by
  have hspan := h.span (x, depth) rfl
  constructor
  · rw [append_taken]
    refine List.pairwise_append.mpr ⟨h.sorted, ?_, ?_⟩
    · rw [deeper, List.pairwise_map]
      exact List.pairwise_of_forall (fun _ _ => Nat.le_refl _)
    · intro p hp q hq
      obtain ⟨y, _, rfl⟩ := List.mem_map.mp hq
      exact hspan p hp
  · intro p hp q hq
    rw [append_taken] at hq
    have hdepth : depth ≤ p.2 := by
      rcases mem_append_deeper (List.mem_of_head? hp) with hold | ⟨_, hlabel⟩
      · exact h.later hold
      · exact hlabel ▸ Nat.le_succ depth
    rcases mem_append_deeper hq with hold | ⟨_, hlabel⟩
    · exact Nat.le_trans (hspan q hold) (Nat.succ_le_succ hdepth)
    · exact hlabel ▸ Nat.succ_le_succ hdepth

end

structure Labelled (next : node -> List node) (maxDepth : Nat) (a : node)
    (w : Walk node) (done : List (node × Nat)) : Prop where
  visited : forall x, x ∈ w.visited ↔ x ∈ (done ++ w.queue).map Prod.fst
  nodup : ((done ++ w.queue).map Prod.fst).Nodup
  path : forall p, p ∈ done ++ w.queue -> Path next a p.2 p.1
  within : forall p, p ∈ done ++ w.queue -> p.2 ≤ maxDepth
  sorted : (done ++ w.queue).Pairwise (fun p q => p.2 ≤ q.2)
  span : forall p, w.queue.head? = some p ->
    forall q, q ∈ done ++ w.queue -> q.2 ≤ p.2 + 1
  closed : forall p, p ∈ done -> p.2 < maxDepth -> forall y, y ∈ next p.1 ->
    exists q, q ∈ done ++ w.queue ∧ q.1 = y ∧ q.2 ≤ p.2 + 1
  found : w.found = (done.filter (fun p => 0 < p.2)).map Prod.fst
  first : (a, 0) ∈ done ++ w.queue

theorem labelled_start (next : node -> List node) (maxDepth : Nat) (a : node) :
    Labelled next maxDepth a (start a) [] where
  visited := by
    intro x
    simp [start]
  nodup := by
    simp [start]
  path := by
    intro p hp
    rw [List.mem_singleton.mp hp]
    exact Path.nil
  within := by
    intro p hp
    rw [List.mem_singleton.mp hp]
    exact Nat.zero_le _
  sorted := List.pairwise_singleton ..
  span := by
    intro p hp q hq
    rw [List.mem_singleton.mp hq]
    exact Nat.zero_le _
  closed := by
    intro p hp
    cases hp
  found := rfl
  first := List.mem_singleton.mpr rfl

theorem found_snoc (done : List (node × Nat)) (x : node) (depth : Nat) :
    ((done ++ [(x, depth)]).filter (fun p => 0 < p.2)).map Prod.fst =
      if 0 < depth then
        (done.filter (fun p => 0 < p.2)).map Prod.fst ++ [x]
      else (done.filter (fun p => 0 < p.2)).map Prod.fst := by
  rw [List.filter_append, List.map_append]
  split
  · next hpos =>
    rw [List.filter_cons_of_pos (by simpa using hpos)]
    rfl
  · next hzero =>
    rw [List.filter_cons_of_neg (by simpa using hzero)]
    exact List.append_nil _

variable {next : node -> List node} {maxDepth : Nat} {a x : node} {w : Walk node}
  {done : List (node × Nat)}

theorem Labelled.expand [DecidableEq node] (h : Labelled next maxDepth a w done) {depth : Nat}
    {rest : List (node × Nat)} (hqueue : w.queue = (x, depth) :: rest) :
    Labelled next maxDepth a (expand next maxDepth w x depth rest)
      (done ++ [(x, depth)]) := by
  obtain ⟨new, hqueue', hfound, hvisited, hnodup, hnew, hall⟩ :=
    expand_cases next maxDepth w x depth rest
  have hlayered : Layered done ((x, depth) :: rest) :=
    ⟨hqueue ▸ h.sorted, hqueue ▸ h.span⟩
  have hsplit : done ++ [(x, depth)] ++ (Search.expand next maxDepth w x depth
      rest).queue = (done ++ w.queue) ++ deeper depth new := by
    rw [hqueue', hqueue]
    exact append_taken done rest x depth new
  have hhere : (x, depth) ∈ done ++ w.queue := by
    rw [hqueue]
    exact List.mem_append_right _ List.mem_cons_self
  constructor
  · intro y
    rw [hsplit, List.map_append, deeper_fst, hvisited, h.visited]
    exact List.mem_append.symm
  · rw [hsplit, List.map_append, deeper_fst]
    refine List.nodup_append.mpr ⟨h.nodup, hnodup, ?_⟩
    intro y hy z hz hyz
    exact (hnew z hz).2.1 (hyz ▸ (h.visited y).mpr hy)
  · intro p hp
    rw [hsplit] at hp
    rcases mem_append_deeper hp with hold | ⟨hmem, hlabel⟩
    · exact h.path p hold
    · rw [hlabel]
      exact Path.snoc (h.path _ hhere) (hnew p.1 hmem).1
  · intro p hp
    rw [hsplit] at hp
    rcases mem_append_deeper hp with hold | ⟨hmem, hlabel⟩
    · exact h.within p hold
    · rw [hlabel]
      exact (hnew p.1 hmem).2.2
  · rw [hqueue']
    exact (hlayered.expand new).sorted
  · rw [hqueue']
    exact (hlayered.expand new).span
  · intro p hp hlt y hy
    rw [hsplit]
    rcases List.mem_append.mp hp with hdone | hlast
    · obtain ⟨q, hq, hrest⟩ := h.closed p hdone hlt y hy
      exact ⟨q, List.mem_append_left _ hq, hrest⟩
    · rw [List.mem_singleton.mp hlast] at hlt hy ⊢
      rcases hall hlt y hy with hold | hmem
      · obtain ⟨q, hq, hfst⟩ := List.mem_map.mp ((h.visited y).mp hold)
        have hspan := h.span (x, depth) (by rw [hqueue]; rfl) q hq
        exact ⟨q, List.mem_append_left _ hq, hfst, hspan⟩
      · exact ⟨(y, depth + 1),
          List.mem_append_right _ (List.mem_map_of_mem hmem), rfl, Nat.le_refl _⟩
  · rw [hfound, found_snoc, h.found]
  · rw [hsplit]
    exact List.mem_append_left _ h.first

/-!
# The whole search
-/

variable {n : Nat}

theorem Labelled.complete (h : Labelled next maxDepth a w done)
    (hempty : w.queue = []) (hpath : Path next a n x) (hn : n ≤ maxDepth) :
    exists p, p ∈ done ∧ p.1 = x ∧ p.2 ≤ n := by
  have hall : forall p, p ∈ done ++ w.queue -> p ∈ done := by
    intro p hp
    rw [hempty, List.append_nil] at hp
    exact hp
  induction hpath with
  | nil =>
      exact ⟨(a, 0), hall _ h.first, rfl, Nat.le_refl _⟩
  | @snoc n x y _ hy ih =>
      obtain ⟨p, hp, rfl, hle⟩ := ih (by omega)
      obtain ⟨q, hq, hfst, hlabel⟩ := h.closed p hp (by omega) y hy
      exact ⟨q, hall q hq, hfst, by omega⟩

theorem Labelled.found_iff (h : Labelled next maxDepth a w done)
    (hempty : w.queue = []) (x : node) :
    x ∈ w.found ↔ x ≠ a ∧ exists n, n ≤ maxDepth ∧ Path next a n x := by
  have hdone : done ++ w.queue = done := by
    rw [hempty, List.append_nil]
  rw [h.found, List.mem_map]
  constructor
  · rintro ⟨p, hp, rfl⟩
    obtain ⟨hp, hpos⟩ := List.mem_filter.mp hp
    have hmem : p ∈ done ++ w.queue := hdone.symm ▸ hp
    refine ⟨?_, p.2, h.within p hmem, h.path p hmem⟩
    intro heq
    have hfirst : p = (a, 0) :=
      List.inj_on_of_nodup_map h.nodup hmem h.first heq
    rw [hfirst] at hpos
    simp at hpos
  · rintro ⟨hne, n, hn, hpath⟩
    obtain ⟨p, hp, hfst, _⟩ := h.complete hempty hpath hn
    refine ⟨p, List.mem_filter.mpr ⟨hp, ?_⟩, hfst⟩
    have hmem : p ∈ done ++ w.queue := hdone.symm ▸ hp
    cases hlabel : p.2 with
    | zero =>
        have hlast := h.path p hmem
        rw [hlabel, hfst] at hlast
        cases hlast
        exact absurd rfl hne
    | succ n =>
        simp

theorem Labelled.found_nodup (h : Labelled next maxDepth a w done) :
    w.found.Nodup := by
  rw [h.found]
  have hdone : (done.map Prod.fst).Nodup :=
    h.nodup.sublist ((List.sublist_append_left _ _).map _)
  exact hdone.sublist (List.filter_sublist.map _)

variable {nodes : List node}

theorem Labelled.search [DecidableEq node] (hnodes : forall n x, Path next a n x -> x ∈ nodes)
    {fuel : Nat} (h : Labelled next maxDepth a w done)
    (hfuel : nodes.length ≤ done.length + fuel) :
    exists found, search next maxDepth fuel w = some found ∧ found.Nodup ∧
      forall x, x ∈ found ↔
        x ≠ a ∧ exists n, n ≤ maxDepth ∧ Path next a n x := by
  induction fuel generalizing w done with
  | zero =>
      have hsub : (done ++ w.queue).map Prod.fst ⊆ nodes := by
        intro x hx
        obtain ⟨p, hp, rfl⟩ := List.mem_map.mp hx
        exact hnodes _ _ (h.path p hp)
      have hlength := (List.subperm_of_subset h.nodup hsub).length_le
      rw [List.length_map, List.length_append] at hlength
      have hempty : w.queue = [] := List.eq_nil_of_length_eq_zero (by omega)
      refine ⟨w.found, ?_, h.found_nodup, h.found_iff hempty⟩
      rw [Search.search, hempty]
  | succ fuel ih =>
      rw [Search.search]
      cases hqueue : w.queue with
      | nil =>
          exact ⟨w.found, rfl, h.found_nodup, h.found_iff hqueue⟩
      | cons p rest =>
          refine ih (h.expand hqueue) ?_
          rw [List.length_append, List.length_singleton]
          omega

theorem search_start [DecidableEq node] (hnodes : forall n x, Path next a n x -> x ∈ nodes)
    (maxDepth : Nat) :
    exists found, search next maxDepth nodes.length (start a) = some found ∧
      found.Nodup ∧
      forall x, x ∈ found ↔
        x ≠ a ∧ exists n, n ≤ maxDepth ∧ Path next a n x :=
  (labelled_start next maxDepth a).search hnodes (by simp)

/-!
# Distances
-/

def Distance (next : node -> List node) (a : node) (n : Nat) (x : node) : Prop :=
  Path next a n x ∧ forall m, Path next a m x -> n ≤ m

theorem Distance.unique {m : Nat} (hn : Distance next a n x)
    (hm : Distance next a m x) :
    n = m :=
  Nat.le_antisymm (hn.2 m hm.1) (hm.2 n hn.1)

theorem Path.distance (h : Path next a n x) :
    exists m, m ≤ n ∧ Distance next a m x := by
  classical
  have hsome : exists m, Path next a m x := ⟨n, h⟩
  exact ⟨Nat.find hsome, Nat.find_min' hsome h, Nat.find_spec hsome,
    fun m hm => Nat.find_min' hsome hm⟩

variable {next' : node -> List node}

theorem Path.mono (hnext : forall x y, y ∈ next x -> y ∈ next' x)
    (h : Path next a n x) :
    Path next' a n x := by
  induction h with
  | nil => exact Path.nil
  | snoc _ hy ih => exact Path.snoc ih (hnext _ _ hy)

theorem distance_congr (hnext : forall x y, y ∈ next x ↔ y ∈ next' x) (a : node)
    (n : Nat) (x : node) :
    Distance next a n x ↔ Distance next' a n x := by
  have hpath : forall m, Path next a m x ↔ Path next' a m x :=
    fun m => ⟨Path.mono (fun x y => (hnext x y).mp), Path.mono (fun x y => (hnext x y).mpr)⟩
  unfold Distance
  simp only [hpath]

theorem distance_zero (next : node -> List node) (a : node) :
    Distance next a 0 a :=
  ⟨Path.nil, fun _ _ => Nat.zero_le _⟩

theorem Path.eq_start (h : Path next a 0 x) :
    x = a := by
  cases h
  rfl

variable {y : node}

theorem Path.last (h : Path next a (n + 1) y) :
    exists x, Path next a n x ∧ y ∈ next x := by
  cases h with
  | @snoc _ x _ hpath hy => exact ⟨x, hpath, hy⟩

theorem Distance.neighbour (h : Distance next a n x) (hy : y ∈ next x) :
    exists m, m ≤ n + 1 ∧ Distance next a m y :=
  (Path.snoc h.1 hy).distance

theorem Distance.nearer (h : Distance next a (n + 1) y) :
    exists x, Distance next a n x ∧ y ∈ next x := by
  obtain ⟨x, hpath, hy⟩ := h.1.last
  refine ⟨x, ⟨hpath, ?_⟩, hy⟩
  intro m hm
  have hle := h.2 _ (Path.snoc hm hy)
  omega

end Search
end PostCortex
