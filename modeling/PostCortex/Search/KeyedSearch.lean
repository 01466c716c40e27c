import PostCortex.Search.BreadthFirst

/-!
# Breadth-first search by keys

The search with a visited set of keys instead of nodes: of two nodes with one
key only the first is taken.  Where the nodes met have different keys it is the
search by nodes.
-/

namespace PostCortex
namespace Search

variable {node key : Type} [DecidableEq key]

structure KeyedWalk (node key : Type) where
  visited : List key
  queue : List (node × Nat)
  found : List node

def visitKey (keyOf : node -> key) (depth : Nat) (w : KeyedWalk node key)
    (x : node) : KeyedWalk node key :=
  if keyOf x ∈ w.visited then w
  else
    { w with
      visited := keyOf x :: w.visited
      queue := w.queue ++ [(x, depth)] }

def expandKeyed (keyOf : node -> key) (next : node -> List node)
    (maxDepth : Nat) (w : KeyedWalk node key) (x : node) (depth : Nat)
    (rest : List (node × Nat)) : KeyedWalk node key :=
  let found := if 0 < depth then w.found ++ [x] else w.found
  if maxDepth ≤ depth then ⟨w.visited, rest, found⟩
  else (next x).foldl (visitKey keyOf (depth + 1)) ⟨w.visited, rest, found⟩

def searchKeyed (keyOf : node -> key) (next : node -> List node)
    (maxDepth : Nat) : Nat -> KeyedWalk node key -> Option (List node)
  | 0, w =>
      match w.queue with
      | [] => some w.found
      | _ :: _ => none
  | fuel + 1, w =>
      match w.queue with
      | [] => some w.found
      | (x, depth) :: rest =>
          searchKeyed keyOf next maxDepth fuel
            (expandKeyed keyOf next maxDepth w x depth rest)

def startKeyed (keyOf : node -> key) (a : node) : KeyedWalk node key :=
  ⟨[keyOf a], [(a, 0)], []⟩

/-!
# Nodes with different keys
-/

def Walk.keyed (keyOf : node -> key) (w : Walk node) : KeyedWalk node key :=
  ⟨w.visited.map keyOf, w.queue, w.found⟩

/-- The nodes are met from nodes of the kind, and different ones of these have
different keys. -/
structure KeysApart (keyOf : node -> key) (next : node -> List node)
    (met : node -> Prop) : Prop where
  next : forall x, met x -> forall y, y ∈ next x -> met y
  inj : forall x y, met x -> met y -> keyOf x = keyOf y -> x = y

structure Met (met : node -> Prop) (w : Walk node) : Prop where
  visited : forall x, x ∈ w.visited -> met x
  queue : forall p, p ∈ w.queue -> met p.1

variable [DecidableEq node] {keyOf : node -> key} {next : node -> List node}
  {met : node -> Prop}

variable {w : Walk node}

theorem KeysApart.visited (h : KeysApart keyOf next met) (hw : Met met w) {x : node}
    (hx : met x) (depth : Nat) :
    visitKey keyOf depth (w.keyed keyOf) x = (visit depth w x).keyed keyOf ∧
      Met met (visit depth w x) := by
  have hmem : keyOf x ∈ w.visited.map keyOf ↔ x ∈ w.visited := by
    constructor
    · intro hkey
      obtain ⟨y, hy, hsame⟩ := List.mem_map.mp hkey
      exact h.inj y x (hw.visited y hy) hx hsame ▸ hy
    · exact List.mem_map_of_mem
  by_cases hold : x ∈ w.visited
  · rw [visit, if_pos hold]
    exact ⟨if_pos (hmem.mpr hold), hw⟩
  · rw [visit, if_neg hold]
    refine ⟨if_neg (fun hkey => hold (hmem.mp hkey)), ?_, ?_⟩
    · intro y hy
      rcases List.mem_cons.mp hy with rfl | hy
      · exact hx
      · exact hw.visited y hy
    · intro p hp
      rcases List.mem_append.mp hp with hp | hp
      · exact hw.queue p hp
      · rw [List.mem_singleton.mp hp]
        exact hx

theorem KeysApart.foldl_visit (h : KeysApart keyOf next met) (depth : Nat)
    {xs : List node} (hxs : forall x, x ∈ xs -> met x) (hw : Met met w) :
    xs.foldl (visitKey keyOf depth) (w.keyed keyOf) =
        (xs.foldl (visit depth) w).keyed keyOf ∧
      Met met (xs.foldl (visit depth) w) := by
  induction xs generalizing w with
  | nil => exact ⟨rfl, hw⟩
  | cons x rest ih =>
      obtain ⟨hstep, hmet⟩ := h.visited hw (hxs x List.mem_cons_self) depth
      rw [List.foldl_cons, List.foldl_cons, hstep]
      exact ih (fun y hy => hxs y (List.mem_cons_of_mem _ hy)) hmet

theorem KeysApart.expand (h : KeysApart keyOf next met) (maxDepth : Nat)
    (hw : Met met w) {x : node} {depth : Nat} {rest : List (node × Nat)}
    (hqueue : w.queue = (x, depth) :: rest) :
    expandKeyed keyOf next maxDepth (w.keyed keyOf) x depth rest =
        (expand next maxDepth w x depth rest).keyed keyOf ∧
      Met met (expand next maxDepth w x depth rest) := by
  have hx : met x := hw.queue (x, depth) (by rw [hqueue]; exact List.mem_cons_self)
  have htaken : forall found, Met met ⟨w.visited, rest, found⟩ := by
    intro found
    refine ⟨hw.visited, fun p hp => hw.queue p ?_⟩
    rw [hqueue]
    exact List.mem_cons_of_mem _ hp
  rw [expandKeyed, Search.expand]
  split
  · exact ⟨rfl, htaken _⟩
  · exact h.foldl_visit (depth + 1) (h.next x hx) (htaken _)

theorem KeysApart.search (h : KeysApart keyOf next met) (maxDepth : Nat)
    {fuel : Nat} (hw : Met met w) :
    searchKeyed keyOf next maxDepth fuel (w.keyed keyOf) =
      search next maxDepth fuel w := by
  induction fuel generalizing w with
  | zero => rfl
  | succ fuel ih =>
      rw [searchKeyed, Search.search]
      cases hqueue : w.queue with
      | nil =>
          have hkeyed : (w.keyed keyOf).queue = [] := hqueue
          rw [hkeyed]
          rfl
      | cons p rest =>
          obtain ⟨hstep, hmet⟩ := h.expand maxDepth hw hqueue
          have hkeyed : (w.keyed keyOf).queue = p :: rest := hqueue
          rw [hkeyed]
          dsimp only
          rw [hstep]
          exact ih hmet

/-- Where the nodes met from `a` have different keys, the search by keys finds
the other nodes within the depth, each once. -/
theorem KeysApart.searchKeyed_start (h : KeysApart keyOf next met) {a : node}
    (ha : met a) {nodes : List node}
    (hnodes : forall n x, Path next a n x -> x ∈ nodes) (maxDepth : Nat) :
    exists found,
      searchKeyed keyOf next maxDepth nodes.length (startKeyed keyOf a) =
        some found ∧
      found.Nodup ∧
      forall x, x ∈ found ↔
        x ≠ a ∧ exists n, n ≤ maxDepth ∧ Path next a n x := by
  have hstart : Met met (start a) := by
    constructor
    · intro x hx
      rw [List.mem_singleton.mp hx]
      exact ha
    · intro p hp
      rw [List.mem_singleton.mp hp]
      exact ha
  obtain ⟨found, hfound, hrest⟩ := search_start hnodes maxDepth
  exact ⟨found, (h.search maxDepth hstart).trans hfound, hrest⟩

end Search
end PostCortex
