import PostCortex.Search.ShortestPath

/-!
# Comparing answers of path searches

The answer of a search is an answer under other names for the nodes, and a search along
fewer edges finds no shorter path.
-/

namespace PostCortex
namespace Search

variable {node : Type}

theorem answers_start (next : node -> List node) (a : node) :
    Answers next a a (some [a]) where
  missing := by
    constructor
    · intro h
      cases h
    · exact fun h => absurd Path.nil (h 0)
  found := by
    intro p hp
    cases hp
    exact ⟨Trail.start, List.nodup_singleton a, 0, rfl, Path.nil,
      fun m _ => Nat.zero_le m⟩

variable {next next' : node -> List node}

theorem Trail.mono {a x : node} {p : List node}
    (hnext : forall x y, y ∈ next x -> y ∈ next' x) (h : Trail next a p x) :
    Trail next' a p x := by
  induction h with
  | start => exact Trail.start
  | step _ hy ih => exact Trail.step ih (hnext _ _ hy)

theorem Answers.congr {a goal : node} {answer : Option (List node)}
    (hnext : forall x y, y ∈ next x ↔ y ∈ next' x) (h : Answers next a goal answer) :
    Answers next' a goal answer where
  missing := by
    rw [h.missing]
    refine forall_congr' (fun n => not_congr ?_)
    exact ⟨Path.mono (fun x y => (hnext x y).mp), Path.mono (fun x y => (hnext x y).mpr)⟩
  found := by
    intro p hp
    obtain ⟨htrail, hnodup, n, hlength, hdistance⟩ := h.found p hp
    exact ⟨htrail.mono (fun x y => (hnext x y).mp), hnodup, n, hlength,
      (distance_congr hnext a n goal).mp hdistance⟩

/-!
# Other names for the nodes
-/

section

variable {name : Type}

/-- The names of nodes are joined as the nodes are. -/
structure Renaming (next : node -> List node) (next' : name -> List name)
    (nameOf : node -> Option name) : Prop where
  inj : forall x y n, nameOf x = some n -> nameOf y = some n -> x = y
  edge : forall x n, nameOf x = some n -> forall y, y ∈ next x ->
    exists m, nameOf y = some m ∧ m ∈ next' n
  back : forall x n, nameOf x = some n -> forall m, m ∈ next' n ->
    exists y, nameOf y = some m ∧ y ∈ next x

namespace Renaming

variable {next : node -> List node} {next' : name -> List name}
  {nameOf : node -> Option name} (h : Renaming next next' nameOf) {a : node} {n : name}
  (ha : nameOf a = some n)

include h ha

variable {k : Nat} {x : node}

theorem path (hpath : Path next a k x) :
    exists m, nameOf x = some m ∧ Path next' n k m := by
  induction hpath with
  | nil => exact ⟨n, ha, Path.nil⟩
  | snoc _ hy ih =>
      obtain ⟨m, hm, hpath⟩ := ih
      obtain ⟨m', hm', hedge⟩ := h.edge _ _ hm _ hy
      exact ⟨m', hm', hpath.snoc hedge⟩

variable {m : name}

theorem path_back (hpath : Path next' n k m) :
    exists x, nameOf x = some m ∧ Path next a k x := by
  induction hpath with
  | nil => exact ⟨a, ha, Path.nil⟩
  | snoc _ hy ih =>
      obtain ⟨x, hx, hpath⟩ := ih
      obtain ⟨y, hy, hedge⟩ := h.back _ _ hx _ hy
      exact ⟨y, hy, hpath.snoc hedge⟩

theorem path_iff (hx : nameOf x = some m) :
    Path next' n k m ↔ Path next a k x := by
  constructor
  · intro hpath
    obtain ⟨y, hy, hpath⟩ := h.path_back ha hpath
    rwa [h.inj y x m hy hx] at hpath
  · intro hpath
    obtain ⟨m', hm', hpath⟩ := h.path ha hpath
    rw [hx] at hm'
    cases hm'
    exact hpath

theorem trail {p : List node} (htrail : Trail next a p x) :
    exists m, nameOf x = some m ∧ Trail next' n (p.filterMap nameOf) m ∧
      (p.filterMap nameOf).length = p.length := by
  induction htrail with
  | start =>
      have hone : [a].filterMap nameOf = [n] := by
        rw [List.filterMap_cons_some ha, List.filterMap_nil]
      rw [hone]
      exact ⟨n, ha, Trail.start, rfl⟩
  | @step p x y _ hy ih =>
      obtain ⟨m, hm, htrail, hlength⟩ := ih
      obtain ⟨m', hm', hedge⟩ := h.edge _ _ hm _ hy
      have hlast : (p ++ [y]).filterMap nameOf = p.filterMap nameOf ++ [m'] := by
        rw [List.filterMap_append, List.filterMap_cons_some hm', List.filterMap_nil]
      rw [hlast]
      refine ⟨m', hm', htrail.step hedge, ?_⟩
      rw [List.length_append, List.length_append, hlength]
      rfl

theorem answers {goal : node} (hgoal : nameOf goal = some m)
    {answer : Option (List node)} (hanswers : Answers next a goal answer) :
    Answers next' n m (answer.map (fun p => p.filterMap nameOf)) where
  missing := by
    rw [Option.map_eq_none_iff, hanswers.missing]
    exact forall_congr' (fun k => not_congr (h.path_iff ha hgoal).symm)
  found := by
    intro q hq
    obtain ⟨p, hp, rfl⟩ := Option.map_eq_some_iff.mp hq
    obtain ⟨htrail, hnodup, k, hlength, hdistance⟩ := hanswers.found p hp
    obtain ⟨m', hm', htrail', hsame⟩ := h.trail ha htrail
    rw [hgoal] at hm'
    cases hm'
    refine ⟨htrail', ?_, k, hsame.trans hlength, ?_, ?_⟩
    · refine hnodup.filterMap ?_
      intro x y b hx hy
      exact h.inj x y b (Option.mem_def.mp hx) (Option.mem_def.mp hy)
    · exact (h.path_iff ha hgoal).mpr hdistance.1
    · exact fun j hj => hdistance.2 j ((h.path_iff ha hgoal).mp hj)

end Renaming

end

/-!
# Fewer edges
-/

section

variable {next next' : node -> List node} {a goal : node}
  {answer answer' : Option (List node)}

variable {p : List node}

theorem Answers.length_eq (h : Answers next a goal answer) (hp : answer = some p)
    {n : Nat} (hn : Distance next a n goal) : p.length = n + 1 := by
  obtain ⟨_, _, m, hlength, hdistance⟩ := h.found p hp
  rw [hlength, hdistance.unique hn]

theorem Answers.exists_of_path (h : Answers next a goal answer) {n : Nat}
    (hpath : Path next a n goal) : exists p, answer = some p := by
  cases hanswer : answer with
  | none => exact absurd hpath (h.missing.mp hanswer n)
  | some p => exact ⟨p, rfl⟩

theorem Answers.shorter (hnext : forall x y, y ∈ next x -> y ∈ next' x)
    (h : Answers next a goal answer) (h' : Answers next' a goal answer')
    (hp : answer = some p) :
    exists q, answer' = some q ∧ q.length ≤ p.length := by
  obtain ⟨_, _, n, hlength, hdistance⟩ := h.found p hp
  have hpath := hdistance.1.mono hnext
  obtain ⟨q, hq⟩ := h'.exists_of_path hpath
  obtain ⟨_, _, m, hlength', hdistance'⟩ := h'.found q hq
  have hle := hdistance'.2 n hpath
  exact ⟨q, hq, by omega⟩

/-- The answers are of one length exactly when a path along fewer edges is as short as
the shortest along more. -/
theorem Answers.same_length_iff (hnext : forall x y, y ∈ next x -> y ∈ next' x)
    (h : Answers next a goal answer) (h' : Answers next' a goal answer') :
    answer.map List.length = answer'.map List.length ↔
      forall n, Distance next' a n goal -> Path next a n goal := by
  constructor
  · intro hsame n hn
    obtain ⟨q, hq⟩ := h'.exists_of_path hn.1
    rw [hq, Option.map_some, h'.length_eq hq hn, Option.map_eq_some_iff] at hsame
    obtain ⟨p, hp, hlength⟩ := hsame
    obtain ⟨_, _, m, hm, hdistance⟩ := h.found p hp
    have hnm : m = n := by omega
    exact hnm ▸ hdistance.1
  · intro hpaths
    cases hanswer' : answer' with
    | none =>
        cases hanswer : answer with
        | none => rfl
        | some p =>
            obtain ⟨q, hq, _⟩ := h.shorter hnext h' hanswer
            rw [hanswer'] at hq
            cases hq
    | some q =>
        obtain ⟨_, _, n, hlength, hdistance⟩ := h'.found q hanswer'
        obtain ⟨p, hp⟩ := h.exists_of_path (hpaths n hdistance)
        obtain ⟨_, _, m, hm, hshortest⟩ := h.found p hp
        have hle := hshortest.2 n (hpaths n hdistance)
        have hge := hdistance.2 m (hshortest.1.mono hnext)
        rw [hp, Option.map_some, Option.map_some]
        exact congrArg some (by omega)

end

end Search
end PostCortex
