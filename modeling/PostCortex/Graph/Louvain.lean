import PostCortex.Graph.Undirected
import PostCortex.Numeric.Modularity

/-!
# One Louvain level

`louvain_level` of `graph/analytics.rs`: nodes move one by one to the neighbouring
community that draws them most.  A loop is listed once and counts twice in the
degree of its node.
-/

namespace PostCortex
namespace Graph

open PostCortex.KeyValue

def louvainPasses : Nat := 32

structure Level where
  size : Nat
  adjacency : Adjacency

/-- The communities of the nodes, and the sum of the degrees in each. -/
structure Moving where
  community : Nat -> Nat
  total : Nat -> Rat

namespace Level

def degree (level : Level) (i : Nat) : Rat :=
  ((level.adjacency i).map (fun e => if e.1 = i then 2 * e.2 else e.2)).sum

def m2 (level : Level) : Rat :=
  ∑ i ∈ Finset.range level.size, level.degree i

def links (level : Level) (community : Nat -> Nat) (i : Nat) : Database Nat Rat :=
  (level.adjacency i).foldl
    (fun links e => if e.1 ≠ i then links.accumulate (community e.1) e.2 else links) ∅

def gain (level : Level) (total : Nat -> Rat) (i c : Nat) (kIn : Rat) : Rat :=
  kIn - total c * level.degree i / level.m2

def better (level : Level) (total : Nat -> Rat) (i : Nat) (best : Nat × Rat)
    (link : Nat × Rat) : Nat × Rat :=
  let g := level.gain total i link.1 link.2
  if best.2 + 1 / 1000000000000 < g then (link.1, g) else best

def best (level : Level) (total : Nat -> Rat) (links : Database Nat Rat)
    (i own : Nat) : Nat × Rat :=
  links.toList.foldl (level.better total i)
    (own, level.gain total i own (links[own]?.getD 0))

def move (level : Level) (s : Moving) (i : Nat) : Moving :=
  let own := s.community i
  let total := Function.update s.total own (s.total own - level.degree i)
  let target := (level.best total (level.links s.community i) i own).1
  { community := Function.update s.community i target
    total := Function.update total target (total target + level.degree i) }

def pass (level : Level) (s : Moving) : Moving × Bool :=
  (List.range level.size).foldl
    (fun r i =>
      let s' := level.move r.1 i
      (s', r.2 || decide (s'.community i ≠ r.1.community i)))
    (s, false)

def passes (level : Level) : Nat -> Moving -> Moving
  | 0, s => s
  | left + 1, s =>
      let r := level.pass s
      if r.2 then passes level left r.1 else r.1

def alone (level : Level) : Moving where
  community := id
  total := level.degree

def louvain (level : Level) : List Nat :=
  if level.m2 = 0 then List.range level.size
  else (List.range level.size).map (level.passes louvainPasses level.alone).community

/-- The states the moves lead through, whatever their order. -/
inductive Moves (level : Level) : Moving -> Prop where
  | alone : Moves level level.alone
  | move {s : Moving} {i : Nat} :
      Moves level s -> i < level.size -> Moves level (level.move s i)

/-!
# Weights
-/

open Finset

/-- Entries of the nodes, with the same weight both ways and none negative. -/
structure Sound (level : Level) : Prop where
  range : forall i e, e ∈ level.adjacency i -> e.1 < level.size
  outside : forall i, level.size ≤ i -> level.adjacency i = []
  symm : forall i j, level.adjacency.between i j = level.adjacency.between j i
  nonneg : forall i e, e ∈ level.adjacency i -> 0 ≤ e.2

def weight (level : Level) (i j : Nat) : Rat :=
  (if j = i then 2 else 1) * level.adjacency.between i j

def modularity (level : Level) (community : Nat -> Nat) : Rat :=
  Numeric.modularity (range level.size) level.weight community

variable {level : Level}

theorem degree_eq (h : level.Sound) (i : Nat) :
    level.degree i = Numeric.degree (range level.size) level.weight i := by
  have haround : level.degree i =
      level.adjacency.around i (fun j => if j = i then 2 else 1) := by
    unfold degree Adjacency.around
    congr 1
    refine List.map_congr_left ?_
    intro e _
    by_cases he : e.1 = i <;> simp [he]
  rw [haround, Adjacency.around_eq_sum (h.range i)]
  rfl

theorem m2_eq (h : level.Sound) :
    level.m2 = Numeric.totalDegree (range level.size) level.weight :=
  sum_congr rfl (fun i _ => degree_eq h i)

theorem weight_symm (h : level.Sound) (i j : Nat) :
    level.weight i j = level.weight j i := by
  unfold weight
  rw [h.symm i j]
  by_cases hij : i = j
  · rw [hij]
  · rw [if_neg hij, if_neg (Ne.symm hij)]

theorem m2_nonneg (h : level.Sound) : 0 ≤ level.m2 := by
  refine sum_nonneg ?_
  intro i _
  refine List.sum_nonneg ?_
  intro w hw
  obtain ⟨e, he, rfl⟩ := List.mem_map.mp hw
  have hpos := h.nonneg i e he
  split
  · exact mul_nonneg (by decide) hpos
  · exact hpos

/-!
# One move
-/

theorem links_get (h : level.Sound) (community : Nat -> Nat) (i c : Nat) :
    (level.links community i)[c]?.getD 0 =
      ∑ j ∈ (range level.size).erase i,
        if community j = c then level.adjacency.between i j else 0 := by
  have hfold : forall (entries : List (Nat × Rat)) (links : Database Nat Rat),
      (entries.foldl (fun links e =>
          if e.1 ≠ i then links.accumulate (community e.1) e.2 else links)
        links)[c]?.getD 0 =
      links[c]?.getD 0 + (entries.map (fun e =>
        (if e.1 ≠ i ∧ community e.1 = c then 1 else 0) * e.2)).sum := by
    intro entries
    induction entries with
    | nil =>
        intro links
        simp
    | cons e rest ih =>
        intro links
        rw [List.foldl_cons, ih, List.map_cons, List.sum_cons, ← add_assoc]
        congr 1
        by_cases he : e.1 = i
        · simp [he]
        · rw [if_pos he, Database.get_accumulate]
          simp [he]
  have hempty : (∅ : Database Nat Rat)[c]?.getD 0 = 0 := by simp
  have haround := Adjacency.around_eq_sum (h.range i)
    (fun j => if j ≠ i ∧ community j = c then 1 else 0)
  unfold Adjacency.around at haround
  rw [links, hfold, hempty, zero_add, haround, ← filter_ne', sum_filter]
  refine sum_congr rfl ?_
  intro j _
  by_cases hj : j = i
  · simp [hj]
  · by_cases hc : community j = c <;> simp [hj, hc]

def Consistent (level : Level) (s : Moving) : Prop :=
  forall c, s.total c = ∑ j ∈ range level.size with s.community j = c, level.degree j

theorem consistent_alone (h : level.Sound) : level.Consistent level.alone := by
  intro c
  unfold alone
  dsimp only [id]
  by_cases hc : c < level.size
  · rw [sum_filter, sum_eq_single_of_mem c (mem_range.mpr hc), if_pos rfl]
    intro j _ hj
    exact if_neg hj
  · have hnone : (range level.size).filter (fun j => j = c) = ∅ :=
      filter_eq_empty_iff.mpr (fun _ hj heq => hc (heq ▸ mem_range.mp hj))
    rw [hnone, sum_empty, degree, h.outside c (Nat.not_lt.mp hc)]
    rfl

def without (level : Level) (s : Moving) (i : Nat) : Nat -> Rat :=
  Function.update s.total (s.community i) (s.total (s.community i) - level.degree i)

variable {s : Moving} {i : Nat}

theorem without_apply (hs : level.Consistent s) (hi : i < level.size) (c : Nat) :
    level.without s i c =
      ∑ j ∈ (range level.size).erase i,
        if s.community j = c then level.degree j else 0 := by
  have hsplit := add_sum_erase (range level.size)
    (fun j => if s.community j = c then level.degree j else 0) (mem_range.mpr hi)
  have htotal := hs c
  rw [sum_filter] at htotal
  rw [← htotal] at hsplit
  unfold without
  by_cases hc : c = s.community i
  · subst hc
    rw [Function.update_self, ← hsplit, if_pos rfl]
    ring
  · rw [Function.update_of_ne hc, ← hsplit, if_neg (Ne.symm hc), zero_add]

theorem gain_eq_pull (h : level.Sound) (hs : level.Consistent s)
    (hi : i < level.size) (c : Nat) :
    level.gain (level.without s i) i c ((level.links s.community i)[c]?.getD 0) =
      Numeric.pull (range level.size) level.weight s.community i c := by
  unfold gain Numeric.pull Numeric.excess
  rw [links_get h, without_apply hs hi, ← degree_eq h i, ← m2_eq h, sum_mul,
    sum_div, ← sum_sub_distrib]
  refine sum_congr rfl ?_
  intro j hj
  have hne := ne_of_mem_erase hj
  by_cases hc : s.community j = c
  · rw [if_pos hc, if_pos hc, if_pos hc, ← degree_eq h j, weight, if_neg hne]
    ring
  · rw [if_neg hc, if_neg hc, if_neg hc]
    ring

theorem best_cases (level : Level) (total : Nat -> Rat) (links : Database Nat Rat)
    (i own : Nat) :
    (level.best total links i own).1 = own ∨
      level.gain total i own (links[own]?.getD 0) <
        level.gain total i (level.best total links i own).1
          (links[(level.best total links i own).1]?.getD 0) := by
  have hfold : forall (entries : List (Nat × Rat)) (first : Nat × Rat),
      (forall e, e ∈ entries -> links[e.1]? = some e.2) ->
      entries.foldl (level.better total i) first = first ∨
        first.2 < (entries.foldl (level.better total i) first).2 ∧
          (entries.foldl (level.better total i) first).2 =
            level.gain total i (entries.foldl (level.better total i) first).1
              (links[(entries.foldl (level.better total i) first).1]?.getD 0) := by
    intro entries
    induction entries with
    | nil =>
        intro first _
        exact Or.inl rfl
    | cons e rest ih =>
        intro first hentries
        have hrest := ih (level.better total i first e)
          (fun f hf => hentries f (List.mem_cons_of_mem _ hf))
        rw [List.foldl_cons]
        by_cases hbetter : first.2 + 1 / 1000000000000 < level.gain total i e.1 e.2
        · have hstep : level.better total i first e =
              (e.1, level.gain total i e.1 e.2) := if_pos hbetter
          have hlt : first.2 < level.gain total i e.1 e.2 :=
            lt_of_le_of_lt (le_add_of_nonneg_right (by decide +kernel)) hbetter
          rcases hrest with hsame | ⟨hmore, hgain⟩
          · rw [hsame, hstep]
            refine Or.inr ⟨hlt, ?_⟩
            rw [hentries e List.mem_cons_self]
            rfl
          · rw [hstep] at hmore hgain ⊢
            exact Or.inr ⟨hlt.trans hmore, hgain⟩
        · have hstep : level.better total i first e = first := if_neg hbetter
          rw [hstep] at hrest ⊢
          exact hrest
  rcases hfold links.toList (own, level.gain total i own (links[own]?.getD 0))
    (fun e he => Std.ExtTreeMap.mem_toList_iff_getElem?_eq_some.mp he) with
      hsame | ⟨hmore, hgain⟩
  · left
    unfold best
    rw [hsame]
  · right
    unfold best
    rw [← hgain]
    exact hmore

theorem move_community (level : Level) (s : Moving) (i : Nat) :
    (level.move s i).community =
      Function.update s.community i ((level.move s i).community i) := by
  unfold move
  dsimp only
  rw [Function.update_self]

theorem move_target (level : Level) (s : Moving) (i : Nat) :
    (level.move s i).community i =
      (level.best (level.without s i) (level.links s.community i) i
        (s.community i)).1 :=
  Function.update_self ..

theorem move_total (level : Level) (s : Moving) (i : Nat) :
    (level.move s i).total =
      Function.update (level.without s i) ((level.move s i).community i)
        (level.without s i ((level.move s i).community i) + level.degree i) := by
  rw [move_target]
  rfl

theorem move_consistent (hs : level.Consistent s) (hi : i < level.size) :
    level.Consistent (level.move s i) := by
  intro c
  have hsum : ∑ j ∈ range level.size with (level.move s i).community j = c,
      level.degree j =
        (if (level.move s i).community i = c then level.degree i else 0) +
          level.without s i c := by
    rw [sum_filter, ← add_sum_erase _ _ (mem_range.mpr hi), without_apply hs hi]
    congr 1
    refine sum_congr rfl ?_
    intro j hj
    rw [move_community, Function.update_of_ne (ne_of_mem_erase hj)]
  rw [hsum, move_total]
  by_cases hc : c = (level.move s i).community i
  · rw [← hc, Function.update_self, if_pos rfl, add_comm]
  · rw [Function.update_of_ne hc, if_neg (Ne.symm hc), zero_add]

theorem move_increases (h : level.Sound) (hweight : level.m2 ≠ 0)
    (hs : level.Consistent s) (hi : i < level.size)
    (hmoved : (level.move s i).community i ≠ s.community i) :
    level.modularity s.community < level.modularity (level.move s i).community := by
  have hpos : 0 < level.m2 := lt_of_le_of_ne (m2_nonneg h) (Ne.symm hweight)
  have hgain : Numeric.pull (range level.size) level.weight s.community i
      (s.community i) < Numeric.pull (range level.size) level.weight s.community i
        ((level.move s i).community i) := by
    rw [← gain_eq_pull h hs hi, ← gain_eq_pull h hs hi]
    rw [move_target] at hmoved ⊢
    exact (best_cases level _ _ i _).resolve_left hmoved
  have hupdate := Numeric.modularity_update (weight_symm h) s.community
    (mem_range.mpr hi) ((level.move s i).community i)
  rw [← move_community, ← m2_eq h] at hupdate
  unfold modularity
  rw [hupdate]
  exact lt_add_of_pos_right _ (mul_pos (div_pos (by decide) hpos) (sub_pos.mpr hgain))

theorem move_le (h : level.Sound) (hweight : level.m2 ≠ 0) (hs : level.Consistent s)
    (hi : i < level.size) :
    level.modularity s.community ≤ level.modularity (level.move s i).community := by
  by_cases hmoved : (level.move s i).community i = s.community i
  · rw [move_community, hmoved, Function.update_eq_self]
  · exact (move_increases h hweight hs hi hmoved).le

/-!
# A whole level
-/

theorem Moves.consistent (h : level.Sound) (hs : level.Moves s) :
    level.Consistent s := by
  induction hs with
  | alone => exact consistent_alone h
  | move _ hi ih => exact move_consistent ih hi

theorem Moves.le (h : level.Sound) (hweight : level.m2 ≠ 0) (hs : level.Moves s) :
    level.modularity id ≤ level.modularity s.community := by
  induction hs with
  | alone => exact le_refl _
  | move hs hi ih => exact ih.trans (move_le h hweight (hs.consistent h) hi)

theorem Moves.pass (hs : level.Moves s) : level.Moves (level.pass s).1 := by
  have hfold : forall (nodes : List Nat) (r : Moving × Bool),
      (forall i, i ∈ nodes -> i < level.size) -> level.Moves r.1 ->
      level.Moves (nodes.foldl
        (fun r i =>
          let s' := level.move r.1 i
          (s', r.2 || decide (s'.community i ≠ r.1.community i))) r).1 := by
    intro nodes
    induction nodes with
    | nil =>
        exact fun _ _ hr => hr
    | cons i rest ih =>
        intro r hnodes hr
        exact ih _ (fun j hj => hnodes j (List.mem_cons_of_mem _ hj))
          (Moves.move hr (hnodes i List.mem_cons_self))
  exact hfold _ _ (fun i hi => List.mem_range.mp hi) hs

theorem Moves.passes (hs : level.Moves s) (left : Nat) :
    level.Moves (level.passes left s) := by
  induction left generalizing s with
  | zero => exact hs
  | succ left ih =>
      unfold Level.passes
      dsimp only
      split
      · exact ih hs.pass
      · exact hs.pass

theorem louvain_spec (h : level.Sound) :
    exists s, level.Moves s ∧
      level.louvain = (List.range level.size).map s.community ∧
      level.modularity id ≤ level.modularity s.community := by
  unfold louvain
  by_cases hweight : level.m2 = 0
  · refine ⟨level.alone, Moves.alone, ?_, le_refl _⟩
    rw [if_pos hweight]
    exact (List.map_id _).symm
  · rw [if_neg hweight]
    have halone : level.Moves level.alone := Moves.alone
    have hmoves := halone.passes louvainPasses
    exact ⟨_, hmoves, rfl, hmoves.le h hweight⟩

end Level
end Graph
end PostCortex
