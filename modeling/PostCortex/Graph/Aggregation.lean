import Mathlib.Data.List.Basic
import PostCortex.Graph.Louvain

/-!
# Aggregation

`renumber` and the loop over the levels in `communities` of `graph/analytics.rs`:
each level works on the communities of the one before, until one joins nothing.
-/

namespace PostCortex
namespace Graph

open PostCortex.KeyValue

attribute [local instance] lexOrd

/-- One entry in `renumber`; the map of the source is the list of its keys by their
numbers. -/
def renumberStep (r : List Nat × List Nat) (c : Nat) : List Nat × List Nat :=
  match r.1.idxOf? c with
  | some k => (r.1, r.2 ++ [k])
  | none => (r.1 ++ [c], r.2 ++ [r.1.length])

def renumber (assignment : List Nat) : List Nat :=
  (assignment.foldl renumberStep ([], [])).2

/-- `groups.iter().max().map_or(0, |m| m + 1)`. -/
def groupCount (groups : List Nat) : Nat :=
  match groups.max? with
  | none => 0
  | some m => m + 1

def groupOf (groups : List Nat) (i : Nat) : Nat :=
  groups.getD i 0

namespace Adjacency

def linkGroups (adjacency : Adjacency) (pair : (Nat × Nat) × Rat) : Adjacency :=
  let next := adjacency.push pair.1.1 (pair.1.2, pair.2)
  if pair.1.1 ≠ pair.1.2 then next.push pair.1.2 (pair.1.1, pair.2) else next

end Adjacency

namespace Level

def joinEntry (groups : List Nat) (i : Nat) (pairs : Pairs) (e : Nat × Rat) : Pairs :=
  if i ≤ e.1 then addPair pairs (groupOf groups i) (groupOf groups e.1) e.2 else pairs

def joinedPairs (level : Level) (groups : List Nat) : Pairs :=
  (List.range level.size).foldl
    (fun pairs i => (level.adjacency i).foldl (joinEntry groups i) pairs) ∅

def aggregate (level : Level) (groups : List Nat) : Level where
  size := groupCount groups
  adjacency :=
    (level.joinedPairs groups).toList.foldl Adjacency.linkGroups (fun _ => [])

def levels : Nat -> (Nat -> Nat) -> Level -> Option (Nat -> Nat)
  | 0, _, _ => none
  | fuel + 1, membership, level =>
      let groups := renumber level.louvain
      if groupCount groups = level.size then some membership
      else levels fuel (fun i => groupOf groups (membership i)) (level.aggregate groups)

end Level

/-!
# Renumbering
-/

variable {seen done : List Nat}

theorem renumberStep_mem {c : Nat} (hc : c ∈ seen) :
    renumberStep (seen, done) c = (seen, done ++ [seen.idxOf c]) := by
  have hsome : seen.idxOf? c = some (seen.idxOf c) := by
    have hget := List.idxOf_eq_getD_idxOf? c seen
    cases hfind : seen.idxOf? c with
    | none => exact absurd hc (List.idxOf?_eq_none_iff.mp hfind)
    | some k =>
        rw [hfind] at hget
        rw [hget]
        rfl
  unfold renumberStep
  rw [hsome]

theorem renumberStep_new {c : Nat} (hc : c ∉ seen) :
    renumberStep (seen, done) c = (seen ++ [c], done ++ [(seen ++ [c]).idxOf c]) := by
  unfold renumberStep
  rw [List.idxOf?_eq_none_iff.mpr hc, List.idxOf_append_of_notMem hc,
    List.idxOf_cons_self, add_zero]

theorem foldl_renumberStep (assignment done seen : List Nat) (hnodup : seen.Nodup)
    (hmem : forall c, c ∈ seen ↔ c ∈ done) :
    exists seen' : List Nat,
      (assignment.foldl renumberStep (seen, done.map (fun c => seen.idxOf c))).2 =
        (done ++ assignment).map (fun c => seen'.idxOf c) ∧
      seen'.Nodup ∧ forall c, c ∈ seen' ↔ c ∈ done ++ assignment := by
  induction assignment generalizing done seen with
  | nil =>
      refine ⟨seen, ?_, hnodup, ?_⟩
      · rw [List.append_nil]
        rfl
      · simpa using hmem
  | cons c rest ih =>
      rw [List.foldl_cons, List.append_cons done c rest]
      by_cases hc : c ∈ seen
      · have hstep := ih (done ++ [c]) seen hnodup ?_
        · rw [List.map_append] at hstep
          rw [renumberStep_mem hc]
          exact hstep
        · intro d
          rw [List.mem_append, List.mem_singleton, ← hmem]
          refine ⟨Or.inl, ?_⟩
          rintro (hd | rfl)
          · exact hd
          · exact hc
      · have hold : done.map (fun c => seen.idxOf c) =
            done.map (fun d => (seen ++ [c]).idxOf d) :=
          List.map_congr_left (fun d hd =>
            (List.idxOf_append_of_mem ((hmem d).mpr hd)).symm)
        have hstep := ih (done ++ [c]) (seen ++ [c]) ?_ ?_
        · rw [List.map_append, ← hold] at hstep
          rw [renumberStep_new hc]
          exact hstep
        · exact List.nodup_append_comm.mp (List.nodup_cons.mpr ⟨hc, hnodup⟩)
        · intro d
          rw [List.mem_append, List.mem_append, hmem]

/-- The groups of a list of keys: equal keys have equal numbers, and the numbers are
those below the count. -/
structure Renumbered (n : Nat) (key : Nat -> Nat) (groups : List Nat) : Prop where
  same : forall i j, i < n -> j < n ->
    (groupOf groups i = groupOf groups j ↔ key i = key j)
  lt : forall i, i < n -> groupOf groups i < groupCount groups
  occurs : forall c, c < groupCount groups -> exists i, i < n ∧ groupOf groups i = c
  count_le : groupCount groups ≤ n

theorem groupCount_eq {assignment : List Nat} (hnodup : seen.Nodup)
    (hmem : forall c, c ∈ seen ↔ c ∈ assignment) :
    groupCount (assignment.map (fun c => seen.idxOf c)) = seen.length := by
  unfold groupCount
  cases hmax : (assignment.map (fun c => seen.idxOf c)).max? with
  | none =>
      have hnil := List.map_eq_nil_iff.mp (List.max?_eq_none_iff.mp hmax)
      have hseen : seen = [] := by
        refine List.eq_nil_iff_forall_not_mem.mpr ?_
        intro c hc
        rw [hmem, hnil] at hc
        cases hc
      rw [hseen]
      rfl
  | some m =>
      have hall := List.max?_eq_some_iff.mp hmax
      obtain ⟨c, hc, hm⟩ := List.mem_map.mp hall.1
      have hlt : m < seen.length := hm ▸ List.idxOf_lt_length_of_mem ((hmem c).mpr hc)
      have hlast : seen.length - 1 < seen.length := by omega
      have hle := hall.2 (seen.length - 1) (List.mem_map.mpr
        ⟨seen[seen.length - 1], (hmem _).mp (List.getElem_mem hlast),
          List.Nodup.idxOf_getElem hnodup _ hlast⟩)
      dsimp only
      omega

theorem renumbered (n : Nat) (key : Nat -> Nat) :
    Renumbered n key (renumber ((List.range n).map key)) := by
  obtain ⟨seen, hrun, hnodup, hmem⟩ :=
    foldl_renumberStep ((List.range n).map key) [] [] List.nodup_nil (by simp)
  rw [List.nil_append] at hrun hmem
  have hgroups : renumber ((List.range n).map key) =
      ((List.range n).map key).map (fun c => seen.idxOf c) := hrun
  have hkey : forall i, i < n -> key i ∈ seen :=
    fun i hi => (hmem _).mpr (List.mem_map.mpr ⟨i, List.mem_range.mpr hi, rfl⟩)
  have hcount : groupCount (renumber ((List.range n).map key)) = seen.length := by
    rw [hgroups]
    exact groupCount_eq hnodup hmem
  have hof : forall i, i < n ->
      groupOf (renumber ((List.range n).map key)) i = seen.idxOf (key i) := by
    intro i hi
    rw [hgroups, groupOf, List.getD_eq_getElem?_getD]
    simp [List.getElem?_range hi]
  constructor
  · intro i j hi hj
    rw [hof i hi, hof j hj]
    exact List.idxOf_inj (hkey i hi)
  · intro i hi
    rw [hof i hi, hcount]
    exact List.idxOf_lt_length_of_mem (hkey i hi)
  · intro c hc
    rw [hcount] at hc
    obtain ⟨i, hi, hci⟩ := List.mem_map.mp ((hmem _).mp (List.getElem_mem hc))
    have hi := List.mem_range.mp hi
    refine ⟨i, hi, ?_⟩
    rw [hof i hi, hci]
    exact List.Nodup.idxOf_getElem hnodup c hc
  · rw [hcount]
    have hsub : seen.Subperm ((List.range n).map key) :=
      hnodup.subperm (fun c hc => (hmem c).mp hc)
    simpa using hsub.length_le

/-!
# Joined pairs
-/

namespace Adjacency

def incidentGroups (k : Nat) (factor : Nat -> Rat) (pair : Nat × Nat) : Rat :=
  (if k = pair.1 then factor pair.2 else 0) +
    if pair.1 ≠ pair.2 ∧ k = pair.2 then factor pair.1 else 0

theorem around_linkGroups (adjacency : Adjacency) (pair : (Nat × Nat) × Rat) (k : Nat)
    (factor : Nat -> Rat) :
    (adjacency.linkGroups pair).around k factor =
      adjacency.around k factor + incidentGroups k factor pair.1 * pair.2 := by
  unfold linkGroups incidentGroups
  dsimp only
  by_cases hloop : pair.1.1 = pair.1.2
  · have honce : ¬ (pair.1.1 ≠ pair.1.2 ∧ k = pair.1.2) := fun h => h.1 hloop
    rw [if_neg (not_not_intro hloop), if_neg honce, around_push, add_zero, ite_mul,
      zero_mul]
  · rw [if_pos hloop, around_push, around_push, add_mul, ite_mul, ite_mul, zero_mul,
      add_assoc]
    simp only [ne_eq, hloop, not_false_eq_true, true_and]

theorem mem_foldl_linkGroups {pairs : List ((Nat × Nat) × Rat)} {adjacency : Adjacency}
    {k : Nat} {e : Nat × Rat} (he : e ∈ pairs.foldl linkGroups adjacency k) :
    e ∈ adjacency k ∨ exists pair, pair ∈ pairs ∧ e.2 = pair.2 ∧
      (k = pair.1.1 ∧ e.1 = pair.1.2 ∨ k = pair.1.2 ∧ e.1 = pair.1.1) := by
  induction pairs generalizing adjacency with
  | nil => exact Or.inl he
  | cons pair rest ih =>
      rcases ih he with hmem | ⟨other, hother, hends⟩
      · unfold linkGroups at hmem
        have hends : e ∈ adjacency k ∨ e.2 = pair.2 ∧
            (k = pair.1.1 ∧ e.1 = pair.1.2 ∨ k = pair.1.2 ∧ e.1 = pair.1.1) := by
          split at hmem
          · rw [mem_push, mem_push] at hmem
            rcases hmem with (hold | ⟨hk, rfl⟩) | ⟨hk, rfl⟩
            · exact Or.inl hold
            · exact Or.inr ⟨rfl, Or.inl ⟨hk, rfl⟩⟩
            · exact Or.inr ⟨rfl, Or.inr ⟨hk, rfl⟩⟩
          · rw [mem_push] at hmem
            rcases hmem with hold | ⟨hk, rfl⟩
            · exact Or.inl hold
            · exact Or.inr ⟨rfl, Or.inl ⟨hk, rfl⟩⟩
        rcases hends with hold | hends
        · exact Or.inl hold
        · exact Or.inr ⟨pair, List.mem_cons_self, hends⟩
      · exact Or.inr ⟨other, List.mem_cons_of_mem _ hother, hends⟩

end Adjacency

open Finset

namespace Level

variable {level : Level} {groups : List Nat}

def ordered (level : Level) (f : Nat -> Nat -> Rat) : Rat :=
  ∑ i ∈ range level.size,
    level.adjacency.around i (fun j => if i ≤ j then f i j else 0)

def edgeWeight (level : Level) : Rat :=
  level.ordered (fun _ _ => 1)

theorem ordered_eq (h : level.Sound) (factor : Nat -> Nat -> Rat) :
    level.ordered (fun i j => factor i j + factor j i) =
      ∑ i ∈ range level.size, ∑ j ∈ range level.size, factor i j * level.weight i j := by
  unfold ordered weight
  rw [← Numeric.sum_ordered h.symm factor]
  exact sum_congr rfl (fun i _ => Adjacency.around_eq_sum (h.range i) _)

theorem mul_ordered (level : Level) (c : Rat) (f : Nat -> Nat -> Rat) :
    c * level.ordered f = level.ordered (fun i j => c * f i j) := by
  unfold ordered Adjacency.around
  rw [mul_sum]
  refine sum_congr rfl (fun i _ => ?_)
  rw [← List.sum_map_mul_left]
  congr 1
  refine List.map_congr_left (fun e _ => ?_)
  rw [← mul_assoc, mul_ite, mul_zero]

theorem two_edgeWeight (h : level.Sound) : 2 * level.edgeWeight = level.m2 := by
  have hsum := ordered_eq h (fun _ _ => 1)
  simp only [one_mul, one_add_one_eq_two] at hsum
  rw [m2_eq h, edgeWeight, mul_ordered]
  simp only [mul_one]
  exact hsum

def groupPair (groups : List Nat) (i j : Nat) : Nat × Nat :=
  (min (groupOf groups i) (groupOf groups j), max (groupOf groups i) (groupOf groups j))

theorem weigh_joinEntries (factor : Nat × Nat -> Rat) (i : Nat)
    (entries : List (Nat × Rat)) (pairs : Pairs) :
    (entries.foldl (joinEntry groups i) pairs).weigh factor =
      pairs.weigh factor + (entries.map (fun e =>
        (if i ≤ e.1 then factor (groupPair groups i e.1) else 0) * e.2)).sum := by
  induction entries generalizing pairs with
  | nil =>
      simp
  | cons e rest ih =>
      rw [List.foldl_cons, ih, List.map_cons, List.sum_cons, ← add_assoc]
      congr 1
      unfold joinEntry
      by_cases hi : i ≤ e.1
      · rw [if_pos hi, if_pos hi]
        exact Database.weigh_accumulate factor pairs _ e.2
      · rw [if_neg hi, if_neg hi, zero_mul, add_zero]

theorem weigh_joinedPairs (level : Level) (groups : List Nat)
    (factor : Nat × Nat -> Rat) :
    (level.joinedPairs groups).weigh factor =
      level.ordered (fun i j => factor (groupPair groups i j)) := by
  have hfold : forall (nodes : List Nat) (pairs : Pairs),
      (nodes.foldl (fun pairs i =>
          (level.adjacency i).foldl (joinEntry groups i) pairs) pairs).weigh factor =
        pairs.weigh factor + (nodes.map (fun i => level.adjacency.around i
          (fun j => if i ≤ j then factor (groupPair groups i j) else 0))).sum := by
    intro nodes
    induction nodes with
    | nil =>
        intro pairs
        simp
    | cons i rest ih =>
        intro pairs
        rw [List.foldl_cons, ih, weigh_joinEntries, List.map_cons, List.sum_cons,
          ← add_assoc]
        rfl
  rw [joinedPairs, hfold, Database.weigh_empty, zero_add]
  rfl

theorem around_aggregate (level : Level) (groups : List Nat) (k : Nat)
    (factor : Nat -> Rat) :
    (level.aggregate groups).adjacency.around k factor =
      level.ordered (fun i j =>
        Adjacency.incidentGroups k factor (groupPair groups i j)) := by
  unfold aggregate
  rw [Adjacency.around_foldl (fun adjacency pair =>
    adjacency.around_linkGroups pair _ _), ← weigh_joinedPairs]
  exact zero_add _

/-!
# The next level
-/

/-- A loop of the next level has the edges inside the group once, so it counts them
twice. -/
theorem incident_pair (x y a b : Nat) :
    (if b = a then 2 else 1) * Adjacency.incidentGroups a
        (fun k => if k = b then 1 else 0) (min x y, max x y) =
      ((if x = a ∧ y = b then 1 else 0) + if y = a ∧ x = b then 1 else 0 : Rat) := by
  unfold Adjacency.incidentGroups
  dsimp only
  rcases lt_trichotomy x y with hlt | heq | hgt
  · rw [min_eq_left hlt.le, max_eq_right hlt.le]
    by_cases hab : b = a <;> grind
  · subst heq
    rw [min_self, max_self]
    by_cases hab : b = a <;> grind
  · rw [min_eq_right hgt.le, max_eq_left hgt.le]
    by_cases hab : b = a <;> grind

theorem weight_aggregate (h : level.Sound) (groups : List Nat) :
    (level.aggregate groups).weight =
      Numeric.joined (range level.size) level.weight (groupOf groups) := by
  funext a b
  have hpairs : forall i j, (if b = a then 2 else 1) * Adjacency.incidentGroups a
      (fun k => if k = b then 1 else 0) (groupPair groups i j) =
        ((if groupOf groups i = a ∧ groupOf groups j = b then 1 else 0) +
          if groupOf groups j = a ∧ groupOf groups i = b then 1 else 0 : Rat) :=
    fun i j => incident_pair (groupOf groups i) (groupOf groups j) a b
  rw [weight, Adjacency.between, around_aggregate, mul_ordered]
  simp only [hpairs]
  rw [ordered_eq h
    (fun i j => if groupOf groups i = a ∧ groupOf groups j = b then 1 else 0)]
  unfold Numeric.joined
  rw [sum_filter]
  refine sum_congr rfl (fun i _ => ?_)
  by_cases hi : groupOf groups i = a
  · rw [if_pos hi, sum_filter]
    refine sum_congr rfl (fun j _ => ?_)
    rw [ite_mul, one_mul, zero_mul]
    exact if_congr (and_iff_right hi) rfl rfl
  · rw [if_neg hi]
    refine sum_eq_zero (fun j _ => ?_)
    rw [if_neg (fun hij => hi hij.1), zero_mul]

/-- The keys of the joined pairs are two groups, with no negative weight. -/
def Joinable (n : Nat) (pairs : Pairs) : Prop :=
  forall (k : Nat × Nat) (w : Rat), pairs[k]? = some w -> k.1 < n ∧ k.2 < n ∧ 0 ≤ w

variable {key : Nat -> Nat}

variable {e : Nat × Rat}

theorem joinable_joinEntry (h : level.Sound)
    (hgroups : Renumbered level.size key groups) {i : Nat} (hi : i < level.size)
    (he : e ∈ level.adjacency i) {pairs : Pairs}
    (hpairs : Joinable (groupCount groups) pairs) :
    Joinable (groupCount groups) (joinEntry groups i pairs e) := by
  unfold joinEntry
  split
  · intro k w hk
    have hfrom := hgroups.lt i hi
    have hto := hgroups.lt e.1 (h.range i e he)
    refine Database.accumulate_forall hpairs ?_ ?_ hk
    · exact ⟨lt_of_le_of_lt (min_le_left _ _) hfrom, max_lt hfrom hto, h.nonneg i e he⟩
    · intro v hv
      exact ⟨hv.1, hv.2.1, add_nonneg hv.2.2 (h.nonneg i e he)⟩
  · exact hpairs

theorem joinable_joinedPairs (h : level.Sound)
    (hgroups : Renumbered level.size key groups) :
    Joinable (groupCount groups) (level.joinedPairs groups) := by
  have hentries : forall (i : Nat), i < level.size -> forall (entries : List (Nat × Rat)),
      (forall e, e ∈ entries -> e ∈ level.adjacency i) ->
      forall (pairs : Pairs), Joinable (groupCount groups) pairs ->
        Joinable (groupCount groups) (entries.foldl (joinEntry groups i) pairs) := by
    intro i hi entries
    induction entries with
    | nil =>
        exact fun _ _ hpairs => hpairs
    | cons e rest ih =>
        intro hmem pairs hpairs
        exact ih (fun f hf => hmem f (List.mem_cons_of_mem _ hf)) _
          (joinable_joinEntry h hgroups hi (hmem e List.mem_cons_self) hpairs)
  have hnodes : forall (nodes : List Nat), (forall i, i ∈ nodes -> i < level.size) ->
      forall (pairs : Pairs), Joinable (groupCount groups) pairs ->
        Joinable (groupCount groups) (nodes.foldl (fun pairs i =>
          (level.adjacency i).foldl (joinEntry groups i) pairs) pairs) := by
    intro nodes
    induction nodes with
    | nil =>
        exact fun _ _ hpairs => hpairs
    | cons i rest ih =>
        intro hmem pairs hpairs
        exact ih (fun j hj => hmem j (List.mem_cons_of_mem _ hj)) _
          (hentries i (hmem i List.mem_cons_self) _ (fun _ he => he) pairs hpairs)
  refine hnodes _ (fun i hi => List.mem_range.mp hi) ∅ ?_
  intro k w hk
  simp at hk

theorem mem_aggregate (h : level.Sound) (hgroups : Renumbered level.size key groups)
    {a : Nat} (he : e ∈ (level.aggregate groups).adjacency a) :
    a < groupCount groups ∧ e.1 < groupCount groups ∧ 0 ≤ e.2 := by
  rcases Adjacency.mem_foldl_linkGroups he with hnil | ⟨pair, hpair, hw, hends⟩
  · cases hnil
  · have hentry := joinable_joinedPairs h hgroups pair.1 pair.2
      (Std.ExtTreeMap.mem_toList_iff_getElem?_eq_some.mp hpair)
    rw [hw]
    rcases hends with ⟨hfrom, hto⟩ | ⟨hfrom, hto⟩
    · exact ⟨hfrom ▸ hentry.1, hto ▸ hentry.2.1, hentry.2.2⟩
    · exact ⟨hfrom ▸ hentry.2.1, hto ▸ hentry.1, hentry.2.2⟩

theorem aggregate_sound (h : level.Sound) (hgroups : Renumbered level.size key groups) :
    (level.aggregate groups).Sound := by
  constructor
  · exact fun a e he => (mem_aggregate h hgroups he).2.1
  · intro a ha
    refine List.eq_nil_iff_forall_not_mem.mpr ?_
    intro e he
    exact absurd (mem_aggregate h hgroups he).1 (Nat.not_lt.mpr ha)
  · intro a b
    unfold Adjacency.between
    rw [around_aggregate, around_aggregate]
    congr 1
    funext i j
    unfold Adjacency.incidentGroups
    grind
  · exact fun a e he => (mem_aggregate h hgroups he).2.2

theorem degree_aggregate (h : level.Sound) (hgroups : Renumbered level.size key groups)
    (c : Nat) :
    (level.aggregate groups).degree c =
      ∑ i ∈ range level.size with groupOf groups i = c, level.degree i := by
  have hmaps : forall i, i ∈ range level.size ->
      groupOf groups i ∈ range (groupCount groups) :=
    fun i hi => mem_range.mpr (hgroups.lt i (mem_range.mp hi))
  have hsize : (level.aggregate groups).size = groupCount groups := rfl
  rw [degree_eq (aggregate_sound h hgroups), weight_aggregate h, hsize,
    Numeric.degree_joined hmaps]
  exact sum_congr rfl (fun i _ => (degree_eq h i).symm)

theorem edgeWeight_aggregate (h : level.Sound)
    (hgroups : Renumbered level.size key groups) :
    (level.aggregate groups).edgeWeight = level.edgeWeight := by
  have hmaps : forall i, i ∈ range level.size ->
      groupOf groups i ∈ range (groupCount groups) :=
    fun i hi => mem_range.mpr (hgroups.lt i (mem_range.mp hi))
  have hsize : (level.aggregate groups).size = groupCount groups := rfl
  have htwo : 2 * (level.aggregate groups).edgeWeight = 2 * level.edgeWeight := by
    rw [two_edgeWeight (aggregate_sound h hgroups), two_edgeWeight h,
      m2_eq (aggregate_sound h hgroups), m2_eq h, weight_aggregate h, hsize]
    exact Numeric.totalDegree_joined hmaps
  exact mul_left_cancel₀ two_ne_zero htwo

theorem modularity_aggregate (h : level.Sound)
    (hgroups : Renumbered level.size key groups) (community : Nat -> Nat) :
    (level.aggregate groups).modularity community =
      level.modularity (fun i => community (groupOf groups i)) := by
  have hmaps : forall i, i ∈ range level.size ->
      groupOf groups i ∈ range (groupCount groups) :=
    fun i hi => mem_range.mpr (hgroups.lt i (mem_range.mp hi))
  unfold modularity
  rw [weight_aggregate h]
  exact Numeric.modularity_joined hmaps community

end Level

end Graph
end PostCortex
