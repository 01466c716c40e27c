import Mathlib.Tactic.Linarith
import PostCortex.Graph.Undirected
import PostCortex.Numeric.DampedWalk

/-!
# Importance

`importance` of `graph/analytics.rs`: a weighted PageRank over the undirected view,
personalised by mentions, scaled to the greatest rank and faded by staleness.  The
logarithm of a mention count and the powers of one half are parameters.
-/

namespace PostCortex
namespace Graph

open PostCortex.Core
open PostCortex.Numeric

def damping : Rat := 17 / 20

def pagerankIterations : Nat := 100

def pagerankTolerance : Rat := 1 / 1000000000

def recencyHalfLifeDays : Rat := 90

def f64Min : Rat := -((2 ^ 53 - 1) * 2 ^ 971)

def mentions (g : EntityGraph) (name : String) : Nat :=
  let linked :=
    match g.entityMentions[name]? with
    | some ids => ids.length
    | none => 0
  let counted :=
    match g.entities[name]? with
    | some e => e.mentionCount
    | none => 0
  max linked counted

def recency (halved : Rat -> Rat) (last latest : Timestamp) : Rat :=
  let days : Rat := (max (numSeconds (latest - last)) 0 : Int) / 86400
  halved (days / recencyHalfLifeDays)

namespace Undirected

def nameAt (u : Undirected) (i : Nat) : String :=
  u.names.getD i ""

def teleportWeight (ln1p : Nat -> Rat) (g : EntityGraph) (u : Undirected) (i : Nat) :
    Rat :=
  1 + ln1p (mentions g (u.nameAt i))

def teleport (ln1p : Nat -> Rat) (g : EntityGraph) (u : Undirected) (i : Nat) : Rat :=
  u.teleportWeight ln1p g i /
    ∑ k ∈ Finset.range u.size, u.teleportWeight ln1p g k

def dangling (u : Undirected) (rank : Nat -> Rat) : Rat :=
  ∑ i ∈ Finset.range u.size with u.strength i = 0, rank i

def shareFrom (u : Undirected) (rank next : Nat -> Rat) (i : Nat) : Nat -> Rat :=
  if u.strength i = 0 then next
  else
    let share := damping * rank i / u.strength i
    (u.adjacency i).foldl
      (fun next e => Function.update next e.1 (next e.1 + share * e.2)) next

def nextRank (u : Undirected) (teleport rank : Nat -> Rat) : Nat -> Rat :=
  (List.range u.size).foldl (u.shareFrom rank)
    (fun j => (1 - damping + damping * u.dangling rank) * teleport j)

def iterate (u : Undirected) (teleport : Nat -> Rat) :
    Nat -> (Nat -> Rat) -> Nat -> Rat
  | 0, rank => rank
  | left + 1, rank =>
      let next := u.nextRank teleport rank
      if ∑ i ∈ Finset.range u.size, |next i - rank i| < pagerankTolerance then next
      else iterate u teleport left next

def top (u : Undirected) (rank : Nat -> Rat) : Rat :=
  (List.range u.size).foldl (fun m i => max m (rank i)) f64Min

end Undirected

def fade (halved : Rat -> Rat) (g : EntityGraph) (name : String) : Rat :=
  match (g.values.map EntityData.lastMentioned).max?, g.entities[name]? with
  | some latest, some e => recency halved e.lastMentioned latest
  | _, _ => 1

def finalRank (ln1p : Nat -> Rat) (g : EntityGraph) : Nat -> Rat :=
  let u := Undirected.new g
  u.iterate (u.teleport ln1p g) pagerankIterations (u.teleport ln1p g)

def importance (ln1p : Nat -> Rat) (halved : Rat -> Rat) (g : EntityGraph) :
    Std.ExtTreeMap String Rat :=
  let u := Undirected.new g
  let rank := finalRank ln1p g
  if u.size = 0 then ∅
  else
    Std.ExtTreeMap.ofList (u.names.zipIdx.map (fun x =>
      (x.1, rank x.2 / u.top rank * (1 / 2 + 1 / 2 * fade halved g x.1))))

/-!
# One iteration
-/

namespace Undirected

open Finset

theorem foldl_share (share : Rat) (entries : List (Nat × Rat)) (next : Nat -> Rat)
    (j : Nat) :
    entries.foldl
        (fun next e => Function.update next e.1 (next e.1 + share * e.2)) next j =
      next j +
        share * (entries.map (fun e => (if e.1 = j then 1 else 0) * e.2)).sum := by
  induction entries generalizing next with
  | nil =>
      simp
  | cons e rest ih =>
      rw [List.foldl_cons, ih, List.map_cons, List.sum_cons, mul_add, ← add_assoc]
      by_cases hj : e.1 = j
      · rw [← hj, Function.update_self]
        simp
      · rw [Function.update_of_ne (Ne.symm hj)]
        simp [hj]

theorem shareFrom_apply (u : Undirected) (rank next : Nat -> Rat) (i j : Nat) :
    u.shareFrom rank next i j =
      next j + if u.strength i ≠ 0 then
        damping * rank i / u.strength i * u.adjacency.between i j else 0 := by
  unfold shareFrom
  by_cases hi : u.strength i = 0
  · rw [if_pos hi, if_neg (not_not.mpr hi), add_zero]
  · rw [if_neg hi, if_pos hi, foldl_share]
    rfl

theorem foldl_shareFrom (u : Undirected) (rank next : Nat -> Rat) (n j : Nat) :
    (List.range n).foldl (u.shareFrom rank) next j =
      next j + ∑ i ∈ range n with u.strength i ≠ 0,
        damping * rank i / u.strength i * u.adjacency.between i j := by
  induction n with
  | zero =>
      simp
  | succ n ih =>
      rw [List.range_succ, List.foldl_append, List.foldl_cons, List.foldl_nil,
        shareFrom_apply, ih, sum_filter, sum_filter, sum_range_succ, add_assoc]

theorem nextRank_eq_walk (g : EntityGraph) (teleport rank : Nat -> Rat) (j : Nat) :
    (new g).nextRank teleport rank j =
      walk (range (new g).size) damping (new g).adjacency.between teleport rank j := by
  have hflow : forall i, outflow (range (new g).size) (new g).adjacency.between i =
      (new g).strength i :=
    fun i => (strength_eq_sum g i).symm
  unfold nextRank walk
  rw [foldl_shareFrom]
  simp only [hflow]
  rfl

variable {rank : Nat -> Rat}

theorem nextRank_distribution (g : EntityGraph) {teleport : Nat -> Rat}
    (hteleport : Distribution (range (new g).size) teleport)
    (hrank : Distribution (range (new g).size) rank) :
    Distribution (range (new g).size) ((new g).nextRank teleport rank) := by
  have hwalk : Distribution (range (new g).size)
      (walk (range (new g).size) damping (new g).adjacency.between teleport rank) :=
    hteleport.walk (by decide +kernel) (by decide +kernel)
      (fun i j _ _ => between_nonneg g i j) hrank
  exact hwalk.congr (fun j _ => nextRank_eq_walk g teleport rank j)

theorem iterate_distribution (g : EntityGraph) {teleport : Nat -> Rat}
    (hteleport : Distribution (range (new g).size) teleport) (left : Nat)
    (hrank : Distribution (range (new g).size) rank) :
    Distribution (range (new g).size) ((new g).iterate teleport left rank) := by
  induction left generalizing rank with
  | zero =>
      exact hrank
  | succ left ih =>
      have hnext := nextRank_distribution g hteleport hrank
      unfold iterate
      dsimp only
      split
      · exact hnext
      · exact ih hnext

variable {u : Undirected}

theorem teleport_distribution {ln1p : Nat -> Rat} (hpos : forall m, 0 < 1 + ln1p m)
    (g : EntityGraph) (hne : 0 < u.size) :
    Distribution (range u.size) (u.teleport ln1p g) := by
  have hweights : forall i, i ∈ range u.size -> 0 < u.teleportWeight ln1p g i :=
    fun _ _ => hpos _
  exact Distribution.normalize ⟨0, mem_range.mpr hne⟩ hweights

/-!
# Scores
-/

theorem le_foldl_max (rank : Nat -> Rat) (nodes : List Nat) (least : Rat) :
    least ≤ nodes.foldl (fun m i => max m (rank i)) least ∧
      forall i, i ∈ nodes -> rank i ≤ nodes.foldl (fun m i => max m (rank i)) least := by
  induction nodes generalizing least with
  | nil =>
      exact ⟨le_refl _, fun i hi => absurd hi List.not_mem_nil⟩
  | cons n rest ih =>
      obtain ⟨hleast, hall⟩ := ih (max least (rank n))
      rw [List.foldl_cons]
      refine ⟨(le_max_left _ _).trans hleast, ?_⟩
      intro i hi
      rcases List.mem_cons.mp hi with rfl | hi
      · exact (le_max_right _ _).trans hleast
      · exact hall i hi

theorem le_top (u : Undirected) (rank : Nat -> Rat) {i : Nat} (hi : i < u.size) :
    rank i ≤ u.top rank :=
  (le_foldl_max rank _ f64Min).2 i (List.mem_range.mpr hi)

theorem top_pos (hne : 0 < u.size) (hrank : Distribution (range u.size) rank) :
    0 < u.top rank :=
  (hrank.pos 0 (mem_range.mpr hne)).trans_le (le_top u rank hne)

theorem score_bounds {rank top fade : Rat} (hrank : 0 < rank) (htop : rank ≤ top)
    (hfade : 0 ≤ fade ∧ fade ≤ 1) :
    0 < rank / top * (1 / 2 + 1 / 2 * fade) ∧
      rank / top * (1 / 2 + 1 / 2 * fade) ≤ 1 := by
  have hpos : 0 < top := hrank.trans_le htop
  have hshare : 0 < rank / top := div_pos hrank hpos
  have hle : rank / top ≤ 1 := (div_le_one hpos).mpr htop
  have hfactor : 0 < 1 / 2 + 1 / 2 * fade ∧ 1 / 2 + 1 / 2 * fade ≤ 1 := by
    constructor <;> linarith
  exact ⟨mul_pos hshare hfactor.1, mul_le_one₀ hle hfactor.1.le hfactor.2⟩

end Undirected

variable {halved : Rat -> Rat}

theorem fade_bounds (hhalved : forall x, 0 ≤ x -> 0 ≤ halved x ∧ halved x ≤ 1)
    (g : EntityGraph) (name : String) :
    0 ≤ fade halved g name ∧ fade halved g name ≤ 1 := by
  unfold fade
  split
  · refine hhalved _ (div_nonneg (div_nonneg ?_ (by decide)) (by decide +kernel))
    exact_mod_cast le_max_right _ _
  · exact ⟨by decide, le_refl 1⟩

variable {ln1p : Nat -> Rat} {g : EntityGraph}

theorem finalRank_distribution (hpos : forall m, 0 < 1 + ln1p m)
    (hne : 0 < (Undirected.new g).size) :
    Distribution (Finset.range (Undirected.new g).size) (finalRank ln1p g) :=
  Undirected.iterate_distribution g (Undirected.teleport_distribution hpos g hne) _
    (Undirected.teleport_distribution hpos g hne)

def scoreAt (ln1p : Nat -> Rat) (halved : Rat -> Rat) (g : EntityGraph) (i : Nat)
    (name : String) : Rat :=
  finalRank ln1p g i / (Undirected.new g).top (finalRank ln1p g) *
    (1 / 2 + 1 / 2 * fade halved g name)

def scores (ln1p : Nat -> Rat) (halved : Rat -> Rat) (g : EntityGraph) :
    List (String × Rat) :=
  (Undirected.new g).names.zipIdx.map
    (fun x => (x.1, scoreAt ln1p halved g x.2 x.1))

theorem importance_eq (ln1p : Nat -> Rat) (halved : Rat -> Rat) (g : EntityGraph) :
    importance ln1p halved g = Std.ExtTreeMap.ofList (scores ln1p halved g) := by
  unfold importance
  dsimp only
  split
  · next hempty =>
    have hnames : (Undirected.new g).names = [] := List.eq_nil_of_length_eq_zero hempty
    rw [scores, hnames]
    rfl
  · rfl

theorem scores_names (ln1p : Nat -> Rat) (halved : Rat -> Rat) (g : EntityGraph) :
    (scores ln1p halved g).map Prod.fst = g.entities.keys := by
  rw [scores, List.map_map]
  exact List.zipIdx_map_fst 0 _

variable {name : String}

theorem mem_importance :
    name ∈ importance ln1p halved g ↔ name ∈ g.entities := by
  rw [importance_eq, Std.ExtTreeMap.mem_ofList, scores_names, List.contains_iff_mem,
    Std.ExtTreeMap.mem_keys]

theorem importance_some {score : Rat}
    (h : (importance ln1p halved g)[name]? = some score) :
    exists i, i < (Undirected.new g).size ∧ score = scoreAt ln1p halved g i name := by
  have hmem : name ∈ (Undirected.new g).names := by
    have hscored : name ∈ importance ln1p halved g :=
      Std.ExtTreeMap.mem_iff_isSome_getElem?.mpr (by rw [h]; rfl)
    exact Std.ExtTreeMap.mem_keys.mpr (mem_importance.mp hscored)
  obtain ⟨i, hi, hname⟩ := List.getElem_of_mem hmem
  have hentry : (name, scoreAt ln1p halved g i name) ∈ scores ln1p halved g := by
    refine List.mem_map.mpr ⟨(name, i), ?_, rfl⟩
    exact List.mem_zipIdx_iff_getElem?.mpr (List.getElem?_eq_some_iff.mpr ⟨hi, hname⟩)
  have hnodup : ((scores ln1p halved g).map Prod.fst).Nodup := by
    rw [scores_names]
    exact Std.ExtTreeMap.nodup_keys
  have hget := (KeyValue.Database.get_ofList hnodup).mpr hentry
  rw [importance_eq, hget] at h
  exact ⟨i, hi, (Option.some.inj h).symm⟩

/-- For positive teleport weights and factors of staleness from zero to one the rank
is a positive distribution in every iteration, the greatest rank is positive, and
the entities have a score each, above zero and one at most. -/
theorem importance_scores (ln1p : Nat -> Rat) (halved : Rat -> Rat)
    (hweight : forall m, 0 < 1 + ln1p m)
    (hhalved : forall x, 0 ≤ x -> 0 ≤ halved x ∧ halved x ≤ 1) (g : EntityGraph) :
    let u := Undirected.new g
    let start := u.teleport ln1p g
    (forall rank, 0 < u.size -> Distribution (Finset.range u.size) rank ->
      Distribution (Finset.range u.size) (u.nextRank start rank)) ∧
    (forall k, 0 < u.size ->
      Distribution (Finset.range u.size) (u.iterate start k start)) ∧
    (0 < u.size -> 0 < u.top (finalRank ln1p g)) ∧
    (forall name, name ∈ importance ln1p halved g ↔ name ∈ g.entities) ∧
    forall (name : String) (score : Rat),
      (importance ln1p halved g)[name]? = some score -> 0 < score ∧ score ≤ 1 := by
  intro u start
  have hstart : 0 < u.size -> Distribution (Finset.range u.size) start :=
    Undirected.teleport_distribution hweight g
  refine ⟨?_, ?_, ?_, fun _ => mem_importance, ?_⟩
  · intro rank hne hrank
    exact Undirected.nextRank_distribution g (hstart hne) hrank
  · intro k hne
    exact Undirected.iterate_distribution g (hstart hne) k (hstart hne)
  · intro hne
    exact Undirected.top_pos hne (finalRank_distribution hweight hne)
  · intro name score hscore
    obtain ⟨i, hi, rfl⟩ := importance_some hscore
    have hrank := finalRank_distribution hweight (Nat.zero_lt_of_lt hi)
    exact Undirected.score_bounds (hrank.pos i (Finset.mem_range.mpr hi))
      (Undirected.le_top _ _ hi) (fade_bounds hhalved g name)

/-!
# Two related entities
-/

attribute [local instance] EntityGraph.asciiTables

def pairGraph : EntityGraph :=
  EntityGraph.addRelationship 0 EntityGraph.new
    ⟨"redis", "kafka", RelationType.relatedTo, "queue"⟩

def lnOnce (m : Nat) : Rat :=
  if m = 0 then 0 else 6931471805599453 / 10000000000000000

def halvedAtOnce (x : Rat) : Rat :=
  if x = 0 then 1 else 1 / 2

theorem importance_scores_pair :
    Distribution (Finset.range 2) (finalRank lnOnce pairGraph) ∧
      0 < (Undirected.new pairGraph).top (finalRank lnOnce pairGraph) ∧
      exists score : Rat,
        (importance lnOnce halvedAtOnce pairGraph)["redis"]? = some score ∧
          0 < score ∧ score ≤ 1 := by
  have hweight : forall m, 0 < 1 + lnOnce m := by
    intro m
    unfold lnOnce
    split <;> decide +kernel
  have hhalved : forall x, 0 ≤ x -> 0 ≤ halvedAtOnce x ∧ halvedAtOnce x ≤ 1 := by
    intro x _
    unfold halvedAtOnce
    split <;> decide +kernel
  obtain ⟨_, hrank, htop, hmem, hscores⟩ :=
    importance_scores lnOnce halvedAtOnce hweight hhalved pairGraph
  have hsize : (Undirected.new pairGraph).size = 2 := by decide +kernel
  have hne : 0 < (Undirected.new pairGraph).size := by rw [hsize]; decide
  have hredis : "redis" ∈ importance lnOnce halvedAtOnce pairGraph :=
    (hmem "redis").mpr (by decide +kernel)
  have hfinal := hrank pagerankIterations hne
  rw [hsize] at hfinal
  obtain ⟨score, hscore⟩ := Option.isSome_iff_exists.mp
    (Std.ExtTreeMap.mem_iff_isSome_getElem?.mp hredis)
  exact ⟨hfinal, htop hne, score, hscore, hscores "redis" score hscore⟩

end Graph
end PostCortex
