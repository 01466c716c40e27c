import Mathlib.Data.List.Sort
import PostCortex.Graph.Aggregation
import PostCortex.KeyValue.Grouping

/-!
# Communities

`communities` of `graph/analytics.rs`: Louvain levels until one joins nothing, then
the communities of at least two entities numbered by size.
-/

namespace PostCortex
namespace Graph

open PostCortex.KeyValue

attribute [local instance] lexOrd

namespace Undirected

def level (u : Undirected) : Level where
  size := u.size
  adjacency := u.adjacency

/-- The membership when the loop ends; a level joins at least two nodes or is the
last. -/
def membership (u : Undirected) : Option (Nat -> Nat) :=
  Level.levels (u.size + 1) id u.level

def members (u : Undirected) (membership : Nat -> Nat) : Database Nat (List Nat) :=
  (List.range u.size).foldl
    (fun members node => members.alter (membership node) (push node)) ∅

def largerFirst (a b : List Nat) : Prop :=
  b.length < a.length ∨ b.length = a.length ∧ a.headD 0 ≤ b.headD 0

instance (a b : List Nat) : Decidable (largerFirst a b) :=
  inferInstanceAs
    (Decidable (b.length < a.length ∨ b.length = a.length ∧ a.headD 0 ≤ b.headD 0))

def groups (u : Undirected) (membership : Nat -> Nat) : List (List Nat) :=
  (((u.members membership).toList.map Prod.snd).filter
    (fun m => decide (1 < m.length))).insertionSort largerFirst

def number (u : Undirected) (groups : List (List Nat)) : Std.ExtTreeMap String Nat :=
  groups.zipIdx.foldl
    (fun out x =>
      x.1.foldl (fun out node => out.insert (u.names.getD node "") x.2) out) ∅

end Undirected

def communities (g : EntityGraph) : Option (Std.ExtTreeMap String Nat) :=
  let u := Undirected.new g
  u.membership.map (fun m => u.number (u.groups m))

/-!
# The levels
-/

namespace Undirected

theorem sound_level (g : EntityGraph) : (new g).level.Sound := by
  constructor
  · exact fun i e he => (mem_adjacency he).1
  · intro i hi
    refine List.eq_nil_iff_forall_not_mem.mpr ?_
    intro e he
    rcases Adjacency.mem_foldl_link.mp he with hnil | ⟨pair, hpair, _, hends⟩
    · cases hnil
    · have hentry := (sound_pairsOf g).entry pair.1 pair.2
        (Std.ExtTreeMap.mem_toList_iff_getElem?_eq_some.mp hpair)
      have hlength : (new g).level.size = g.entities.keys.length := rfl
      omega
  · intro i j
    have hpair : Adjacency.incident i (fun k => if k = j then 1 else 0) =
        Adjacency.incident j (fun k => if k = i then 1 else 0) := by
      funext pair
      unfold Adjacency.incident
      grind
    have haround (k : Nat) (factor : Nat -> Rat) :=
      Adjacency.around_foldl (fun adjacency pair => adjacency.around_link pair k factor)
        (pairsOf g).toList (fun _ => [])
    refine (haround i _).trans (Eq.trans ?_ (haround j _).symm)
    rw [hpair]
    rfl
  · exact fun i e he => (mem_adjacency he).2.2.le

/-- The levels of the loop, with the community of every entity at each. -/
inductive Levels (u : Undirected) : (Nat -> Nat) -> Level -> Prop where
  | base : Levels u id u.level
  | next {membership : Nat -> Nat} {level : Level} :
      Levels u membership level ->
      groupCount (renumber level.louvain) ≠ level.size ->
      Levels u (fun i => groupOf (renumber level.louvain) (membership i))
        (level.aggregate (renumber level.louvain))

/-- A level is the base level with the nodes of each community joined, and it is no
worse. -/
structure Joined (u : Undirected) (membership : Nat -> Nat) (level : Level) : Prop where
  sound : level.Sound
  lt : forall i, i < u.size -> membership i < level.size
  modularity : forall c : Nat -> Nat,
    level.modularity c = u.level.modularity (fun i => c (membership i))
  le : u.level.modularity id ≤ level.modularity id

theorem renumbered_louvain {level : Level} (h : level.Sound) :
    exists s, level.Moves s ∧
      Renumbered level.size s.community (renumber level.louvain) ∧
      level.modularity id ≤ level.modularity s.community := by
  obtain ⟨s, hmoves, hlouvain, hle⟩ := Level.louvain_spec h
  refine ⟨s, hmoves, ?_, hle⟩
  rw [hlouvain]
  exact renumbered level.size s.community

variable {u : Undirected}

theorem Joined.next {membership : Nat -> Nat} {level : Level}
    (h : u.Joined membership level) :
    u.Joined (fun i => groupOf (renumber level.louvain) (membership i))
      (level.aggregate (renumber level.louvain)) := by
  obtain ⟨s, _, hgroups, hle⟩ := renumbered_louvain h.sound
  constructor
  · exact Level.aggregate_sound h.sound hgroups
  · exact fun i hi => hgroups.lt _ (h.lt i hi)
  · intro c
    rw [Level.modularity_aggregate h.sound hgroups]
    exact h.modularity _
  · have hsame : level.modularity (groupOf (renumber level.louvain)) =
        level.modularity s.community :=
      Numeric.modularity_congr (fun i j hi hj =>
        hgroups.same i j (Finset.mem_range.mp hi) (Finset.mem_range.mp hj))
    rw [Level.modularity_aggregate h.sound hgroups]
    exact (h.le.trans hle).trans hsame.ge

variable {g : EntityGraph}

theorem Levels.joined {membership : Nat -> Nat} {level : Level}
    (h : (new g).Levels membership level) : (new g).Joined membership level := by
  induction h with
  | base => exact ⟨sound_level g, fun _ hi => hi, fun _ => rfl, le_refl _⟩
  | next _ _ ih => exact ih.next

theorem levels_ends {membership : Nat -> Nat} {level : Level}
    (h : (new g).Levels membership level) (fuel : Nat) (hfuel : level.size < fuel) :
    exists membership' level',
      Level.levels fuel membership level = some membership' ∧
        (new g).Levels membership' level' := by
  induction fuel generalizing membership level with
  | zero => exact absurd hfuel (Nat.not_lt_zero _)
  | succ fuel ih =>
      unfold Level.levels
      dsimp only
      by_cases hdone : groupCount (renumber level.louvain) = level.size
      · rw [if_pos hdone]
        exact ⟨membership, level, rfl, h⟩
      · rw [if_neg hdone]
        obtain ⟨s, _, hgroups, _⟩ := renumbered_louvain h.joined.sound
        have hsmaller : (level.aggregate (renumber level.louvain)).size < level.size :=
          lt_of_le_of_ne hgroups.count_le hdone
        exact ih (h.next hdone) (by omega)

/-!
# The reported groups
-/

def classOf (u : Undirected) (membership : Nat -> Nat) (c : Nat) : List Nat :=
  (List.range u.size).filter (fun i => membership i = c)

theorem mem_classOf {membership : Nat -> Nat} {c i : Nat} :
    i ∈ u.classOf membership c ↔ i < u.size ∧ membership i = c := by
  simp [classOf]

theorem members_get (u : Undirected) (membership : Nat -> Nat) (c : Nat) :
    (u.members membership)[c]? = present (u.classOf membership c) := by
  have hfold : forall (nodes done : List Nat) (db : Database Nat (List Nat)),
      db[c]? = present (done.filter (fun i => membership i = c)) ->
      (nodes.foldl (fun members node =>
          members.alter (membership node) (push node)) db)[c]? =
        present ((done ++ nodes).filter (fun i => membership i = c)) := by
    intro nodes
    induction nodes with
    | nil =>
        intro done db hdb
        rw [List.append_nil]
        exact hdb
    | cons node rest ih =>
        intro done db hdb
        rw [List.foldl_cons, List.append_cons]
        refine ih (done ++ [node]) _ ?_
        rw [Database.get_alter, List.filter_append]
        by_cases hc : membership node = c
        · rw [if_pos hc, hc, hdb, push_present, List.filter_singleton]
          simp [hc]
        · rw [if_neg hc, hdb, List.filter_singleton]
          simp [hc]
  exact hfold (List.range u.size) [] ∅ (by simp)

instance : Std.Total largerFirst where
  total a b := by
    unfold largerFirst
    omega

instance : IsTrans (List Nat) largerFirst where
  trans a b c := by
    unfold largerFirst
    omega

theorem mem_members {membership : Nat -> Nat} {e : Nat × List Nat} :
    e ∈ (u.members membership).toList ↔
      e.2 ≠ [] ∧ e.2 = u.classOf membership e.1 := by
  rw [Std.ExtTreeMap.mem_toList_iff_getElem?_eq_some, members_get, present]
  constructor
  · intro h
    split at h
    · cases h
    · next hne =>
      have heq := Option.some.inj h
      exact ⟨heq ▸ hne, heq.symm⟩
  · rintro ⟨hne, heq⟩
    rw [if_neg (heq ▸ hne), heq]

theorem mem_groups {membership : Nat -> Nat} {group : List Nat} :
    group ∈ u.groups membership ↔
      1 < group.length ∧ exists c, group = u.classOf membership c := by
  unfold groups
  rw [List.mem_insertionSort, List.mem_filter, List.mem_map]
  constructor
  · rintro ⟨⟨e, he, rfl⟩, hlength⟩
    exact ⟨of_decide_eq_true hlength, e.1, (mem_members.mp he).2⟩
  · rintro ⟨hlength, c, rfl⟩
    refine ⟨⟨(c, u.classOf membership c), ?_, rfl⟩, decide_eq_true hlength⟩
    exact mem_members.mpr ⟨List.ne_nil_of_length_pos (Nat.zero_lt_of_lt hlength), rfl⟩

theorem groups_disjoint (u : Undirected) (membership : Nat -> Nat) :
    (u.groups membership).Pairwise List.Disjoint := by
  have hsymm : forall {a b : List Nat}, a.Disjoint b -> b.Disjoint a :=
    fun h => h.symm
  have hmembers : (u.members membership).toList.Pairwise
      (fun x y => x.2.Disjoint y.2) := by
    refine (List.pairwise_map.mp (Database.toList_nodup _)).imp_of_mem ?_
    intro x y hx hy hne i hix hiy
    rw [(mem_members.mp hx).2] at hix
    rw [(mem_members.mp hy).2] at hiy
    exact hne ((mem_classOf.mp hix).2.symm.trans (mem_classOf.mp hiy).2)
  refine ((List.perm_insertionSort largerFirst _).pairwise_iff hsymm).mpr ?_
  exact (List.pairwise_map.mpr hmembers).filter _

theorem groups_sorted (u : Undirected) (membership : Nat -> Nat) :
    (u.groups membership).Pairwise (fun a b => b.length ≤ a.length) := by
  refine (List.pairwise_insertionSort largerFirst _).imp ?_
  intro a b hab
  unfold largerFirst at hab
  omega

def placements (u : Undirected) (groups : List (List Nat)) : List (String × Nat) :=
  groups.zipIdx.flatMap (fun x => x.1.map (fun node => (u.names.getD node "", x.2)))

theorem number_eq (u : Undirected) (groups : List (List Nat)) :
    u.number groups = Std.ExtTreeMap.ofList (u.placements groups) := by
  rw [Std.ExtTreeMap.ofList_eq_foldl, placements, List.foldl_flatMap]
  simp only [List.foldl_map]
  rfl

theorem placements_names (u : Undirected) (groups : List (List Nat)) :
    (u.placements groups).map Prod.fst =
      groups.flatten.map (fun node => u.names.getD node "") := by
  have hgroups := List.zipIdx_map_fst 0 groups
  unfold placements
  rw [List.map_flatMap, List.map_flatten]
  simp only [List.map_map, Function.comp_def]
  conv_rhs => rw [← hgroups, List.map_map]
  rfl

theorem nodup_placements {groups : List (List Nat)}
    (hdisjoint : groups.Pairwise List.Disjoint)
    (hgroups : forall group, group ∈ groups ->
      group.Nodup ∧ forall i, i ∈ group -> i < (new g).size) :
    (((new g).placements groups).map Prod.fst).Nodup := by
  rw [placements_names]
  have hflat : groups.flatten.Nodup :=
    List.nodup_flatten.mpr ⟨fun group hgroup => (hgroups group hgroup).1, hdisjoint⟩
  have hnames : (new g).names.Nodup := Std.ExtTreeMap.nodup_keys
  have hlt : forall i, i ∈ groups.flatten -> i < (new g).names.length := by
    intro i hi
    obtain ⟨group, hgroup, hmem⟩ := List.mem_flatten.mp hi
    exact (hgroups group hgroup).2 i hmem
  refine hflat.map_on ?_
  intro i hi j hj heq
  rw [List.getD_eq_getElem?_getD, List.getD_eq_getElem?_getD,
    List.getElem?_eq_getElem (hlt i hi), List.getElem?_eq_getElem (hlt j hj)] at heq
  exact (List.Nodup.getElem_inj_iff hnames).mp heq

/-- The report of a partition: which entities it groups, and how the groups are
listed and numbered. -/
structure Reported (u : Undirected) (membership : Nat -> Nat)
    (out : Std.ExtTreeMap String Nat) (groups : List (List Nat)) : Prop where
  classes : forall group, group ∈ groups ->
    exists c, group = u.classOf membership c
  complete : forall i j, i < u.size -> j < u.size -> i ≠ j ->
    membership i = membership j -> exists group, group ∈ groups ∧ i ∈ group ∧ j ∈ group
  several : forall group, group ∈ groups -> 2 ≤ group.length
  disjoint : groups.Pairwise List.Disjoint
  sizes : groups.Pairwise (fun a b => b.length ≤ a.length)
  numbered : forall (name : String) (k : Nat), out[name]? = some k ↔
    exists group i, groups[k]? = some group ∧ i ∈ group ∧ u.names[i]? = some name

theorem reported (g : EntityGraph) (membership : Nat -> Nat) :
    (new g).Reported membership ((new g).number ((new g).groups membership))
      ((new g).groups membership) := by
  have hlt : forall group, group ∈ (new g).groups membership ->
      forall i, i ∈ group -> i < (new g).size := by
    intro group hgroup i hi
    obtain ⟨_, c, rfl⟩ := mem_groups.mp hgroup
    exact (mem_classOf.mp hi).1
  have hdisjoint := groups_disjoint (new g) membership
  constructor
  · exact fun group hgroup => (mem_groups.mp hgroup).2
  · intro i j hi hj hne heq
    have hmemi : i ∈ (new g).classOf membership (membership j) :=
      mem_classOf.mpr ⟨hi, heq⟩
    have hmemj : j ∈ (new g).classOf membership (membership j) :=
      mem_classOf.mpr ⟨hj, rfl⟩
    refine ⟨_, mem_groups.mpr ⟨?_, membership j, rfl⟩, hmemi, hmemj⟩
    have hpair : [i, j].Nodup := by simp [hne]
    exact (hpair.subperm (by simp [hmemi, hmemj])).length_le
  · exact fun group hgroup => (mem_groups.mp hgroup).1
  · exact hdisjoint
  · exact groups_sorted (new g) membership
  · intro name k
    have hnodup := nodup_placements hdisjoint (fun group hgroup =>
      ⟨by
        obtain ⟨_, c, rfl⟩ := mem_groups.mp hgroup
        exact List.nodup_range.filter _, hlt group hgroup⟩)
    rw [number_eq, Database.get_ofList hnodup, placements, List.mem_flatMap]
    constructor
    · rintro ⟨⟨group, index⟩, hmem, hplaced⟩
      obtain ⟨i, hi, heq⟩ := List.mem_map.mp hplaced
      cases heq
      have hgroup := List.mem_zipIdx_iff_getElem?.mp hmem
      have hi' := hlt group (List.mem_of_getElem? hgroup) i hi
      refine ⟨group, i, hgroup, hi, ?_⟩
      rw [List.getD_eq_getElem?_getD, List.getElem?_eq_getElem hi']
      rfl
    · rintro ⟨group, i, hgroup, hi, hname⟩
      refine ⟨(group, k), List.mem_zipIdx_iff_getElem?.mpr hgroup, ?_⟩
      refine List.mem_map.mpr ⟨i, hi, ?_⟩
      rw [List.getD_eq_getElem?_getD, hname]
      rfl

end Undirected

open Finset

/-- The loop ends.  At each of its levels joining the communities keeps the weight of
the edges and the degree of each community, and a move that changes a community
increases the modularity (`louvain_level` moves nothing without weights).  The last
partition is no worse than the singletons, and the report lists its communities of
several entities by size. -/
theorem communities_sound (g : EntityGraph) :
    (forall membership level, (Undirected.new g).Levels membership level ->
      (level.aggregate (renumber level.louvain)).edgeWeight = level.edgeWeight ∧
      (forall c, (level.aggregate (renumber level.louvain)).degree c =
        ∑ i ∈ range level.size with groupOf (renumber level.louvain) i = c,
          level.degree i) ∧
      forall s i, level.Moves s -> i < level.size -> level.m2 ≠ 0 ->
        (level.move s i).community i ≠ s.community i ->
        level.modularity s.community < level.modularity (level.move s i).community) ∧
    exists membership level out groups,
      (Undirected.new g).membership = some membership ∧
      (Undirected.new g).Levels membership level ∧
      communities g = some out ∧
      (Undirected.new g).level.modularity id ≤
        (Undirected.new g).level.modularity membership ∧
      (Undirected.new g).Reported membership out groups := by
  constructor
  · intro membership level hlevel
    have hsound := hlevel.joined.sound
    obtain ⟨_, _, hgroups, _⟩ := Undirected.renumbered_louvain hsound
    refine ⟨Level.edgeWeight_aggregate hsound hgroups,
      Level.degree_aggregate hsound hgroups, ?_⟩
    intro s i hs hi hweight hmoved
    exact Level.move_increases hsound hweight (hs.consistent hsound) hi hmoved
  · obtain ⟨membership, level, hrun, hlevel⟩ :=
      Undirected.levels_ends (Undirected.Levels.base (u := Undirected.new g))
        ((Undirected.new g).size + 1) (Nat.lt_succ_self _)
    have hmembership : (Undirected.new g).membership = some membership := hrun
    refine ⟨membership, level, _, _, hmembership, hlevel, ?_, ?_,
      Undirected.reported g membership⟩
    · unfold communities
      dsimp only
      rw [hmembership]
      rfl
    · have hjoined := hlevel.joined
      exact hjoined.le.trans (hjoined.modularity id).le

end Graph
end PostCortex
