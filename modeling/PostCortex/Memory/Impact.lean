import PostCortex.Graph.Networks
import PostCortex.Search.Levels

/-!
# Impact analysis

`analyze_impact` of `context_assembly.rs` and the loop of `impact_view` of
`graph_views.rs` that repeats it level by level.  A relation `x RequiredBy q` is read
twice, once as if `x` depended on `q`.
-/

namespace PostCortex
namespace Memory

open PostCortex.Core
open PostCortex.Graph
open PostCortex.Search

structure ImpactEntry where
  entity : String
  dependsOn : String
  relationType : RelationType
  context : String
  deriving DecidableEq, Repr

def dependencyTypes : List RelationType :=
  [RelationType.dependsOn, RelationType.requiredBy, RelationType.implements]

def impactsOf (queryEntities : List String) (rel : EntityRelationship) :
    List ImpactEntry :=
  if rel.fromEntity = rel.toEntity then []
  else
    (if rel.relationType ∈ dependencyTypes ∧ rel.toEntity ∈ queryEntities then
      [⟨rel.fromEntity, rel.toEntity, rel.relationType, rel.context⟩]
    else []) ++
    if rel.relationType = RelationType.requiredBy ∧
        rel.fromEntity ∈ queryEntities then
      [⟨rel.toEntity, rel.fromEntity, rel.relationType, rel.context⟩]
    else []

namespace ImpactEntry

def pair (impact : ImpactEntry) : String × String :=
  (impact.entity, impact.dependsOn)

end ImpactEntry

def analyzeImpact (queryEntities : List String) (g : EntityGraph) :
    List ImpactEntry :=
  unseen ImpactEntry.pair []
    ((queryEntities.flatMap g.relationshipsOf).flatMap (impactsOf queryEntities))

/-!
# Dependency
-/

/-- A change of `q` reaches `e`: `e` depends on it or implements it, or it is required
by `e`. -/
def Depends (g : EntityGraph) (e q : String) : Prop :=
  (e, q, RelationType.dependsOn) ∈ g.relationKeys ∨
    (e, q, RelationType.implements) ∈ g.relationKeys ∨
      (q, e, RelationType.requiredBy) ∈ g.relationKeys

def Reported (g : EntityGraph) (e q : String) : Prop :=
  Depends g e q ∨ (e, q, RelationType.requiredBy) ∈ g.relationKeys

instance (g : EntityGraph) (e q : String) : Decidable (Depends g e q) :=
  inferInstanceAs (Decidable (_ ∨ _))

instance (g : EntityGraph) (e q : String) : Decidable (Reported g e q) :=
  inferInstanceAs (Decidable (_ ∨ _))

section

variable {g : EntityGraph} {queryEntities : List String}

variable {e q : String}

theorem mem_impactsOf {rel : EntityRelationship} :
    (e, q) ∈ (impactsOf queryEntities rel).map ImpactEntry.pair ↔
      e ≠ q ∧ q ∈ queryEntities ∧
        (EntityGraph.relationKey rel = (e, q, RelationType.dependsOn) ∨
          EntityGraph.relationKey rel = (e, q, RelationType.implements) ∨
          EntityGraph.relationKey rel = (e, q, RelationType.requiredBy) ∨
          EntityGraph.relationKey rel = (q, e, RelationType.requiredBy)) := by
  obtain ⟨source, target, t, context⟩ := rel
  dsimp only [EntityGraph.relationKey]
  simp only [Prod.mk.injEq]
  unfold impactsOf
  dsimp only
  by_cases hloop : source = target
  · rw [if_pos hloop]
    subst hloop
    constructor
    · intro h
      cases h
    · rintro ⟨hne, _, h⟩
      rcases h with ⟨rfl, rfl, _⟩ | ⟨rfl, rfl, _⟩ | ⟨rfl, rfl, _⟩ | ⟨rfl, rfl, _⟩ <;>
        exact absurd rfl hne
  · rw [if_neg hloop, List.map_append, List.mem_append]
    have hforward : (e, q) ∈ (if t ∈ dependencyTypes ∧ target ∈ queryEntities then
        [(⟨source, target, t, context⟩ : ImpactEntry)] else []).map ImpactEntry.pair ↔
        (t ∈ dependencyTypes ∧ target ∈ queryEntities) ∧ e = source ∧ q = target := by
      split
      · next h => simp [h, ImpactEntry.pair]
      · next h => simp [h]
    have hbackward : (e, q) ∈ (if t = RelationType.requiredBy ∧ source ∈ queryEntities
        then [(⟨target, source, t, context⟩ : ImpactEntry)] else []).map
          ImpactEntry.pair ↔
        (t = RelationType.requiredBy ∧ source ∈ queryEntities) ∧
          e = target ∧ q = source := by
      split
      · next h => simp [h, ImpactEntry.pair]
      · next h => simp [h]
    rw [hforward, hbackward]
    constructor
    · rintro (⟨⟨ht, hq⟩, rfl, rfl⟩ | ⟨⟨ht, hq⟩, rfl, rfl⟩)
      · refine ⟨hloop, hq, ?_⟩
        rcases List.mem_cons.mp ht with rfl | ht
        · exact Or.inl ⟨rfl, rfl, rfl⟩
        · rcases List.mem_cons.mp ht with rfl | ht
          · exact Or.inr (Or.inr (Or.inl ⟨rfl, rfl, rfl⟩))
          · rw [List.mem_singleton.mp ht]
            exact Or.inr (Or.inl ⟨rfl, rfl, rfl⟩)
      · exact ⟨fun heq => hloop heq.symm, hq, Or.inr (Or.inr (Or.inr ⟨rfl, rfl, ht⟩))⟩
    · rintro ⟨_, hq, h⟩
      rcases h with ⟨rfl, rfl, rfl⟩ | ⟨rfl, rfl, rfl⟩ | ⟨rfl, rfl, rfl⟩ | ⟨rfl, rfl, rfl⟩
      · exact Or.inl ⟨⟨by decide, hq⟩, rfl, rfl⟩
      · exact Or.inl ⟨⟨by decide, hq⟩, rfl, rfl⟩
      · exact Or.inl ⟨⟨by decide, hq⟩, rfl, rfl⟩
      · exact Or.inr ⟨⟨rfl, hq⟩, rfl, rfl⟩

theorem reported_iff :
    Reported g e q ↔ exists r, r ∈ g.relations ∧
      (EntityGraph.relationKey r = (e, q, RelationType.dependsOn) ∨
        EntityGraph.relationKey r = (e, q, RelationType.implements) ∨
        EntityGraph.relationKey r = (e, q, RelationType.requiredBy) ∨
        EntityGraph.relationKey r = (q, e, RelationType.requiredBy)) := by
  unfold Reported Depends EntityGraph.relationKeys
  simp only [List.mem_map, and_or_left, exists_or]
  constructor
  · rintro ((h | h | h) | h)
    · exact Or.inl h
    · exact Or.inr (Or.inl h)
    · exact Or.inr (Or.inr (Or.inr h))
    · exact Or.inr (Or.inr (Or.inl h))
  · rintro (h | h | h | h)
    · exact Or.inl (Or.inl h)
    · exact Or.inl (Or.inr (Or.inl h))
    · exact Or.inr h
    · exact Or.inl (Or.inr (Or.inr h))

theorem mem_analyzeImpact (h : EntityGraph.Coherent g) :
    (e, q) ∈ (analyzeImpact queryEntities g).map ImpactEntry.pair ↔
      e ≠ q ∧ q ∈ queryEntities ∧ Reported g e q := by
  unfold analyzeImpact
  rw [mem_unseen_iff, and_iff_left List.not_mem_nil, List.map_flatMap, List.mem_flatMap,
    reported_iff]
  constructor
  · rintro ⟨r, hr, hpair⟩
    obtain ⟨q', _, hr'⟩ := List.mem_flatMap.mp hr
    obtain ⟨hne, hq, hread⟩ := mem_impactsOf.mp hpair
    exact ⟨hne, hq, r, (h.mem_relationshipsOf.mp hr').1, hread⟩
  · rintro ⟨hne, hq, r, hr, hread⟩
    refine ⟨r, List.mem_flatMap.mpr ⟨q, hq, h.mem_relationshipsOf.mpr ⟨hr, ?_⟩⟩,
      mem_impactsOf.mpr ⟨hne, hq, hread⟩⟩
    rcases hread with hkey | hkey | hkey | hkey
    · exact Or.inr (congrArg (fun k => k.2.1) hkey)
    · exact Or.inr (congrArg (fun k => k.2.1) hkey)
    · exact Or.inr (congrArg (fun k => k.2.1) hkey)
    · exact Or.inl (congrArg Prod.fst hkey)

end

/-- Reported with each query entity are the others that depend on it, and no more. -/
structure ExactImpacts (g : EntityGraph) (queryEntities : List String) : Prop where
  justified : forall impact, impact ∈ analyzeImpact queryEntities g ->
    impact.dependsOn ∈ queryEntities ∧ impact.entity ≠ impact.dependsOn ∧
      Depends g impact.entity impact.dependsOn
  complete : forall q, q ∈ queryEntities -> forall e, e ≠ q -> Depends g e q ->
    exists impact, impact ∈ analyzeImpact queryEntities g ∧
      impact.entity = e ∧ impact.dependsOn = q

/-- The impacts are exact exactly when everything that is required by a query entity
depends on it as well. -/
theorem analyzeImpact_exact_iff {g : EntityGraph} (h : EntityGraph.Coherent g)
    (queryEntities : List String) :
    ExactImpacts g queryEntities ↔
      forall q, q ∈ queryEntities -> forall x, x ≠ q ->
        (x, q, RelationType.requiredBy) ∈ g.relationKeys -> Depends g x q := by
  constructor
  · intro hexact q hq x hne hrel
    have hmem := (mem_analyzeImpact h).mpr ⟨hne, hq, Or.inr hrel⟩
    obtain ⟨impact, himpact, hpair⟩ := List.mem_map.mp hmem
    obtain ⟨_, _, hdepends⟩ := hexact.justified impact himpact
    injection hpair with hentity hon
    rwa [hentity, hon] at hdepends
  · intro hcondition
    constructor
    · intro impact himpact
      obtain ⟨hne, hq, hread⟩ := (mem_analyzeImpact h).mp
        (List.mem_map_of_mem (f := ImpactEntry.pair) himpact)
      refine ⟨hq, hne, ?_⟩
      rcases hread with hdepends | hrel
      · exact hdepends
      · exact hcondition _ hq _ hne hrel
    · intro q hq e hne hdepends
      have hmem := (mem_analyzeImpact h).mpr ⟨hne, hq, Or.inl hdepends⟩
      obtain ⟨impact, himpact, hpair⟩ := List.mem_map.mp hmem
      injection hpair with hentity hon
      exact ⟨impact, himpact, hentity, hon⟩

section

attribute [local instance] EntityGraph.asciiTables

def serviceGraph : EntityGraph :=
  EntityGraph.addRelationship 0
    (EntityGraph.addRelationship 0
      (EntityGraph.addRelationship 0 EntityGraph.new
        ⟨"api", "auth", RelationType.dependsOn, "login"⟩)
      ⟨"web", "api", RelationType.implements, "pages"⟩)
    ⟨"auth", "web", RelationType.dependsOn, "menus"⟩

theorem serviceGraph_coherent : EntityGraph.Coherent serviceGraph :=
  (((EntityGraph.Reached.new.step 0 (EntityGraph.RelationOp.addRelationship
    ⟨"api", "auth", RelationType.dependsOn, "login"⟩)).step 0
      (EntityGraph.RelationOp.addRelationship
        ⟨"web", "api", RelationType.implements, "pages"⟩)).step 0
          (EntityGraph.RelationOp.addRelationship
            ⟨"auth", "web", RelationType.dependsOn, "menus"⟩)).indexed.coherent

theorem serviceGraph_requires_nothing (x q : String) :
    (x, q, RelationType.requiredBy) ∉ serviceGraph.relationKeys := by
  have hkeys : serviceGraph.relationKeys.map (fun k => k.2.2) =
      [RelationType.dependsOn, RelationType.implements, RelationType.dependsOn] := by
    decide +kernel
  intro hmem
  have htype : RelationType.requiredBy ∈
      serviceGraph.relationKeys.map (fun k => k.2.2) :=
    List.mem_map_of_mem hmem
  rw [hkeys] at htype
  exact absurd htype (by decide)

theorem serviceGraph_exact : ExactImpacts serviceGraph ["auth", "api"] :=
  (analyzeImpact_exact_iff serviceGraph_coherent ["auth", "api"]).mpr
    (fun _ _ x _ hkey => absurd hkey (serviceGraph_requires_nothing x _))

def requirementGraph : EntityGraph :=
  EntityGraph.addRelationship 0 EntityGraph.new
    ⟨"auth", "api", RelationType.requiredBy, "login"⟩

/-- `auth` is reported to depend on `api`. -/
theorem required_entity_reported : ¬ ExactImpacts requirementGraph ["api"] := by
  intro hexact
  have hjustified := hexact.justified
    ⟨"auth", "api", RelationType.requiredBy, "login"⟩ (by decide +kernel)
  exact absurd hjustified.2.2 (by decide +kernel)

end

/-!
# Level by level
-/

def entityTypeWord : EntityType -> String
  | EntityType.technology => "technology"
  | EntityType.concept => "concept"
  | EntityType.problem => "problem"
  | EntityType.solution => "solution"
  | EntityType.decision => "decision"
  | EntityType.codeComponent => "code_component"

def relationTypeWord : RelationType -> String
  | RelationType.requiredBy => "required_by"
  | RelationType.leadsTo => "leads_to"
  | RelationType.relatedTo => "related_to"
  | RelationType.conflictsWith => "conflicts_with"
  | RelationType.dependsOn => "depends_on"
  | RelationType.implements => "implements"
  | RelationType.causedBy => "caused_by"
  | RelationType.solves => "solves"

structure ImpactItem where
  entity : String
  entityType : Option String
  via : String
  relationType : String
  context : String
  depth : Nat
  deriving DecidableEq, Repr

structure ImpactView where
  entity : String
  dependents : List ImpactItem
  deriving DecidableEq, Repr

def impactItem (g : EntityGraph) (hop : Nat) (impact : ImpactEntry) : ImpactItem where
  entity := impact.entity
  entityType := (g.entities[impact.entity]?).map (fun e => entityTypeWord e.entityType)
  via := impact.dependsOn
  relationType := relationTypeWord impact.relationType
  context := impact.context
  depth := hop

def impactRounds (g : EntityGraph) :
    Nat -> Nat -> List String -> List String -> List ImpactItem
  | 0, _, _, _ => []
  | n + 1, hop, seen, frontier =>
      let fresh := unseen ImpactEntry.entity seen (analyzeImpact frontier g)
      if fresh = [] then []
      else
        fresh.map (impactItem g hop) ++
          impactRounds g n (hop + 1) (fresh.map ImpactEntry.entity ++ seen)
            ((fresh.map ImpactEntry.entity).mergeSort (fun a b => decide (a ≤ b)))

section

variable [CharTables]

def indexEntity (g : EntityGraph) (name : String) : Option EntityData :=
  ((g.resolve name).or (g.entities.keys.find? (fun k =>
    CharTables.lowercase k = CharTables.lowercase name))).bind (fun n => g.entities[n]?)

def impactView (g : EntityGraph) (name : String) (depth : Nat) : Option ImpactView :=
  (indexEntity g name).map (fun e =>
    { entity := e.name
      dependents := impactRounds g (max depth 1) 1 [e.name] [e.name] })

end

def dependents (g : EntityGraph) (q : String) : List String :=
  g.graph.nodes.filter (fun e => e ≠ q ∧ Depends g e q)

def reported (g : EntityGraph) (q : String) : List String :=
  g.graph.nodes.filter (fun e => e ≠ q ∧ Reported g e q)

section

variable {g : EntityGraph}

variable {e q : String}

theorem keys_stored (h : EntityGraph.Coherent g) {t : RelationType}
    (hkey : (e, q, t) ∈ g.relationKeys) :
    e ∈ g.graph.nodes ∧ q ∈ g.graph.nodes := by
  obtain ⟨r, hr, hends⟩ := List.mem_map.mp hkey
  injection hends with he hq
  injection hq with hq _
  have hstored := h.ends_stored hr
  rw [← he, ← hq]
  exact ⟨h.stored.mpr hstored.1, h.stored.mpr hstored.2⟩

theorem mem_reported (h : EntityGraph.Coherent g) :
    e ∈ reported g q ↔ e ≠ q ∧ Reported g e q := by
  unfold reported
  rw [List.mem_filter, decide_eq_true_iff]
  refine and_iff_right_of_imp ?_
  rintro ⟨_, (hkey | hkey | hkey) | hkey⟩
  · exact (keys_stored h hkey).1
  · exact (keys_stored h hkey).1
  · exact (keys_stored h hkey).2
  · exact (keys_stored h hkey).1

theorem mem_dependents (h : EntityGraph.Coherent g) :
    e ∈ dependents g q ↔ e ≠ q ∧ Depends g e q := by
  unfold dependents
  rw [List.mem_filter, decide_eq_true_iff]
  refine and_iff_right_of_imp ?_
  rintro ⟨_, hkey | hkey | hkey⟩
  · exact (keys_stored h hkey).1
  · exact (keys_stored h hkey).1
  · exact (keys_stored h hkey).2

variable {frontier : List String}

theorem mem_entities_analyzeImpact (h : EntityGraph.Coherent g) :
    e ∈ (analyzeImpact frontier g).map ImpactEntry.entity ↔
      exists q, q ∈ frontier ∧ e ∈ reported g q := by
  have hpairs : (analyzeImpact frontier g).map ImpactEntry.entity =
      ((analyzeImpact frontier g).map ImpactEntry.pair).map Prod.fst := by
    rw [List.map_map]
    rfl
  rw [hpairs, List.mem_map]
  constructor
  · rintro ⟨⟨e', q⟩, hpair, rfl⟩
    obtain ⟨hne, hq, hread⟩ := (mem_analyzeImpact h).mp hpair
    exact ⟨q, hq, (mem_reported h).mpr ⟨hne, hread⟩⟩
  · rintro ⟨q, hq, he⟩
    obtain ⟨hne, hread⟩ := (mem_reported h).mp he
    exact ⟨(e, q), (mem_analyzeImpact h).mpr ⟨hne, hq, hread⟩, rfl⟩

variable {a : String} {n : Nat} {seen : List String}

theorem levels_fresh (h : EntityGraph.Coherent g)
    (hlevels : Levels (reported g) a n seen frontier) :
    Levels (reported g) a (n + 1)
      ((unseen ImpactEntry.entity seen (analyzeImpact frontier g)).map
        ImpactEntry.entity ++ seen)
      ((unseen ImpactEntry.entity seen (analyzeImpact frontier g)).map
        ImpactEntry.entity) := by
  refine hlevels.step ?_ ?_
  · intro y
    rw [List.mem_append]
    exact or_comm
  · intro y
    rw [mem_unseen_iff, mem_entities_analyzeImpact h]
    exact and_comm

/-- Listed are the entities at a distance of `n + 1` to `n + k`, each once with it, and none
of those seen before. -/
structure Listed (g : EntityGraph) (a : String) (seen : List String) (n k : Nat)
    (items : List ImpactItem) : Prop where
  once : (items.map ImpactItem.entity).Nodup
  fresh : forall x, x ∈ items.map ImpactItem.entity -> x ∉ seen
  exact : forall x d, (exists item, item ∈ items ∧ item.entity = x ∧ item.depth = d) ↔
    n < d ∧ d ≤ n + k ∧ Distance (reported g) a d x

theorem Listed.nil {k : Nat}
    (hnone : forall x d, n < d -> d ≤ n + k -> ¬ Distance (reported g) a d x) :
    Listed g a seen n k [] where
  once := List.nodup_nil
  fresh := fun x hx => absurd hx List.not_mem_nil
  exact := by
    intro x d
    constructor
    · rintro ⟨item, hitem, _⟩
      cases hitem
    · rintro ⟨hlt, hle, hdist⟩
      exact absurd hdist (hnone x d hlt hle)

theorem Listed.level {k : Nat} {impacts : List ImpactEntry}
    {items : List ImpactItem} (hnodup : (impacts.map ImpactEntry.entity).Nodup)
    (hunseen : forall y, y ∈ impacts.map ImpactEntry.entity -> y ∉ seen)
    (hlevel : forall y, y ∈ impacts.map ImpactEntry.entity ↔
      Distance (reported g) a (n + 1) y)
    (h : Listed g a (impacts.map ImpactEntry.entity ++ seen) (n + 1) k items) :
    Listed g a seen n (k + 1) (impacts.map (impactItem g (n + 1)) ++ items) := by
  have hentities : (impacts.map (impactItem g (n + 1))).map ImpactItem.entity =
      impacts.map ImpactEntry.entity :=
    List.map_map
  constructor
  · rw [List.map_append, hentities]
    refine List.nodup_append.mpr ⟨hnodup, h.once, ?_⟩
    intro x hx y hy heq
    exact h.fresh y hy (List.mem_append_left _ (heq ▸ hx))
  · intro x hx
    rw [List.map_append, hentities] at hx
    rcases List.mem_append.mp hx with hx | hx
    · exact hunseen x hx
    · exact fun hmem => h.fresh x hx (List.mem_append_right _ hmem)
  · intro x d
    simp only [List.mem_append, or_and_right, exists_or]
    rw [h.exact]
    constructor
    · rintro (⟨item, hitem, rfl, rfl⟩ | ⟨hlt, hle, hdist⟩)
      · obtain ⟨impact, himpact, rfl⟩ := List.mem_map.mp hitem
        exact ⟨Nat.lt_succ_self n, by dsimp only [impactItem]; omega,
          (hlevel _).mp (List.mem_map_of_mem himpact)⟩
      · exact ⟨by omega, by omega, hdist⟩
    · rintro ⟨hlt, hle, hdist⟩
      rcases Nat.eq_or_lt_of_le (Nat.succ_le_of_lt hlt) with rfl | hdeep
      · obtain ⟨impact, himpact, rfl⟩ := List.mem_map.mp ((hlevel x).mpr hdist)
        exact Or.inl ⟨_, List.mem_map_of_mem himpact, rfl, rfl⟩
      · exact Or.inr ⟨hdeep, by omega, hdist⟩

theorem impactRounds_listed (h : EntityGraph.Coherent g)
    (hlevels : Levels (reported g) a n seen frontier) (k : Nat) :
    Listed g a seen n k (impactRounds g k (n + 1) seen frontier) := by
  induction k generalizing n seen frontier with
  | zero => exact Listed.nil (fun x d hlt hle => absurd hle (Nat.not_le_of_lt hlt))
  | succ k ih =>
      have hfresh := levels_fresh h hlevels
      have hnodup := @nodup_unseen ImpactEntry String _ ImpactEntry.entity seen
        (analyzeImpact frontier g)
      have hunseen : forall y, y ∈ (unseen ImpactEntry.entity seen
          (analyzeImpact frontier g)).map ImpactEntry.entity -> y ∉ seen :=
        fun y hy => (mem_unseen_iff.mp hy).2
      unfold impactRounds
      dsimp only
      generalize unseen ImpactEntry.entity seen (analyzeImpact frontier g) = fresh
        at hfresh hnodup hunseen
      by_cases hempty : fresh = []
      · rw [if_pos hempty]
        rw [hempty] at hfresh
        apply Listed.nil
        intro x d hlt _ hdist
        have hbelow := hdist.below
          (fun y hy => List.not_mem_nil ((hfresh.level y).mpr hy))
        omega
      · rw [if_neg hempty]
        exact Listed.level hnodup hunseen hfresh.level
          (ih ⟨hfresh.visited, fun y => List.mem_mergeSort.trans (hfresh.level y)⟩)

end

/-- Listed are the others that depend on the target within the hops, each once with
the least number of hops. -/
structure ExactDependents (g : EntityGraph) (target : String) (depth : Nat)
    (items : List ImpactItem) : Prop where
  once : (items.map ImpactItem.entity).Nodup
  exact : forall x n, (exists item, item ∈ items ∧ item.entity = x ∧ item.depth = n) ↔
    x ≠ target ∧ n ≤ depth ∧ Distance (dependents g) target n x

/-- What is required by an entity nearer than the hops depends on the target as well,
at most one hop further, and a limit of no hops leaves nothing out. -/
structure Alike (g : EntityGraph) (target : String) (depth : Nat) : Prop where
  required : forall n q, n < max depth 1 -> Distance (dependents g) target n q ->
    forall x, x ≠ q -> (x, q, RelationType.requiredBy) ∈ g.relationKeys ->
      exists m, m ≤ n + 1 ∧ Distance (dependents g) target m x
  noHops : depth = 0 -> dependents g target = []

variable {g : EntityGraph} {target : String}

theorem reported_near (h : EntityGraph.Coherent g) {limit : Nat} :
    (forall n q, n < limit -> Distance (dependents g) target n q ->
      forall x, x ∈ reported g q ->
        exists m, m ≤ n + 1 ∧ Distance (dependents g) target m x) ↔
    forall n q, n < limit -> Distance (dependents g) target n q ->
      forall x, x ≠ q -> (x, q, RelationType.requiredBy) ∈ g.relationKeys ->
        exists m, m ≤ n + 1 ∧ Distance (dependents g) target m x := by
  constructor
  · exact fun hnear n q hn hq x hne hkey =>
      hnear n q hn hq x ((mem_reported h).mpr ⟨hne, Or.inr hkey⟩)
  · intro hnear n q hn hq x hx
    obtain ⟨hne, hdepends | hkey⟩ := (mem_reported h).mp hx
    · exact hq.neighbour ((mem_dependents h).mpr ⟨hne, hdepends⟩)
    · exact hnear n q hn hq x hne hkey

theorem dependents_reported (h : EntityGraph.Coherent g) (x y : String)
    (hy : y ∈ dependents g x) : y ∈ reported g x := by
  obtain ⟨hne, hdepends⟩ := (mem_dependents h).mp hy
  exact (mem_reported h).mpr ⟨hne, Or.inl hdepends⟩

/-- Up to the hops that are made, what is reported is as far away as it depends. -/
def SameHops (g : EntityGraph) (target : String) (depth : Nat) : Prop :=
  forall n x, 0 < n ->
    (n ≤ max depth 1 ∧ Distance (reported g) target n x ↔
      n ≤ depth ∧ Distance (dependents g) target n x)

theorem exactDependents_iff (h : EntityGraph.Coherent g) (target : String)
    (depth : Nat) :
    ExactDependents g target depth (impactRounds g (max depth 1) 1 [target] [target]) ↔
      SameHops g target depth := by
  obtain ⟨honce, _, hexact⟩ :=
    impactRounds_listed h (levels_start (reported g) target) (max depth 1)
  simp only [Nat.zero_add] at hexact
  constructor
  · intro hdependents n x hpos
    have hiff := (hexact x n).symm.trans (hdependents.exact x n)
    constructor
    · exact fun hn => (hiff.mp ⟨hpos, hn⟩).2
    · exact fun hn => (hiff.mpr ⟨hn.2.pos_iff.mp hpos, hn⟩).2
  · intro hsame
    refine ⟨honce, fun x n => (hexact x n).trans ?_⟩
    constructor
    · rintro ⟨hpos, hn⟩
      have hdist := (hsame n x hpos).mp hn
      exact ⟨hdist.2.pos_iff.mp hpos, hdist⟩
    · rintro ⟨hne, hn⟩
      have hpos := hn.2.pos_iff.mpr hne
      exact ⟨hpos, (hsame n x hpos).mpr hn⟩

theorem sameHops_succ {depth : Nat} :
    SameHops g target (depth + 1) ↔
      forall n x, n ≤ max (depth + 1) 1 ->
        (Distance (dependents g) target n x ↔ Distance (reported g) target n x) := by
  unfold SameHops
  rw [Nat.max_eq_left (Nat.succ_le_succ (Nat.zero_le depth))]
  constructor
  · intro hsame n x hn
    cases n with
    | zero => rw [distance_zero_iff, distance_zero_iff]
    | succ n =>
        have hiff := hsame (n + 1) x (Nat.succ_pos n)
        exact ⟨fun hx => (hiff.mpr ⟨hn, hx⟩).2, fun hx => (hiff.mp ⟨hn, hx⟩).2⟩
  · intro hagree n x _
    exact and_congr_right (fun hn => (hagree n x hn).symm)

theorem sameHops_zero (h : EntityGraph.Coherent g) :
    SameHops g target 0 ↔ reported g target = [] := by
  constructor
  · intro hsame
    rw [List.eq_nil_iff_forall_not_mem]
    intro x hx
    have hone := distance_one_iff.mpr ⟨((mem_reported h).mp hx).1, hx⟩
    exact absurd ((hsame 1 x Nat.zero_lt_one).mp ⟨Nat.le_refl _, hone⟩).1 (by decide)
  · intro hnone n x hpos
    constructor
    · rintro ⟨hn, hx⟩
      have hone : n = 1 := Nat.le_antisymm hn hpos
      rw [hone, distance_one_iff, hnone] at hx
      cases hx.2
    · rintro ⟨hn, _⟩
      exact absurd hpos (Nat.not_lt.mpr hn)

theorem alike_zero (h : EntityGraph.Coherent g) :
    Alike g target 0 ↔ reported g target = [] := by
  constructor
  · intro halike
    have hnone := halike.noHops rfl
    rw [List.eq_nil_iff_forall_not_mem]
    intro x hx
    obtain ⟨m, hm, hdist⟩ := (reported_near h).mpr halike.required 0 target (by decide)
      (distance_zero _ _) x hx
    have hpos := hdist.pos_iff.mpr ((mem_reported h).mp hx).1
    have hone : m = 1 := Nat.le_antisymm hm hpos
    rw [hone, distance_one_iff, hnone] at hdist
    cases hdist.2
  · intro hnone
    have hnot : forall x, x ∉ reported g target := List.eq_nil_iff_forall_not_mem.mp hnone
    constructor
    · intro n q hn hq x hne hkey
      rw [Nat.lt_one_iff.mp hn, distance_zero_iff] at hq
      rw [hq] at hne hkey
      exact absurd ((mem_reported h).mpr ⟨hne, Or.inr hkey⟩) (hnot x)
    · intro _
      rw [List.eq_nil_iff_forall_not_mem]
      exact fun x hx => hnot x (dependents_reported h target x hx)

theorem sameHops_iff (h : EntityGraph.Coherent g) (target : String) (depth : Nat) :
    SameHops g target depth ↔ Alike g target depth := by
  cases depth with
  | zero => rw [sameHops_zero h, alike_zero h]
  | succ depth =>
      rw [sameHops_succ, distance_agrees_iff (dependents_reported h), reported_near h]
      constructor
      · exact fun hrequired => ⟨hrequired, fun hzero => absurd hzero (Nat.succ_ne_zero depth)⟩
      · exact fun halike => halike.required

section

variable [CharTables]

/-- The dependents listed are exact exactly when what a near entity requires depends
on the target anyway. -/
theorem impactView_exact_iff {g : EntityGraph} (h : EntityGraph.Coherent g)
    {name : String} {depth : Nat} {view : ImpactView}
    (hview : impactView g name depth = some view) :
    ExactDependents g view.entity depth view.dependents ↔ Alike g view.entity depth := by
  obtain ⟨e, _, rfl⟩ := Option.map_eq_some_iff.mp hview
  exact (exactDependents_iff h e.name depth).trans (sameHops_iff h e.name depth)

end

attribute [local instance] EntityGraph.asciiTables

theorem serviceGraph_view : exists view,
    impactView serviceGraph "auth" 2 = some view ∧
      ExactDependents serviceGraph view.entity 2 view.dependents := by
  have hview : impactView serviceGraph "auth" 2 = some ⟨"auth",
      [⟨"api", some "concept", "auth", "depends_on", "login", 1⟩,
        ⟨"web", some "concept", "api", "implements", "pages", 2⟩]⟩ := by
    decide +kernel
  refine ⟨_, hview, (impactView_exact_iff serviceGraph_coherent hview).mpr ?_⟩
  exact ⟨fun _ _ _ _ x _ hkey => absurd hkey (serviceGraph_requires_nothing x _),
    fun hzero => by cases hzero⟩

/-- `auth`, which `api` requires, is listed as a dependent of `api`. -/
theorem required_entity_listed :
    ¬ exists view, impactView requirementGraph "api" 1 = some view ∧
      ExactDependents requirementGraph view.entity 1 view.dependents := by
  rintro ⟨view, hview, hexact⟩
  have heval : impactView requirementGraph "api" 1 = some ⟨"api",
      [⟨"auth", some "concept", "api", "required_by", "login", 1⟩]⟩ := by
    decide +kernel
  rw [heval] at hview
  cases hview
  obtain ⟨_, _, hdist⟩ := (hexact.exact "auth" 1).mp
    ⟨_, List.mem_singleton.mpr rfl, rfl, rfl⟩
  obtain ⟨y, hy, hnext⟩ := hdist.nearer
  rw [hy.1.eq_start] at hnext
  exact absurd hnext (by decide +kernel)

end Memory
end PostCortex
