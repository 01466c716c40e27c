import PostCortex.Graph.RoundTrip
import PostCortex.Naming.ClaimOrder

/-!
# Merged graphs

What folding `merge_from` over graphs makes of them: the alias index is the one
their entities claim in their order, and counts, times, mentions and relations
of an entity come from what leads to it in that index.
-/

namespace PostCortex
namespace Graph
namespace EntityGraph

open PostCortex.Core
open Naming

/-!
# What is read of a merged graph
-/

structure Stamp where
  first : Timestamp
  last : Timestamp
  count : Nat
  deriving DecidableEq, Repr

def stampOf (data : EntityData) : Stamp where
  first := data.firstMentioned
  last := data.lastMentioned
  count := data.mentionCount

def stamps (g : EntityGraph) (e : String) : Option Stamp :=
  (g.entities[e]?).map stampOf

def stamped (stamp : Option Stamp) (timestamp : Timestamp) : Option Stamp :=
  match stamp with
  | none => some ⟨timestamp, timestamp, 1⟩
  | some s => some { s with last := timestamp, count := s.count + 1 }

def stampedBy (stamp : Option Stamp) (data : EntityData) : Option Stamp :=
  stamped stamp data.lastMentioned

def mentionIds (g : EntityGraph) (e : String) : List Uuid :=
  g.entityMentions[e]?.getD []

def shape (e : Edge) : Nat × Nat × RelationType :=
  (e.source, e.target, e.weight.relationType)

def Relates (g : EntityGraph) (e f : String) (t : RelationType) : Prop :=
  exists i j, (i, j, t) ∈ g.graph.edges.map shape ∧
    g.graph.nodes[i]? = some e ∧ g.graph.nodes[j]? = some f

theorem stamps_insert {g g' : EntityGraph} {name : String} {d : EntityData}
    (hentities : g'.entities = g.entities.insert name d) :
    g'.stamps = Function.update g.stamps name (some (stampOf d)) := by
  funext e
  rw [stamps, hentities, Std.ExtTreeMap.getElem?_insert]
  by_cases he : e = name
  · subst he
    simp
  · have hne : ¬ name = e := fun heq => he heq.symm
    simp [he, hne, stamps]

theorem stampOf_withAlias (d : EntityData) (written : String) :
    stampOf (withAlias d written) = stampOf d := by
  unfold withAlias
  split <;> rfl

/-- The triples of the edges: a new one only when there is none with the ends and
the relation. -/
theorem putEdge_shapes (g : DiGraph) (source target : Nat) (weight : EdgeData) :
    (g.putEdge source target weight).edges.map shape =
      if (source, target, weight.relationType) ∈ g.edges.map shape then
        g.edges.map shape
      else (source, target, weight.relationType) :: g.edges.map shape := by
  unfold DiGraph.putEdge
  simp only
  split
  · next i hi =>
    obtain ⟨hlt, hmatch, -⟩ := List.findIdx?_eq_some_iff_getElem.mp hi
    obtain ⟨hs, ht, hr⟩ := of_decide_eq_true hmatch
    have hfound : (source, target, weight.relationType) ∈ g.edges.map shape := by
      refine List.mem_map.mpr ⟨g.edges[i], List.getElem_mem hlt, ?_⟩
      rw [shape, hs, ht, hr]
    rw [if_pos hfound]
    refine List.ext_getElem? fun j => ?_
    rw [List.getElem?_map, List.getElem?_map, List.getElem?_modify]
    by_cases hij : i = j
    · subst hij
      simp [List.getElem?_eq_getElem hlt, shape, hr]
    · simp [hij]
  · next hnone =>
    rw [if_neg]
    · rfl
    · intro hmem
      obtain ⟨e, he, hshape⟩ := List.mem_map.mp hmem
      obtain ⟨hs, hrest⟩ := Prod.mk.inj hshape
      obtain ⟨ht, hr⟩ := Prod.mk.inj hrest
      have hmiss := List.findIdx?_eq_none_iff.mp hnone e he
      exact absurd (decide_eq_true ⟨hs, ht, hr⟩) (ne_true_of_eq_false hmiss)

theorem mem_putEdge {g : DiGraph} {source target : Nat} {weight : EdgeData}
    {x : Nat × Nat × RelationType} :
    x ∈ (g.putEdge source target weight).edges.map shape ↔
      x ∈ g.edges.map shape ∨ x = (source, target, weight.relationType) := by
  rw [putEdge_shapes]
  split
  · next hmem =>
    constructor
    · exact Or.inl
    · rintro (hx | rfl)
      · exact hx
      · exact hmem
  · rw [List.mem_cons]
    exact or_comm

theorem putEdge_eq (g : DiGraph) (source target : Nat) (weight : EdgeData) :
    g.putEdge source target weight =
      { g with edges := (g.putEdge source target weight).edges } := by
  unfold DiGraph.putEdge
  simp only
  split
  · rfl
  · rfl

section

variable [CharTables]

def entityScheme : Scheme EntityData String String where
  name := EntityData.name
  key := entityKey
  keys data := (names data).map entityKey
  own _ := List.mem_map_of_mem List.mem_cons_self

def ledger (g : EntityGraph) :
    (String -> Option String) × (String -> Option Stamp) :=
  (g.aliasIndex, g.stamps)

/-- The entities are found under their own names. -/
structure Found (g : EntityGraph) : Prop extends Indexed g where
  self : forall n, n ∈ g.entities -> g.aliasIndex (entityKey n) = some n

theorem found_new : Found new where
  toIndexed := indexed_new
  self n hn := by
    obtain ⟨d, hd⟩ := mem_entities.mp hn
    simp [new] at hd

variable {g : EntityGraph}

theorem Resolving.found (h : Resolving g) (hindexed : Indexed g) :
    Found g where
  toIndexed := hindexed
  self n hn := by
    obtain ⟨d, hd⟩ := mem_entities.mp hn
    exact h.agrees.indexed n n (h.named_self hd)

theorem Found.resolve_eq (h : Found g) (n : String) :
    g.resolve n = g.aliasIndex (entityKey n) := by
  unfold EntityGraph.resolve
  split
  · next hmem => exact (h.self n hmem).symm
  · rfl

/-!
# Merging entities in
-/

/-- Entities are added or mentioned; mention lists and edges stay. -/
structure Joins (g g' : EntityGraph) : Prop where
  found : Found g'
  entityMentions : g'.entityMentions = g.entityMentions
  edges : g'.graph.edges = g.graph.edges
  nodes : exists more, g'.graph.nodes = g.graph.nodes ++ more

theorem Joins.refl (h : Found g) : Joins g g where
  found := h
  entityMentions := rfl
  edges := rfl
  nodes := ⟨[], (List.append_nil _).symm⟩

variable {g' : EntityGraph}

theorem Joins.trans {g'' : EntityGraph} (h : Joins g g') (h' : Joins g' g'') :
    Joins g g'' where
  found := h'.found
  entityMentions := h'.entityMentions.trans h.entityMentions
  edges := h'.edges.trans h.edges
  nodes := by
    obtain ⟨more, hmore⟩ := h.nodes
    obtain ⟨rest, hrest⟩ := h'.nodes
    exact ⟨more ++ rest, by rw [hrest, hmore, List.append_assoc]⟩

theorem Joins.relates (h : Joins g g') (hg : Indexed g) (e f : String)
    (t : RelationType) :
    g'.Relates e f t ↔ g.Relates e f t := by
  obtain ⟨more, hmore⟩ := h.nodes
  unfold Relates
  rw [h.edges, hmore]
  refine exists_congr fun i => exists_congr fun j => and_congr_right fun hmem => ?_
  obtain ⟨x, hx, hshape⟩ := List.mem_map.mp hmem
  cases hshape
  obtain ⟨hs, ht⟩ := hg.edges x hx
  rw [List.getElem?_append_left hs, List.getElem?_append_left ht]

variable {c : String}

omit [CharTables] in
theorem claimKey_some {index : String -> Option String} {k : String}
    (h : index k = some c) (owner : String) :
    claimKey owner index k = index := by
  simp [claimKey, h]

variable {written : String}

theorem Found.addKnown (h : Found g) (hc : g.resolve written = some c)
    (entityType : EntityType) (timestamp : Timestamp) (description : String) :
    Joins g (g.addOrUpdateEntity written entityType timestamp description) ∧
    (g.addOrUpdateEntity written entityType timestamp description).ledger =
      (g.aliasIndex,
        Function.update g.stamps c (stamped (g.stamps c) timestamp)) := by
  have hindexed := h.toIndexed.addOrUpdateEntity written entityType timestamp
    description
  obtain ⟨d, hd⟩ := mem_entities.mp (h.toIndexed.resolve hc)
  have hname : (withAlias (mentioned d timestamp description) written).name = c := by
    rw [name_withAlias]
    exact h.named c d hd
  have hgraph : g.addOrUpdateEntity written entityType timestamp description =
      { g with
        entities := g.entities.insert c
          (withAlias (mentioned d timestamp description) written) } := by
    have hreplaced : Indexed { g with
        entities := g.entities.insert c
          (withAlias (mentioned d timestamp description) written) } :=
      h.toIndexed.replace
      (d := withAlias (mentioned d timestamp description) written)
      (by rw [hname]; exact h.toIndexed.resolve hc) (by rw [hname]) rfl rfl rfl
      h.known
    simp only [EntityGraph.addOrUpdateEntity, hc, Option.getD_some, hd]
    exact hreplaced.ensureNode (Std.ExtTreeMap.mem_insert.mpr (Or.inl (by simp)))
  rw [hgraph] at hindexed ⊢
  refine ⟨⟨⟨hindexed, ?_⟩, rfl, rfl, [], (List.append_nil _).symm⟩, ?_⟩
  · intro n hn
    rcases Std.ExtTreeMap.mem_insert.mp hn with heq | hold
    · rw [← Std.compare_eq_iff_eq.mp heq]
      exact h.self c (h.toIndexed.resolve hc)
    · exact h.self n hold
  · rw [ledger, stamps_insert (g := g) rfl, stampOf_withAlias]
    simp [stamps, hd, stamped, stampOf, mentioned]

theorem Found.addNew (h : Found g) (hnone : g.resolve written = none)
    (entityType : EntityType) (timestamp : Timestamp) (description : String) :
    Joins g (g.addOrUpdateEntity written entityType timestamp description) ∧
    (g.addOrUpdateEntity written entityType timestamp description).ledger =
      (claimKey written g.aliasIndex (entityKey written),
        Function.update g.stamps written (stamped (g.stamps written) timestamp)) := by
  have hindexed := h.toIndexed.addOrUpdateEntity written entityType timestamp
    description
  have hfree : g.aliasIndex (entityKey written) = none := by
    rw [← h.resolve_eq, hnone]
  have hfresh : g.entities[written]? = none := by
    cases hcase : g.entities[written]? with
    | none => rfl
    | some d =>
        have hself := h.self written (mem_entities.mpr ⟨d, hcase⟩)
        rw [hfree] at hself
        cases hself
  have hgraph : g.addOrUpdateEntity written entityType timestamp description =
      { g.addNode written with
        entities := g.entities.insert written
          (created written entityType timestamp description)
        aliasIndex := claimKey written g.aliasIndex (entityKey written) } := by
    simp only [EntityGraph.addOrUpdateEntity, hnone, Option.getD_none, hfresh]
    simp [indexNames, EntityGraph.addNode, names, created, claimKeys]
  rw [hgraph] at hindexed ⊢
  refine ⟨⟨⟨hindexed, ?_⟩, rfl, rfl, [written], rfl⟩, ?_⟩
  · intro n hn
    simp only [claimKey_apply]
    rcases Std.ExtTreeMap.mem_insert.mp hn with heq | hold
    · rw [← Std.compare_eq_iff_eq.mp heq, hfree]
      simp
    · rw [h.self n hold]
      rfl
  · rw [ledger, stamps_insert (g := g) rfl]
    simp [stamps, hfresh, stamped, stampOf, created]

theorem Found.addOrUpdateEntity (h : Found g) (written : String)
    (entityType : EntityType) (timestamp : Timestamp) (description : String)
    (hc : (g.aliasIndex (entityKey written)).getD written = c) :
    Joins g (g.addOrUpdateEntity written entityType timestamp description) ∧
    (g.addOrUpdateEntity written entityType timestamp description).ledger =
      (claimKey c g.aliasIndex (entityKey written),
        Function.update g.stamps c (stamped (g.stamps c) timestamp)) := by
  cases hcase : g.resolve written with
  | some e =>
      rw [h.resolve_eq] at hcase
      rw [hcase, Option.getD_some] at hc
      subst hc
      rw [claimKey_some hcase]
      exact h.addKnown (by rw [h.resolve_eq, hcase]) entityType timestamp
        description
  | none =>
      have hfree := hcase
      rw [h.resolve_eq] at hfree
      rw [hfree, Option.getD_none] at hc
      subst hc
      exact h.addNew hcase entityType timestamp description

variable {name : String}

theorem Found.noteAlias (h : Found g) (hc : g.aliasIndex (entityKey name) = some c)
    (written : String) :
    Joins g (g.noteAlias name written) ∧
    (g.noteAlias name written).ledger =
      (claimKey c g.aliasIndex (entityKey written), g.stamps) := by
  have hindexed := h.toIndexed.noteAlias name written
  have hresolve : g.resolve name = some c := by
    rw [h.resolve_eq, hc]
  obtain ⟨d, hd⟩ := mem_entities.mp (h.toIndexed.resolve hresolve)
  simp only [EntityGraph.noteAlias, hresolve, hd] at hindexed ⊢
  refine ⟨⟨⟨hindexed, ?_⟩, rfl, rfl, [], (List.append_nil _).symm⟩, ?_⟩
  · intro n hn
    simp only [claimKey_apply]
    rcases Std.ExtTreeMap.mem_insert.mp hn with heq | hold
    · rw [← Std.compare_eq_iff_eq.mp heq, h.self c (h.known _ c hc)]
      rfl
    · rw [h.self n hold]
      rfl
  · rw [ledger, stamps_insert (g := g) rfl, stampOf_withAlias]
    have hsame : Function.update g.stamps c (some (stampOf d)) = g.stamps := by
      rw [Function.update_eq_self_iff]
      simp [stamps, hd]
    rw [hsame]

theorem Found.noteAliases (h : Found g)
    (hc : g.aliasIndex (entityKey name) = some c) (aliases : List String) :
    Joins g (aliases.foldl (fun g a => g.noteAlias name a) g) ∧
    (aliases.foldl (fun g a => g.noteAlias name a) g).ledger =
      (claimKeys c g.aliasIndex (aliases.map entityKey), g.stamps) := by
  induction aliases generalizing g with
  | nil =>
      exact ⟨Joins.refl h, rfl⟩
  | cons a rest ih =>
      obtain ⟨hjoins, hledger⟩ := h.noteAlias hc a
      obtain ⟨hindex, hstamps⟩ := Prod.mk.inj hledger
      have hc' : (g.noteAlias name a).aliasIndex (entityKey name) = some c := by
        rw [hindex, claimKey_apply, hc]
        rfl
      obtain ⟨hrest, hlast⟩ := ih hjoins.found hc'
      refine ⟨hjoins.trans hrest, ?_⟩
      rw [List.foldl_cons, hlast, hindex, hstamps]
      rfl

theorem Found.mergeEntity (h : Found g) (data : EntityData) :
    Joins g (g.mergeEntity data.name data) ∧
    (g.mergeEntity data.name data).ledger =
      entityScheme.record stampedBy g.ledger data := by
  generalize hc : (g.aliasIndex (entityKey data.name)).getD data.name = c
  obtain ⟨hadded, hledger⟩ := h.addOrUpdateEntity data.name data.entityType
    data.lastMentioned (data.description.getD "") hc
  obtain ⟨hindex, hstamps⟩ := Prod.mk.inj hledger
  have hself : (g.addOrUpdateEntity data.name data.entityType data.lastMentioned
      (data.description.getD "")).aliasIndex (entityKey data.name) = some c := by
    rw [hindex, claimKey_apply, ← hc]
    cases g.aliasIndex (entityKey data.name) <;> simp
  obtain ⟨hnoted, hlast⟩ := hadded.found.noteAliases hself data.aliases
  refine ⟨hadded.trans hnoted, ?_⟩
  unfold EntityGraph.mergeEntity
  rw [hlast, hindex, hstamps, ← hc]
  rfl

theorem Found.mergeEntityList (h : Found g) {xs : List (String × EntityData)}
    (hname : forall x, x ∈ xs -> x.2.name = x.1) :
    Joins g (xs.foldl (fun g x => g.mergeEntity x.1 x.2) g) ∧
    (xs.foldl (fun g x => g.mergeEntity x.1 x.2) g).ledger =
      (xs.map Prod.snd).foldl (entityScheme.record stampedBy) g.ledger := by
  induction xs generalizing g with
  | nil =>
      exact ⟨Joins.refl h, rfl⟩
  | cons x rest ih =>
      obtain ⟨hjoins, hledger⟩ := h.mergeEntity x.2
      rw [hname x List.mem_cons_self] at hjoins hledger
      obtain ⟨hrest, hlast⟩ := ih hjoins.found
        (fun y hy => hname y (List.mem_cons_of_mem _ hy))
      refine ⟨hjoins.trans hrest, ?_⟩
      rw [List.foldl_cons, hlast, hledger]
      rfl

/-!
# Merging mention lists and relations in
-/

theorem Found.withMentions (h : Found g)
    (entityMentions : Std.ExtTreeMap String (List Uuid)) :
    Found { g with entityMentions := entityMentions } where
  toIndexed := h.toIndexed.mentions rfl rfl rfl rfl rfl
  self := h.self

theorem Found.mergeMentionLists (h : Found g) {xs : List (String × List Uuid)}
    (hknown : forall x, x ∈ xs -> exists c, g.aliasIndex (entityKey x.1) = some c) :
    exists entityMentions,
      xs.foldl (fun g x => g.mergeMentions x.1 x.2) g =
        { g with entityMentions := entityMentions } ∧
      (forall e : String, e ∈ entityMentions -> e ∈ g.entityMentions ∨ e ∈ g.entities) ∧
      forall (e : String) (id : Uuid), id ∈ entityMentions[e]?.getD [] ↔
        id ∈ g.mentionIds e ∨
          exists x, x ∈ xs ∧ id ∈ x.2 ∧ g.aliasIndex (entityKey x.1) = some e := by
  induction xs generalizing g with
  | nil =>
      exact ⟨g.entityMentions, rfl, fun _ he => Or.inl he,
        fun e id => by simp [mentionIds]⟩
  | cons x rest ih =>
      obtain ⟨c, hc⟩ := hknown x List.mem_cons_self
      have hstep : g.mergeMentions x.1 x.2 =
          { g with
            entityMentions := g.entityMentions.insert c
              (extendUnique (g.entityMentions[c]?.getD []) x.2) } := by
        simp only [EntityGraph.mergeMentions, h.resolve_eq, hc, Option.getD_some]
      have hmerged := h.withMentions (g.entityMentions.insert c
        (extendUnique (g.entityMentions[c]?.getD []) x.2))
      obtain ⟨entityMentions, hfold, hlists, hids⟩ := ih hmerged
        (fun y hy => hknown y (List.mem_cons_of_mem _ hy))
      refine ⟨entityMentions, ?_, ?_, ?_⟩
      · rw [List.foldl_cons, hstep]
        exact hfold
      · intro e he
        rcases hlists e he with hmem | hmem
        · rcases Std.ExtTreeMap.mem_insert.mp hmem with heq | hold
          · rw [← Std.compare_eq_iff_eq.mp heq]
            exact Or.inr (h.known _ c hc)
          · exact Or.inl hold
        · exact Or.inr hmem
      · intro e id
        have hhead : id ∈ (g.entityMentions.insert c
            (extendUnique (g.entityMentions[c]?.getD []) x.2))[e]?.getD [] ↔
            id ∈ g.mentionIds e ∨ id ∈ x.2 ∧ c = e := by
          rw [Std.ExtTreeMap.getElem?_insert]
          by_cases he : c = e
          · subst he
            simp [mem_extendUnique, mentionIds]
          · simp [he, mentionIds]
        rw [hids e id]
        unfold mentionIds at hhead ⊢
        rw [hhead, List.exists_mem_cons_iff, hc, or_assoc]
        simp only [Option.some.injEq]

variable {n : String}

theorem Found.getOrCreateNode (h : Found g)
    (hc : g.aliasIndex (entityKey n) = some c) (entityType : EntityType)
    (timestamp : Timestamp) :
    exists i, g.getOrCreateNode n entityType timestamp = (g, i) ∧
      g.graph.nodes[i]? = some c := by
  obtain ⟨i, hi, -⟩ := h.toIndexed.node (h.known _ c hc)
  refine ⟨i, ?_, (h.places c i).mp hi⟩
  simp only [EntityGraph.getOrCreateNode, h.resolve_eq, hc, Option.getD_some, hi]

/-- The relation that two leads make, unless they are two spellings of one
entity. -/
def Joined (index : String -> Option String) (r : EntityRelationship)
    (e f : String) (t : RelationType) : Prop :=
  index (entityKey r.fromEntity) = some e ∧ index (entityKey r.toEntity) = some f ∧
    r.relationType = t ∧ (e = f -> r.fromEntity = r.toEntity)

variable {r : EntityRelationship}

theorem Found.addRelationship (h : Found g) (now : Timestamp) {c' : String}
    (hfrom : g.aliasIndex (entityKey r.fromEntity) = some c)
    (hto : g.aliasIndex (entityKey r.toEntity) = some c') :
    exists edges,
      EntityGraph.addRelationship now g r =
        { g with graph := { g.graph with edges := edges } } ∧
      forall e f t,
        (EntityGraph.addRelationship now g r).Relates e f t ↔
          g.Relates e f t ∨ Joined g.aliasIndex r e f t := by
  obtain ⟨i, hi, hiAt⟩ := h.getOrCreateNode hfrom EntityType.concept now
  obtain ⟨j, hj, hjAt⟩ := h.getOrCreateNode hto EntityType.concept now
  have hsame : i = j ↔ c = c' := by
    constructor
    · rintro rfl
      rw [hiAt] at hjAt
      exact Option.some.inj hjAt
    · rintro rfl
      have hplace := (h.places c i).mpr hiAt
      rw [(h.places c j).mpr hjAt] at hplace
      exact (Option.some.inj hplace).symm
  have hgraph : EntityGraph.addRelationship now g r =
      if i = j ∧ r.fromEntity ≠ r.toEntity then g
      else { g with graph := g.graph.putEdge i j ⟨r.relationType, r.context⟩ } := by
    simp only [EntityGraph.addRelationship, hi, hj]
  have hjoined : forall e f t, Joined g.aliasIndex r e f t ↔
      c = e ∧ c' = f ∧ r.relationType = t ∧ (e = f -> r.fromEntity = r.toEntity) := by
    intro e f t
    simp only [Joined, hfrom, hto, Option.some.injEq]
  rw [hgraph]
  by_cases hskip : i = j ∧ r.fromEntity ≠ r.toEntity
  · rw [if_pos hskip]
    refine ⟨g.graph.edges, rfl, ?_⟩
    intro e f t
    rw [hjoined]
    constructor
    · exact Or.inl
    · rintro (hold | ⟨rfl, rfl, -, hspelt⟩)
      · exact hold
      · exact absurd (hspelt (hsame.mp hskip.1)) hskip.2
  · rw [if_neg hskip]
    refine ⟨(g.graph.putEdge i j ⟨r.relationType, r.context⟩).edges, ?_, ?_⟩
    · exact congrArg (fun graph => { g with graph := graph })
        (putEdge_eq g.graph i j ⟨r.relationType, r.context⟩)
    · intro e f t
      have hkept : c = c' -> r.fromEntity = r.toEntity := by
        intro heq
        by_contra hne
        exact hskip ⟨hsame.mpr heq, hne⟩
      rw [hjoined]
      unfold Relates
      simp only [putEdge_nodes, mem_putEdge]
      constructor
      · rintro ⟨a, b, hold | hnew, ha, hb⟩
        · exact Or.inl ⟨a, b, hold, ha, hb⟩
        · cases hnew
          rw [hiAt] at ha
          rw [hjAt] at hb
          cases ha
          cases hb
          exact Or.inr ⟨rfl, rfl, rfl, hkept⟩
      · rintro (⟨a, b, hold, ha, hb⟩ | ⟨rfl, rfl, rfl, -⟩)
        · exact ⟨a, b, Or.inl hold, ha, hb⟩
        · exact ⟨i, j, Or.inr rfl, hiAt, hjAt⟩

theorem Found.addRelationships (h : Found g) (now : Timestamp)
    {rs : List EntityRelationship} (hknown : forall r, r ∈ rs ->
      (exists c, g.aliasIndex (entityKey r.fromEntity) = some c) ∧
        exists c, g.aliasIndex (entityKey r.toEntity) = some c) :
    exists edges,
      rs.foldl (EntityGraph.addRelationship now) g =
        { g with graph := { g.graph with edges := edges } } ∧
      forall e f t,
        (rs.foldl (EntityGraph.addRelationship now) g).Relates e f t ↔
          g.Relates e f t ∨ exists r, r ∈ rs ∧ Joined g.aliasIndex r e f t := by
  induction rs generalizing g with
  | nil =>
      exact ⟨g.graph.edges, rfl, fun e f t => by simp⟩
  | cons r rest ih =>
      obtain ⟨⟨c, hc⟩, c', hc'⟩ := hknown r List.mem_cons_self
      have hindexed := h.toIndexed.addRelationship now r
      obtain ⟨edges, hgraph, hrelates⟩ := h.addRelationship now hc hc'
      rw [List.foldl_cons]
      generalize EntityGraph.addRelationship now g r = added at *
      have hfound : Found added := by
        refine ⟨hindexed, ?_⟩
        rw [hgraph]
        exact h.self
      obtain ⟨rest', hfold, hall⟩ := ih hfound (by
        rw [hgraph]
        exact fun r hr => hknown r (List.mem_cons_of_mem _ hr))
      refine ⟨rest', ?_, ?_⟩
      · rw [hfold, hgraph]
      · intro e f t
        rw [hall, hrelates, List.exists_mem_cons_iff, or_assoc, hgraph]

/-!
# Merging a graph in
-/

def ListsKnown (g : EntityGraph) : Prop :=
  forall n, n ∈ g.entityMentions -> n ∈ g.entities

/-- Names lead to their entities, and only entities have mention lists. -/
structure SelfContained (g : EntityGraph) : Prop where
  resolving : Resolving g
  indexed : Indexed g
  mentioned : ListsKnown g

theorem SelfContained.mention_mem (h : SelfContained g) {x : String × List Uuid}
    (hx : x ∈ g.entityMentions.toList) :
    x.1 ∈ g.entities := by
  have hget := Std.ExtTreeMap.mem_toList_iff_getElem?_eq_some.mp hx
  exact h.mentioned x.1 (Std.ExtTreeMap.mem_iff_isSome_getElem?.mpr (by simp [hget]))

def Mentioned (g : EntityGraph) (index : String -> Option String) (e : String)
    (id : Uuid) : Prop :=
  exists x, x ∈ g.entityMentions.toList ∧ id ∈ x.2 ∧
    index (entityKey x.1) = some e

def Related (g : EntityGraph) (index : String -> Option String) (e f : String)
    (t : RelationType) : Prop :=
  exists r, r ∈ g.relations ∧ Joined index r e f t

omit [CharTables] in
theorem Indexed.relation_ends (h : Indexed g) (hr : r ∈ g.relations) :
    r.fromEntity ∈ g.entities ∧ r.toEntity ∈ g.entities := by
  obtain ⟨x, -, hx⟩ := List.mem_filterMap.mp hr
  obtain ⟨source, hsource, hx⟩ := Option.bind_eq_some_iff.mp hx
  obtain ⟨target, htarget, rfl⟩ := Option.map_eq_some_iff.mp hx
  exact ⟨(h.stored source).mp (List.mem_of_getElem? hsource),
    (h.stored target).mp (List.mem_of_getElem? htarget)⟩

omit [CharTables] in
theorem Indexed.exists_value (h : Indexed g) (hn : n ∈ g.entities) :
    exists d, d ∈ g.values ∧ d.name = n := by
  obtain ⟨d, hd⟩ := mem_entities.mp hn
  exact ⟨d, mem_values.mpr ⟨n, hd⟩, h.named n d hd⟩

structure MergedInto (g other g' : EntityGraph) : Prop where
  found : Found g'
  ledger : g'.ledger = other.values.foldl (entityScheme.record stampedBy) g.ledger
  lists : forall n, n ∈ g'.entityMentions -> n ∈ g.entityMentions ∨ n ∈ g'.entities
  mentions : forall e id, id ∈ g'.mentionIds e ↔
    id ∈ g.mentionIds e ∨ other.Mentioned g'.aliasIndex e id
  relates : forall e f t, g'.Relates e f t ↔
    g.Relates e f t ∨ other.Related g'.aliasIndex e f t

variable {other : EntityGraph}

theorem MergedInto.index (h : MergedInto g other g') :
    g'.aliasIndex = entityScheme.arriveAll g.aliasIndex other.values := by
  have hindex := congrArg Prod.fst h.ledger
  rw [Scheme.record_index] at hindex
  exact hindex

theorem Found.mergeFrom (h : Found g) (hother : SelfContained other)
    (now : Timestamp) :
    MergedInto g other (g.mergeFrom now other) := by
  have hnamed : forall x, x ∈ other.entities.toList -> x.2.name = x.1 :=
    fun x hx => hother.indexed.named x.1 x.2
      (Std.ExtTreeMap.mem_toList_iff_getElem?_eq_some.mp hx)
  obtain ⟨hjoins, hledger⟩ := h.mergeEntityList hnamed
  have hrelated := hjoins.relates h.toIndexed
  unfold EntityGraph.mergeFrom
  simp only
  generalize other.entities.toList.foldl (fun g x => g.mergeEntity x.1 x.2) g =
    joined at *
  have hindex : joined.aliasIndex =
      entityScheme.arriveAll g.aliasIndex other.values := by
    have hfirst := congrArg Prod.fst hledger
    rw [Scheme.record_index] at hfirst
    exact hfirst
  -- The entities of the other graph are known by now.
  have hknown : forall n, n ∈ other.entities ->
      exists c, joined.aliasIndex (entityKey n) = some c := by
    intro n hn
    obtain ⟨d, hd, rfl⟩ := hother.indexed.exists_value hn
    rw [hindex]
    cases hcase : entityScheme.arriveAll g.aliasIndex other.values
        (entityKey d.name) with
    | some c => exact ⟨c, rfl⟩
    | none =>
        exact absurd (entityScheme.ownKey_mem d)
          ((Scheme.arriveAll_none.mp hcase).2 d hd)
  have hlists : forall x, x ∈ other.entityMentions.toList ->
      exists c, joined.aliasIndex (entityKey x.1) = some c := by
    intro x hx
    exact hknown x.1 (hother.mention_mem hx)
  obtain ⟨entityMentions, hmentions, hstored, hids⟩ :=
    hjoins.found.mergeMentionLists hlists
  rw [hmentions]
  have hlisted := hjoins.found.withMentions entityMentions
  have hends : forall r, r ∈ other.relations ->
      (exists c, joined.aliasIndex (entityKey r.fromEntity) = some c) ∧
        exists c, joined.aliasIndex (entityKey r.toEntity) = some c := by
    intro r hr
    obtain ⟨hfrom, hto⟩ := hother.indexed.relation_ends hr
    exact ⟨hknown _ hfrom, hknown _ hto⟩
  obtain ⟨edges, hedges, hrelates⟩ := hlisted.addRelationships now hends
  have hindexed := hlisted.toIndexed.addRelationships now other.relations
  have hsame : (other.graph.edges.reverse.filterMap other.relationRef) =
      other.relations := rfl
  rw [hsame]
  generalize hlast : other.relations.foldl (EntityGraph.addRelationship now)
    { joined with entityMentions := entityMentions } = last at *
  subst hedges
  refine ⟨⟨hindexed, hjoins.found.self⟩, hledger, ?_, ?_, ?_⟩
  · intro n hn
    rw [← hjoins.entityMentions]
    exact hstored n hn
  · intro e id
    have hkept : joined.mentionIds e = g.mentionIds e := by
      rw [mentionIds, hjoins.entityMentions]
      rfl
    rw [← hkept]
    exact hids e id
  · intro e f t
    rw [hrelates, ← hrelated]
    rfl

/-!
# Folding graphs
-/

def mergeAll (graphs : List (Timestamp × EntityGraph)) : EntityGraph :=
  graphs.foldl (fun g x => g.mergeFrom x.1 x.2) new

def arrivals (graphs : List EntityGraph) : List EntityData :=
  graphs.flatMap values

/-- The merged graph as its alias index shows it. -/
structure MergeOf (graphs : List EntityGraph) (g : EntityGraph) : Prop where
  found : Found g
  ledger : g.ledger =
    (arrivals graphs).foldl (entityScheme.record stampedBy) new.ledger
  mentions : forall e id, id ∈ g.mentionIds e ↔
    exists other, other ∈ graphs ∧ other.Mentioned g.aliasIndex e id
  relates : forall e f t, g.Relates e f t ↔
    exists other, other ∈ graphs ∧ other.Related g.aliasIndex e f t

variable {graphs : List EntityGraph}

theorem MergeOf.index (h : MergeOf graphs g) :
    g.aliasIndex = entityScheme.arriveAll (fun _ => none) (arrivals graphs) := by
  have hindex := congrArg Prod.fst h.ledger
  rw [Scheme.record_index] at hindex
  exact hindex

theorem MergeOf.stamps (h : MergeOf graphs g) (e : String) :
    g.stamps e = ((arrivals graphs).filter (fun d => decide
      (g.aliasIndex (entityKey d.name) = some e))).foldl stampedBy none := by
  have hvalue := congrFun (congrArg Prod.snd h.ledger) e
  rw [Scheme.record_value] at hvalue
  have hnone : new.ledger.2 e = none := by
    simp [EntityGraph.ledger, EntityGraph.stamps, new]
  rw [hnone] at hvalue
  rw [h.index]
  exact hvalue

theorem MergeOf.known (h : MergeOf graphs g) (hother : other ∈ graphs)
    (hindexed : Indexed other) (hn : n ∈ other.entities) :
    exists c, g.aliasIndex (entityKey n) = some c := by
  obtain ⟨d, hd, rfl⟩ := hindexed.exists_value hn
  have hmem : d ∈ arrivals graphs := List.mem_flatMap.mpr ⟨other, hother, hd⟩
  rw [h.index]
  cases hcase : entityScheme.arriveAll (fun _ => none) (arrivals graphs)
      (entityKey d.name) with
  | some c => exact ⟨c, rfl⟩
  | none =>
      exact absurd (entityScheme.ownKey_mem d)
        ((Scheme.arriveAll_none.mp hcase).2 d hmem)

/-- The entities of a graph lead to the same ones in two indexes. -/
def Agree (g : EntityGraph) (index index' : String -> Option String) : Prop :=
  forall n, n ∈ g.entities -> index' (entityKey n) = index (entityKey n)

variable {index' : String -> Option String}

theorem Agree.mentioned (hg : SelfContained g) {index : String -> Option String}
    (h : g.Agree index index') (e : String) (id : Uuid) :
    g.Mentioned index' e id ↔ g.Mentioned index e id := by
  refine exists_congr fun x => and_congr_right fun hx => ?_
  rw [h x.1 (hg.mention_mem hx)]

theorem Agree.related (hg : SelfContained g) {index : String -> Option String}
    (h : g.Agree index index') (e f : String) (t : RelationType) :
    g.Related index' e f t ↔ g.Related index e f t := by
  refine exists_congr fun r => and_congr_right fun hr => ?_
  obtain ⟨hfrom, hto⟩ := hg.indexed.relation_ends hr
  rw [Joined, Joined, h _ hfrom, h _ hto]

theorem mergeOf_new : MergeOf [] new where
  found := found_new
  ledger := rfl
  mentions e id := by simp [mentionIds, new]
  relates e f t := by simp [Relates, new, DiGraph.new]

theorem MergeOf.mergeFrom (h : MergeOf graphs g)
    (hgraphs : forall x, x ∈ graphs -> SelfContained x)
    (hother : SelfContained other) (now : Timestamp) :
    MergeOf (graphs ++ [other]) (g.mergeFrom now other) := by
  have hmerged := h.found.mergeFrom hother now
  generalize g.mergeFrom now other = g' at *
  have hagree : forall x, x ∈ graphs -> x.Agree g.aliasIndex g'.aliasIndex := by
    intro x hx n hn
    obtain ⟨c, hc⟩ := h.known hx (hgraphs x hx).indexed hn
    rw [hmerged.index, hc]
    exact Scheme.arriveAll_kept hc _
  have hsnoc : forall p : EntityGraph -> Prop,
      (exists x, x ∈ graphs ++ [other] ∧ p x) ↔
        (exists x, x ∈ graphs ∧ p x) ∨ p other := by
    intro p
    simp [or_and_right, exists_or]
  refine ⟨hmerged.found, ?_, ?_, ?_⟩
  · rw [hmerged.ledger, h.ledger, arrivals, arrivals, List.flatMap_append,
      List.foldl_append, List.flatMap_singleton]
  · intro e id
    rw [hmerged.mentions, h.mentions, hsnoc]
    refine or_congr_left (exists_congr fun x => and_congr_right fun hx => ?_)
    exact ((hagree x hx).mentioned (hgraphs x hx) e id).symm
  · intro e f t
    rw [hmerged.relates, h.relates, hsnoc]
    refine or_congr_left (exists_congr fun x => and_congr_right fun hx => ?_)
    exact ((hagree x hx).related (hgraphs x hx) e f t).symm

theorem mergeAll_of {xs : List (Timestamp × EntityGraph)}
    (h : forall x, x ∈ xs -> SelfContained x.2) :
    MergeOf (xs.map Prod.snd) (mergeAll xs) := by
  induction xs using List.reverseRecOn with
  | nil =>
      exact mergeOf_new
  | append_singleton xs x ih =>
      have hold := ih (fun y hy => h y (List.mem_append_left _ hy))
      have hgraphs : forall y, y ∈ xs.map Prod.snd -> SelfContained y := by
        intro y hy
        obtain ⟨z, hz, rfl⟩ := List.mem_map.mp hy
        exact h z (List.mem_append_left _ hz)
      have hlast := hold.mergeFrom hgraphs (h x (by simp)) x.1
      rw [mergeAll, List.foldl_append, List.map_append]
      exact hlast

end

end EntityGraph
end Graph
end PostCortex
