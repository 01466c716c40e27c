import PostCortex.Graph.IndexCoherence

/-!
# Round trips

A serialized graph does not have the alias index: deserializing rebuilds it from
the names of the entities and merges entities whose names share a key.  So a
graph comes back as it was when its alias index is the one of its names.
-/

namespace PostCortex
namespace Graph
namespace EntityGraph

open PostCortex.Core
open Naming

variable {g g' : EntityGraph} {d : EntityData} {name : String}

theorem named_some (hd : g.entities[name]? = some d) (n : String) :
    g.Named name n ↔ n ∈ names d := by
  simp [Named, hd]

/-!
# Serialized edges
-/

def triple (nodes : List String) (e : Edge) :
    Option (String × String × EdgeData) :=
  (nodes[e.source]?).bind fun source =>
    (nodes[e.target]?).map fun target => (source, target, e.weight)

theorem relationRef_eq (g : EntityGraph) (e : Edge) :
    g.relationRef e = (triple g.graph.nodes e).map (fun t =>
      ⟨t.1, t.2.1, t.2.2.relationType, t.2.2.context⟩) := by
  unfold relationRef triple
  cases g.graph.nodes[e.source]? with
  | none => rfl
  | some source =>
      cases g.graph.nodes[e.target]? with
      | none | some target => rfl

def triples (g : EntityGraph) : List (String × String × EdgeData) :=
  g.graph.edges.reverse.filterMap (triple g.graph.nodes)

def relations (g : EntityGraph) : List EntityRelationship :=
  g.graph.edges.reverse.filterMap g.relationRef

theorem relations_eq (g : EntityGraph) :
    g.relations = g.triples.map (fun t =>
      ⟨t.1, t.2.1, t.2.2.relationType, t.2.2.context⟩) := by
  rw [relations, triples, List.map_filterMap]
  exact List.filterMap_congr (fun e _ => relationRef_eq g e)

def edgeLe (x y : String × String × EdgeData) : Prop :=
  x.1 < y.1 ∨ x.1 = y.1 ∧ (x.2.1 < y.2.1 ∨ x.2.1 = y.2.1 ∧
    relationRank x.2.2.relationType ≤ relationRank y.2.2.relationType)

instance (x y : String × String × EdgeData) : Decidable (edgeLe x y) := by
  unfold edgeLe
  infer_instance

theorem text_trichotomy (x y : String) : x < y ∨ x = y ∨ y < x := by
  by_cases hlt : x < y
  · exact Or.inl hlt
  · by_cases hgt : y < x
    · exact Or.inr (Or.inr hgt)
    · exact Or.inr (Or.inl
        (String.le_antisymm (String.not_lt.mp hgt) (String.not_lt.mp hlt)))

instance : Std.Total edgeLe where
  total x y := by
    unfold edgeLe
    rcases text_trichotomy x.1 y.1 with h | h | h
    · exact Or.inl (Or.inl h)
    · rcases text_trichotomy x.2.1 y.2.1 with h' | h' | h'
      · exact Or.inl (Or.inr ⟨h, Or.inl h'⟩)
      · rcases Nat.le_total (relationRank x.2.2.relationType)
          (relationRank y.2.2.relationType) with hle | hle
        · exact Or.inl (Or.inr ⟨h, Or.inr ⟨h', hle⟩⟩)
        · exact Or.inr (Or.inr ⟨h.symm, Or.inr ⟨h'.symm, hle⟩⟩)
      · exact Or.inr (Or.inr ⟨h.symm, Or.inl h'⟩)
    · exact Or.inr (Or.inl h)

instance : IsTrans (String × String × EdgeData) edgeLe where
  trans x y z hxy hyz := by
    unfold edgeLe at hxy hyz ⊢
    rcases hxy with hxy | ⟨hxy, hrest⟩
    · rcases hyz with hyz | ⟨hyz, -⟩
      · exact Or.inl (String.lt_trans hxy hyz)
      · exact Or.inl (hyz ▸ hxy)
    · rcases hyz with hyz | ⟨hyz, hrest'⟩
      · exact Or.inl (hxy ▸ hyz)
      · refine Or.inr ⟨hxy.trans hyz, ?_⟩
        rcases hrest with hlt | ⟨heq, hle⟩
        · rcases hrest' with hlt' | ⟨heq', -⟩
          · exact Or.inl (String.lt_trans hlt hlt')
          · exact Or.inl (heq' ▸ hlt)
        · rcases hrest' with hlt' | ⟨heq', hle'⟩
          · exact Or.inl (heq ▸ hlt')
          · exact Or.inr ⟨heq.trans heq', Nat.le_trans hle hle'⟩

instance : Std.Total (fun x y : String => x ≤ y) where
  total := String.le_total

instance : IsTrans String (fun x y => x ≤ y) where
  trans _ _ _ := String.le_trans

theorem serialize_edges (g : EntityGraph) :
    g.serialize.edges = g.triples.insertionSort edgeLe := by
  have htriple : forall e, (g.relationRef e).map (fun r =>
      (r.fromEntity, r.toEntity, e.weight)) = triple g.graph.nodes e := by
    intro e
    rw [relationRef_eq, Option.map_map]
    unfold triple
    cases g.graph.nodes[e.source]? with
    | none => rfl
    | some source =>
        cases g.graph.nodes[e.target]? with
        | none | some target => rfl
  have hsame : g.serialize.edges = (g.graph.edges.reverse.filterMap (fun e =>
      (g.relationRef e).map (fun r => (r.fromEntity, r.toEntity, e.weight)))).insertionSort
        edgeLe :=
    rfl
  rw [hsame, triples]
  congr 1
  exact List.filterMap_congr (fun e _ => htriple e)

theorem mem_nodes_of_triple {t : String × String × EdgeData} (ht : t ∈ g.triples) :
    t.1 ∈ g.graph.nodes ∧ t.2.1 ∈ g.graph.nodes := by
  obtain ⟨e, -, he⟩ := List.mem_filterMap.mp ht
  obtain ⟨source, hsource, he⟩ := Option.bind_eq_some_iff.mp he
  obtain ⟨target, htarget, rfl⟩ := Option.map_eq_some_iff.mp he
  exact ⟨List.mem_of_getElem? hsource, List.mem_of_getElem? htarget⟩

theorem triples_foldl {nodes : List String}
    {f : DiGraph -> String × String × EdgeData -> DiGraph}
    {edges : List (String × String × EdgeData)}
    (hf : forall t, t ∈ edges -> forall g,
      (f g t).edges.reverse.filterMap (triple nodes) =
        g.edges.reverse.filterMap (triple nodes) ++ [t]) (g : DiGraph) :
    (edges.foldl f g).edges.reverse.filterMap (triple nodes) =
      g.edges.reverse.filterMap (triple nodes) ++ edges := by
  induction edges generalizing g with
  | nil =>
      exact (List.append_nil _).symm
  | cons t rest ih =>
      rw [List.foldl_cons, ih (fun s hs => hf s (List.mem_cons_of_mem t hs)),
        hf t List.mem_cons_self, List.append_assoc]
      rfl

theorem deserializeGraph_triples {data : EntityGraphData}
    (hends : forall t, t ∈ data.edges ->
      t.1 ∈ data.nodes ∧ t.2.1 ∈ data.nodes) :
    (deserializeGraph data).edges.reverse.filterMap (triple data.nodes) =
      data.edges := by
  have hplace : forall n, n ∈ data.nodes ->
      exists i, nodesByName data.nodes n = some i ∧
        data.nodes[i]? = some n := by
    intro n hn
    cases hcase : nodesByName data.nodes n with
    | none => exact absurd hn (nodesByName_spec.1.mp hcase)
    | some i => exact ⟨i, rfl, nodesByName_spec.2 i hcase⟩
  refine triples_foldl ?_ _
  intro t ht g
  obtain ⟨hfrom, hto⟩ := hends t ht
  obtain ⟨source, hsource, hsourceAt⟩ := hplace t.1 hfrom
  obtain ⟨target, htarget, htargetAt⟩ := hplace t.2.1 hto
  have htriple : triple data.nodes ⟨source, target, t.2.2⟩ = some t := by
    simp [triple, hsourceAt, htargetAt]
  rw [hsource, htarget]
  dsimp only
  rw [DiGraph.addEdge, List.reverse_cons, List.filterMap_append,
    List.filterMap_cons, htriple]
  rfl

section

variable [CharTables]

/-!
# Keys without a name

Every key of the alias index is the key of a name of the entity it leads to.
An operation that only adds names and their keys keeps that.
-/

def HasKey (g : EntityGraph) (e k : String) : Prop :=
  exists n, g.Named e n ∧ entityKey n = k

def Exact (g : EntityGraph) : Prop :=
  forall e k, g.aliasIndex k = some e -> g.HasKey e k

/-- Names are only added, and a new key is the key of a name. -/
structure Extends (g g' : EntityGraph) : Prop where
  kept : forall e n, g.Named e n -> g'.Named e n
  added : forall e k, g'.aliasIndex k = some e ->
    g.aliasIndex k = some e ∨ g'.HasKey e k

theorem Extends.hasKey (h : Extends g g') {e k : String} (hk : g.HasKey e k) :
    g'.HasKey e k := by
  obtain ⟨n, hn, hkey⟩ := hk
  exact ⟨n, h.kept e n hn, hkey⟩

theorem Extends.refl (g : EntityGraph) : Extends g g where
  kept _ _ h := h
  added _ _ h := Or.inl h

theorem Extends.trans {g'' : EntityGraph} (h : Extends g g') (h' : Extends g' g'') :
    Extends g g'' where
  kept e n hn := h'.kept e n (h.kept e n hn)
  added e k hk := by
    rcases h'.added e k hk with hold | hnew
    · exact (h.added e k hold).imp id h'.hasKey
    · exact Or.inr hnew

theorem Extends.exact (h : Extends g g') (hg : Exact g) :
    Exact g' := by
  intro e k hk
  rcases h.added e k hk with hold | hnew
  · exact h.hasKey (hg e k hold)
  · exact hnew

theorem Extends.of_eq (hentities : g'.entities = g.entities)
    (hindex : g'.aliasIndex = g.aliasIndex) :
    Extends g g' where
  kept e n hn := (Named.congr hentities e n).mpr hn
  added e k hk := Or.inl (by rwa [hindex] at hk)

theorem Extends.foldl {α : Type} {f : EntityGraph -> α -> EntityGraph}
    (hf : forall g x, Extends g (f g x)) (xs : List α) (g : EntityGraph) :
    Extends g (xs.foldl f g) := by
  induction xs generalizing g with
  | nil =>
      exact Extends.refl g
  | cons x rest ih =>
      exact (hf g x).trans (ih (f g x))

theorem Extends.insert (name : String) (keys : List String)
    (hentities : g'.entities = g.entities.insert name d)
    (hnames : forall n, g.Named name n -> n ∈ names d)
    (hindex : g'.aliasIndex = claimKeys name g.aliasIndex keys)
    (hkeys : forall k, k ∈ keys -> k ∈ (names d).map entityKey) :
    Extends g g' where
  kept e n hn := by
    rw [named_insert hentities]
    by_cases he : e = name
    · exact Or.inr ⟨he, hnames n (he ▸ hn)⟩
    · exact Or.inl ⟨hn, he⟩
  added e k hk := by
    rw [hindex, claimKeys_apply] at hk
    cases hold : g.aliasIndex k with
    | some o =>
        rw [hold] at hk
        exact Or.inl hk
    | none =>
        rw [hold, Option.none_or] at hk
        split at hk
        · next hmem =>
          obtain ⟨n, hn, hkey⟩ := List.mem_map.mp (hkeys k hmem)
          refine Or.inr ⟨n, ?_, hkey⟩
          rw [named_insert hentities]
          exact Or.inr ⟨(Option.some.inj hk).symm, hn⟩
        · cases hk

theorem extends_addOrUpdateEntity (g : EntityGraph) (written : String)
    (entityType : EntityType) (timestamp : Timestamp) (description : String) :
    Extends g (g.addOrUpdateEntity written entityType timestamp description) := by
  unfold EntityGraph.addOrUpdateEntity
  generalize (g.resolve written).getD written = name
  cases hcase : g.entities[name]? with
  | some entity =>
      simp only [hcase]
      obtain ⟨hentities, hindex⟩ := ensureNode_eq { g with
        entities := g.entities.insert name
          (withAlias (mentioned entity timestamp description) written) } name
      refine Extends.insert name [] hentities ?_ hindex (by simp)
      intro n hn
      rw [names_withAlias]
      exact Or.inl ((named_some hcase n).mp hn)
  | none =>
      simp only [hcase]
      refine Extends.insert name (d := created name entityType timestamp description)
        ((names (created name entityType timestamp description)).map entityKey) ?_ ?_ ?_ (fun _ hk => hk)
      · simp [indexNames, EntityGraph.addNode]
      · rintro n ⟨d, hd, -⟩
        rw [hcase] at hd
        cases hd
      · simp [indexNames, EntityGraph.addNode]

theorem extends_noteAlias (h : Indexed g) (name written : String) :
    Extends g (g.noteAlias name written) := by
  unfold EntityGraph.noteAlias
  cases hc : g.resolve name with
  | none =>
      exact Extends.refl g
  | some c =>
      obtain ⟨d, hd⟩ := mem_entities.mp (h.resolve hc)
      simp only [hd]
      refine Extends.insert c (d := withAlias d written)
        [entityKey written] rfl ?_ rfl ?_
      · intro n hn
        rw [names_withAlias]
        exact Or.inl ((named_some hd n).mp hn)
      · intro k hk
        rw [List.mem_singleton.mp hk]
        refine List.mem_map_of_mem ?_
        rw [names_withAlias]
        exact Or.inr rfl

theorem extends_getOrCreateNode (g : EntityGraph) (written : String)
    (entityType : EntityType) (timestamp : Timestamp) :
    Extends g (g.getOrCreateNode written entityType timestamp).1 := by
  unfold EntityGraph.getOrCreateNode
  generalize (g.resolve written).getD written = name
  have hadded := extends_addOrUpdateEntity g name entityType timestamp ""
  simp only
  split
  · exact Extends.refl g
  · split
    · exact hadded
    · exact hadded.trans (Extends.of_eq rfl rfl)

theorem extends_addRelationship (now : Timestamp) (g : EntityGraph)
    (r : EntityRelationship) :
    Extends g (EntityGraph.addRelationship now g r) := by
  have hsource := extends_getOrCreateNode g r.fromEntity EntityType.concept now
  have htarget := extends_getOrCreateNode
    (g.getOrCreateNode r.fromEntity EntityType.concept now).1 r.toEntity
    EntityType.concept now
  unfold EntityGraph.addRelationship
  simp only
  split
  · exact hsource.trans htarget
  · exact (hsource.trans htarget).trans (Extends.of_eq rfl rfl)

theorem extends_addRelationships (now : Timestamp) (g : EntityGraph)
    (rs : List EntityRelationship) :
    Extends g (rs.foldl (EntityGraph.addRelationship now) g) :=
  Extends.foldl (extends_addRelationship now) rs g

theorem extends_addEntities (g : EntityGraph) (update : ContextUpdate) :
    Extends g (g.addEntities update) := by
  unfold EntityGraph.addEntities
  split
  · exact Extends.foldl (fun g _ => extends_addOrUpdateEntity g _ _ _ _) _ g
  · exact Extends.foldl (fun g _ => extends_addOrUpdateEntity g _ _ _ _) _ g

theorem extends_linkMention (id : Uuid) (linked : EntityGraph × List String)
    (name : String) :
    Extends linked.1 (linkMention id linked name).1 := by
  unfold linkMention
  split
  · exact Extends.refl _
  · split
    · exact Extends.refl _
    · exact Extends.of_eq rfl rfl

theorem extends_linkMentions (g : EntityGraph) (update : ContextUpdate) :
    Extends g (g.linkMentions update) := by
  have hfold : forall (xs : List String) (linked : EntityGraph × List String),
      Extends linked.1 (xs.foldl (linkMention update.id) linked).1 := by
    intro xs
    induction xs with
    | nil =>
        intro linked
        exact Extends.refl _
    | cons x rest ih =>
        intro linked
        exact (extends_linkMention update.id linked x).trans (ih _)
  exact hfold _ (g, [])

theorem extends_applyUpdate (now : Timestamp) (g : EntityGraph)
    (update : ContextUpdate) :
    Extends g (g.applyUpdate now update) :=
  ((extends_addEntities g update).trans
    (extends_addRelationships now _ _)).trans (extends_linkMentions _ update)

theorem extends_relinkMentions (g : EntityGraph) (updates : List ContextUpdate) :
    Extends g (g.relinkMentions updates) := by
  have hname : forall (id : Uuid) (g : EntityGraph) (name : String),
      Extends g (relinkMention id g name) := by
    intro id g name
    unfold relinkMention
    split
    · exact Extends.refl g
    · exact Extends.of_eq rfl rfl
  have hempty : Extends g { g with entityMentions := ∅ } := Extends.of_eq rfl rfl
  exact hempty.trans
    (Extends.foldl (fun g update => Extends.foldl (hname update.id) _ g) updates _)

theorem extends_mergeEntity (h : Indexed g) (name : String) (data : EntityData) :
    Indexed (g.mergeEntity name data) ∧ Extends g (g.mergeEntity name data) := by
  have hadded := h.addOrUpdateEntity name data.entityType data.lastMentioned
    (data.description.getD "")
  have haddedExtends := extends_addOrUpdateEntity g name data.entityType
    data.lastMentioned (data.description.getD "")
  unfold EntityGraph.mergeEntity
  refine List.foldlRecOn
    (motive := fun g' => Indexed g' ∧ Extends g g') data.aliases _
    ⟨hadded, haddedExtends⟩ ?_
  rintro g' ⟨hindexed, hextends⟩ a _
  exact ⟨hindexed.noteAlias name a,
    hextends.trans (extends_noteAlias hindexed name a)⟩

theorem extends_mergeFrom (h : Indexed g) (now : Timestamp) (other : EntityGraph) :
    Extends g (g.mergeFrom now other) := by
  have hentities : Extends g (other.entities.toList.foldl
      (fun g x => g.mergeEntity x.1 x.2) g) := by
    have hboth : Indexed (other.entities.toList.foldl
        (fun g x => g.mergeEntity x.1 x.2) g) ∧
        Extends g (other.entities.toList.foldl
          (fun g x => g.mergeEntity x.1 x.2) g) := by
      refine List.foldlRecOn
        (motive := fun g' => Indexed g' ∧ Extends g g') other.entities.toList _
        ⟨h, Extends.refl g⟩ ?_
      rintro g' ⟨hindexed, hextends⟩ x _
      obtain ⟨hmerged, hmergedExtends⟩ := extends_mergeEntity hindexed x.1 x.2
      exact ⟨hmerged, hextends.trans hmergedExtends⟩
    exact hboth.2
  have hmentions : forall (g : EntityGraph) (x : String × List Uuid),
      Extends g (g.mergeMentions x.1 x.2) :=
    fun _ _ => Extends.of_eq rfl rfl
  unfold EntityGraph.mergeFrom
  exact (hentities.trans (Extends.foldl hmentions _ _)).trans
    (extends_addRelationships now _ _)

/-!
# Merging, removing and replacing entities
-/

def ExactBut (g : EntityGraph) (name : String) : Prop :=
  forall e k, e ≠ name -> g.aliasIndex k = some e -> g.HasKey e k

theorem Exact.but (h : Exact g) (name : String) :
    ExactBut g name :=
  fun e k _ hk => h e k hk

theorem ExactBut.removeEntity (h : ExactBut g name) {node : Nat}
    (hnode : g.entityToNode name = some node) :
    Exact (g.removeEntity name).1 := by
  obtain ⟨hentities, hindex, -⟩ := removeEntity_eq hnode
  intro e k hk
  rw [hindex] at hk
  obtain ⟨hold, hne⟩ := release_apply.mp hk
  obtain ⟨n, hn, hkey⟩ := h e k hne hold
  exact ⟨n, (named_erase hentities e n).mpr ⟨hn, hne⟩, hkey⟩

theorem Exact.removeEntity (h : Exact g) (name : String) :
    Exact (g.removeEntity name).1 := by
  cases hnode : g.entityToNode name with
  | none =>
      simp only [EntityGraph.removeEntity, hnode]
      exact h
  | some node =>
      exact (h.but name).removeEntity hnode

variable {gone : String}

theorem ExactBut.mergeResolved (h : ExactBut g gone) {node : Nat}
    (hnode : g.entityToNode gone = some node) (now : Timestamp) (into : String)
    (goneData : EntityData) :
    Exact (g.mergeResolved now gone into goneData) := by
  have hremoved := h.removeEntity hnode
  unfold EntityGraph.mergeResolved
  refine (extends_addRelationships now _ _).exact ?_
  generalize (g.removeEntity gone).1 = removed at hremoved ⊢
  cases hinto : removed.entities[into]? with
  | none =>
      simp only [hinto]
      intro e k hk
      exact hremoved e k hk
  | some target =>
      simp only [Std.ExtTreeMap.getElem?_insert_self]
      intro e k hk
      simp only [assignKeys_apply] at hk
      have hnamed : forall e n, Named { removed with
          entities := removed.entities.insert into (absorb target goneData) } e n ↔
          removed.Named e n ∧ e ≠ into ∨
            e = into ∧ n ∈ names (absorb target goneData) :=
        named_insert rfl
      split at hk
      · next hmem =>
        obtain ⟨n, hn, hkey⟩ := List.mem_map.mp hmem
        exact ⟨n, (hnamed e n).mpr (Or.inr ⟨(Option.some.inj hk).symm, hn⟩), hkey⟩
      · obtain ⟨n, hn, hkey⟩ := hremoved e k hk
        refine ⟨n, (hnamed e n).mpr ?_, hkey⟩
        by_cases he : e = into
        · subst he
          refine Or.inr ⟨rfl, ?_⟩
          rw [names_absorb]
          exact Or.inl ((named_some hinto n).mp hn)
        · exact Or.inl ⟨hn, he⟩

theorem ExactBut.mergeEntities (hg : Indexed g) {into : String}
    (h : ExactBut g gone) (hne : gone ≠ into) (hgone : gone ∈ g.entities)
    (hinto : into ∈ g.entities) (now : Timestamp) :
    Exact (g.mergeEntities now gone into).1 := by
  obtain ⟨d, hd⟩ := mem_entities.mp hgone
  obtain ⟨i, hi, -⟩ := hg.node hgone
  have hresolve : forall n : String, n ∈ g.entities -> g.resolve n = some n :=
    fun _ hn => if_pos hn
  rw [mergeEntities_eq (hresolve gone hgone) (hresolve into hinto) hne hd]
  exact h.mergeResolved hi now into d

theorem Exact.mergeEntities (hg : Indexed g) (h : Exact g) (now : Timestamp)
    (written target : String) :
    Exact (g.mergeEntities now written target).1 := by
  rcases mergeEntities_cases now g written target with
    heq | ⟨gone, into, d, hgone, hinto, hne, hd, heq⟩
  · rw [heq]
    exact h
  · obtain ⟨i, hi, -⟩ := hg.node (mem_entities.mpr ⟨d, hd⟩)
    rw [heq]
    exact (h.but gone).mergeResolved hi now into d

def survives (g : EntityGraph) (entity : EntityData) : Bool :=
  match g.otherOf entity with
  | none => true
  | some other =>
      match g.entities[other]? with
      | none => true
      | some theirs =>
          entity.firstMentioned < theirs.firstMentioned ∨
            entity.firstMentioned = theirs.firstMentioned ∧ entity.name < other

/-- An entity with the names of the one it replaces, up to spelling, unless it
is merged into another one. -/
def KeepsKeys (g : EntityGraph) (entity : EntityData) : Prop :=
  g.survives entity = true -> forall d, d ∈ g.entities[entity.name]? ->
    forall n, n ∈ names d -> entityKey n ∈ (names entity).map entityKey

instance (g : EntityGraph) (entity : EntityData) :
    Decidable (g.KeepsKeys entity) := by
  unfold KeepsKeys
  infer_instance

theorem Exact.insertEntity (hg : Indexed g) (h : Exact g) (now : Timestamp)
    {entity : EntityData} (hkeeps : g.KeepsKeys entity) :
    Exact (g.insertEntity now entity) := by
  have hinserted := hg.inserted entity
  obtain ⟨hentities, hindex⟩ := ensureNode_eq g entity.name
  unfold EntityGraph.insertEntity
  simp only
  generalize hgraph :
    { g.ensureNode entity.name with
      entities := (g.ensureNode entity.name).entities.insert entity.name
        entity }.indexNames entity.name = inserted at hinserted ⊢
  have hstored : inserted.entities = g.entities.insert entity.name entity := by
    rw [← hgraph]
    simp [indexNames, hentities]
  have hclaimed : inserted.aliasIndex =
      claimKeys entity.name g.aliasIndex ((names entity).map entityKey) := by
    rw [← hgraph]
    simp [indexNames, hindex]
  have hnamed := named_insert hstored
  -- The keys of the other entities are the old ones.
  have hbut : ExactBut inserted entity.name := by
    intro e k hne hk
    rw [hclaimed, claimKeys_apply] at hk
    cases hold : g.aliasIndex k with
    | some o =>
        rw [hold] at hk
        obtain ⟨n, hn, hkey⟩ := h e k (hold.trans hk)
        exact ⟨n, (hnamed e n).mpr (Or.inl ⟨hn, hne⟩), hkey⟩
    | none =>
        rw [hold, Option.none_or] at hk
        split at hk
        · exact absurd (Option.some.inj hk).symm hne
        · cases hk
  have hexact : g.survives entity = true -> Exact inserted := by
    intro hsurvives e k hk
    by_cases hne : e = entity.name
    · subst hne
      have hmine : k ∈ (names entity).map entityKey := by
        rw [hclaimed, claimKeys_apply] at hk
        cases hold : g.aliasIndex k with
        | some o =>
            rw [hold] at hk
            obtain ⟨n, ⟨d, hd, hn⟩, rfl⟩ := h _ k (hold.trans hk)
            exact hkeeps hsurvives d hd n hn
        | none =>
            rw [hold, Option.none_or] at hk
            split at hk
            · next hmem => exact hmem
            · cases hk
      obtain ⟨n, hn, hkey⟩ := List.mem_map.mp hmine
      exact ⟨n, (hnamed _ n).mpr (Or.inr ⟨rfl, hn⟩), hkey⟩
    · exact hbut e k hne hk
  cases hother : g.otherOf entity with
  | none =>
      exact hexact (by simp [survives, hother])
  | some other =>
      obtain ⟨n, -, hfound⟩ := List.exists_of_findSome?_eq_some hother
      obtain ⟨hresolve, hne⟩ := Option.filter_eq_some_iff.mp hfound
      have hne : other ≠ entity.name := of_decide_eq_true hne
      obtain ⟨d, hd⟩ := mem_entities.mp (hg.resolve hresolve)
      have htheirs : inserted.entities[other]? = some d := by
        rw [hstored, Std.ExtTreeMap.getElem?_insert]
        simp [hne.symm, hd]
      have hotherMem : other ∈ inserted.entities := mem_entities.mpr ⟨d, htheirs⟩
      have hmineMem : entity.name ∈ inserted.entities := by
        rw [hstored]
        exact Std.ExtTreeMap.mem_insert_self
      simp only [htheirs]
      split
      · next hearlier =>
        have hsurvives : g.survives entity = true := by
          simp only [survives, hother, hd]
          exact decide_eq_true hearlier
        exact ((hexact hsurvives).but other).mergeEntities hinserted hne
          hotherMem hmineMem now
      · exact hbut.mergeEntities hinserted hne.symm hmineMem hotherMem now

/-!
# Reloading
-/

/-- What of a graph comes back from its document. -/
structure RoundTrips (now : Timestamp) (g : EntityGraph) : Prop where
  entities : (g.reload now).entities = g.entities
  entityMentions : (g.reload now).entityMentions = g.entityMentions
  relations : (g.reload now).relations.Perm g.relations
  resolve : forall n, (g.reload now).resolve n = g.resolve n
  document : (g.reload now).serialize = g.serialize

attribute [ext] EntityGraphData

theorem Resolving.reload_eq (h : Resolving g) (hexact : Exact g) (now : Timestamp) :
    g.reload now = { EntityGraph.unindexed g.serialize with
      aliasIndex := g.aliasIndex } := by
  obtain ⟨rebuilt, heq, hindex⟩ := h.toNoded.unindexed.rebuildAliasIndex_eq
    (h.agrees.congr (Named.congr rfl) (fun _ => rfl)) now
  have hsame : rebuilt = g.aliasIndex := by
    funext k
    refine Option.ext fun e => (hindex e k).trans ⟨?_, hexact e k⟩
    rintro ⟨n, hn, rfl⟩
    exact h.agrees.indexed e n hn
  rw [hsame] at heq
  exact heq

theorem Resolving.roundTrips (h : Resolving g) (hexact : Exact g) (now : Timestamp) :
    RoundTrips now g := by
  have hreload := h.reload_eq hexact now
  have hnodes : (g.reload now).graph.nodes =
      g.graph.nodes.insertionSort (fun x y => x ≤ y) := by
    rw [hreload]
    exact deserializeGraph_nodes g.serialize
  have htriples : (g.reload now).triples = g.triples.insertionSort edgeLe := by
    have hends : forall t, t ∈ g.serialize.edges ->
        t.1 ∈ g.serialize.nodes ∧ t.2.1 ∈ g.serialize.nodes := by
      intro t ht
      rw [serialize_edges, List.mem_insertionSort] at ht
      obtain ⟨hfrom, hto⟩ := mem_nodes_of_triple ht
      exact ⟨(List.mem_insertionSort _).mpr hfrom,
        (List.mem_insertionSort _).mpr hto⟩
    have hedges := deserializeGraph_triples hends
    rw [serialize_edges] at hedges
    rw [triples, hnodes, ← hedges, hreload]
    rfl
  refine ⟨?_, ?_, ?_, ?_, ?_⟩
  · rw [hreload]
    rfl
  · rw [hreload]
    rfl
  · rw [relations_eq, relations_eq, htriples]
    exact (List.perm_insertionSort edgeLe g.triples).map _
  · intro n
    rw [hreload]
    rfl
  · refine EntityGraphData.ext ?_ ?_ ?_ ?_
    · rw [hreload]
      rfl
    · rw [hreload]
      rfl
    · have hsorted := List.pairwise_insertionSort
        (fun x y : String => x ≤ y) g.graph.nodes
      have hagain := hsorted.insertionSort_eq
      rw [← hnodes] at hagain
      exact hagain.trans hnodes
    · rw [serialize_edges, serialize_edges, htriples]
      exact (List.pairwise_insertionSort edgeLe g.triples).insertionSort_eq

/-!
# Runs
-/

theorem Resolving.touch (h : Resolving g) {d' : EntityData}
    (hd : g.entities[name]? = some d)
    (hentities : g'.entities = g.entities.insert name d')
    (hnames : names d' = names d) (hindex : g'.aliasIndex = g.aliasIndex)
    (hnode : g'.entityToNode = g.entityToNode)
    (hnodes : g'.graph.nodes = g.graph.nodes) :
    Resolving g' ∧ Extends g g' := by
  have hname : d'.name = name := by
    have hhead := (List.cons.inj hnames).1
    rw [hhead]
    exact h.keyed name d hd
  have hnamed : forall e n, g'.Named e n ↔ g.Named e n := by
    intro e n
    rw [named_insert hentities]
    by_cases he : e = name
    · subst he
      rw [hnames, named_some hd]
      simp
    · simp [he]
  refine ⟨⟨?_, ?_⟩, ?_, ?_⟩
  · refine h.toNoded.insert (d := d') (by rw [hname]; exact hentities) hnode
      hnodes ?_
    rw [hname]
    exact h.noded name d hd
  · exact h.agrees.congr hnamed (fun k => congrFun hindex k)
  · exact fun e n hn => (hnamed e n).mpr hn
  · exact fun e k hk => Or.inl (by rwa [hindex] at hk)

theorem Resolving.mentionEntity (h : Resolving g) (name : String) (updateId : Uuid)
    (timestamp : Timestamp) (score : Rat) :
    Resolving (g.mentionEntity name updateId timestamp score) ∧
      Extends g (g.mentionEntity name updateId timestamp score) := by
  unfold EntityGraph.mentionEntity
  cases hd : g.entities[name]? with
  | none =>
      exact ⟨h.frame rfl rfl rfl rfl, Extends.of_eq rfl rfl⟩
  | some d =>
      exact h.touch hd rfl rfl rfl rfl rfl

theorem Resolving.updateEntityTimestamp (h : Resolving g) (name : String)
    (timestamp : Timestamp) :
    Resolving (g.updateEntityTimestamp name timestamp) ∧
      Extends g (g.updateEntityTimestamp name timestamp) := by
  unfold EntityGraph.updateEntityTimestamp
  cases hd : g.entities[name]? with
  | none =>
      exact ⟨h, Extends.refl g⟩
  | some d =>
      exact h.touch hd rfl rfl rfl rfl rfl

theorem Resolving.relinkMentions (h : Resolving g) (updates : List ContextUpdate) :
    Resolving (g.relinkMentions updates) := by
  have hempty : Resolving { g with entityMentions := ∅ } :=
    h.frame rfl rfl rfl rfl
  unfold EntityGraph.relinkMentions
  refine List.foldlRecOn updates _ hempty ?_
  intro g' hg update _
  refine List.foldlRecOn (mentionedNames update) _ hg ?_
  intro g'' hg name _
  unfold relinkMention
  split
  · exact hg
  · exact hg.frame rfl rfl rfl rfl

/-- The graphs that writes make of the empty one, at any times; a graph merged
in is built the same way. -/
inductive WrittenBy (allowed : EntityGraph -> GraphWrite -> Prop) :
    EntityGraph -> Prop where
  | new : WrittenBy allowed new
  | write {g : EntityGraph} (now : Timestamp) (w : GraphWrite) :
      WrittenBy allowed g ->
      (forall other, w = GraphWrite.op (GraphOp.mergeFrom other) ->
        WrittenBy allowed other) ->
      allowed g w ->
      WrittenBy allowed (w.apply now g)

theorem Built.writtenBy {allowed : EntityGraph -> GraphOp -> Prop}
    {writes : EntityGraph -> GraphWrite -> Prop}
    (hallowed : forall g op, allowed g op -> writes g (GraphWrite.op op))
    (h : Built allowed g) :
    WrittenBy writes g := by
  induction h with
  | new =>
      exact WrittenBy.new
  | step op now _ _ hop ih ihother =>
      refine ih.write now (GraphWrite.op op) ?_ (hallowed _ _ hop)
      intro other heq
      exact ihother other (GraphWrite.op.inj heq)

/-- An inserted entity meets at most one other and keeps the keys of the one it
replaces, and an alias merged in does not lead to another entity than its own. -/
def KeepsIndex (g : EntityGraph) : GraphWrite -> Prop
  | GraphWrite.op (GraphOp.insertEntity entity) =>
      g.MeetsOneOther entity ∧ g.KeepsKeys entity
  | GraphWrite.op (GraphOp.mergeFrom other) => g.AliasesAgree other
  | _ => True

instance (g : EntityGraph) (w : GraphWrite) : Decidable (g.KeepsIndex w) := by
  unfold KeepsIndex
  split <;> infer_instance

theorem KeepsIndex.meetsNoSecond {op : GraphOp}
    (h : g.KeepsIndex (GraphWrite.op op)) :
    g.MeetsNoSecond op := by
  cases op with
  | insertEntity entity => exact h.1
  | mergeFrom other => exact h
  | addOrUpdateEntity _ _ _ _ | addRelationship _ | mergeEntities _ _
  | removeEntity _ | applyUpdate _ | reload => exact True.intro

theorem Exact.apply (hresolving : Resolving g) (hindexed : Indexed g) (h : Exact g)
    (now : Timestamp) {op : GraphOp} (hop : g.KeepsIndex (GraphWrite.op op)) :
    Exact (op.apply now g) := by
  cases op with
  | addOrUpdateEntity name entityType timestamp description =>
      exact (extends_addOrUpdateEntity g name entityType timestamp
        description).exact h
  | insertEntity entity => exact h.insertEntity hindexed now hop.2
  | addRelationship relationship =>
      exact (extends_addRelationship now g relationship).exact h
  | mergeEntities written target => exact h.mergeEntities hindexed now written target
  | removeEntity name => exact h.removeEntity name
  | applyUpdate update => exact (extends_applyUpdate now g update).exact h
  | mergeFrom other => exact (extends_mergeFrom hindexed now other).exact h
  | reload =>
      have hreload := hresolving.reload_eq h now
      have hsame : Extends g (g.reload now) := by
        rw [hreload]
        exact Extends.of_eq rfl rfl
      exact hsame.exact h

/-- The alias index is the one of the names, and the node maps are right. -/
structure Restorable (g : EntityGraph) : Prop where
  resolving : Resolving g
  indexed : Indexed g
  exact : Exact g

theorem restorable_new : Restorable new where
  resolving := resolving_new
  indexed := indexed_new
  exact := by
    intro e k hk
    cases hk

theorem Resolving.write {g : EntityGraph} (h : Resolving g) (now : Timestamp)
    {w : GraphWrite}
    (hop : forall op, w = GraphWrite.op op -> g.MeetsNoSecond op)
    (hother : forall other, w = GraphWrite.op (GraphOp.mergeFrom other) ->
      Resolving other) :
    Resolving (w.apply now g) := by
  cases w with
  | op o =>
      refine h.apply now (hop o rfl) ?_
      rintro other rfl
      exact hother other rfl
  | clear => exact resolving_new
  | mentionEntity name updateId timestamp score =>
      exact (h.mentionEntity name updateId timestamp score).1
  | updateEntityTimestamp name timestamp =>
      exact (h.updateEntityTimestamp name timestamp).1
  | linkMentions update => exact h.linkMentions update
  | relinkMentions updates => exact h.relinkMentions updates

theorem Restorable.write {g : EntityGraph} (h : Restorable g) (now : Timestamp)
    {w : GraphWrite} (hw : g.KeepsIndex w)
    (hother : forall other, w = GraphWrite.op (GraphOp.mergeFrom other) ->
      Restorable other) :
    Restorable (w.apply now g) := by
  refine ⟨h.resolving.write now ?_ (fun other heq => (hother other heq).resolving),
    h.indexed.write now w, ?_⟩
  · rintro op rfl
    exact hw.meetsNoSecond
  · cases w with
    | op o => exact h.exact.apply h.resolving h.indexed now hw
    | clear => exact restorable_new.exact
    | mentionEntity name updateId timestamp score =>
        exact (h.resolving.mentionEntity name updateId timestamp score).2.exact
          h.exact
    | updateEntityTimestamp name timestamp =>
        exact (h.resolving.updateEntityTimestamp name timestamp).2.exact h.exact
    | linkMentions update => exact (extends_linkMentions g update).exact h.exact
    | relinkMentions updates =>
        exact (extends_relinkMentions g updates).exact h.exact

theorem Restorable.applyUpdate (h : Restorable g) (now : Timestamp)
    (update : ContextUpdate) :
    Restorable (g.applyUpdate now update) := by
  refine h.write now (w := GraphWrite.op (GraphOp.applyUpdate update)) True.intro ?_
  intro other heq
  cases heq

theorem Restorable.mergeEntities (h : Restorable g) (now : Timestamp)
    (written target : String) :
    Restorable (g.mergeEntities now written target).1 := by
  refine h.write now (w := GraphWrite.op (GraphOp.mergeEntities written target))
    True.intro ?_
  intro other heq
  cases heq

theorem restorable (h : WrittenBy KeepsIndex g) :
    Restorable g := by
  induction h with
  | new =>
      exact restorable_new
  | write now _ _ _ hw ih ihother =>
      exact ih.write now hw ihother

/-- A graph whose writes keep the alias index comes back from its document, at
any time. -/
theorem reload_round_trips {g : EntityGraph} (h : WrittenBy KeepsIndex g)
    (now : Timestamp) :
    RoundTrips now g :=
  (restorable h).resolving.roundTrips (restorable h).exact now

end

section

attribute [local instance] asciiTables

/-- An entity is merged in under two names, and a stored one replaced. -/
theorem reload_round_trips_merged :
    exists g, WrittenBy KeepsIndex g ∧ g.resolve "Redis_Cache" = some "redis" ∧
      RoundTrips 7 g := by
  have hother : WrittenBy KeepsIndex (mergedNames "Redis" "redis cache") := by
    have hbuilt : Built (fun g op => g.KeepsIndex (GraphWrite.op op))
        (mergedNames "Redis" "redis cache") := by
      refine Built.mergedNames "Redis" "redis cache" ?_
      intro g op hmerge hinsert
      cases op with
      | mergeFrom other => exact absurd rfl (hmerge other)
      | insertEntity entity => exact absurd rfl (hinsert entity)
      | addOrUpdateEntity _ _ _ _ | addRelationship _ | mergeEntities _ _
      | removeEntity _ | applyUpdate _ | reload => exact True.intro
    exact hbuilt.writtenBy (fun _ _ h => h)
  have hself : WrittenBy KeepsIndex (new.addConcept "redis") :=
    WrittenBy.new.write 0 (GraphWrite.op
      (GraphOp.addOrUpdateEntity "redis" EntityType.concept 0 "")) nofun True.intro
  have hmerged := hself.write 3
    (GraphWrite.op (GraphOp.mergeFrom (mergedNames "Redis" "redis cache")))
    (fun other heq => by cases heq; exact hother) (by decide +kernel)
  have hbuilt := hmerged.write 4
    (GraphWrite.op (GraphOp.insertEntity
      { created "redis" EntityType.technology 2 "" with
        aliases := ["REDIS cache", "kv"] })) nofun (by decide +kernel)
  exact ⟨_, hbuilt, by decide +kernel, reload_round_trips hbuilt 7⟩

/-- Two entities become one: the alias merged in is the name of the second. -/
theorem reload_merges_entities :
    ¬ forall g, WrittenBy (fun _ _ => True) g ->
      forall now, RoundTrips now g := by
  intro h
  have hother : Built (fun _ _ => True) (mergedNames "Redis" "Cache") :=
    Built.mergedNames "Redis" "Cache" (fun _ _ _ _ => True.intro)
  have hnew : Built (fun _ _ => True) new := Built.new
  have hbuilt := ((hnew.addConcept "Redis" True.intro).addConcept "Cache"
    True.intro).step (GraphOp.mergeFrom (mergedNames "Redis" "Cache")) 0
    (fun other heq => by cases heq; exact hother) True.intro
  have hentities := (h _ (hbuilt.writtenBy (fun _ _ _ => True.intro)) 0).entities
  have hgone : ¬ ("Redis" ∈
      (((GraphOp.mergeFrom (mergedNames "Redis" "Cache")).apply 0
        ((new.addConcept "Redis").addConcept "Cache")).reload 0).entities ↔
      "Redis" ∈ ((GraphOp.mergeFrom (mergedNames "Redis" "Cache")).apply 0
        ((new.addConcept "Redis").addConcept "Cache")).entities) := by
    decide +kernel
  rw [hentities] at hgone
  exact hgone Iff.rfl

-- A replaced entity without its old alias: the key goes with the reload.
example :
    let entity := created "redis" EntityType.concept 0 ""
    let g := (new.insertEntity 0 { entity with aliases := ["kv"] }).insertEntity 0
      entity
    g.resolve "kv" = some "redis" ∧ (g.reload 0).resolve "kv" = none := by
  decide +kernel

end

end EntityGraph
end Graph
end PostCortex
