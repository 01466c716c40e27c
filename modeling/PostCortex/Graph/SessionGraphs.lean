import PostCortex.Graph.Mentions
import PostCortex.Graph.Merging

/-!
# Session graphs

A graph that sessions write is self-contained: its names lead to their own
entities, and only entities have mention lists.
-/

namespace PostCortex
namespace Graph
namespace EntityGraph

open PostCortex.Core
open Naming

section

variable [CharTables]

variable {g g' : EntityGraph}

theorem Extends.mem (h : Extends g g') {n : String} (hn : n ∈ g.entities) :
    n ∈ g'.entities := by
  obtain ⟨d, hd⟩ := mem_entities.mp hn
  obtain ⟨d', hd', -⟩ := h.kept n d.name ⟨d, hd, List.mem_cons_self⟩
  exact mem_entities.mpr ⟨d', hd'⟩

theorem ListsKnown.extend (h : ListsKnown g) (hextends : Extends g g')
    (hlists : g'.entityMentions = g.entityMentions) :
    ListsKnown g' := by
  intro n hn
  rw [hlists] at hn
  exact hextends.mem (h n hn)

omit [CharTables] in
theorem ListsKnown.insert (h : ListsKnown g) {name : String} {ids : List Uuid}
    (hlists : g'.entityMentions = g.entityMentions.insert name ids)
    (hentities : forall n, n ∈ g.entities -> n ∈ g'.entities)
    (hname : name ∈ g'.entities) :
    ListsKnown g' := by
  intro n hn
  rw [hlists] at hn
  rcases Std.ExtTreeMap.mem_insert.mp hn with heq | hold
  · exact Std.compare_eq_iff_eq.mp heq ▸ hname
  · exact hentities n (h n hold)

theorem getOrCreateNode_mentions (g : EntityGraph) (written : String)
    (entityType : EntityType) (timestamp : Timestamp) :
    (g.getOrCreateNode written entityType timestamp).1.entityMentions =
      g.entityMentions := by
  unfold EntityGraph.getOrCreateNode
  simp only
  split
  · rfl
  · split
    · exact addOrUpdateEntity_mentions ..
    · exact addOrUpdateEntity_mentions ..

theorem addRelationship_mentions (now : Timestamp) (g : EntityGraph)
    (r : EntityRelationship) :
    (EntityGraph.addRelationship now g r).entityMentions = g.entityMentions := by
  have hsource := getOrCreateNode_mentions g r.fromEntity EntityType.concept now
  have htarget := getOrCreateNode_mentions
    (g.getOrCreateNode r.fromEntity EntityType.concept now).1 r.toEntity
    EntityType.concept now
  unfold EntityGraph.addRelationship
  simp only
  split
  · rw [htarget, hsource]
  · exact htarget.trans hsource

omit [CharTables] in
theorem foldl_mentions {α : Type} {f : EntityGraph -> α -> EntityGraph}
    (hf : forall g x, (f g x).entityMentions = g.entityMentions) (xs : List α)
    (g : EntityGraph) :
    (xs.foldl f g).entityMentions = g.entityMentions := by
  induction xs generalizing g with
  | nil =>
      rfl
  | cons x rest ih =>
      exact (ih (f g x)).trans (hf g x)

theorem addEntities_mentions (g : EntityGraph) (update : ContextUpdate) :
    (g.addEntities update).entityMentions = g.entityMentions := by
  unfold EntityGraph.addEntities
  split
  · exact foldl_mentions (fun g _ => addOrUpdateEntity_mentions g _ _ _ _) _ g
  · exact foldl_mentions (fun g _ => addOrUpdateEntity_mentions g _ _ _ _) _ g

theorem ListsKnown.addRelationships (h : ListsKnown g) (now : Timestamp)
    (rs : List EntityRelationship) :
    ListsKnown (rs.foldl (EntityGraph.addRelationship now) g) :=
  h.extend (extends_addRelationships now g rs)
    (foldl_mentions (addRelationship_mentions now) rs g)

theorem ListsKnown.linkMentions (h : ListsKnown g) (hg : Indexed g)
    (update : ContextUpdate) :
    ListsKnown (g.linkMentions update) := by
  have hfold : forall (xs : List String) (linked : EntityGraph × List String),
      Indexed linked.1 -> ListsKnown linked.1 ->
      ListsKnown (xs.foldl (linkMention update.id) linked).1 := by
    intro xs
    induction xs with
    | nil =>
        exact fun _ _ hlinked => hlinked
    | cons x rest ih =>
        intro linked hindexed hlinked
        rw [List.foldl_cons]
        unfold linkMention
        split
        · exact ih _ hindexed hlinked
        · next c hc =>
          split
          · exact ih _ hindexed hlinked
          · exact ih _ (hindexed.mentions rfl rfl rfl rfl rfl)
              (hlinked.insert rfl (fun _ hn => hn) (hindexed.resolve hc))
  exact hfold _ (g, []) hg h

theorem ListsKnown.relinkMentions (hg : Indexed g) (updates : List ContextUpdate) :
    ListsKnown (g.relinkMentions updates) := by
  have hempty : Indexed { g with entityMentions := ∅ } ∧
      ListsKnown { g with entityMentions := ∅ } :=
    ⟨hg.mentions rfl rfl rfl rfl rfl, fun n hn => by simp at hn⟩
  have hboth : Indexed (g.relinkMentions updates) ∧
      ListsKnown (g.relinkMentions updates) := by
    unfold EntityGraph.relinkMentions
    refine List.foldlRecOn (motive := fun g => Indexed g ∧ ListsKnown g) updates _
      hempty ?_
    intro g' hg' update _
    refine List.foldlRecOn (motive := fun g => Indexed g ∧ ListsKnown g)
      (mentionedNames update) _ hg' ?_
    rintro g'' ⟨hindexed, hknown⟩ name _
    unfold relinkMention
    split
    · exact ⟨hindexed, hknown⟩
    · next c hc =>
      exact ⟨hindexed.mentions rfl rfl rfl rfl rfl,
        hknown.insert rfl (fun _ hn => hn) (hindexed.resolve hc)⟩
  exact hboth.2

omit [CharTables] in
theorem ListsKnown.removeEntity (h : ListsKnown g) (name : String) :
    ListsKnown (g.removeEntity name).1 := by
  cases hnode : g.entityToNode name with
  | none =>
      simp only [EntityGraph.removeEntity, hnode]
      exact h
  | some node =>
      simp only [EntityGraph.removeEntity, hnode]
      intro n hn
      obtain ⟨hne, hold⟩ := Std.ExtTreeMap.mem_erase.mp hn
      exact Std.ExtTreeMap.mem_erase.mpr ⟨hne, h n hold⟩

theorem ListsKnown.mergeResolved (h : ListsKnown g) (now : Timestamp)
    {gone into : String} (goneData : EntityData)
    (hinto : into ∈ (g.removeEntity gone).1.entities) :
    ListsKnown (g.mergeResolved now gone into goneData) := by
  have hremoved := h.removeEntity gone
  unfold EntityGraph.mergeResolved
  generalize (g.removeEntity gone).1 = removed at hremoved hinto ⊢
  obtain ⟨d, hd⟩ := mem_entities.mp hinto
  simp only [hd]
  refine ListsKnown.addRelationships ?_ now _
  have hstored : into ∈ removed.entities.insert into (absorb d goneData) :=
    Std.ExtTreeMap.mem_insert_self
  have hkept : forall n, n ∈ removed.entities ->
      n ∈ removed.entities.insert into (absorb d goneData) :=
    fun n hn => Std.ExtTreeMap.mem_insert.mpr (Or.inr hn)
  split
  · exact fun n hn => hkept n (hremoved n hn)
  · exact hremoved.insert rfl hkept hstored

theorem ListsKnown.mergeEntities (h : ListsKnown g) (hg : Indexed g)
    (now : Timestamp) (written target : String) :
    ListsKnown (g.mergeEntities now written target).1 := by
  rcases mergeEntities_cases now g written target with
    heq | ⟨gone, into, d, hgone, hinto, hne, hd, heq⟩
  · rw [heq]
    exact h
  · obtain ⟨node, hnode, -⟩ := hg.node (mem_entities.mpr ⟨d, hd⟩)
    rw [heq]
    refine h.mergeResolved now d ?_
    rw [(removeEntity_eq hnode).1]
    refine Std.ExtTreeMap.mem_erase.mpr ⟨?_, hg.resolve hinto⟩
    rw [ne_eq, Std.compare_eq_iff_eq]
    exact hne

theorem ListsKnown.insertEntity (h : ListsKnown g) (hg : Indexed g)
    (now : Timestamp) (entity : EntityData) :
    ListsKnown (g.insertEntity now entity) := by
  have hindexed := hg.inserted entity
  have hensured := (ensureNode_eq g entity.name).1
  have hlists : (g.ensureNode entity.name).entityMentions = g.entityMentions := by
    unfold EntityGraph.ensureNode
    split <;> rfl
  unfold EntityGraph.insertEntity
  simp only
  generalize hgraph :
    { g.ensureNode entity.name with
      entities := (g.ensureNode entity.name).entities.insert entity.name
        entity }.indexNames entity.name = inserted at hindexed ⊢
  have hinserted : ListsKnown inserted := by
    rw [← hgraph]
    simp only [indexNames, Std.ExtTreeMap.getElem?_insert_self]
    intro n hn
    simp only at hn
    rw [hlists] at hn
    refine Std.ExtTreeMap.mem_insert.mpr (Or.inr ?_)
    rw [hensured]
    exact h n hn
  split
  · exact hinserted
  · split
    · split <;> exact hinserted.mergeEntities hindexed now _ _
    · split <;> exact hinserted.mergeEntities hindexed now _ _

/-!
# Runs
-/

theorem SelfContained.found (h : SelfContained g) : Found g :=
  h.resolving.found h.indexed

/-- What a session writes: an inserted entity meets at most one other, an alias
merged in leads to its own entity, and a mention is one of an entity. -/
def SessionWrite (g : EntityGraph) : GraphWrite -> Prop
  | GraphWrite.op op => g.MeetsNoSecond op
  | GraphWrite.mentionEntity name _ _ _ => name ∈ g.entities
  | _ => True

theorem SelfContained.lists (h : SelfContained g) (now : Timestamp) {op : GraphOp}
    (hother : forall other, op = GraphOp.mergeFrom other -> SelfContained other) :
    ListsKnown (op.apply now g) := by
  have hlists := h.mentioned
  cases op with
  | addOrUpdateEntity name entityType timestamp description =>
      exact hlists.extend (extends_addOrUpdateEntity ..)
        (addOrUpdateEntity_mentions ..)
  | insertEntity entity => exact hlists.insertEntity h.indexed now entity
  | addRelationship relationship =>
      exact hlists.extend (extends_addRelationship now g relationship)
        (addRelationship_mentions now g relationship)
  | mergeEntities written target =>
      exact hlists.mergeEntities h.indexed now written target
  | removeEntity name => exact hlists.removeEntity name
  | applyUpdate update =>
      have hadded := hlists.extend (extends_addEntities g update)
        (addEntities_mentions g update)
      exact (hadded.addRelationships now _).linkMentions
        ((h.indexed.addEntities update).addRelationships now _) update
  | mergeFrom other =>
      have hmerged := h.found.mergeFrom (hother other rfl) now
      intro n hn
      rcases hmerged.lists n hn with hold | hnew
      · exact (extends_mergeFrom h.indexed now other).mem (hlists n hold)
      · exact hnew
  | reload =>
      obtain ⟨rebuilt, heq, -⟩ := h.resolving.toNoded.unindexed.rebuildAliasIndex_eq
        (h.resolving.agrees.congr (Named.congr rfl) (fun _ => rfl)) now
      have hreload : GraphOp.reload.apply now g =
          { EntityGraph.unindexed g.serialize with aliasIndex := rebuilt } := heq
      rw [hreload]
      exact hlists

theorem SelfContained.write {g : EntityGraph} (h : SelfContained g)
    (now : Timestamp) {w : GraphWrite} (hw : g.SessionWrite w)
    (hother : forall other, w = GraphWrite.op (GraphOp.mergeFrom other) ->
      SelfContained other) :
    SelfContained (w.apply now g) := by
  have hlists := h.mentioned
  refine ⟨h.resolving.write now ?_ (fun other heq => (hother other heq).resolving),
    h.indexed.write now w, ?_⟩
  · rintro op rfl
    exact hw
  · cases w with
    | op o =>
        refine h.lists now ?_
        rintro other rfl
        exact hother other rfl
    | clear =>
        intro n hn
        simp [GraphWrite.apply, new] at hn
    | mentionEntity name updateId timestamp score =>
        have hextends := (h.resolving.mentionEntity name updateId timestamp score).2
        exact hlists.insert rfl (fun _ hn => hextends.mem hn) (hextends.mem hw)
    | updateEntityTimestamp name timestamp =>
        have hextends := (h.resolving.updateEntityTimestamp name timestamp).2
        refine hlists.extend hextends ?_
        show (g.updateEntityTimestamp name timestamp).entityMentions = _
        unfold EntityGraph.updateEntityTimestamp
        split <;> rfl
    | linkMentions update => exact hlists.linkMentions h.indexed update
    | relinkMentions updates => exact ListsKnown.relinkMentions h.indexed updates

theorem selfContained (h : WrittenBy SessionWrite g) :
    SelfContained g := by
  induction h with
  | new =>
      exact ⟨resolving_new, indexed_new, fun n hn => by simp [new] at hn⟩
  | write now _ _ _ hw ih ihother =>
      exact ih.write now hw ihother

end

end EntityGraph
end Graph
end PostCortex
