import PostCortex.Graph.Mentions

/-!
# Counts and relations

Mention lists are read only where mention lists are written, so the counts and
the relations that updates make do not depend on them.  `unlinked` is a graph
without its mention lists.  A graph made by updates has no aliases but those
that a name alone leads to.
-/

namespace PostCortex
namespace Graph
namespace EntityGraph

open PostCortex.Core

def unlinked (g : EntityGraph) : EntityGraph :=
  { g with entityMentions := ∅ }

theorem ensureNode_unlinked (g : EntityGraph) (name : String) :
    (g.ensureNode name).unlinked = g.unlinked.ensureNode name := by
  have hnode : g.unlinked.entityToNode = g.entityToNode := rfl
  unfold ensureNode
  rw [hnode]
  cases g.entityToNode name with
  | none | some node => rfl

theorem unlinked_foldl {α : Type} {f : EntityGraph -> α -> EntityGraph}
    (hf : forall g a, (f g a).unlinked = f g.unlinked a) (xs : List α)
    (g : EntityGraph) :
    (xs.foldl f g).unlinked = xs.foldl f g.unlinked := by
  induction xs generalizing g with
  | nil =>
      rfl
  | cons x rest ih =>
      rw [List.foldl_cons, List.foldl_cons, ih, hf]

section

variable [CharTables]

theorem indexNames_unlinked (g : EntityGraph) (canonical : String) :
    (g.indexNames canonical).unlinked = g.unlinked.indexNames canonical := by
  have hentities : g.unlinked.entities = g.entities := rfl
  unfold indexNames
  rw [hentities]
  cases g.entities[canonical]? with
  | none | some entity => rfl

theorem addOrUpdateEntity_unlinked (g : EntityGraph) (written : String)
    (entityType : EntityType) (timestamp : Timestamp) (description : String) :
    (g.addOrUpdateEntity written entityType timestamp description).unlinked =
      g.unlinked.addOrUpdateEntity written entityType timestamp
        description := by
  have hresolve : g.unlinked.resolve written = g.resolve written := rfl
  have hentities : g.unlinked.entities = g.entities := rfl
  unfold addOrUpdateEntity
  rw [hresolve, hentities]
  dsimp only
  cases g.entities[(g.resolve written).getD written]? with
  | none =>
      exact indexNames_unlinked _ _
  | some entity =>
      exact ensureNode_unlinked _ _

theorem getOrCreateNode_unlinked (g : EntityGraph) (written : String)
    (entityType : EntityType) (timestamp : Timestamp) :
    g.unlinked.getOrCreateNode written entityType timestamp =
      ((g.getOrCreateNode written entityType timestamp).1.unlinked,
        (g.getOrCreateNode written entityType timestamp).2) := by
  have hresolve : g.unlinked.resolve written = g.resolve written := rfl
  have hnode : g.unlinked.entityToNode = g.entityToNode := rfl
  unfold getOrCreateNode
  rw [hresolve, hnode]
  dsimp only
  cases g.entityToNode ((g.resolve written).getD written) with
  | some node =>
      rfl
  | none =>
      dsimp only
      rw [← addOrUpdateEntity_unlinked]
      have hadded : forall h : EntityGraph,
          h.unlinked.entityToNode = h.entityToNode := fun _ => rfl
      rw [hadded]
      cases (g.addOrUpdateEntity ((g.resolve written).getD written) entityType
        timestamp "").entityToNode ((g.resolve written).getD written) with
      | some node =>
          rfl
      | none =>
          rfl

theorem addRelationship_unlinked (now : Timestamp) (g : EntityGraph)
    (relationship : EntityRelationship) :
    (g.addRelationship now relationship).unlinked =
      g.unlinked.addRelationship now relationship := by
  unfold addRelationship
  dsimp only
  rw [getOrCreateNode_unlinked]
  dsimp only
  rw [getOrCreateNode_unlinked]
  dsimp only
  split
  · rfl
  · rfl

theorem addEntities_unlinked (g : EntityGraph) (update : ContextUpdate) :
    (g.addEntities update).unlinked = g.unlinked.addEntities update := by
  unfold addEntities
  split
  · apply unlinked_foldl
    intro g name
    apply addOrUpdateEntity_unlinked
  · apply unlinked_foldl
    intro g typed
    apply addOrUpdateEntity_unlinked

theorem linkMentions_unlinked (g : EntityGraph) (update : ContextUpdate) :
    (g.linkMentions update).unlinked = g.unlinked := by
  unfold linkMentions
  refine List.foldlRecOn
    (motive := fun linked : EntityGraph × List String =>
      linked.1.unlinked = g.unlinked) (mentionedNames update) _ rfl ?_
  intro linked h name _
  unfold linkMention
  split
  · exact h
  · split
    · exact h
    · exact h

theorem applyUpdate_unlinked (now : Timestamp) (g : EntityGraph)
    (update : ContextUpdate) :
    (g.applyUpdate now update).unlinked =
      update.createsRelationships.foldl (addRelationship now)
        (g.unlinked.addEntities update) := by
  unfold applyUpdate
  rw [linkMentions_unlinked,
    unlinked_foldl (fun g r => addRelationship_unlinked now g r),
    addEntities_unlinked]

theorem applyUpdate_congr {g g' : EntityGraph} (h : g.unlinked = g'.unlinked)
    (now : Timestamp) (update : ContextUpdate) :
    (g.applyUpdate now update).unlinked =
      (g'.applyUpdate now update).unlinked := by
  rw [applyUpdate_unlinked, applyUpdate_unlinked, h]

theorem explicitAliases_congr {g g' : EntityGraph}
    (h : g.unlinked = g'.unlinked) :
    g.explicitAliases = g'.explicitAliases := by
  have hentities : g.entities = g'.entities := by
    change g.unlinked.entities = g'.unlinked.entities
    rw [h]
  unfold explicitAliases values
  rw [hentities]

theorem explicitAliases_applyAll
    (updates : List (Timestamp × ContextUpdate)) :
    (applyAll updates).explicitAliases = [] := by
  have hgrown := grown updates
  unfold explicitAliases
  rw [List.flatMap_eq_nil_iff]
  intro e he
  rw [List.map_eq_nil_iff, List.filter_eq_nil_iff]
  intro a ha
  obtain ⟨⟨n, d⟩, hmem, rfl⟩ := List.mem_map.mp he
  have hget := Std.ExtTreeMap.mem_toList_iff_getElem?_eq_some.mp hmem
  have hname : d.name = n := hgrown.resolving.keyed n d hget
  have hnamed : (applyAll updates).Named n a :=
    ⟨d, hget, List.mem_cons_of_mem _ ha⟩
  have hkey := hgrown.own _ _ (hgrown.resolving.agrees.indexed n a hnamed)
  simp [hname, hkey]

end

end EntityGraph
end Graph
end PostCortex
