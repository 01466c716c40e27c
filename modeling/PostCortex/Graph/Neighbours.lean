import PostCortex.Graph.Relations
import PostCortex.Search.BreadthFirst

/-!
# Neighbours

The entities at the other ends of the relations of an entity, whichever way these
point.  Distances in an entity graph are along them.
-/

namespace PostCortex
namespace Graph
namespace EntityGraph

open PostCortex.Core

/-- `if rel.from == name { rel.to } else { rel.from }`. -/
def otherEnd (name : String) (rel : EntityRelationship) : String :=
  if rel.fromEntity = name then rel.toEntity else rel.fromEntity

def neighbours (g : EntityGraph) (name : String) : List String :=
  (g.relationshipsOf name).map (otherEnd name)

theorem Indexed.mem_neighbours {g : EntityGraph} (h : Indexed g) {x y : String} :
    y ∈ g.neighbours x ↔ exists t, g.Relates x y t ∨ g.Relates y x t := by
  unfold neighbours
  rw [List.mem_map]
  constructor
  · rintro ⟨r, hr, rfl⟩
    have hrel := h.relates_of_listed hr
    rcases (h.mem_relationshipsOf.mp hr).2 with rfl | rfl
    · refine ⟨r.relationType, Or.inl ?_⟩
      rw [otherEnd, if_pos rfl]
      exact hrel
    · refine ⟨r.relationType, ?_⟩
      by_cases hloop : r.fromEntity = r.toEntity
      · rw [otherEnd, if_pos hloop]
        rw [hloop] at hrel
        exact Or.inl hrel
      · rw [otherEnd, if_neg hloop]
        exact Or.inr hrel
  · rintro ⟨t, hrel | hrel⟩
    · obtain ⟨r, hr, hkey⟩ := relates_iff.mp hrel
      cases hkey
      exact ⟨r, h.mem_relationshipsOf.mpr ⟨hr, Or.inl rfl⟩, if_pos rfl⟩
    · obtain ⟨r, hr, hkey⟩ := relates_iff.mp hrel
      cases hkey
      refine ⟨r, h.mem_relationshipsOf.mpr ⟨hr, Or.inr rfl⟩, ?_⟩
      unfold otherEnd
      split
      · next hloop =>
        exact hloop.symm
      · rfl

theorem Indexed.neighbours_symm {g : EntityGraph} (h : Indexed g) {x y : String}
    (hy : y ∈ g.neighbours x) :
    x ∈ g.neighbours y := by
  obtain ⟨t, hrel⟩ := h.mem_neighbours.mp hy
  exact h.mem_neighbours.mpr ⟨t, hrel.symm⟩

end EntityGraph
end Graph
end PostCortex
