import PostCortex.Graph.Relations

/-!
# A graph from stored rows

A load inserts the stored entities one after the other and then adds the stored
relations.  When no insertion finds another entity under its names, and every
relation is between inserted entities, the graph has the stored entities and
relations and nothing else.
-/

namespace PostCortex
namespace Graph
namespace EntityGraph

open PostCortex.Core

/-!
# Entities
-/

section

variable [CharTables]

def MergesNone (now : Timestamp) : EntityGraph -> List EntityData -> Prop
  | _, [] => True
  | g, entity :: rest =>
      g.otherOf entity = none ∧ MergesNone now (g.insertEntity now entity) rest

instance decidableMergesNone (now : Timestamp) (g : EntityGraph)
    (entities : List EntityData) : Decidable (MergesNone now g entities) :=
  match entities with
  | [] => inferInstanceAs (Decidable True)
  | entity :: rest =>
      have := decidableMergesNone now (g.insertEntity now entity) rest
      inferInstanceAs (Decidable (_ ∧ _))

variable {g : EntityGraph} {entity : EntityData}

theorem insertEntity_entities (now : Timestamp) (h : g.otherOf entity = none) :
    (g.insertEntity now entity).entities = g.entities.insert entity.name entity := by
  obtain ⟨hentities, -⟩ := ensureNode_eq g entity.name
  unfold insertEntity
  rw [h]
  simp [indexNames, hentities]

theorem insertEntity_edges (now : Timestamp) (h : g.otherOf entity = none) :
    (g.insertEntity now entity).graph.edges = g.graph.edges := by
  have hensured : (g.ensureNode entity.name).graph.edges = g.graph.edges := by
    unfold ensureNode
    split <;> rfl
  unfold insertEntity
  rw [h]
  simp [indexNames, hensured]

variable {now : Timestamp} {name : String}

theorem MergesNone.entities {entities : List EntityData}
    (h : MergesNone now g entities) {e : EntityData}
    (he : (entities.foldl (insertEntity now) g).entities[name]? = some e) :
    g.entities[name]? = some e ∨ e ∈ entities ∧ e.name = name := by
  induction entities generalizing g with
  | nil =>
      exact Or.inl he
  | cons entity rest ih =>
      obtain ⟨hnone, hrest⟩ := h
      rcases ih hrest he with hfirst | ⟨hmem, hname⟩
      · rw [insertEntity_entities now hnone, Std.ExtTreeMap.getElem?_insert] at hfirst
        split at hfirst
        · next hkey =>
          cases hfirst
          exact Or.inr ⟨List.mem_cons_self, Std.LawfulEqOrd.eq_of_compare hkey⟩
        · exact Or.inl hfirst
      · exact Or.inr ⟨List.mem_cons_of_mem _ hmem, hname⟩

theorem MergesNone.mem_entities {entities : List EntityData}
    (h : MergesNone now g entities) :
    name ∈ (entities.foldl (insertEntity now) g).entities ↔
      name ∈ g.entities ∨ name ∈ entities.map EntityData.name := by
  induction entities generalizing g with
  | nil =>
      simp
  | cons entity rest ih =>
      obtain ⟨hnone, hrest⟩ := h
      rw [List.foldl_cons, ih hrest, insertEntity_entities now hnone,
        Std.ExtTreeMap.mem_insert, List.map_cons, List.mem_cons,
        Std.compare_eq_iff_eq]
      constructor
      · rintro ((hself | hold) | hlater)
        · exact Or.inr (Or.inl hself.symm)
        · exact Or.inl hold
        · exact Or.inr (Or.inr hlater)
      · rintro (hold | hself | hlater)
        · exact Or.inl (Or.inr hold)
        · exact Or.inl (Or.inl hself.symm)
        · exact Or.inr hlater

theorem MergesNone.edges {entities : List EntityData}
    (h : MergesNone now g entities) :
    (entities.foldl (insertEntity now) g).graph.edges = g.graph.edges := by
  induction entities generalizing g with
  | nil =>
      rfl
  | cons entity rest ih =>
      obtain ⟨hnone, hrest⟩ := h
      rw [List.foldl_cons, ih hrest, insertEntity_edges now hnone]

theorem Indexed.insertEntities (h : Indexed g) (now : Timestamp)
    (entities : List EntityData) :
    Indexed (entities.foldl (EntityGraph.insertEntity now) g) :=
  List.foldlRecOn entities _ h (fun _ hg e _ => Indexed.insertEntity hg now e)

end

/-!
# Relations
-/

theorem mem_edges_putEdge {d : DiGraph} {source target : Nat} {weight : EdgeData}
    {e : Edge} (he : e ∈ (d.putEdge source target weight).edges) :
    e ∈ d.edges ∨ e = ⟨source, target, weight⟩ := by
  unfold DiGraph.putEdge at he
  dsimp only at he
  split at he
  · next i hi =>
    obtain ⟨hlt, hmatch, -⟩ := List.findIdx?_eq_some_iff_getElem.mp hi
    obtain ⟨hs, ht, -⟩ := of_decide_eq_true hmatch
    obtain ⟨j, hj⟩ := List.mem_iff_getElem?.mp he
    rw [List.getElem?_modify] at hj
    obtain ⟨old, hold, rfl⟩ := Option.map_eq_some_iff.mp hj
    by_cases hij : i = j
    · subst hij
      rw [List.getElem?_eq_getElem hlt] at hold
      cases hold
      rw [if_pos rfl, hs, ht]
      exact Or.inr rfl
    · rw [if_neg hij]
      exact Or.inl (List.mem_of_getElem? hold)
  · rcases List.mem_cons.mp he with hnew | hold
    · exact Or.inr hnew
    · exact Or.inl hold

variable [CharTables]

variable {g : EntityGraph}

/-- A relation between two entities of the graph becomes the one relation with its
triple. -/
theorem Indexed.relations_addRelationship (h : Indexed g) (now : Timestamp)
    {r : EntityRelationship} (hfrom : r.fromEntity ∈ g.entities)
    (hto : r.toEntity ∈ g.entities) :
    (EntityGraph.addRelationship now g r).entities = g.entities ∧
      forall x, x ∈ (EntityGraph.addRelationship now g r).relations ->
        x ∈ g.relations ∨ x = r := by
  obtain ⟨i, j, hi, hj, hgraph⟩ :=
    h.addRelationship_known now (resolve_stored hfrom) (resolve_stored hto)
  rw [hgraph, if_neg (fun hspelt => hspelt.2 hspelt.1)]
  refine ⟨rfl, ?_⟩
  intro x hx
  obtain ⟨e, he, href⟩ := mem_relations.mp hx
  have hold : g.relationRef e = some x := by
    rw [← href]
    unfold relationRef
    simp only [putEdge_nodes]
  rcases mem_edges_putEdge he with hmem | rfl
  · exact Or.inl (mem_relations.mpr ⟨e, hmem, hold⟩)
  · rw [relationRef] at hold
    dsimp only at hold
    rw [hi, hj] at hold
    exact Or.inr (Option.some.inj hold).symm

theorem Indexed.relations_addRelationships (h : Indexed g) (now : Timestamp)
    {rs : List EntityRelationship}
    (hends : forall r, r ∈ rs -> r.fromEntity ∈ g.entities ∧ r.toEntity ∈ g.entities) :
    (rs.foldl (EntityGraph.addRelationship now) g).entities = g.entities ∧
      forall x, x ∈ (rs.foldl (EntityGraph.addRelationship now) g).relations ->
        x ∈ g.relations ∨ x ∈ rs := by
  induction rs generalizing g with
  | nil =>
      exact ⟨rfl, fun x hx => Or.inl hx⟩
  | cons r rest ih =>
      obtain ⟨hfrom, hto⟩ := hends r List.mem_cons_self
      obtain ⟨hsame, hrelations⟩ := h.relations_addRelationship now hfrom hto
      obtain ⟨hentities, hrest⟩ := ih (h.addRelationship now r) (fun x hx => by
        rw [hsame]
        exact hends x (List.mem_cons_of_mem _ hx))
      refine ⟨hentities.trans hsame, fun x hx => ?_⟩
      rcases hrest x hx with hbefore | hlater
      · rcases hrelations x hbefore with hold | rfl
        · exact Or.inl hold
        · exact Or.inr List.mem_cons_self
      · exact Or.inr (List.mem_cons_of_mem _ hlater)

end EntityGraph
end Graph
end PostCortex
