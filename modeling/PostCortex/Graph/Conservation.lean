import Mathlib.Algebra.Group.Nat.Defs
import PostCortex.Graph.Loading
import PostCortex.Graph.Rebuilding

/-!
# What a merge keeps

`merge_entities` removes an entity, gives what was its to another one, and adds
its relations again under the other name.  Counts, mentions, times, relations and
names are followed through it; a relation of the merged entity to itself is
dropped with those between the two.
-/

namespace PostCortex
namespace Graph
namespace EntityGraph

open PostCortex.Core

/-!
# Mention lists
-/

theorem nodup_extendUnique {ids more : List Uuid} :
    (extendUnique ids more).Nodup ↔ ids.Nodup := by
  induction more using List.reverseRecOn with
  | nil =>
      rfl
  | append_singleton more last ih =>
      rw [extendUnique_snoc]
      split
      · exact ih
      · next hmem =>
        rw [← List.concat_eq_append, List.nodup_concat, ih]
        exact and_iff_right hmem

/-!
# Relations with their contexts
-/

theorem mem_edges_putEdge_iff {d : DiGraph} (h : Unique d) {source target : Nat}
    {weight : EdgeData} {e : Edge} :
    e ∈ (d.putEdge source target weight).edges ↔
      e = ⟨source, target, weight⟩ ∨
        e ∈ d.edges ∧ shape e ≠ (source, target, weight.relationType) := by
  by_cases hmem : (source, target, weight.relationType) ∈ d.edges.map shape
  · rw [putEdge_known h hmem, List.mem_map]
    constructor
    · rintro ⟨x, hx, rfl⟩
      by_cases hshape : shape x = (source, target, weight.relationType)
      · rw [if_pos hshape]
        obtain ⟨hs, hrest⟩ := Prod.mk.inj hshape
        obtain ⟨ht, -⟩ := Prod.mk.inj hrest
        rw [hs, ht]
        exact Or.inl rfl
      · rw [if_neg hshape]
        exact Or.inr ⟨hx, hshape⟩
    · rintro (rfl | ⟨he, hshape⟩)
      · obtain ⟨x, hx, hshape⟩ := List.mem_map.mp hmem
        refine ⟨x, hx, ?_⟩
        rw [if_pos hshape]
        obtain ⟨hs, hrest⟩ := Prod.mk.inj hshape
        obtain ⟨ht, -⟩ := Prod.mk.inj hrest
        rw [hs, ht]
      · exact ⟨e, he, if_neg hshape⟩
  · have hnone : d.edges.findIdx? (fun e => decide (e.source = source ∧
        e.target = target ∧ e.weight.relationType = weight.relationType)) = none := by
      refine List.findIdx?_eq_none_iff.mpr ?_
      intro x hx
      refine decide_eq_false ?_
      rintro ⟨hs, ht, hr⟩
      refine hmem (List.mem_map.mpr ⟨x, hx, ?_⟩)
      rw [shape, hs, ht, hr]
    have hedges : (d.putEdge source target weight).edges =
        ⟨source, target, weight⟩ :: d.edges := by
      unfold DiGraph.putEdge
      dsimp only
      rw [hnone]
      rfl
    rw [hedges, List.mem_cons]
    refine or_congr_right (iff_self_and.mpr ?_)
    intro he hshape
    exact hmem (hshape ▸ List.mem_map_of_mem he)

theorem Indexed.relation_of_key {g : EntityGraph} (h : Indexed g)
    (hunique : Unique g.graph) {r r' : EntityRelationship} (hr : r ∈ g.relations)
    (hr' : r' ∈ g.relations) (hkey : relationKey r = relationKey r') :
    r = r' := by
  have hkeys := h.unique_iff.mpr hunique
  rw [relationKeys] at hkeys
  exact List.inj_on_of_nodup_map hkeys hr hr' hkey

section

variable [CharTables]

variable {g : EntityGraph} {x : EntityRelationship}

theorem Indexed.mem_relations_addRelationship (h : Indexed g)
    (hunique : Unique g.graph) (now : Timestamp) {r : EntityRelationship}
    (hfrom : r.fromEntity ∈ g.entities) (hto : r.toEntity ∈ g.entities) :
    x ∈ (EntityGraph.addRelationship now g r).relations ↔
      x = r ∨ x ∈ g.relations ∧ relationKey x ≠ relationKey r := by
  obtain ⟨i, j, hi, hj, hgraph⟩ :=
    h.addRelationship_known now (resolve_stored hfrom) (resolve_stored hto)
  have hindex : forall {n : String} {k l : Nat}, g.graph.nodes[k]? = some n ->
      g.graph.nodes[l]? = some n -> k = l := by
    intro n k l hk hl
    exact (List.getElem?_inj (List.getElem?_eq_some_iff.mp hk).1 h.nodup).mp
      (hk.trans hl.symm)
  have hshape : forall e : Edge, g.relationRef e = some x ->
      (shape e = (i, j, r.relationType) ↔ relationKey x = relationKey r) := by
    intro e he
    obtain ⟨hs, ht, hweight⟩ := relationRef_some.mp he
    rw [shape, hweight, relationKey, relationKey]
    constructor
    · intro heq
      obtain ⟨hsource, hrest⟩ := Prod.mk.inj heq
      obtain ⟨htarget, htype⟩ := Prod.mk.inj hrest
      rw [hsource, hi] at hs
      rw [htarget, hj] at ht
      rw [Option.some.inj hs, Option.some.inj ht]
      exact Prod.ext rfl (Prod.ext rfl htype)
    · intro heq
      obtain ⟨hsource, hrest⟩ := Prod.mk.inj heq
      obtain ⟨htarget, htype⟩ := Prod.mk.inj hrest
      rw [hsource] at hs
      rw [htarget] at ht
      rw [hindex hs hi, hindex ht hj]
      exact Prod.ext rfl (Prod.ext rfl htype)
  rw [hgraph, if_neg (fun hspelt => hspelt.2 hspelt.1)]
  have href : forall e : Edge, EntityGraph.relationRef { g with
      graph := g.graph.putEdge i j ⟨r.relationType, r.context⟩ } e =
        g.relationRef e := by
    intro e
    unfold relationRef
    simp only [putEdge_nodes]
  simp only [mem_relations, href, mem_edges_putEdge_iff hunique]
  constructor
  · rintro ⟨e, rfl | ⟨he, hother⟩, hx⟩
    · obtain ⟨hs, ht, hweight⟩ := relationRef_some.mp hx
      obtain ⟨htype, hcontext⟩ := EdgeData.mk.inj hweight
      refine Or.inl ?_
      rw [hi] at hs
      rw [hj] at ht
      cases x
      cases hs
      cases ht
      cases htype
      cases hcontext
      rfl
    · exact Or.inr ⟨⟨e, he, hx⟩, fun hkey => hother ((hshape e hx).mpr hkey)⟩
  · rintro (rfl | ⟨⟨e, he, hx⟩, hother⟩)
    · exact ⟨_, Or.inl rfl, relationRef_some.mpr ⟨hi, hj, rfl⟩⟩
    · exact ⟨e, Or.inr ⟨he, fun hsame => hother ((hshape e hx).mp hsame)⟩, hx⟩

theorem Indexed.mem_relations_addRelationships (h : Indexed g)
    (hunique : Unique g.graph) (now : Timestamp) {rs : List EntityRelationship}
    (hends : forall r, r ∈ rs -> r.fromEntity ∈ g.entities ∧ r.toEntity ∈ g.entities)
    (hkeys : forall r r', r ∈ rs -> r' ∈ rs -> relationKey r = relationKey r' -> r = r') :
    x ∈ (rs.foldl (EntityGraph.addRelationship now) g).relations ↔
      x ∈ rs ∨ x ∈ g.relations ∧ relationKey x ∉ rs.map relationKey := by
  induction rs generalizing g with
  | nil =>
      simp
  | cons r rest ih =>
      obtain ⟨hfrom, hto⟩ := hends r List.mem_cons_self
      obtain ⟨hsame, -⟩ := h.relations_addRelationship now hfrom hto
      have hrest := ih (h.addRelationship now r)
        ((advances_addRelationship now g r).unique hunique)
        (fun y hy => by
          rw [hsame]
          exact hends y (List.mem_cons_of_mem _ hy))
        (fun y z hy hz => hkeys y z (List.mem_cons_of_mem _ hy)
          (List.mem_cons_of_mem _ hz))
      rw [List.foldl_cons, hrest, h.mem_relations_addRelationship hunique now hfrom hto,
        List.map_cons, List.mem_cons, List.mem_cons, not_or]
      constructor
      · rintro (hlater | ⟨rfl | ⟨hold, hne⟩, hnone⟩)
        · exact Or.inl (Or.inr hlater)
        · exact Or.inl (Or.inl rfl)
        · exact Or.inr ⟨hold, hne, hnone⟩
      · rintro ((rfl | hlater) | ⟨hold, hne, hnone⟩)
        · by_cases hmem : relationKey x ∈ rest.map relationKey
          · obtain ⟨y, hy, hkey⟩ := List.mem_map.mp hmem
            have heq := hkeys y x (List.mem_cons_of_mem _ hy) List.mem_cons_self hkey
            exact Or.inl (heq ▸ hy)
          · exact Or.inr ⟨Or.inl rfl, hmem⟩
        · exact Or.inl hlater
        · exact Or.inr ⟨Or.inr ⟨hold, hne⟩, hnone⟩

end

section

/-!
# Moved relations
-/

def moved (g : EntityGraph) (gone into : String) : List EntityRelationship :=
  (g.relationshipsOf gone).filterMap (redirect gone into)

variable {gone into : String} {r r' : EntityRelationship}

theorem redirect_eq :
    redirect gone into r = some r' ↔
      standing gone into r.fromEntity ≠ standing gone into r.toEntity ∧
        r' = ⟨standing gone into r.fromEntity, standing gone into r.toEntity,
          r.relationType, r.context⟩ := by
  change (if standing gone into r.fromEntity = standing gone into r.toEntity then none
    else some _) = some r' ↔ _
  by_cases hloop : standing gone into r.fromEntity = standing gone into r.toEntity
  · rw [if_pos hloop]
    constructor
    · intro hnone
      cases hnone
    · exact fun hboth => absurd hloop hboth.1
  · rw [if_neg hloop, Option.some.injEq]
    constructor
    · rintro rfl
      exact ⟨hloop, rfl⟩
    · rintro ⟨-, rfl⟩
      rfl

variable {g : EntityGraph}

theorem Indexed.mem_moved (h : Indexed g) :
    r' ∈ g.moved gone into ↔ exists r, r ∈ g.relations ∧
      (r.fromEntity = gone ∨ r.toEntity = gone) ∧
      standing gone into r.fromEntity ≠ standing gone into r.toEntity ∧
      r' = ⟨standing gone into r.fromEntity, standing gone into r.toEntity,
        r.relationType, r.context⟩ := by
  rw [moved, List.mem_filterMap]
  simp only [h.mem_relationshipsOf, redirect_eq, and_assoc]

theorem standing_ends {a b a' b' : String} (hend : a = gone ∨ b = gone)
    (hend' : a' = gone ∨ b' = gone)
    (hne : standing gone into a ≠ standing gone into b)
    (ha : standing gone into a = standing gone into a')
    (hb : standing gone into b = standing gone into b') :
    a = a' ∧ b = b' := by
  have hself : standing gone into gone = into := if_pos rfl
  have hother : forall n, n ≠ gone -> standing gone into n = n := fun _ hn => if_neg hn
  rcases hend with rfl | rfl
  · rw [hself] at hne ha
    have hb' : b' ≠ a := by
      rintro rfl
      exact hne (hself.symm.trans hb.symm)
    have hbMoved : b ≠ a := by
      rintro rfl
      exact hne hself.symm
    rw [hother b hbMoved, hother b' hb'] at hb
    exact ⟨(hend'.resolve_right hb').symm, hb⟩
  · rw [hself] at hne hb
    have ha' : a' ≠ b := by
      rintro rfl
      exact hne (ha.trans hself)
    have haMoved : a ≠ b := by
      rintro rfl
      exact hne hself
    rw [hother a haMoved, hother a' ha'] at ha
    exact ⟨ha, (hend'.resolve_left ha').symm⟩

theorem Indexed.moved_of_key (h : Indexed g) (hunique : Unique g.graph)
    (hr : r ∈ g.moved gone into) (hr' : r' ∈ g.moved gone into)
    (hkey : relationKey r = relationKey r') :
    r = r' := by
  obtain ⟨x, hx, hend, hne, rfl⟩ := h.mem_moved.mp hr
  obtain ⟨y, hy, hend', -, rfl⟩ := h.mem_moved.mp hr'
  obtain ⟨hfrom, hrest⟩ := Prod.mk.inj hkey
  obtain ⟨hto, htype⟩ := Prod.mk.inj hrest
  obtain ⟨hsource, htarget⟩ := standing_ends hend hend' hne hfrom hto
  have hsame : x = y := h.relation_of_key hunique hx hy
    (Prod.ext hsource (Prod.ext htarget htype))
  rw [hsame]

variable [CharTables]

/-!
# The merged graph
-/

/-- What coherence asks of a graph: names lead to their entities, the maps are those of
the nodes, and a triple has one edge. -/
structure Consistent (g : EntityGraph) : Prop where
  resolving : Resolving g
  indexed : Indexed g
  unique : Unique g.graph

theorem absorbed_mentionIds (hne : gone ≠ into) (goneData : EntityData) {node : Nat}
    (hnode : g.entityToNode gone = some node) (e : String) :
    (g.absorbed gone into goneData).mentionIds e =
      if e = into then extendUnique (g.mentionIds into) (g.mentionIds gone)
      else if e = gone then [] else g.mentionIds e := by
  have hremoved : forall n, (g.removeEntity gone).1.mentionIds n =
      if n = gone then [] else g.mentionIds n := by
    intro n
    simp only [EntityGraph.removeEntity, hnode, mentionIds,
      Std.ExtTreeMap.getElem?_erase, Std.compare_eq_iff_eq]
    by_cases hn : n = gone
    · rw [if_pos hn.symm, if_pos hn]
      rfl
    · rw [if_neg (fun heq => hn heq.symm), if_neg hn]
  have hinto : (g.removeEntity gone).1.mentionIds into = g.mentionIds into := by
    rw [hremoved, if_neg (Ne.symm hne)]
  unfold EntityGraph.absorbed
  by_cases hnone : g.mentionIds gone = []
  · have hsame : extendUnique (g.mentionIds into) (g.mentionIds gone) =
        g.mentionIds into := by
      rw [hnone]
      rfl
    rw [mentionIds] at hnone
    rw [hsame, mentionIds]
    dsimp only
    rw [if_pos hnone, ← mentionIds, hremoved]
    by_cases he : e = into
    · rw [if_pos he, he, if_neg (Ne.symm hne)]
    · rw [if_neg he]
  · have hsome := hnone
    rw [mentionIds] at hnone
    rw [mentionIds]
    dsimp only
    rw [if_neg hnone, Std.ExtTreeMap.getElem?_insert]
    by_cases he : e = into
    · rw [if_pos (Std.compare_eq_iff_eq.mpr he.symm), if_pos he, Option.getD_some,
        ← mentionIds, hinto]
      rfl
    · rw [if_neg (fun heq => he (Std.compare_eq_iff_eq.mp heq).symm), if_neg he,
        ← mentionIds, hremoved]

/-- The graph after a merge, by what it keeps of its entities, names and mentions. -/
structure Merges (g : EntityGraph) (gone into : String) (goneData intoData : EntityData)
    (g' : EntityGraph) : Prop where
  resolving : Resolving g'
  entities : forall e, g'.entities[e]? =
    if e = into then some (absorb intoData goneData)
    else if e = gone then none else g.entities[e]?
  index : forall k e, g'.aliasIndex k = some e ↔
    g.aliasIndex k = some e ∧ e ≠ gone ∨ e = into ∧ g.HasKey gone k
  mentions : forall e, g'.mentionIds e =
    if e = into then extendUnique (g.mentionIds into) (g.mentionIds gone)
    else if e = gone then [] else g.mentionIds e
  relations : forall r, r ∈ g'.relations ↔ r ∈ g.moved gone into ∨
    r ∈ g.relations ∧ r.fromEntity ≠ gone ∧ r.toEntity ≠ gone ∧
      relationKey r ∉ (g.moved gone into).map relationKey
  unique : g'.relationKeys.Nodup

theorem Consistent.merges (h : Consistent g) (hne : gone ≠ into)
    {goneData intoData : EntityData} (hgone : g.entities[gone]? = some goneData)
    (hinto : g.entities[into]? = some intoData) (now : Timestamp) :
    Merges g gone into goneData intoData (g.mergeResolved now gone into goneData) := by
  have hgoneMem := mem_entities.mpr ⟨goneData, hgone⟩
  have hintoMem := mem_entities.mpr ⟨intoData, hinto⟩
  obtain ⟨node, hnode, -⟩ := h.indexed.node hgoneMem
  have habsorbed : Indexed (g.absorbed gone into goneData) := h.indexed.absorbed goneData
  have hunique : Unique (g.absorbed gone into goneData).graph :=
    removeEntity_unique h.unique gone
  have hends : forall r, r ∈ g.moved gone into ->
      r.fromEntity ∈ (g.absorbed gone into goneData).entities ∧
        r.toEntity ∈ (g.absorbed gone into goneData).entities :=
    fun r hr => h.indexed.redirected_known hne goneData hintoMem hr
  obtain ⟨edges, hgraph, -⟩ :=
    h.resolving.mergeResolved_parts h.indexed hne hgone hinto now
  refine ⟨?_, ?_, ?_, ?_, ?_, ?_⟩
  · exact mergeResolved_resolving h.resolving.toNoded
      (h.resolving.agrees.mergeable gone into) hne hgone hinto now
  · intro e
    rw [hgraph]
    dsimp only
    rw [(absorbed_parts hne goneData hnode hinto).1, Std.ExtTreeMap.getElem?_insert,
      Std.ExtTreeMap.getElem?_erase]
    by_cases he : e = into
    · rw [if_pos (Std.compare_eq_iff_eq.mpr he.symm), if_pos he]
    · rw [if_neg (fun heq => he (Std.compare_eq_iff_eq.mp heq).symm), if_neg he]
      by_cases hself : e = gone
      · rw [if_pos (Std.compare_eq_iff_eq.mpr hself.symm), if_pos hself]
      · rw [if_neg (fun heq => hself (Std.compare_eq_iff_eq.mp heq).symm),
          if_neg hself]
  · intro k e
    rw [hgraph]
    exact h.resolving.absorbed_index_some hne hgone hinto
  · intro e
    rw [hgraph]
    exact absorbed_mentionIds hne goneData hnode e
  · intro r
    have hleft : (g.absorbed gone into goneData).relations =
        (g.removeEntity gone).1.relations := rfl
    rw [mergeResolved_eq]
    have hmem := habsorbed.mem_relations_addRelationships hunique now hends
      (fun r r' hr hr' hkey => h.indexed.moved_of_key h.unique hr hr' hkey) (x := r)
    rw [hleft, h.indexed.mem_relations_removeEntity hgoneMem] at hmem
    simp only [and_assoc] at hmem
    exact hmem
  · have hindexed : Indexed (g.mergeResolved now gone into goneData) :=
      h.indexed.mergeResolved goneData now
    refine hindexed.unique_iff.mpr ?_
    exact (advances_addRelationships now _ _).unique hunique

/-!
# Conservation
-/

/-- `mention_count` is a u32: what of a count it holds. -/
def storedCount (data : EntityData) : Nat :=
  data.mentionCount % 2 ^ 32

def renamed (gone into : String) (r : EntityRelationship) : EntityRelationship :=
  { r with
    fromEntity := standing gone into r.fromEntity
    toEntity := standing gone into r.toEntity }

/-- One entity is folded into another, and nothing else is lost or changed. -/
structure Conserves (g : EntityGraph) (gone into : String) (g' : EntityGraph) :
    Prop where
  absent : gone ∉ g'.entities
  entity : forall goneData intoData, g.entities[gone]? = some goneData ->
    g.entities[into]? = some intoData ->
    exists d, g'.entities[into]? = some d ∧
      storedCount d = storedCount intoData + storedCount goneData ∧
      d.firstMentioned = min intoData.firstMentioned goneData.firstMentioned ∧
      d.lastMentioned = max intoData.lastMentioned goneData.lastMentioned
  mentions : (g'.mentionIds into).Nodup ∧ forall id, id ∈ g'.mentionIds into ↔
    id ∈ g.mentionIds into ∨ id ∈ g.mentionIds gone
  triples : forall e f t, g'.Relates e f t ↔ exists e' f', g.Relates e' f' t ∧
    ¬ (e' = gone ∧ f' = into) ∧ ¬ (e' = into ∧ f' = gone) ∧
    e = standing gone into e' ∧ f = standing gone into f'
  unique : g'.relationKeys.Nodup
  resolve : forall n, g'.resolve n = (g.resolve n).map (standing gone into)
  others : forall e, e ≠ gone -> e ≠ into ->
    g'.entities[e]? = g.entities[e]? ∧ g'.mentionIds e = g.mentionIds e
  contexts : forall r, r.fromEntity ≠ gone -> r.toEntity ≠ gone ->
    (forall x, x ∈ g.relations -> x.fromEntity = gone ∨ x.toEntity = gone ->
      relationKey (renamed gone into x) ≠ relationKey r) ->
    (r ∈ g'.relations ↔ r ∈ g.relations)

/-- The counts fit together, the surviving entity has the relations to itself that the
merged one has and no mention twice, and only keys of its names lead to the merged
one. -/
structure Conservable (g : EntityGraph) (gone into : String) : Prop where
  counts : forall goneData intoData, g.entities[gone]? = some goneData ->
    g.entities[into]? = some intoData ->
    storedCount intoData + storedCount goneData < 2 ^ 32
  loops : forall t, g.Relates gone gone t -> g.Relates into into t
  mentions : (g.mentionIds into).Nodup
  named : forall n, g.resolve n = some gone -> g.HasKey gone (entityKey n)

omit [CharTables] in
theorem stampOf_absorb (target gone : EntityData) :
    stampOf (absorb target gone) =
      ⟨min target.firstMentioned gone.firstMentioned,
        max target.lastMentioned gone.lastMentioned,
        target.mentionCount + gone.mentionCount⟩ := by
  have hfold : forall (more : List String) (d : EntityData),
      stampOf (more.foldl withAlias d) = stampOf d := by
    intro more
    induction more with
    | nil =>
        exact fun _ => rfl
    | cons n rest ih =>
        intro d
        rw [List.foldl_cons, ih, stampOf_withAlias]
  unfold absorb
  exact hfold _ _

section

variable {g g' : EntityGraph} {gone into : String} {goneData intoData : EntityData}

omit [CharTables] in
theorem standing_gone : standing gone into gone = into :=
  if_pos rfl

variable {e : String}

omit [CharTables] in
theorem standing_other (he : e ≠ gone) : standing gone into e = e :=
  if_neg he

/-- The triples after a merge: those of other entities, and the renamed ones that are no
loops. -/
theorem Merges.relates_iff (h : Merges g gone into goneData intoData g')
    (hg : Indexed g) {f : String} {t : RelationType} :
    g'.Relates e f t ↔ (g.Relates e f t ∧ e ≠ gone ∧ f ≠ gone) ∨
      exists e' f', g.Relates e' f' t ∧ (e' = gone ∨ f' = gone) ∧ e ≠ f ∧
        e = standing gone into e' ∧ f = standing gone into f' := by
  have hmoved : (exists r, r ∈ g.moved gone into ∧ relationKey r = (e, f, t)) ↔
      exists e' f', g.Relates e' f' t ∧ (e' = gone ∨ f' = gone) ∧ e ≠ f ∧
        e = standing gone into e' ∧ f = standing gone into f' := by
    constructor
    · rintro ⟨r, hr, hkey⟩
      obtain ⟨x, hx, hend, hne, rfl⟩ := hg.mem_moved.mp hr
      obtain ⟨rfl, hrest⟩ := Prod.mk.inj hkey
      obtain ⟨rfl, rfl⟩ := Prod.mk.inj hrest
      exact ⟨_, _, EntityGraph.relates_iff.mpr ⟨x, hx, rfl⟩, hend, hne, rfl, rfl⟩
    · rintro ⟨e', f', hrel, hend, hne, rfl, rfl⟩
      obtain ⟨x, hx, hkey⟩ := EntityGraph.relates_iff.mp hrel
      obtain ⟨rfl, hrest⟩ := Prod.mk.inj hkey
      obtain ⟨rfl, rfl⟩ := Prod.mk.inj hrest
      exact ⟨_, hg.mem_moved.mpr ⟨x, hx, hend, hne, rfl⟩, rfl⟩
  rw [EntityGraph.relates_iff, ← hmoved]
  simp only [h.relations]
  constructor
  · rintro ⟨r, hr | ⟨hr, hfrom, hto, -⟩, hkey⟩
    · exact Or.inr ⟨r, hr, hkey⟩
    · refine Or.inl ⟨EntityGraph.relates_iff.mpr ⟨r, hr, hkey⟩, ?_, ?_⟩
      · rintro rfl
        exact hfrom (congrArg (fun k => k.1) hkey)
      · rintro rfl
        exact hto (congrArg (fun k => k.2.1) hkey)
  · rintro (⟨hrel, he, hf⟩ | ⟨r, hr, hkey⟩)
    · obtain ⟨r, hr, hkey⟩ := EntityGraph.relates_iff.mp hrel
      by_cases hmem : relationKey r ∈ (g.moved gone into).map relationKey
      · obtain ⟨x, hx, hsame⟩ := List.mem_map.mp hmem
        exact ⟨x, Or.inl hx, hsame.trans hkey⟩
      · refine ⟨r, Or.inr ⟨hr, ?_, ?_, hmem⟩, hkey⟩
        · rintro rfl
          exact he (congrArg (fun k => k.1) hkey).symm
        · rintro rfl
          exact hf (congrArg (fun k => k.2.1) hkey).symm
    · exact ⟨r, Or.inl hr, hkey⟩

theorem Merges.resolve_some (h : Merges g gone into goneData intoData g')
    (hg : Resolving g) {n : String} :
    g'.resolve n = some e ↔
      g.resolve n = some e ∧ e ≠ gone ∨ e = into ∧ g.HasKey gone (entityKey n) := by
  rw [h.resolving.resolve_eq, hg.resolve_eq]
  exact h.index (entityKey n) e

theorem Merges.entity_into (h : Merges g gone into goneData intoData g') :
    g'.entities[into]? = some (absorb intoData goneData) := by
  rw [h.entities, if_pos rfl]

theorem Merges.conserves (h : Merges g gone into goneData intoData g')
    (hg : Consistent g) (hne : gone ≠ into)
    (hgone : g.entities[gone]? = some goneData)
    (hinto : g.entities[into]? = some intoData) (hcond : Conservable g gone into) :
    Conserves g gone into g' where
  absent := by
    intro hmem
    obtain ⟨d, hd⟩ := mem_entities.mp hmem
    rw [h.entities, if_neg hne, if_pos rfl] at hd
    cases hd
  entity := by
    intro a b ha hb
    cases hgone.symm.trans ha
    cases hinto.symm.trans hb
    have hstamp := stampOf_absorb intoData goneData
    have hfits := hcond.counts goneData intoData hgone hinto
    have hcount : (absorb intoData goneData).mentionCount = _ :=
      congrArg Stamp.count hstamp
    refine ⟨absorb intoData goneData, h.entity_into, ?_, congrArg Stamp.first hstamp,
      congrArg Stamp.last hstamp⟩
    unfold storedCount at hfits ⊢
    rw [hcount]
    dsimp only
    rw [Nat.add_mod]
    exact Nat.mod_eq_of_lt hfits
  mentions := by
    rw [h.mentions, if_pos rfl]
    exact ⟨nodup_extendUnique.mpr hcond.mentions, fun _ => mem_extendUnique⟩
  triples := by
    intro e f t
    rw [h.relates_iff hg.indexed]
    constructor
    · rintro (⟨hrel, he, hf⟩ | ⟨e', f', hrel, hend, hloop, rfl, rfl⟩)
      · exact ⟨e, f, hrel, fun hboth => he hboth.1, fun hboth => hf hboth.2,
          (standing_other he).symm, (standing_other hf).symm⟩
      · refine ⟨e', f', hrel, ?_, ?_, rfl, rfl⟩
        · rintro ⟨rfl, rfl⟩
          exact hloop (standing_gone.trans (standing_other hne.symm).symm)
        · rintro ⟨rfl, rfl⟩
          exact hloop ((standing_other hne.symm).trans standing_gone.symm)
    · rintro ⟨e', f', hrel, hout, hin, rfl, rfl⟩
      by_cases hend : e' = gone ∨ f' = gone
      · by_cases hloop : standing gone into e' = standing gone into f'
        · have hboth : e' = gone ∧ f' = gone := by
            rcases hend with rfl | rfl
            · refine ⟨rfl, ?_⟩
              by_contra hf
              rw [standing_gone, standing_other hf] at hloop
              exact hout ⟨rfl, hloop.symm⟩
            · refine ⟨?_, rfl⟩
              by_contra he
              rw [standing_gone, standing_other he] at hloop
              exact hin ⟨hloop, rfl⟩
          obtain ⟨rfl, rfl⟩ := hboth
          rw [standing_gone]
          exact Or.inl ⟨hcond.loops t hrel, hne.symm, hne.symm⟩
        · exact Or.inr ⟨e', f', hrel, hend, hloop, rfl, rfl⟩
      · rw [not_or] at hend
        rw [standing_other hend.1, standing_other hend.2]
        exact Or.inl ⟨hrel, hend⟩
  unique := h.unique
  resolve := by
    intro n
    apply Option.ext
    intro e
    rw [h.resolve_some hg.resolving, Option.map_eq_some_iff]
    constructor
    · rintro (⟨hold, hother⟩ | ⟨rfl, m, hm, hkey⟩)
      · exact ⟨e, hold, standing_other hother⟩
      · refine ⟨gone, ?_, standing_gone⟩
        rw [hg.resolving.resolve_eq, ← hkey]
        exact hg.resolving.agrees.indexed gone m hm
    · rintro ⟨old, hold, rfl⟩
      by_cases hself : old = gone
      · subst hself
        exact Or.inr ⟨standing_gone, hcond.named n hold⟩
      · rw [standing_other hself]
        exact Or.inl ⟨hold, hself⟩
  others := by
    intro e he hother
    rw [h.entities, h.mentions, if_neg hother, if_neg he, if_neg hother, if_neg he]
    exact ⟨rfl, rfl⟩
  contexts := by
    intro r hfrom hto hapart
    have hnone : relationKey r ∉ (g.moved gone into).map relationKey := by
      intro hmem
      obtain ⟨m, hm, hkey⟩ := List.mem_map.mp hmem
      obtain ⟨x, hx, hend, -, rfl⟩ := hg.indexed.mem_moved.mp hm
      exact hapart x hx hend hkey
    rw [h.relations]
    constructor
    · rintro (hmoved | ⟨hr, -⟩)
      · exact absurd (List.mem_map_of_mem hmoved) hnone
      · exact hr
    · exact fun hr => Or.inr ⟨hr, hfrom, hto, hnone⟩

theorem Merges.conservable (h : Merges g gone into goneData intoData g')
    (hg : Consistent g) (hne : gone ≠ into)
    (hgone : g.entities[gone]? = some goneData)
    (hinto : g.entities[into]? = some intoData) (hkept : Conserves g gone into g') :
    Conservable g gone into where
  counts := by
    intro a b ha hb
    cases hgone.symm.trans ha
    cases hinto.symm.trans hb
    obtain ⟨d, hd, hcount, -⟩ := hkept.entity goneData intoData hgone hinto
    rw [← hcount]
    exact Nat.mod_lt _ (by decide)
  loops := by
    intro t hrel
    have hmoved := (hkept.triples into into t).mpr ⟨gone, gone, hrel,
      fun hboth => hne hboth.2, fun hboth => hne hboth.1, standing_gone.symm,
      standing_gone.symm⟩
    rcases (h.relates_iff hg.indexed).mp hmoved with ⟨hold, -⟩ | ⟨-, -, -, -, hloop, -⟩
    · exact hold
    · exact absurd rfl hloop
  mentions := by
    have hlist := hkept.mentions.1
    rw [h.mentions, if_pos rfl] at hlist
    exact nodup_extendUnique.mp hlist
  named := by
    intro n hn
    have hlead := hkept.resolve n
    rw [hn, Option.map_some, standing_gone] at hlead
    rcases (h.resolve_some hg.resolving).mp hlead with ⟨hold, -⟩ | ⟨-, hkey⟩
    · rw [hn] at hold
      exact absurd (Option.some.inj hold) hne
    · exact hkey

end

/-- `merge_entities` conserves what is known of two entities of a coherent graph exactly
when their counts fit a u32, the merged entity has no relation to itself that the other
one does not have, the other one lists no mention twice, and each name that leads to the
merged entity has the key of one of its names. -/
theorem merge_conserves_iff {g : EntityGraph} (h : Consistent g)
    {written target gone into : String} (hgone : g.resolve written = some gone)
    (hinto : g.resolve target = some into) (hne : gone ≠ into) (now : Timestamp) :
    Conserves g gone into (g.mergeEntities now written target).1 ↔
      Conservable g gone into := by
  obtain ⟨goneData, hgoneData⟩ := h.resolving.known hgone
  obtain ⟨intoData, hintoData⟩ := h.resolving.known hinto
  have hmerge : (g.mergeEntities now written target).1 =
      g.mergeResolved now gone into goneData :=
    congrArg Prod.fst (mergeEntities_eq hgone hinto hne hgoneData now)
  have hmerged := h.merges hne hgoneData hintoData now
  rw [hmerge]
  constructor
  · exact hmerged.conservable h hne hgoneData hintoData
  · exact hmerged.conserves h hne hgoneData hintoData

end

section

attribute [local instance] asciiTables

/-- Two entities with relations to a third. -/
theorem merge_conserves_iff_linked :
    linkedGraph.resolve "Cache" = some "cache" ∧
    Conserves linkedGraph "cache" "redis"
      (linkedGraph.mergeEntities 2 "Cache" "redis").1 := by
  have hgone : linkedGraph.resolve "Cache" = some "cache" := by decide +kernel
  have hinto : linkedGraph.resolve "redis" = some "redis" := by decide +kernel
  have hconsistent : Consistent linkedGraph :=
    ⟨(resolving_new.addRelationship 0 _).addRelationship 1 _,
      linkedGraph_reached.indexed, linkedGraph_reached.unique⟩
  have hexact : Exact linkedGraph :=
    ((extends_addRelationship 0 new _).trans (extends_addRelationship 1 _ _)).exact
      restorable_new.exact
  refine ⟨hgone, (merge_conserves_iff hconsistent hgone hinto (by decide) 2).mpr
    ⟨?_, ?_, ?_, ?_⟩⟩
  · intro goneData intoData hgoneData hintoData
    have hone : (linkedGraph.entities["cache"]?).map storedCount = some 1 := by
      decide +kernel
    have hother : (linkedGraph.entities["redis"]?).map storedCount = some 1 := by
      decide +kernel
    rw [hgoneData] at hone
    rw [hintoData] at hother
    rw [Option.some.inj hone, Option.some.inj hother]
    decide
  · intro t hloop
    have hkeys : linkedGraph.relationKeys =
        [("redis", "kafka", RelationType.relatedTo),
          ("cache", "kafka", RelationType.dependsOn)] := by
      decide +kernel
    rw [← mem_relationKeys, hkeys] at hloop
    simp at hloop
  · have hnone : linkedGraph.mentionIds "redis" = [] := by decide +kernel
    rw [hnone]
    exact List.nodup_nil
  · intro n hn
    rw [hconsistent.resolving.resolve_eq] at hn
    exact hexact "cache" _ hn

/-- The relation of an entity to itself is lost when it is merged into another one. -/
theorem merge_drops_own_relation :
    ¬ forall (g : EntityGraph) (written target gone into : String) (now : Timestamp),
      Consistent g -> g.resolve written = some gone -> g.resolve target = some into ->
      gone ≠ into -> Conserves g gone into (g.mergeEntities now written target).1 := by
  intro hall
  have hreached : Reached (new.applyUpdate 0 replication) :=
    Reached.new.step 0 (RelationOp.applyUpdate replication)
  have hkept := hall (new.applyUpdate 0 replication) "redis" "cache" "redis" "cache" 1
    ⟨resolving_new.applyUpdate 0 replication, hreached.indexed, hreached.unique⟩
    (by decide +kernel) (by decide +kernel) (by decide)
  have hrel : (new.applyUpdate 0 replication).Relates "redis" "redis"
      RelationType.dependsOn := by
    rw [← mem_relationKeys]
    decide +kernel
  have hlost : ((new.applyUpdate 0 replication).mergeEntities 1 "redis"
      "cache").1.relationKeys = [] := by
    decide +kernel
  have hmoved := (hkept.triples "cache" "cache" RelationType.dependsOn).mpr
    ⟨"redis", "redis", hrel, by decide, by decide, rfl, rfl⟩
  rw [← mem_relationKeys, hlost] at hmoved
  cases hmoved

end

end EntityGraph
end Graph
end PostCortex
