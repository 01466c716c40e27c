import PostCortex.Graph.Counts
import PostCortex.Graph.MergeOrder
import PostCortex.Graph.Relations
import PostCortex.Naming.KeyMerges

/-!
# Rebuilt graphs

A graph made of updates, on which a list of merges is then repeated: where its
names lead, and which update each of its entities, mentions and relations comes
from.
-/

namespace PostCortex
namespace Graph
namespace EntityGraph

open PostCortex.Core
open Naming

section

variable [CharTables]

/-!
# Merging and the alias index
-/

variable {g : EntityGraph} {gone into e : String} {goneData intoData : EntityData}

/-- The keys of the merged entity's names lead to the other one, its other keys
nowhere. -/
theorem Resolving.absorbed_index_some (h : Resolving g) (hne : gone ≠ into)
    (hgone : g.entities[gone]? = some goneData)
    (hinto : g.entities[into]? = some intoData) {k : String} :
    (g.absorbed gone into goneData).aliasIndex k = some e ↔
      g.aliasIndex k = some e ∧ e ≠ gone ∨ e = into ∧ g.HasKey gone k := by
  obtain ⟨node, hnode⟩ := Option.ne_none_iff_exists'.mp (h.noded gone goneData hgone)
  have hnamed : forall {e : String} {d : EntityData} {n : String},
      g.entities[e]? = some d -> n ∈ names d -> g.aliasIndex (entityKey n) = some e :=
    fun hd hn => h.agrees.indexed _ _ ⟨_, hd, hn⟩
  rw [(absorbed_parts hne goneData hnode hinto).2, assignKeys_apply]
  by_cases hmem : k ∈ (names (absorb intoData goneData)).map entityKey
  · rw [if_pos hmem, Option.some.injEq]
    obtain ⟨n, hn, rfl⟩ := List.mem_map.mp hmem
    rcases (names_absorb ..).mp hn with htheirs | hours
    · have hlead := hnamed hinto htheirs
      constructor
      · rintro rfl
        exact Or.inl ⟨hlead, hne.symm⟩
      · rintro (⟨hold, -⟩ | ⟨rfl, -⟩)
        · exact Option.some.inj (hlead.symm.trans hold)
        · rfl
    · constructor
      · rintro rfl
        exact Or.inr ⟨rfl, n, ⟨goneData, hgone, hours⟩, rfl⟩
      · rintro (⟨hold, hother⟩ | ⟨rfl, -⟩)
        · rw [hnamed hgone hours] at hold
          exact absurd (Option.some.inj hold).symm hother
        · rfl
  · rw [if_neg hmem, release_apply]
    constructor
    · exact Or.inl
    · rintro (hold | ⟨-, n, ⟨d, hd, hn⟩, rfl⟩)
      · exact hold
      · rw [hgone] at hd
        cases hd
        exact absurd (List.mem_map_of_mem ((names_absorb ..).mpr (Or.inr hn))) hmem

theorem Restorable.absorbed_index (h : Restorable g) (hne : gone ≠ into)
    (hgone : g.entities[gone]? = some goneData)
    (hinto : g.entities[into]? = some intoData) (k : String) :
    (g.absorbed gone into goneData).aliasIndex k =
      if g.aliasIndex k = some gone then some into else g.aliasIndex k := by
  apply Option.ext
  intro e
  rw [h.resolving.absorbed_index_some hne hgone hinto]
  by_cases hlead : g.aliasIndex k = some gone
  · rw [if_pos hlead, hlead, Option.some.injEq, Option.some.injEq]
    constructor
    · rintro (⟨rfl, hother⟩ | ⟨rfl, -⟩)
      · exact absurd rfl hother
      · rfl
    · rintro rfl
      exact Or.inr ⟨rfl, h.exact gone k hlead⟩
  · rw [if_neg hlead]
    constructor
    · rintro (⟨hold, -⟩ | ⟨-, n, hn, rfl⟩)
      · exact hold
      · exact absurd (h.resolving.agrees.indexed gone n hn) hlead
    · intro hold
      refine Or.inl ⟨hold, ?_⟩
      rintro rfl
      exact hlead hold

def standing (gone into e : String) : String :=
  if e = gone then into else e

variable {r : EntityRelationship}

omit [CharTables] in
/-- A redirected relation is one of the merged entity, between what stands for its
ends. -/
theorem redirect_some {r' : EntityRelationship} (h : redirect gone into r = some r') :
    r'.fromEntity = standing gone into r.fromEntity ∧
      r'.toEntity = standing gone into r.toEntity ∧
      r'.relationType = r.relationType := by
  change (if standing gone into r.fromEntity = standing gone into r.toEntity then none
    else some _) = some r' at h
  by_cases hloop : standing gone into r.fromEntity = standing gone into r.toEntity
  · rw [if_pos hloop] at h
    cases h
  · rw [if_neg hloop] at h
    cases h
    exact ⟨rfl, rfl, rfl⟩

theorem Resolving.absorbed_found (h : Resolving g) (hindexed : Indexed g)
    (hne : gone ≠ into) (hgone : g.entities[gone]? = some goneData)
    (hinto : g.entities[into]? = some intoData) :
    Found (g.absorbed gone into goneData) := by
  have hresolving := absorbed_resolving h.toNoded (h.agrees.mergeable gone into) hne
    hgone hinto
  exact hresolving.found (hindexed.absorbed goneData)

theorem Indexed.redirected_known (h : Indexed g) (hne : gone ≠ into)
    (goneData : EntityData) (hinto : into ∈ g.entities)
    (hr : r ∈ (g.relationshipsOf gone).filterMap (redirect gone into)) :
    r.fromEntity ∈ (g.absorbed gone into goneData).entities ∧
      r.toEntity ∈ (g.absorbed gone into goneData).entities := by
  obtain ⟨old, hold, hredirect⟩ := List.mem_filterMap.mp hr
  obtain ⟨hfrom, hto, -⟩ := redirect_some hredirect
  obtain ⟨hfromKnown, htoKnown⟩ := h.relates_mem (h.relates_of_listed hold)
  have hstanding : forall e, e ∈ g.entities ->
      standing gone into e ∈ (g.absorbed gone into goneData).entities := by
    intro e he
    refine mem_absorbed goneData ?_
    unfold standing
    split
    · exact removeEntity_mem hinto (Ne.symm hne)
    · next hother => exact removeEntity_mem he hother
  rw [hfrom, hto]
  exact ⟨hstanding _ hfromKnown, hstanding _ htoKnown⟩

/-- The relations after a merge: those between other entities, and those of the
merged one between what stands for their ends. -/
theorem Resolving.mergeResolved_parts (h : Resolving g) (hindexed : Indexed g)
    (hne : gone ≠ into) (hgone : g.entities[gone]? = some goneData)
    (hinto : g.entities[into]? = some intoData) (now : Timestamp) :
    exists edges,
      g.mergeResolved now gone into goneData =
        { g.absorbed gone into goneData with
          graph := { (g.absorbed gone into goneData).graph with edges := edges } } ∧
      forall e f t, (g.mergeResolved now gone into goneData).Relates e f t ->
        (g.removeEntity gone).1.Relates e f t ∨
          exists r, r ∈ g.relationshipsOf gone ∧ r.relationType = t ∧
            e = standing gone into r.fromEntity ∧
            f = standing gone into r.toEntity := by
  have hfound := h.absorbed_found hindexed hne hgone hinto
  have hknown : forall r, r ∈ (g.relationshipsOf gone).filterMap
      (redirect gone into) -> _ :=
    fun r hr => hindexed.redirected_known hne goneData (mem_entities.mpr ⟨_, hinto⟩) hr
  have hends : forall r, r ∈ (g.relationshipsOf gone).filterMap
      (redirect gone into) ->
      (exists c, (g.absorbed gone into goneData).aliasIndex
        (entityKey r.fromEntity) = some c) ∧
      exists c, (g.absorbed gone into goneData).aliasIndex
        (entityKey r.toEntity) = some c := by
    intro r hr
    obtain ⟨hfrom, hto⟩ := hknown r hr
    exact ⟨⟨_, hfound.self _ hfrom⟩, _, hfound.self _ hto⟩
  obtain ⟨edges, hgraph, hrelates⟩ := hfound.addRelationships now hends
  refine ⟨edges, hgraph, ?_⟩
  intro e f t hrel
  rcases (hrelates e f t).mp hrel with hold | ⟨r, hr, hlead, hlead', htype, -⟩
  · exact Or.inl hold
  · obtain ⟨hfrom, hto⟩ := hknown r hr
    rw [hfound.self _ hfrom] at hlead
    rw [hfound.self _ hto] at hlead'
    obtain ⟨old, hold, hredirect⟩ := List.mem_filterMap.mp hr
    obtain ⟨hsource, htarget, hsame⟩ := redirect_some hredirect
    refine Or.inr ⟨old, hold, hsame.symm.trans htype, ?_, ?_⟩
    · rw [← hsource]
      exact (Option.some.inj hlead).symm
    · rw [← htarget]
      exact (Option.some.inj hlead').symm

theorem mergeEntities_index (h : Restorable g) (now : Timestamp)
    (written target : String) :
    (g.mergeEntities now written target).1.aliasIndex =
      mergeKeys g.aliasIndex (entityKey written, entityKey target) := by
  unfold EntityGraph.mergeEntities mergeKeys
  rw [h.resolving.resolve_eq, h.resolving.resolve_eq]
  dsimp only
  cases hgone : g.aliasIndex (entityKey written) with
  | none => rfl
  | some gone =>
      cases hinto : g.aliasIndex (entityKey target) with
      | none => rfl
      | some into =>
          dsimp only
          rw [← h.resolving.resolve_eq] at hgone hinto
          by_cases hsame : gone = into
          · rw [if_pos hsame]
            funext k
            split
            · next hk => rw [hk, hsame]
            · rfl
          · obtain ⟨goneData, hgoneData⟩ := h.resolving.known hgone
            obtain ⟨intoData, hintoData⟩ := h.resolving.known hinto
            rw [if_neg hsame, hgoneData]
            obtain ⟨edges, hgraph, -⟩ :=
              h.resolving.mergeResolved_parts h.indexed hsame hgoneData hintoData now
            dsimp only
            rw [hgraph]
            funext k
            exact h.absorbed_index hsame hgoneData hintoData k

theorem mergeAll_index (h : Restorable g) (now : Timestamp)
    (merges : List (String × String)) :
    Restorable (merges.foldl (fun g m => (g.mergeEntities now m.1 m.2).1) g) ∧
    (merges.foldl (fun g m => (g.mergeEntities now m.1 m.2).1) g).aliasIndex =
      (merges.map (fun m => (entityKey m.1, entityKey m.2))).foldl mergeKeys
        g.aliasIndex := by
  induction merges generalizing g with
  | nil =>
      exact ⟨h, rfl⟩
  | cons m rest ih =>
      obtain ⟨hrest, hindex⟩ := ih (h.mergeEntities now m.1 m.2)
      refine ⟨hrest, hindex.trans ?_⟩
      rw [mergeEntities_index h now m.1 m.2]
      rfl

/-- Names that updates have added lead to one entity after merges when a chain of
the merges joins their keys, over keys that updates have added. -/
structure MergeStep (added : List String) (merges : List (String × String))
    (j k : String) : Prop where
  left : j ∈ added.map entityKey
  right : k ∈ added.map entityKey
  merged : exists m, m ∈ merges ∧ entityKey m.1 = j ∧ entityKey m.2 = k

theorem together_mergeAll (h : Restorable g) {added : List String}
    (hknown : forall k, g.aliasIndex k = none ↔ k ∉ added.map entityKey)
    (hown : forall k e, g.aliasIndex k = some e -> entityKey e = k)
    (now : Timestamp) (merges : List (String × String)) (n m : String) :
    (merges.foldl (fun g m => (g.mergeEntities now m.1 m.2).1) g).Together n m ↔
      entityKey n ∈ added.map entityKey ∧ entityKey m ∈ added.map entityKey ∧
        Relation.EqvGen (MergeStep added merges) (entityKey n) (entityKey m) := by
  obtain ⟨hmerged, hindex⟩ := mergeAll_index h now merges
  have hmem : forall k, g.aliasIndex k ≠ none ↔ k ∈ added.map entityKey := by
    intro k
    rw [ne_eq, hknown, not_not]
  have hchain : forall j k,
      Relation.EqvGen (Adjacent g.aliasIndex
        (merges.map (fun m => (entityKey m.1, entityKey m.2)))) j k ↔
      Relation.EqvGen (MergeStep added merges) j k := by
    intro j k
    constructor
    · refine Relation.EqvGen.eqvGen_le ?_ j k
      intro a b hab
      rcases hab.joined with heq | hpair
      · obtain ⟨e, he⟩ := Option.ne_none_iff_exists'.mp hab.left
        have hsame : a = b := by
          rw [← hown a e he]
          rw [heq] at he
          exact hown b e he
        rw [hsame]
        exact Relation.EqvGen.refl b
      · obtain ⟨pair, hpair, heq⟩ := List.mem_map.mp hpair
        obtain ⟨hfirst, hsecond⟩ := Prod.mk.inj heq
        exact Relation.EqvGen.rel a b
          ⟨(hmem a).mp hab.left, (hmem b).mp hab.right, pair, hpair, hfirst, hsecond⟩
    · refine Relation.EqvGen.mono ?_ j k
      intro a b hab
      obtain ⟨pair, hpair, rfl, rfl⟩ := hab.merged
      exact ⟨(hmem _).mpr hab.left, (hmem _).mpr hab.right,
        Or.inr (List.mem_map_of_mem hpair)⟩
  unfold Together
  rw [hmerged.resolving.resolve_eq, hmerged.resolving.resolve_eq, hindex, ne_eq,
    foldl_mergeKeys_none, ← ne_eq, hmem]
  constructor
  · intro hboth
    obtain ⟨hn, hsame⟩ := hboth
    have hm : entityKey m ∈ added.map entityKey := by
      rw [← hmem, ne_eq, ← foldl_mergeKeys_none, ← hsame, foldl_mergeKeys_none,
        ← ne_eq, hmem]
      exact hn
    refine ⟨hn, hm, (hchain _ _).mp ?_⟩
    exact (foldl_mergeKeys_eq_iff ((hmem _).mpr hn) ((hmem _).mpr hm)).mp hsame
  · intro hlinked
    obtain ⟨hn, hm, hjoined⟩ := hlinked
    refine ⟨hn, ?_⟩
    exact (foldl_mergeKeys_eq_iff ((hmem _).mpr hn) ((hmem _).mpr hm)).mpr
      ((hchain _ _).mpr hjoined)

/-!
# Where a graph comes from
-/

/-- The update has a relation of this type between names that lead to the ends. -/
def Introduces (g : EntityGraph) (update : ContextUpdate) (e f : String)
    (t : RelationType) : Prop :=
  exists r, r ∈ update.createsRelationships ∧ r.relationType = t ∧
    g.resolve r.fromEntity = some e ∧ g.resolve r.toEntity = some f

/-- Every name of an entity, every mention and every relation comes from one of the
updates. -/
structure Sourced (updates : List ContextUpdate) (g : EntityGraph) : Prop where
  names : forall e n, g.Named e n -> exists u, u ∈ updates ∧ n ∈ addedNames u
  mentions : forall e id, id ∈ g.mentionIds e ->
    exists u, u ∈ updates ∧ u.id = id ∧ Leads g (mentionedNames u) e
  relations : forall e f t, g.Relates e f t ->
    exists u, u ∈ updates ∧ Introduces g u e f t

theorem sourced_new (updates : List ContextUpdate) : Sourced updates new where
  names := by
    intro e n hn
    obtain ⟨d, hd, -⟩ := hn
    simp [new] at hd
  mentions := by
    intro e id hid
    simp [mentionIds, new] at hid
  relations := by
    intro e f t hrel
    obtain ⟨i, j, hmem, -⟩ := hrel
    cases hmem

variable {updates : List ContextUpdate}

theorem Sourced.grow {g' : EntityGraph} (h : Sourced updates g)
    (hkept : forall n e, g.resolve n = some e -> g'.resolve n = some e)
    (hnames : forall e n, g'.Named e n -> g.Named e n ∨
      exists u, u ∈ updates ∧ n ∈ addedNames u)
    (hmentions : forall e id, id ∈ g'.mentionIds e -> id ∈ g.mentionIds e ∨
      exists u, u ∈ updates ∧ u.id = id ∧ Leads g' (mentionedNames u) e)
    (hrelations : forall e f t, g'.Relates e f t -> g.Relates e f t ∨
      exists u, u ∈ updates ∧ Introduces g' u e f t) :
    Sourced updates g' where
  names := by
    intro e n hn
    rcases hnames e n hn with hold | hnew
    · exact h.names e n hold
    · exact hnew
  mentions := by
    intro e id hid
    rcases hmentions e id hid with hold | hnew
    · obtain ⟨u, hu, hsame, n, hn, hlead⟩ := h.mentions e id hold
      exact ⟨u, hu, hsame, n, hn, hkept n e hlead⟩
    · exact hnew
  relations := by
    intro e f t hrel
    rcases hrelations e f t hrel with hold | hnew
    · obtain ⟨u, hu, r, hr, htype, hfrom, hto⟩ := h.relations e f t hold
      exact ⟨u, hu, r, hr, htype, hkept _ e hfrom, hkept _ f hto⟩
    · exact hnew

variable {written : String}

theorem Indexed.addOrUpdateEntity_named (h : Indexed g) {entityType : EntityType}
    {timestamp : Timestamp} {description n : String}
    (hn : (g.addOrUpdateEntity written entityType timestamp description).Named e n) :
    g.Named e n ∨ n = written := by
  unfold EntityGraph.addOrUpdateEntity at hn
  cases hcase : g.entities[(g.resolve written).getD written]? with
  | some d =>
      simp only [hcase] at hn
      rw [Named.congr (ensureNode_eq _ _).1, named_insert (g := g) rfl] at hn
      rcases hn with ⟨hold, -⟩ | ⟨rfl, hname⟩
      · exact Or.inl hold
      · rcases (names_withAlias ..).mp hname with hold | hnew
        · exact Or.inl ⟨d, hcase, hold⟩
        · exact Or.inr hnew
  | none =>
      have hself : (g.resolve written).getD written = written := by
        cases hresolve : g.resolve written with
        | none => rfl
        | some c =>
            obtain ⟨d, hd⟩ := mem_entities.mp (h.resolve hresolve)
            rw [hresolve, Option.getD_some, hd] at hcase
            cases hcase
      rw [hself] at hn hcase
      have hentities : forall g' : EntityGraph, g'.Named e n ->
          g'.entities = g.entities.insert written
            (created written entityType timestamp description) ->
          g.Named e n ∨ n = written := by
        intro g' hn hinserted
        rw [named_insert hinserted] at hn
        rcases hn with ⟨hold, -⟩ | ⟨-, hname⟩
        · exact Or.inl hold
        · exact Or.inr (List.mem_singleton.mp hname)
      simp only [hcase] at hn
      exact hentities _ hn (by simp [indexNames, EntityGraph.addNode])

theorem Indexed.getOrCreateNode_cases (h : Indexed g) (written : String)
    (entityType : EntityType) (timestamp : Timestamp) :
    ((g.getOrCreateNode written entityType timestamp).1 = g ∨
      (g.getOrCreateNode written entityType timestamp).1 =
        g.addOrUpdateEntity written entityType timestamp "") ∧
    exists c,
      (g.getOrCreateNode written entityType timestamp).1.resolve written = some c ∧
      (g.getOrCreateNode written entityType timestamp).1.graph.nodes[
        (g.getOrCreateNode written entityType timestamp).2]? = some c := by
  cases hwritten : g.resolve written with
  | some c =>
      obtain ⟨i, hi, hat⟩ := h.getOrCreateNode_known hwritten entityType timestamp
      rw [hi]
      exact ⟨Or.inl rfl, c, hwritten, hat⟩
  | none =>
      have hfresh : written ∉ g.entities := by
        intro hmem
        rw [resolve_stored hmem] at hwritten
        cases hwritten
      have hadded := h.addOrUpdateEntity written entityType timestamp ""
      have hstored := addOrUpdateEntity_node (Or.inr hwritten) entityType timestamp
      obtain ⟨i, hi, -⟩ := hadded.node hstored
      unfold EntityGraph.getOrCreateNode
      simp only [hwritten, Option.getD_none, h.unmapped hfresh, hi]
      exact ⟨Or.inr True.intro, written, resolve_stored hstored,
        (hadded.places written i).mp hi⟩

structure Made (updates : List ContextUpdate) (g : EntityGraph) : Prop where
  resolving : Resolving g
  indexed : Indexed g
  sourced : Sourced updates g

variable {u : ContextUpdate}

theorem Made.addOrUpdateEntity (h : Made updates g) (hu : u ∈ updates)
    (hwritten : written ∈ addedNames u) (entityType : EntityType)
    (timestamp : Timestamp) (description : String) :
    Made updates (g.addOrUpdateEntity written entityType timestamp description) := by
  have hresolving :=
    (h.resolving.addOrUpdateEntity written entityType timestamp description).1
  have hlearns :=
    addOrUpdateEntity_learns h.resolving written entityType timestamp description
  have hjoins := ((h.resolving.found h.indexed).addOrUpdateEntity written entityType
    timestamp description rfl).1
  refine ⟨hresolving, h.indexed.addOrUpdateEntity .., h.sourced.grow ?_ ?_ ?_ ?_⟩
  · intro n e he
    rw [h.resolving.resolve_eq] at he
    rw [hresolving.resolve_eq]
    exact hlearns.kept _ e he
  · intro e n hn
    rcases h.indexed.addOrUpdateEntity_named hn with hold | rfl
    · exact Or.inl hold
    · exact Or.inr ⟨u, hu, hwritten⟩
  · intro e id hid
    rw [mentionIds, hlearns.mentions] at hid
    exact Or.inl hid
  · intro e f t hrel
    exact Or.inl ((hjoins.relates h.indexed e f t).mp hrel)

theorem Made.getOrCreateNode (h : Made updates g) (hu : u ∈ updates)
    (hwritten : written ∈ addedNames u) (entityType : EntityType)
    (timestamp : Timestamp) :
    Made updates (g.getOrCreateNode written entityType timestamp).1 := by
  rcases (h.indexed.getOrCreateNode_cases written entityType timestamp).1 with
    hsame | hadded
  · rw [hsame]
    exact h
  · rw [hadded]
    exact h.addOrUpdateEntity hu hwritten entityType timestamp ""

theorem Made.addRelationship (h : Made updates g) (hu : u ∈ updates)
    (hr : r ∈ u.createsRelationships) (now : Timestamp) :
    Made updates (EntityGraph.addRelationship now g r) := by
  have hends : r.fromEntity ∈ addedNames u ∧ r.toEntity ∈ addedNames u := by
    constructor
    · exact List.mem_append_right _
        (List.mem_flatMap.mpr ⟨r, hr, List.mem_cons_self⟩)
    · exact List.mem_append_right _
        (List.mem_flatMap.mpr ⟨r, hr, List.mem_cons_of_mem _ List.mem_cons_self⟩)
  have hsource := h.getOrCreateNode hu hends.1 EntityType.concept now
  obtain ⟨-, c, hfrom, hfromAt⟩ :=
    h.indexed.getOrCreateNode_cases r.fromEntity EntityType.concept now
  have htarget := hsource.getOrCreateNode hu hends.2 EntityType.concept now
  obtain ⟨hstep, c', hto, htoAt⟩ :=
    hsource.indexed.getOrCreateNode_cases r.toEntity EntityType.concept now
  have hsprouts := sprouts_getOrCreateNode
    (g.getOrCreateNode r.fromEntity EntityType.concept now).1 r.toEntity
    EntityType.concept now
  have hlearns := getOrCreateNode_learns hsource.resolving hsource.indexed r.toEntity
    EntityType.concept now
  have hadded := h.indexed.addRelationship now r
  unfold EntityGraph.addRelationship at hadded ⊢
  dsimp only at hadded ⊢
  generalize g.getOrCreateNode r.fromEntity EntityType.concept now = source at *
  generalize source.1.getOrCreateNode r.toEntity EntityType.concept now = target at *
  obtain ⟨before, i⟩ := source
  obtain ⟨after, j⟩ := target
  dsimp only at *
  rw [hsource.resolving.resolve_eq] at hfrom
  have hfromAfter : after.resolve r.fromEntity = some c := by
    rw [htarget.resolving.resolve_eq]
    exact hlearns.kept _ c hfrom
  obtain ⟨more, hmore⟩ := hsprouts.nodes
  have hfromNode : after.graph.nodes[i]? = some c := by
    rw [← hmore, List.getElem?_append_left (List.getElem?_eq_some_iff.mp hfromAt).1]
    exact hfromAt
  split
  · exact htarget
  · next hkept =>
    rw [if_neg hkept] at hadded
    refine ⟨htarget.resolving.frame rfl rfl rfl (putEdge_nodes ..), hadded,
      htarget.sourced.grow (fun _ _ he => he) (fun _ _ hn => Or.inl hn)
        (fun _ _ hid => Or.inl hid) ?_⟩
    intro e f t hrel
    obtain ⟨a, b, hmem, he, hf⟩ := hrel
    rw [putEdge_nodes] at he hf
    rcases mem_putEdge.mp hmem with hold | hnew
    · exact Or.inl ⟨a, b, hold, he, hf⟩
    · obtain ⟨rfl, rest⟩ := Prod.mk.inj hnew
      obtain ⟨rfl, rfl⟩ := Prod.mk.inj rest
      rw [hfromNode] at he
      rw [htoAt] at hf
      exact Or.inr ⟨u, hu, r, hr, rfl, hfromAfter.trans he, hto.trans hf⟩

theorem linkMentions_entities (g : EntityGraph) (update : ContextUpdate) :
    (g.linkMentions update).entities = g.entities := by
  show (g.linkMentions update).unlinked.entities = g.unlinked.entities
  rw [linkMentions_unlinked]

theorem Made.linkMentions (h : Made updates g) (hu : u ∈ updates) :
    Made updates (g.linkMentions u) := by
  have hlinks := linkMentions_links g u
  have hentities := linkMentions_entities g u
  refine ⟨h.resolving.linkMentions u, h.indexed.linkMentions u,
    h.sourced.grow ?_ ?_ ?_ ?_⟩
  · intro n e he
    rw [hlinks.resolves]
    exact he
  · intro e n hn
    exact Or.inl ((Named.congr hentities e n).mp hn)
  · intro e id hid
    unfold mentionIds at hid ⊢
    by_cases hleads : Leads g (mentionedNames u) e
    · rw [hlinks.linked e hleads, mem_withId] at hid
      rcases hid with hold | rfl
      · exact Or.inl hold
      · obtain ⟨n, hn, hlead⟩ := hleads
        exact Or.inr ⟨u, hu, rfl, n, hn, (hlinks.resolves n).trans hlead⟩
    · rw [hlinks.unlinked e hleads] at hid
      exact Or.inl hid
  · intro e f t hrel
    unfold Relates at hrel
    rw [linkMentions_graph] at hrel
    exact Or.inl hrel

theorem Made.foldl {α : Type} {f : EntityGraph -> α -> EntityGraph} {xs : List α}
    (h : Made updates g)
    (hstep : forall g x, x ∈ xs -> Made updates g -> Made updates (f g x)) :
    Made updates (xs.foldl f g) :=
  List.foldlRecOn xs f h (fun g hg x hx => hstep g x hx hg)

theorem Made.applyUpdate (h : Made updates g) (hu : u ∈ updates) (now : Timestamp) :
    Made updates (g.applyUpdate now u) := by
  have hentities : Made updates (g.addEntities u) := by
    have hnames : forall n, n ∈ (if u.typedEntities = [] then u.createsEntities
        else u.typedEntities.map TypedEntity.name) -> n ∈ addedNames u :=
      fun n hn => List.mem_append_left _ hn
    unfold EntityGraph.addEntities
    split
    · next huntyped =>
      rw [if_pos huntyped] at hnames
      exact h.foldl (fun g n hn hg => hg.addOrUpdateEntity hu (hnames n hn) _ _ _)
    · next htyped =>
      rw [if_neg htyped] at hnames
      refine h.foldl (fun g typed htyped hg => hg.addOrUpdateEntity hu ?_ _ _ _)
      exact hnames _ (List.mem_map_of_mem htyped)
  have hrelated : Made updates (u.createsRelationships.foldl
      (EntityGraph.addRelationship now) (g.addEntities u)) :=
    hentities.foldl (fun g r hr hg => hg.addRelationship hu hr now)
  exact hrelated.linkMentions hu

/-!
# Where merged entities come from
-/

omit [CharTables] in
theorem removeEntity_mentionIds {name : String} {id : Uuid} {node : Nat}
    (hnode : g.entityToNode name = some node)
    (hid : id ∈ (g.removeEntity name).1.mentionIds e) :
    id ∈ g.mentionIds e ∧ e ≠ name := by
  simp only [EntityGraph.removeEntity, hnode, mentionIds,
    Std.ExtTreeMap.getElem?_erase] at hid
  split at hid
  · cases hid
  · next hother =>
    refine ⟨hid, ?_⟩
    rintro rfl
    exact hother (Std.compare_eq_iff_eq.mpr rfl)

theorem mem_absorbed_mentions (goneData : EntityData) {node : Nat} {id : Uuid}
    (hnode : g.entityToNode gone = some node)
    (hid : id ∈ (g.absorbed gone into goneData).mentionIds e) :
    exists e', id ∈ g.mentionIds e' ∧ e = standing gone into e' := by
  have hremoved : forall n, id ∈ (g.removeEntity gone).1.mentionIds n ->
      exists e', id ∈ g.mentionIds e' ∧ n = standing gone into e' := by
    intro n hn
    obtain ⟨hold, hother⟩ := removeEntity_mentionIds hnode hn
    exact ⟨n, hold, (if_neg hother).symm⟩
  unfold mentionIds at hid
  unfold EntityGraph.absorbed at hid
  dsimp only at hid
  split at hid
  · exact hremoved e hid
  · rw [Std.ExtTreeMap.getElem?_insert] at hid
    split at hid
    · next heq =>
      have hinto : into = e := Std.compare_eq_iff_eq.mp heq
      rw [Option.getD_some, mem_extendUnique] at hid
      rcases hid with hold | hmoved
      · exact hinto ▸ hremoved into hold
      · exact ⟨gone, hmoved, hinto.symm.trans (if_pos rfl).symm⟩
    · exact hremoved e hid

theorem Sourced.mergeResolved (h : Sourced updates g) (hg : Restorable g)
    (hne : gone ≠ into) (hgone : g.entities[gone]? = some goneData)
    (hinto : g.entities[into]? = some intoData) (now : Timestamp) :
    Sourced updates (g.mergeResolved now gone into goneData) := by
  obtain ⟨edges, hgraph, hrelates⟩ :=
    hg.resolving.mergeResolved_parts hg.indexed hne hgone hinto now
  have hresolving := mergeResolved_resolving hg.resolving.toNoded
    (hg.resolving.agrees.mergeable gone into) hne hgone hinto now
  have hstanding : forall n e, g.resolve n = some e ->
      (g.mergeResolved now gone into goneData).resolve n =
        some (standing gone into e) := by
    intro n e he
    rw [hg.resolving.resolve_eq] at he
    rw [hresolving.resolve_eq, hgraph]
    refine (hg.absorbed_index hne hgone hinto (entityKey n)).trans ?_
    rw [he, standing]
    split
    · next heq => rw [if_pos (Option.some.inj heq)]
    · next hother => rw [if_neg (fun heq => hother (congrArg some heq))]
  obtain ⟨node, hnode, -⟩ := hg.indexed.node (mem_entities.mpr ⟨goneData, hgone⟩)
  have hremoved := removeEntity_eq hnode
  have hkept : (g.removeEntity gone).1.entities[into]? = some intoData := by
    rw [hremoved.1, Std.ExtTreeMap.getElem?_erase]
    simp [hne, hinto]
  refine ⟨?_, ?_, ?_⟩
  · intro e n hn
    have hnamed : (g.absorbed gone into goneData).Named e n := by
      rw [hgraph] at hn
      exact hn
    unfold EntityGraph.absorbed at hnamed
    simp only [hkept] at hnamed
    rw [named_insert (g := (g.removeEntity gone).1) rfl,
      named_erase hremoved.1, names_absorb] at hnamed
    rcases hnamed with ⟨⟨hold, -⟩, -⟩ | ⟨-, htheirs | hours⟩
    · exact h.names e n hold
    · exact h.names into n ⟨intoData, hinto, htheirs⟩
    · exact h.names gone n ⟨goneData, hgone, hours⟩
  · intro e id hid
    have hsource : exists e', id ∈ g.mentionIds e' ∧ e = standing gone into e' := by
      rw [hgraph] at hid
      exact mem_absorbed_mentions goneData hnode hid
    obtain ⟨e', hold, rfl⟩ := hsource
    obtain ⟨u, hu, hid, n, hn, hlead⟩ := h.mentions e' id hold
    exact ⟨u, hu, hid, n, hn, hstanding n e' hlead⟩
  · intro e f t hrel
    have hsource : exists e' f', g.Relates e' f' t ∧ e = standing gone into e' ∧
        f = standing gone into f' := by
      rcases hrelates e f t hrel with hold | ⟨r, hr, rfl, hfrom, hto⟩
      · obtain ⟨hbefore, he, hf⟩ := hg.indexed.relates_removeEntity.mp hold
        exact ⟨e, f, hbefore, (if_neg he).symm, (if_neg hf).symm⟩
      · exact ⟨_, _, hg.indexed.relates_of_listed hr, hfrom, hto⟩
    obtain ⟨e', f', hold, rfl, rfl⟩ := hsource
    obtain ⟨u, hu, r, hr, htype, hfrom, hto⟩ := h.relations e' f' t hold
    exact ⟨u, hu, r, hr, htype, hstanding _ e' hfrom, hstanding _ f' hto⟩

theorem Sourced.mergeEntities (h : Sourced updates g) (hg : Restorable g)
    (now : Timestamp) (written target : String) :
    Sourced updates (g.mergeEntities now written target).1 := by
  rcases mergeEntities_cases now g written target with
    heq | ⟨gone, into, goneData, hgone, hinto, hne, hgoneData, heq⟩
  · rw [heq]
    exact h
  · obtain ⟨intoData, hintoData⟩ := hg.resolving.known hinto
    rw [heq]
    exact h.mergeResolved hg hne hgoneData hintoData now

theorem Sourced.mergeAll (h : Sourced updates g) (hg : Restorable g)
    (now : Timestamp) (merges : List (String × String)) :
    Sourced updates
      (merges.foldl (fun g m => (g.mergeEntities now m.1 m.2).1) g) := by
  induction merges generalizing g with
  | nil =>
      exact h
  | cons m rest ih =>
      exact ih (h.mergeEntities hg now m.1 m.2) (hg.mergeEntities now m.1 m.2)

end

end EntityGraph
end Graph
end PostCortex
