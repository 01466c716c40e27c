import Mathlib.Data.List.Infix
import PostCortex.Graph.Conservation
import PostCortex.Naming.GroupMerging

/-!
# Rebuilding the alias index

`rebuild_alias_index` claims the keys of the entities in the order of their first
mentions and merges those that share a key.  Its merges are those of the names and keys
alone; what they make of the groups of entities is read off there.
-/

namespace PostCortex
namespace Graph
namespace EntityGraph

open PostCortex.Core
open Naming

section

variable [CharTables]

/-!
# Entities in the order of their first mentions
-/

def keysOf (g : EntityGraph) (e : String) : List String :=
  ((g.entities[e]?).map (fun d => (names d).map entityKey)).getD []

end

section

def firstMention (g : EntityGraph) (e : String) : Timestamp :=
  ((g.entities[e]?).map EntityData.firstMentioned).getD 0

def Earlier (g : EntityGraph) (e f : String) : Prop :=
  g.firstMention e < g.firstMention f ∨ g.firstMention e = g.firstMention f ∧ e ≤ f

def mentionOrder (g : EntityGraph) : List String :=
  ((g.values.map (fun e => (e.firstMentioned, e.name))).insertionSort
    (fun x y => x.1 < y.1 ∨ x.1 = y.1 ∧ x.2 ≤ y.2)).map Prod.snd

def mentionLe (x y : Timestamp × String) : Prop :=
  x.1 < y.1 ∨ x.1 = y.1 ∧ x.2 ≤ y.2

theorem mentionLe_total (x y : Timestamp × String) : mentionLe x y ∨ mentionLe y x := by
  unfold mentionLe
  rcases Int.lt_trichotomy x.1 y.1 with hlt | heq | hgt
  · exact Or.inl (Or.inl hlt)
  · rcases String.le_total x.2 y.2 with hle | hle
    · exact Or.inl (Or.inr ⟨heq, hle⟩)
    · exact Or.inr (Or.inr ⟨heq.symm, hle⟩)
  · exact Or.inr (Or.inl hgt)

theorem mentionLe_trans {x y z : Timestamp × String} (hxy : mentionLe x y)
    (hyz : mentionLe y z) : mentionLe x z := by
  unfold mentionLe at *
  rcases hxy with hlt | ⟨heq, hle⟩
  · rcases hyz with hlt' | ⟨heq', -⟩
    · exact Or.inl (Int.lt_trans hlt hlt')
    · exact Or.inl (heq' ▸ hlt)
  · rcases hyz with hlt' | ⟨heq', hle'⟩
    · exact Or.inl (heq ▸ hlt')
    · exact Or.inr ⟨heq.trans heq', String.le_trans hle hle'⟩

instance : Std.Total mentionLe where
  total := mentionLe_total

instance : IsTrans (Timestamp × String) mentionLe where
  trans _ _ _ := mentionLe_trans

instance : DecidableRel mentionLe :=
  fun x y => inferInstanceAs (Decidable (x.1 < y.1 ∨ x.1 = y.1 ∧ x.2 ≤ y.2))

instance (g : EntityGraph) : Std.Total g.Earlier where
  total e f := mentionLe_total (g.firstMention e, e) (g.firstMention f, f)

instance (g : EntityGraph) : IsTrans String g.Earlier where
  trans e f n hef hfn := by
    have hfirst : mentionLe (g.firstMention e, e) (g.firstMention f, f) := hef
    have hle : mentionLe (g.firstMention e, e) (g.firstMention n, n) :=
      mentionLe_trans hfirst hfn
    exact hle

instance (g : EntityGraph) : Std.Antisymm g.Earlier where
  antisymm e f hef hfe := by
    unfold Earlier at hef hfe
    rcases hef with hlt | ⟨heq, hle⟩
    · rcases hfe with hgt | ⟨heq, -⟩
      · exact absurd (Int.lt_trans hlt hgt) (Int.lt_irrefl _)
      · exact absurd (heq ▸ hlt) (Int.lt_irrefl _)
    · rcases hfe with hgt | ⟨-, hle'⟩
      · exact absurd (heq ▸ hgt) (Int.lt_irrefl _)
      · exact String.le_antisymm hle hle'

theorem mentionOrder_eq (g : EntityGraph) :
    g.mentionOrder = ((g.values.map (fun e => (e.firstMentioned, e.name))).insertionSort
      mentionLe).map Prod.snd :=
  rfl

variable {g : EntityGraph}

theorem Indexed.mentionOrder_perm (h : Indexed g) :
    g.mentionOrder.Perm g.entities.keys := by
  have hnames : g.values.map EntityData.name = g.entities.keys := by
    rw [values, List.map_map, ← Std.ExtTreeMap.map_fst_toList_eq_keys]
    refine List.map_congr_left ?_
    intro x hx
    exact h.named x.1 x.2 (Std.ExtTreeMap.mem_toList_iff_getElem?_eq_some.mp hx)
  rw [mentionOrder_eq, ← hnames]
  refine ((List.perm_insertionSort _ _).map _).trans ?_
  rw [List.map_map]
  exact List.Perm.refl _

variable {e : String}

theorem Indexed.mem_mentionOrder (h : Indexed g) :
    e ∈ g.mentionOrder ↔ e ∈ g.entities := by
  rw [h.mentionOrder_perm.mem_iff, Std.ExtTreeMap.mem_keys]

theorem Indexed.mentionOrder_nodup (h : Indexed g) :
    g.mentionOrder.Nodup :=
  h.mentionOrder_perm.nodup_iff.mpr Std.ExtTreeMap.nodup_keys

theorem Indexed.mentionOrder_pairwise (h : Indexed g) :
    g.mentionOrder.Pairwise g.Earlier := by
  rw [mentionOrder_eq, List.pairwise_map]
  refine (List.pairwise_insertionSort mentionLe _).imp_of_mem ?_
  have hfirst : forall x, x ∈ (g.values.map (fun e => (e.firstMentioned,
      e.name))).insertionSort mentionLe -> g.firstMention x.2 = x.1 := by
    intro x hx
    rw [List.mem_insertionSort] at hx
    obtain ⟨d, hd, rfl⟩ := List.mem_map.mp hx
    obtain ⟨n, hn⟩ := mem_values.mp hd
    have hname := h.named n d hn
    simp only [firstMention, hname, hn, Option.map_some, Option.getD_some]
  intro x y hx hy hle
  unfold Earlier
  rw [hfirst x hx, hfirst y hy]
  exact hle

variable [CharTables]

/-!
# Keys and names
-/

theorem hasKey_iff {k : String} :
    g.HasKey e k ↔ k ∈ g.keysOf e := by
  unfold HasKey keysOf
  cases hd : g.entities[e]? with
  | none => simp [Named, hd]
  | some d => simp [named_some hd]

theorem keysOf_nonempty :
    (exists k, g.HasKey e k) ↔ e ∈ g.entities := by
  constructor
  · rintro ⟨k, n, ⟨d, hd, -⟩, -⟩
    exact mem_entities.mpr ⟨d, hd⟩
  · intro he
    obtain ⟨d, hd⟩ := mem_entities.mp he
    exact ⟨entityKey d.name, d.name, ⟨d, hd, List.mem_cons_self⟩, rfl⟩

theorem Indexed.own_key (h : Indexed g) (he : e ∈ g.entities) :
    entityKey e ∈ g.keysOf e := by
  obtain ⟨d, hd⟩ := mem_entities.mp he
  refine hasKey_iff.mp ⟨e, ⟨d, hd, ?_⟩, rfl⟩
  exact List.mem_cons.mpr (Or.inl (h.named e d hd).symm)

def holdings (g : EntityGraph) : Holdings String String where
  keys e := { k | g.HasKey e k }
  index := g.aliasIndex

theorem holdings_find (g : EntityGraph) (n : String) :
    g.holdings.find entityKey n = g.resolve n := by
  unfold EntityGraph.resolve
  by_cases hn : n ∈ g.entities
  · rw [if_pos hn]
    exact Holdings.find_stored (keysOf_nonempty.mpr hn)
  · rw [if_neg hn]
    refine Holdings.find_other ?_
    ext k
    exact iff_of_false (fun hk => hn (keysOf_nonempty.mp ⟨k, hk⟩)) (Set.notMem_empty k)

theorem Indexed.addRelationships_edges (h : Indexed g) (now : Timestamp)
    {rs : List EntityRelationship}
    (hends : forall r, r ∈ rs -> r.fromEntity ∈ g.entities ∧ r.toEntity ∈ g.entities) :
    exists edges, rs.foldl (EntityGraph.addRelationship now) g =
      { g with graph := { g.graph with edges := edges } } := by
  induction rs generalizing g with
  | nil =>
      exact ⟨g.graph.edges, rfl⟩
  | cons r rest ih =>
      obtain ⟨hfrom, hto⟩ := hends r List.mem_cons_self
      obtain ⟨i, j, -, -, hgraph⟩ :=
        h.addRelationship_known now (resolve_stored hfrom) (resolve_stored hto)
      rw [if_neg (fun hspelt => hspelt.2 hspelt.1), putEdge_eq] at hgraph
      have hindexed := h.addRelationship now r
      rw [List.foldl_cons]
      rw [hgraph] at hindexed ⊢
      exact ih hindexed (fun x hx => hends x (List.mem_cons_of_mem _ hx))

theorem Indexed.mergeResolved_holdings (h : Indexed g) {gone into : String}
    (hne : gone ≠ into) {goneData intoData : EntityData}
    (hgone : g.entities[gone]? = some goneData)
    (hinto : g.entities[into]? = some intoData) (now : Timestamp) :
    (g.mergeResolved now gone into goneData).holdings = g.holdings.fold gone into := by
  obtain ⟨node, hnode, -⟩ := h.node (mem_entities.mpr ⟨goneData, hgone⟩)
  obtain ⟨hentities, -⟩ := removeEntity_eq hnode
  obtain ⟨hstored, haliases⟩ := absorbed_parts hne goneData hnode hinto
  obtain ⟨edges, hgraph⟩ := (h.absorbed goneData).addRelationships_edges now
    (fun r hr => h.redirected_known hne goneData (mem_entities.mpr ⟨_, hinto⟩) hr)
  have hmerged : g.mergeResolved now gone into goneData = _ :=
    (mergeResolved_eq now g gone into goneData).trans hgraph
  have hnamed : forall e n, (g.absorbed gone into goneData).Named e n ↔
      (g.Named e n ∧ e ≠ gone) ∧ e ≠ into ∨
        e = into ∧ n ∈ names (absorb intoData goneData) := by
    intro e n
    rw [named_insert (g := (g.removeEntity gone).1) (hstored.trans (by rw [hentities])),
      named_erase hentities]
  have htaken : forall k, k ∈ (names (absorb intoData goneData)).map entityKey ↔
      k ∈ g.holdings.keys into ∪ g.holdings.keys gone := by
    intro k
    rw [List.mem_map]
    simp only [names_absorb, or_and_right, exists_or]
    exact or_congr
      (exists_congr fun n => and_congr_left fun _ => (named_some hinto n).symm)
      (exists_congr fun n => and_congr_left fun _ => (named_some hgone n).symm)
  rw [hmerged]
  refine Holdings.ext ?_ ?_
  · funext e
    by_cases heInto : e = into
    · subst heInto
      rw [Holdings.fold_keys_into]
      ext k
      rw [← htaken, List.mem_map]
      refine exists_congr fun n => and_congr_left fun _ => (hnamed e n).trans ?_
      simp
    · by_cases heGone : e = gone
      · subst heGone
        rw [Holdings.fold_keys_gone hne]
        ext k
        refine iff_of_false ?_ (Set.notMem_empty k)
        rintro ⟨n, hn, -⟩
        rcases (hnamed e n).mp hn with ⟨⟨-, hself⟩, -⟩ | ⟨hself, -⟩
        · exact hself rfl
        · exact heInto hself
      · rw [Holdings.fold_keys_other heInto heGone]
        ext k
        refine exists_congr fun n => and_congr_left fun _ => (hnamed e n).trans ?_
        simp [heInto, heGone]
  · funext k
    have hassigned : (g.absorbed gone into goneData).aliasIndex k =
        (g.holdings.fold gone into).index k := by
      rw [haliases, assignKeys_apply]
      by_cases hk : k ∈ (names (absorb intoData goneData)).map entityKey
      · rw [if_pos hk]
        exact (Holdings.fold_index_taken ((htaken k).mp hk)).symm
      · rw [if_neg hk]
        have hfree : k ∉ g.holdings.keys into ∪ g.holdings.keys gone :=
          fun hmem => hk ((htaken k).mpr hmem)
        by_cases hlead : g.aliasIndex k = some gone
        · rw [Holdings.fold_index_released hfree hlead, release, hlead]
          simp
        · rw [Holdings.fold_index_other hfree hlead]
          apply Option.ext
          intro e
          rw [release_apply]
          refine and_iff_left_of_imp ?_
          rintro hold rfl
          exact hlead hold
    exact hassigned

theorem Indexed.mergeEntities_holdings (h : Indexed g) (now : Timestamp)
    (written target : String) :
    (g.mergeEntities now written target).1.holdings =
      g.holdings.merge entityKey written target := by
  unfold EntityGraph.mergeEntities Holdings.merge
  rw [holdings_find, holdings_find]
  cases hgone : g.resolve written with
  | none =>
      rfl
  | some gone =>
      cases hinto : g.resolve target with
      | none =>
          rfl
      | some into =>
          dsimp only
          rw [Option.bind_some, Option.bind_some]
          by_cases hsame : gone = into
          · rw [if_pos hsame, if_pos hsame]
            rfl
          · obtain ⟨goneData, hgoneData⟩ := mem_entities.mp (h.resolve hgone)
            obtain ⟨intoData, hintoData⟩ := mem_entities.mp (h.resolve hinto)
            rw [if_neg hsame, if_neg hsame, hgoneData, Option.getD_some]
            exact h.mergeResolved_holdings hsame hgoneData hintoData now

/-!
# The rebuilt index
-/

theorem claimed_eq (g : EntityGraph) : g.claimed = rebuild g.keysOf g.mentionOrder := by
  unfold claimed mentionOrder
  dsimp only
  congr 1
  funext name
  unfold keysOf
  cases g.entities[name]? with
  | none | some d => rfl

theorem Indexed.holdings_begun (h : Indexed g) :
    holdings { g with aliasIndex := g.claimed.1 } = begun g.keysOf g.mentionOrder := by
  refine Holdings.ext ?_ ?_
  · funext e
    ext k
    have hkey : k ∈ g.keysOf e -> e ∈ g.mentionOrder := fun hk =>
      h.mem_mentionOrder.mpr (keysOf_nonempty.mp ⟨k, hasKey_iff.mpr hk⟩)
    exact (hasKey_iff (g := g)).trans (and_iff_right_of_imp hkey).symm
  · show g.claimed.1 = _
    rw [claimed_eq]
    rfl

theorem Indexed.rebuildAliasIndex_holdings (h : Indexed g) (now : Timestamp) :
    (g.rebuildAliasIndex now).holdings = rebuilt entityKey g.keysOf g.mentionOrder := by
  have hmerges : forall (merges : List (String × String)) (g : EntityGraph), Indexed g ->
      (g.mergeEach now merges).holdings = g.holdings.mergeEach entityKey merges := by
    intro merges
    induction merges with
    | nil =>
        exact fun _ _ => rfl
    | cons merge rest ih =>
        intro g hg
        have hrest := ih _ (hg.mergeEntities now merge.1 merge.2)
        rw [hg.mergeEntities_holdings] at hrest
        exact hrest
  have hrebuild : g.rebuildAliasIndex now =
      ({ g with aliasIndex := g.claimed.1 } : EntityGraph).mergeEach now g.claimed.2 :=
    rfl
  rw [hrebuild, hmerges _ _ h.claimed, h.holdings_begun, claimed_eq]
  rfl

/-- One entity is left of every group of entities that share keys, the one mentioned
first, and every key and every name of the group leads to it. -/
structure Regroups (g g' : EntityGraph) : Prop where
  entities : forall e, e ∈ g'.entities ↔ Leader g.Earlier g.keysOf g.mentionOrder e e
  index : forall x k e, x ∈ g.entities -> k ∈ g.keysOf x ->
    Leader g.Earlier g.keysOf g.mentionOrder x e -> g'.aliasIndex k = some e
  resolve : forall x n e, x ∈ g.entities -> entityKey n ∈ g.keysOf x ->
    Leader g.Earlier g.keysOf g.mentionOrder x e -> g'.resolve n = some e

theorem Indexed.regroups_iff (h : Indexed g) {g' : EntityGraph} :
    Regroups g g' ↔ Regrouped g.Earlier g.keysOf g.mentionOrder g'.holdings := by
  constructor
  · intro hgroups
    refine ⟨fun e => keysOf_nonempty.trans (hgroups.entities e), ?_⟩
    intro x k e hx
    exact hgroups.index x k e (h.mem_mentionOrder.mp hx)
  · intro hgroups
    have hentities : forall e, e ∈ g'.entities ↔
        Leader g.Earlier g.keysOf g.mentionOrder e e :=
      fun e => keysOf_nonempty.symm.trans (hgroups.stored e)
    have hindex : forall x k e, x ∈ g.entities -> k ∈ g.keysOf x ->
        Leader g.Earlier g.keysOf g.mentionOrder x e -> g'.aliasIndex k = some e :=
      fun x k e hx => hgroups.index x k e (h.mem_mentionOrder.mpr hx)
    refine ⟨hentities, hindex, ?_⟩
    intro x n e hx hk he
    unfold EntityGraph.resolve
    by_cases hn : n ∈ g'.entities
    · have hleads := (hentities n).mp hn
      have hown := h.own_key (h.mem_mentionOrder.mp hleads.mem)
      have hlinked := Linked.of_share (h.mem_mentionOrder.mpr hx) hleads.mem
        ⟨entityKey n, hk, hown⟩
      rw [if_pos hn, hleads.unique (he.of_linked hlinked)]
    · rw [if_neg hn]
      exact hindex x _ e hx hk he

def onlyEntities (g : EntityGraph) (part : List String) : EntityGraph :=
  unindexed
    { entities := g.entities.filter (fun e _ => decide (e ∈ part))
      entityMentions := ∅
      nodes := part
      edges := [] }

section

variable {g : EntityGraph} {part : List String}

variable {e : String}

omit [CharTables] in
theorem onlyEntities_some {d : EntityData} :
    (g.onlyEntities part).entities[e]? = some d ↔
      g.entities[e]? = some d ∧ e ∈ part := by
  show (g.entities.filter (fun e _ => decide (e ∈ part)))[e]? = some d ↔ _
  rw [Std.ExtTreeMap.getElem?_filter', Option.filter_eq_some_iff, decide_eq_true_iff]

omit [CharTables] in
theorem onlyEntities_get (he : e ∈ part) :
    (g.onlyEntities part).entities[e]? = g.entities[e]? :=
  Option.ext fun _ => onlyEntities_some.trans (and_iff_left he)

omit [CharTables] in
theorem Indexed.onlyEntities (h : Indexed g) (hpart : part.Sublist g.mentionOrder) :
    Indexed (g.onlyEntities part) := by
  refine indexed_unindexed (h.mentionOrder_nodup.sublist hpart) ?_ ?_
  · intro e
    show e ∈ part ↔ e ∈ (g.onlyEntities part).entities
    rw [mem_entities]
    simp only [onlyEntities_some]
    constructor
    · intro he
      obtain ⟨d, hd⟩ := mem_entities.mp (h.mem_mentionOrder.mp (hpart.subset he))
      exact ⟨d, hd, he⟩
    · rintro ⟨d, -, he⟩
      exact he
  · intro e d hd
    exact h.named e d (onlyEntities_some.mp hd).1

theorem onlyEntities_keysOf (he : e ∈ part) :
    (g.onlyEntities part).keysOf e = g.keysOf e := by
  rw [keysOf, keysOf, onlyEntities_get he]

omit [CharTables] in
theorem onlyEntities_earlier {f : String} (he : e ∈ part) (hf : f ∈ part) :
    (g.onlyEntities part).Earlier e f ↔ g.Earlier e f := by
  unfold Earlier firstMention
  rw [onlyEntities_get he, onlyEntities_get hf]

omit [CharTables] in
theorem Indexed.onlyEntities_order (h : Indexed g)
    (hpart : part.Sublist g.mentionOrder) :
    (g.onlyEntities part).mentionOrder = part := by
  have honly := h.onlyEntities hpart
  have hmem : forall e, e ∈ (g.onlyEntities part).mentionOrder ↔ e ∈ part := by
    intro e
    rw [honly.mem_mentionOrder]
    exact (honly.stored e).symm
  have horder : (g.onlyEntities part).mentionOrder.Pairwise g.Earlier := by
    refine honly.mentionOrder_pairwise.imp_of_mem ?_
    intro e f he hf hef
    exact (onlyEntities_earlier ((hmem e).mp he) ((hmem f).mp hf)).mp hef
  have hperm : (g.onlyEntities part).mentionOrder.Perm part :=
    (List.perm_ext_iff_of_nodup honly.mentionOrder_nodup
      (h.mentionOrder_nodup.sublist hpart)).mpr hmem
  exact hperm.eq_of_pairwise' horder (h.mentionOrder_pairwise.sublist hpart)

/-- What the rebuild makes of some of the entities is what it makes of their names and
keys. -/
theorem Indexed.onlyEntities_regroups (h : Indexed g)
    (hpart : part.Sublist g.mentionOrder) (now : Timestamp) :
    Regroups (g.onlyEntities part) ((g.onlyEntities part).rebuildAliasIndex now) ↔
      Regrouped g.Earlier g.keysOf part (rebuilt entityKey g.keysOf part) := by
  have honly := h.onlyEntities hpart
  have hkeys : forall x, x ∈ part -> (g.onlyEntities part).keysOf x = g.keysOf x :=
    fun x hx => onlyEntities_keysOf hx
  rw [honly.regroups_iff, honly.rebuildAliasIndex_holdings, h.onlyEntities_order hpart,
    rebuilt_congr hkeys]
  constructor
  · exact fun hgroups => hgroups.congr (fun x y hx hy => onlyEntities_earlier hx hy) hkeys
  · exact fun hgroups => hgroups.congr
      (fun x y hx hy => (onlyEntities_earlier hx hy).symm) (fun x hx => (hkeys x hx).symm)

end

/-- Every entity joins the earlier ones well: the merges of its keys, each with the first
owner of the key, find every group of earlier entities that it shares a key with, and
the group they meet last has the first entity of all these groups. -/
def EachJoinsWell (g : EntityGraph) : Prop :=
  forall earlier x, earlier ++ [x] <+: g.mentionOrder ->
    JoinsWell g.Earlier entityKey g.keysOf earlier x

/-- `rebuild_alias_index` leaves one entity of every group, the one mentioned first, with
all keys of the group, for the entities and for those mentioned up to any one of them,
exactly when every entity joins the earlier ones well. -/
theorem rebuild_regroups_iff {g : EntityGraph} (h : Indexed g) (now : Timestamp) :
    (Regroups g (g.rebuildAliasIndex now) ∧
      forall part, part <+: g.mentionOrder ->
        Regroups (g.onlyEntities part)
          ((g.onlyEntities part).rebuildAliasIndex now)) ↔
      g.EachJoinsWell := by
  have hown : forall x, x ∈ g.mentionOrder -> entityKey x ∈ g.keysOf x :=
    fun x hx => h.own_key (h.mem_mentionOrder.mp hx)
  have hall : (forall part, part <+: g.mentionOrder ->
      Regrouped g.Earlier g.keysOf part (rebuilt entityKey g.keysOf part)) ↔ _ :=
    rebuilt_regrouped_iff hown h.mentionOrder_nodup h.mentionOrder_pairwise
  unfold EachJoinsWell
  rw [← hall]
  constructor
  · rintro ⟨-, hparts⟩ part hprefix
    exact (h.onlyEntities_regroups hprefix.sublist now).mp (hparts part hprefix)
  · intro hgrouped
    refine ⟨h.regroups_iff.mpr ?_, fun part hprefix =>
      (h.onlyEntities_regroups hprefix.sublist now).mpr (hgrouped part hprefix)⟩
    rw [h.rebuildAliasIndex_holdings]
    exact hgrouped _ List.prefix_rfl

end

def storedGraph (entities : List EntityData) : EntityGraph :=
  unindexed
    { entities := entities.foldl (fun m d => m.insert d.name d) ∅
      entityMentions := ∅
      nodes := entities.map EntityData.name
      edges := [] }

theorem indexed_storedGraph {entities : List EntityData}
    (hnodup : (entities.map EntityData.name).Nodup) :
    Indexed (storedGraph entities) := by
  have hstored : forall (more : List EntityData) (n : String),
      n ∈ more.map EntityData.name ↔
        n ∈ more.foldl (fun m d => m.insert d.name d)
          (∅ : Std.ExtTreeMap String EntityData) := by
    intro more n
    induction more using List.reverseRecOn with
    | nil =>
        simp
    | append_singleton more d ih =>
        rw [List.foldl_append, List.foldl_cons, List.foldl_nil, Std.ExtTreeMap.mem_insert,
          Std.compare_eq_iff_eq, List.map_append, List.mem_append, ih]
        simp [or_comm, eq_comm]
  have hnamed : forall (more : List EntityData) (n : String) (d : EntityData),
      (more.foldl (fun m d => m.insert d.name d)
        (∅ : Std.ExtTreeMap String EntityData))[n]? = some d -> d.name = n := by
    intro more n d
    induction more using List.reverseRecOn with
    | nil =>
        simp
    | append_singleton more x ih =>
        rw [List.foldl_append, List.foldl_cons, List.foldl_nil,
          Std.ExtTreeMap.getElem?_insert]
        split
        · next heq =>
          intro hx
          cases hx
          exact Std.compare_eq_iff_eq.mp heq
        · exact ih
  exact indexed_unindexed hnodup (hstored entities) (hnamed entities)

section

attribute [local instance] asciiTables

def oneName : EntityGraph :=
  storedGraph [created "redis" EntityType.concept 1 "",
    created "kafka" EntityType.concept 2 "",
    { created "cache" EntityType.concept 3 "" with aliases := ["Redis"] }]

theorem rebuild_regroups_one_group : Regroups oneName (oneName.rebuildAliasIndex 4) := by
  refine ((rebuild_regroups_iff (indexed_storedGraph (by decide)) 4).mpr ?_).1
  intro earlier x hprefix
  have hall : forall part, part ∈ oneName.mentionOrder.inits ->
      forall o, o ∈ owners oneName.keysOf part.dropLast (part.getLast?.getD "") ->
        o = "redis" := by
    decide +kernel
  have hone := hall _ ((List.mem_inits _ _).mpr hprefix)
  rw [List.dropLast_concat, List.getLast?_concat, Option.getD_some] at hone
  refine joinsWell_of_one_group ?_
  intro o o' ho ho'
  rw [hone o ho, hone o' ho']
  exact Linked.refl _

/-- An entity with names of two earlier ones is merged into the one after the other, and
the first of them with it into the second. -/
def twoNames : EntityGraph :=
  storedGraph [created "redis" EntityType.concept 1 "",
    created "kafka" EntityType.concept 2 "",
    { created "broker" EntityType.concept 3 "" with aliases := ["Redis", "Kafka"] }]

theorem rebuild_keeps_later_entity :
    ¬ forall (g : EntityGraph) (now : Timestamp), Indexed g ->
      Regroups g (g.rebuildAliasIndex now) := by
  intro hall
  have hgroups := hall twoNames 4 (indexed_storedGraph (by decide))
  have hleads : Leader twoNames.Earlier twoNames.keysOf twoNames.mentionOrder "redis"
      "redis" := by
    refine ⟨by decide +kernel, Linked.refl _, ?_⟩
    intro y hy _
    have hfirst : forall y, y ∈ twoNames.mentionOrder ->
        mentionLe (twoNames.firstMention "redis", "redis")
          (twoNames.firstMention y, y) := by
      decide +kernel
    exact hfirst y hy
  have hmissing : "redis" ∉ (twoNames.rebuildAliasIndex 4).entities := by
    decide +kernel
  exact hmissing ((hgroups.entities "redis").mpr hleads)

-- "O" was merged into "e", and its key is taken over by "a" before it is looked up: the
-- group of the four stays in two.
example :
    let g := (storedGraph [created "e" EntityType.concept 1 "",
      created "a" EntityType.concept 2 "",
      { created "o" EntityType.concept 3 "" with aliases := ["E"] },
      { created "w" EntityType.concept 4 "" with
        aliases := ["A", "O"] }]).rebuildAliasIndex 5
    g.values.map EntityData.name = ["a", "e"] ∧ g.resolve "o" = some "a" := by
  decide +kernel

end

end EntityGraph
end Graph
end PostCortex
