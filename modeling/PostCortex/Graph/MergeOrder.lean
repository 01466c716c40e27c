import Mathlib.Order.Bounds.Basic
import PostCortex.Graph.SessionGraphs

/-!
# The order of merged graphs

Folding `merge_from` over session graphs gives the same entities in every order
when entities that share a key know each other's names.  It reads the last
mention of an entity only, so the times come out right when that is the first
mention as well.
-/

namespace PostCortex
namespace Graph
namespace EntityGraph

open PostCortex.Core
open Naming

section

variable [CharTables]

/-!
# Order independence
-/

def Together (g : EntityGraph) (n m : String) : Prop :=
  g.resolve n ≠ none ∧ g.resolve n = g.resolve m

/-- The record is in the mention list of the entity of the name. -/
def MentionedAs (g : EntityGraph) (n : String) (id : Uuid) : Prop :=
  exists e, g.resolve n = some e ∧ id ∈ g.mentionIds e

def RelatedAs (g : EntityGraph) (n m : String) (t : RelationType) : Prop :=
  exists e f, g.resolve n = some e ∧ g.resolve m = some f ∧ g.Relates e f t

def stampAs (g : EntityGraph) (n : String) : Option Stamp :=
  (g.resolve n).bind g.stamps

structure SameMerge (g g' : EntityGraph) : Prop where
  together : forall n m, g.Together n m ↔ g'.Together n m
  mentions : forall n id, g.MentionedAs n id ↔ g'.MentionedAs n id
  counts : forall n,
    (g.stampAs n).map Stamp.count = (g'.stampAs n).map Stamp.count
  relations : forall n m t, g.RelatedAs n m t ↔ g'.RelatedAs n m t

/-- First and last mention of an entity are those of the entities merged into
it. -/
structure Spans (graphs : List EntityGraph) (g : EntityGraph) : Prop where
  first : forall n s, g.stampAs n = some s ->
    IsLeast (fun t => exists d, d ∈ arrivals graphs ∧ g.Together n d.name ∧
      d.firstMentioned = t) s.first
  last : forall n s, g.stampAs n = some s ->
    IsGreatest (fun t => exists d, d ∈ arrivals graphs ∧ g.Together n d.name ∧
      d.lastMentioned = t) s.last

/-- Merged in any two orders, at any times, the graphs give the same. -/
def OrderIndependent (graphs : List EntityGraph) : Prop :=
  forall xs ys : List (Timestamp × EntityGraph),
    (xs.map Prod.snd).Perm graphs -> (ys.map Prod.snd).Perm graphs ->
      SameMerge (mergeAll xs) (mergeAll ys) ∧ Spans graphs (mergeAll xs)

/-!
# When it holds
-/

/-- Entities that share a key know each other's names, up to spelling. -/
def MutuallyNamed (graphs : List EntityGraph) : Prop :=
  entityScheme.Mutual (arrivals graphs)

/-- The last mention of an entity is the earliest first mention of the entities
that share a key with it. -/
def AtOneTime (graphs : List EntityGraph) : Prop :=
  forall d, d ∈ arrivals graphs ->
    (exists e, e ∈ arrivals graphs ∧ entityScheme.Shares d e ∧
      e.firstMentioned = d.lastMentioned) ∧
    forall e, e ∈ arrivals graphs -> entityScheme.Shares d e ->
      d.lastMentioned ≤ e.firstMentioned

instance (d e : EntityData) : Decidable (entityScheme.Shares d e) :=
  inferInstanceAs (Decidable (exists k, k ∈ entityScheme.keys d ∧
    k ∈ entityScheme.keys e))

instance (graphs : List EntityGraph) : Decidable (MutuallyNamed graphs) := by
  unfold MutuallyNamed Scheme.Mutual
  infer_instance

instance (graphs : List EntityGraph) : Decidable (AtOneTime graphs) := by
  unfold AtOneTime
  infer_instance

/-!
# The merged graph by names
-/

instance (g : EntityGraph) (n m : String) : Decidable (g.Together n m) := by
  unfold Together
  infer_instance

variable {graphs : List EntityGraph} {d : EntityData}

omit [CharTables] in
theorem mem_arrivals :
    d ∈ arrivals graphs ↔ exists g, g ∈ graphs ∧ d ∈ g.values :=
  List.mem_flatMap

variable {graphs' : List EntityGraph}

omit [CharTables] in
theorem arrivals_perm (h : graphs.Perm graphs') :
    (arrivals graphs).Perm (arrivals graphs') :=
  h.flatMap_right values

variable {g : EntityGraph}

theorem together_some {n m e : String} (hn : g.resolve n = some e) :
    g.Together n m ↔ g.resolve m = some e := by
  rw [Together, hn]
  constructor
  · exact fun h => h.2.symm
  · exact fun h => ⟨by simp, h.symm⟩

theorem MergeOf.together_iff (h : MergeOf graphs g) (n m : String) :
    g.Together n m ↔
      entityScheme.arriveAll (fun _ => none) (arrivals graphs) (entityKey n) ≠
          none ∧
        entityScheme.arriveAll (fun _ => none) (arrivals graphs) (entityKey n) =
          entityScheme.arriveAll (fun _ => none) (arrivals graphs) (entityKey m) := by
  rw [Together, h.found.resolve_eq, h.found.resolve_eq, h.index]

theorem MergeOf.mentionedAs_iff (h : MergeOf graphs g) (n : String) (id : Uuid) :
    g.MentionedAs n id ↔
      exists other, other ∈ graphs ∧
        exists x, x ∈ other.entityMentions.toList ∧ id ∈ x.2 ∧ g.Together n x.1 := by
  constructor
  · rintro ⟨e, hn, hid⟩
    obtain ⟨other, hother, x, hx, hmem, hlead⟩ := (h.mentions e id).mp hid
    rw [← h.found.resolve_eq] at hlead
    exact ⟨other, hother, x, hx, hmem, (together_some hn).mpr hlead⟩
  · rintro ⟨other, hother, x, hx, hmem, htogether⟩
    obtain ⟨e, hn⟩ := Option.ne_none_iff_exists'.mp htogether.1
    refine ⟨e, hn, (h.mentions e id).mpr ⟨other, hother, x, hx, hmem, ?_⟩⟩
    rw [← h.found.resolve_eq]
    exact (together_some hn).mp htogether

/-- The ends of a relation stay apart unless they are one name. -/
def EndsApart (graphs : List EntityGraph) (g : EntityGraph) : Prop :=
  forall other, other ∈ graphs -> forall r, r ∈ other.relations ->
    g.Together r.fromEntity r.toEntity -> r.fromEntity = r.toEntity

theorem MergeOf.relatedAs_iff (h : MergeOf graphs g) (hends : EndsApart graphs g)
    (n m : String) (t : RelationType) :
    g.RelatedAs n m t ↔
      exists other, other ∈ graphs ∧ exists r, r ∈ other.relations ∧
        g.Together n r.fromEntity ∧ g.Together m r.toEntity ∧
          r.relationType = t := by
  constructor
  · rintro ⟨e, f, hn, hm, hrelates⟩
    obtain ⟨other, hother, r, hr, hfrom, hto, htype, -⟩ :=
      (h.relates e f t).mp hrelates
    rw [← h.found.resolve_eq] at hfrom hto
    exact ⟨other, hother, r, hr, (together_some hn).mpr hfrom,
      (together_some hm).mpr hto, htype⟩
  · rintro ⟨other, hother, r, hr, hfrom, hto, htype⟩
    obtain ⟨e, hn⟩ := Option.ne_none_iff_exists'.mp hfrom.1
    obtain ⟨f, hm⟩ := Option.ne_none_iff_exists'.mp hto.1
    have hfromAt := (together_some hn).mp hfrom
    have htoAt := (together_some hm).mp hto
    refine ⟨e, f, hn, hm, (h.relates e f t).mpr ⟨other, hother, r, hr, ?_, ?_,
      htype, ?_⟩⟩
    · rw [← h.found.resolve_eq, hfromAt]
    · rw [← h.found.resolve_eq, htoAt]
    · rintro rfl
      exact hends other hother r hr ((together_some hfromAt).mpr htoAt)

theorem MergeOf.stampAs_eq (h : MergeOf graphs g) (n : String) :
    g.stampAs n = ((arrivals graphs).filter
      (fun d => decide (g.Together n d.name))).foldl stampedBy none := by
  unfold stampAs
  cases hn : g.resolve n with
  | none =>
      have hnobody : (arrivals graphs).filter
          (fun d => decide (g.Together n d.name)) = [] := by
        refine List.filter_eq_nil_iff.mpr fun d _ htogether => ?_
        exact (of_decide_eq_true htogether).1 hn
      rw [hnobody]
      rfl
  | some e =>
      rw [Option.bind_some, h.stamps e]
      congr 1
      refine List.filter_congr fun d _ => decide_eq_decide.mpr ?_
      rw [together_some hn, h.found.resolve_eq]

omit [CharTables] in
theorem foldl_stampedBy (d : EntityData) (rest : List EntityData) :
    exists e, e ∈ d :: rest ∧ (d :: rest).foldl stampedBy none =
      some ⟨d.lastMentioned, e.lastMentioned, rest.length + 1⟩ := by
  induction rest using List.reverseRecOn with
  | nil =>
      exact ⟨d, List.mem_cons_self, rfl⟩
  | append_singleton rest x ih =>
      obtain ⟨e, -, heq⟩ := ih
      refine ⟨x, by simp, ?_⟩
      rw [← List.cons_append, List.foldl_append, heq, List.length_append]
      rfl

omit [CharTables] in
theorem count_foldl_stampedBy (ds : List EntityData) :
    (ds.foldl stampedBy none).map Stamp.count =
      if ds.length = 0 then none else some ds.length := by
  cases ds with
  | nil =>
      rfl
  | cons d rest =>
      obtain ⟨e, -, heq⟩ := foldl_stampedBy d rest
      rw [heq]
      rfl

/-!
# Mutual names are enough
-/

theorem SelfContained.separate (h : SelfContained g) :
    entityScheme.Separate g.values := by
  intro x hx y hy hshare
  obtain ⟨n, hn⟩ := mem_values.mp hx
  obtain ⟨m, hm⟩ := mem_values.mp hy
  obtain ⟨k, hkx, hky⟩ := hshare
  obtain ⟨a, ha, hak⟩ := List.mem_map.mp hkx
  obtain ⟨b, hb, hbk⟩ := List.mem_map.mp hky
  have hsame : n = m :=
    h.resolving.agrees.same ⟨x, hn, ha⟩ ⟨y, hm, hb⟩ (hak.trans hbk.symm)
  subst hsame
  exact Option.some.inj (hn.symm.trans hm)

variable {g' : EntityGraph}

theorem MergeOf.together_perm (h : MergeOf graphs g) (h' : MergeOf graphs' g')
    (hperm : graphs.Perm graphs') (hmutual : MutuallyNamed graphs) (n m : String) :
    g.Together n m ↔ g'.Together n m := by
  have hmem : forall d, d ∈ arrivals graphs' ↔ d ∈ arrivals graphs :=
    fun d => (arrivals_perm hperm).mem_iff.symm
  have hmutual' : entityScheme.Mutual (arrivals graphs') :=
    Scheme.Mutual.of_subset hmutual (fun d => (hmem d).mp)
  rw [h.together_iff, h'.together_iff, Scheme.Mutual.together_iff hmutual,
    hmutual'.together_iff]
  simp only [hmem]

variable {e : EntityData}

theorem MergeOf.shares_iff (h : MergeOf graphs g) (hmutual : MutuallyNamed graphs)
    (hd : d ∈ arrivals graphs) (he : e ∈ arrivals graphs) :
    g.Together d.name e.name ↔ entityScheme.Shares d e := by
  have hgrouped := Scheme.Mutual.grouped hmutual
  rw [h.together_iff]
  constructor
  · rintro ⟨-, heq⟩
    exact hgrouped.apart d hd e he heq
  · intro hshare
    refine ⟨?_, (hgrouped.lead d hd _ (hmutual d hd e he hshare)).symm⟩
    obtain ⟨c, hc⟩ := hgrouped.exists_index hd (entityScheme.ownKey_mem d)
    intro hnone
    rw [Scheme.ownKey] at hc
    have habsurd := hc.symm.trans hnone
    cases habsurd

theorem MergeOf.endsApart (h : MergeOf graphs g) (hmutual : MutuallyNamed graphs)
    (hgraphs : forall x, x ∈ graphs -> SelfContained x) :
    EndsApart graphs g := by
  intro other hother r hr htogether
  have hself := hgraphs other hother
  obtain ⟨hfrom, hto⟩ := hself.indexed.relation_ends hr
  obtain ⟨d, hd, hdname⟩ := hself.indexed.exists_value hfrom
  obtain ⟨e, he, hename⟩ := hself.indexed.exists_value hto
  rw [← hdname, ← hename] at htogether ⊢
  have hshare := (h.shares_iff hmutual (mem_arrivals.mpr ⟨other, hother, hd⟩)
    (mem_arrivals.mpr ⟨other, hother, he⟩)).mp htogether
  rw [hself.separate d hd e he hshare]

theorem MergeOf.sameMerge (h : MergeOf graphs g) (h' : MergeOf graphs' g')
    (hperm : graphs.Perm graphs') (hmutual : MutuallyNamed graphs)
    (hgraphs : forall x, x ∈ graphs -> SelfContained x) :
    SameMerge g g' := by
  have htogether := h.together_perm h' hperm hmutual
  have hmutual' : MutuallyNamed graphs' :=
    Scheme.Mutual.of_subset hmutual
      (fun d => (arrivals_perm hperm).mem_iff.mpr)
  have hgraphs' : forall x, x ∈ graphs' -> SelfContained x :=
    fun x hx => hgraphs x (hperm.mem_iff.mpr hx)
  refine ⟨htogether, ?_, ?_, ?_⟩
  · intro n id
    rw [h.mentionedAs_iff, h'.mentionedAs_iff]
    simp only [htogether, hperm.mem_iff]
  · intro n
    rw [h.stampAs_eq, h'.stampAs_eq, count_foldl_stampedBy, count_foldl_stampedBy]
    simp only [htogether]
    rw [((arrivals_perm hperm).filter _).length_eq]
  · intro n m t
    rw [h.relatedAs_iff (h.endsApart hmutual hgraphs),
      h'.relatedAs_iff (h'.endsApart hmutual' hgraphs')]
    simp only [htogether, hperm.mem_iff]

/-!
# First and last mentions
-/

theorem MergeOf.exists_first (h : MergeOf graphs g) {n : String} {s : Stamp}
    (hs : g.stampAs n = some s) :
    exists d rest,
      (arrivals graphs).filter (fun d => decide (g.Together n d.name)) = d :: rest ∧
      s.first = d.lastMentioned ∧
      exists e, e ∈ d :: rest ∧ s.last = e.lastMentioned := by
  rw [h.stampAs_eq] at hs
  cases hlist : (arrivals graphs).filter
      (fun d => decide (g.Together n d.name)) with
  | nil =>
      rw [hlist] at hs
      cases hs
  | cons d rest =>
      obtain ⟨e, he, heq⟩ := foldl_stampedBy d rest
      rw [hlist, heq] at hs
      cases hs
      exact ⟨d, rest, rfl, rfl, e, he, rfl⟩

theorem AtOneTime.last_eq (h : AtOneTime graphs) (hmutual : MutuallyNamed graphs)
    (hd : d ∈ arrivals graphs) (he : e ∈ arrivals graphs)
    (hshare : entityScheme.Shares d e) :
    d.lastMentioned = e.lastMentioned := by
  have hle : forall x y, x ∈ arrivals graphs -> y ∈ arrivals graphs ->
      entityScheme.Shares x y -> x.lastMentioned ≤ y.lastMentioned := by
    intro x y hx hy hxy
    obtain ⟨z, hz, hyz, hfirst⟩ := (h y hy).1
    rw [← hfirst]
    exact (h x hx).2 z hz (Scheme.Mutual.shares_trans hmutual hx hy hz hxy hyz)
  exact Int.le_antisymm (hle d e hd he hshare) (hle e d he hd hshare.symm)

theorem MergeOf.spans (h : MergeOf graphs g) (hperm : graphs.Perm graphs')
    (hmutual : MutuallyNamed graphs) (htime : AtOneTime graphs) :
    Spans graphs' g := by
  have hmem : forall d, d ∈ arrivals graphs' ↔ d ∈ arrivals graphs :=
    fun d => (arrivals_perm hperm).mem_iff.symm
  -- One of the entities merged in, and all of them by what they share with it.
  have hmerged : forall n s, g.stampAs n = some s ->
      exists d, d ∈ arrivals graphs ∧ s.first = d.lastMentioned ∧
        s.last = d.lastMentioned ∧
        forall e, e ∈ arrivals graphs ->
          (g.Together n e.name ↔ entityScheme.Shares d e) := by
    intro n s hs
    obtain ⟨d, rest, hlist, hfirst, x, hx, hlast⟩ := h.exists_first hs
    have hlisted : forall e, e ∈ d :: rest ↔
        e ∈ arrivals graphs ∧ g.Together n e.name := by
      intro e
      rw [← hlist, List.mem_filter, decide_eq_true_iff]
    obtain ⟨hd, hdname⟩ := (hlisted d).mp List.mem_cons_self
    obtain ⟨hxmem, hxname⟩ := (hlisted x).mp hx
    have hshares : forall e, e ∈ arrivals graphs ->
        (g.Together n e.name ↔ entityScheme.Shares d e) := by
      intro e he
      rw [← h.shares_iff hmutual hd he, Together, Together, ← hdname.2]
    refine ⟨d, hd, hfirst, ?_, hshares⟩
    rw [hlast]
    exact (htime.last_eq hmutual hd hxmem ((hshares x hxmem).mp hxname)).symm
  constructor
  · intro n s hs
    obtain ⟨d, hd, hfirst, -, hshares⟩ := hmerged n s hs
    obtain ⟨⟨e, he, hde, heq⟩, hleast⟩ := htime d hd
    rw [hfirst]
    constructor
    · exact ⟨e, (hmem e).mpr he, (hshares e he).mpr hde, heq⟩
    · rintro t ⟨x, hx, htogether, rfl⟩
      have hxmem := (hmem x).mp hx
      exact hleast x hxmem ((hshares x hxmem).mp htogether)
  · intro n s hs
    obtain ⟨d, hd, -, hlast, hshares⟩ := hmerged n s hs
    rw [hlast]
    constructor
    · exact ⟨d, (hmem d).mpr hd, (hshares d hd).mpr (entityScheme.shares_self d),
        rfl⟩
    · rintro t ⟨x, hx, htogether, rfl⟩
      have hxmem := (hmem x).mp hx
      have hshare := (hshares x hxmem).mp htogether
      exact Int.le_of_eq (htime.last_eq hmutual hd hxmem hshare).symm

theorem orderIndependent_of (hgraphs : forall g, g ∈ graphs -> SelfContained g)
    (hmutual : MutuallyNamed graphs) (htime : AtOneTime graphs) :
    OrderIndependent graphs := by
  intro xs ys hxs hys
  have hself : forall zs : List (Timestamp × EntityGraph),
      (zs.map Prod.snd).Perm graphs -> forall z, z ∈ zs -> SelfContained z.2 := by
    intro zs hzs z hz
    exact hgraphs z.2 (hzs.mem_iff.mp (List.mem_map_of_mem hz))
  have hx := mergeAll_of (hself xs hxs)
  have hy := mergeAll_of (hself ys hys)
  have hmutual' : MutuallyNamed (xs.map Prod.snd) :=
    Scheme.Mutual.of_subset hmutual
      (fun d => (arrivals_perm hxs).mem_iff.mp)
  have htime' : AtOneTime (xs.map Prod.snd) := by
    have hmem : forall d, d ∈ arrivals (xs.map Prod.snd) ↔ d ∈ arrivals graphs :=
      fun d => (arrivals_perm hxs).mem_iff
    unfold AtOneTime at htime ⊢
    simpa only [hmem] using htime
  refine ⟨hx.sameMerge hy (hxs.trans hys.symm) hmutual' ?_,
    hx.spans hxs hmutual' htime'⟩
  exact fun x hxmem => hgraphs x (hxs.mem_iff.mp hxmem)

/-!
# Mutual names are needed
-/

omit [CharTables] in
theorem exists_perm_cons {α : Type} {a : α} {xs : List α} (h : a ∈ xs) :
    exists rest, xs.Perm (a :: rest) := by
  obtain ⟨before, after, rfl⟩ := List.append_of_mem h
  exact ⟨before ++ after, List.perm_middle⟩

theorem mergeOf_order (hgraphs : forall g, g ∈ graphs -> SelfContained g)
    (hperm : graphs.Perm graphs') :
    exists xs : List (Timestamp × EntityGraph),
      (xs.map Prod.snd).Perm graphs ∧ MergeOf graphs' (mergeAll xs) := by
  have hself : forall x, x ∈ graphs'.map (fun g => ((0 : Timestamp), g)) ->
      SelfContained x.2 := by
    intro x hx
    obtain ⟨g, hg, rfl⟩ := List.mem_map.mp hx
    exact hgraphs g (hperm.mem_iff.mpr hg)
  have hsnd : (graphs'.map (fun g => ((0 : Timestamp), g))).map Prod.snd =
      graphs' := by
    rw [List.map_map]
    exact List.map_id graphs'
  have hmerge := mergeAll_of hself
  rw [hsnd] at hmerge
  exact ⟨_, by rw [hsnd]; exact hperm.symm, hmerge⟩

theorem OrderIndependent.mutuallyNamed (h : OrderIndependent graphs)
    (hgraphs : forall g, g ∈ graphs -> SelfContained g) :
    MutuallyNamed graphs := by
  intro x hx y hy hshare
  by_contra hne
  obtain ⟨g, hg, hxg⟩ := mem_arrivals.mp hx
  obtain ⟨other, hother, hyo⟩ := mem_arrivals.mp hy
  have hgself := hgraphs g hg
  have hoself := hgraphs other hother
  obtain ⟨rest, hrest⟩ := exists_perm_cons hg
  have hin : other ∈ rest := by
    rcases List.mem_cons.mp (hrest.mem_iff.mp hother) with rfl | hin
    · have hxy := hgself.separate x hxg y hyo hshare
      exact absurd (hxy ▸ entityScheme.ownKey_mem x) hne
    · exact hin
  obtain ⟨rest', hrest'⟩ := exists_perm_cons hin
  have hfirst : graphs.Perm (g :: other :: rest') :=
    hrest.trans (hrest'.cons g)
  have hsecond : graphs.Perm (other :: g :: rest') :=
    hfirst.trans (List.Perm.swap other g rest')
  obtain ⟨xs, hxs, hxmerge⟩ := mergeOf_order hgraphs hfirst
  obtain ⟨ys, hys, hymerge⟩ := mergeOf_order hgraphs hsecond
  obtain ⟨k, hkx, hky⟩ := hshare
  obtain ⟨n, hn, hnk⟩ := List.mem_map.mp hkx
  have htogether : (mergeAll ys).Together n y.name := by
    have hindex : forall j, j ∈ entityScheme.keys y ->
        entityScheme.arriveAll (fun _ => none) (arrivals (other :: g :: rest')) j =
          some y.name := by
      intro j hj
      rw [arrivals, List.flatMap_cons, Scheme.arriveAll_append]
      exact Scheme.arriveAll_kept (hoself.separate.index_eq hyo hj) _
    rw [hymerge.together_iff, hnk, hindex k hky,
      hindex (entityKey y.name) (entityScheme.ownKey_mem y)]
    simp
  have hsame := (h xs ys hxs hys).1.together n y.name
  have hapart := hsame.mpr htogether
  rw [hxmerge.together_iff, hnk] at hapart
  have hlead : entityScheme.arriveAll (fun _ => none)
      (arrivals (g :: other :: rest')) k = some x.name := by
    rw [arrivals, List.flatMap_cons, Scheme.arriveAll_append]
    exact Scheme.arriveAll_kept (hgself.separate.index_eq hxg hkx) _
  have halone := hgself.separate.index_ne hoself.separate hxg hyo hne
    (rest'.flatMap values)
  rw [List.append_assoc] at halone
  exact halone (hapart.2.symm.trans hlead)

theorem MergeOf.first_eq {merged : EntityGraph} {rest : List EntityGraph}
    (h : MergeOf (g :: rest) merged) (hmutual : MutuallyNamed (g :: rest))
    (hself : SelfContained g) (hd : d ∈ g.values) :
    exists s, merged.stampAs d.name = some s ∧ s.first = d.lastMentioned := by
  have hmem : forall e, e ∈ g.values -> e ∈ arrivals (g :: rest) :=
    fun e he => mem_arrivals.mpr ⟨g, List.mem_cons_self, he⟩
  have hmine : forall e, e ∈ g.values.filter
      (fun e => decide (merged.Together d.name e.name)) ↔ e = d := by
    intro e
    rw [List.mem_filter, decide_eq_true_iff]
    constructor
    · rintro ⟨he, htogether⟩
      have hshare := (h.shares_iff hmutual (hmem d hd) (hmem e he)).mp htogether
      exact (hself.separate d hd e he hshare).symm
    · rintro rfl
      exact ⟨hd, (h.shares_iff hmutual (hmem e hd) (hmem e hd)).mpr
        (entityScheme.shares_self e)⟩
  have hlist : (arrivals (g :: rest)).filter
      (fun e => decide (merged.Together d.name e.name)) =
      g.values.filter (fun e => decide (merged.Together d.name e.name)) ++
        (arrivals rest).filter
          (fun e => decide (merged.Together d.name e.name)) := by
    rw [arrivals, List.flatMap_cons, List.filter_append]
    rfl
  rw [h.stampAs_eq, hlist]
  cases hcase : g.values.filter
      (fun e => decide (merged.Together d.name e.name)) with
  | nil =>
      rw [hcase] at hmine
      exact absurd ((hmine d).mpr rfl) (List.not_mem_nil)
  | cons e more =>
      rw [hcase] at hmine
      obtain ⟨_, -, heq⟩ := foldl_stampedBy e (more ++ (arrivals rest).filter
        (fun e => decide (merged.Together d.name e.name)))
      rw [(hmine e).mp List.mem_cons_self] at heq ⊢
      exact ⟨_, heq, rfl⟩

theorem OrderIndependent.atOneTime (h : OrderIndependent graphs)
    (hgraphs : forall g, g ∈ graphs -> SelfContained g)
    (hmutual : MutuallyNamed graphs) :
    AtOneTime graphs := by
  intro d hd
  obtain ⟨g, hg, hdg⟩ := mem_arrivals.mp hd
  obtain ⟨rest, hrest⟩ := exists_perm_cons hg
  obtain ⟨xs, hxs, hmerge⟩ := mergeOf_order hgraphs hrest
  have hmem : forall e, e ∈ arrivals graphs ↔ e ∈ arrivals (g :: rest) :=
    fun e => (arrivals_perm hrest).mem_iff
  have hmutual' : MutuallyNamed (g :: rest) :=
    Scheme.Mutual.of_subset hmutual (fun e => (hmem e).mpr)
  have hshares : forall e, e ∈ arrivals graphs ->
      ((mergeAll xs).Together d.name e.name ↔ entityScheme.Shares d e) :=
    fun e he => hmerge.shares_iff hmutual' ((hmem d).mp hd) ((hmem e).mp he)
  obtain ⟨s, hs, hfirst⟩ := hmerge.first_eq hmutual' (hgraphs g hg) hdg
  obtain ⟨⟨e, he, htogether, heq⟩, hleast⟩ :=
    (h xs xs hxs hxs).2.first d.name s hs
  rw [hfirst] at heq hleast
  constructor
  · exact ⟨e, he, (hshares e he).mp htogether, heq⟩
  · intro x hx hshare
    exact hleast ⟨x, hx, (hshares x hx).mpr hshare, rfl⟩

/-- Merging session graphs is independent of their order just when entities
that share a key know each other's names and each was last mentioned when the
first of them was first mentioned. -/
theorem order_independent_iff {graphs : List EntityGraph}
    (h : forall g, g ∈ graphs -> WrittenBy SessionWrite g) :
    OrderIndependent graphs ↔ MutuallyNamed graphs ∧ AtOneTime graphs := by
  have hgraphs : forall g, g ∈ graphs -> SelfContained g :=
    fun g hg => selfContained (h g hg)
  constructor
  · intro hsame
    have hmutual := hsame.mutuallyNamed hgraphs
    exact ⟨hmutual, hsame.atOneTime hgraphs hmutual⟩
  · rintro ⟨hmutual, htime⟩
    exact orderIndependent_of hgraphs hmutual htime

end

section

attribute [local instance] asciiTables

theorem sessionWrite_mergedNames {first second : String} :
    WrittenBy SessionWrite (mergedNames first second) := by
  have hbuilt : Built MeetsNoSecond (mergedNames first second) :=
    Built.mergedNames first second (fun _ _ => meetsNoSecond_of_plain)
  exact hbuilt.writtenBy (fun _ _ h => h)

/-- Two graphs that call one entity by the same two names. -/
theorem order_independent_both_names :
    OrderIndependent
      [mergedNames "Redis" "Cache", mergedNames "cache" "redis"] := by
  refine (order_independent_iff ?_).mpr ⟨by decide +kernel, by decide +kernel⟩
  intro g hg
  rcases List.mem_pair.mp hg with rfl | rfl
  · exact sessionWrite_mergedNames
  · exact sessionWrite_mergedNames

/-- One graph knows an alias of an entity, the other one has it as an entity. -/
theorem merge_order_matters :
    ¬ forall graphs : List EntityGraph,
      (forall g, g ∈ graphs -> WrittenBy SessionWrite g) ->
        OrderIndependent graphs := by
  intro h
  have hwritten : forall g, g ∈ [mergedNames "Redis" "Cache", new.addConcept "Cache"] ->
      WrittenBy SessionWrite g := by
    intro g hg
    rcases List.mem_pair.mp hg with rfl | rfl
    · exact sessionWrite_mergedNames
    · exact WrittenBy.new.write 0 (GraphWrite.op
        (GraphOp.addOrUpdateEntity "Cache" EntityType.concept 0 "")) nofun True.intro
  have hmutual := (h _ hwritten).mutuallyNamed
    (fun g hg => selfContained (hwritten g hg))
  revert hmutual
  decide +kernel

-- The first mention of a merged entity is its last one.
example :
    ((mergeAll [(0, (new.addConcept "Redis").addOrUpdateEntity "Redis"
      EntityType.concept 5 "")]).stampAs "Redis").map Stamp.first = some 5 := by
  decide +kernel

end

end EntityGraph
end Graph
end PostCortex
