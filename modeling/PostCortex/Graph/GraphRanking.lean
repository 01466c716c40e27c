import PostCortex.Graph.RetrievalGraph

/-!
# Ranking in the retrieval graph

Every iteration is a round of the walk from the seeds of the query, so the ranks are
masses that sum to at most one, and a record has a rank exactly when a path leads to it.
-/

namespace PostCortex
namespace Graph
namespace Retrieval

open PostCortex.Core
open PostCortex.Numeric
open PostCortex.Search
open Finset

/-!
# An iteration is a round of the walk
-/

theorem between_pos_iff {adjacency : Adjacency} {i : Nat}
    (hpos : forall e, e ∈ adjacency i -> 0 < e.2) (j : Nat) :
    0 < adjacency.between i j ↔ j ∈ (adjacency i).map Prod.fst := by
  have hentries : forall entries : List (Nat × Rat),
      (forall e, e ∈ entries -> 0 < e.2) ->
      0 ≤ (entries.map (fun e => (if e.1 = j then 1 else 0) * e.2)).sum ∧
        (0 < (entries.map (fun e => (if e.1 = j then 1 else 0) * e.2)).sum ↔
          j ∈ entries.map Prod.fst) := by
    intro entries
    induction entries with
    | nil => simp
    | cons e rest ih =>
        intro hall
        obtain ⟨hnonneg, hiff⟩ := ih (fun e' he' => hall e' (List.mem_cons_of_mem _ he'))
        have he := hall e List.mem_cons_self
        rw [List.map_cons, List.sum_cons, List.map_cons, List.mem_cons]
        by_cases hj : e.1 = j
        · rw [if_pos hj, one_mul]
          have hsum := add_pos_of_pos_of_nonneg he hnonneg
          exact ⟨hsum.le, iff_of_true hsum (Or.inl hj.symm)⟩
        · rw [if_neg hj, zero_mul, zero_add]
          refine ⟨hnonneg, hiff.trans ⟨Or.inr, fun h => ?_⟩⟩
          exact h.resolve_left (fun heq => hj heq.symm)
  exact (hentries (adjacency i) hpos).2

section

variable [TermTables] {R : Type} (order : HashOrder String) (records : List (GraphRecord R))
  (relations : List EntityRelationship)

theorem strength_eq_outflow (i : Nat) :
    (build order records relations).strength i =
      outflow (range (build order records relations).size)
        (build order records relations).edges.between i := by
  have hsum := Adjacency.around_eq_sum
    (fun e he => (mem_edges order records relations (i := i) he).2.1) (fun _ => 1)
  simp only [one_mul] at hsum
  rw [outflow, ← hsum, RetrievalGraph.strength, Adjacency.around]
  simp only [one_mul]

theorem strength_pos {i : Nat} (h : (build order records relations).edges i ≠ []) :
    0 < (build order records relations).strength i := by
  refine List.sum_pos _ ?_ (by simpa using h)
  intro w hw
  obtain ⟨e, he, rfl⟩ := List.mem_map.mp hw
  exact (mem_edges order records relations he).2.2

theorem shareFrom_apply (rank next : Nat -> Rat) (i j : Nat) :
    (build order records relations).shareFrom rank next i j =
      next j + if outflow (range (build order records relations).size)
          (build order records relations).edges.between i ≠ 0 then
        damping * rank i / outflow (range (build order records relations).size)
            (build order records relations).edges.between i *
          (build order records relations).edges.between i j else 0 := by
  rw [← strength_eq_outflow]
  unfold RetrievalGraph.shareFrom
  by_cases hi : (build order records relations).edges i = []
  · have hzero : (build order records relations).strength i = 0 := by
      rw [RetrievalGraph.strength, hi]
      rfl
    rw [if_pos hi, if_neg (not_not.mpr hzero), add_zero]
  · rw [if_neg hi, if_pos (strength_pos order records relations hi).ne']
    exact Undirected.foldl_share _ _ next j

theorem nextRank_eq_walk (seed rank : Nat -> Rat) (j : Nat) :
    (build order records relations).nextRank seed rank j =
      restartedWalk (range (build order records relations).size) damping
        (build order records relations).edges.between seed rank j := by
  have hfold : forall n, (List.range n).foldl
      ((build order records relations).shareFrom rank)
        (fun j => (1 - damping) * seed j) j =
      (1 - damping) * seed j + ∑ i ∈ range n with
          outflow (range (build order records relations).size)
            (build order records relations).edges.between i ≠ 0,
        damping * rank i / outflow (range (build order records relations).size)
            (build order records relations).edges.between i *
          (build order records relations).edges.between i j := by
    intro n
    induction n with
    | zero => simp
    | succ n ih =>
        rw [List.range_succ, List.foldl_append, List.foldl_cons, List.foldl_nil,
          shareFrom_apply, ih, sum_filter, sum_filter, sum_range_succ, add_assoc]
  exact hfold _

theorem ranks_eq_run (seed : Nat -> Rat) (k : Nat) :
    (build order records relations).ranks seed k =
      restartedRun (range (build order records relations).size) damping
        (build order records relations).edges.between seed k := by
  induction k with
  | zero => rfl
  | succ k ih =>
      funext j
      rw [RetrievalGraph.ranks, nextRank_eq_walk, ih, restartedRun]

/-!
# Seeds
-/

omit [TermTables] in
theorem foldl_update {value : Type} (f : Nat -> value) (nodes : List Nat)
    (start : Nat -> value) (i : Nat) :
    nodes.foldl (fun g node => Function.update g node (f node)) start i =
      if i ∈ nodes then f i else start i := by
  induction nodes generalizing start with
  | nil => rfl
  | cons node rest ih =>
      rw [List.foldl_cons, ih]
      by_cases hrest : i ∈ rest
      · rw [if_pos hrest, if_pos (List.mem_cons_of_mem _ hrest)]
      · rw [if_neg hrest]
        by_cases hi : i = node
        · rw [hi, Function.update_self, if_pos List.mem_cons_self]
        · rw [Function.update_of_ne hi, if_neg]
          exact fun hmem => (List.mem_cons.mp hmem).elim hi hrest

variable (query : String)

theorem seedNodes_lt {s : Nat}
    (hs : s ∈ (build order records relations).seedNodes order query) :
    (build order records relations).records.length ≤ s ∧
      s < (build order records relations).size := by
  rcases List.mem_append.mp hs with hs | hs
  · obtain ⟨t, _, ht⟩ := List.mem_filterMap.mp hs
    exact RetrievalGraph.node_lt ht
  · obtain ⟨k, _, hk⟩ := List.mem_filterMap.mp hs
    unfold RetrievalGraph.entitySeed at hk
    split at hk
    · split at hk
      · exact RetrievalGraph.node_lt hk
      · cases hk
    · cases hk

theorem seedWeight_eq (i : Nat) :
    (build order records relations).seedWeight order query i =
      if i ∈ (build order records relations).seedNodes order query then
        1 / (build order records relations).dfAt i else 0 := by
  rw [RetrievalGraph.seedWeight, foldl_update]

theorem dfAt_seed_pos {s : Nat}
    (hs : s ∈ (build order records relations).seedNodes order query) :
    0 < (build order records relations).dfAt s :=
  dfAt_pos order records relations (seedNodes_lt order records relations query hs)

theorem seedWeight_nonneg (i : Nat) :
    0 ≤ (build order records relations).seedWeight order query i := by
  rw [seedWeight_eq]
  split
  · next hs => exact (one_div_pos.mpr (dfAt_seed_pos order records relations query hs)).le
  · exact le_rfl

theorem seedWeight_pos_iff (i : Nat) :
    0 < (build order records relations).seedWeight order query i ↔
      i ∈ (build order records relations).seedNodes order query := by
  rw [seedWeight_eq]
  split
  · next hs =>
    exact iff_of_true (one_div_pos.mpr (dfAt_seed_pos order records relations query hs)) hs
  · next hs => exact iff_of_false (lt_irrefl 0) hs

theorem seedTotal_nonneg :
    0 ≤ (build order records relations).seedTotal order query :=
  sum_nonneg (fun i _ => seedWeight_nonneg order records relations query i)

theorem seedTotal_pos {s : Nat}
    (hs : s ∈ (build order records relations).seedNodes order query) :
    0 < (build order records relations).seedTotal order query := by
  refine sum_pos' (fun i _ => seedWeight_nonneg order records relations query i) ⟨s, ?_, ?_⟩
  · exact mem_range.mpr (seedNodes_lt order records relations query hs).2
  · exact (seedWeight_pos_iff order records relations query s).mpr hs

theorem seed_subdistribution :
    Subdistribution (range (build order records relations).size)
      ((build order records relations).seed order query) where
  nonneg := fun i _ =>
    div_nonneg (seedWeight_nonneg order records relations query i)
      (seedTotal_nonneg order records relations query)
  total := by
    unfold RetrievalGraph.seed
    rw [← sum_div]
    exact div_self_le_one _

theorem seed_pos_iff (i : Nat) :
    0 < (build order records relations).seed order query i ↔
      i ∈ (build order records relations).seedNodes order query := by
  rw [← seedWeight_pos_iff]
  constructor
  · intro hpos
    refine lt_of_le_of_ne (seedWeight_nonneg order records relations query i) ?_
    intro hzero
    rw [RetrievalGraph.seed, ← hzero, zero_div] at hpos
    exact lt_irrefl _ hpos
  · intro hpos
    have hs := (seedWeight_pos_iff order records relations query i).mp hpos
    exact div_pos hpos (seedTotal_pos order records relations query hs)

/-!
# Ranks
-/

theorem ranks_subdistribution (k : Nat) :
    Subdistribution (range (build order records relations).size)
      ((build order records relations).ranks
        ((build order records relations).seed order query) k) := by
  rw [ranks_eq_run]
  exact (seed_subdistribution order records relations query).restartedRun
    (fun i j _ _ => Adjacency.between_nonneg
      (fun _ he => (mem_edges order records relations he).2.2) j)
    (by decide +kernel) (by decide +kernel) k

def RetrievalGraph.neighbours (g : RetrievalGraph R) (i : Nat) : List Nat :=
  (g.edges i).map Prod.fst

theorem reachedBy_iff (n j : Nat) :
    ReachedBy (range (build order records relations).size)
        (build order records relations).edges.between
        ((build order records relations).seed order query) n j ↔
      exists s, s ∈ (build order records relations).seedNodes order query ∧
        Path (build order records relations).neighbours s n j := by
  induction n generalizing j with
  | zero =>
      rw [ReachedBy, seed_pos_iff]
      constructor
      · exact fun hj => ⟨j, hj, Path.nil⟩
      · rintro ⟨s, hs, hpath⟩
        cases hpath
        exact hs
  | succ n ih =>
      have hedge : forall i,
          0 < (build order records relations).edges.between i j ↔
            j ∈ (build order records relations).neighbours i :=
        fun i => between_pos_iff (fun _ he => (mem_edges order records relations he).2.2) j
      constructor
      · rintro ⟨i, _, hreached, hw⟩
        obtain ⟨s, hs, hpath⟩ := (ih i).mp hreached
        exact ⟨s, hs, hpath.snoc ((hedge i).mp hw)⟩
      · rintro ⟨s, hs, hpath⟩
        cases hpath with
        | @snoc _ i _ hpath hj =>
            obtain ⟨e, he, _⟩ := List.mem_map.mp hj
            have hi := (mem_edges order records relations he).1
            exact ⟨i, mem_range.mpr hi, (ih i).mpr ⟨s, hs, hpath⟩, (hedge i).mpr hj⟩

theorem ranks_pos_iff (k : Nat) {j : Nat} (hj : j < (build order records relations).size) :
    0 < (build order records relations).ranks
        ((build order records relations).seed order query) k j ↔
      exists n, n ≤ k ∧
        exists s, s ∈ (build order records relations).seedNodes order query ∧
          Path (build order records relations).neighbours s n j := by
  rw [ranks_eq_run, restartedRun_pos_iff
    (fun i j _ _ => Adjacency.between_nonneg
      (fun _ he => (mem_edges order records relations he).2.2) j)
    (by decide +kernel) (by decide +kernel)
    (seed_subdistribution order records relations query) k (mem_range.mpr hj)]
  exact exists_congr (fun n => and_congr_right
    (fun _ => reachedBy_iff order records relations query n j))

/-!
# What the query seeds
-/

theorem mem_keys {k : String} (hk : k ∈ (build order records relations).keys) :
    exists record, record ∈ records ∧ k ∈ keysOf record := by
  have hcount : forall (keys : List String) (count : KeyValue.Database String Nat) k c,
      (keys.foldl (fun count k => count.accumulate k 1) count)[k]? = some c ->
        k ∈ keys ∨ exists c', count[k]? = some c' := by
    intro keys
    induction keys with
    | nil => exact fun _ k c hc => Or.inr ⟨c, hc⟩
    | cons k' rest ih =>
        intro count k c hc
        rcases ih _ k c hc with hrest | ⟨c', hc'⟩
        · exact Or.inl (List.mem_cons_of_mem _ hrest)
        · by_cases heq : k = k'
          · exact Or.inl (heq ▸ List.mem_cons_self)
          · have hold : (count.accumulate k' 1)[k]? = some c' := hc'
            rw [KeyValue.Database.accumulate, KeyValue.Database.get_insert,
              if_neg (fun h => heq h.symm)] at hold
            exact Or.inr ⟨c', hold⟩
  obtain ⟨e, he, rfl⟩ := List.mem_map.mp hk
  have hmem := Std.ExtTreeMap.mem_toList_iff_getElem?_eq_some.mp (List.mem_filter.mp he).1
  rcases hcount _ ∅ e.1 e.2 hmem with hkey | ⟨c, hc⟩
  · obtain ⟨keys, hkeys, hiter⟩ := List.mem_flatMap.mp hkey
    obtain ⟨record, hrecord, rfl⟩ := List.mem_map.mp hkeys
    exact ⟨record, hrecord, (order.mem _ _).mp hiter⟩
  · simp at hc

/-- The node of a term of the query, or of an entity of a record whose name is in the
query. -/
def IsSeed (s : Nat) : Prop :=
  (exists t, t ∈ terms query ∧ (build order records relations).node t = some s) ∨
    exists record name, record ∈ records ∧ name ∈ record.entities ∧
      (build order records relations).node (entityKey name) = some s ∧
      CharTables.lowercase name ≠ "" ∧
      (CharTables.lowercase name).toList <:+: (CharTables.lowercase query).toList

theorem mem_seedNodes_iff [LawfulTermTables]
    (hterms : forall record, record ∈ records -> exists text, record.terms = terms text)
    (s : Nat) :
    s ∈ (build order records relations).seedNodes order query ↔
      IsSeed order records relations query s := by
  have hstrip : forall name, stripPrefix "entity:".toList (entityKey name).toList =
      some (CharTables.lowercase name).toList := by
    intro name
    rw [entityKey, String.toList_append, stripPrefix_append]
  rw [RetrievalGraph.seedNodes, List.mem_append, List.mem_filterMap, List.mem_filterMap]
  refine or_congr (exists_congr (fun t => and_congr_left (fun _ => order.mem _ _))) ?_
  constructor
  · rintro ⟨k, hk, hseed⟩
    unfold RetrievalGraph.entitySeed at hseed
    split at hseed
    · next rest hrest =>
      split at hseed
      · next hname =>
        obtain ⟨record, hrecord, hkey⟩ := mem_keys order records relations hk
        have htext := stripPrefix_eq_some hrest
        rcases Finset.mem_union.mp hkey with hterm | hentity
        · obtain ⟨text, heq⟩ := hterms record hrecord
          rw [heq] at hterm
          refine absurd ?_ (colon_not_mem_term hterm)
          rw [htext]
          exact List.mem_append_left _ (by decide)
        · obtain ⟨name, hmem, rfl⟩ := List.mem_map.mp (List.mem_toFinset.mp hentity)
          rw [hstrip] at hrest
          cases hrest
          refine ⟨record, name, hrecord, hmem, hseed, ?_, hname.2⟩
          intro hempty
          exact hname.1 (by rw [hempty]; rfl)
      · cases hseed
    · cases hseed
  · rintro ⟨record, name, hrecord, hmem, hnode, hne, hinfix⟩
    obtain ⟨p, hp, hlt, _⟩ := RetrievalGraph.node_eq_some hnode
    refine ⟨entityKey name, ?_, ?_⟩
    · by_contra hnot
      rw [List.idxOf?_eq_none_iff.mpr hnot] at hp
      cases hp
    · unfold RetrievalGraph.entitySeed
      have hnonempty : (CharTables.lowercase name).toList ≠ [] :=
        fun hnil => hne (String.toList_eq_nil_iff.mp hnil)
      rw [hstrip]
      dsimp only
      rw [if_pos ⟨hnonempty, hinfix⟩, hnode]

/-!
# The records returned
-/

def Found (r : Nat) : Prop :=
  exists s n, IsSeed order records relations query s ∧ n ≤ iterations ∧
    Path (build order records relations).neighbours s n r

/-- The records found, each at its position once, by falling rank; the answer is the ids
of the first of them. -/
structure Answered (limit : Nat) (found : List Nat) : Prop where
  answer : (build order records relations).rank order query limit =
    (found.take limit).filterMap (fun r => (records.map GraphRecord.id)[r]?)
  nodup : found.Nodup
  mem : forall r, r ∈ found ↔
    r < records.length ∧ Found order records relations query r
  falling : found.Pairwise (fun a b =>
    (build order records relations).ranks
        ((build order records relations).seed order query) iterations b ≤
      (build order records relations).ranks
        ((build order records relations).seed order query) iterations a)

structure Divides : Prop where
  counts : forall s, s ∈ (build order records relations).seedNodes order query ->
    0 < (build order records relations).dfAt s
  total : (build order records relations).seedNodes order query ≠ [] ->
    0 < (build order records relations).seedTotal order query
  strengths : forall i, (build order records relations).edges i ≠ [] ->
    0 < (build order records relations).strength i

theorem ordered_nodup (rank : Nat -> Rat) :
    ((build order records relations).ordered rank).Nodup := by
  rw [RetrievalGraph.ordered, (List.mergeSort_perm _ _).nodup_iff]
  exact List.nodup_range.filter _

theorem ordered_falling (rank : Nat -> Rat) :
    ((build order records relations).ordered rank).Pairwise
      (fun a b => rank b ≤ rank a) := by
  have htrans : forall a b c : Nat, decide (rank b ≤ rank a) = true ->
      decide (rank c ≤ rank b) = true -> decide (rank c ≤ rank a) = true :=
    fun a b c hab hbc => decide_eq_true
      ((of_decide_eq_true hbc).trans (of_decide_eq_true hab))
  have htotal : forall a b : Nat,
      (decide (rank b ≤ rank a) || decide (rank a ≤ rank b)) = true := by
    intro a b
    rw [Bool.or_eq_true, decide_eq_true_iff, decide_eq_true_iff]
    exact le_total _ _
  have hsorted := List.pairwise_mergeSort htrans htotal
    ((List.range (build order records relations).records.length).filter
      (fun r => 0 < rank r))
  exact hsorted.imp (fun h => of_decide_eq_true h)

theorem answered [LawfulTermTables]
    (hterms : forall record, record ∈ records -> exists text, record.terms = terms text)
    (limit : Nat) :
    exists found, Answered order records relations query limit found := by
  have hseeds : forall r, Found order records relations query r ↔ exists n, n ≤ iterations ∧
      exists s, s ∈ (build order records relations).seedNodes order query ∧
        Path (build order records relations).neighbours s n r := by
    intro r
    constructor
    · rintro ⟨s, n, hs, hn, hpath⟩
      exact ⟨n, hn, s,
        (mem_seedNodes_iff order records relations query hterms s).mpr hs, hpath⟩
    · rintro ⟨n, hn, s, hs, hpath⟩
      exact ⟨s, n, (mem_seedNodes_iff order records relations query hterms s).mp hs, hn,
        hpath⟩
  have hids : forall found : List Nat,
      found.filterMap (fun r => (build order records relations).records[r]?) =
        found.filterMap (fun r => (records.map GraphRecord.id)[r]?) :=
    fun _ => rfl
  by_cases hzero : (build order records relations).seedTotal order query = 0
  · have hnone : forall r, ¬ Found order records relations query r := by
      intro r hfound
      obtain ⟨n, _, s, hs, _⟩ := (hseeds r).mp hfound
      exact (seedTotal_pos order records relations query hs).ne' hzero
    refine ⟨[], ?_, List.nodup_nil, fun r => ?_, List.Pairwise.nil⟩
    · rw [RetrievalGraph.rank, if_pos hzero, List.take_nil, List.filterMap_nil]
    · exact iff_of_false (List.not_mem_nil) (fun h => hnone r h.2)
  · refine ⟨(build order records relations).ordered ((build order records relations).ranks
      ((build order records relations).seed order query) iterations), ?_,
      ordered_nodup order records relations _, fun r => ?_,
      ordered_falling order records relations _⟩
    · rw [RetrievalGraph.rank, if_neg hzero]
      exact hids _
    · rw [RetrievalGraph.ordered, List.mem_mergeSort, List.mem_filter, List.mem_range,
        length_build, decide_eq_true_iff]
      refine and_congr_right (fun hr => ?_)
      have hsize : r < (build order records relations).size := by
        rw [RetrievalGraph.size, length_build]
        omega
      rw [ranks_pos_iff order records relations query iterations hsize, hseeds]

/-- The ranks are masses of at most one in total, no division is by zero, the records
found come back by falling rank without repeats, and terms and entities are different
nodes. -/
theorem rank_spec [LawfulTermTables]
    (hterms : forall record, record ∈ records -> exists text, record.terms = terms text)
    (limit : Nat) :
    (forall k, Subdistribution (range (build order records relations).size)
      ((build order records relations).ranks
        ((build order records relations).seed order query) k)) ∧
    Divides order records relations query ∧
    (exists found, Answered order records relations query limit found) ∧
    ((records.map GraphRecord.id).Nodup ->
      ((build order records relations).rank order query limit).Nodup) ∧
    forall text t name i, t ∈ terms text ->
      (build order records relations).node t = some i ->
      (build order records relations).node (entityKey name) ≠ some i := by
  refine ⟨ranks_subdistribution order records relations query, ?_,
    answered order records relations query hterms limit, ?_, ?_⟩
  · refine ⟨fun s hs => dfAt_seed_pos order records relations query hs, fun hne => ?_,
      fun i hi => strength_pos order records relations hi⟩
    obtain ⟨s, hs⟩ := List.exists_mem_of_ne_nil _ hne
    exact seedTotal_pos order records relations query hs
  · intro hids
    obtain ⟨found, hfound⟩ := answered order records relations query hterms limit
    rw [hfound.answer]
    refine (hfound.nodup.sublist (List.take_sublist _ _)).filterMap ?_
    intro a a' id ha ha'
    have hlt := (List.getElem?_eq_some_iff.mp (Option.mem_def.mp ha)).1
    exact (List.getElem?_inj hlt hids).mp ((Option.mem_def.mp ha).trans
      (Option.mem_def.mp ha').symm)
  · intro text t name i ht hnode hentity
    exact term_ne_entityKey ht name (RetrievalGraph.node_inj hnode hentity)

end

@[reducible] def asciiTerms : TermTables :=
  { Temporal.asciiWords with
    isUppercase := Char.isUpper
    stem := id }

attribute [local instance] asciiTerms

theorem lawful_asciiTerms : LawfulTermTables where
  colon := by decide
  lowercase := by
    intro s hs
    have hs : ':' ∈ (String.ofList (s.toList.map Char.toLower)).toList := hs
    rw [String.toList_ofList] at hs
    obtain ⟨c, hc, hlower⟩ := List.mem_map.mp hs
    have hcolon : c = ':' := by
      unfold Char.toLower at hlower
      split at hlower
      · next hupper =>
        have hval := congrArg (fun d => d.val.toNat) hlower
        have hfirst : 65 ≤ c.val.toNat := UInt32.le_iff_toNat_le.mp hupper.1
        have hlast : c.val.toNat ≤ 90 := UInt32.le_iff_toNat_le.mp hupper.2
        have hsum : (c.val + 32).toNat = 58 := hval
        rw [UInt32.toNat_add] at hsum
        have hshift : (32 : UInt32).toNat = 32 := rfl
        omega
      · exact hlower
    rw [← hcolon]
    exact hc
  stem := fun _ hs => hs

def sortedOrder : HashOrder String where
  iter := fun s => s.sort (fun a b => a ≤ b)
  nodup := fun s => s.sort_nodup _
  mem := fun s _ => s.mem_sort _

def twoNotes : List (GraphRecord Nat) :=
  [⟨1, terms "tokio", ["Lock"]⟩, ⟨2, terms "heap", ["lock"]⟩]

theorem two_notes_ranked :
    (forall k, Subdistribution (range (build sortedOrder twoNotes []).size)
      ((build sortedOrder twoNotes []).ranks
        ((build sortedOrder twoNotes []).seed sortedOrder "tokio") k)) ∧
    (exists found, Answered sortedOrder twoNotes [] "tokio" 5 found) ∧
    ((build sortedOrder twoNotes []).rank sortedOrder "tokio" 5).Nodup := by
  have := lawful_asciiTerms
  have hterms : forall record, record ∈ twoNotes ->
      exists text, record.terms = terms text := by
    intro record hrecord
    rcases List.mem_cons.mp hrecord with rfl | hrecord
    · exact ⟨"tokio", rfl⟩
    · rw [List.mem_singleton.mp hrecord]
      exact ⟨"heap", rfl⟩
  have hspec := rank_spec sortedOrder twoNotes [] "tokio" hterms 5
  exact ⟨hspec.1, hspec.2.2.1, hspec.2.2.2.1 (by decide)⟩

end Retrieval
end Graph
end PostCortex
