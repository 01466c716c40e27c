import Mathlib.Data.Finset.Sort
import Mathlib.Data.Prod.Lex
import PostCortex.Embeddings.VectorDb
import PostCortex.KeyValue.Firsts
import PostCortex.Search.BoundedHeap

/-!
# Searching the vectors of some sources

`search_sources_inner`, `scan_all`, `scan_ids` and `to_matches` of `vector_db/core.rs`
and the collector `TopK` of `vector_db/common.rs`.  The similarity is a parameter with
values in a linear order, so that no score is a NaN, which `push` drops.  A filter
reads the stored metadata of an id, also what `VectorMetadata` leaves out here.
-/

namespace PostCortex
namespace Embeddings

open KeyValue
open Search
open Transition

structure SearchResult (score : Type) where
  id : Nat
  similarity : score
  deriving DecidableEq

structure SearchMatch (score : Type) where
  vectorId : Nat
  similarity : score
  metadata : VectorMetadata
  deriving DecidableEq

section

variable {score : Type}

def SearchResult.place (r : SearchResult score) : score ×ₗ Natᵒᵈ :=
  toLex (r.similarity, OrderDual.toDual r.id)

theorem place_injective :
    Function.Injective (SearchResult.place : SearchResult score -> score ×ₗ Natᵒᵈ) := by
  intro a b h
  obtain ⟨hsimilarity, hid⟩ := Prod.mk.inj (toLex.injective h)
  cases a with
  | mk id similarity =>
      cases b with
      | mk id' similarity' =>
          cases hsimilarity
          cases OrderDual.toDual.injective hid
          rfl

variable [LinearOrder score]

instance : LinearOrder (SearchResult score) :=
  LinearOrder.lift' SearchResult.place place_injective

theorem le_result_iff {a b : SearchResult score} :
    b ≤ a ↔ b.similarity < a.similarity ∨
      b.similarity = a.similarity ∧ a.id ≤ b.id :=
  Prod.Lex.toLex_le_toLex

/-- `TopK`; the heap pops the least of its results. -/
structure TopK (score : Type) where
  k : Nat
  heap : List (SearchResult score)

namespace TopK

def new (k : Nat) : TopK score :=
  ⟨k, []⟩

def push (top : TopK score) (id : Nat) (similarity : score) : TopK score :=
  { top with heap := offer top.k top.heap ⟨id, similarity⟩ }

def intoSorted (top : TopK score) : List (SearchResult score) :=
  top.heap.reverse

end TopK

end

/-- The order in which a hash set lists its elements. -/
structure Listing where
  list : Finset Nat -> List Nat
  nodup : forall s, (list s).Nodup
  mem : forall s id, id ∈ list s ↔ id ∈ s

abbrev MetadataFilter : Type := Nat -> VectorMetadata -> Bool

namespace VectorDb

variable {scalar score : Type}

def admits (db : VectorDb scalar) (filter : Option MetadataFilter) (id : Nat) : Bool :=
  filter.all (fun keep => db.metadata[id]?.any (keep id))

section

variable [LinearOrder score] (similarity : List scalar -> List scalar -> score)

def scanAll (db : VectorDb scalar) (entries : List (Nat × List scalar))
    (query : List scalar) (k : Nat) (filter : Option MetadataFilter) :
    List (SearchResult score) :=
  (entries.foldl
    (fun top entry =>
      if db.admits filter entry.1 then
        top.push entry.1 (similarity query entry.2)
      else top)
    (TopK.new k)).intoSorted

def scanIds (db : VectorDb scalar) (ids : List Nat) (query : List scalar) (k : Nat)
    (filter : Option MetadataFilter) : List (SearchResult score) :=
  (ids.foldl
    (fun top id =>
      if db.admits filter id then
        match db.vectors[id]? with
        | some stored => top.push id (similarity query stored)
        | none => top
      else top)
    (TopK.new k)).intoSorted

end

def attach (db : VectorDb scalar) (filter : Option MetadataFilter)
    (result : SearchResult score) : Option (SearchMatch score) :=
  (db.metadata[result.id]?).bind (fun metadata =>
    if filter.all (fun keep => keep result.id metadata) then
      some ⟨result.id, result.similarity, metadata⟩
    else none)

def toMatches (db : VectorDb scalar) (results : List (SearchResult score)) (k : Nat)
    (filter : Option MetadataFilter) : List (SearchMatch score) :=
  (results.filterMap (db.attach filter)).take k

def idsOfSources (db : VectorDb scalar) (listing : Listing) (sources : List String) :
    List Nat :=
  (firsts id sources).flatMap (fun source =>
    (db.bySource[source]?).elim [] (fun entry => listing.list entry.ids))

def checkQuery (config : VectorDbConfig) (query : List scalar) : Except String Unit :=
  if query.length = config.dimension then Except.ok ()
  else
    Except.error ("Query vector dimension " ++ toString query.length ++
      " does not match expected " ++ toString config.dimension)

section

variable [LinearOrder score] (similarity : List scalar -> List scalar -> score)

def searchSourcesInner (config : VectorDbConfig) (db : VectorDb scalar)
    (listing : Listing) (query : List scalar) (k : Nat) (sources : List String)
    (filter : Option MetadataFilter) : Except String (List (SearchMatch score)) :=
  (checkQuery config query).map (fun _ =>
    db.toMatches
      (db.scanIds similarity (db.idsOfSources listing sources) query k filter) k none)

def searchInSources (config : VectorDbConfig) (db : VectorDb scalar)
    (listing : Listing) (query : List scalar) (k : Nat) (sources : List String) :
    Except String (List (SearchMatch score)) :=
  db.searchSourcesInner similarity config listing query k sources none

def searchInSourcesWithFilter (config : VectorDbConfig) (db : VectorDb scalar)
    (listing : Listing) (query : List scalar) (k : Nat) (sources : List String)
    (filter : MetadataFilter) : Except String (List (SearchMatch score)) :=
  db.searchSourcesInner similarity config listing query k sources (some filter)

/-!
# The exact search
-/

/-- A higher similarity comes first, and of equal ones the lower id. -/
def Precedes (a b : SearchMatch score) : Prop :=
  b.similarity < a.similarity ∨ b.similarity = a.similarity ∧ a.vectorId ≤ b.vectorId

instance : DecidableRel (@Precedes score _) :=
  fun _ _ => inferInstanceAs (Decidable (_ ∨ _))

def passing (db : VectorDb scalar) (query : List scalar) (keep : MetadataFilter) :
    List (SearchMatch score) :=
  (db.records.filter (fun r => keep r.1 r.2)).filterMap (fun r =>
    (db.vectors[r.1]?).map (fun stored => ⟨r.1, similarity query stored, r.2⟩))

def exactMatches (db : VectorDb scalar) (query : List scalar) (k : Nat)
    (keep : MetadataFilter) : List (SearchMatch score) :=
  ((db.passing similarity query keep).insertionSort Precedes).take k

def combined (sources : List String) (filter : MetadataFilter) : MetadataFilter :=
  fun id metadata => decide (metadata.source ∈ sources) && filter id metadata

/-!
# What a scan scores
-/

def scored (db : VectorDb scalar) (query : List scalar) (filter : Option MetadataFilter)
    (id : Nat) : Option (SearchResult score) :=
  if db.admits filter id then
    (db.vectors[id]?).map (fun stored => ⟨id, similarity query stored⟩)
  else none

variable {similarity}

variable {db : VectorDb scalar} {query : List scalar} {filter : Option MetadataFilter}

omit [LinearOrder score] in
theorem scored_id {id : Nat} {r : SearchResult score}
    (h : db.scored similarity query filter id = some r) : r.id = id := by
  unfold scored at h
  split at h
  · obtain ⟨stored, _, rfl⟩ := Option.map_eq_some_iff.mp h
    rfl
  · cases h

theorem scanIds_eq (db : VectorDb scalar) (ids : List Nat) (query : List scalar)
    (k : Nat) (filter : Option MetadataFilter) :
    db.scanIds similarity ids query k filter =
      (offerAll k (ids.filterMap (db.scored similarity query filter))).reverse := by
  have hfold : forall (ids : List Nat) (top : TopK score),
      ids.foldl
        (fun top id =>
          if db.admits filter id then
            match db.vectors[id]? with
            | some stored => top.push id (similarity query stored)
            | none => top
          else top) top =
        ⟨top.k, (ids.filterMap (db.scored similarity query filter)).foldl
          (offer top.k) top.heap⟩ := by
    intro ids
    induction ids with
    | nil =>
        intro top
        rfl
    | cons id rest ih =>
        intro top
        rw [List.foldl_cons, ih]
        by_cases hadmits : db.admits filter id = true
        · rw [if_pos hadmits]
          cases hstored : db.vectors[id]? with
          | none =>
              have hscored : db.scored similarity query filter id = none := by
                rw [scored, if_pos hadmits, hstored]
                rfl
              rw [List.filterMap_cons_none hscored]
          | some stored =>
              have hscored : db.scored similarity query filter id =
                  some ⟨id, similarity query stored⟩ := by
                rw [scored, if_pos hadmits, hstored]
                rfl
              rw [List.filterMap_cons_some hscored]
              rfl
        · have hscored : db.scored similarity query filter id = none := by
            rw [scored, if_neg hadmits]
          rw [if_neg hadmits, List.filterMap_cons_none hscored]
  rw [scanIds, hfold]
  rfl

theorem scanAll_eq {entries : List (Nat × List scalar)}
    (hentries : entries.Perm db.vectors.toList) (query : List scalar) (k : Nat)
    (filter : Option MetadataFilter) :
    db.scanAll similarity entries query k filter =
      db.scanIds similarity (entries.map Prod.fst) query k filter := by
  rw [scanAll, scanIds, List.foldl_map]
  congr 1
  apply List.foldl_ext
  intro top entry hentry
  have hmem := hentries.mem_iff.mp hentry
  have hstored : db.vectors[entry.1]? = some entry.2 :=
    Std.ExtTreeMap.mem_toList_iff_getElem?_eq_some.mp hmem
  rw [hstored]

def resultOf (m : SearchMatch score) : SearchResult score :=
  ⟨m.vectorId, m.similarity⟩

variable {config : VectorDbConfig}

variable {keep : MetadataFilter}

omit [LinearOrder score] in
theorem mem_passing {m : SearchMatch score} :
    m ∈ db.passing similarity query keep ↔
      exists stored, db.vectors[m.vectorId]? = some stored ∧
        db.metadata[m.vectorId]? = some m.metadata ∧
          keep m.vectorId m.metadata = true ∧
            m.similarity = similarity query stored := by
  unfold passing
  rw [List.mem_filterMap]
  constructor
  · rintro ⟨r, hr, hmap⟩
    obtain ⟨hrecord, hkeep⟩ := List.mem_filter.mp hr
    obtain ⟨stored, hstored, rfl⟩ := Option.map_eq_some_iff.mp hmap
    exact ⟨stored, hstored, mem_records.mp hrecord, hkeep, rfl⟩
  · rintro ⟨stored, hstored, hmetadata, hkeep, hsimilarity⟩
    refine ⟨(m.vectorId, m.metadata),
      List.mem_filter.mpr ⟨mem_records.mpr hmetadata, hkeep⟩, ?_⟩
    rw [hstored, Option.map_some, ← hsimilarity]

omit [LinearOrder score] in
theorem nodup_passing (db : VectorDb scalar) (query : List scalar)
    (keep : MetadataFilter) :
    ((db.passing similarity query keep).map resultOf).Nodup := by
  have hids : ((db.records.filter (fun r => keep r.1 r.2)).map Prod.fst).Nodup :=
    (nodup_records db).sublist (List.filter_sublist.map _)
  have hsublist : ((db.passing similarity query keep).map
      SearchMatch.vectorId).Sublist
        ((db.records.filter (fun r => keep r.1 r.2)).map Prod.fst) := by
    unfold passing
    rw [List.map_filterMap]
    induction db.records.filter (fun r => keep r.1 r.2) with
    | nil => exact List.Sublist.slnil
    | cons r rest ih =>
        cases hstored : db.vectors[r.1]? with
        | none =>
            rw [List.filterMap_cons_none (by rw [hstored]; rfl), List.map_cons]
            exact ih.cons _
        | some stored =>
            rw [List.filterMap_cons_some (b := r.1) (by rw [hstored]; rfl), List.map_cons]
            exact ih.cons_cons _
  have hmap : ((db.passing similarity query keep).map resultOf).map SearchResult.id =
      (db.passing similarity query keep).map SearchMatch.vectorId := by
    rw [List.map_map]
    rfl
  refine List.Nodup.of_map SearchResult.id ?_
  rw [hmap]
  exact hids.sublist hsublist

theorem toMatches_exact {results : List (SearchResult score)} (k : Nat)
    (hresults : results.Perm ((db.passing similarity query keep).map resultOf)) :
    db.toMatches (offerAll k results).reverse k none =
      db.exactMatches similarity query k keep := by
  have hsorted : ((db.passing similarity query keep).insertionSort Precedes).map
      resultOf = descending ((db.passing similarity query keep).map resultOf) := by
    have horder : forall a b : SearchMatch score,
        Precedes a b ↔ resultOf b ≤ resultOf a :=
      fun a b => (@le_result_iff score _ (resultOf a) (resultOf b)).symm
    exact List.map_insertionSort _ _ resultOf _ (fun a _ b _ => horder a b)
  have hattach : forall m, m ∈ db.passing similarity query keep ->
      db.attach none (resultOf m) = some m := by
    intro m hm
    obtain ⟨stored, _, hmetadata, _⟩ := mem_passing.mp hm
    rw [attach, resultOf, hmetadata]
    rfl
  have hcut : ((db.passing similarity query keep).insertionSort Precedes |>.take k
      |>.map resultOf).filterMap (db.attach none) =
        db.exactMatches similarity query k keep := by
    rw [List.filterMap_map, exactMatches]
    have hall : forall m,
        m ∈ ((db.passing similarity query keep).insertionSort Precedes).take k ->
          (db.attach none ∘ resultOf) m = some m := by
      intro m hm
      exact hattach m ((List.mem_insertionSort _).mp (List.mem_of_mem_take hm))
    rw [List.filterMap_congr hall, List.filterMap_some]
  rw [offerAll_eq, List.reverse_reverse, descending_perm hresults, ← hsorted,
    ← List.map_take, toMatches, hcut]
  refine List.take_of_length_le ?_
  rw [exactMatches, List.length_take]
  exact Nat.min_le_left _ _

variable [Graph.WordTables]

theorem scanIds_exact (hdb : Coherent config db) {ids : List Nat} (hids : ids.Nodup)
    (hkeep : forall id metadata,
      db.metadata[id]? = some metadata ->
        (id ∈ ids ∧ filter.all (fun f => f id metadata) = true ↔
          keep id metadata = true)) (query : List scalar) (k : Nat) :
    db.toMatches (db.scanIds similarity ids query k filter) k none =
      db.exactMatches similarity query k keep := by
  rw [scanIds_eq]
  apply toMatches_exact
  rw [List.perm_ext_iff_of_nodup]
  · intro r
    rw [List.mem_filterMap, List.mem_map]
    constructor
    · rintro ⟨id, hid, hscored⟩
      unfold scored at hscored
      split at hscored
      · next hadmits =>
        obtain ⟨stored, hstored, rfl⟩ := Option.map_eq_some_iff.mp hscored
        have hmem : id ∈ db.metadata :=
          (hdb.sameIds id).mp (Std.ExtTreeMap.mem_iff_isSome_getElem?.mpr
            (by rw [hstored]; rfl))
        obtain ⟨metadata, hmetadata⟩ :=
          Option.isSome_iff_exists.mp (Std.ExtTreeMap.mem_iff_isSome_getElem?.mp hmem)
        have hall : filter.all (fun f => f id metadata) = true := by
          rw [admits, hmetadata] at hadmits
          exact hadmits
        refine ⟨⟨id, similarity query stored, metadata⟩, mem_passing.mpr ?_, rfl⟩
        exact ⟨stored, hstored, hmetadata, (hkeep id metadata hmetadata).mp ⟨hid, hall⟩,
          rfl⟩
      · cases hscored
    · rintro ⟨m, hm, rfl⟩
      obtain ⟨stored, hstored, hmetadata, hpasses, hsimilarity⟩ := mem_passing.mp hm
      obtain ⟨hid, hall⟩ := (hkeep m.vectorId m.metadata hmetadata).mpr hpasses
      refine ⟨m.vectorId, hid, ?_⟩
      have hadmits : db.admits filter m.vectorId = true := by
        rw [admits, hmetadata]
        exact hall
      rw [scored, if_pos hadmits, hstored, Option.map_some, ← hsimilarity]
      rfl
  · refine hids.filterMap ?_
    intro a b r ha hb
    rw [← scored_id ha, ← scored_id hb]
  · exact nodup_passing db query keep

theorem mem_listed (hdb : Coherent config db) (listing : Listing) (source : String)
    (id : Nat) :
    id ∈ (db.bySource[source]?).elim [] (fun entry => listing.list entry.ids) ↔
      exists metadata, db.metadata[id]? = some metadata ∧ metadata.source = source := by
  have hrecord : (exists metadata, db.metadata[id]? = some metadata ∧
      metadata.source = source) ↔
      id ∈ (db.records.filter (fun r => r.2.source = source)).map Prod.fst := by
    constructor
    · rintro ⟨metadata, hmetadata, hsource⟩
      exact List.mem_map.mpr ⟨(id, metadata),
        List.mem_filter.mpr ⟨mem_records.mpr hmetadata, decide_eq_true hsource⟩, rfl⟩
    · intro hmem
      obtain ⟨r, hr, rfl⟩ := List.mem_map.mp hmem
      obtain ⟨hstored, hsource⟩ := List.mem_filter.mp hr
      exact ⟨r.2, mem_records.mp hstored, of_decide_eq_true hsource⟩
  rw [hrecord, hdb.bySource, sourceEntry, entryOf]
  split
  · next hnil =>
    rw [hnil]
    rfl
  · rw [Option.elim_some, listing.mem, idsOf, List.mem_toFinset]

theorem mem_idsOfSources (hdb : Coherent config db) (listing : Listing)
    (sources : List String) (v : Nat) :
    v ∈ db.idsOfSources listing sources ↔
      exists metadata, db.metadata[v]? = some metadata ∧
        metadata.source ∈ sources := by
  have hfirst : forall source, source ∈ firsts id sources ↔ source ∈ sources := by
    intro source
    have hkeys := @mem_keys_firsts String String _ id sources source
    rwa [List.map_id, List.map_id] at hkeys
  unfold idsOfSources
  rw [List.mem_flatMap]
  constructor
  · rintro ⟨source, hsource, hv⟩
    obtain ⟨metadata, hmetadata, rfl⟩ := (mem_listed hdb listing source v).mp hv
    exact ⟨metadata, hmetadata, (hfirst _).mp hsource⟩
  · rintro ⟨metadata, hmetadata, hsource⟩
    exact ⟨metadata.source, (hfirst _).mpr hsource,
      (mem_listed hdb listing metadata.source v).mpr ⟨metadata, hmetadata, rfl⟩⟩

theorem nodup_idsOfSources (hdb : Coherent config db) (listing : Listing)
    (sources : List String) :
    (db.idsOfSources listing sources).Nodup := by
  have hsources : (firsts id sources).Nodup := by
    have hkeys := @nodup_firsts String String _ id sources
    rwa [List.map_id] at hkeys
  refine List.nodup_flatMap.mpr ⟨?_, hsources.imp ?_⟩
  · intro source _
    cases db.bySource[source]? with
    | none => exact List.nodup_nil
    | some entry => exact listing.nodup entry.ids
  · intro a b hne id ha hb
    obtain ⟨metadata, hmetadata, rfl⟩ := (mem_listed hdb listing a id).mp ha
    obtain ⟨other, hother, rfl⟩ := (mem_listed hdb listing b id).mp hb
    rw [hmetadata] at hother
    cases hother
    exact hne rfl

/-- In every run with fewer than `2^32` ids between two `clear` calls a search in
sources is the exact one, and so is a scan of all vectors with the combined filter. -/
theorem source_search_exact {db : VectorDb scalar}
    (h : (database config).Reachable (Unwrapped config) db) (listing : Listing)
    (query : List scalar) (k : Nat) (sources : List String) (filter : MetadataFilter) :
    db.searchInSourcesWithFilter similarity config listing query k sources filter =
        (checkQuery config query).map (fun _ =>
          db.exactMatches similarity query k (combined sources filter)) ∧
      forall entries, entries.Perm db.vectors.toList ->
        db.toMatches
            (db.scanAll similarity entries query k (some (combined sources filter)))
            k none =
          db.exactMatches similarity query k (combined sources filter) := by
  have hdb := reachable_coherent h
  constructor
  · rw [searchInSourcesWithFilter, searchSourcesInner,
      scanIds_exact hdb (nodup_idsOfSources hdb listing sources)]
    intro id metadata hmetadata
    rw [mem_idsOfSources hdb, combined, Bool.and_eq_true, decide_eq_true_iff,
      Option.all_some]
    constructor
    · rintro ⟨⟨other, hother, hsource⟩, hpasses⟩
      rw [hmetadata] at hother
      cases hother
      exact ⟨hsource, hpasses⟩
    · exact fun hpasses => ⟨⟨metadata, hmetadata, hpasses.1⟩, hpasses.2⟩
  · intro entries hentries
    have hkeys : (entries.map Prod.fst).Perm db.vectors.keys := by
      rw [← Std.ExtTreeMap.map_fst_toList_eq_keys]
      exact hentries.map Prod.fst
    have hnodup : (entries.map Prod.fst).Nodup := by
      rw [hkeys.nodup_iff]
      refine Std.ExtTreeMap.distinct_keys.imp ?_
      rintro a b hne rfl
      exact hne Std.ReflCmp.compare_self
    rw [scanAll_eq hentries, scanIds_exact hdb hnodup]
    intro id metadata hmetadata
    have hid : id ∈ entries.map Prod.fst := by
      rw [hkeys.mem_iff, Std.ExtTreeMap.mem_keys, hdb.sameIds,
        Std.ExtTreeMap.mem_iff_isSome_getElem?, hmetadata]
      rfl
    rw [Option.all_some]
    exact and_iff_right hid

end

/-!
# Ids that come again
-/

section

variable [Graph.WordTables] {config : VectorDbConfig}

theorem insertUnindexed_plain (hplain : config.fullTextIndex = false)
    (db : VectorDb scalar) {vector : List scalar} (hdimension : vector.length = config.dimension)
    (hroom : db.vectors.size < config.maxVectors) (metadata : VectorMetadata) :
    exists db', db.insertUnindexed config vector metadata =
        some (db', Except.ok db.nextId) ∧
      db'.nextId = (db.nextId + 1) % 2 ^ 32 ∧
      db'.vectors = db.vectors.insert db.nextId vector ∧
      db'.metadata = db.metadata.insert db.nextId metadata ∧
      exists entry, db'.bySource = db.bySource.insert metadata.source entry := by
  unfold insertUnindexed
  rw [if_neg (not_not.mpr hdimension), atCapacity, if_neg (by
    rw [decide_eq_true_iff]
    exact Nat.not_le.mpr hroom)]
  unfold indexMetadata TextIndex.add
  dsimp only
  rw [if_pos hplain]
  exact ⟨_, rfl, rfl, rfl, rfl, _, rfl⟩

theorem forget_metadata {db db' : VectorDb scalar} {v : Nat}
    (h : db.forget v = some db') :
    db'.metadata = db.metadata.erase v ∧ db'.nextId = db.nextId := by
  unfold forget at h
  split at h
  · next hnone =>
    cases h
    refine ⟨Std.ExtTreeMap.ext_getElem? ?_, rfl⟩
    intro x
    rw [Std.ExtTreeMap.getElem?_erase]
    split
    · next hsame =>
      rw [← Std.compare_eq_iff_eq.mp hsame, hnone]
    · rfl
  · unfold unindexMetadata at h
    obtain ⟨messages, _, hmap⟩ := Option.bind_eq_some_iff.mp h
    obtain ⟨index, _, rfl⟩ := Option.map_eq_some_iff.mp hmap
    exact ⟨rfl, rfl⟩

end

section

attribute [local instance] Graph.Temporal.asciiWords

def ascending : Listing where
  list := fun s => s.sort (fun a b => a ≤ b)
  nodup := fun s => Finset.sort_nodup s _
  mem := fun _ _ => Finset.mem_sort _

def first : VectorMetadata :=
  ⟨"u", "", "s", "UpdateContent"⟩

def later : VectorMetadata :=
  ⟨"v", "", "t", "UpdateContent"⟩

def small : VectorDbConfig :=
  ⟨1, 3, false⟩

def product (a b : List Nat) : Nat :=
  (List.zipWith (fun x y => x * y) a b).sum

/-- One vector is left of many, and the next id is `n`. -/
structure OneLeft (n : Nat) (db : VectorDb Nat) : Prop where
  reached : (database small).Reachable System.Anything db
  coherent : Coherent small db
  next : db.nextId = n
  only : forall v metadata, db.metadata[v]? = some metadata -> v = 0
  oldest : db.metadata[0]? = some first

variable {n : Nat} {db : VectorDb Nat}

theorem OneLeft.size (h : OneLeft n db) :
    db.vectors.size ≤ 1 := by
  rw [← Std.ExtTreeMap.length_keys]
  have hnodup : db.vectors.keys.Nodup := by
    refine Std.ExtTreeMap.distinct_keys.imp ?_
    rintro a b hne rfl
    exact hne Std.ReflCmp.compare_self
  have hsub : db.vectors.keys ⊆ [0] := by
    intro v hv
    rw [Std.ExtTreeMap.mem_keys, h.coherent.sameIds,
      Std.ExtTreeMap.mem_iff_isSome_getElem?] at hv
    obtain ⟨metadata, hmetadata⟩ := Option.isSome_iff_exists.mp hv
    rw [h.only v metadata hmetadata]
    exact List.mem_singleton.mpr rfl
  exact (hnodup.subperm hsub).length_le

theorem add_step (hreach : (database small).Reachable System.Anything db)
    (hroom : db.vectors.size < 3) (component : Nat) (metadata : VectorMetadata) :
    exists db', (database small).Reachable System.Anything db' ∧
      db.insertUnindexed small [component] metadata =
        some (db', Except.ok db.nextId) ∧
      db'.nextId = (db.nextId + 1) % 2 ^ 32 ∧
      db'.vectors = db.vectors.insert db.nextId [component] ∧
      db'.metadata = db.metadata.insert db.nextId metadata ∧
      exists entry, db'.bySource = db.bySource.insert metadata.source entry := by
  obtain ⟨db', hinsert, hrest⟩ :=
    @insertUnindexed_plain Nat _ small rfl db [component] rfl hroom metadata
  have hstep : (database small).step db (Call.addVector [component] metadata) =
      some db' := by
    change (VectorDb.addVector small db [component] metadata).map Prod.fst = some db'
    rw [addVector, hinsert]
    rfl
  have hanything : System.Anything db (Call.addVector [component] metadata) :=
    True.intro
  exact ⟨db', hreach.step hanything hstep, hinsert, hrest⟩

theorem coherent_add {db' : VectorDb Nat} (h : Coherent small db)
    (hnext : db.nextId + 1 < 2 ^ 32) {component : Nat} {metadata : VectorMetadata}
    {result : Except String Nat}
    (hinsert : db.insertUnindexed small [component] metadata = some (db', result)) :
    Coherent small db' := by
  have hissued : db.issued small [([component], metadata)] ≤ 1 :=
    (Nat.min_le_left _ _).trans List.countP_le_length
  obtain ⟨other, _, hother, hcoherent, _⟩ :=
    h.insertUnindexed [component] metadata (by omega)
  rw [hinsert] at hother
  cases hother
  exact hcoherent

theorem oneLeft_first : exists db, OneLeft 1 db := by
  obtain ⟨db, hreach, hinsert, hnext, _, hmetadata, _⟩ :=
    add_step System.Reachable.init (by decide) 2 first
  have hempty : (database small : System (VectorDb Nat) (Call Nat)).init.nextId = 0 :=
    rfl
  rw [hempty] at hnext hmetadata
  refine ⟨db, hreach, coherent_add (coherent_empty small) (by decide) hinsert, hnext,
    ?_, ?_⟩
  · intro v metadata hv
    rw [hmetadata, Std.ExtTreeMap.getElem?_insert] at hv
    split at hv
    · next hsame => exact (Std.compare_eq_iff_eq.mp hsame).symm
    · cases hv
  · rw [hmetadata, Std.ExtTreeMap.getElem?_insert_self]

theorem OneLeft.next_id (h : OneLeft n db) (hpos : 0 < n) (hlast : n + 1 < 2 ^ 32) :
    exists db', OneLeft (n + 1) db' := by
  have hsize := h.size
  obtain ⟨added, hreach, hinsert, hnext, _, hmetadata, _⟩ :=
    add_step h.reached (by omega) 3 later
  have hadded := coherent_add h.coherent (by rw [h.next]; exact hlast) hinsert
  rw [h.next] at hnext hmetadata
  rw [Nat.mod_eq_of_lt hlast] at hnext
  obtain ⟨db', removed, hremove, hcoherent⟩ := hadded.removeVector n
  have hstep : (database small).step added (Call.removeVector n) = some db' := by
    change (added.removeVector n).map Prod.fst = some db'
    rw [hremove]
    rfl
  have hanything : System.Anything added (Call.removeVector n : Call Nat) := True.intro
  rw [VectorDb.removeVector] at hremove
  obtain ⟨forgotten, hforget, hpair⟩ := Option.map_eq_some_iff.mp hremove
  cases hpair
  obtain ⟨hleft, hsameNext⟩ := forget_metadata hforget
  dsimp only at hleft hsameNext
  have hget : forall v, db'.metadata[v]? = if n = v then none else db.metadata[v]? := by
    intro v
    rw [hleft, hmetadata, Std.ExtTreeMap.getElem?_erase,
      Std.ExtTreeMap.getElem?_insert]
    by_cases hv : n = v
    · rw [if_pos (Std.compare_eq_iff_eq.mpr hv), if_pos hv]
    · rw [if_neg (mt Std.compare_eq_iff_eq.mp hv),
        if_neg (mt Std.compare_eq_iff_eq.mp hv), if_neg hv]
  refine ⟨db', hreach.step hanything hstep, hcoherent, hsameNext.trans hnext, ?_, ?_⟩
  · intro v metadata hv
    rw [hget] at hv
    split at hv
    · cases hv
    · exact h.only v metadata hv
  · rw [hget, if_neg (by omega)]
    exact h.oldest

theorem oneLeft_reached (n : Nat) (hlast : n + 1 < 2 ^ 32) :
    exists db, OneLeft (n + 1) db := by
  induction n with
  | zero => exact oneLeft_first
  | succ n ih =>
      obtain ⟨db, hdb⟩ := ih (by omega)
      exact hdb.next_id (Nat.succ_pos n) hlast

theorem OneLeft.records (h : OneLeft n db) :
    db.records = [(0, first)] := by
  have hone : forall r, r ∈ db.records ↔ r = (0, first) := by
    intro r
    constructor
    · intro hr
      have hget := mem_records.mp hr
      have hzero := h.only r.1 r.2 hget
      rw [hzero, h.oldest] at hget
      exact Prod.ext hzero (Option.some.inj hget).symm
    · rintro rfl
      exact mem_records.mpr h.oldest
  have hnodup : db.records.Nodup := List.Nodup.of_map _ (nodup_records db)
  refine List.perm_singleton.mp
    ((List.perm_ext_iff_of_nodup hnodup (List.nodup_singleton _)).mpr ?_)
  intro r
  rw [hone, List.mem_singleton]

/-- After `2^32` ids the first one comes again, for a vector of another source, and a
search in the old source finds this vector. -/
theorem wrapped_id_is_found :
    exists db : VectorDb Nat, (database small).Reachable System.Anything db ∧
      db.searchInSourcesWithFilter product small ascending [7] 1 ["s"]
        (fun _ _ => true) = Except.ok [⟨0, 35, later⟩] ∧
      db.exactMatches product [7] 1 (combined ["s"] (fun _ _ => true)) = [] := by
  obtain ⟨db, h⟩ := oneLeft_reached (2 ^ 32 - 2) (by decide)
  have hsize := h.size
  obtain ⟨last, hreach, _, hnext, hvectors, hmetadata, entry, hsource⟩ :=
    add_step h.reached (by omega) 3 later
  rw [h.next] at hnext hvectors hmetadata
  have hlastSize : last.vectors.size ≤ 2 := by
    rw [hvectors]
    exact Std.ExtTreeMap.size_insert_le.trans (by omega)
  obtain ⟨wrapped, hreach', _, _, hvectors', hmetadata', entry', hsource'⟩ :=
    add_step hreach (by omega) 5 later
  have hzero : last.nextId = 0 := hnext
  rw [hzero] at hvectors' hmetadata'
  have hfirst : wrapped.metadata[0]? = some later := by
    rw [hmetadata', Std.ExtTreeMap.getElem?_insert_self]
  have hstored : wrapped.vectors[0]? = some [5] := by
    rw [hvectors', Std.ExtTreeMap.getElem?_insert_self]
  have hentry : wrapped.bySource["s"]? = some ⟨{0}, 1⟩ := by
    have hother : compare later.source "s" ≠ Ordering.eq := by decide
    rw [hsource', Std.ExtTreeMap.getElem?_insert, if_neg hother, hsource,
      Std.ExtTreeMap.getElem?_insert, if_neg hother, h.coherent.bySource, h.records]
    rfl
  refine ⟨wrapped, hreach', ?_, ?_⟩
  · have hids : wrapped.idsOfSources ascending ["s"] = [0] := by
      have hone : firsts id ["s"] = ["s"] := rfl
      rw [idsOfSources, hone, List.flatMap_singleton, hentry]
      exact Finset.sort_singleton _ 0
    have hadmits : wrapped.admits (some (fun _ _ => true)) 0 = true := by
      rw [admits, hfirst]
      rfl
    have hscored : wrapped.scored product [7] (some (fun _ _ => true)) 0 =
        some ⟨0, 35⟩ := by
      rw [scored, if_pos hadmits, hstored]
      rfl
    have hscan : wrapped.scanIds product [0] [7] 1 (some (fun _ _ => true)) =
        [⟨0, 35⟩] := by
      rw [scanIds_eq, List.filterMap_cons_some hscored]
      rfl
    have hattach : wrapped.attach none (⟨0, 35⟩ : SearchResult Nat) =
        some ⟨0, 35, later⟩ := by
      rw [attach, hfirst]
      rfl
    have hmatches : wrapped.toMatches [(⟨0, 35⟩ : SearchResult Nat)] 1 none =
        [⟨0, 35, later⟩] := by
      rw [toMatches, List.filterMap_cons_some hattach]
      rfl
    rw [searchInSourcesWithFilter, searchSourcesInner, hids, hscan, hmatches]
    rfl
  · have hlater : forall (v : Nat) metadata, wrapped.metadata[v]? = some metadata ->
        metadata = later := by
      intro v metadata hget
      rw [hmetadata', Std.ExtTreeMap.getElem?_insert] at hget
      split at hget
      · exact (Option.some.inj hget).symm
      · next hne =>
        rw [hmetadata, Std.ExtTreeMap.getElem?_insert] at hget
        split at hget
        · exact (Option.some.inj hget).symm
        · exact absurd (Std.compare_eq_iff_eq.mpr (h.only _ _ hget).symm) hne
    have hnone : wrapped.passing product [7] (combined ["s"] (fun _ _ => true)) = [] := by
      rw [List.eq_nil_iff_forall_not_mem]
      intro m hm
      obtain ⟨_, _, hget, hkeep, _⟩ := mem_passing.mp hm
      rw [hlater _ _ hget] at hkeep
      have hfalse : combined ["s"] (fun _ _ => true) m.vectorId later = false := rfl
      rw [hfalse] at hkeep
      cases hkeep
    rw [exactMatches, hnone]
    rfl

/-- Two sources are searched, one of them named twice. -/
theorem source_search_exact_run :
    exists db : VectorDb Nat,
      (database small).Reachable (Unwrapped small) db ∧
      db.searchInSourcesWithFilter product small ascending [7] 2 ["t", "s", "t"]
          (fun v _ => v != 0) =
        Except.ok
          (db.exactMatches product [7] 2
            (combined ["t", "s", "t"] (fun v _ => v != 0))) ∧
      db.exactMatches product [7] 2 (combined ["t", "s", "t"] (fun v _ => v != 0)) =
        [⟨1, 35, later⟩, ⟨2, 35, first⟩] := by
  obtain ⟨db, -, hreach, hvalues⟩ := (database small).replay_reaches (Unwrapped small)
    [Call.addVector [2] first, Call.addVectorsBulk [([5], later), ([5], first)]]
    (fun db : VectorDb Nat => db.exactMatches product [7] 2
        (combined ["t", "s", "t"] (fun v _ => v != 0)) =
      [⟨1, 35, later⟩, ⟨2, 35, first⟩]) (by decide +kernel)
  exact ⟨db, hreach,
    (source_search_exact hreach ascending [7] 2 ["t", "s", "t"] (fun v _ => v != 0)).1,
    hvalues⟩

end

end VectorDb
end Embeddings
end PostCortex
