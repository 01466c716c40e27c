import PostCortex.Core.Cache
import PostCortex.KeyValue.Totals
import PostCortex.Search.Selection
import PostCortex.Search.SemanticSearch

/-!
# What the query cache counts

`QueryCache` of `query_cache.rs` with its statistics, used by one caller at a time: a
key still maps to the entry that was read.  Byte counts are taken not to overflow.  The
sizes of the two structures, the score of an entry and the selection of the lowest
scores are parameters.
-/

namespace PostCortex
namespace Search

open PostCortex.Core
open KeyValue
open Transition
open Std

structure QueryCacheStats where
  totalQueries : Nat
  cacheHits : Nat
  cacheMisses : Nat
  expiredRemoved : Nat
  evictedEntries : Nat
  currentCacheSize : Nat
  estimatedMemoryBytes : Nat
  deriving DecidableEq, Repr

def QueryCacheStats.new : QueryCacheStats where
  totalQueries := 0
  cacheHits := 0
  cacheMisses := 0
  expiredRemoved := 0
  evictedEntries := 0
  currentCacheSize := 0
  estimatedMemoryBytes := 0

structure Sizes where
  result : Nat
  entry : Nat

def estimateEntryBytes {score : Type} (sizes : Sizes) (queryText : String)
    (results : List (SearchResult score)) : Nat :=
  let resultsBytes :=
    (results.map (fun r =>
      sizes.result + r.contentId.utf8ByteSize + r.textContent.utf8ByteSize)).sum
  queryText.utf8ByteSize + resultsBytes + sizes.entry

abbrev QueryEntry (score : Type) : Type :=
  CachedQuery (List (SearchResult score))

namespace CachedQuery

variable {score f32 : Type}

def estimatedBytes (sizes : Sizes) (entry : QueryEntry score) : Nat :=
  estimateEntryBytes sizes entry.queryText entry.results

def efficiencyScore (efficiency : Nat -> Nat -> f32) (now : Nat) (entry : QueryEntry score) :
    f32 :=
  let hours := max ((now - entry.cachedAt) / nanosPerSecond / 3600) 1
  efficiency hours entry.accessCount

end CachedQuery

structure AccountedCache (score : Type) where
  queries : QueryCache (List (SearchResult score))
  stats : QueryCacheStats

namespace AccountedCache

variable {score f32 : Type}

def new : AccountedCache score where
  queries := QueryCache.new
  stats := QueryCacheStats.new

section

variable (config : QueryCacheConfig) (sizes : Sizes) (now : Nat) (c : AccountedCache score)

def subBytes (bytes : Nat) : AccountedCache score :=
  { c with
    stats := { c.stats with estimatedMemoryBytes := c.stats.estimatedMemoryBytes - bytes } }

def syncSize : AccountedCache score :=
  { c with stats := { c.stats with currentCacheSize := c.queries.cache.size } }

def account (paramsHash : Nat) (removed : QueryEntry score) : AccountedCache score :=
  let erased := { c with queries := { c.queries with cache := c.queries.cache.erase paramsHash } }
  erased.subBytes (removed.estimatedBytes sizes)

def removeExpired (paramsHash : Nat) (entry : QueryEntry score) : AccountedCache score :=
  let accounted := c.account sizes paramsHash entry
  let counted :=
    { accounted with
      stats := { accounted.stats with expiredRemoved := accounted.stats.expiredRemoved + 1 } }
  counted.syncSize

def countLookup (hit : Bool) : AccountedCache score :=
  { c with
    stats :=
      if hit then { c.stats with cacheHits := c.stats.cacheHits + 1 }
      else { c.stats with cacheMisses := c.stats.cacheMisses + 1 } }

def get (paramsHash : Nat) (queryText : String) :
    Option (List (SearchResult score)) × AccountedCache score :=
  let asked := { c with stats := { c.stats with totalQueries := c.stats.totalQueries + 1 } }
  let looked :=
    match asked.queries.cache[paramsHash]? with
    | none => (none, asked)
    | some entry =>
        if entry.isExpired config now then (none, asked.removeExpired sizes paramsHash entry)
        else if entry.queryText = queryText then
          (some entry.results,
            { asked with
              queries :=
                { asked.queries with
                  cache := asked.queries.cache.insert paramsHash
                    { entry with accessCount := entry.accessCount + 1 } } })
        else (none, asked)
  (looked.1, looked.2.countLookup looked.1.isSome)

def removeWhere (predicate : QueryEntry score -> Bool) : Nat × AccountedCache score :=
  let gone := c.queries.cache.toList.filter (fun e => predicate e.2)
  let removed := gone.length
  let freed := (gone.map (fun e => e.2.estimatedBytes sizes)).sum
  let kept := { c with queries := c.queries.removeWhere (fun _ entry => predicate entry) }
  (removed, if 0 < removed then (kept.subBytes freed).syncSize else kept)

def cleanupExpired : AccountedCache score :=
  let done := c.removeWhere sizes (fun entry => entry.isExpired config now)
  if 0 < done.1 then
    { done.2 with
      stats := { done.2.stats with expiredRemoved := done.2.stats.expiredRemoved + done.1 } }
  else done.2

def evictAll : List Nat -> AccountedCache score -> Nat × AccountedCache score
  | [], c => (0, c)
  | key :: rest, c =>
      match c.queries.cache[key]? with
      | none => evictAll rest c
      | some removed =>
          let done := evictAll rest (c.account sizes key removed)
          (done.1 + 1, done.2)

end

section

variable [Ord f32] (select : SelectNth) (efficiency : Nat -> Nat -> f32)
  (config : QueryCacheConfig) (sizes : Sizes) (order : Visiting (Nat × QueryEntry score))
  (now : Nat) (c : AccountedCache score)

/-- The keys `evict_least_efficient` chooses. -/
def leastEfficient : List Nat :=
  let batch := max (config.maxCacheSize / 10) 1
  let scored := (order.run c.queries.cache.toList).map
    (fun e => (e.2.efficiencyScore efficiency now, e.1))
  let chosen :=
    if batch < scored.length then
      (select.run scored (batch - 1) (fun a b => compare a.1 b.1)).take batch
    else scored
  chosen.map Prod.snd

def evictLeastEfficient : AccountedCache score :=
  let done := evictAll sizes (c.leastEfficient select efficiency config order now) c
  if 0 < done.1 then
    syncSize
      { done.2 with
        stats := { done.2.stats with evictedEntries := done.2.stats.evictedEntries + done.1 } }
  else done.2

def makeRoom (paramsHash : Nat) : AccountedCache score :=
  let inserts := c.queries.inserts + 1
  let c := { c with queries := { c.queries with inserts := inserts } }
  let swept :=
    if inserts % expirySweepInterval = 0 then c.cleanupExpired config sizes now else c
  if max config.maxCacheSize 1 ≤ swept.queries.cache.size ∧
      swept.queries.cache.contains paramsHash = false then
    let cleaned := swept.cleanupExpired config sizes now
    if max config.maxCacheSize 1 ≤ cleaned.queries.cache.size then
      cleaned.evictLeastEfficient select efficiency config sizes order now
    else cleaned
  else swept

def putEntry (sizes : Sizes) (c : AccountedCache score) (entry : QueryEntry score) :
    AccountedCache score :=
  let inserted :=
    { c with
      queries :=
        { c.queries with cache := c.queries.cache.insert entry.paramsHash entry } }
  let replaced :=
    match c.queries.cache[entry.paramsHash]? with
    | some old => inserted.subBytes (old.estimatedBytes sizes)
    | none => inserted
  syncSize
    { replaced with
      stats :=
        { replaced.stats with
          estimatedMemoryBytes :=
            replaced.stats.estimatedMemoryBytes + entry.estimatedBytes sizes } }

def insert (queryText : String) (results : List (SearchResult score)) (paramsHash : Nat)
    (scope : CacheScope) : AccountedCache score :=
  let room := c.makeRoom select efficiency config sizes order now paramsHash
  room.putEntry sizes ⟨queryText, results, scope, paramsHash, now, 0⟩

end

def clear (c : AccountedCache score) : AccountedCache score :=
  { queries := { c.queries with cache := ∅ }
    stats := { c.stats with currentCacheSize := 0, estimatedMemoryBytes := 0 } }

def invalidateSession (sizes : Sizes) (c : AccountedCache score) (sessionId : Uuid) :
    AccountedCache score :=
  (c.removeWhere sizes (fun entry => entry.scope.covers sessionId)).2

end AccountedCache

/-!
# Runs
-/

inductive QueryCacheCall (score : Type) where
  | insert (order : Visiting (Nat × QueryEntry score)) (now : Nat) (queryText : String)
      (results : List (SearchResult score)) (paramsHash : Nat) (scope : CacheScope)
  | get (now : Nat) (paramsHash : Nat) (queryText : String)
  | invalidateSession (sessionId : Uuid)
  | clear
  | cleanupExpired (now : Nat)
  | evictLeastEfficient (order : Visiting (Nat × QueryEntry score)) (now : Nat)

section

variable {score f32 : Type} [Ord f32] (select : SelectNth) (efficiency : Nat -> Nat -> f32)
  (config : QueryCacheConfig) (sizes : Sizes)

def QueryCacheCall.apply (c : AccountedCache score) :
    QueryCacheCall score -> AccountedCache score
  | insert order now queryText results paramsHash scope =>
      c.insert select efficiency config sizes order now queryText results paramsHash scope
  | get now paramsHash queryText => (c.get config sizes now paramsHash queryText).2
  | invalidateSession sessionId => c.invalidateSession sizes sessionId
  | clear => c.clear
  | cleanupExpired now => c.cleanupExpired config sizes now
  | evictLeastEfficient order now =>
      c.evictLeastEfficient select efficiency config sizes order now

def accountedCaches : System (AccountedCache score) (QueryCacheCall score) where
  init := AccountedCache.new
  step c call := some (call.apply select efficiency config sizes c)

end

namespace AccountedCache

variable {score f32 : Type} {sizes : Sizes} {c : AccountedCache score}

/-!
# What each operation keeps
-/

def BytesCounted (sizes : Sizes) (c : AccountedCache score) : Prop :=
  c.stats.estimatedMemoryBytes = c.queries.cache.total (CachedQuery.estimatedBytes sizes)

structure Accounted (sizes : Sizes) (c : AccountedCache score) : Prop where
  bytes : c.BytesCounted sizes
  size : c.stats.currentCacheSize = c.queries.cache.size

variable {key : Nat} {removed : QueryEntry score}

theorem BytesCounted.account (h : c.BytesCounted sizes)
    (hkey : c.queries.cache[key]? = some removed) :
    (c.account sizes key removed).BytesCounted sizes := by
  unfold BytesCounted at h
  rw [Database.total_erase _ hkey] at h
  change c.stats.estimatedMemoryBytes - removed.estimatedBytes sizes =
    Database.total (CachedQuery.estimatedBytes sizes) (c.queries.cache.erase key)
  omega

theorem size_account (sizes : Sizes) (hkey : c.queries.cache[key]? = some removed) :
    (c.account sizes key removed).queries.cache.size + 1 = c.queries.cache.size := by
  have h := Database.total_erase (fun _ => 1) hkey
  rw [Database.total_one, Database.total_one] at h
  change (c.queries.cache.erase key).size + 1 = _
  omega

theorem removeWhere_spec (h : Accounted sizes c) (predicate : QueryEntry score -> Bool) :
    Accounted sizes (c.removeWhere sizes predicate).2 ∧
      (c.removeWhere sizes predicate).2.queries =
        c.queries.removeWhere (fun _ entry => predicate entry) := by
  have hbytes := Database.total_filter (CachedQuery.estimatedBytes sizes) c.queries.cache
    predicate
  have hsize := Database.total_filter (fun _ => 1) c.queries.cache predicate
  have hcounted := h.bytes
  unfold BytesCounted at hcounted
  rw [Database.total_one, Database.total_one] at hsize
  unfold removeWhere
  dsimp only
  split
  case isTrue hsome =>
    exact ⟨⟨Nat.sub_eq_of_eq_add' (hcounted.trans hbytes.symm), rfl⟩, rfl⟩
  case isFalse hnone =>
    have hnil : c.queries.cache.toList.filter (fun e => predicate e.2) = [] :=
      List.eq_nil_of_length_eq_zero (by omega)
    rw [hnil] at hbytes hsize
    refine ⟨⟨?_, ?_⟩, rfl⟩
    · change c.stats.estimatedMemoryBytes =
        Database.total _ (c.queries.cache.filter (fun _ v => !predicate v))
      rw [hcounted, ← hbytes, List.map_nil, List.sum_nil, Nat.zero_add]
    · change c.stats.currentCacheSize =
        (c.queries.cache.filter (fun _ v => !predicate v)).size
      rw [h.size, ← hsize, List.map_nil, List.sum_nil, Nat.zero_add]

theorem size_removeWhere (predicate : QueryEntry score -> Bool) (h : Accounted sizes c) :
    (c.removeWhere sizes predicate).2.queries.cache.size ≤ c.queries.cache.size := by
  rw [(removeWhere_spec h predicate).2]
  exact Std.ExtTreeMap.size_filter_le_size

theorem cleanupExpired_spec (config : QueryCacheConfig) (now : Nat) (h : Accounted sizes c) :
    Accounted sizes (c.cleanupExpired config sizes now) ∧
      (c.cleanupExpired config sizes now).queries.cache.size ≤ c.queries.cache.size := by
  have hspec := (removeWhere_spec h (fun entry => entry.isExpired config now)).1
  have hsize := size_removeWhere (fun entry => entry.isExpired config now) h
  unfold cleanupExpired
  dsimp only
  split
  · exact ⟨⟨hspec.bytes, hspec.size⟩, hsize⟩
  · exact ⟨hspec, hsize⟩

theorem evictAll_spec (keys : List Nat) (h : c.BytesCounted sizes) :
    (evictAll sizes keys c).2.BytesCounted sizes ∧
      (evictAll sizes keys c).2.queries.cache.size + (evictAll sizes keys c).1 =
        c.queries.cache.size ∧
      (evictAll sizes keys c).2.stats.currentCacheSize = c.stats.currentCacheSize := by
  induction keys generalizing c with
  | nil => exact ⟨h, rfl, rfl⟩
  | cons key rest ih =>
      unfold evictAll
      cases hkey : c.queries.cache[key]? with
      | none => exact ih h
      | some removed =>
          obtain ⟨hbytes, hsize, hstat⟩ := ih (h.account hkey)
          have hone := size_account sizes hkey
          refine ⟨hbytes, ?_, hstat⟩
          dsimp only
          omega

theorem evictAll_pos {rest : List Nat} (hkey : c.queries.cache[key]? = some removed) :
    0 < (evictAll sizes (key :: rest) c).1 := by
  unfold evictAll
  rw [hkey]
  exact Nat.succ_pos _

section

variable [Ord f32] {select : SelectNth} (efficiency : Nat -> Nat -> f32)
  (config : QueryCacheConfig) (order : Visiting (Nat × QueryEntry score)) (now : Nat)

theorem leastEfficient_cons [TransOrd f32] (hselect : select.Partitions)
    (hsome : 0 < c.queries.cache.size) :
    exists key rest removed,
      c.leastEfficient select efficiency config order now = key :: rest ∧
      c.queries.cache[key]? = some removed := by
  have hentries := order.perm c.queries.cache.toList
  have hlength := hentries.length_eq
  rw [Std.ExtTreeMap.length_toList] at hlength
  have hmem : forall key, key ∈ c.leastEfficient select efficiency config order now ->
      exists removed, c.queries.cache[key]? = some removed := by
    intro key hkey
    obtain ⟨scored, hscored, hkey⟩ := List.mem_map.mp hkey
    have hscored : scored ∈ (order.run c.queries.cache.toList).map
        (fun e => (e.2.efficiencyScore efficiency now, e.1)) := by
      split at hscored
      case isTrue hbatch =>
        have hperm := (hselect (fun a b : f32 × Nat => compare a.1 b.1) _ _
          (Nat.lt_of_le_of_lt (Nat.sub_le _ 1) hbatch)).perm
        exact hperm.mem_iff.mp (List.mem_of_mem_take hscored)
      case isFalse => exact hscored
    obtain ⟨e, he, hscored⟩ := List.mem_map.mp hscored
    rw [← hkey, ← hscored]
    exact ⟨e.2, Std.ExtTreeMap.mem_toList_iff_getElem?_eq_some.mp (hentries.mem_iff.mp he)⟩
  have hne : c.leastEfficient select efficiency config order now ≠ [] := by
    unfold leastEfficient
    dsimp only
    rw [← List.length_pos_iff, List.length_map]
    split
    case isTrue hbatch =>
      have hperm := (hselect (fun a b : f32 × Nat => compare a.1 b.1) _ _
          (Nat.lt_of_le_of_lt (Nat.sub_le _ 1) hbatch)).perm
      rw [List.length_take, hperm.length_eq]
      omega
    case isFalse =>
      rw [List.length_map]
      omega
  obtain ⟨key, rest, hkeys⟩ := List.exists_cons_of_ne_nil hne
  obtain ⟨removed, hremoved⟩ := hmem key (by rw [hkeys]; exact List.mem_cons_self)
  exact ⟨key, rest, removed, hkeys, hremoved⟩

theorem evictLeastEfficient_spec [TransOrd f32] (hselect : select.Partitions)
    (h : Accounted sizes c) :
    Accounted sizes (c.evictLeastEfficient select efficiency config sizes order now) ∧
      (c.evictLeastEfficient select efficiency config sizes order now).queries.cache.size ≤
        c.queries.cache.size - 1 := by
  obtain ⟨hbytes, hsize, hstat⟩ :=
    evictAll_spec (c.leastEfficient select efficiency config order now) h.bytes
  unfold evictLeastEfficient
  dsimp only
  split
  case isTrue hsome =>
    refine ⟨⟨hbytes, rfl⟩, ?_⟩
    change (evictAll sizes (c.leastEfficient select efficiency config order now)
      c).2.queries.cache.size ≤ _
    omega
  case isFalse hnone =>
    have hempty : ¬ 0 < c.queries.cache.size := by
      intro hpos
      obtain ⟨key, rest, removed, hkeys, hremoved⟩ :=
        leastEfficient_cons efficiency config order now hselect hpos
      rw [hkeys] at hnone
      exact hnone (evictAll_pos hremoved)
    refine ⟨⟨hbytes, ?_⟩, ?_⟩
    · rw [hstat, h.size]
      omega
    · omega

theorem makeRoom_spec [TransOrd f32] (hselect : select.Partitions) (h : Accounted sizes c)
    (hfits : c.queries.cache.size ≤ max config.maxCacheSize 1) (paramsHash : Nat) :
    let room := c.makeRoom select efficiency config sizes order now paramsHash
    Accounted sizes room ∧ room.queries.cache.size ≤ max config.maxCacheSize 1 ∧
      (paramsHash ∉ room.queries.cache ->
        room.queries.cache.size < max config.maxCacheSize 1) := by
  have hcounted : Accounted sizes
      { c with queries := { c.queries with inserts := c.queries.inserts + 1 } } :=
    ⟨h.bytes, h.size⟩
  unfold makeRoom
  dsimp only
  have hswept : Accounted sizes
      (if (c.queries.inserts + 1) % expirySweepInterval = 0 then
        cleanupExpired config sizes now
          { c with queries := { c.queries with inserts := c.queries.inserts + 1 } }
      else { c with queries := { c.queries with inserts := c.queries.inserts + 1 } }) ∧
      (if (c.queries.inserts + 1) % expirySweepInterval = 0 then
        cleanupExpired config sizes now
          { c with queries := { c.queries with inserts := c.queries.inserts + 1 } }
      else { c with queries := { c.queries with inserts := c.queries.inserts + 1 } }
        ).queries.cache.size ≤ c.queries.cache.size := by
    split
    · exact cleanupExpired_spec config now hcounted
    · exact ⟨hcounted, Nat.le_refl _⟩
  generalize (if (c.queries.inserts + 1) % expirySweepInterval = 0 then
    cleanupExpired config sizes now
      { c with queries := { c.queries with inserts := c.queries.inserts + 1 } }
    else { c with queries := { c.queries with inserts := c.queries.inserts + 1 } }) = swept
    at hswept ⊢
  obtain ⟨hswept, hsize⟩ := hswept
  obtain ⟨hcleaned, hclean⟩ := cleanupExpired_spec config now hswept
  split
  case isTrue hfull =>
    split
    case isTrue hstill =>
      obtain ⟨hevicted, hroom⟩ :=
        evictLeastEfficient_spec efficiency config order now hselect hcleaned
      exact ⟨hevicted, by omega, fun _ => by omega⟩
    case isFalse hnow => exact ⟨hcleaned, by omega, fun _ => by omega⟩
  case isFalse hroom =>
    refine ⟨hswept, by omega, ?_⟩
    intro hnew
    have hcontains : swept.queries.cache.contains paramsHash = false := by
      rw [Bool.eq_false_iff]
      intro hcontains
      exact hnew (Std.ExtTreeMap.mem_iff_contains.mpr hcontains)
    by_contra hfull
    exact hroom ⟨by omega, hcontains⟩

end

theorem putEntry_spec (h : Accounted sizes c) (entry : QueryEntry score) :
    Accounted sizes (c.putEntry sizes entry) := by
  refine ⟨?_, rfl⟩
  have hinsert := Database.total_insert (CachedQuery.estimatedBytes sizes) c.queries.cache
    entry.paramsHash entry
  have hbytes := h.bytes
  unfold BytesCounted at hbytes ⊢
  unfold putEntry
  cases hold : c.queries.cache[entry.paramsHash]? with
  | none =>
      rw [Database.erase_eq_self hold] at hinsert
      change c.stats.estimatedMemoryBytes + _ =
        Database.total _ (c.queries.cache.insert entry.paramsHash entry)
      omega
  | some old =>
      rw [Database.total_erase _ hold] at hbytes
      change c.stats.estimatedMemoryBytes - old.estimatedBytes sizes + _ =
        Database.total _ (c.queries.cache.insert entry.paramsHash entry)
      omega

theorem putEntry_queries (sizes : Sizes) (c : AccountedCache score)
    (entry : QueryEntry score) :
    (c.putEntry sizes entry).queries =
      { c.queries with cache := c.queries.cache.insert entry.paramsHash entry } := by
  unfold putEntry
  cases c.queries.cache[entry.paramsHash]? with
  | none | some old => rfl

theorem size_putEntry (sizes : Sizes) (c : AccountedCache score) (entry : QueryEntry score) :
    (c.putEntry sizes entry).queries.cache.size =
      if entry.paramsHash ∈ c.queries.cache then c.queries.cache.size
      else c.queries.cache.size + 1 := by
  rw [putEntry_queries]
  exact Std.ExtTreeMap.size_insert

/-- The cache fits, and what it counts is right. -/
structure Sound (config : QueryCacheConfig) (sizes : Sizes) (c : AccountedCache score) : Prop
    extends Accounted sizes c where
  fits : c.queries.cache.size ≤ max config.maxCacheSize 1

variable {select : SelectNth} {config : QueryCacheConfig}

theorem Sound.insert [Ord f32] [TransOrd f32] (hselect : select.Partitions)
    (efficiency : Nat -> Nat -> f32) (h : Sound config sizes c)
    (order : Visiting (Nat × QueryEntry score)) (now : Nat) (queryText : String)
    (results : List (SearchResult score)) (paramsHash : Nat) (scope : CacheScope) :
    Sound config sizes
      (c.insert select efficiency config sizes order now queryText results paramsHash
        scope) := by
  obtain ⟨hroom, hfits, hfree⟩ := makeRoom_spec efficiency config order now hselect
    h.toAccounted h.fits paramsHash
  refine ⟨putEntry_spec hroom _, ?_⟩
  unfold AccountedCache.insert
  dsimp only
  rw [size_putEntry]
  split
  case isTrue => exact hfits
  case isFalse hnew => exact hfree hnew

theorem Sound.get (h : Sound config sizes c) (now : Nat) (paramsHash : Nat)
    (queryText : String) :
    Sound config sizes (c.get config sizes now paramsHash queryText).2 := by
  unfold AccountedCache.get
  dsimp only
  cases hkey : c.queries.cache[paramsHash]? with
  | none => exact ⟨⟨h.bytes, h.size⟩, h.fits⟩
  | some entry =>
      dsimp only
      split
      case isTrue =>
        have hsize := size_account sizes hkey
        refine ⟨⟨BytesCounted.account h.bytes hkey, rfl⟩, ?_⟩
        have hfits := h.fits
        change (c.account sizes paramsHash entry).queries.cache.size ≤ _
        omega
      case isFalse =>
        split
        case isTrue =>
          have hmem : paramsHash ∈ c.queries.cache :=
            Std.ExtTreeMap.mem_iff_isSome_getElem?.mpr (by rw [hkey]; rfl)
          have hsize : (c.queries.cache.insert paramsHash
              { entry with accessCount := entry.accessCount + 1 }).size =
              c.queries.cache.size :=
            Std.ExtTreeMap.size_insert.trans (if_pos hmem)
          have hbytes := Database.total_insert (CachedQuery.estimatedBytes sizes)
            c.queries.cache paramsHash { entry with accessCount := entry.accessCount + 1 }
          refine ⟨⟨?_, ?_⟩, ?_⟩
          · refine h.bytes.trans ((Database.total_erase _ hkey).trans ?_)
            exact hbytes.symm
          · exact h.size.trans hsize.symm
          · exact hsize.le.trans h.fits
        case isFalse => exact ⟨⟨h.bytes, h.size⟩, h.fits⟩

theorem Sound.removeWhere (h : Sound config sizes c)
    (predicate : QueryEntry score -> Bool) :
    Sound config sizes (c.removeWhere sizes predicate).2 where
  toAccounted := (removeWhere_spec h.toAccounted predicate).1
  fits := (size_removeWhere predicate h.toAccounted).trans h.fits

theorem Sound.clear :
    Sound config sizes c.clear where
  bytes := rfl
  size := rfl
  fits := Nat.zero_le _

theorem sound_new (config : QueryCacheConfig) (sizes : Sizes) :
    Sound config sizes (new : AccountedCache score) where
  bytes := rfl
  size := rfl
  fits := Nat.zero_le _

theorem Sound.apply [Ord f32] [TransOrd f32] (hselect : select.Partitions)
    (efficiency : Nat -> Nat -> f32) (h : Sound config sizes c)
    (call : QueryCacheCall score) :
    Sound config sizes (call.apply select efficiency config sizes c) := by
  cases call with
  | insert order now queryText results paramsHash scope =>
      exact h.insert hselect efficiency order now queryText results paramsHash scope
  | get now paramsHash queryText => exact h.get now paramsHash queryText
  | invalidateSession sessionId => exact h.removeWhere _
  | clear => exact Sound.clear
  | cleanupExpired now =>
      obtain ⟨hcleaned, hsize⟩ := cleanupExpired_spec config now h.toAccounted
      exact ⟨hcleaned, hsize.trans h.fits⟩
  | evictLeastEfficient order now =>
      obtain ⟨hevicted, hsize⟩ :=
        evictLeastEfficient_spec efficiency config order now hselect h.toAccounted
      exact ⟨hevicted, hsize.trans ((Nat.sub_le _ 1).trans h.fits)⟩

theorem invalidateSession_uncovered (h : Accounted sizes c) (sessionId : Uuid)
    {entry : QueryEntry score}
    (hkey : (c.invalidateSession sizes sessionId).queries.cache[key]? = some entry) :
    entry.scope.covers sessionId = false := by
  unfold invalidateSession at hkey
  rw [(removeWhere_spec h (fun entry => entry.scope.covers sessionId)).2] at hkey
  exact (QueryCache.removeWhere_getElem? hkey).2

end AccountedCache

/-- After every sequence of calls the entries fit, the memory estimate is the sum of their
sizes, and an invalidation leaves nothing that covers its session. -/
theorem query_cache_run {score f32 : Type} [Ord f32] [TransOrd f32] {select : SelectNth}
    (hselect : select.Partitions) (efficiency : Nat -> Nat -> f32)
    (config : QueryCacheConfig) (sizes : Sizes) {c : AccountedCache score}
    (h : (accountedCaches select efficiency config sizes).Reachable System.Anything c) :
    c.queries.cache.size ≤ max 1 config.maxCacheSize ∧
    c.stats.currentCacheSize = c.queries.cache.size ∧
    c.stats.estimatedMemoryBytes =
      (c.queries.cache.toList.map (fun e => e.2.estimatedBytes sizes)).sum ∧
    (forall (sessionId : Uuid) (key : Nat) (entry : QueryEntry score),
      (c.invalidateSession sizes sessionId).queries.cache[key]? = some entry ->
        entry.scope.covers sessionId = false) := by
  have hsound : AccountedCache.Sound config sizes c := by
    refine h.invariant (P := fun c => AccountedCache.Sound config sizes c)
      (AccountedCache.sound_new config sizes) ?_
    intro c call after hc _ hstep
    cases hstep
    exact hc.apply hselect efficiency call
  refine ⟨?_, hsound.size, hsound.bytes, ?_⟩
  · rw [max_comm]
    exact hsound.fits
  · intro sessionId key entry hkey
    exact AccountedCache.invalidateSession_uncovered hsound.toAccounted sessionId hkey

/-!
# Two entries in one place
-/

def oneEntry : QueryCacheConfig where
  maxCacheSize := 1
  ttlMinutes := 30

def unitSizes : Sizes where
  result := 100
  entry := 50

def byKey : Visiting (Nat × QueryEntry Nat) where
  run entries := entries
  perm _ := List.Perm.refl _

/-- The second entry takes the place of the first, and its bytes alone are counted. -/
theorem two_queries_run :
    exists c : AccountedCache Nat,
      (accountedCaches SelectNth.sorting (fun _ accesses => accesses) oneEntry
        unitSizes).Reachable System.Anything c ∧
      c.stats.evictedEntries = 1 ∧ c.stats.estimatedMemoryBytes = 55 ∧
      c.stats.estimatedMemoryBytes =
        (c.queries.cache.toList.map (fun e => e.2.estimatedBytes unitSizes)).sum := by
  obtain ⟨c, -, hreach, hevicted, hbytes⟩ :=
    (accountedCaches SelectNth.sorting (fun _ accesses => accesses) oneEntry
      unitSizes).replay_reaches System.Anything
      [QueryCacheCall.insert byKey 0 "redis" [] 1 CacheScope.global,
        QueryCacheCall.insert byKey 1 "cache" [] 2 CacheScope.global]
      (fun c => c.stats.evictedEntries = 1 ∧ c.stats.estimatedMemoryBytes = 55)
      (by decide +kernel)
  exact ⟨c, hreach, hevicted, hbytes,
    (query_cache_run SelectNth.partitions_sorting _ oneEntry unitSizes hreach).2.2.1⟩

end Search
end PostCortex
