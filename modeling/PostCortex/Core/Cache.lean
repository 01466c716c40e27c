import Mathlib.Data.List.AList
import PostCortex.KeyValue.LastPuts
import PostCortex.Transition.System

/-!
# The cache

`Cache` of `core/cache.rs`, used by one caller at a time.  Counters are 64 bits wide and
wrap.  The order in which the map visits its entries is a parameter of each eviction.
The metrics and the channel of eviction events are written only; a step says instead
what it did.
-/

namespace PostCortex
namespace Core

open KeyValue
open Transition

structure CacheEntry (V : Type) where
  value : V
  accessCount : UInt64
  lastAccessed : UInt64
  createdAt : UInt64
  deriving DecidableEq, Repr

/-- The order in which a concurrent map visits its entries. -/
structure Visiting (item : Type) where
  run : List item -> List item
  perm : forall entries, (run entries).Perm entries

abbrev CacheItem (K V : Type) : Type :=
  Sigma (fun _ : K => CacheEntry V)

abbrev CacheOrder (K V : Type) : Type :=
  Visiting (CacheItem K V)

structure Cache (K V : Type) where
  data : AList (fun _ : K => CacheEntry V)
  capacity : UInt64
  currentSize : UInt64
  globalAccessCounter : UInt64
  hits : UInt64
  misses : UInt64
  evictions : UInt64
  evictionCursor : UInt64

namespace CacheEntry

variable {V : Type}

def newWithLogicalTime (value : V) (logicalTime : UInt64) : CacheEntry V where
  value := value
  accessCount := 1
  lastAccessed := logicalTime
  createdAt := logicalTime

def touch (entry : CacheEntry V) (globalCounter : UInt64) : CacheEntry V :=
  { entry with
    accessCount := entry.accessCount + 1
    lastAccessed := globalCounter + 1 }

def priorityScore (entry : CacheEntry V) (currentLogicalTime : UInt64) : UInt64 :=
  let recencyFactor :=
    if entry.lastAccessed ≤ currentLogicalTime then
      currentLogicalTime - entry.lastAccessed
    else 0
  let frequencyFactor := if 0 < entry.accessCount then 1000 / entry.accessCount else 1000
  recencyFactor + frequencyFactor

end CacheEntry

namespace Cache

variable {K V : Type} [DecidableEq K]

def new (capacity : UInt64) : Except String (Cache K V) :=
  if capacity = 0 then Except.error "Cache capacity must be greater than 0"
  else
    Except.ok
      { data := ∅
        capacity := capacity
        currentSize := 0
        globalAccessCounter := 0
        hits := 0
        misses := 0
        evictions := 0
        evictionCursor := 0 }

def get (cache : Cache K V) (key : K) : Option V × Cache K V :=
  match cache.data.lookup key with
  | some entry =>
      (some entry.value,
        { cache with
          data := cache.data.insert key (entry.touch cache.globalAccessCounter)
          globalAccessCounter := cache.globalAccessCounter + 1
          hits := cache.hits + 1 })
  | none => (none, { cache with misses := cache.misses + 1 })

def evictionSample : Nat :=
  20

def consider (exclude : Option K) (currentLogicalTime : UInt64)
    (candidate : Option (K × UInt64)) (e : CacheItem K V) :
    Option (K × UInt64) :=
  if exclude = some e.1 then candidate
  else
    let priority := e.2.priorityScore currentLogicalTime
    match candidate with
    | none => some (e.1, priority)
    | some best => if best.2 < priority then some (e.1, priority) else candidate

/-- The window `[start, start + size)` of a list, wrapping to the beginning. -/
def window {item : Type} (visited : List item) (start size : Nat) : List item :=
  let first := (visited.drop start).take size
  if first.length < size then first ++ visited.take (size - first.length) else first

def tryEvictExcluding (visiting : CacheOrder K V) (exclude : Option K) (cache : Cache K V) :
    Option K × Cache K V :=
  if cache.currentSize < cache.capacity then (none, cache)
  else
    let len := cache.data.entries.length
    if len = 0 then (none, cache)
    else
      let sampleSize := min evictionSample len
      let start := cache.evictionCursor.toNat % len
      let cache :=
        { cache with evictionCursor := cache.evictionCursor + UInt64.ofNat sampleSize }
      let sample := window (visiting.run cache.data.entries) start sampleSize
      match sample.foldl (consider exclude cache.globalAccessCounter) none with
      | none => (none, cache)
      | some candidate =>
          if candidate.1 ∈ cache.data then
            (some candidate.1,
              { cache with
                data := cache.data.erase candidate.1
                currentSize := cache.currentSize - 1
                evictions := cache.evictions + 1 })
          else (none, cache)

def tryEvict (visiting : CacheOrder K V) (cache : Cache K V) : Option K × Cache K V :=
  tryEvictExcluding visiting none cache

/-- What `put` returns, which key it evicted, and the cache after it. -/
structure Put (K V : Type) where
  oldValue : Option V
  evicted : Option K
  cache : Cache K V

def roomFor (visiting : CacheOrder K V) (cache : Cache K V) (key : K) :
    Option K × Cache K V :=
  if cache.capacity ≤ cache.currentSize ∧ key ∉ cache.data then
    tryEvictExcluding visiting (some key) cache
  else (none, cache)

/-- The insertion of `put`, with the value it replaces. -/
def store (cache : Cache K V) (key : K) (entry : CacheEntry V) : Option V × Cache K V :=
  let oldValue := (cache.data.lookup key).map CacheEntry.value
  let inserted := { cache with data := cache.data.insert key entry }
  (oldValue,
    if oldValue.isNone then { inserted with currentSize := inserted.currentSize + 1 }
    else inserted)

def put (visiting : CacheOrder K V) (cache : Cache K V) (key : K) (value : V) : Put K V :=
  let logicalTime := cache.globalAccessCounter + 1
  let entry := CacheEntry.newWithLogicalTime value logicalTime
  let counted := { cache with globalAccessCounter := cache.globalAccessCounter + 1 }
  let room := roomFor visiting counted key
  let stored := store room.2 key entry
  { oldValue := stored.1
    evicted := room.1
    cache := stored.2 }

def remove (cache : Cache K V) (key : K) : Option V × Cache K V :=
  match cache.data.lookup key with
  | some entry =>
      (some entry.value,
        { cache with
          data := cache.data.erase key
          currentSize := cache.currentSize - 1 })
  | none => (none, cache)

def clear (cache : Cache K V) : Cache K V :=
  { cache with
    data := ∅
    currentSize := 0 }

def tryEvictTimes (visiting : CacheOrder K V) : Nat -> Cache K V -> List K × Cache K V
  | 0, cache => ([], cache)
  | evictionsNeeded + 1, cache =>
      let gone := cache.tryEvict visiting
      let rest := tryEvictTimes visiting evictionsNeeded gone.2
      (gone.1.toList ++ rest.1, rest.2)

def resize (visiting : CacheOrder K V) (cache : Cache K V) (newCapacity : UInt64) :
    Except String Unit × List K × Cache K V :=
  if newCapacity = 0 then
    (Except.error "Cache capacity must be greater than 0", [], cache)
  else
    let resized := { cache with capacity := newCapacity }
    let evicted :=
      if newCapacity < resized.currentSize then
        tryEvictTimes visiting (resized.currentSize - newCapacity).toNat resized
      else ([], resized)
    (Except.ok (), evicted)

end Cache

/-!
# Runs
-/

inductive CacheCall (K V : Type) where
  | put (visiting : CacheOrder K V) (key : K) (value : V)
  | get (key : K)
  | remove (key : K)
  | clear
  | resize (visiting : CacheOrder K V) (newCapacity : UInt64)

/-- A cache with what has happened to its keys. -/
structure UsedCache (K V : Type) where
  cache : Cache K V
  history : List (Event K V)

namespace CacheCall

variable {K V : Type} [DecidableEq K]

def apply (cache : Cache K V) : CacheCall K V -> List (Event K V) × Cache K V
  | put visiting key value =>
      let done := cache.put visiting key value
      (done.evicted.toList.map Event.evicted ++ [Event.put key value], done.cache)
  | get key => ([], (cache.get key).2)
  | remove key => ([Event.removed key], (cache.remove key).2)
  | clear => ([Event.cleared], cache.clear)
  | resize visiting newCapacity =>
      let done := cache.resize visiting newCapacity
      (done.2.1.map Event.evicted, done.2.2)

end CacheCall

def caches {K V : Type} [DecidableEq K] (cache : Cache K V) :
    System (UsedCache K V) (CacheCall K V) where
  init := ⟨cache, []⟩
  step used call :=
    let done := call.apply used.cache
    some ⟨done.2, used.history ++ done.1⟩

namespace Cache

variable {K V : Type} [DecidableEq K]

/-!
# The evicted entry
-/

variable {cache : Cache K V} {e : CacheItem K V}

omit [DecidableEq K] in
theorem mem_data (h : e ∈ cache.data.entries) : e.1 ∈ cache.data :=
  List.mem_keys_of_mem h

variable {exclude : Option K} {candidate : Option (K × UInt64)}

theorem consider_some (time : UInt64) (he : e.1 ∈ cache.data)
    (hexclude : exclude ≠ some e.1)
    (hcandidate : forall best, candidate = some best -> best.1 ∈ cache.data) :
    exists best, consider exclude time candidate e = some best ∧ best.1 ∈ cache.data := by
  unfold consider
  rw [if_neg hexclude]
  cases candidate with
  | none => exact ⟨_, rfl, he⟩
  | some best =>
      dsimp only
      split
      · exact ⟨_, rfl, he⟩
      · exact ⟨best, rfl, hcandidate best rfl⟩

theorem foldl_consider (time : UInt64) {sample : List (CacheItem K V)}
    (hsample : forall e, e ∈ sample -> e.1 ∈ cache.data ∧ exclude ≠ some e.1)
    (hcandidate : forall best, candidate = some best -> best.1 ∈ cache.data)
    (hsome : sample = [] -> candidate ≠ none) :
    exists best, sample.foldl (consider exclude time) candidate = some best ∧
      best.1 ∈ cache.data := by
  induction sample generalizing candidate with
  | nil =>
      obtain ⟨best, hbest⟩ := Option.ne_none_iff_exists'.mp (hsome rfl)
      exact ⟨best, hbest, hcandidate best hbest⟩
  | cons e rest ih =>
      obtain ⟨he, hexclude⟩ := hsample e List.mem_cons_self
      obtain ⟨best, hbest, hmem⟩ := consider_some time he hexclude hcandidate
      rw [List.foldl_cons, hbest]
      apply ih (fun e he => hsample e (List.mem_cons_of_mem _ he))
      · intro other hother
        rw [← Option.some.inj hother]
        exact hmem
      · intro _
        exact Option.some_ne_none best

omit [DecidableEq K] in
theorem mem_window {item : Type} {visited : List item} {start size : Nat} {x : item}
    (h : x ∈ window visited start size) : x ∈ visited := by
  have hfirst : x ∈ (visited.drop start).take size -> x ∈ visited :=
    fun h => List.mem_of_mem_drop (List.mem_of_mem_take h)
  unfold window at h
  dsimp only at h
  split at h
  · cases List.mem_append.mp h with
    | inl h => exact hfirst h
    | inr h => exact List.mem_of_mem_take h
  · exact hfirst h

theorem window_ne_nil {item : Type} {visited : List item} {start size : Nat}
    (hstart : start < visited.length) (hsize : 0 < size) : window visited start size ≠ [] := by
  have hfirst : (visited.drop start).take size ≠ [] := by
    rw [← List.length_pos_iff, List.length_take, List.length_drop]
    omega
  unfold window
  dsimp only
  split
  · exact List.append_ne_nil_of_left_ne_nil hfirst _
  · exact hfirst

/-- The counter is right, and the capacity is positive. -/
structure Sized (cache : Cache K V) : Prop where
  size : cache.currentSize.toNat = cache.data.entries.length
  positive : 0 < cache.capacity

structure Counted (cache : Cache K V) : Prop extends Sized cache where
  fits : cache.currentSize ≤ cache.capacity

structure Evicted (before : Cache K V) (key : K) (after : Cache K V) : Prop where
  mem : key ∈ before.data
  data : after.data = before.data.erase key
  currentSize : after.currentSize = before.currentSize - 1
  capacity : after.capacity = before.capacity

theorem tryEvictExcluding_full {cache : Cache K V} (h : Sized cache) {exclude : Option K}
    (visiting : CacheOrder K V) (hfull : cache.capacity ≤ cache.currentSize)
    (hexclude : forall key, exclude = some key -> key ∉ cache.data) :
    exists key, (cache.tryEvictExcluding visiting exclude).1 = some key ∧
      Evicted cache key (cache.tryEvictExcluding visiting exclude).2 := by
  have hnonempty : cache.data.entries.length ≠ 0 := by
    have hpositive := UInt64.lt_iff_toNat_lt.mp h.positive
    have hfull := UInt64.le_iff_toNat_le.mp hfull
    have hsize := h.size
    have hzero : (0 : UInt64).toNat = 0 := rfl
    omega
  have hvisited := visiting.perm cache.data.entries
  have hstart : cache.evictionCursor.toNat % cache.data.entries.length <
      (visiting.run cache.data.entries).length := by
    rw [hvisited.length_eq]
    exact Nat.mod_lt _ (Nat.pos_of_ne_zero hnonempty)
  have hsampled : 0 < min evictionSample cache.data.entries.length := by
    unfold evictionSample
    omega
  have hwindow := window_ne_nil hstart hsampled
  have hsample : forall e, e ∈ window (visiting.run cache.data.entries)
      (cache.evictionCursor.toNat % cache.data.entries.length)
      (min evictionSample cache.data.entries.length) ->
      e.1 ∈ cache.data ∧ exclude ≠ some e.1 := by
    intro e he
    have hkey := mem_data (hvisited.mem_iff.mp (mem_window he))
    exact ⟨hkey, fun h => hexclude e.1 h hkey⟩
  have hnone : forall best : K × UInt64, none = some best -> best.1 ∈ cache.data := by
    intro best h
    cases h
  obtain ⟨best, hbest, hmem⟩ := foldl_consider cache.globalAccessCounter hsample hnone
    (fun h => absurd h hwindow)
  refine ⟨best.1, ?_⟩
  have hroom : ¬ cache.currentSize < cache.capacity := by
    have hfull := UInt64.le_iff_toNat_le.mp hfull
    rw [UInt64.lt_iff_toNat_lt]
    omega
  unfold tryEvictExcluding
  rw [if_neg hroom]
  dsimp only
  rw [if_neg hnonempty, hbest]
  dsimp only
  rw [if_pos hmem]
  exact ⟨rfl, hmem, rfl, rfl, rfl⟩

/-!
# What each call keeps
-/

def values (cache : Cache K V) (key : K) : Option V :=
  (cache.data.lookup key).map CacheEntry.value

variable {data : AList (fun _ : K => CacheEntry V)} {key : K}

theorem length_erase (h : key ∈ data) :
    (data.erase key).entries.length + 1 = data.entries.length := by
  have hkeys := congrArg List.length (AList.keys_erase key data)
  rw [List.length_erase_of_mem (AList.mem_keys.mp h)] at hkeys
  have hpos := List.length_pos_of_mem (AList.mem_keys.mp h)
  simp only [AList.keys, List.keys, List.length_map] at hkeys hpos
  omega

theorem length_insert_of_mem (entry : CacheEntry V) (h : key ∈ data) :
    (data.insert key entry).entries.length = data.entries.length := by
  have hkeys := congrArg List.length (AList.keys_insert (b := entry) (a := key) data)
  rw [List.length_cons, List.length_erase_of_mem (AList.mem_keys.mp h)] at hkeys
  have hpos := List.length_pos_of_mem (AList.mem_keys.mp h)
  simp only [AList.keys, List.keys, List.length_map] at hkeys hpos
  omega

theorem values_erase (cache : Cache K V) (key : K) :
    (fun k => ((cache.data.erase key).lookup k).map CacheEntry.value) =
      Function.update cache.values key none := by
  funext k
  by_cases hk : k = key
  · rw [hk, Function.update_self, AList.lookup_erase, Option.map_none]
  · rw [Function.update_of_ne hk, AList.lookup_erase_ne hk, values]

theorem values_insert (cache : Cache K V) (key : K) (entry : CacheEntry V) :
    (fun k => ((cache.data.insert key entry).lookup k).map CacheEntry.value) =
      Function.update cache.values key (some entry.value) := by
  funext k
  by_cases hk : k = key
  · rw [hk, Function.update_self, AList.lookup_insert, Option.map_some]
  · rw [Function.update_of_ne hk, AList.lookup_insert_ne hk, values]

namespace Evicted

variable {before after : Cache K V} {key : K}

theorem toNat_currentSize (hevicted : Evicted before key after) (h : Sized before) :
    after.currentSize.toNat + 1 = before.currentSize.toNat := by
  have hpos : 0 < before.currentSize.toNat := by
    rw [h.size, ← length_erase hevicted.mem]
    omega
  have hone : (1 : UInt64) ≤ before.currentSize := UInt64.le_iff_toNat_le.mpr hpos
  rw [hevicted.currentSize, UInt64.toNat_sub_of_le _ _ hone]
  have : (1 : UInt64).toNat = 1 := rfl
  omega

theorem sized (hevicted : Evicted before key after) (h : Sized before) : Sized after where
  size := by
    have hsize := hevicted.toNat_currentSize h
    rw [h.size, ← length_erase hevicted.mem, ← hevicted.data] at hsize
    omega
  positive := by
    rw [hevicted.capacity]
    exact h.positive

theorem values_eq (hevicted : Evicted before key after) :
    after.values = (Event.evicted key).apply before.values := by
  rw [Event.apply, ← values_erase, ← hevicted.data]
  rfl

end Evicted

/-- There is room for the key, and what went to make it is known. -/
structure Roomy (before : Cache K V) (key : K) (room : Option K × Cache K V) : Prop
    extends Counted room.2 where
  capacity : room.2.capacity = before.capacity
  free : key ∉ room.2.data -> room.2.currentSize < room.2.capacity
  values : room.2.values =
    (room.1.toList.map Event.evicted).foldl Event.apply before.values
  kept : key ∈ before.data -> room = (none, before)

theorem Counted.roomFor (h : Counted cache) (visiting : CacheOrder K V) (key : K) :
    Roomy cache key (cache.roomFor visiting key) := by
  by_cases hfull : cache.capacity ≤ cache.currentSize ∧ key ∉ cache.data
  · have hexclude : forall k, some key = some k -> k ∉ cache.data := by
      intro k hk
      rw [← Option.some.inj hk]
      exact hfull.2
    obtain ⟨gone, hgone, hevicted⟩ :=
      tryEvictExcluding_full h.toSized visiting hfull.1 hexclude
    have hsized := hevicted.sized h.toSized
    have hsmaller := hevicted.toNat_currentSize h.toSized
    have hfits := UInt64.le_iff_toNat_le.mp h.fits
    have hcapacity := congrArg UInt64.toNat hevicted.capacity
    unfold Cache.roomFor
    rw [if_pos hfull]
    refine ⟨⟨hsized, UInt64.le_iff_toNat_le.mpr (by omega)⟩, hevicted.capacity, ?_, ?_, ?_⟩
    · intro _
      rw [UInt64.lt_iff_toNat_lt]
      omega
    · rw [hgone]
      exact hevicted.values_eq
    · intro hkey
      exact absurd hkey hfull.2
  · unfold Cache.roomFor
    rw [if_neg hfull]
    refine ⟨h, rfl, ?_, rfl, fun _ => rfl⟩
    intro hkey
    have hroom : ¬ cache.capacity ≤ cache.currentSize := fun hle => hfull ⟨hle, hkey⟩
    rw [UInt64.le_iff_toNat_le] at hroom
    rw [UInt64.lt_iff_toNat_lt]
    exact Nat.lt_of_not_le hroom

/-- The cache after a call, whose values are those the events leave. -/
structure Follows (before : Cache K V) (events : List (Event K V)) (after : Cache K V) : Prop
    extends Counted after where
  values : after.values = events.foldl Event.apply before.values

theorem values_store (cache : Cache K V) (key : K) (entry : CacheEntry V) :
    (cache.store key entry).2.values = (Event.put key entry.value).apply cache.values := by
  have hdata : (cache.store key entry).2.data = cache.data.insert key entry := by
    unfold store
    dsimp only
    split
    · rfl
    · rfl
  rw [Event.apply, ← values_insert, ← hdata]
  rfl

theorem Counted.store (h : Counted cache)
    (hfree : key ∉ cache.data -> cache.currentSize < cache.capacity)
    (entry : CacheEntry V) : Counted (cache.store key entry).2 := by
  unfold Cache.store
  cases hold : cache.data.lookup key with
  | none =>
      have hnew : key ∉ cache.data := AList.lookup_eq_none.mp hold
      have hfree := UInt64.lt_iff_toNat_lt.mp (hfree hnew)
      have hfits := cache.capacity.toNat_lt
      have hsucc : (cache.currentSize + 1).toNat = cache.currentSize.toNat + 1 := by
        rw [UInt64.toNat_add]
        have : (1 : UInt64).toNat = 1 := rfl
        omega
      refine ⟨⟨?_, h.positive⟩, ?_⟩
      · change (cache.currentSize + 1).toNat = (cache.data.insert key entry).entries.length
        rw [hsucc, h.size, AList.entries_insert_of_notMem hnew, List.length_cons]
      · rw [UInt64.le_iff_toNat_le]
        change (cache.currentSize + 1).toNat ≤ cache.capacity.toNat
        rw [hsucc]
        exact hfree
  | some old =>
      have hmem : key ∈ cache.data := AList.lookup_isSome.mp (by rw [hold]; rfl)
      exact ⟨⟨h.size.trans (length_insert_of_mem entry hmem).symm, h.positive⟩, h.fits⟩

theorem Counted.put (h : Counted cache) (visiting : CacheOrder K V) (key : K)
    (value : V) :
    Follows cache
      ((cache.put visiting key value).evicted.toList.map Event.evicted ++
        [Event.put key value])
      (cache.put visiting key value).cache := by
  have hcounted :
      Counted { cache with globalAccessCounter := cache.globalAccessCounter + 1 } :=
    ⟨⟨h.size, h.positive⟩, h.fits⟩
  have hroom := hcounted.roomFor visiting key
  refine ⟨hroom.toCounted.store hroom.free _, ?_⟩
  rw [List.foldl_append]
  refine (values_store _ key _).trans ?_
  rw [hroom.values]
  rfl

theorem Counted.get (h : Counted cache) (key : K) :
    Follows cache [] (cache.get key).2 := by
  unfold Cache.get
  cases hfound : cache.data.lookup key with
  | none => exact ⟨⟨⟨h.size, h.positive⟩, h.fits⟩, rfl⟩
  | some entry =>
      have hmem : key ∈ cache.data := AList.lookup_isSome.mp (by rw [hfound]; rfl)
      have hvalues := values_insert cache key (entry.touch cache.globalAccessCounter)
      have hsame : cache.values key = some entry.value := by
        rw [values, hfound, Option.map_some]
      refine ⟨⟨⟨?_, h.positive⟩, h.fits⟩, ?_⟩
      · exact h.size.trans (length_insert_of_mem _ hmem).symm
      · refine hvalues.trans ?_
        change Function.update cache.values key (some entry.value) = cache.values
        rw [← hsame, Function.update_eq_self]

theorem Counted.remove (h : Counted cache) (key : K) :
    Follows cache [Event.removed key] (cache.remove key).2 := by
  unfold Cache.remove
  cases hfound : cache.data.lookup key with
  | none =>
      have hgone : cache.values key = none := by
        rw [values, hfound, Option.map_none]
      refine ⟨h, ?_⟩
      change cache.values = Function.update cache.values key none
      rw [← hgone, Function.update_eq_self]
  | some entry =>
      have hmem : key ∈ cache.data := AList.lookup_isSome.mp (by rw [hfound]; rfl)
      have hevicted : Evicted cache key
          { cache with
            data := cache.data.erase key
            currentSize := cache.currentSize - 1 } := ⟨hmem, rfl, rfl, rfl⟩
      have hsmaller := hevicted.toNat_currentSize h.toSized
      have hfits := UInt64.le_iff_toNat_le.mp h.fits
      refine ⟨⟨hevicted.sized h.toSized, UInt64.le_iff_toNat_le.mpr ?_⟩, hevicted.values_eq⟩
      change (cache.currentSize - 1).toNat ≤ cache.capacity.toNat
      dsimp only at hsmaller
      omega

theorem Counted.clear (h : Counted cache) :
    Follows cache [Event.cleared] cache.clear where
  size := rfl
  positive := h.positive
  fits := UInt64.le_iff_toNat_le.mpr (Nat.zero_le _)
  values := rfl

/-- Each eviction of a cache that is too full brings it one entry nearer its capacity. -/
theorem tryEvictTimes_spec (visiting : CacheOrder K V) (count : Nat)
    (h : Sized cache)
    (hfull : cache.capacity.toNat + count ≤ cache.currentSize.toNat) :
    Sized (tryEvictTimes visiting count cache).2 ∧
      (tryEvictTimes visiting count cache).2.capacity = cache.capacity ∧
      (tryEvictTimes visiting count cache).2.currentSize.toNat + count =
        cache.currentSize.toNat ∧
      (tryEvictTimes visiting count cache).2.values =
        ((tryEvictTimes visiting count cache).1.map Event.evicted).foldl Event.apply
          cache.values := by
  induction count generalizing cache with
  | zero => exact ⟨h, rfl, rfl, rfl⟩
  | succ count ih =>
      have hnone : forall key : K, none = some key -> key ∉ cache.data := by
        intro key hkey
        cases hkey
      obtain ⟨gone, hgone, hevicted⟩ := tryEvictExcluding_full h visiting
        (UInt64.le_iff_toNat_le.mpr (by omega)) hnone
      have hsmaller := hevicted.toNat_currentSize h
      have hcapacity := congrArg UInt64.toNat hevicted.capacity
      obtain ⟨hsized, hsame, hsize, hvalues⟩ :=
        ih (hevicted.sized h) (by omega)
      refine ⟨hsized, hsame.trans hevicted.capacity, ?_, ?_⟩
      · change (tryEvictTimes visiting count
          (tryEvictExcluding visiting none cache).2).2.currentSize.toNat + (count + 1) = _
        omega
      · change (tryEvictTimes visiting count
          (tryEvictExcluding visiting none cache).2).2.values =
            (((tryEvictExcluding visiting none cache).1.toList ++
              (tryEvictTimes visiting count
                (tryEvictExcluding visiting none cache).2).1).map Event.evicted).foldl
              Event.apply cache.values
        rw [hvalues, hevicted.values_eq, hgone]
        rfl

theorem Counted.resize (h : Counted cache) (visiting : CacheOrder K V)
    (newCapacity : UInt64) :
    Follows cache ((cache.resize visiting newCapacity).2.1.map Event.evicted)
      (cache.resize visiting newCapacity).2.2 := by
  unfold Cache.resize
  split
  case isTrue => exact ⟨h, rfl⟩
  case isFalse hzero =>
    have hpositive : 0 < newCapacity := UInt64.pos_iff_ne_zero.mpr hzero
    dsimp only
    split
    case isTrue hless =>
      have hsub := UInt64.toNat_sub_of_le _ _ (UInt64.le_of_lt hless)
      have hless := UInt64.lt_iff_toNat_lt.mp hless
      have hsized : Sized { cache with capacity := newCapacity } := ⟨h.size, hpositive⟩
      obtain ⟨hsized, hcapacity, hsize, hvalues⟩ := tryEvictTimes_spec visiting
        (cache.currentSize - newCapacity).toNat hsized (by dsimp only; omega)
      refine ⟨⟨hsized, ?_⟩, hvalues⟩
      have hcapacity := congrArg UInt64.toNat hcapacity
      rw [UInt64.le_iff_toNat_le]
      dsimp only at hcapacity hsize
      omega
    case isFalse hnotless =>
      exact ⟨⟨⟨h.size, hpositive⟩, UInt64.not_lt.mp hnotless⟩, rfl⟩

theorem Counted.apply (h : Counted cache) (call : CacheCall K V) :
    Follows cache (call.apply cache).1 (call.apply cache).2 := by
  cases call with
  | put visiting key value => exact h.put visiting key value
  | get key => exact h.get key
  | remove key => exact h.remove key
  | clear => exact h.clear
  | resize visiting newCapacity => exact h.resize visiting newCapacity

theorem counted_new {capacity : UInt64} (h : Cache.new capacity = Except.ok cache) :
    Counted cache ∧ cache.values = fun _ => none := by
  unfold Cache.new at h
  split at h
  case isTrue => cases h
  case isFalse hzero =>
    cases h
    have hfits : (0 : UInt64) ≤ capacity := UInt64.le_iff_toNat_le.mpr (Nat.zero_le _)
    exact ⟨⟨⟨rfl, UInt64.pos_iff_ne_zero.mpr hzero⟩, hfits⟩, rfl⟩

theorem get_fst (cache : Cache K V) (key : K) : (cache.get key).1 = cache.values key := by
  unfold Cache.get values
  cases cache.data.lookup key with
  | none | some entry => rfl

theorem Counted.put_replaces (h : Counted cache) (visiting : CacheOrder K V)
    (value : V) (hkey : key ∈ cache.data) :
    (cache.put visiting key value).evicted = none ∧
      forall other, other ≠ key ->
        (cache.put visiting key value).cache.values other = cache.values other := by
  have hcounted :
      Counted { cache with globalAccessCounter := cache.globalAccessCounter + 1 } :=
    ⟨⟨h.size, h.positive⟩, h.fits⟩
  have hkept : (cache.put visiting key value).evicted = none :=
    congrArg Prod.fst ((hcounted.roomFor visiting key).kept hkey)
  have hvalues := (h.put visiting key value).values
  rw [hkept] at hvalues
  refine ⟨hkept, ?_⟩
  intro other hother
  rw [hvalues]
  exact Function.update_of_ne hother _ _

end Cache

/-!
# Whole runs
-/

section

variable {K V : Type} [DecidableEq K]

theorem used_counted {cache : Cache K V} (hcounted : Cache.Counted cache)
    (hempty : cache.values = fun _ => none) {used : UsedCache K V}
    (h : (caches cache).Reachable System.Anything used) :
    Cache.Counted used.cache ∧
      used.cache.values = used.history.foldl Event.apply (fun _ => none) := by
  refine h.invariant (P := fun used => Cache.Counted used.cache ∧
    used.cache.values = used.history.foldl Event.apply (fun _ => none))
    ⟨hcounted, hempty⟩ ?_
  intro used call after hused _ hstep
  obtain ⟨hcounted, hvalues⟩ := hused
  cases hstep
  have hfollows := hcounted.apply call
  refine ⟨hfollows.toCounted, ?_⟩
  rw [List.foldl_append, ← hvalues]
  exact hfollows.values

/-- After every sequence of calls the size is right and within the capacity, a replacement
evicts nothing, and a key holds its last put unless it went since. -/
theorem cache_run {capacity : UInt64} {cache : Cache K V}
    (hnew : Cache.new capacity = Except.ok cache) {used : UsedCache K V}
    (h : (caches cache).Reachable System.Anything used) :
    used.cache.currentSize.toNat = used.cache.data.entries.length ∧
    used.cache.currentSize ≤ used.cache.capacity ∧
    (forall visiting key value, key ∈ used.cache.data ->
      (used.cache.put visiting key value).evicted = none ∧
        forall other, other ≠ key ->
          ((used.cache.put visiting key value).cache.get other).1 =
            (used.cache.get other).1) ∧
    (forall visiting key value,
      ((used.cache.put visiting key value).cache.get key).1 = some value) ∧
    (forall key value,
      (used.cache.get key).1 = some value ↔ LastPut used.history key value) := by
  obtain ⟨hcounted, hempty⟩ := Cache.counted_new hnew
  obtain ⟨hcounted, hvalues⟩ := used_counted hcounted hempty h
  refine ⟨hcounted.size, hcounted.fits, ?_, ?_, ?_⟩
  · intro visiting key value hkey
    obtain ⟨hkept, hother⟩ := hcounted.put_replaces visiting value hkey
    refine ⟨hkept, ?_⟩
    intro other hne
    rw [Cache.get_fst, Cache.get_fst]
    exact hother other hne
  · intro visiting key value
    rw [Cache.get_fst, (hcounted.put visiting key value).values, List.foldl_append]
    simp only [List.foldl_cons, List.foldl_nil, Event.apply, Function.update_self]
  · intro key value
    rw [Cache.get_fst, hvalues]
    exact held_iff_lastPut used.history

end

def inOrder : CacheOrder String Nat where
  run entries := entries
  perm _ := List.Perm.refl _

def emptyCache : Cache String Nat where
  data := ∅
  capacity := 1
  currentSize := 0
  globalAccessCounter := 0
  hits := 0
  misses := 0
  evictions := 0
  evictionCursor := 0

/-- The second of two keys takes the only place. -/
theorem one_place_run :
    exists used, (caches emptyCache).Reachable System.Anything used ∧
      (used.cache.get "b").1 = some 2 ∧ ¬ LastPut used.history "a" 1 := by
  obtain ⟨used, -, hreach, ha, hb⟩ := (caches emptyCache).replay_reaches System.Anything
    [CacheCall.put inOrder "a" 1, CacheCall.put inOrder "b" 2]
    (fun used => (used.cache.get "a").1 = none ∧ (used.cache.get "b").1 = some 2)
    (by decide +kernel)
  refine ⟨used, hreach, hb, ?_⟩
  intro hlast
  have hnew : Cache.new 1 = Except.ok emptyCache := rfl
  have hget := ((cache_run hnew hreach).2.2.2.2 "a" 1).mpr hlast
  rw [ha] at hget
  cases hget

end Core
end PostCortex
