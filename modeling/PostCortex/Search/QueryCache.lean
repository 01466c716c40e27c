import PostCortex.Core.ContextUpdate
import PostCortex.KeyValue.Database
import PostCortex.Transition.Calls
import PostCortex.Transition.System

/-!
# The query cache

Searches and writes on one query cache (`query_cache.rs`).  A search looks its
parameters up; when they are not there it reads the text index, then the vectors,
and inserts its results.  A write changes the vectors of a session and then
removes the entries whose scope covers the session, one shard of the map after the
other.  Results carry how many changes had been made at their first read.
-/

namespace PostCortex
namespace Search

open PostCortex.Core
open KeyValue
open Transition

variable {hits results vectors : Type}

/-!
# The cache

The statistics are left out, and the entries with the lowest scores are those the
call names.
-/

def expirySweepInterval : Nat :=
  64

def nanosPerSecond : Nat :=
  1000000000

structure QueryCacheConfig where
  maxCacheSize : Nat
  ttlMinutes : Int

inductive CacheScope where
  | global
  | session (id : Uuid)
  | sessions (ids : List Uuid)
  deriving DecidableEq, Repr

def CacheScope.covers (sessionId : Uuid) : CacheScope -> Bool
  | global => true
  | session id => id == sessionId
  | sessions ids => ids.contains sessionId

structure CachedQuery (results : Type) where
  queryText : String
  results : results
  scope : CacheScope
  paramsHash : Nat
  cachedAt : Nat
  accessCount : Nat

def CachedQuery.isExpired (config : QueryCacheConfig) (now : Nat)
    (entry : CachedQuery results) : Bool :=
  config.ttlMinutes.toNat * 60 * nanosPerSecond ≤ now - entry.cachedAt

structure QueryCache (results : Type) where
  cache : Database Nat (CachedQuery results)
  inserts : Nat

/-- The shards of the map: every key belongs to one. -/
structure Shards where
  count : Nat
  of : Nat -> Fin count

namespace QueryCache

def new : QueryCache results :=
  ⟨∅, 0⟩

def get (config : QueryCacheConfig) (now : Nat) (cache : QueryCache results)
    (paramsHash : Nat) (queryText : String) :
    Option results × QueryCache results :=
  match cache.cache[paramsHash]? with
  | none => (none, cache)
  | some entry =>
      if entry.isExpired config now then
        (none, { cache with cache := cache.cache.erase paramsHash })
      else if entry.queryText = queryText then
        (some entry.results,
          { cache with
            cache := cache.cache.insert paramsHash
              { entry with accessCount := entry.accessCount + 1 } })
      else (none, cache)

def removeWhere (cache : QueryCache results)
    (predicate : Nat -> CachedQuery results -> Bool) : QueryCache results :=
  { cache with
    cache := cache.cache.filter (fun key entry => !predicate key entry) }

def cleanupExpired (config : QueryCacheConfig) (now : Nat)
    (cache : QueryCache results) : QueryCache results :=
  cache.removeWhere (fun _ entry => entry.isExpired config now)

/-- The part of `evict_least_efficient` after its choice. -/
def evict (cache : QueryCache results) (victims : List Nat) :
    QueryCache results :=
  cache.removeWhere (fun key _ => victims.contains key)

def makeRoom (config : QueryCacheConfig) (now : Nat) (victims : List Nat)
    (paramsHash : Nat) (cache : QueryCache results) : QueryCache results :=
  let swept :=
    if (cache.inserts + 1) % expirySweepInterval = 0 then
      cache.cleanupExpired config now
    else cache
  if max config.maxCacheSize 1 ≤ swept.cache.size ∧
      swept.cache.contains paramsHash = false then
    let cleaned := swept.cleanupExpired config now
    if max config.maxCacheSize 1 ≤ cleaned.cache.size then cleaned.evict victims
    else cleaned
  else swept

def insert (config : QueryCacheConfig) (now : Nat) (victims : List Nat)
    (cache : QueryCache results) (queryText : String) (found : results)
    (paramsHash : Nat) (scope : CacheScope) : QueryCache results where
  cache :=
    (cache.makeRoom config now victims paramsHash).cache.insert paramsHash
      ⟨queryText, found, scope, paramsHash, now, 0⟩
  inserts := cache.inserts + 1

/-- What `invalidate_session` does in one shard. -/
def invalidateShard (shards : Shards) (cache : QueryCache results)
    (sessionId : Uuid) (shard : Nat) : QueryCache results :=
  cache.removeWhere
    (fun key entry => (shards.of key).val == shard && entry.scope.covers sessionId)

/-!
# Entries that stay
-/

/-- Every entry was there before, apart from its access count. -/
def Within (after before : QueryCache results) : Prop :=
  forall (key : Nat) (entry : CachedQuery results),
    after.cache[key]? = some entry ->
    exists old, before.cache[key]? = some old ∧ entry.scope = old.scope ∧
      entry.results = old.results

theorem Within.refl (cache : QueryCache results) : cache.Within cache :=
  fun _ entry h => ⟨entry, h, rfl, rfl⟩

theorem Within.trans {a b c : QueryCache results} (hab : a.Within b)
    (hbc : b.Within c) :
    a.Within c := by
  intro key entry h
  obtain ⟨mid, hmid, hscope, hresults⟩ := hab key entry h
  obtain ⟨old, hold, hscope', hresults'⟩ := hbc key mid hmid
  exact ⟨old, hold, hscope.trans hscope', hresults.trans hresults'⟩

variable {cache : QueryCache results} {entry : CachedQuery results}

theorem removeWhere_getElem? {predicate : Nat -> CachedQuery results -> Bool}
    {key : Nat} (h : (cache.removeWhere predicate).cache[key]? = some entry) :
    cache.cache[key]? = some entry ∧ predicate key entry = false := by
  unfold removeWhere at h
  dsimp only at h
  rw [Std.ExtTreeMap.getElem?_filter'] at h
  obtain ⟨hentry, hkept⟩ := Option.filter_eq_some_iff.mp h
  exact ⟨hentry, by simpa using hkept⟩

theorem within_removeWhere (cache : QueryCache results)
    (predicate : Nat -> CachedQuery results -> Bool) :
    (cache.removeWhere predicate).Within cache :=
  fun _ entry h => ⟨entry, (removeWhere_getElem? h).1, rfl, rfl⟩

theorem within_get (config : QueryCacheConfig) (now : Nat)
    (cache : QueryCache results) (paramsHash : Nat) (queryText : String) :
    (cache.get config now paramsHash queryText).2.Within cache := by
  intro key entry h
  unfold get at h
  cases hfound : cache.cache[paramsHash]? with
  | none =>
      rw [hfound] at h
      exact ⟨entry, h, rfl, rfl⟩
  | some found =>
      rw [hfound] at h
      dsimp only at h
      split at h
      · rw [Std.ExtTreeMap.getElem?_erase] at h
        split at h
        · cases h
        · exact ⟨entry, h, rfl, rfl⟩
      · split at h
        · rw [Std.ExtTreeMap.getElem?_insert] at h
          split at h
          · next heq =>
            have hkey : paramsHash = key := Std.LawfulEqCmp.eq_of_compare heq
            cases h
            exact ⟨found, hkey ▸ hfound, rfl, rfl⟩
          · exact ⟨entry, h, rfl, rfl⟩
        · exact ⟨entry, h, rfl, rfl⟩

variable {config : QueryCacheConfig} {paramsHash : Nat} {queryText : String}
  {found : results}

theorem get_entry {now : Nat}
    (h : (cache.get config now paramsHash queryText).1 = some found) :
    exists entry, cache.cache[paramsHash]? = some entry ∧
      entry.results = found := by
  unfold get at h
  cases hentry : cache.cache[paramsHash]? with
  | none =>
      rw [hentry] at h
      cases h
  | some entry =>
      rw [hentry] at h
      dsimp only at h
      split at h
      · cases h
      · split at h
        · exact ⟨entry, rfl, Option.some.inj h⟩
        · cases h

theorem within_makeRoom (config : QueryCacheConfig) (now : Nat)
    (victims : List Nat) (paramsHash : Nat) (cache : QueryCache results) :
    (cache.makeRoom config now victims paramsHash).Within cache := by
  have hswept : (if (cache.inserts + 1) % expirySweepInterval = 0 then
      cache.cleanupExpired config now else cache).Within cache := by
    split
    · exact cache.within_removeWhere _
    · exact Within.refl cache
  unfold makeRoom
  dsimp only
  generalize (if (cache.inserts + 1) % expirySweepInterval = 0 then
    cache.cleanupExpired config now else cache) = swept at hswept ⊢
  split
  · refine Within.trans ?_ hswept
    split
    · exact (within_removeWhere _ _).trans (within_removeWhere _ _)
    · exact within_removeWhere _ _
  · exact hswept

theorem insert_getElem? {now : Nat} {victims : List Nat} {scope : CacheScope}
    {key : Nat} (h : (cache.insert config now victims queryText found paramsHash
      scope).cache[key]? = some entry) :
    key = paramsHash ∧ entry.scope = scope ∧ entry.results = found ∨
    exists old, cache.cache[key]? = some old ∧ entry.scope = old.scope ∧
      entry.results = old.results := by
  unfold insert at h
  rw [Std.ExtTreeMap.getElem?_insert] at h
  split at h
  · next heq =>
    have hkey : paramsHash = key := Std.LawfulEqCmp.eq_of_compare heq
    cases h
    exact Or.inl ⟨hkey.symm, rfl, rfl⟩
  · exact Or.inr (cache.within_makeRoom config now victims paramsHash key entry h)

end QueryCache

/-!
# Searches and writes
-/

structure SearchRequest where
  queryText : String
  paramsHash : Nat
  scope : CacheScope
  deriving DecidableEq, Repr

/-- Results of a request, with how many changes their first read came after. -/
structure Computed (results : Type) where
  request : SearchRequest
  results : results
  changes : Nat

inductive SearchStage (hits results : Type) where
  | missed (request : SearchRequest)
  | lexical (request : SearchRequest) (found : hits) (changes : Nat)
  | computed (found : Computed results)
  | returned (found : Computed results)

/-- A change of the vectors of a session with its invalidation: which change was
its last one, and how many shards have been invalidated since. -/
structure Write where
  sessionId : Uuid
  changes : Nat
  swept : Nat
  deriving DecidableEq, Repr

structure State (hits results vectors : Type) where
  now : Nat
  cache : QueryCache (Computed results)
  vectors : Uuid -> vectors
  changes : Nat
  searches : List (SearchStage hits results)
  writes : List Write

/-- `drop` is what `insert` and `get` of another task remove before their own
step. -/
inductive Action (vectors : Type) where
  | wait (nanos : Nat)
  | search (request : SearchRequest)
  | searchText (i : Nat)
  | compute (i : Nat)
  | insert (i : Nat) (victims : List Nat)
  | write (sessionId : Uuid)
  | change (i : Nat) (after : vectors)
  | invalidate (i : Nat)
  | drop (keys : List Nat)

section

variable (config : QueryCacheConfig) (shards : Shards)
  (searchText : SearchRequest -> (Uuid -> vectors) -> hits)
  (search : SearchRequest -> hits -> (Uuid -> vectors) -> results)

def step (s : State hits results vectors) :
    Action vectors -> Option (State hits results vectors)
  | Action.wait nanos => some { s with now := s.now + nanos }
  | Action.search request =>
      let looked := s.cache.get config s.now request.paramsHash request.queryText
      some { s with
        cache := looked.2
        searches := s.searches ++
          [match looked.1 with
            | some found => SearchStage.returned found
            | none => SearchStage.missed request] }
  | Action.searchText i =>
      match s.searches[i]? with
      | some (SearchStage.missed request) =>
          some { s with
            searches := s.searches.set i
              (SearchStage.lexical request (searchText request s.vectors)
                s.changes) }
      | _ => none
  | Action.compute i =>
      match s.searches[i]? with
      | some (SearchStage.lexical request found changes) =>
          some { s with
            searches := s.searches.set i
              (SearchStage.computed
                ⟨request, search request found s.vectors, changes⟩) }
      | _ => none
  | Action.insert i victims =>
      match s.searches[i]? with
      | some (SearchStage.computed found) =>
          some { s with
            cache := s.cache.insert config s.now victims
              found.request.queryText found found.request.paramsHash
              found.request.scope
            searches := s.searches.set i (SearchStage.returned found) }
      | _ => none
  | Action.write sessionId =>
      some { s with writes := s.writes ++ [⟨sessionId, 0, 0⟩] }
  | Action.change i after =>
      match s.writes[i]? with
      | none => none
      | some w =>
          if w.swept = 0 then
            some { s with
              vectors := fun id => if id = w.sessionId then after else s.vectors id
              changes := s.changes + 1
              writes := s.writes.set i { w with changes := s.changes + 1 } }
          else none
  | Action.invalidate i =>
      match s.writes[i]? with
      | none => none
      | some w =>
          if w.swept < shards.count then
            some { s with
              cache := s.cache.invalidateShard shards w.sessionId w.swept
              writes := s.writes.set i { w with swept := w.swept + 1 } }
          else none
  | Action.drop keys => some { s with cache := s.cache.evict keys }

def queryCaches (vectors₀ : Uuid -> vectors) :
    System (State hits results vectors) (Action vectors) where
  init := ⟨0, QueryCache.new, vectors₀, 0, [], []⟩
  step := step config shards searchText search

end

/-!
# Timely insertions
-/

def overtaken (shards : Shards) (found : Computed results) (w : Write) : Bool :=
  found.request.scope.covers w.sessionId && decide (found.changes < w.changes) &&
    decide ((shards.of found.request.paramsHash).val < w.swept)

/-- No results are inserted of which something was read before a change of a
covered session, when the invalidation after it has passed the shard of their
key. -/
def isTimely (shards : Shards) (s : State hits results vectors) :
    Action vectors -> Bool
  | Action.insert i _ =>
      match s.searches[i]? with
      | some (SearchStage.computed found) => !s.writes.any (overtaken shards found)
      | _ => true
  | _ => true

def Timely (shards : Shards) (s : State hits results vectors) (a : Action vectors) :
    Prop :=
  isTimely shards s a = true

instance (shards : Shards) (s : State hits results vectors) (a : Action vectors) :
    Decidable (Timely shards s a) :=
  inferInstanceAs (Decidable (_ = true))

/-- What a lookup returns was read after the changes of every write that has
invalidated a session of its scope. -/
def Fresh (config : QueryCacheConfig) (shards : Shards)
    (s : State hits results vectors) : Prop :=
  forall (paramsHash : Nat) (queryText : String) (found : Computed results),
    (s.cache.get config s.now paramsHash queryText).1 = some found ->
    forall w, w ∈ s.writes -> w.swept = shards.count ->
      found.request.scope.covers w.sessionId = true -> w.changes ≤ found.changes

/-- The entries that a write has passed were read after its changes. -/
def EntryCurrent (shards : Shards) (s : State hits results vectors) (key : Nat)
    (scope : CacheScope) (found : Computed results) : Prop :=
  scope = found.request.scope ∧
    forall w, w ∈ s.writes -> scope.covers w.sessionId = true ->
      w.changes ≤ found.changes ∨ w.swept ≤ (shards.of key).val

def Current (shards : Shards) (s : State hits results vectors) : Prop :=
  forall (key : Nat) (entry : CachedQuery (Computed results)),
    s.cache.cache[key]? = some entry ->
    EntryCurrent shards s key entry.scope entry.results

theorem Current.within {shards : Shards} {s s' : State hits results vectors}
    (h : Current shards s) (hcache : s'.cache.Within s.cache)
    (hwrites : s'.writes = s.writes) :
    Current shards s' := by
  intro key entry hentry
  obtain ⟨old, hold, hscope, hresults⟩ := hcache key entry hentry
  rw [hscope, hresults]
  unfold EntryCurrent
  rw [hwrites]
  exact h key old hold

theorem Current.step {config : QueryCacheConfig} {shards : Shards}
    {searchText : SearchRequest -> (Uuid -> vectors) -> hits}
    {search : SearchRequest -> hits -> (Uuid -> vectors) -> results}
    {s s' : State hits results vectors} {a : Action vectors} (h : Current shards s)
    (htimely : Timely shards s a)
    (hstep : Search.step config shards searchText search s a = some s') :
    Current shards s' := by
  cases a with
  | wait nanos =>
      cases hstep
      exact h
  | search request =>
      cases hstep
      exact h.within (s.cache.within_get _ _ _ _) rfl
  | searchText i | compute i =>
      simp only [Search.step] at hstep
      split at hstep
      · cases hstep
        exact h
      · cases hstep
  | insert i victims =>
      simp only [Search.step] at hstep
      split at hstep
      · next found hfound =>
        cases hstep
        simp only [Timely, isTimely, hfound] at htimely
        intro key entry hentry
        rcases QueryCache.insert_getElem? hentry with
          ⟨hkey, hscope, hresults⟩ | ⟨old, hold, hscope, hresults⟩
        · rw [hscope, hresults]
          refine ⟨rfl, ?_⟩
          intro w hw hcovers
          subst hkey
          by_cases hchanges : w.changes ≤ found.changes
          · exact Or.inl hchanges
          · refine Or.inr (Nat.le_of_not_lt ?_)
            intro hpassed
            have hover : overtaken shards found w = true := by
              simp [overtaken, hcovers, Nat.lt_of_not_le hchanges, hpassed]
            have hany : s.writes.any (overtaken shards found) = true :=
              List.any_eq_true.mpr ⟨w, hw, hover⟩
            rw [hany] at htimely
            cases htimely
        · rw [hscope, hresults]
          exact h key old hold
      · cases hstep
  | write sessionId =>
      cases hstep
      intro key entry hentry
      obtain ⟨hscope, hwrites⟩ := h key entry hentry
      refine ⟨hscope, ?_⟩
      intro w hw hcovers
      rcases List.mem_append.mp hw with hold | hnew
      · exact hwrites w hold hcovers
      · rw [List.mem_singleton.mp hnew]
        exact Or.inr (Nat.zero_le _)
  | change i after =>
      simp only [Search.step] at hstep
      split at hstep
      · cases hstep
      · next w hw =>
        split at hstep
        · next hswept =>
          cases hstep
          intro key entry hentry
          obtain ⟨hscope, hwrites⟩ := h key entry hentry
          refine ⟨hscope, ?_⟩
          refine forall_mem_set hw ?_ ?_
          · intro _
            exact Or.inr (by rw [hswept]; exact Nat.zero_le _)
          · intro j other _ hother
            exact hwrites other (List.mem_of_getElem? hother)
        · cases hstep
  | invalidate i =>
      simp only [Search.step] at hstep
      split at hstep
      · cases hstep
      · next w hw =>
        split at hstep
        · cases hstep
          intro key entry hentry
          obtain ⟨hold, hkept⟩ := QueryCache.removeWhere_getElem? hentry
          obtain ⟨hscope, hwrites⟩ := h key entry hold
          refine ⟨hscope, ?_⟩
          refine forall_mem_set hw ?_ ?_
          · intro hcovers
            rcases hwrites w (List.mem_of_getElem? hw) hcovers with hdone | hahead
            · exact Or.inl hdone
            · have hother : (shards.of key).val ≠ w.swept := by
                intro heq
                simp [heq, hcovers] at hkept
              exact Or.inr (by dsimp only; omega)
          · intro j other _ hother
            exact hwrites other (List.mem_of_getElem? hother)
        · cases hstep
  | drop keys =>
      cases hstep
      exact h.within (s.cache.within_removeWhere _) rfl

/-- In a run whose insertions are timely no lookup after an invalidation returns
results from before the write. -/
theorem lookups_fresh {config : QueryCacheConfig} {shards : Shards}
    {searchText : SearchRequest -> (Uuid -> vectors) -> hits}
    {search : SearchRequest -> hits -> (Uuid -> vectors) -> results}
    {vectors₀ : Uuid -> vectors} {s : State hits results vectors}
    (h : (queryCaches config shards searchText search vectors₀).Reachable
      (Timely shards) s) :
    Fresh config shards s := by
  have hcurrent : Current shards s := by
    refine h.invariant ?_ (fun _ _ _ hs ha hnext => hs.step ha hnext)
    intro key entry hentry
    simp [queryCaches, QueryCache.new] at hentry
  intro paramsHash queryText found hget w hw hswept hcovers
  obtain ⟨entry, hentry, rfl⟩ := QueryCache.get_entry hget
  obtain ⟨hscope, hwrites⟩ := hcurrent paramsHash entry hentry
  rw [← hscope] at hcovers
  rcases hwrites w hw hcovers with hdone | hahead
  · exact hdone
  · have hshard := (shards.of paramsHash).isLt
    omega

def defaultCache : QueryCacheConfig :=
  ⟨1000, 30⟩

def singleShard : Shards :=
  ⟨1, fun _ => 0⟩

def readSession (request : SearchRequest) (stored : Uuid -> Nat) : List Nat :=
  match request.scope with
  | CacheScope.session id => [stored id]
  | _ => []

def readAgain (request : SearchRequest) (found : List Nat)
    (stored : Uuid -> Nat) : List Nat :=
  found ++ readSession request stored

def redisSearch : SearchRequest :=
  ⟨"redis", 5, CacheScope.session 1⟩

def servedAfter (s : State (List Nat) (List Nat) Nat) : Option (List Nat × Nat) :=
  (s.cache.get defaultCache s.now 5 "redis").1.map
    (fun found => (found.results, found.changes))

/-- A search before a write and one after it: the second one is not served what
the first one has computed. -/
theorem lookups_fresh_run :
    exists s, (queryCaches defaultCache singleShard readSession readAgain
        (fun _ => 0)).Reachable (Timely singleShard) s ∧
      Fresh defaultCache singleShard s ∧ servedAfter s = some ([7, 7], 1) := by
  obtain ⟨s, -, hreach, hserved⟩ := (queryCaches defaultCache singleShard readSession
    readAgain (fun _ => 0)).replay_reaches (Timely singleShard)
      [Action.search redisSearch, Action.searchText 0, Action.compute 0,
        Action.insert 0 [], Action.write 1, Action.change 0 7, Action.invalidate 0,
        Action.search redisSearch, Action.searchText 1, Action.compute 1,
        Action.insert 1 []]
      (fun s => servedAfter s = some ([7, 7], 1)) (by decide +kernel)
  exact ⟨s, hreach, lookups_fresh hreach, hserved⟩

/-- A search computes its results, a write changes the session and invalidates
it, and only then the search inserts what it has. -/
theorem late_insert_stale :
    ¬ forall (s : State (List Nat) (List Nat) Nat),
      (queryCaches defaultCache singleShard readSession readAgain
        (fun _ => 0)).Reachable System.Anything s ->
      Fresh defaultCache singleShard s := by
  intro hall
  obtain ⟨s, -, hreach, hwrites, hlookup⟩ := (queryCaches defaultCache singleShard
    readSession readAgain (fun _ => 0)).replay_reaches System.Anything
      [Action.search redisSearch, Action.searchText 0, Action.compute 0, Action.write 1,
        Action.change 0 7, Action.invalidate 0, Action.insert 0 []]
      (fun s => s.writes = [⟨1, 1, 1⟩] ∧
        (s.cache.get defaultCache s.now 5 "redis").1.map
          (fun found => (found.request, found.changes)) = some (redisSearch, 0))
      (by decide +kernel)
  obtain ⟨found, hfound, hvalues⟩ := Option.map_eq_some_iff.mp hlookup
  have hrequest := congrArg Prod.fst hvalues
  have hchanges := congrArg Prod.snd hvalues
  have hwrite : (⟨1, 1, 1⟩ : Write) ∈ s.writes := by
    rw [hwrites]
    exact List.mem_singleton_self _
  have hfresh := hall s hreach 5 "redis" found hfound
    ⟨1, 1, 1⟩ hwrite rfl
  dsimp only at hrequest hchanges
  rw [hrequest, hchanges] at hfresh
  exact absurd (hfresh (by decide)) (by decide)

end Search
end PostCortex
