import PostCortex.Search.CacheAccounting

/-!
# What the query cache answers

A call leaves an entry as it was, apart from its access count, or it is the insertion of
the entry.  So an entry is the one last inserted under its key, and so is a hit.
-/

namespace PostCortex
namespace Search

open PostCortex.Core
open KeyValue

variable {score f32 : Type}

/-- The call takes away the entries under the key that have the scope. -/
def QueryCacheCall.Ends (k : Nat) (scope : CacheScope) : QueryCacheCall score -> Prop
  | insert _ _ _ _ paramsHash _ => paramsHash = k
  | invalidateSession sessionId => scope.covers sessionId = true
  | clear => True
  | _ => False

namespace AccountedCache

variable {sizes : Sizes} {config : QueryCacheConfig} {now k : Nat} {c : AccountedCache score}
  {entry : QueryEntry score}

def Kept (after before : AccountedCache score) : Prop :=
  forall (k : Nat) entry, after.queries.cache[k]? = some entry ->
    before.queries.cache[k]? = some entry

theorem Kept.trans {a b : AccountedCache score} (hab : a.Kept b) (hbc : b.Kept c) : a.Kept c :=
  fun k entry h => hbc k entry (hab k entry h)

theorem Kept.ite {p : Prop} [Decidable p] {a b : AccountedCache score} (ha : a.Kept c)
    (hb : b.Kept c) :
    (if p then a else b).Kept c := by
  split
  · exact ha
  · exact hb

theorem of_removeWhere {predicate : QueryEntry score -> Bool}
    (h : (c.removeWhere sizes predicate).2.queries.cache[k]? = some entry) :
    c.queries.cache[k]? = some entry ∧ predicate entry = false := by
  have hkept : (c.queries.removeWhere (fun _ entry => predicate entry)).cache[k]? =
      some entry := by
    unfold removeWhere at h
    dsimp only at h
    split at h
    · exact h
    · exact h
  exact QueryCache.removeWhere_getElem? hkept

theorem kept_cleanupExpired (c : AccountedCache score) :
    (c.cleanupExpired config sizes now).Kept c := by
  unfold cleanupExpired
  exact Kept.ite (fun _ _ h => (of_removeWhere h).1) (fun _ _ h => (of_removeWhere h).1)

theorem kept_evictAll (keys : List Nat) (c : AccountedCache score) :
    (evictAll sizes keys c).2.Kept c := by
  induction keys generalizing c with
  | nil => exact fun _ _ h => h
  | cons key rest ih =>
      intro k entry h
      unfold evictAll at h
      split at h
      · exact ih c k entry h
      · next removed hremoved =>
        have herased := ih _ k entry h
        simp only [account, subBytes, Std.ExtTreeMap.getElem?_erase] at herased
        split at herased
        · cases herased
        · exact herased

section

variable [Ord f32] {select : SelectNth} {efficiency : Nat -> Nat -> f32}
  {order : Visiting (Nat × QueryEntry score)}

theorem kept_evictLeastEfficient (c : AccountedCache score) :
    (c.evictLeastEfficient select efficiency config sizes order now).Kept c := by
  unfold evictLeastEfficient
  exact Kept.ite (kept_evictAll _ c) (kept_evictAll _ c)

theorem kept_makeRoom (c : AccountedCache score) (paramsHash : Nat) :
    (c.makeRoom select efficiency config sizes order now paramsHash).Kept c := by
  unfold makeRoom
  dsimp only
  refine Kept.ite (Kept.ite ((kept_evictLeastEfficient _).trans
    ((kept_cleanupExpired _).trans ?swept)) ((kept_cleanupExpired _).trans ?swept)) ?swept
  exact Kept.ite (kept_cleanupExpired _) (fun _ _ h => h)

theorem of_insert {queryText : String} {results : List (SearchResult score)}
    {paramsHash : Nat} {scope : CacheScope}
    (h : (c.insert select efficiency config sizes order now queryText results paramsHash
      scope).queries.cache[k]? = some entry) :
    paramsHash = k ∧ entry = ⟨queryText, results, scope, k, now, 0⟩ ∨
      paramsHash ≠ k ∧ c.queries.cache[k]? = some entry := by
  unfold insert at h
  dsimp only at h
  rw [putEntry_queries, Database.get_insert] at h
  split at h
  · next hk =>
    cases hk
    exact Or.inl ⟨rfl, (Option.some.inj h).symm⟩
  · next hk => exact Or.inr ⟨hk, kept_makeRoom c paramsHash k entry h⟩

end

theorem of_get {paramsHash : Nat} {queryText : String}
    (h : (c.get config sizes now paramsHash queryText).2.queries.cache[k]? = some entry) :
    exists old accesses, c.queries.cache[k]? = some old ∧
      entry = { old with accessCount := accesses } := by
  unfold get at h
  dsimp only at h
  split at h
  · exact ⟨entry, _, h, rfl⟩
  · next found hfound =>
    split at h
    · simp only [removeExpired, account, subBytes, syncSize, countLookup,
        Std.ExtTreeMap.getElem?_erase] at h
      split at h
      · cases h
      · exact ⟨entry, _, h, rfl⟩
    · split at h
      · change (c.queries.cache.insert _ _)[k]? = some entry at h
        rw [Database.get_insert] at h
        split at h
        · next hk =>
          cases h
          exact ⟨found, _, hk ▸ hfound, rfl⟩
        · exact ⟨entry, _, h, rfl⟩
      · exact ⟨entry, _, h, rfl⟩

theorem get_hit {paramsHash : Nat} {queryText : String} {found : List (SearchResult score)}
    (h : (c.get config sizes now paramsHash queryText).1 = some found) :
    exists entry, c.queries.cache[paramsHash]? = some entry ∧ entry.queryText = queryText ∧
      entry.results = found ∧ entry.isExpired config now = false := by
  unfold get at h
  dsimp only at h
  split at h
  · cases h
  · next entry hentry =>
    split at h
    · cases h
    · next hexpired =>
      split at h
      · next htext =>
        exact ⟨entry, hentry, htext, Option.some.inj h, Bool.eq_false_iff.mpr hexpired⟩
      · cases h

/-!
# Entries over a run
-/

variable [Ord f32] {select : SelectNth} {efficiency : Nat -> Nat -> f32}

/-- After a call an entry is the one inserted, or one from before that the call does not
end. -/
theorem of_apply {call : QueryCacheCall score}
    (h : (call.apply select efficiency config sizes c).queries.cache[k]? = some entry) :
    (exists order, call = QueryCacheCall.insert order entry.cachedAt entry.queryText
      entry.results k entry.scope) ∨
    exists old accesses, c.queries.cache[k]? = some old ∧
      entry = { old with accessCount := accesses } ∧ ¬ call.Ends k old.scope := by
  cases call with
  | insert order now queryText results paramsHash scope =>
      rcases of_insert h with ⟨rfl, rfl⟩ | ⟨hk, hold⟩
      · exact Or.inl ⟨order, rfl⟩
      · exact Or.inr ⟨entry, _, hold, rfl, hk⟩
  | get now paramsHash queryText =>
      rcases of_get h with ⟨old, accesses, hold, hentry⟩
      exact Or.inr ⟨old, accesses, hold, hentry, id⟩
  | invalidateSession sessionId =>
      rcases of_removeWhere h with ⟨hold, huncovered⟩
      exact Or.inr ⟨entry, _, hold, rfl, Bool.eq_false_iff.mp huncovered⟩
  | clear => simp [QueryCacheCall.apply, clear] at h
  | cleanupExpired now =>
      exact Or.inr ⟨entry, _, kept_cleanupExpired c k entry h, rfl, id⟩
  | evictLeastEfficient order now =>
      exact Or.inr ⟨entry, _, kept_evictLeastEfficient c k entry h, rfl, id⟩

theorem of_run (calls : List (QueryCacheCall score))
    (h : (calls.foldl (QueryCacheCall.apply select efficiency config sizes)
      new).queries.cache[k]? = some entry) :
    exists before order after,
      calls = before ++ QueryCacheCall.insert order entry.cachedAt entry.queryText
        entry.results k entry.scope :: after ∧
      forall call, call ∈ after -> ¬ call.Ends k entry.scope := by
  induction calls using List.reverseRecOn generalizing entry with
  | nil => simp [new, QueryCache.new] at h
  | append_singleton calls call ih =>
      rw [List.foldl_append] at h
      rcases of_apply h with ⟨order, rfl⟩ | ⟨old, accesses, hold, rfl, hends⟩
      · exact ⟨calls, order, [], rfl, by simp⟩
      · rcases ih hold with ⟨before, order, after, rfl, hafter⟩
        refine ⟨before, order, after ++ [call], by simp, ?_⟩
        intro later hlater
        rcases List.mem_append.mp hlater with hlater | hlater
        · exact hafter later hlater
        · rw [List.mem_singleton.mp hlater]
          exact hends

end AccountedCache

/-- After any calls, a hit gives the results of the last insertion under its key: the
insertion has the text of the query, has not expired, and since then there was no
insertion under the key, no clearing, and no invalidation of a session that its scope
covers. -/
theorem hit_last_insertion [Ord f32] (select : SelectNth) (efficiency : Nat -> Nat -> f32)
    (config : QueryCacheConfig) (sizes : Sizes) (calls : List (QueryCacheCall score))
    {now paramsHash : Nat} {queryText : String} {found : List (SearchResult score)}
    (hit : ((calls.foldl (QueryCacheCall.apply select efficiency config sizes)
      AccountedCache.new).get config sizes now paramsHash queryText).1 = some found) :
    exists before order cachedAt scope after,
      calls = before ++
        QueryCacheCall.insert order cachedAt queryText found paramsHash scope :: after ∧
      now - cachedAt < config.ttlMinutes.toNat * 60 * nanosPerSecond ∧
      forall call, call ∈ after -> ¬ call.Ends paramsHash scope := by
  rcases AccountedCache.get_hit hit with ⟨entry, hentry, rfl, rfl, hfresh⟩
  rcases AccountedCache.of_run calls hentry with ⟨before, order, after, hcalls, hafter⟩
  refine ⟨before, order, entry.cachedAt, entry.scope, after, hcalls, ?_, hafter⟩
  rw [CachedQuery.isExpired, decide_eq_false_iff_not] at hfresh
  exact Nat.not_le.mp hfresh

/-- A second insertion under a key, and a lookup of the first text and of the second. -/
theorem hit_last_insertion_replaced :
    let calls : List (QueryCacheCall Nat) :=
      [QueryCacheCall.insert byKey 0 "redis" [] 1 CacheScope.global,
        QueryCacheCall.insert byKey 5 "cache" [] 1 CacheScope.global,
        QueryCacheCall.get 6 1 "redis"]
    exists before order cachedAt scope after,
      calls = before ++ QueryCacheCall.insert order cachedAt "cache" [] 1 scope :: after ∧
      7 - cachedAt < 30 * 60 * nanosPerSecond ∧
      forall call, call ∈ after -> ¬ call.Ends 1 scope :=
  hit_last_insertion SelectNth.sorting (fun _ accesses => accesses) oneEntry unitSizes _
    rfl

end Search
end PostCortex
