import PostCortex.Storage.SurrealFreshness

/-!
# Source freshness on two backends

The same calls on the RocksDB and on the SurrealDB storage.  The rows that are
not marked are the references RocksDB has, the marked ones are those it has
deleted, and both walk the same dependencies as long as the texts of the symbols
tell them apart.
-/

namespace PostCortex
namespace Storage
namespace Freshness

open KeyValue
open Search
open Transition

structure Backends where
  rocks : Tracking
  surreal : FreshnessTables

def FreshnessTables.step (t : FreshnessTables) :
    Operation -> Option FreshnessTables
  | Operation.registerSource reference => some (t.registerSource reference)
  | Operation.invalidateSource filePath =>
      some (t.invalidateSource filePath).1
  | Operation.registerSymbolDependencies source targets =>
      some (t.registerSymbolDependencies source targets).1
  | Operation.cascadeInvalidate changed maxDepth =>
      (t.cascadeInvalidate changed maxDepth).map Prod.fst

def stepBoth (s : Backends) (o : Operation) : Option Backends :=
  (step s.rocks o).bind (fun rocks =>
    (s.surreal.step o).map (fun surreal => ⟨rocks, surreal⟩))

def backends (start : FreshnessDb) : System Backends Operation where
  init := ⟨(tracking start).init, FreshnessTables.empty⟩
  step := stepBoth

/-!
# Calls whose texts tell things apart
-/

def RowsTell (edges : List (SymbolId × SymbolId)) : Prop :=
  forall e, e ∈ edges -> forall e', e' ∈ edges ->
    FreshnessTables.dependencyKey e.1 e.2 =
      FreshnessTables.dependencyKey e'.1 e'.2 ->
    e.1.symbol = e'.1.symbol ∧ e.2.symbol = e'.2.symbol

instance (edges : List (SymbolId × SymbolId)) : Decidable (RowsTell edges) :=
  inferInstanceAs (Decidable (forall e, e ∈ edges -> forall e', e' ∈ edges -> _ -> _))

/-- No reference taken out shares its index key with one that stays, and in a
cascade the keys tell the symbols and the rows tell the dependencies apart. -/
def Fair (s : Backends) (o : Operation) : Prop :=
  Separate s.rocks o ∧
    forall changed maxDepth, o = Operation.cascadeInvalidate changed maxDepth ->
      Telling s.rocks.edges changed.symbol maxDepth ∧ RowsTell s.rocks.edges

variable {changed x : Symbol} {n maxDepth : Nat}

/-!
# Agreement
-/

/-- The rows that are not marked are the references of RocksDB, and both have
the same dependencies. -/
structure Agree (s : Backends) : Prop where
  entry : forall (id : String) (r : SourceReferenceRecord),
    s.surreal.references[id]? = some r -> r.entryId = id
  current : forall r, Stored s.rocks.db r ->
    s.surreal.references[r.entryId]? = some (recordOf r)
  stored : forall (id : String) (r : SourceReferenceRecord),
    s.surreal.references[id]? = some r ->
    r.status = 1 ∨ exists r', Stored s.rocks.db r' ∧ recordOf r' = r
  edges : forall (k : String) (d : SymbolDepRecord),
    s.surreal.dependencies[k]? = some d ->
    exists e, e ∈ s.rocks.edges ∧ FreshnessTables.dependencyKey e.1 e.2 = k ∧
      d = FreshnessTables.dependencyRecord e.1 e.2
  kept : forall e, e ∈ s.rocks.edges ->
    FreshnessTables.dependencyKey e.1 e.2 ∈ s.surreal.dependencies

variable {start : FreshnessDb}

theorem agree_init (hstart : Untracked start) :
    Agree (backends start).init where
  entry := by
    intro id r hr
    cases hr
  current := by
    intro r hr
    have hnone := hstart _ (Or.inl (hasPrefix_append "source_ref:" r.entryId))
    have hsome : start[sourceRefKey r.entryId]? =
        some (FreshnessRecord.reference r) := hr
    rw [show start[sourceRefKey r.entryId]? = none from hnone] at hsome
    cases hsome
  stored := by
    intro id r hr
    cases hr
  edges := by
    intro k d hd
    cases hd
  kept := by
    intro e he
    cases he

/-!
# Dependencies of the tables
-/

variable {s : Backends}

theorem Agree.mem_dependentsOf (h : Agree s) (hrows : RowsTell s.rocks.edges)
    {y : Symbol} :
    y ∈ s.surreal.dependentsOf x ↔
      exists e, e ∈ s.rocks.edges ∧ y = e.1.symbol ∧ Matches e.2.symbol x := by
  have hmatches : forall e : SymbolId × SymbolId,
      ((FreshnessTables.dependencyRecord e.1 e.2).toFile = x.filePath ∧
          (FreshnessTables.dependencyRecord e.1 e.2).toSymbol = x.symbolName ∨
        (FreshnessTables.dependencyRecord e.1 e.2).toFile = "" ∧
          (FreshnessTables.dependencyRecord e.1 e.2).toSymbol = x.symbolName) ↔
      Matches e.2.symbol x := by
    intro e
    cases x
    constructor
    · rintro (⟨rfl, rfl⟩ | hname)
      · exact Or.inl rfl
      · exact Or.inr hname
    · rintro (heq | hname)
      · cases heq
        exact Or.inl ⟨rfl, rfl⟩
      · exact Or.inr hname
  rw [FreshnessTables.dependentsOf, List.mem_map]
  constructor
  · rintro ⟨d, hd, rfl⟩
    obtain ⟨hd, hmatch⟩ := List.mem_filter.mp hd
    obtain ⟨k, hk⟩ := FreshnessTables.mem_dependencyRows.mp hd
    obtain ⟨e, he, _, rfl⟩ := h.edges k d hk
    exact ⟨e, he, rfl, (hmatches e).mp (of_decide_eq_true hmatch)⟩
  · rintro ⟨e, he, rfl, hmatch⟩
    have hkept := h.kept e he
    rw [Std.ExtTreeMap.mem_iff_isSome_getElem?, Option.isSome_iff_exists] at hkept
    obtain ⟨d, hd⟩ := hkept
    obtain ⟨e', he', hkey, rfl⟩ := h.edges _ d hd
    obtain ⟨hsource, htarget⟩ := hrows e' he' e he hkey
    rw [← hsource]
    rw [← htarget] at hmatch
    refine ⟨_, List.mem_filter.mpr ⟨FreshnessTables.mem_dependencyRows.mpr
      ⟨_, hd⟩, ?_⟩, rfl⟩
    exact decide_eq_true ((hmatches e').mpr hmatch)

theorem Agree.path_iff (h : Agree s) (hrows : RowsTell s.rocks.edges)
    (n : Nat) (x : Symbol) :
    Path s.surreal.dependentsOf changed n x ↔
      Depends s.rocks.edges changed n x := by
  constructor
  · intro hpath
    induction hpath with
    | nil => exact Depends.self
    | snoc _ hy ih =>
        obtain ⟨e, he, rfl, hmatches⟩ := (h.mem_dependentsOf hrows).mp hy
        exact ih.step he hmatches
  · intro hdepends
    induction hdepends with
    | self => exact Path.nil
    | step _ he hmatches ih =>
        exact ih.snoc ((h.mem_dependentsOf hrows).mpr ⟨_, he, rfl, hmatches⟩)

theorem Agree.keysApart (h : Agree s) (hrows : RowsTell s.rocks.edges)
    (htelling : Telling s.rocks.edges changed maxDepth) :
    KeysApart Symbol.key s.surreal.dependentsOf
      (fun x => exists n, Depends s.rocks.edges changed n x) where
  next := by
    rintro x ⟨n, hx⟩ y hy
    obtain ⟨e, he, rfl, hmatches⟩ := (h.mem_dependentsOf hrows).mp hy
    exact ⟨n + 1, hx.step he hmatches⟩
  inj := by
    rintro x y ⟨n, hx⟩ ⟨m, hy⟩ hkey
    exact PlainPath.key_inj (htelling.plain hx).1 (htelling.plain hy).1 hkey

def FreshnessTables.meetable (t : FreshnessTables) (changed : Symbol) :
    List Symbol :=
  changed :: t.dependencyRows.map (fun d => ⟨d.fromFile, d.fromSymbol⟩)

variable {t : FreshnessTables}

theorem FreshnessTables.mem_meetable (h : Path t.dependentsOf changed n x) :
    x ∈ t.meetable changed := by
  cases h with
  | nil => exact List.mem_cons_self
  | snoc _ hx =>
      rw [dependentsOf, List.mem_map] at hx
      obtain ⟨d, hd, rfl⟩ := hx
      exact List.mem_cons_of_mem _
        (List.mem_map_of_mem (List.mem_filter.mp hd).1)

theorem FreshnessTables.length_meetable (t : FreshnessTables) (changed : Symbol) :
    (t.meetable changed).length = t.dependencies.size + 1 := by
  rw [meetable, List.length_cons, List.length_map, dependencyRows,
    List.length_map, Std.ExtTreeMap.length_toList]

/-- The rows that a cascade marks: those of a function that depends on the
changed one, or is it. -/
def Affected (edges : List (SymbolId × SymbolId)) (changed : Symbol)
    (maxDepth : Nat) (r : SourceReferenceRecord) : Prop :=
  exists name, r.symbolName = some name ∧
    exists n, n ≤ maxDepth ∧ Depends edges changed n ⟨r.filePath, name⟩

theorem Symbol.Plain.splitOnce {s : Symbol} (h : s.Plain) :
    FreshnessTables.splitOnce s.key = some (s.filePath, s.symbolName) := by
  rw [FreshnessTables.splitOnce, h.1.split, Option.map_some,
    String.ofList_toList, String.ofList_toList]

variable {r : SourceReferenceRecord}

theorem isOf_iff {file sym : String} :
    FreshnessTables.isOf file sym r = true ↔
      r.filePath = file ∧ r.symbolName = some sym := by
  rw [FreshnessTables.isOf, decide_eq_true_eq]

theorem isOfAny_iff {found : List Symbol} (hplain : forall x, x ∈ found -> x.Plain) :
    FreshnessTables.isOfAny (found.map Symbol.key) r = true ↔
      exists x, x ∈ found ∧ r.filePath = x.filePath ∧
        r.symbolName = some x.symbolName := by
  rw [FreshnessTables.isOfAny, List.any_eq_true]
  constructor
  · rintro ⟨key, hkey, hany⟩
    obtain ⟨x, hx, rfl⟩ := List.mem_map.mp hkey
    rw [(hplain x hx).splitOnce] at hany
    exact ⟨x, hx, isOf_iff.mp hany⟩
  · rintro ⟨x, hx, hr⟩
    refine ⟨x.key, List.mem_map_of_mem hx, ?_⟩
    rw [(hplain x hx).splitOnce]
    exact isOf_iff.mpr hr

/-- A cascade in the tables reports the other symbols that depend on the changed
one within the depth, each once, and marks their rows and its own. -/
theorem Agree.cascadeInvalidate (h : Agree s) (hrows : RowsTell s.rocks.edges)
    {changed : SymbolId} (htelling : Telling s.rocks.edges changed.symbol maxDepth) :
    exists (t : FreshnessTables) (report : CascadeInvalidateReport)
      (p : SourceReferenceRecord -> Bool),
      s.surreal.cascadeInvalidate changed maxDepth = some (t, report) ∧
      report.invalidatedSymbols.Nodup ∧
      (forall key, key ∈ report.invalidatedSymbols ↔
        exists x : Symbol, key = x.key ∧ x ≠ changed.symbol ∧
          exists n, n ≤ maxDepth ∧ Depends s.rocks.edges changed.symbol n x) ∧
      (forall id : String,
        t.references[id]? =
          s.surreal.references[id]?.map (FreshnessTables.mark p)) ∧
      t.dependencies = s.surreal.dependencies ∧
      forall r, p r = true ↔
        Affected s.rocks.edges changed.symbol maxDepth r := by
  obtain ⟨found, hsearch, hnodup, hfound⟩ :=
    (h.keysApart hrows htelling).searchKeyed_start ⟨0, Depends.self⟩
      (fun _ _ hpath => FreshnessTables.mem_meetable hpath) maxDepth
  rw [FreshnessTables.length_meetable] at hsearch
  have hdepends : forall x, x ∈ found ↔ x ≠ changed.symbol ∧
      exists n, n ≤ maxDepth ∧ Depends s.rocks.edges changed.symbol n x := by
    intro x
    rw [hfound]
    simp only [h.path_iff hrows]
  have hfoundPlain : forall x, x ∈ found -> x.Plain := by
    intro x hx
    obtain ⟨_, n, _, hn⟩ := (hdepends x).mp hx
    exact htelling.plain hn
  refine ⟨_, _, fun r => FreshnessTables.isOf changed.filePath
    changed.symbolName r || FreshnessTables.isOfAny (found.map Symbol.key) r,
    by rw [FreshnessTables.cascadeInvalidate, hsearch], ?_, ?_, ?_, ?_, ?_⟩
  · refine hnodup.map_on ?_
    intro x hx y hy hkey
    exact PlainPath.key_inj (hfoundPlain x hx).1 (hfoundPlain y hy).1 hkey
  · intro key
    rw [List.mem_map]
    constructor
    · rintro ⟨x, hx, rfl⟩
      exact ⟨x, rfl, (hdepends x).mp hx⟩
    · rintro ⟨x, rfl, hx⟩
      exact ⟨x, (hdepends x).mpr hx, rfl⟩
  · intro id
    rw [(FreshnessTables.get_foldl_markDependent _ _ id).1,
      FreshnessTables.get_markStale, Option.map_map]
    congr
    funext r
    exact FreshnessTables.mark_mark (FreshnessTables.isOfAny_mark _ _) r
  · exact (FreshnessTables.get_foldl_markDependent _ _ "").2
  · intro r
    rw [Bool.or_eq_true, isOf_iff, isOfAny_iff hfoundPlain]
    constructor
    · rintro (⟨hfile, hname⟩ | ⟨x, hx, hfile, hname⟩)
      · refine ⟨_, hname, 0, Nat.zero_le _, ?_⟩
        rw [hfile]
        exact Depends.self
      · obtain ⟨_, n, hn, hdep⟩ := (hdepends x).mp hx
        refine ⟨_, hname, n, hn, ?_⟩
        rw [hfile]
        exact hdep
    · rintro ⟨name, hname, n, hn, hdep⟩
      by_cases hself : (⟨r.filePath, name⟩ : Symbol) = changed.symbol
      · obtain ⟨hfile, hsym⟩ := Symbol.mk.inj hself
        left
        rw [hname, hsym]
        exact ⟨hfile, rfl⟩
      · exact Or.inr ⟨⟨r.filePath, name⟩,
          (hdepends _).mpr ⟨hself, n, hn, hdep⟩, rfl, hname⟩

/-!
# Steps
-/

theorem FreshnessTables.entryId_mark (p : SourceReferenceRecord -> Bool)
    (r : SourceReferenceRecord) :
    (mark p r).entryId = r.entryId := by
  rw [mark]
  split <;> rfl

theorem Agree.marked (h : Agree s) {removed : List SourceReference}
    {p : SourceReferenceRecord -> Bool}
    (hremoved : forall r, r ∈ removed -> Stored s.rocks.db r)
    (hp : forall r, Stored s.rocks.db r -> (r ∈ removed ↔ p (recordOf r) = true))
    (hrows : forall id : String,
      t.references[id]? =
        s.surreal.references[id]?.map (FreshnessTables.mark p))
    (hdeps : t.dependencies = s.surreal.dependencies) :
    Agree ⟨{ s.rocks with db := deleteReferences s.rocks.db removed }, t⟩ := by
  have hbefore : forall (id : String) r, t.references[id]? = some r ->
      exists r', s.surreal.references[id]? = some r' ∧
        FreshnessTables.mark p r' = r := by
    intro id r hr
    rw [hrows] at hr
    exact Option.map_eq_some_iff.mp hr
  constructor
  · intro id r hr
    obtain ⟨r', hr', rfl⟩ := hbefore id r hr
    rw [FreshnessTables.entryId_mark]
    exact h.entry id r' hr'
  · intro r hr
    obtain ⟨hstored, hkept⟩ := (stored_deleteReferences hremoved r).mp hr
    have hunmarked : p (recordOf r) = false :=
      Bool.eq_false_iff.mpr (fun hmarked => hkept ((hp r hstored).mpr hmarked))
    show t.references[r.entryId]? = _
    rw [hrows, h.current r hstored, Option.map_some, FreshnessTables.mark,
      if_neg (by rw [hunmarked]; exact Bool.false_ne_true)]
  · intro id r hr
    obtain ⟨r', hr', rfl⟩ := hbefore id r hr
    rw [FreshnessTables.mark]
    split
    · exact Or.inl rfl
    · next hunmarked =>
      rcases h.stored id r' hr' with hstale | ⟨r'', hstored, rfl⟩
      · exact Or.inl hstale
      · refine Or.inr ⟨r'', (stored_deleteReferences hremoved r'').mpr
          ⟨hstored, fun hmem => ?_⟩, rfl⟩
        exact hunmarked ((hp r'' hstored).mp hmem)
  · intro k d hd
    rw [hdeps] at hd
    exact h.edges k d hd
  · intro e he
    rw [hdeps]
    exact h.kept e he

theorem Agree.register {s : Backends} (h : Agree s) {db' : FreshnessDb}
    {r : SourceReference} (hdb' : Registered s.rocks.db db' r) :
    Agree ⟨{ s.rocks with db := db' }, s.surreal.registerSource r⟩ := by
  have hrows : forall id : String,
      (s.surreal.registerSource r).references[id]? =
        if r.entryId = id then some (recordOf r)
        else s.surreal.references[id]? := by
    intro id
    exact Database.get_insert s.surreal.references _ _ _
  constructor
  · intro id x hx
    rw [hrows] at hx
    split at hx
    · next hid =>
      cases hx
      exact hid
    · exact h.entry id x hx
  · intro x hx
    show (s.surreal.registerSource r).references[x.entryId]? = _
    rw [hrows]
    rcases (hdb'.stored_iff x).mp hx with rfl | ⟨hold, hne⟩
    · exact if_pos rfl
    · rw [if_neg (Ne.symm hne)]
      exact h.current x hold
  · intro id x hx
    rw [hrows] at hx
    split at hx
    · cases hx
      exact Or.inr ⟨r, hdb'.row, rfl⟩
    · next hne =>
      rcases h.stored id x hx with hstale | ⟨r', hstored, rfl⟩
      · exact Or.inl hstale
      · refine Or.inr ⟨r', (hdb'.stored_iff r').mpr (Or.inr ⟨hstored, ?_⟩), rfl⟩
        have hentry : r'.entryId = id := h.entry id _ hx
        rw [hentry]
        exact Ne.symm hne
  · exact h.edges
  · exact h.kept

theorem FreshnessTables.get_registered (source : SymbolId)
    (targets : List SymbolId) (rows : Database String SymbolDepRecord)
    (k : String) :
    (forall d, (targets.foldl (fun rows target =>
        rows.insert (dependencyKey source target)
          (dependencyRecord source target)) rows)[k]? = some d ->
      rows[k]? = some d ∨ exists target, target ∈ targets ∧
        dependencyKey source target = k ∧
          d = dependencyRecord source target) ∧
    (k ∈ targets.foldl (fun rows target =>
        rows.insert (dependencyKey source target)
          (dependencyRecord source target)) rows ↔
      k ∈ rows ∨ exists target, target ∈ targets ∧
        dependencyKey source target = k) := by
  induction targets generalizing rows with
  | nil =>
      refine ⟨fun d hd => Or.inl hd, ?_⟩
      simp
  | cons target rest ih =>
      obtain ⟨hget, hmem⟩ := ih
        (rows.insert (dependencyKey source target)
          (dependencyRecord source target))
      rw [List.foldl_cons]
      constructor
      · intro d hd
        rcases hget d hd with hold | ⟨other, hother, hkey, rfl⟩
        · rw [Database.get_insert] at hold
          split at hold
          · next hkey =>
            cases hold
            exact Or.inr ⟨target, List.mem_cons_self, hkey, rfl⟩
          · exact Or.inl hold
        · exact Or.inr ⟨other, List.mem_cons_of_mem _ hother, hkey, rfl⟩
      · rw [hmem, Std.ExtTreeMap.mem_insert, Std.compare_eq_iff_eq]
        constructor
        · rintro ((hkey | hold) | ⟨other, hother, hkey⟩)
          · exact Or.inr ⟨target, List.mem_cons_self, hkey⟩
          · exact Or.inl hold
          · exact Or.inr ⟨other, List.mem_cons_of_mem _ hother, hkey⟩
        · rintro (hold | ⟨other, hother, hkey⟩)
          · exact Or.inl (Or.inr hold)
          · rcases List.mem_cons.mp hother with rfl | hrest
            · exact Or.inl (Or.inl hkey)
            · exact Or.inr ⟨other, hrest, hkey⟩

theorem Agree.depend {s : Backends} (h : Agree s) (source : SymbolId)
    (targets : List SymbolId) :
    Agree ⟨{
        db := (registerSymbolDependencies s.rocks.db source targets).1
        edges := s.rocks.edges ++ targets.map (fun target => (source, target)) },
      (s.surreal.registerSymbolDependencies source targets).1⟩ := by
  have hstored : forall r, Stored
      (registerSymbolDependencies s.rocks.db source targets).1 r ↔
        Stored s.rocks.db r := by
    intro r
    rw [Stored, depend_sourceRef, Stored]
  have hrows := FreshnessTables.get_registered source targets
    s.surreal.dependencies
  constructor
  · exact h.entry
  · intro r hr
    exact h.current r ((hstored r).mp hr)
  · intro id r hr
    rcases h.stored id r hr with hstale | ⟨r', hr', heq⟩
    · exact Or.inl hstale
    · exact Or.inr ⟨r', (hstored r').mpr hr', heq⟩
  · intro k d hd
    rcases (hrows k).1 d hd with hold | ⟨target, htarget, hkey, hd⟩
    · obtain ⟨e, he, hrest⟩ := h.edges k d hold
      exact ⟨e, List.mem_append_left _ he, hrest⟩
    · exact ⟨(source, target),
        List.mem_append_right _ (List.mem_map_of_mem htarget), hkey, hd⟩
  · intro e he
    apply (hrows _).2.mpr
    rcases List.mem_append.mp he with hold | hnew
    · exact Or.inl (h.kept e hold)
    · obtain ⟨target, htarget, rfl⟩ := List.mem_map.mp hnew
      exact Or.inr ⟨target, htarget, rfl⟩

variable {s' : Backends} {o : Operation}

theorem step_agree (hkeyed : Keyed s.rocks.db) (hedged : Edged s.rocks)
    (hcomplete : Complete s.rocks.db) (h : Agree s) (hfair : Fair s o)
    (hstep : stepBoth s o = some s') :
    Agree s' := by
  obtain ⟨rocks, hrocks, hstep⟩ := Option.bind_eq_some_iff.mp hstep
  obtain ⟨surreal, hsurreal, rfl⟩ := Option.map_eq_some_iff.mp hstep
  cases step_cases hkeyed hrocks with
  | register hdb' =>
      cases hsurreal
      exact h.register hdb'
  | @invalidate filePath removed hremoved =>
      cases hsurreal
      refine h.marked (p := fun r => r.filePath = filePath)
        (fun r hr => ((hremoved r).mp hr).1) ?_
        (FreshnessTables.get_markStale _ _) rfl
      intro r hr
      rw [hremoved, decide_eq_true_eq]
      constructor
      · exact fun hall => hall.2.2
      · exact fun hfile => ⟨hr, hcomplete r hr, hfile⟩
  | @depend source targets =>
      cases hsurreal
      exact h.depend source targets
  | @cascade changed maxDepth removed hremoved =>
      obtain ⟨htelling, htell⟩ := hfair.2 changed maxDepth rfl
      obtain ⟨t, report, p, hcascade, _, _, hrows, hdeps, hp⟩ :=
        h.cascadeInvalidate htell htelling
      rw [FreshnessTables.step, hcascade] at hsurreal
      cases hsurreal
      refine h.marked (fun r hr => ((hremoved r).mp hr).1) ?_ hrows hdeps
      intro r hr
      rw [hp, hremoved, htelling.doomed_iff hedged, Affected,
        FreshnessTables.symbolName_recordOf]
      constructor
      · exact fun hall => hall.2.2
      · exact fun haffected => ⟨hr, hcomplete r hr, haffected⟩

/-!
# Runs
-/

theorem reachable_rocks (h : (backends start).Reachable Fair s) :
    (tracking start).Reachable Separate s.rocks := by
  induction h with
  | init => exact System.Reachable.init
  | step _ hfair hstep ih =>
      obtain ⟨rocks, hrocks, hstep⟩ := Option.bind_eq_some_iff.mp hstep
      obtain ⟨surreal, _, rfl⟩ := Option.map_eq_some_iff.mp hstep
      exact ih.step hfair.1 hrocks

theorem reachable_agree (hstart : Untracked start)
    (h : (backends start).Reachable Fair s) :
    Agree s := by
  refine h.invariant_of (P := Agree)
    (Q := fun s => (tracking start).Reachable Separate s.rocks)
    (fun _ => reachable_rocks) (agree_init hstart) ?_
  intro s o s' hrocks hold hfair hstep
  exact step_agree (reachable_keyed hstart hrocks)
    (reachable_edged hstart hrocks.anything) (reachable_complete hstart hrocks)
    hold hfair hstep

def Marked (t : FreshnessTables) (entryId : String) : Prop :=
  exists r, t.references[entryId]? = some r ∧ r.status = 1

theorem Agree.loadReference (h : Agree s) (hkeyed : Keyed s.rocks.db)
    (entryId : String) :
    exists reference, loadReference s.rocks.db entryId = Except.ok reference ∧
      (Marked s.surreal entryId -> reference = none) ∧
      (¬ Marked s.surreal entryId ->
        s.surreal.references[entryId]? = reference.map recordOf ∧
          forall r, reference = some r -> r.entryId = entryId) := by
  obtain ⟨reference, hload, hiff⟩ := hkeyed.loadReference entryId
  refine ⟨reference, hload, ?_, ?_⟩
  · rintro ⟨row, hrow, hstale⟩
    cases reference with
    | none => rfl
    | some r =>
        obtain ⟨hstored, rfl⟩ := (hiff r).mp rfl
        rw [h.current r hstored] at hrow
        cases hrow
        cases hstale
  · intro hunmarked
    refine ⟨?_, fun r hr => ((hiff r).mp hr).2⟩
    cases reference with
    | some r =>
        obtain ⟨hstored, rfl⟩ := (hiff r).mp rfl
        exact h.current r hstored
    | none =>
        cases hrow : s.surreal.references[entryId]? with
        | none => rfl
        | some row =>
            rcases h.stored entryId row hrow with hstale | ⟨r, hstored, rfl⟩
            · exact absurd ⟨row, hrow, hstale⟩ hunmarked
            · have hentry : r.entryId = entryId := h.entry entryId _ hrow
              cases (hiff r).mpr ⟨hstored, hentry⟩

/-- The checks agree, but for an entry that RocksDB no longer has and SurrealDB
holds as stale. -/
theorem Agree.checkFreshnessSemantic (h : Agree s) (hkeyed : Keyed s.rocks.db)
    (entryId : String) (fileHash : List UInt8) (astHash : Option (List UInt8)) :
    exists entry,
      checkFreshnessSemantic s.rocks.db entryId fileHash astHash =
        Except.ok entry ∧
      (¬ Marked s.surreal entryId ->
        s.surreal.checkFreshnessSemantic entryId fileHash astHash = entry) ∧
      (Marked s.surreal entryId ->
        entry.status = FreshnessStatus.unknown ∧
        (s.surreal.checkFreshnessSemantic entryId fileHash astHash).status =
          FreshnessStatus.stale) := by
  obtain ⟨reference, hload, hgone, hsame⟩ := h.loadReference hkeyed entryId
  refine ⟨_, by rw [Freshness.checkFreshnessSemantic, hload]; rfl, ?_, ?_⟩
  · intro hunmarked
    obtain ⟨hrow, hentry⟩ := hsame hunmarked
    rw [FreshnessTables.checkFreshnessSemantic, hrow]
    cases reference with
    | none => rfl
    | some r =>
        rw [← hentry r rfl]
        show FreshnessTables.entryOf (recordOf r) fileHash
          (hashesAgree r.contentHash fileHash (recordOf r).astHash astHash) = _
        rw [FreshnessTables.astHash_recordOf]
        rfl
  · intro hmarked
    rw [hgone hmarked]
    obtain ⟨row, hrow, hstale⟩ := hmarked
    rw [FreshnessTables.checkFreshnessSemantic, hrow]
    exact ⟨rfl, if_pos hstale⟩

theorem checkFreshness_eq (t : FreshnessTables) (entryId : String)
    (fileHash : List UInt8) :
    t.checkFreshness entryId fileHash =
      t.checkFreshnessSemantic entryId fileHash none := by
  rw [FreshnessTables.checkFreshness, FreshnessTables.checkFreshnessSemantic]
  split
  · next r hrow =>
    cases r.astHash <;> rfl
  · rfl

theorem Agree.marked_iff (h : Agree s) (entryId : String) :
    Marked s.surreal entryId ↔
      entryId ∈ s.surreal.references ∧
        ¬ exists r, Stored s.rocks.db r ∧ r.entryId = entryId := by
  rw [Std.ExtTreeMap.mem_iff_isSome_getElem?, Option.isSome_iff_exists]
  constructor
  · rintro ⟨row, hrow, hstale⟩
    refine ⟨⟨row, hrow⟩, ?_⟩
    rintro ⟨r, hstored, rfl⟩
    rw [h.current r hstored] at hrow
    cases hrow
    cases hstale
  · rintro ⟨⟨row, hrow⟩, hnone⟩
    rcases h.stored entryId row hrow with hstale | ⟨r, hstored, rfl⟩
    · exact ⟨row, hrow, hstale⟩
    · exact absurd ⟨r, hstored, h.entry entryId _ hrow⟩ hnone

theorem Agree.mem_currentEntries (h : Agree s) {filePath : String}
    {r : SourceReference} :
    r ∈ s.surreal.currentEntries filePath ↔
      exists r', Stored s.rocks.db r' ∧ r'.filePath = filePath ∧
        r = (recordOf r').reference := by
  rw [FreshnessTables.currentEntries, List.mem_map]
  constructor
  · rintro ⟨row, hrow, rfl⟩
    obtain ⟨hrow, hcurrent⟩ := List.mem_filter.mp hrow
    obtain ⟨hfile, hstatus⟩ := of_decide_eq_true hcurrent
    obtain ⟨id, hid⟩ := FreshnessTables.mem_sourceRows.mp hrow
    rcases h.stored id row hid with hstale | ⟨r', hstored, rfl⟩
    · exact absurd hstale hstatus
    · exact ⟨r', hstored, hfile, rfl⟩
  · rintro ⟨r', hstored, hfile, rfl⟩
    refine ⟨recordOf r', List.mem_filter.mpr
      ⟨FreshnessTables.mem_sourceRows.mpr ⟨_, h.current r' hstored⟩, ?_⟩, rfl⟩
    have hstatus : (recordOf r').status ≠ 1 := by
      intro hstale
      cases hstale
    exact decide_eq_true ⟨hfile, hstatus⟩

/-- After any sequence of calls in which the keys tell the references and
symbols apart, both backends give the same checks, except that RocksDB has
forgotten an entry that was invalidated and SurrealDB holds it as stale; they
list the same current references of a file, SurrealDB without the scopes that
are no functions; and a cascade reports the same symbols. -/
theorem freshness_backends_agree {start : FreshnessDb} (hstart : Untracked start)
    {s : Backends} (h : (backends start).Reachable Fair s) :
    (forall entryId fileHash astHash, exists entry,
      checkFreshnessSemantic s.rocks.db entryId fileHash astHash =
        Except.ok entry ∧
      (¬ Marked s.surreal entryId ->
        s.surreal.checkFreshnessSemantic entryId fileHash astHash = entry) ∧
      (Marked s.surreal entryId ->
        entry.status = FreshnessStatus.unknown ∧
        (s.surreal.checkFreshnessSemantic entryId fileHash astHash).status =
          FreshnessStatus.stale)) ∧
    (forall entryId fileHash, exists entry,
      checkFreshness s.rocks.db entryId fileHash = Except.ok entry ∧
      (¬ Marked s.surreal entryId ->
        s.surreal.checkFreshness entryId fileHash = entry) ∧
      (Marked s.surreal entryId ->
        entry.status = FreshnessStatus.unknown ∧
        (s.surreal.checkFreshness entryId fileHash).status =
          FreshnessStatus.stale)) ∧
    (forall entryId, Marked s.surreal entryId ↔
      entryId ∈ s.surreal.references ∧
        ¬ exists r, Stored s.rocks.db r ∧ r.entryId = entryId) ∧
    (forall filePath r, r ∈ s.surreal.currentEntries filePath ↔
      exists r', r' ∈ referencesForFile s.rocks.db filePath ∧
        r = { r' with scope := (functionOf r').map (fun func =>
          ⟨some (Scope.function func)⟩) }) ∧
    (RowsTell s.rocks.edges -> forall changed maxDepth,
      Telling s.rocks.edges changed.symbol maxDepth ->
      exists db report surreal report',
        cascadeInvalidate s.rocks.db changed maxDepth = some (db, report) ∧
        s.surreal.cascadeInvalidate changed maxDepth =
          some (surreal, report') ∧
        forall key, key ∈ report.invalidatedSymbols ↔
          key ∈ report'.invalidatedSymbols) := by
  have hrocks := reachable_rocks h
  have hkeyed := reachable_keyed hstart hrocks
  have hagree := reachable_agree hstart h
  refine ⟨hagree.checkFreshnessSemantic hkeyed, ?_, hagree.marked_iff, ?_, ?_⟩
  · intro entryId fileHash
    rw [checkFreshness_eq]
    exact hagree.checkFreshnessSemantic hkeyed entryId fileHash none
  · intro filePath r
    rw [hagree.mem_currentEntries]
    simp only [hkeyed.exact_iff.mpr (reachable_complete hstart hrocks) filePath,
      FreshnessTables.reference_recordOf, and_assoc]
  · intro hrows changed maxDepth htelling
    obtain ⟨removed, report, hcascade, _, hreport, _⟩ :=
      hkeyed.cascadeInvalidate changed maxDepth
    obtain ⟨surreal, report', p, hcascade', _, hreport', _⟩ :=
      hagree.cascadeInvalidate hrows htelling
    refine ⟨_, report, surreal, report', hcascade, hcascade', ?_⟩
    intro key
    rw [hreport, hreport',
      htelling.reached_iff (reachable_edged hstart hrocks.anything)]

/-- Conditions on the texts under which a call is fair. -/
def Clear (s : Backends) (o : Operation) : Prop :=
  isPlain s.rocks.db = true ∧
    match o with
    | Operation.cascadeInvalidate changed _ =>
        AllTell s.rocks.edges changed.symbol ∧ RowsTell s.rocks.edges
    | _ => True

instance (s : Backends) : (o : Operation) -> Decidable (Clear s o)
  | Operation.registerSource _ => inferInstanceAs (Decidable (_ ∧ True))
  | Operation.invalidateSource _ => inferInstanceAs (Decidable (_ ∧ True))
  | Operation.registerSymbolDependencies _ _ =>
      inferInstanceAs (Decidable (_ ∧ True))
  | Operation.cascadeInvalidate _ _ => inferInstanceAs (Decidable (_ ∧ _ ∧ _))

theorem Clear.fair (h : Clear s o) :
    Fair s o := by
  refine ⟨separate_of_isPlain o h.1, ?_⟩
  rintro changed maxDepth rfl
  exact ⟨h.2.1.telling maxDepth, h.2.2⟩

/-- A file is invalidated while another depends on it, and its function is then
taken for changed. -/
theorem freshness_backends_agree_invalidated :
    exists s : Backends,
      (backends ∅).Reachable Fair s ∧
      (forall entryId, entryId = "core" ∨ entryId = "user" ->
        (s.surreal.checkFreshness entryId []).status = FreshnessStatus.stale ∧
        exists entry, checkFreshness s.rocks.db entryId [] = Except.ok entry ∧
          entry.status = FreshnessStatus.unknown) ∧
      exists db report surreal report',
        cascadeInvalidate s.rocks.db (functionSymbol "lib.rs" "core") 5 =
          some (db, report) ∧
        s.surreal.cascadeInvalidate (functionSymbol "lib.rs" "core") 5 =
          some (surreal, report') ∧
        report'.invalidatedSymbols = ["app.rs::user"] ∧
        forall key, key ∈ report.invalidatedSymbols ↔
          key ∈ report'.invalidatedSymbols := by
  obtain ⟨s, -, hclear, htell, hrows, hcore, huser, hreported⟩ :=
    (backends ∅).replay_reaches Clear
      [Operation.registerSource (functionReference "core" "lib.rs" "core"),
        Operation.registerSource (functionReference "user" "app.rs" "user"),
        Operation.registerSource (functionReference "main" "main.rs" "main"),
        Operation.registerSymbolDependencies (functionSymbol "app.rs" "user")
          [functionSymbol "lib.rs" "core"],
        Operation.invalidateSource "lib.rs",
        Operation.cascadeInvalidate (functionSymbol "lib.rs" "core") 5]
      (fun s => AllTell s.rocks.edges (functionSymbol "lib.rs" "core").symbol ∧
        RowsTell s.rocks.edges ∧
        s.surreal.references["core"]?.map SourceReferenceRecord.status = some 1 ∧
        s.surreal.references["user"]?.map SourceReferenceRecord.status = some 1 ∧
        (s.surreal.cascadeInvalidate (functionSymbol "lib.rs" "core") 5).map
          (fun result => result.2.invalidatedSymbols) = some ["app.rs::user"])
      (by decide +kernel)
  have hreach := hclear.mono (fun _ _ => Clear.fair)
  obtain ⟨_, hcheck, _, _, hcascade⟩ :=
    freshness_backends_agree untracked_empty hreach
  refine ⟨s, hreach, ?_, ?_⟩
  · intro entryId hentry
    have hmarked : Marked s.surreal entryId := by
      rcases hentry with rfl | rfl
      · exact Option.map_eq_some_iff.mp hcore
      · exact Option.map_eq_some_iff.mp huser
    obtain ⟨entry, hentry, _, hforgotten⟩ := hcheck entryId []
    obtain ⟨hunknown, hstale⟩ := hforgotten hmarked
    exact ⟨hstale, entry, hentry, hunknown⟩
  · obtain ⟨db, report, surreal, report', hrocks, hsurreal, hsame⟩ :=
      hcascade hrows (functionSymbol "lib.rs" "core") 5 (htell.telling 5)
    rw [hsurreal] at hreported
    exact ⟨db, report, surreal, report', hrocks, hsurreal,
      Option.some.inj hreported, hsame⟩

/-- One name in two files: RocksDB takes a dependency on the one for a
dependency on the other. -/
theorem shared_name_cascades_differ :
    exists s : Backends, (backends ∅).Reachable Fair s ∧
      RowsTell s.rocks.edges ∧
      (cascadeInvalidate s.rocks.db (functionSymbol "a.rs" "core") 1).map
        (fun result => result.2.invalidatedSymbols) = some ["app.rs::user"] ∧
      (s.surreal.cascadeInvalidate (functionSymbol "a.rs" "core") 1).map
        (fun result => result.2.invalidatedSymbols) = some [] := by
  obtain ⟨s, -, hclear, hend⟩ := (backends ∅).replay_reaches Clear
    [Operation.registerSymbolDependencies (functionSymbol "app.rs" "user")
      [functionSymbol "b.rs" "core"]]
    (fun s => RowsTell s.rocks.edges ∧
      (cascadeInvalidate s.rocks.db (functionSymbol "a.rs" "core") 1).map
        (fun result => result.2.invalidatedSymbols) = some ["app.rs::user"] ∧
      (s.surreal.cascadeInvalidate (functionSymbol "a.rs" "core") 1).map
        (fun result => result.2.invalidatedSymbols) = some []) (by decide +kernel)
  exact ⟨s, hclear.mono (fun _ _ => Clear.fair), hend⟩

/-- A dependency by name only on a qualified name: RocksDB looks up the last
segment and misses it. -/
theorem qualified_name_cascades_differ :
    exists s : Backends, (backends ∅).Reachable Fair s ∧
      RowsTell s.rocks.edges ∧
      (cascadeInvalidate s.rocks.db (functionSymbol "lib.rs" "Foo::bar") 1).map
        (fun result => result.2.invalidatedSymbols) = some [] ∧
      (s.surreal.cascadeInvalidate (functionSymbol "lib.rs" "Foo::bar") 1).map
        (fun result => result.2.invalidatedSymbols) = some ["app.rs::user"] := by
  obtain ⟨s, -, hclear, hend⟩ := (backends ∅).replay_reaches Clear
    [Operation.registerSymbolDependencies (functionSymbol "app.rs" "user")
      [functionSymbol "" "Foo::bar"]]
    (fun s => RowsTell s.rocks.edges ∧
      (cascadeInvalidate s.rocks.db (functionSymbol "lib.rs" "Foo::bar") 1).map
        (fun result => result.2.invalidatedSymbols) = some [] ∧
      (s.surreal.cascadeInvalidate (functionSymbol "lib.rs" "Foo::bar") 1).map
        (fun result => result.2.invalidatedSymbols) = some ["app.rs::user"])
    (by decide +kernel)
  exact ⟨s, hclear.mono (fun _ _ => Clear.fair), hend⟩

/-- After a file is invalidated its entry is unknown to one backend and stale to
the other. -/
theorem invalidated_entry_differs :
    ¬ forall s : Backends, (backends ∅).Reachable System.Anything s ->
      forall entryId fileHash entry,
        checkFreshness s.rocks.db entryId fileHash = Except.ok entry ->
        (s.surreal.checkFreshness entryId fileHash).status = entry.status := by
  intro hsame
  obtain ⟨s, -, hreach, hrocks, hsurreal⟩ := (backends ∅).replay_reaches System.Anything
    [Operation.registerSource (fileReference "e" "a.rs"),
      Operation.invalidateSource "a.rs"]
    (fun s => checkFreshness s.rocks.db "e" [] = Except.ok (unknownEntry "e" []) ∧
      (s.surreal.checkFreshness "e" []).status = FreshnessStatus.stale)
    (by decide +kernel)
  have heq := hsame s hreach "e" [] _ hrocks
  rw [hsurreal] at heq
  cases heq

end Freshness
end Storage
end PostCortex
