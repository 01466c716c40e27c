import Mathlib.Data.List.Infix
import PostCortex.KeyValue.HashBytes
import PostCortex.Storage.Freshness
import PostCortex.Transition.System

/-!
# The file index

What the operations do to the references, their index entries and the
dependencies, and what the index lists after any sequence of them.
-/

namespace PostCortex
namespace Storage
namespace Freshness

open KeyValue
open Search
open Transition

/-!
# Keys
-/

theorem afterPrefix_append (p x : String) : afterPrefix p (p ++ x) = x := by
  rw [afterPrefix, String.toList_append, List.drop_left, String.ofList_toList]

variable {k : String}

theorem append_afterPrefix {p : String} (h : hasPrefix p k = true) :
    p ++ afterPrefix p k = k := by
  obtain ⟨rest, hrest⟩ := hasPrefix_iff.mp h
  apply String.toList_inj.mp
  rw [afterPrefix, String.toList_append, ← hrest, List.drop_left,
    String.toList_ofList]

variable {x : String}

theorem sourceRefKey_inj {y : String} (h : sourceRefKey x = sourceRefKey y) :
    x = y :=
  (String.append_right_inj _).mp h

theorem fileIndexKey_eq (filePath entryId : String) :
    fileIndexKey filePath entryId = fileIndexPrefix filePath ++ entryId :=
  rfl

theorem fileIndexKey_kind (filePath entryId : String) :
    fileIndexKey filePath entryId =
      "source_by_file:" ++ (filePath ++ ("|" ++ entryId)) := by
  unfold fileIndexKey
  simp only [String.append_assoc]

theorem forwardKey_kind (x y : String) :
    forwardKey x y = "symbol_dep:" ++ (x ++ ("|" ++ y)) := by
  unfold forwardKey
  simp only [String.append_assoc]

theorem reverseKey_kind (x y : String) :
    reverseKey x y = "symbol_rdep:" ++ (x ++ ("|" ++ y)) := by
  unfold reverseKey
  simp only [String.append_assoc]

theorem fileIndexKey_file {f g entryId : String}
    (h : fileIndexKey f entryId = fileIndexKey g entryId) :
    f = g := by
  rw [fileIndexKey_kind, fileIndexKey_kind] at h
  have hpaths := (String.append_right_inj _).mp h
  exact (String.append_left_inj _).mp hpaths

theorem sourceRefKey_ne_indexKey (x f y : String) :
    sourceRefKey x ≠ fileIndexKey f y := by
  have hapart : Apart "source_ref:" "source_by_file:" := by
    decide
  rw [fileIndexKey_kind]
  exact hapart.ne _ _

/-!
# References
-/

def Stored (db : FreshnessDb) (r : SourceReference) : Prop :=
  db[sourceRefKey r.entryId]? = some (FreshnessRecord.reference r)

def Indexed (db : FreshnessDb) (r : SourceReference) : Prop :=
  db[fileIndexKey r.filePath r.entryId]?.isSome = true

def Keyed (db : FreshnessDb) : Prop :=
  forall k v, hasPrefix "source_ref:" k = true -> db[k]? = some v ->
    exists r, v = FreshnessRecord.reference r ∧ k = sourceRefKey r.entryId

variable {filePath : String} {r : SourceReference}

theorem referenceOf_eq {v : Option FreshnessRecord} :
    referenceOf filePath v = some r ↔
      v = some (FreshnessRecord.reference r) ∧ r.filePath = filePath := by
  unfold referenceOf
  split
  · next n =>
    constructor
    · intro h
      split at h
      · next hpath =>
        cases h
        exact ⟨rfl, hpath⟩
      · cases h
    · rintro ⟨h, hpath⟩
      cases h
      rw [if_pos hpath]
  · next hnone =>
    constructor
    · intro h
      cases h
    · rintro ⟨rfl, _⟩
      exact absurd rfl (hnone r)

variable {db : FreshnessDb}

theorem Keyed.entry (h : Keyed db)
    (hrow : db[sourceRefKey x]? = some (FreshnessRecord.reference r)) :
    r.entryId = x := by
  obtain ⟨r', hvalue, hkey⟩ := h _ _ (hasPrefix_append _ _) hrow
  cases hvalue
  exact (sourceRefKey_inj hkey).symm

theorem Keyed.mem_referencesForFile (h : Keyed db) :
    r ∈ referencesForFile db filePath ↔
      Stored db r ∧ r.filePath = filePath ∧ Indexed db r := by
  rw [referencesForFile, List.mem_filterMap]
  constructor
  · rintro ⟨k, hk, hr⟩
    obtain ⟨k', hk', rfl⟩ := List.mem_map.mp hk
    obtain ⟨hsome, hbegins⟩ := Database.mem_keysWhere.mp hk'
    obtain ⟨hrow, rfl⟩ := referenceOf_eq.mp hr
    have hentry := h.entry hrow
    have hindex : fileIndexKey r.filePath r.entryId = k' := by
      rw [hentry, fileIndexKey_eq]
      exact append_afterPrefix hbegins
    refine ⟨?_, rfl, ?_⟩
    · rw [Stored, hentry]
      exact hrow
    · rw [Indexed, hindex]
      exact hsome
  · rintro ⟨hrow, rfl, hindexed⟩
    refine ⟨sourceRefKey r.entryId, ?_, referenceOf_eq.mpr ⟨hrow, rfl⟩⟩
    refine List.mem_map.mpr ⟨fileIndexKey r.filePath r.entryId, ?_, ?_⟩
    · exact Database.mem_keysWhere.mpr ⟨hindexed, hasPrefix_append _ _⟩
    · rw [fileIndexKey_eq, afterPrefix_append]

theorem Keyed.nodup_referencesForFile (h : Keyed db) (filePath : String) :
    (referencesForFile db filePath).Nodup := by
  have hkeys : (db.keysWhere (hasPrefix (fileIndexPrefix filePath))).Nodup :=
    Std.ExtTreeMap.nodup_keys.filter _
  have hmapped : ((db.keysWhere (hasPrefix (fileIndexPrefix filePath))).map
      (fun k => sourceRefKey (afterPrefix (fileIndexPrefix filePath) k))).Nodup := by
    refine hkeys.map_on ?_
    intro x hx y hy heq
    rw [← append_afterPrefix (Database.mem_keysWhere.mp hx).2,
      ← append_afterPrefix (Database.mem_keysWhere.mp hy).2,
      sourceRefKey_inj heq]
  rw [referencesForFile, List.Nodup, List.pairwise_filterMap]
  refine hmapped.imp_of_mem ?_
  intro k k' hk hk' hne r hr r' hr' heq
  obtain ⟨x, _, rfl⟩ := List.mem_map.mp hk
  obtain ⟨y, _, rfl⟩ := List.mem_map.mp hk'
  have hx := h.entry (referenceOf_eq.mp hr).1
  have hy := h.entry (referenceOf_eq.mp hr').1
  rw [← hx, ← hy, heq] at hne
  exact hne rfl

/-!
# Deleting references
-/

theorem deleteReferences_other (db : FreshnessDb) (removed : List SourceReference)
    (hk : forall r, r ∈ removed ->
      k ≠ sourceRefKey r.entryId ∧ k ≠ fileIndexKey r.filePath r.entryId) :
    (deleteReferences db removed)[k]? = db[k]? := by
  rw [deleteReferences, Database.get_write_deletes, if_neg]
  intro hmem
  obtain ⟨r, hr, hk'⟩ := List.mem_flatMap.mp hmem
  simp only [keysOf, List.mem_cons, List.not_mem_nil, or_false] at hk'
  exact hk'.elim (hk r hr).1 (hk r hr).2

variable {removed : List SourceReference}

theorem deleteReferences_gone (db : FreshnessDb) (hr : r ∈ removed)
    (hk : k ∈ keysOf r) :
    (deleteReferences db removed)[k]? = none := by
  rw [deleteReferences, Database.get_write_deletes,
    if_pos (List.mem_flatMap.mpr ⟨r, hr, hk⟩)]

theorem stored_deleteReferences (hremoved : forall r, r ∈ removed -> Stored db r)
    (r : SourceReference) :
    Stored (deleteReferences db removed) r ↔ Stored db r ∧ r ∉ removed := by
  constructor
  · intro hrow
    have hnot : forall x, x ∈ removed -> x.entryId ≠ r.entryId := by
      intro x hx heq
      have hgone := deleteReferences_gone db hx (k := sourceRefKey x.entryId)
        List.mem_cons_self
      rw [heq, show _ = _ from hrow] at hgone
      cases hgone
    refine ⟨?_, fun hr => hnot r hr rfl⟩
    rw [Stored, ← deleteReferences_other db removed]
    · exact hrow
    · intro x hx
      exact ⟨fun heq => hnot x hx (sourceRefKey_inj heq).symm,
        sourceRefKey_ne_indexKey _ _ _⟩
  · rintro ⟨hrow, hr⟩
    rw [Stored, deleteReferences_other]
    · exact hrow
    · intro x hx
      refine ⟨?_, sourceRefKey_ne_indexKey _ _ _⟩
      intro heq
      have hsame := hremoved x hx
      rw [Stored, ← heq, show _ = _ from hrow] at hsame
      cases hsame
      exact hr hx

/-!
# Cascades
-/

def Reached (db : FreshnessDb) (changed : SymbolId) (maxDepth : Nat)
    (key : String) : Prop :=
  exists n, n ≤ maxDepth ∧
    Path (dependentsOf db) (symbolKey changed.filePath changed.symbolName) n key

/-- The references that a change of a symbol takes along: those of a function
whose key is met, in the file of the symbol or of another key met. -/
def Doomed (db : FreshnessDb) (changed : SymbolId) (maxDepth : Nat)
    (r : SourceReference) : Prop :=
  exists name, functionName r = some name ∧
    Reached db changed maxDepth (symbolKey r.filePath name) ∧
    (r.filePath = changed.filePath ∨
      exists key, key ≠ symbolKey changed.filePath changed.symbolName ∧
        Reached db changed maxDepth key ∧ fileOf key = some r.filePath)

theorem mem_dependentsOf {key : String} :
    x ∈ dependentsOf db key ↔
      db[reverseKey key x]?.isSome = true ∨
        db[reverseKey ("::" ++ lastSegment key) x]?.isSome = true := by
  have hone : forall p : String,
      x ∈ (db.keysWhere (hasPrefix p)).map (afterPrefix p) ↔
        db[p ++ x]?.isSome = true := by
    intro p
    rw [List.mem_map]
    constructor
    · rintro ⟨k, hk, rfl⟩
      obtain ⟨hsome, hbegins⟩ := Database.mem_keysWhere.mp hk
      rw [append_afterPrefix hbegins]
      exact hsome
    · intro hsome
      exact ⟨p ++ x, Database.mem_keysWhere.mpr ⟨hsome, hasPrefix_append p x⟩,
        afterPrefix_append p x⟩
  rw [dependentsOf, List.flatMap_cons, List.flatMap_cons, List.flatMap_nil,
    List.append_nil, List.mem_append, hone, hone]
  rfl

theorem mem_meetable {a : String} {n : Nat} (h : Path (dependentsOf db) a n x) :
    x ∈ meetable db a := by
  cases h with
  | nil => exact List.mem_cons_self
  | @snoc n y _ _ hx =>
      have hsuffix : forall p : String, db[p ++ x]?.isSome = true ->
          x ∈ meetable db a := by
        intro p hsome
        have hkey : p ++ x ∈ db.keys := by
          rw [Std.ExtTreeMap.mem_keys,
            Std.ExtTreeMap.mem_iff_isSome_getElem?]
          exact hsome
        refine List.mem_cons_of_mem _ (List.mem_flatMap.mpr ⟨_, hkey, ?_⟩)
        refine List.mem_map.mpr ⟨x.toList, ?_, String.ofList_toList⟩
        rw [List.mem_tails, String.toList_append]
        exact List.suffix_append _ _
      rcases mem_dependentsOf.mp hx with hown | hname
      · exact hsuffix _ hown
      · exact hsuffix _ hname

theorem invalidationOf_isSome {changedKey : String} {dependents : List String} :
    (invalidationOf changedKey dependents r).isSome = true ↔
      exists name, functionName r = some name ∧
        (symbolKey r.filePath name = changedKey ∨
          symbolKey r.filePath name ∈ dependents) := by
  unfold invalidationOf
  split
  · next hnone =>
    rw [hnone]
    simp
  · next name hname =>
    rw [hname]
    dsimp only
    split
    · next hdirect =>
      simp [hdirect]
    · next hdirect =>
      split
      · next hcascade =>
        simp [hcascade]
      · next hcascade =>
        simp [hdirect, hcascade]

/-- A cascade reports the keys it meets, each once, and deletes the references
doomed, as the index lists them. -/
theorem Keyed.cascadeInvalidate (h : Keyed db) (changed : SymbolId) (maxDepth : Nat) :
    exists removed report,
      cascadeInvalidate db changed maxDepth =
        some (deleteReferences db removed, report) ∧
      report.invalidatedSymbols.Nodup ∧
      (forall key, key ∈ report.invalidatedSymbols ↔
        key ≠ symbolKey changed.filePath changed.symbolName ∧
          Reached db changed maxDepth key) ∧
      forall r, r ∈ removed ↔
        Stored db r ∧ Indexed db r ∧ Doomed db changed maxDepth r := by
  obtain ⟨found, hsearch, hnodup, hfound⟩ := search_start
    (fun _ _ hpath => mem_meetable hpath) maxDepth
    (a := symbolKey changed.filePath changed.symbolName)
  refine ⟨_, _, by rw [Freshness.cascadeInvalidate, hsearch], hnodup, hfound, ?_⟩
  have hself : Reached db changed maxDepth
      (symbolKey changed.filePath changed.symbolName) :=
    ⟨0, Nat.zero_le _, Path.nil⟩
  have hhit : forall {r name}, functionName r = some name ->
      (Reached db changed maxDepth (symbolKey r.filePath name) ↔
        symbolKey r.filePath name =
            symbolKey changed.filePath changed.symbolName ∨
          symbolKey r.filePath name ∈ found) := by
    intro r name _
    rw [hfound]
    constructor
    · intro hreached
      by_cases heq : symbolKey r.filePath name =
          symbolKey changed.filePath changed.symbolName
      · exact Or.inl heq
      · exact Or.inr ⟨heq, hreached⟩
    · rintro (heq | ⟨_, hreached⟩)
      · rw [heq]
        exact hself
      · exact hreached
  intro r
  rw [List.mem_filter, List.mem_flatMap, invalidationOf_isSome]
  constructor
  · rintro ⟨⟨file, hfile, hr⟩, name, hname, hkey⟩
    obtain ⟨hstored, rfl, hindexed⟩ := h.mem_referencesForFile.mp hr
    refine ⟨hstored, hindexed, name, hname, (hhit hname).mpr hkey, ?_⟩
    rcases List.mem_cons.mp (List.mem_eraseDups.mp hfile) with hown | hother
    · exact Or.inl hown
    · obtain ⟨key, hfoundKey, hof⟩ := List.mem_filterMap.mp hother
      obtain ⟨hne, hreached⟩ := (hfound key).mp hfoundKey
      exact Or.inr ⟨key, hne, hreached, hof⟩
  · rintro ⟨hstored, hindexed, name, hname, hreached, hfile⟩
    refine ⟨⟨r.filePath, List.mem_eraseDups.mpr ?_,
      h.mem_referencesForFile.mpr ⟨hstored, rfl, hindexed⟩⟩, name, hname,
      (hhit hname).mp hreached⟩
    rcases hfile with hown | ⟨key, hne, hreached', hof⟩
    · rw [hown]
      exact List.mem_cons_self
    · exact List.mem_cons_of_mem _
        (List.mem_filterMap.mpr ⟨key, (hfound key).mpr ⟨hne, hreached'⟩, hof⟩)

/-!
# Registering
-/

theorem Keyed.loadReference (h : Keyed db) (entryId : String) :
    exists old, loadReference db entryId = Except.ok old ∧
      forall r, old = some r ↔ Stored db r ∧ r.entryId = entryId := by
  cases hrow : db[sourceRefKey entryId]? with
  | none =>
      refine ⟨none, by rw [Freshness.loadReference, hrow], ?_⟩
      intro r
      constructor
      · intro hr
        cases hr
      · rintro ⟨hstored, rfl⟩
        rw [Stored, hrow] at hstored
        cases hstored
  | some v =>
      obtain ⟨r, rfl, _⟩ := h _ v (hasPrefix_append _ _) hrow
      refine ⟨some r, by rw [Freshness.loadReference, hrow], ?_⟩
      intro r'
      constructor
      · intro hr
        cases hr
        have hentry := h.entry hrow
        refine ⟨?_, hentry⟩
        rw [Stored, hentry]
        exact hrow
      · rintro ⟨hstored, rfl⟩
        rw [Stored, hrow] at hstored
        cases hstored
        rfl

structure Registered (db db' : FreshnessDb) (r : SourceReference) : Prop where
  row : Stored db' r
  index : Indexed db' r
  moved : forall old, Stored db old -> old.entryId = r.entryId ->
    old.filePath ≠ r.filePath -> forall k,
    k = fileIndexKey old.filePath old.entryId ->
    k ≠ fileIndexKey r.filePath r.entryId -> db'[k]? = none
  other : forall k, k ≠ sourceRefKey r.entryId ->
    k ≠ fileIndexKey r.filePath r.entryId ->
    (forall old, Stored db old -> old.entryId = r.entryId ->
      old.filePath ≠ r.filePath ->
      k ≠ fileIndexKey old.filePath old.entryId) ->
    db'[k]? = db[k]?

theorem Keyed.registerSource (h : Keyed db) (r : SourceReference) :
    exists db', registerSource db r = Except.ok db' ∧ Registered db db' r := by
  obtain ⟨old, hload, hold⟩ := h.loadReference r.entryId
  refine ⟨_, by rw [Freshness.registerSource, hload], ?_⟩
  rw [Database.write_append]
  have hwrite : forall db : FreshnessDb,
      db.write [Edit.put (sourceRefKey r.entryId)
          (FreshnessRecord.reference r),
        Edit.put (fileIndexKey r.filePath r.entryId)
          FreshnessRecord.indexEntry] =
      (db.apply (Edit.put (sourceRefKey r.entryId)
          (FreshnessRecord.reference r))).apply
        (Edit.put (fileIndexKey r.filePath r.entryId)
          FreshnessRecord.indexEntry) :=
    fun _ => rfl
  have hbefore : forall (db : FreshnessDb) (k : String),
      k ≠ sourceRefKey r.entryId -> k ≠ fileIndexKey r.filePath r.entryId ->
      (db.write [Edit.put (sourceRefKey r.entryId)
          (FreshnessRecord.reference r),
        Edit.put (fileIndexKey r.filePath r.entryId)
          FreshnessRecord.indexEntry])[k]? = db[k]? := by
    intro db k hrow hindex
    rw [hwrite, Database.get_apply_other, Database.get_apply_other]
    · exact Ne.symm hrow
    · exact Ne.symm hindex
  constructor
  · rw [Stored, hwrite, Database.get_apply_other, Database.get_put_self]
    exact (sourceRefKey_ne_indexKey _ _ _).symm
  · rw [Indexed, hwrite, Database.get_put_self]
    rfl
  · rintro x hx hentry hpath k rfl hk
    rw [hbefore _ _ (sourceRefKey_ne_indexKey _ _ _).symm hk,
      (hold x).mpr ⟨hx, hentry⟩, movedEntry, if_pos hpath, Database.write_cons,
      Database.write_nil, Database.get_delete_self]
  · intro k hrow hindex hmoved
    rw [hbefore _ _ hrow hindex]
    apply Database.get_write_other
    intro e he
    cases old with
    | none => cases he
    | some x =>
        obtain ⟨hx, hentry⟩ := (hold x).mp rfl
        rw [movedEntry] at he
        split at he
        · next hpath =>
          rw [List.mem_singleton.mp he]
          exact (hmoved x hx hentry hpath).symm
        · cases he

theorem Registered.stored_iff {db' : FreshnessDb} (h : Registered db db' r)
    (x : SourceReference) :
    Stored db' x ↔ x = r ∨ Stored db x ∧ x.entryId ≠ r.entryId := by
  by_cases hentry : x.entryId = r.entryId
  · have hrow := h.row
    rw [Stored] at hrow ⊢
    rw [hentry, hrow]
    constructor
    · intro heq
      cases heq
      exact Or.inl rfl
    · rintro (rfl | ⟨_, hne⟩)
      · rfl
      · exact absurd rfl hne
  · rw [Stored, h.other, Stored]
    · constructor
      · intro hx
        exact Or.inr ⟨hx, hentry⟩
      · rintro (rfl | ⟨hx, _⟩)
        · exact absurd rfl hentry
        · exact hx
    · exact fun heq => hentry (sourceRefKey_inj heq)
    · exact sourceRefKey_ne_indexKey _ _ _
    · intro old _ _ _
      exact sourceRefKey_ne_indexKey _ _ _

/-!
# Runs
-/

/-- `edges` lists the dependencies registered. -/
structure Tracking where
  db : FreshnessDb
  edges : List (SymbolId × SymbolId)

inductive Operation where
  | registerSource (reference : SourceReference)
  | invalidateSource (filePath : String)
  | registerSymbolDependencies (source : SymbolId) (targets : List SymbolId)
  | cascadeInvalidate (changed : SymbolId) (maxDepth : Nat)

def step (s : Tracking) : Operation -> Option Tracking
  | Operation.registerSource reference =>
      match registerSource s.db reference with
      | Except.ok db => some { s with db := db }
      | Except.error _ => some s
  | Operation.invalidateSource filePath =>
      some { s with db := (invalidateSource s.db filePath).1 }
  | Operation.registerSymbolDependencies source targets =>
      some {
        db := (registerSymbolDependencies s.db source targets).1
        edges := s.edges ++ targets.map (fun target => (source, target)) }
  | Operation.cascadeInvalidate changed maxDepth =>
      (cascadeInvalidate s.db changed maxDepth).map
        (fun result => { s with db := result.1 })

def tracking (start : FreshnessDb) : System Tracking Operation where
  init := ⟨start, []⟩
  step := step

def Untracked (db : FreshnessDb) : Prop :=
  forall k, hasPrefix "source_ref:" k = true ∨
      hasPrefix "source_by_file:" k = true ∨
      hasPrefix "symbol_rdep:" k = true ->
    db[k]? = none

/-!
# What a step does
-/

inductive Effect (s : Tracking) : Operation -> Tracking -> Prop where
  | register {r : SourceReference} {db' : FreshnessDb} :
      Registered s.db db' r ->
      Effect s (Operation.registerSource r) { s with db := db' }
  | invalidate {filePath : String} {removed : List SourceReference} :
      (forall r, r ∈ removed ↔
        Stored s.db r ∧ Indexed s.db r ∧ r.filePath = filePath) ->
      Effect s (Operation.invalidateSource filePath)
        { s with db := deleteReferences s.db removed }
  | depend {source : SymbolId} {targets : List SymbolId} :
      Effect s (Operation.registerSymbolDependencies source targets)
        { db := (registerSymbolDependencies s.db source targets).1
          edges := s.edges ++ targets.map (fun target => (source, target)) }
  | cascade {changed : SymbolId} {maxDepth : Nat}
      {removed : List SourceReference} :
      (forall r, r ∈ removed ↔
        Stored s.db r ∧ Indexed s.db r ∧ Doomed s.db changed maxDepth r) ->
      Effect s (Operation.cascadeInvalidate changed maxDepth)
        { s with db := deleteReferences s.db removed }

variable {s s' : Tracking} {o : Operation}

theorem step_cases (hkeyed : Keyed s.db) (h : step s o = some s') :
    Effect s o s' := by
  cases o with
  | registerSource r =>
      obtain ⟨db', hregister, hdb'⟩ := hkeyed.registerSource r
      rw [step, hregister] at h
      cases h
      exact Effect.register hdb'
  | invalidateSource filePath =>
      cases h
      refine Effect.invalidate ?_
      intro r
      rw [hkeyed.mem_referencesForFile]
      exact and_congr_right fun _ => and_comm
  | registerSymbolDependencies source targets =>
      cases h
      exact Effect.depend
  | cascadeInvalidate changed maxDepth =>
      obtain ⟨removed, report, hcascade, _, _, hremoved⟩ :=
        hkeyed.cascadeInvalidate changed maxDepth
      rw [step, hcascade] at h
      cases h
      exact Effect.cascade hremoved

theorem dependencyEdits_target {source target : SymbolId}
    {e : Edit String FreshnessRecord}
    (he : e ∈ dependencyEdits source target) :
    exists x, e.target = "symbol_dep:" ++ x ∨ e.target = "symbol_rdep:" ++ x := by
  unfold dependencyEdits at he
  dsimp only at he
  rcases List.mem_append.mp he with hboth | hname
  · simp only [List.mem_cons, List.not_mem_nil, or_false] at hboth
    rcases hboth with rfl | rfl
    · exact ⟨_, Or.inl (forwardKey_kind _ _)⟩
    · exact ⟨_, Or.inr (reverseKey_kind _ _)⟩
  · split at hname
    · cases hname
    · rw [List.mem_singleton.mp hname]
      exact ⟨_, Or.inr (reverseKey_kind _ _)⟩

theorem depend_other (db : FreshnessDb) (source : SymbolId)
    (targets : List SymbolId)
    (hk : forall x, "symbol_dep:" ++ x ≠ k ∧ "symbol_rdep:" ++ x ≠ k) :
    (registerSymbolDependencies db source targets).1[k]? = db[k]? := by
  apply Database.get_write_other
  intro e he
  obtain ⟨target, _, he⟩ := List.mem_flatMap.mp he
  obtain ⟨x, hx | hx⟩ := dependencyEdits_target he
  · rw [hx]
    exact (hk x).1
  · rw [hx]
    exact (hk x).2

theorem depend_sourceRef (db : FreshnessDb) (source : SymbolId)
    (targets : List SymbolId) (entryId : String) :
    (registerSymbolDependencies db source targets).1[sourceRefKey entryId]? =
      db[sourceRefKey entryId]? := by
  have hdep : Apart "symbol_dep:" "source_ref:" := by
    decide
  have hrdep : Apart "symbol_rdep:" "source_ref:" := by
    decide
  exact depend_other db source targets
    (fun x => ⟨hdep.ne _ _, hrdep.ne _ _⟩)

theorem depend_index (db : FreshnessDb) (source : SymbolId)
    (targets : List SymbolId) (filePath entryId : String) :
    (registerSymbolDependencies db source targets).1[fileIndexKey filePath
        entryId]? = db[fileIndexKey filePath entryId]? := by
  have hdep : Apart "symbol_dep:" "source_by_file:" := by
    decide
  have hrdep : Apart "symbol_rdep:" "source_by_file:" := by
    decide
  refine depend_other db source targets ?_
  intro x
  rw [fileIndexKey_kind]
  exact ⟨hdep.ne _ _, hrdep.ne _ _⟩

theorem not_sourceRef (hk : hasPrefix "source_ref:" k = true) {kind : String}
    (hkind : Apart "source_ref:" kind) (x : String) :
    kind ++ x ≠ k := by
  rintro rfl
  rw [hkind.not_hasPrefix] at hk
  cases hk

theorem step_keyed (hkeyed : Keyed s.db) (h : step s o = some s') :
    Keyed s'.db := by
  have hremove : forall removed, Keyed (deleteReferences s.db removed) := by
    intro removed k v hk hv
    refine hkeyed k v hk ?_
    rw [deleteReferences, Database.get_write_deletes] at hv
    split at hv
    · cases hv
    · exact hv
  cases step_cases hkeyed h with
  | @register r db' hdb' =>
      intro k v hk hv
      by_cases hrow : k = sourceRefKey r.entryId
      · subst hrow
        have hsame : db'[sourceRefKey r.entryId]? =
            some (FreshnessRecord.reference r) := hdb'.row
        rw [show _ = _ from hv] at hsame
        cases hsame
        exact ⟨r, rfl, rfl⟩
      · have hindex : forall f x, k ≠ fileIndexKey f x := by
          intro f x
          rw [fileIndexKey_kind]
          exact (not_sourceRef hk (by decide) _).symm
        refine hkeyed k v hk ?_
        rw [← hdb'.other k hrow (hindex _ _) (fun _ _ _ _ => hindex _ _)]
        exact hv
  | invalidate | cascade => exact hremove _
  | @depend source targets =>
      intro k v hk hv
      refine hkeyed k v hk ?_
      rw [← depend_other s.db source targets (k := k)]
      · exact hv
      · intro x
        exact ⟨not_sourceRef hk (by decide) x, not_sourceRef hk (by decide) x⟩

variable {start : FreshnessDb}

theorem reachable_keyed (hstart : Untracked start)
    {allowed : Tracking -> Operation -> Prop}
    (h : (tracking start).Reachable allowed s) :
    Keyed s.db := by
  refine h.invariant (P := fun s => Keyed s.db) ?_
    (fun _ _ _ hold _ hstep => step_keyed hold hstep)
  intro k v hk hv
  have hnone := hstart k (Or.inl hk)
  have hsome : start[k]? = some v := hv
  rw [hnone] at hsome
  cases hsome

/-!
# The index over a run
-/

def Removes (s : Tracking) : Operation -> SourceReference -> Prop
  | Operation.registerSource reference, r =>
      r.entryId = reference.entryId ∧ r.filePath ≠ reference.filePath
  | Operation.invalidateSource filePath, r => r.filePath = filePath
  | Operation.registerSymbolDependencies _ _, _ => False
  | Operation.cascadeInvalidate changed maxDepth, r =>
      Doomed s.db changed maxDepth r

/-- No reference taken out shares its index key with one that stays. -/
def Separate (s : Tracking) (o : Operation) : Prop :=
  forall x y, Stored s.db x -> Stored s.db y -> Removes s o x ->
    ¬ Removes s o y ->
    fileIndexKey x.filePath x.entryId ≠ fileIndexKey y.filePath y.entryId

def Complete (db : FreshnessDb) : Prop :=
  forall r, Stored db r -> Indexed db r

theorem Complete.deleteReferences (h : Complete db)
    (hremoved : forall r, r ∈ removed -> Stored db r)
    (hkeys : forall x y, x ∈ removed -> Stored db y -> y ∉ removed ->
      fileIndexKey x.filePath x.entryId ≠ fileIndexKey y.filePath y.entryId) :
    Complete (deleteReferences db removed) := by
  intro r hr
  obtain ⟨hstored, hkept⟩ := (stored_deleteReferences hremoved r).mp hr
  rw [Indexed, deleteReferences_other]
  · exact h r hstored
  · intro x hx
    exact ⟨(sourceRefKey_ne_indexKey _ _ _).symm,
      (hkeys x r hx hstored hkept).symm⟩

theorem step_complete (hkeyed : Keyed s.db) (hcomplete : Complete s.db)
    (hseparate : Separate s o) (h : step s o = some s') :
    Complete s'.db := by
  cases step_cases hkeyed h with
  | @register r db' hdb' =>
      intro x hx
      rcases (hdb'.stored_iff x).mp hx with rfl | ⟨hold, hentry⟩
      · exact hdb'.index
      · by_cases hsame : fileIndexKey x.filePath x.entryId =
            fileIndexKey r.filePath r.entryId
        · have hindex := hdb'.index
          rw [Indexed] at hindex ⊢
          rw [hsame]
          exact hindex
        · rw [Indexed, hdb'.other]
          · exact hcomplete x hold
          · exact (sourceRefKey_ne_indexKey _ _ _).symm
          · exact hsame
          · intro old hstored hold' hpath
            exact (hseparate old x hstored hold ⟨hold', hpath⟩
              (fun hremoves => hentry hremoves.1)).symm
  | invalidate hremoved =>
      refine hcomplete.deleteReferences (fun r hr => ((hremoved r).mp hr).1) ?_
      intro x y hx hy hkept
      obtain ⟨hstored, _, hfile⟩ := (hremoved x).mp hx
      refine hseparate x y hstored hy hfile ?_
      intro hfile'
      exact hkept ((hremoved y).mpr ⟨hy, hcomplete y hy, hfile'⟩)
  | @depend source targets =>
      intro x hx
      rw [Stored, depend_sourceRef] at hx
      rw [Indexed, depend_index]
      exact hcomplete x hx
  | cascade hremoved =>
      refine hcomplete.deleteReferences (fun r hr => ((hremoved r).mp hr).1) ?_
      intro x y hx hy hkept
      obtain ⟨hstored, _, hdoomed⟩ := (hremoved x).mp hx
      refine hseparate x y hstored hy hdoomed ?_
      intro hdoomed'
      exact hkept ((hremoved y).mpr ⟨hy, hcomplete y hy, hdoomed'⟩)

theorem Stored.eq {x y : SourceReference} (hx : Stored db x) (hy : Stored db y)
    (h : x.entryId = y.entryId) :
    x = y := by
  rw [Stored, h, show _ = _ from hy] at hx
  cases hx
  rfl

theorem step_loses (hkeyed : Keyed s.db) (hcomplete : Complete s.db)
    (hinseparate : ¬ Separate s o) (h : step s o = some s') :
    exists r, Stored s'.db r ∧ ¬ Indexed s'.db r := by
  unfold Separate at hinseparate
  push Not at hinseparate
  obtain ⟨x, y, hx, hy, hremoves, hkept, hkey⟩ := hinseparate
  have hlost : forall removed, (forall r, r ∈ removed -> Stored s.db r) ->
      x ∈ removed -> y ∉ removed ->
      Stored (deleteReferences s.db removed) y ∧
        ¬ Indexed (deleteReferences s.db removed) y := by
    intro removed hremoved hin hout
    refine ⟨(stored_deleteReferences hremoved y).mpr ⟨hy, hout⟩, ?_⟩
    rw [Indexed, ← hkey, deleteReferences_gone s.db hin]
    · nofun
    · exact List.mem_cons_of_mem _ List.mem_cons_self
  cases step_cases hkeyed h with
  | @register r db' hdb' =>
      obtain ⟨hentry, hpath⟩ := hremoves
      have hother : y.entryId ≠ r.entryId := by
        intro hsame
        have heq := hx.eq hy (hentry.trans hsame.symm)
        rw [← heq] at hkept
        exact hkept ⟨hentry, hpath⟩
      refine ⟨y, (hdb'.stored_iff y).mpr (Or.inr ⟨hy, hother⟩), ?_⟩
      rw [Indexed, hdb'.moved x hx hentry hpath _ hkey.symm]
      · nofun
      · rw [← hkey, hentry]
        exact fun heq => hpath (fileIndexKey_file heq)
  | @invalidate filePath removed hremoved
  | @cascade changed maxDepth removed hremoved =>
      refine ⟨y, hlost removed (fun r hr => ((hremoved r).mp hr).1) ?_ ?_⟩
      · exact (hremoved x).mpr ⟨hx, hcomplete x hx, hremoves⟩
      · exact fun hin => hkept ((hremoved y).mp hin).2.2
  | depend => cases hremoves

theorem reachable_complete (hstart : Untracked start)
    (h : (tracking start).Reachable Separate s) :
    Complete s.db := by
  refine h.invariant_of (Q := fun s => Keyed s.db)
    (P := fun s => Complete s.db) (fun _ => reachable_keyed hstart) ?_ ?_
  · intro r hr
    have hnone := hstart _ (Or.inl (hasPrefix_append "source_ref:" r.entryId))
    have hsome : start[sourceRefKey r.entryId]? =
        some (FreshnessRecord.reference r) := hr
    rw [show start[sourceRefKey r.entryId]? = none from hnone] at hsome
    cases hsome
  · intro s o s' hs hold hallowed hstep
    exact step_complete hs hold hallowed hstep

theorem Keyed.exact_iff (h : Keyed db) :
    (forall filePath r, r ∈ referencesForFile db filePath ↔
      Stored db r ∧ r.filePath = filePath) ↔ Complete db := by
  constructor
  · intro hexact r hr
    exact (h.mem_referencesForFile.mp ((hexact r.filePath r).mpr ⟨hr, rfl⟩)).2.2
  · intro hcomplete filePath r
    rw [h.mem_referencesForFile]
    exact ⟨fun hr => ⟨hr.1, hr.2.1⟩, fun hr => ⟨hr.1, hr.2, hcomplete r hr.1⟩⟩

/-- While the references taken out and those that stay have different index
keys, the index of a file lists exactly the references of the file. -/
theorem separate_file_index {start : FreshnessDb} (hstart : Untracked start)
    {s : Tracking} (h : (tracking start).Reachable Separate s)
    (filePath : String) :
    (referencesForFile s.db filePath).Nodup ∧
      forall r, r ∈ referencesForFile s.db filePath ↔
        Stored s.db r ∧ r.filePath = filePath := by
  have hkeyed := reachable_keyed hstart h
  exact ⟨hkeyed.nodup_referencesForFile filePath,
    hkeyed.exact_iff.mpr (reachable_complete hstart h) filePath⟩

/-- After steps that are separate, one more leaves the index of every file exact only if
it is separate too. -/
theorem exact_after_iff {start : FreshnessDb} (hstart : Untracked start)
    {s s' : Tracking} {o : Operation} (h : (tracking start).Reachable Separate s)
    (hstep : step s o = some s') :
    (forall filePath r, r ∈ referencesForFile s'.db filePath ↔
      Stored s'.db r ∧ r.filePath = filePath) ↔ Separate s o := by
  have hkeyed := reachable_keyed hstart h
  have hcomplete := reachable_complete hstart h
  rw [(step_keyed hkeyed hstep).exact_iff]
  constructor
  · intro hexact
    by_contra hinseparate
    obtain ⟨r, hr, hlost⟩ := step_loses hkeyed hcomplete hinseparate hstep
    exact hlost (hexact r hr)
  · exact fun hseparate => step_complete hkeyed hcomplete hseparate hstep

/-!
# Paths with and without a bar
-/

theorem separate_of_plain
    (hplain : forall r, Stored s.db r -> '|' ∉ r.filePath.toList) (o : Operation) :
    Separate s o := by
  intro x y hx hy hremoves hkept hkey
  rw [fileIndexKey_kind, fileIndexKey_kind] at hkey
  have hlist := congrArg String.toList ((String.append_right_inj _).mp hkey)
  simp only [String.toList_append] at hlist
  obtain ⟨_, hentry⟩ := split_at_mark (hplain x hx) (hplain y hy) hlist
  rw [hx.eq hy (String.toList_inj.mp hentry)] at hremoves
  exact hkept hremoves

def fileReference (entryId filePath : String) : SourceReference where
  filePath := filePath
  contentHash := []
  capturedAtUnix := 0
  entryId := entryId
  scope := none

theorem untracked_empty : Untracked ∅ := by
  intro k _
  exact Std.ExtTreeMap.getElem?_empty

def plainRow : String × FreshnessRecord -> Bool
  | (_, FreshnessRecord.reference r) => !r.filePath.toList.contains '|'
  | _ => true

def isPlain (db : FreshnessDb) : Bool :=
  db.toList.all plainRow

theorem plain_of_isPlain (h : isPlain db = true) (hr : Stored db r) :
    '|' ∉ r.filePath.toList := by
  have hrow : (sourceRefKey r.entryId, FreshnessRecord.reference r) ∈
      db.toList :=
    Std.ExtTreeMap.mem_toList_iff_getElem?_eq_some.mpr hr
  have hplain := List.all_eq_true.mp h _ hrow
  simpa [plainRow] using hplain

theorem separate_of_isPlain (o : Operation) (h : isPlain s.db = true) :
    Separate s o :=
  separate_of_plain (fun _ => plain_of_isPlain h) o

/-- A file is invalidated, and the entries of another stay. -/
theorem exact_after_iff_invalidated :
    exists s s' : Tracking,
      (referencesForFile s.db "a.rs").map SourceReference.entryId =
        ["e1", "e4"] ∧
      step s (Operation.invalidateSource "a.rs") = some s' ∧
      s'.db[sourceRefKey "e1"]? = none ∧
      (referencesForFile s'.db "b.rs").map SourceReference.entryId = ["e2"] ∧
      forall filePath r, r ∈ referencesForFile s'.db filePath ↔
        Stored s'.db r ∧ r.filePath = filePath := by
  obtain ⟨s, -, hreach, hplain, hlisted, hend⟩ :=
    (tracking ∅).replay_reaches (fun s _ => isPlain s.db = true)
      [Operation.registerSource (fileReference "e1" "a.rs"),
        Operation.registerSource (fileReference "e2" "b.rs"),
        Operation.registerSource (fileReference "e4" "a.rs")]
      (fun s => isPlain s.db = true ∧
        (referencesForFile s.db "a.rs").map SourceReference.entryId =
          ["e1", "e4"] ∧
        (step s (Operation.invalidateSource "a.rs")).map (fun s' =>
          (s'.db[sourceRefKey "e1"]?,
            (referencesForFile s'.db "b.rs").map SourceReference.entryId)) =
          some (none, ["e2"])) (by decide +kernel)
  obtain ⟨s', hstep, hpair⟩ := Option.map_eq_some_iff.mp hend
  obtain ⟨hgone, hkept⟩ := Prod.mk.inj hpair
  exact ⟨s, s', hlisted, hstep, hgone, hkept, (exact_after_iff untracked_empty
    (hreach.mono (fun _ => separate_of_isPlain)) hstep).mpr
    (separate_of_isPlain _ hplain)⟩

/-- An entry moves to another file, and the index follows it. -/
theorem separate_file_index_moved :
    exists s : Tracking,
      (tracking ∅).Reachable Separate s ∧
      (referencesForFile s.db "a.rs").map SourceReference.entryId =
        ["e1", "e4"] ∧
      forall r, r ∈ referencesForFile s.db "a.rs" ↔
        Stored s.db r ∧ r.filePath = "a.rs" := by
  obtain ⟨s, -, hplain, hlisted⟩ :=
    (tracking ∅).replay_reaches (fun s _ => isPlain s.db = true)
      [Operation.registerSource (fileReference "e1" "a.rs"),
        Operation.registerSource (fileReference "e4" "b.rs"),
        Operation.registerSource (fileReference "e4" "a.rs")]
      (fun s => (referencesForFile s.db "a.rs").map SourceReference.entryId =
        ["e1", "e4"]) (by decide +kernel)
  have hreach := hplain.mono (fun _ => separate_of_isPlain)
  exact ⟨s, hreach, hlisted,
    (separate_file_index untracked_empty hreach "a.rs").2⟩

/-- The entries `c` of `a|b` and `b|c` of `a` share an index key: invalidating
`a` takes `c` out of the index of `a|b`. -/
theorem shared_index_key_lost :
    ¬ forall s : Tracking, (tracking ∅).Reachable System.Anything s ->
      forall filePath r, r ∈ referencesForFile s.db filePath ↔
        Stored s.db r ∧ r.filePath = filePath := by
  intro hexact
  obtain ⟨s, -, hreach, hstored, hlisted⟩ := (tracking ∅).replay_reaches System.Anything
    [Operation.registerSource (fileReference "c" "a|b"),
      Operation.registerSource (fileReference "b|c" "a"), Operation.invalidateSource "a"]
    (fun s => s.db[sourceRefKey "c"]? =
        some (FreshnessRecord.reference (fileReference "c" "a|b")) ∧
      referencesForFile s.db "a|b" = []) (by decide +kernel)
  have hmem := (hexact s hreach "a|b" (fileReference "c" "a|b")).mpr ⟨hstored, rfl⟩
  rw [hlisted] at hmem
  cases hmem

end Freshness
end Storage
end PostCortex
