import PostCortex.Search.KeyedSearch
import PostCortex.Storage.Dependents

/-!
# Source freshness in tables

`surrealdb_storage/freshness.rs`: a table of source references, unique by entry
id, whose rows are marked stale instead of deleted, and a table of dependencies
by the text of their symbols.  Beside it the checks of
`rocksdb_storage/freshness.rs`.  Rows come in the order of their keys, which
stands for the order in which a query gives them.
-/

namespace PostCortex
namespace Storage
namespace Freshness

open KeyValue
open Search

inductive FreshnessStatus where
  | fresh
  | stale
  | sourceMissing
  | unknown
  deriving DecidableEq, Repr

structure FreshnessEntry where
  entryId : String
  filePath : String
  status : FreshnessStatus
  storedHash : List UInt8
  currentHash : List UInt8
  deriving DecidableEq, Repr

def statusOf (isFresh : Bool) : FreshnessStatus :=
  if isFresh = true then FreshnessStatus.fresh else FreshnessStatus.stale

def unknownEntry (entryId : String) (fileHash : List UInt8) : FreshnessEntry where
  entryId := entryId
  filePath := ""
  status := FreshnessStatus.unknown
  storedHash := []
  currentHash := fileHash

def unlessEmpty {item : Type} (xs : List item) : Option (List item) :=
  if xs.isEmpty = true then none else some xs

/-!
# RocksDB
-/

def storedAst (reference : SourceReference) : Option (List UInt8) :=
  match reference.scope with
  | some ⟨some (Scope.function func)⟩ => unlessEmpty func.astHash
  | _ => none

def hashesAgree (storedHash fileHash : List UInt8) :
    Option (List UInt8) -> Option (List UInt8) -> Bool
  | some stored, some client => stored = client
  | _, _ => storedHash = fileHash

def freshnessOf (entryId : String) (reference : Option SourceReference)
    (fileHash : List UInt8) (astHash : Option (List UInt8)) : FreshnessEntry :=
  match reference with
  | none => unknownEntry entryId fileHash
  | some reference =>
      { entryId := entryId
        filePath := reference.filePath
        status := statusOf (hashesAgree reference.contentHash fileHash
          (storedAst reference) astHash)
        storedHash := reference.contentHash
        currentHash := fileHash }

def checkFreshnessSemantic (db : FreshnessDb) (entryId : String)
    (fileHash : List UInt8) (astHash : Option (List UInt8)) :
    Except String FreshnessEntry :=
  (loadReference db entryId).map (fun reference =>
    freshnessOf entryId reference fileHash astHash)

def checkFreshness (db : FreshnessDb) (entryId : String) (fileHash : List UInt8) :
    Except String FreshnessEntry :=
  checkFreshnessSemantic db entryId fileHash none

/-!
# SurrealDB
-/

/-- `status` is 1 for a row that was marked stale, and 0 otherwise. -/
structure SourceReferenceRecord where
  entryId : String
  filePath : String
  contentHash : List UInt8
  capturedAtUnix : Int
  symbolName : Option String
  symbolType : Option String
  astHash : Option (List UInt8)
  imports : Option (List String)
  status : Int
  deriving DecidableEq, Repr

structure SymbolDepRecord where
  fromFile : String
  fromSymbol : String
  toFile : String
  toSymbol : String
  toSymbolType : String
  deriving DecidableEq, Repr

/-- The references by their entry ids, the dependencies by their record ids. -/
structure FreshnessTables where
  references : Database String SourceReferenceRecord
  dependencies : Database String SymbolDepRecord
  deriving DecidableEq

def functionOf (reference : SourceReference) : Option FunctionScope :=
  match reference.scope with
  | some ⟨some (Scope.function func)⟩ => some func
  | _ => none

def recordOf (reference : SourceReference) : SourceReferenceRecord where
  entryId := reference.entryId
  filePath := reference.filePath
  contentHash := reference.contentHash
  capturedAtUnix := reference.capturedAtUnix
  symbolName := (functionOf reference).map FunctionScope.name
  symbolType := (functionOf reference).bind (fun func =>
    if func.symbolType = "" then none else some func.symbolType)
  astHash := (functionOf reference).bind (fun func => unlessEmpty func.astHash)
  imports := (functionOf reference).bind (fun func => unlessEmpty func.imports)
  status := 0

/-- `source_record_to_reference`. -/
def SourceReferenceRecord.reference (r : SourceReferenceRecord) :
    SourceReference where
  entryId := r.entryId
  filePath := r.filePath
  contentHash := r.contentHash
  capturedAtUnix := r.capturedAtUnix
  scope := r.symbolName.map (fun name =>
    ⟨some (Scope.function {
      name := name
      astHash := r.astHash.getD []
      symbolType := r.symbolType.getD ""
      imports := r.imports.getD [] })⟩)

namespace FreshnessTables

def empty : FreshnessTables :=
  ⟨∅, ∅⟩

def sourceRows (t : FreshnessTables) : List SourceReferenceRecord :=
  t.references.toList.map Prod.snd

def dependencyRows (t : FreshnessTables) : List SymbolDepRecord :=
  t.dependencies.toList.map Prod.snd

/-- `UPSERT source_reference … WHERE entry_id = $entry_id`. -/
def registerSource (t : FreshnessTables) (reference : SourceReference) :
    FreshnessTables :=
  { t with
    references := t.references.insert reference.entryId (recordOf reference) }

def entryOf (r : SourceReferenceRecord) (currentHash : List UInt8)
    (isFresh : Bool) : FreshnessEntry where
  entryId := r.entryId
  filePath := r.filePath
  status := if r.status = 1 then FreshnessStatus.stale else statusOf isFresh
  storedHash := r.contentHash
  currentHash := currentHash

def checkFreshness (t : FreshnessTables) (entryId : String)
    (fileHash : List UInt8) : FreshnessEntry :=
  match t.references[entryId]? with
  | some r => entryOf r fileHash (r.contentHash = fileHash)
  | none => unknownEntry entryId fileHash

def checkFreshnessSemantic (t : FreshnessTables) (entryId : String)
    (fileHash : List UInt8) (astHash : Option (List UInt8)) : FreshnessEntry :=
  match t.references[entryId]? with
  | some r =>
      entryOf r fileHash (hashesAgree r.contentHash fileHash r.astHash astHash)
  | none => unknownEntry entryId fileHash

/-- `UPDATE source_reference SET status = 1 WHERE …`, and the rows updated. -/
def markStale (t : FreshnessTables) (p : SourceReferenceRecord -> Bool) :
    FreshnessTables × Nat :=
  ({ t with
      references := t.references.map
        (fun _ r => if p r = true then { r with status := 1 } else r) },
    t.sourceRows.countP p)

def invalidateSource (t : FreshnessTables) (filePath : String) :
    FreshnessTables × Nat :=
  t.markStale (fun r => r.filePath = filePath)

def getEntriesBySource (t : FreshnessTables) (filePath : String) :
    List SourceReference :=
  (t.sourceRows.filter (fun r => r.filePath = filePath)).map
    SourceReferenceRecord.reference

def currentEntries (t : FreshnessTables) (filePath : String) :
    List SourceReference :=
  (t.sourceRows.filter
    (fun r => r.filePath = filePath ∧ r.status ≠ 1)).map
      SourceReferenceRecord.reference

def dependencyKey (source target : SymbolId) : String :=
  source.symbol.key ++ "->" ++ target.symbol.key

def dependencyRecord (source target : SymbolId) : SymbolDepRecord where
  fromFile := source.filePath
  fromSymbol := source.symbolName
  toFile := target.filePath
  toSymbol := target.symbolName
  toSymbolType := target.symbolType

def registerSymbolDependencies (t : FreshnessTables) (source : SymbolId)
    (targets : List SymbolId) : FreshnessTables × Nat :=
  ({ t with
      dependencies := targets.foldl (fun rows target =>
        rows.insert (dependencyKey source target)
          (dependencyRecord source target)) t.dependencies },
    targets.length)

def dependentsOf (t : FreshnessTables) (s : Symbol) : List Symbol :=
  (t.dependencyRows.filter (fun d =>
    d.toFile = s.filePath ∧ d.toSymbol = s.symbolName ∨
      d.toFile = "" ∧ d.toSymbol = s.symbolName)).map
        (fun d => ⟨d.fromFile, d.fromSymbol⟩)

def isOf (filePath symbolName : String) (r : SourceReferenceRecord) : Bool :=
  r.filePath = filePath ∧ r.symbolName = some symbolName

def splitOnce (key : String) : Option (String × String) :=
  (splitOnceFrom [] key.toList).map (fun parts =>
    (String.ofList parts.1, String.ofList parts.2))

def markDependent (s : FreshnessTables × Nat) (key : String) :
    FreshnessTables × Nat :=
  match splitOnce key with
  | some (file, sym) =>
      let marked := s.1.markStale (isOf file sym)
      (marked.1, s.2 + marked.2)
  | none => s

def cascadeInvalidate (t : FreshnessTables) (changed : SymbolId)
    (maxDepth : Nat) : Option (FreshnessTables × CascadeInvalidateReport) :=
  match searchKeyed Symbol.key t.dependentsOf maxDepth
      (t.dependencies.size + 1) (startKeyed Symbol.key changed.symbol) with
  | none => none
  | some found =>
      let dependents := found.map Symbol.key
      let direct := t.markStale (isOf changed.filePath changed.symbolName)
      let marked := dependents.foldl markDependent (direct.1, 0)
      some (marked.1,
        { directInvalidations := direct.2
          cascadeInvalidations := marked.2
          invalidatedSymbols := dependents })

/-!
# References and their rows
-/

theorem reference_recordOf_function {r : SourceReference} {func : FunctionScope}
    (h : r.scope = some ⟨some (Scope.function func)⟩) :
    (recordOf r).reference = r := by
  have hfunction : functionOf r = some func := by
    rw [functionOf, h]
  have hempty : forall {item : Type} (xs : List item),
      (unlessEmpty xs).getD [] = xs := by
    intro item xs
    rw [unlessEmpty]
    cases xs <;> rfl
  have htype : (if func.symbolType = "" then none else some func.symbolType).getD
      "" = func.symbolType := by
    split
    · next h => exact h.symm
    · rfl
  rw [SourceReferenceRecord.reference, recordOf, hfunction]
  simp only [Option.map_some, Option.bind_some, hempty, htype]
  rw [← h]

theorem reference_recordOf (r : SourceReference) :
    (recordOf r).reference =
      { r with scope := (functionOf r).map (fun func =>
          ⟨some (Scope.function func)⟩) } := by
  cases hfunction : functionOf r with
  | none =>
      rw [SourceReferenceRecord.reference, recordOf, hfunction]
      rfl
  | some func =>
      have hscope : r.scope = some ⟨some (Scope.function func)⟩ := by
        unfold functionOf at hfunction
        split at hfunction
        · next func' hscope =>
          cases hfunction
          exact hscope
        · cases hfunction
      rw [reference_recordOf_function hscope, Option.map_some, ← hscope]

theorem astHash_recordOf (r : SourceReference) :
    (recordOf r).astHash = storedAst r := by
  rw [recordOf, storedAst]
  unfold functionOf
  split <;> rfl

theorem symbolName_recordOf (r : SourceReference) :
    (recordOf r).symbolName = functionName r := by
  rcases r with ⟨_, _, _, _, _ | ⟨_ | (_ | _ | _)⟩⟩ <;> rfl

theorem mem_sourceRows {t : FreshnessTables} {r : SourceReferenceRecord} :
    r ∈ t.sourceRows ↔ exists id : String, t.references[id]? = some r :=
  Database.mem_values

theorem mem_dependencyRows {t : FreshnessTables} {d : SymbolDepRecord} :
    d ∈ t.dependencyRows ↔ exists k : String, t.dependencies[k]? = some d :=
  Database.mem_values

/-!
# Marking rows
-/

def mark (p : SourceReferenceRecord -> Bool) (r : SourceReferenceRecord) :
    SourceReferenceRecord :=
  if p r = true then { r with status := 1 } else r

theorem get_markStale (t : FreshnessTables) (p : SourceReferenceRecord -> Bool)
    (id : String) :
    (t.markStale p).1.references[id]? = t.references[id]?.map (mark p) := by
  rw [markStale, Std.ExtTreeMap.getElem?_map]
  rfl

def isOfAny (keys : List String) (r : SourceReferenceRecord) : Bool :=
  keys.any (fun key =>
    (splitOnce key).any (fun symbol => isOf symbol.1 symbol.2 r))

theorem isOf_mark (file sym : String) (p : SourceReferenceRecord -> Bool)
    (r : SourceReferenceRecord) :
    isOf file sym (mark p r) = isOf file sym r := by
  rw [mark]
  split <;> rfl

theorem isOfAny_mark (keys : List String) (p : SourceReferenceRecord -> Bool)
    (r : SourceReferenceRecord) :
    isOfAny keys (mark p r) = isOfAny keys r := by
  simp only [isOfAny, isOf_mark]

theorem mark_mark {p q : SourceReferenceRecord -> Bool}
    (hq : forall r, q (mark p r) = q r) (r : SourceReferenceRecord) :
    mark q (mark p r) = mark (fun r => p r || q r) r := by
  have hmarked := hq r
  unfold mark at hmarked ⊢
  cases hp : p r <;> cases hqr : q r <;> simp_all

theorem get_markDependent (s : FreshnessTables × Nat) (key id : String) :
    (markDependent s key).1.references[id]? =
        s.1.references[id]?.map (mark (isOfAny [key])) ∧
      (markDependent s key).1.dependencies = s.1.dependencies := by
  have hany : forall r, isOfAny [key] r =
      (splitOnce key).any (fun symbol => isOf symbol.1 symbol.2 r) := by
    intro r
    rw [isOfAny, List.any_cons, List.any_nil, Bool.or_false]
  rw [markDependent]
  split
  · next file sym hsplit =>
    have hmark : mark (isOfAny [key]) = mark (isOf file sym) := by
      congr
      funext r
      rw [hany, hsplit]
      rfl
    rw [hmark]
    exact ⟨get_markStale _ _ _, rfl⟩
  · next hsplit =>
    have hmark : mark (isOfAny [key]) = fun r => r := by
      funext r
      rw [mark, hany, hsplit]
      rfl
    rw [hmark, Option.map_id']
    exact ⟨rfl, rfl⟩

theorem get_foldl_markDependent (keys : List String) (s : FreshnessTables × Nat)
    (id : String) :
    (keys.foldl markDependent s).1.references[id]? =
        s.1.references[id]?.map (mark (isOfAny keys)) ∧
      (keys.foldl markDependent s).1.dependencies = s.1.dependencies := by
  induction keys generalizing s with
  | nil =>
      have hmark : mark (isOfAny []) = fun r => r :=
        rfl
      rw [hmark, Option.map_id']
      exact ⟨rfl, rfl⟩
  | cons key rest ih =>
      obtain ⟨hrows, hdeps⟩ := ih (markDependent s key)
      obtain ⟨hone, honeDeps⟩ := get_markDependent s key id
      refine ⟨?_, hdeps.trans honeDeps⟩
      rw [List.foldl_cons, hrows, hone, Option.map_map]
      congr
      funext r
      rw [Function.comp_apply, mark_mark (isOfAny_mark rest _)]
      congr
      funext r
      simp only [isOfAny, List.any_cons, List.any_nil, Bool.or_false]

end FreshnessTables
end Freshness
end Storage
end PostCortex
