import PostCortex.KeyValue.Database
import PostCortex.Search.BreadthFirst
import PostCortex.Storage.Keys

/-!
# Source freshness

`rocksdb_storage/freshness.rs`: one row for each source reference, the index of
the references by file, and the dependencies between symbols with their reverse
edges.  A value of the database is the record its bytes decode to.
-/

namespace PostCortex
namespace Storage
namespace Freshness

open KeyValue
open Search

structure FunctionScope where
  name : String
  astHash : List UInt8
  symbolType : String
  imports : List String
  deriving DecidableEq, Repr

structure BlockScope where
  startLine : Nat
  endLine : Nat
  contentHash : List UInt8
  deriving DecidableEq, Repr

inductive Scope where
  | wholeFile (whole : Bool)
  | function (func : FunctionScope)
  | block (block : BlockScope)
  deriving DecidableEq, Repr

structure SourceScope where
  scope : Option Scope
  deriving DecidableEq, Repr

structure SourceReference where
  filePath : String
  contentHash : List UInt8
  capturedAtUnix : Int
  entryId : String
  scope : Option SourceScope
  deriving DecidableEq, Repr

structure SymbolId where
  filePath : String
  symbolName : String
  symbolType : String
  deriving DecidableEq, Repr

structure CascadeInvalidateReport where
  directInvalidations : Nat
  cascadeInvalidations : Nat
  invalidatedSymbols : List String
  deriving DecidableEq, Repr

/-- A value of the database; `other` is a record of another module. -/
inductive FreshnessRecord where
  | reference (r : SourceReference)
  | indexEntry
  | symbolType (t : String)
  | other (bytes : List UInt8)
  deriving DecidableEq, Repr

abbrev FreshnessDb : Type :=
  Database String FreshnessRecord

/-!
# Keys
-/

def sourceRefKey (entryId : String) : String :=
  "source_ref:" ++ entryId

def fileIndexPrefix (filePath : String) : String :=
  "source_by_file:" ++ filePath ++ "|"

def fileIndexKey (filePath entryId : String) : String :=
  "source_by_file:" ++ filePath ++ "|" ++ entryId

/-- `{file}::{name}`, the key of a symbol. -/
def symbolKey (filePath symbolName : String) : String :=
  filePath ++ "::" ++ symbolName

def forwardKey (fromKey toKey : String) : String :=
  "symbol_dep:" ++ fromKey ++ "|" ++ toKey

def reversePrefix (toKey : String) : String :=
  "symbol_rdep:" ++ toKey ++ "|"

def reverseKey (toKey fromKey : String) : String :=
  "symbol_rdep:" ++ toKey ++ "|" ++ fromKey

/-- `key[prefix.len()..]`. -/
def afterPrefix (p key : String) : String :=
  String.ofList (key.toList.drop p.toList.length)

/-- `split_once("::")`, with what stands before `cs` in reverse. -/
def splitOnceFrom : List Char -> List Char -> Option (List Char × List Char)
  | before, ':' :: ':' :: rest => some (before.reverse, rest)
  | before, c :: rest => splitOnceFrom (c :: before) rest
  | _, [] => none

/-- `split("::").last()`, with the segment so far in reverse. -/
def lastSegmentFrom : List Char -> List Char -> List Char
  | _, ':' :: ':' :: rest => lastSegmentFrom [] rest
  | segment, c :: rest => lastSegmentFrom (c :: segment) rest
  | segment, [] => segment.reverse

def fileOf (key : String) : Option String :=
  (splitOnceFrom [] key.toList).map (fun parts => String.ofList parts.1)

def lastSegment (key : String) : String :=
  String.ofList (lastSegmentFrom [] key.toList)

/-!
# References
-/

def functionName (reference : SourceReference) : Option String :=
  match reference.scope with
  | some ⟨some (Scope.function func)⟩ => some func.name
  | _ => none

def loadReference (db : FreshnessDb) (entryId : String) :
    Except String (Option SourceReference) :=
  match db[sourceRefKey entryId]? with
  | some (FreshnessRecord.reference r) => Except.ok (some r)
  | some _ => Except.error "Failed to deserialize source reference"
  | none => Except.ok none

def referenceOf (filePath : String) :
    Option FreshnessRecord -> Option SourceReference
  | some (FreshnessRecord.reference r) =>
      if r.filePath = filePath then some r else none
  | _ => none

def referencesForFile (db : FreshnessDb) (filePath : String) :
    List SourceReference :=
  let keys := (db.keysWhere (hasPrefix (fileIndexPrefix filePath))).map
    (fun k => sourceRefKey (afterPrefix (fileIndexPrefix filePath) k))
  keys.filterMap (fun k => referenceOf filePath db[k]?)

def keysOf (reference : SourceReference) : List String :=
  [sourceRefKey reference.entryId,
    fileIndexKey reference.filePath reference.entryId]

def deleteReferences (db : FreshnessDb) (references : List SourceReference) :
    FreshnessDb :=
  db.write (Database.deletes (references.flatMap keysOf))

def movedEntry (reference : SourceReference) :
    Option SourceReference -> List (Edit String FreshnessRecord)
  | some old =>
      if old.filePath ≠ reference.filePath then
        [Edit.delete (fileIndexKey old.filePath old.entryId)]
      else []
  | none => []

def registerSource (db : FreshnessDb) (reference : SourceReference) :
    Except String FreshnessDb :=
  match loadReference db reference.entryId with
  | Except.error e => Except.error e
  | Except.ok old =>
      Except.ok (db.write (movedEntry reference old ++
        [Edit.put (sourceRefKey reference.entryId)
            (FreshnessRecord.reference reference),
          Edit.put (fileIndexKey reference.filePath reference.entryId)
            FreshnessRecord.indexEntry]))

def invalidateSource (db : FreshnessDb) (filePath : String) :
    FreshnessDb × Nat :=
  let references := referencesForFile db filePath
  (deleteReferences db references, references.length)

/-!
# Dependencies
-/

def dependencyEdits (source target : SymbolId) :
    List (Edit String FreshnessRecord) :=
  let fromKey := symbolKey source.filePath source.symbolName
  let toKey :=
    if target.filePath = "" then "::" ++ target.symbolName
    else symbolKey target.filePath target.symbolName
  [Edit.put (forwardKey fromKey toKey)
      (FreshnessRecord.symbolType target.symbolType),
    Edit.put (reverseKey toKey fromKey)
      (FreshnessRecord.symbolType source.symbolType)] ++
    if target.filePath = "" then []
    else
      [Edit.put (reverseKey ("::" ++ target.symbolName) fromKey)
        (FreshnessRecord.symbolType source.symbolType)]

def registerSymbolDependencies (db : FreshnessDb) (source : SymbolId)
    (targets : List SymbolId) : FreshnessDb × Nat :=
  (db.write (targets.flatMap (dependencyEdits source)), targets.length)

def dependentsOf (db : FreshnessDb) (key : String) : List String :=
  [reversePrefix key, reversePrefix ("::" ++ lastSegment key)].flatMap
    (fun p => (db.keysWhere (hasPrefix p)).map (afterPrefix p))

def meetable (db : FreshnessDb) (key : String) : List String :=
  key :: db.keys.flatMap (fun k => k.toList.tails.map String.ofList)

inductive Invalidation where
  | direct
  | cascade
  deriving DecidableEq, Repr

def invalidationOf (changedKey : String) (dependents : List String)
    (reference : SourceReference) : Option Invalidation :=
  match functionName reference with
  | none => none
  | some name =>
      let refKey := symbolKey reference.filePath name
      if refKey = changedKey then some Invalidation.direct
      else if refKey ∈ dependents then some Invalidation.cascade
      else none

def cascadeInvalidate (db : FreshnessDb) (changed : SymbolId)
    (maxDepth : Nat) : Option (FreshnessDb × CascadeInvalidateReport) :=
  let changedKey := symbolKey changed.filePath changed.symbolName
  match search (dependentsOf db) maxDepth (meetable db changedKey).length
      (start changedKey) with
  | none => none
  | some dependents =>
      let files := (changed.filePath :: dependents.filterMap fileOf).eraseDups
      let references := files.flatMap (referencesForFile db)
      let hit := fun kind => references.filter
        (fun r => invalidationOf changedKey dependents r = some kind)
      some (deleteReferences db
          (references.filter (fun r =>
            (invalidationOf changedKey dependents r).isSome)),
        { directInvalidations := (hit Invalidation.direct).length
          cascadeInvalidations := (hit Invalidation.cascade).length
          invalidatedSymbols := dependents })

end Freshness
end Storage
end PostCortex
