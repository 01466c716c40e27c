import Mathlib.Algebra.Order.Ring.Unbundled.Rat

/-!
# Context updates

The records a session is made of, field by field as
`core/context_update.rs` declares them.  Identifiers are 128-bit values,
timestamps count nanoseconds, and the floating-point confidence and importance
scores are rationals: the modelled code only copies and compares them.
-/

namespace PostCortex
namespace Core

abbrev Uuid := BitVec 128

instance : LawfulBEq Uuid :=
  inferInstance

/-- In nanoseconds. -/
abbrev Timestamp := Int

/-- `num_seconds`. -/
def numSeconds (duration : Int) : Int :=
  duration.tdiv 1000000000

inductive UpdateType where
  | questionAnswered
  | problemSolved
  | codeChanged
  | decisionMade
  | conceptDefined
  | requirementAdded
  deriving DecidableEq, Repr

inductive EntityType where
  | technology
  | concept
  | problem
  | solution
  | decision
  | codeComponent
  deriving DecidableEq, Repr

inductive RelationType where
  | requiredBy
  | leadsTo
  | relatedTo
  | conflictsWith
  | dependsOn
  | implements
  | causedBy
  | solves
  deriving DecidableEq, Repr

structure TypedEntity where
  name : String
  entityType : EntityType
  deriving DecidableEq, Repr

structure UpdateMeta where
  validFrom : Option Timestamp
  supersedes : List Uuid
  confidence : Option Rat
  retiredAt : Option Timestamp
  deriving DecidableEq, Repr

def UpdateMeta.default : UpdateMeta where
  validFrom := none
  supersedes := []
  confidence := none
  retiredAt := none

structure UpdateContent where
  title : String
  description : String
  details : List String
  examples : List String
  implications : List String
  deriving DecidableEq, Repr

structure CodeReference where
  filePath : String
  startLine : Nat
  endLine : Nat
  codeSnippet : String
  commitHash : Option String
  branch : Option String
  changeDescription : String
  deriving DecidableEq, Repr

structure EntityRelationship where
  fromEntity : String
  toEntity : String
  relationType : RelationType
  context : String
  deriving DecidableEq, Repr

structure EntityData where
  name : String
  entityType : EntityType
  firstMentioned : Timestamp
  lastMentioned : Timestamp
  mentionCount : Nat
  importanceScore : Rat
  description : Option String
  aliases : List String
  deriving DecidableEq, Repr

structure ContextUpdate where
  id : Uuid
  timestamp : Timestamp
  updateType : UpdateType
  content : UpdateContent
  relatedCode : Option CodeReference
  parentUpdate : Option Uuid
  userMarkedImportant : Bool
  createsEntities : List String
  createsRelationships : List EntityRelationship
  referencesEntities : List String
  typedEntities : List TypedEntity
  author : Option String
  derivedFrom : List String
  metadata : UpdateMeta
  deriving DecidableEq, Repr

def ContextUpdate.plain (id : Uuid) (timestamp : Timestamp)
    (description : String) : ContextUpdate where
  id := id
  timestamp := timestamp
  updateType := UpdateType.conceptDefined
  content :=
    { title := "Incremental Update"
      description := description
      details := []
      examples := []
      implications := [] }
  relatedCode := none
  parentUpdate := none
  userMarkedImportant := false
  createsEntities := []
  createsRelationships := []
  referencesEntities := []
  typedEntities := []
  author := none
  derivedFrom := []
  metadata := UpdateMeta.default

end Core
end PostCortex
