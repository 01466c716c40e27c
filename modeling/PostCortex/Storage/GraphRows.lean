import Mathlib.Data.List.Basic
import PostCortex.KeyValue.Grouping
import PostCortex.KeyValue.HashBytes
import PostCortex.Storage.Keys

/-!
# Rows of the entity graph

`rocksdb_storage/graph.rs` with the rows of `rocksdb_storage/types.rs`.  The key
of a relationship joins the names of its ends with the character that the names
may contain, so the rows of a session stay apart exactly when the joined names
do.
-/

namespace PostCortex
namespace Storage
namespace GraphRows

open PostCortex.Core
open KeyValue

/-!
# Rows
-/

/-- The relation type as `{:?}` prints it. -/
def relationTypeName : RelationType -> String
  | RelationType.requiredBy => "RequiredBy"
  | RelationType.leadsTo => "LeadsTo"
  | RelationType.relatedTo => "RelatedTo"
  | RelationType.conflictsWith => "ConflictsWith"
  | RelationType.dependsOn => "DependsOn"
  | RelationType.implements => "Implements"
  | RelationType.causedBy => "CausedBy"
  | RelationType.solves => "Solves"

/-- `RelationType::from_str`. -/
def parseRelationType (s : String) : Except String RelationType :=
  if s = "RequiredBy" then Except.ok RelationType.requiredBy
  else if s = "LeadsTo" then Except.ok RelationType.leadsTo
  else if s = "RelatedTo" then Except.ok RelationType.relatedTo
  else if s = "ConflictsWith" then Except.ok RelationType.conflictsWith
  else if s = "DependsOn" then Except.ok RelationType.dependsOn
  else if s = "Implements" then Except.ok RelationType.implements
  else if s = "CausedBy" then Except.ok RelationType.causedBy
  else if s = "Solves" then Except.ok RelationType.solves
  else Except.error ("Unknown RelationType: " ++ s)

theorem parseRelationType_name (t : RelationType) :
    parseRelationType (relationTypeName t) = Except.ok t := by
  cases t <;> decide

/-- The entity type as `{:?}` prints it. -/
def entityTypeName : EntityType -> String
  | EntityType.technology => "Technology"
  | EntityType.concept => "Concept"
  | EntityType.problem => "Problem"
  | EntityType.solution => "Solution"
  | EntityType.decision => "Decision"
  | EntityType.codeComponent => "CodeComponent"

structure StoredEntity where
  sessionId : Uuid
  name : String
  entityType : String
  firstMentioned : Timestamp
  lastMentioned : Timestamp
  mentionCount : Nat
  importanceScore : Rat
  description : Option String
  deriving DecidableEq, Repr

def StoredEntity.fromEntityData (sessionId : Uuid) (entity : EntityData) :
    StoredEntity where
  sessionId := sessionId
  name := entity.name
  entityType := entityTypeName entity.entityType
  firstMentioned := entity.firstMentioned
  lastMentioned := entity.lastMentioned
  mentionCount := entity.mentionCount
  importanceScore := entity.importanceScore
  description := entity.description

structure StoredRelationship where
  sessionId : Uuid
  fromEntity : String
  toEntity : String
  relationType : String
  context : String
  deriving DecidableEq, Repr

namespace StoredRelationship

def fromRelationship (sessionId : Uuid) (rel : EntityRelationship) :
    StoredRelationship where
  sessionId := sessionId
  fromEntity := rel.fromEntity
  toEntity := rel.toEntity
  relationType := relationTypeName rel.relationType
  context := rel.context

/-- The stored text, read; a text that names no type is `RelatedTo`. -/
def parsedType (rel : StoredRelationship) : RelationType :=
  (parseRelationType rel.relationType).toOption.getD RelationType.relatedTo

def toRelationship (rel : StoredRelationship) : EntityRelationship where
  fromEntity := rel.fromEntity
  toEntity := rel.toEntity
  relationType := rel.parsedType
  context := rel.context

@[simp] theorem toRelationship_fromRelationship (sessionId : Uuid)
    (rel : EntityRelationship) :
    (fromRelationship sessionId rel).toRelationship = rel := by
  simp [toRelationship, fromRelationship, parsedType, parseRelationType_name,
    Except.toOption]

end StoredRelationship

inductive GraphRecord where
  | entity (e : StoredEntity)
  | relationship (r : StoredRelationship)
  deriving DecidableEq, Repr

abbrev GraphDb : Type :=
  Database String GraphRecord

section

variable [UuidText]

def entityKey (sessionId : Uuid) (entityName : String) : String :=
  "entity:" ++ UuidText.toText sessionId ++ ":" ++ entityName

def relationshipKey (sessionId : Uuid) (fromEntity toEntity : String)
    (relationType : RelationType) : String :=
  "relationship:" ++ UuidText.toText sessionId ++ ":" ++ fromEntity ++ ":" ++
    toEntity ++ ":" ++ relationTypeName relationType

def StoredEntity.key (e : StoredEntity) : String :=
  entityKey e.sessionId e.name

def StoredRelationship.key (r : StoredRelationship) : String :=
  relationshipKey r.sessionId r.fromEntity r.toEntity r.parsedType

/-!
# Operations
-/

def saveEntity (db : GraphDb) (entity : StoredEntity) : GraphDb :=
  db.write [Edit.put entity.key (GraphRecord.entity entity)]

def saveRelationship (db : GraphDb) (relationship : StoredRelationship) :
    GraphDb :=
  db.write [Edit.put relationship.key (GraphRecord.relationship relationship)]

def batchSaveGraphData (db : GraphDb) (entities : List StoredEntity)
    (relationships : List StoredRelationship) : GraphDb :=
  db.write
    (Database.puts StoredEntity.key GraphRecord.entity entities ++
      Database.puts StoredRelationship.key GraphRecord.relationship relationships)

def deleteStoredEntity (db : GraphDb) (sessionId : Uuid) (name : String) :
    GraphDb :=
  db.write [Edit.delete (entityKey sessionId name)]

def clearSessionEntities (db : GraphDb) (sessionId : Uuid) : GraphDb :=
  db.write (Database.deletes
    (db.keysWhere (hasPrefix (sessionPrefix "entity:" sessionId)) ++
      db.keysWhere (hasPrefix (sessionPrefix "relationship:" sessionId))))

def relationshipIn (sessionId : Uuid) (e : String × GraphRecord) :
    Option StoredRelationship :=
  match e.2 with
  | GraphRecord.entity _ => none
  | GraphRecord.relationship r =>
      if hasPrefix (sessionPrefix "relationship:" sessionId) e.1 then some r
      else none

def loadSessionRelationships (db : GraphDb) (sessionId : Uuid) :
    List StoredRelationship :=
  db.toList.filterMap (relationshipIn sessionId)

inductive Operation where
  | upsertEntity (sessionId : Uuid) (entity : EntityData)
  | deleteEntity (sessionId : Uuid) (name : String)
  | createRelationship (sessionId : Uuid) (relationship : EntityRelationship)
  | batchSaveGraphData (entities : List StoredEntity)
      (relationships : List StoredRelationship)
  | clearSessionEntities (sessionId : Uuid)

def Operation.apply (db : GraphDb) : Operation -> GraphDb
  | upsertEntity sessionId entity =>
      saveEntity db (StoredEntity.fromEntityData sessionId entity)
  | deleteEntity sessionId name => deleteStoredEntity db sessionId name
  | createRelationship sessionId relationship =>
      saveRelationship db
        (StoredRelationship.fromRelationship sessionId relationship)
  | batchSaveGraphData entities relationships =>
      GraphRows.batchSaveGraphData db entities relationships
  | clearSessionEntities sessionId => GraphRows.clearSessionEntities db sessionId

def run (operations : List Operation) : GraphDb :=
  operations.foldl Operation.apply ∅

end

/-- The relationships of a session that were upserted, with those of one more
operation. -/
def Operation.record (sessionId : Uuid) (upserted : List StoredRelationship) :
    Operation -> List StoredRelationship
  | upsertEntity _ _ => upserted
  | deleteEntity _ _ => upserted
  | createRelationship s relationship =>
      if s = sessionId then
        upserted ++ [StoredRelationship.fromRelationship s relationship]
      else upserted
  | batchSaveGraphData _ relationships =>
      upserted ++ relationships.filter (fun r => r.sessionId = sessionId)
  | clearSessionEntities s => if s = sessionId then [] else upserted

def upserted (sessionId : Uuid) (operations : List Operation) :
    List StoredRelationship :=
  operations.foldl (Operation.record sessionId) []

/-!
# Keys
-/

theorem separator_inj {α : Type} {c : α} {xs ys us vs : List α} (hus : c ∉ us)
    (hvs : c ∉ vs) (h : xs ++ c :: us = ys ++ c :: vs) :
    xs = ys ∧ us = vs := by
  have hreverse : us.reverse ++ c :: xs.reverse = vs.reverse ++ c :: ys.reverse := by
    simpa using congrArg List.reverse h
  obtain ⟨htail, hhead⟩ :=
    split_at_mark (by simpa using hus) (by simpa using hvs) hreverse
  exact ⟨List.reverse_injective hhead, List.reverse_injective htail⟩

theorem relationTypeName_plain (t : RelationType) :
    ':' ∉ (relationTypeName t).toList := by
  cases t <;> decide

theorem relationTypeName_inj {t u : RelationType}
    (h : relationTypeName t = relationTypeName u) :
    t = u := by
  have hparse := parseRelationType_name t
  rw [h, parseRelationType_name u] at hparse
  exact (Except.ok.inj hparse).symm

def joinedNames (r : EntityRelationship) : String :=
  r.fromEntity ++ ":" ++ r.toEntity

section

variable [UuidText]

theorem relationshipKey_eq (s : Uuid) (r : EntityRelationship) :
    relationshipKey s r.fromEntity r.toEntity r.relationType =
      sessionPrefix "relationship:" s ++
        (joinedNames r ++ ":" ++ relationTypeName r.relationType) := by
  have hassoc : forall kind id sep first mid second last type : String,
      kind ++ id ++ sep ++ first ++ mid ++ second ++ last ++ type =
        kind ++ id ++ sep ++ (first ++ mid ++ second ++ last ++ type) := by
    intros
    simp only [String.append_assoc]
  exact hassoc ..

theorem StoredRelationship.key_eq (r : StoredRelationship) :
    r.key = sessionPrefix "relationship:" r.sessionId ++
      (joinedNames r.toRelationship ++ ":" ++ relationTypeName r.parsedType) :=
  relationshipKey_eq r.sessionId r.toRelationship

theorem StoredRelationship.hasPrefix_key (r : StoredRelationship) :
    hasPrefix (sessionPrefix "relationship:" r.sessionId) r.key = true := by
  rw [r.key_eq]
  exact hasPrefix_append _ _

variable {s : Uuid} {r : StoredRelationship}

theorem session_of_key [LawfulUuidText]
    (h : hasPrefix (sessionPrefix "relationship:" s) r.key = true) :
    r.sessionId = s := by
  have hkey : r.key = "relationship:" ++ UuidText.toText r.sessionId ++
      (":" ++ (joinedNames r.toRelationship ++ ":" ++
        relationTypeName r.parsedType)) := by
    rw [r.key_eq, sessionPrefix, String.append_assoc]
  rw [hkey] at h
  exact (hasPrefix_sessionPrefix h).symm

theorem key_eq_iff {r' : StoredRelationship} (hsession : r.sessionId = r'.sessionId) :
    r.key = r'.key ↔
      r.toRelationship.relationType = r'.toRelationship.relationType ∧
        joinedNames r.toRelationship = joinedNames r'.toRelationship := by
  have hsplit : forall x : StoredRelationship,
      (joinedNames x.toRelationship ++ ":" ++ relationTypeName x.parsedType).toList =
        (joinedNames x.toRelationship).toList ++
          ':' :: (relationTypeName x.parsedType).toList := by
    intro x
    simp [String.toList_append]
  rw [r.key_eq, r'.key_eq, hsession]
  constructor
  · intro h
    have hrest := congrArg String.toList h
    rw [String.toList_append, hsplit, String.toList_append, hsplit] at hrest
    obtain ⟨hnames, htype⟩ := separator_inj (relationTypeName_plain _)
      (relationTypeName_plain _) (List.append_cancel_left hrest)
    exact ⟨relationTypeName_inj (String.toList_inj.mp htype),
      String.toList_inj.mp hnames⟩
  · rintro ⟨htype, hnames⟩
    have hparsed : r.parsedType = r'.parsedType := htype
    rw [hnames, hparsed]

variable {k : String}

omit [UuidText] in
theorem exists_append {p : String} (h : hasPrefix p k = true) :
    exists rest, k = p ++ rest := by
  obtain ⟨rest, hrest⟩ := hasPrefix_iff.mp h
  refine ⟨String.ofList rest, String.toList_inj.mp ?_⟩
  rw [String.toList_append, String.toList_ofList, hrest]

theorem session_of_prefixes [LawfulUuidText] {kind : String} {t : Uuid}
    (hs : hasPrefix (sessionPrefix kind s) k = true)
    (ht : hasPrefix (sessionPrefix kind t) k = true) :
    t = s := by
  obtain ⟨rest, rfl⟩ := exists_append hs
  have hkey : sessionPrefix kind s ++ rest =
      kind ++ UuidText.toText s ++ (":" ++ rest) :=
    String.append_assoc ..
  rw [hkey] at ht
  exact hasPrefix_sessionPrefix ht

theorem not_entityKey (h : hasPrefix (sessionPrefix "relationship:" s) k = true)
    (t : Uuid) (name : String) :
    entityKey t name ≠ k := by
  obtain ⟨rest, rfl⟩ := exists_append h
  have hapart : Apart "entity:" "relationship:" := by decide
  rw [entityKey, sessionPrefix]
  simp only [String.append_assoc]
  exact hapart.ne _ _

theorem not_entityPrefix (h : hasPrefix (sessionPrefix "relationship:" s) k = true)
    (t : Uuid) :
    hasPrefix (sessionPrefix "entity:" t) k = false := by
  obtain ⟨rest, rfl⟩ := exists_append h
  have hapart : Apart "entity:" "relationship:" := by decide
  rw [sessionPrefix, sessionPrefix]
  simp only [String.append_assoc]
  exact hapart.hasPrefix _ _

/-!
# What the rows of a session hold
-/

/-- Under the keys of a session lies what was last upserted with them. -/
structure Held (s : Uuid) (db : GraphDb) (log : List StoredRelationship) :
    Prop where
  own : forall r, r ∈ log -> r.sessionId = s
  rows : forall k, hasPrefix (sessionPrefix "relationship:" s) k = true ->
    db[k]? = (Database.lastWith StoredRelationship.key k log).map
      GraphRecord.relationship

theorem held_empty (s : Uuid) : Held s (∅ : GraphDb) [] where
  own := fun _ hr => absurd hr List.not_mem_nil
  rows := by
    intro k _
    simp [Database.lastWith]

variable {db : GraphDb} {log : List StoredRelationship}

theorem Held.other (h : Held s db log) {batch : List (Edit String GraphRecord)}
    (hbatch : forall k, hasPrefix (sessionPrefix "relationship:" s) k = true ->
      forall e, e ∈ batch -> e.target ≠ k) :
    Held s (db.write batch) log where
  own := h.own
  rows := by
    intro k hk
    rw [Database.get_write_other db (hbatch k hk)]
    exact h.rows k hk

theorem Held.entities (h : Held s db log) (entities : List StoredEntity) :
    Held s (db.write (Database.puts StoredEntity.key GraphRecord.entity entities))
      log := by
  apply h.other
  intro k hk e he
  obtain ⟨x, -, rfl⟩ := List.mem_map.mp he
  exact not_entityKey hk x.sessionId x.name

theorem Held.relationships [LawfulUuidText] (h : Held s db log)
    (relationships : List StoredRelationship) :
    Held s
      (db.write (Database.puts StoredRelationship.key GraphRecord.relationship
        relationships))
      (log ++ relationships.filter (fun r => r.sessionId = s)) where
  own := by
    intro r hr
    rcases List.mem_append.mp hr with hold | hnew
    · exact h.own r hold
    · simpa using (List.mem_filter.mp hnew).2
  rows := by
    intro k hk
    have hown : Database.lastWith StoredRelationship.key k
        (relationships.filter (fun r => r.sessionId = s)) =
          Database.lastWith StoredRelationship.key k relationships := by
      rw [Database.lastWith_filter (q := True) relationships, if_pos trivial]
      intro x _ hx
      have hsession := session_of_key (hx.symm ▸ hk)
      simp [hsession]
    rw [Database.get_write_puts_last, Database.lastWith_append, hown, h.rows k hk]
    cases Database.lastWith StoredRelationship.key k relationships with
    | none | some r => rfl

theorem Held.clear [LawfulUuidText] (h : Held s db log) (t : Uuid) :
    Held s (clearSessionEntities db t) (if t = s then [] else log) := by
  have hrow : forall k, hasPrefix (sessionPrefix "relationship:" s) k = true ->
      (k ∈ db.keysWhere (hasPrefix (sessionPrefix "entity:" t)) ++
          db.keysWhere (hasPrefix (sessionPrefix "relationship:" t)) ↔
        db[k]?.isSome = true ∧
          hasPrefix (sessionPrefix "relationship:" t) k = true) := by
    intro k hk
    rw [List.mem_append, Database.mem_keysWhere, Database.mem_keysWhere,
      not_entityPrefix hk t]
    simp
  by_cases hts : t = s
  · subst hts
    rw [if_pos rfl]
    refine ⟨fun _ hr => absurd hr List.not_mem_nil, ?_⟩
    intro k hk
    rw [clearSessionEntities, Database.get_write_deletes]
    split
    · simp [Database.lastWith]
    · next hkept =>
      rw [hrow k hk, not_and, Bool.not_eq_true] at hkept
      cases hdb : db[k]? with
      | none => simp [Database.lastWith]
      | some r => rw [hkept (by rw [hdb]; rfl)] at hk; cases hk
  · rw [if_neg hts]
    apply h.other
    intro k hk e he heq
    obtain ⟨k', hk', rfl⟩ := List.mem_map.mp he
    have hsame : k' = k := heq
    rw [hsame] at hk'
    exact hts (session_of_prefixes hk ((hrow k hk).mp hk').2)

theorem Held.apply [LawfulUuidText] (h : Held s db log) (operation : Operation) :
    Held s (operation.apply db) (operation.record s log) := by
  cases operation with
  | upsertEntity sessionId entity =>
      exact h.entities [StoredEntity.fromEntityData sessionId entity]
  | deleteEntity sessionId name =>
      apply h.other
      intro k hk e he
      rw [List.mem_singleton.mp he]
      exact not_entityKey hk sessionId name
  | createRelationship sessionId relationship =>
      have hput := h.relationships
        [StoredRelationship.fromRelationship sessionId relationship]
      simp only [Operation.record]
      split
      · next hsession =>
        rwa [List.filter_cons_of_pos
          (p := fun r : StoredRelationship => decide (r.sessionId = s))
            (decide_eq_true hsession)] at hput
      · next hsession =>
        rwa [List.filter_cons_of_neg
          (p := fun r : StoredRelationship => decide (r.sessionId = s))
            (fun h => hsession (of_decide_eq_true h)), List.filter_nil,
          List.append_nil] at hput
  | batchSaveGraphData entities relationships =>
      simp only [Operation.apply, batchSaveGraphData, Operation.record,
        Database.write_append]
      exact (h.entities entities).relationships relationships
  | clearSessionEntities sessionId => exact h.clear sessionId

theorem held_run [LawfulUuidText] (s : Uuid) (operations : List Operation) :
    Held s (run operations) (upserted s operations) := by
  have hfold : forall (operations : List Operation) (db : GraphDb)
      (log : List StoredRelationship), Held s db log ->
      Held s (operations.foldl Operation.apply db)
        (operations.foldl (Operation.record s) log) := by
    intro operations
    induction operations with
    | nil => exact fun _ _ h => h
    | cons operation rest ih => exact fun _ _ h => ih _ _ (h.apply operation)
  exact hfold operations ∅ [] (held_empty s)

/-!
# What is loaded
-/

theorem relationshipIn_iff {s : Uuid} {r : StoredRelationship} (k : String)
    (record : GraphRecord) :
    relationshipIn s (k, record) = some r ↔
      record = GraphRecord.relationship r ∧
        hasPrefix (sessionPrefix "relationship:" s) k = true := by
  cases record with
  | entity e => simp [relationshipIn]
  | relationship r' =>
      simp only [relationshipIn, GraphRecord.relationship.injEq]
      split
      · next hk => simp [hk]
      · next hk => simp [hk]

theorem mem_load {db : GraphDb} {s : Uuid} {r : StoredRelationship} :
    r ∈ loadSessionRelationships db s ↔
      exists k, hasPrefix (sessionPrefix "relationship:" s) k = true ∧
        db[k]? = some (GraphRecord.relationship r) :=
  Database.mem_read relationshipIn_iff

theorem Held.mem_load (h : Held s db log) :
    r ∈ loadSessionRelationships db s ↔
      Database.lastWith StoredRelationship.key r.key log = some r := by
  rw [GraphRows.mem_load]
  constructor
  · rintro ⟨k, hk, hdb⟩
    rw [h.rows k hk, Option.map_eq_some_iff] at hdb
    obtain ⟨r', hlast, heq⟩ := hdb
    cases heq
    rwa [(Database.lastWith_some hlast).2]
  · intro hlast
    have hown := h.own r (Database.lastWith_some hlast).1
    have hk := hown ▸ r.hasPrefix_key
    exact ⟨r.key, hk, by rw [h.rows _ hk, hlast]; rfl⟩

theorem Held.keys_load (h : Held s db log) :
    (loadSessionRelationships db s).Pairwise (fun x y => x.key ≠ y.key) := by
  have hkey : forall e r, e ∈ db.toList -> relationshipIn s e = some r ->
      e.1 = r.key := by
    rintro ⟨k, record⟩ r he hread
    obtain ⟨rfl, hk⟩ := (relationshipIn_iff k record).mp hread
    have hdb := Std.ExtTreeMap.mem_toList_iff_getElem?_eq_some.mp he
    rw [h.rows k hk, Option.map_eq_some_iff] at hdb
    obtain ⟨r', hlast, heq⟩ := hdb
    cases heq
    exact (Database.lastWith_some hlast).2.symm
  exact db.pairwise_read hkey

end

def triple (r : EntityRelationship) : String × String × RelationType :=
  (r.fromEntity, r.toEntity, r.relationType)

/-- For each ends and type the relationship that was upserted last, once. -/
structure Latest (log loaded : List EntityRelationship) : Prop where
  mem : forall r, r ∈ loaded ↔ Database.lastWith triple (triple r) log = some r
  once : (loaded.map triple).Nodup

/-- Relationships of one type with different ends have different joined
names. -/
def Distinguished (log : List EntityRelationship) : Prop :=
  forall r, r ∈ log -> forall r', r' ∈ log ->
    r.relationType = r'.relationType -> joinedNames r = joinedNames r' ->
      triple r = triple r'

instance (log : List EntityRelationship) : Decidable (Distinguished log) :=
  inferInstanceAs (Decidable (forall r, r ∈ log -> _))

section

variable [UuidText]

def loadRelationships (db : GraphDb) (s : Uuid) : List EntityRelationship :=
  (loadSessionRelationships db s).map StoredRelationship.toRelationship

theorem triple_eq_of_key {r r' : StoredRelationship} (hsession : r.sessionId = r'.sessionId)
    (h : triple r.toRelationship = triple r'.toRelationship) :
    r.key = r'.key := by
  obtain ⟨hfrom, hto, htype⟩ : r.toRelationship.fromEntity =
      r'.toRelationship.fromEntity ∧ r.toRelationship.toEntity =
        r'.toRelationship.toEntity ∧ r.toRelationship.relationType =
          r'.toRelationship.relationType := by
    simpa [triple] using h
  rw [key_eq_iff hsession, joinedNames, joinedNames, hfrom, hto]
  exact ⟨htype, rfl⟩

variable [LawfulUuidText]

omit [LawfulUuidText] in
theorem Held.latest_iff {s : Uuid} {db : GraphDb} {log : List StoredRelationship}
    (h : Held s db log) :
    Latest (log.map StoredRelationship.toRelationship) (loadRelationships db s) ↔
      Distinguished (log.map StoredRelationship.toRelationship) := by
  constructor
  · intro hlatest
    have hloaded : forall r : StoredRelationship, r ∈ log ->
        exists x : StoredRelationship, x ∈ loadSessionRelationships db s ∧
          triple x.toRelationship = triple r.toRelationship := by
      intro r hr
      cases hlast : Database.lastWith triple (triple r.toRelationship)
          (log.map StoredRelationship.toRelationship) with
      | none =>
          exact absurd rfl (Database.lastWith_eq_none.mp hlast _
            (List.mem_map_of_mem hr))
      | some y =>
          have hy := (Database.lastWith_some hlast).2
          have hmem := (hlatest.mem y).mpr (hy ▸ hlast)
          obtain ⟨x, hx, rfl⟩ := List.mem_map.mp hmem
          exact ⟨x, hx, hy⟩
    intro r hr r' hr' htype hnames
    obtain ⟨r, hlog, rfl⟩ := List.mem_map.mp hr
    obtain ⟨r', hlog', rfl⟩ := List.mem_map.mp hr'
    obtain ⟨x, hx, hxr⟩ := hloaded r hlog
    obtain ⟨x', hx', hxr'⟩ := hloaded r' hlog'
    have hlast := h.mem_load.mp hx
    have hlast' := h.mem_load.mp hx'
    have hown := h.own x (Database.lastWith_some hlast).1
    have hown' := h.own x' (Database.lastWith_some hlast').1
    -- the keys are those of the two upserts, which are equal
    have hkey : x.key = x'.key := by
      rw [triple_eq_of_key (hown.trans (h.own r hlog).symm) hxr,
        triple_eq_of_key (hown'.trans (h.own r' hlog').symm) hxr',
        key_eq_iff ((h.own r hlog).trans (h.own r' hlog').symm)]
      exact ⟨htype, hnames⟩
    rw [hkey, hlast'] at hlast
    rw [← hxr, ← hxr', Option.some.inj hlast]
  · intro hdistinguished
    have hiff : forall x y : StoredRelationship, x ∈ log -> y ∈ log ->
        (x.key = y.key ↔ triple x.toRelationship = triple y.toRelationship) := by
      intro x y hx hy
      have hsession := (h.own x hx).trans (h.own y hy).symm
      refine ⟨fun hkey => ?_, triple_eq_of_key hsession⟩
      obtain ⟨htype, hnames⟩ := (key_eq_iff hsession).mp hkey
      exact hdistinguished _ (List.mem_map_of_mem hx) _ (List.mem_map_of_mem hy)
        htype hnames
    have hlast : forall x : StoredRelationship, x ∈ log ->
        Database.lastWith triple (triple x.toRelationship)
            (log.map StoredRelationship.toRelationship) =
          (Database.lastWith StoredRelationship.key x.key log).map
            StoredRelationship.toRelationship := by
      intro x hx
      rw [Database.lastWith_map]
      exact congrArg _ (Database.lastWith_congr fun y hy => (hiff y x hy hx).symm)
    refine ⟨?_, ?_⟩
    · intro r
      constructor
      · intro hr
        obtain ⟨x, hx, rfl⟩ := List.mem_map.mp hr
        have hx := h.mem_load.mp hx
        rw [hlast x (Database.lastWith_some hx).1, hx]
        rfl
      · intro hr
        obtain ⟨x, hx, rfl⟩ := List.mem_map.mp (Database.lastWith_some hr).1
        rw [hlast x hx, Option.map_eq_some_iff] at hr
        obtain ⟨y, hy, hyr⟩ := hr
        rw [← hyr]
        refine List.mem_map_of_mem (h.mem_load.mpr ?_)
        rwa [(Database.lastWith_some hy).2]
    · rw [List.Nodup, loadRelationships, List.map_map, List.pairwise_map]
      refine h.keys_load.imp_of_mem ?_
      intro x y hx hy hkey htriple
      have hx := (Database.lastWith_some (h.mem_load.mp hx)).1
      have hy := (Database.lastWith_some (h.mem_load.mp hy)).1
      exact hkey ((hiff x y hx hy).mpr htriple)

theorem load_of_others {db : GraphDb} {s : Uuid} (entities : List StoredEntity)
    {relationships : List StoredRelationship}
    (h : forall r, r ∈ relationships -> r.sessionId ≠ s) :
    loadSessionRelationships (batchSaveGraphData db entities relationships) s =
      loadSessionRelationships db s := by
  have hrows : forall db : GraphDb, loadSessionRelationships db s =
      (db.toList.filter (fun e =>
        hasPrefix (sessionPrefix "relationship:" s) e.1)).filterMap
          (relationshipIn s) := by
    intro db
    rw [List.filterMap_filter]
    apply List.filterMap_congr
    intro e _
    split
    · rfl
    · next hk =>
      obtain ⟨k, record⟩ := e
      cases record with
      | entity _ => rfl
      | relationship _ => simp only [relationshipIn, if_neg hk]
  rw [hrows, hrows]
  congr 1
  refine Database.eq_of_ordered (Std.ExtTreeMap.ordered_keys_toList.filter _)
    (Std.ExtTreeMap.ordered_keys_toList.filter _) ?_
  intro e
  have hmem : forall db : GraphDb, e ∈ db.toList ↔ db[e.1]? = some e.2 :=
    fun _ => Std.ExtTreeMap.mem_toList_iff_getElem?_eq_some
  rw [List.mem_filter, List.mem_filter, hmem, hmem]
  refine and_congr_left fun hk => ?_
  rw [batchSaveGraphData, Database.get_write_other]
  intro edit hedit
  rcases List.mem_append.mp hedit with hentity | hrelationship
  · obtain ⟨x, -, rfl⟩ := List.mem_map.mp hentity
    exact not_entityKey hk x.sessionId x.name
  · obtain ⟨r, hr, rfl⟩ := List.mem_map.mp hrelationship
    intro heq
    have hkey : r.key = e.1 := heq
    exact h r hr (session_of_key (hkey ▸ hk))

/-- What is loaded of a session after a run is what was upserted last for each
ends and type, and what is saved for other sessions does not change it. -/
structure Unconfused (s : Uuid) (operations : List Operation) : Prop where
  latest : Latest ((upserted s operations).map StoredRelationship.toRelationship)
    (loadRelationships (run operations) s)
  others : forall (entities : List StoredEntity)
    (relationships : List StoredRelationship),
    (forall r, r ∈ relationships -> r.sessionId ≠ s) ->
      loadRelationships
          (batchSaveGraphData (run operations) entities relationships) s =
        loadRelationships (run operations) s

/-- The relationships of a session are neither lost nor confused exactly when
no two of them with one type have different ends whose names join to the same
text. -/
theorem relationships_unconfused_iff (s : Uuid) (operations : List Operation) :
    Unconfused s operations ↔
      Distinguished
        ((upserted s operations).map StoredRelationship.toRelationship) := by
  have hlatest := (held_run s operations).latest_iff
  constructor
  · intro h
    exact hlatest.mp h.latest
  · intro h
    refine ⟨hlatest.mpr h, ?_⟩
    intro entities relationships hothers
    rw [loadRelationships, load_of_others entities hothers]
    rfl

end

attribute [local instance] hyphenatedText lawful_hyphenatedText

theorem relationships_unconfused_plain :
    Unconfused 1
      [Operation.createRelationship 1 ⟨"api", "db", RelationType.dependsOn, "old"⟩,
        Operation.createRelationship 2 ⟨"api", "db", RelationType.dependsOn, "far"⟩,
        Operation.createRelationship 1 ⟨"api", "db", RelationType.dependsOn, "new"⟩] :=
  (relationships_unconfused_iff 1 _).mpr (by decide +kernel)

/-- The ends `svc:auth` and `db` and the ends `svc` and `auth:db` have one key. -/
theorem colliding_names_lose_relationship :
    ¬ Unconfused 1
      [Operation.createRelationship 1
          ⟨"svc:auth", "db", RelationType.dependsOn, "first"⟩,
        Operation.createRelationship 1
          ⟨"svc", "auth:db", RelationType.dependsOn, "second"⟩] := by
  intro h
  have hdistinguished := (held_run 1 _).latest_iff.mp h.latest
  exact absurd hdistinguished (by decide +kernel)

end GraphRows
end Storage
end PostCortex
