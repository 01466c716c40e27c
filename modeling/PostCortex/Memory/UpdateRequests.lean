import PostCortex.Core.Redaction
import PostCortex.Memory.DerivedFrom

/-!
# Validating a write

`validate_update_request` of `services.rs`, which `update_context` calls on the
redacted request.  `debug` prints a name as `{:?}` does.
-/

namespace PostCortex
namespace Memory
namespace UpdateRequests

open PostCortex.Core
open PostCortex.Core.Redaction
open PostCortex.Memory.DerivedFrom

section

variable (debug : String -> String)

def validateRelation (names : List String) (i : Nat) (rel : EntityRelationship) :
    Except SystemError Unit :=
  if rel.fromEntity = "" then
    Except.error (SystemError.invalidArgument ("relation[" ++ toString i ++
      "]: from_entity must not be empty"))
  else if rel.toEntity = "" then
    Except.error (SystemError.invalidArgument ("relation[" ++ toString i ++
      "]: to_entity must not be empty"))
  else if rel.fromEntity = rel.toEntity then
    Except.error (SystemError.invalidArgument ("relation[" ++ toString i ++
      "]: self-relations are not allowed (from_entity == to_entity == " ++
      debug rel.fromEntity ++ ")"))
  else if isBlank rel.context then
    Except.error (SystemError.invalidArgument ("relation[" ++ toString i ++
      "]: context must not be empty — every relation requires an explanation"))
  else if rel.fromEntity ∉ names then
    Except.error (SystemError.invalidArgument ("relation[" ++ toString i ++
      "]: from_entity " ++ debug rel.fromEntity ++
      " is not declared in the entities list"))
  else if rel.toEntity ∉ names then
    Except.error (SystemError.invalidArgument ("relation[" ++ toString i ++
      "]: to_entity " ++ debug rel.toEntity ++ " is not declared in the entities list"))
  else Except.ok ()

def validateRelations (names : List String) :
    Nat -> List EntityRelationship -> Except SystemError Unit
  | _, [] => Except.ok ()
  | i, rel :: rest =>
      match validateRelation debug names i rel with
      | Except.error e => Except.error e
      | Except.ok () => validateRelations names (i + 1) rest

def validateUpdateRequest (req : UpdateContextRequest) : Except SystemError Unit :=
  if isBlank req.content.title && isBlank req.content.description then
    Except.error (SystemError.invalidArgument
      "update_context: title and description are both empty — provide at least one")
  else if req.entities = [] then
    Except.error (SystemError.invalidArgument
      "update_context: entities must not be empty")
  else if req.relations = [] then
    Except.error (SystemError.invalidArgument
      "update_context: relations must not be empty")
  else validateRelations debug (req.entities.map EntityData.name) 0 req.relations

end

/-!
# What is accepted
-/

/-- A relation between two declared entities, with an explanation. -/
structure SoundRelation (names : List String) (rel : EntityRelationship) : Prop where
  fromNamed : rel.fromEntity ≠ ""
  toNamed : rel.toEntity ≠ ""
  distinct : rel.fromEntity ≠ rel.toEntity
  explained : isBlank rel.context = false
  fromDeclared : rel.fromEntity ∈ names
  toDeclared : rel.toEntity ∈ names

structure WellFormed (req : UpdateContextRequest) : Prop where
  described : (isBlank req.content.title && isBlank req.content.description) = false
  entities : req.entities ≠ []
  relations : req.relations ≠ []
  sound : forall rel, rel ∈ req.relations ->
    SoundRelation (req.entities.map EntityData.name) rel

theorem validateRelation_eq_ok {debug : String -> String} {names : List String} {i : Nat}
    {rel : EntityRelationship} :
    validateRelation debug names i rel = Except.ok () ↔ SoundRelation names rel := by
  constructor
  · intro h
    unfold validateRelation at h
    split at h
    · cases h
    · next hfrom =>
      split at h
      · cases h
      · next hto =>
        split at h
        · cases h
        · next hdistinct =>
          split at h
          · cases h
          · next hexplained =>
            split at h
            · cases h
            · next hfromDeclared =>
              split at h
              · cases h
              · next htoDeclared =>
                exact ⟨hfrom, hto, hdistinct, Bool.eq_false_iff.mpr hexplained,
                  not_not.mp hfromDeclared, not_not.mp htoDeclared⟩
  · intro h
    rw [validateRelation, if_neg h.fromNamed, if_neg h.toNamed, if_neg h.distinct,
      if_neg (Bool.eq_false_iff.mp h.explained), if_neg (not_not.mpr h.fromDeclared),
      if_neg (not_not.mpr h.toDeclared)]

variable {debug : String -> String}

theorem validateRelations_eq_ok {names : List String} {i : Nat}
    {relations : List EntityRelationship} :
    validateRelations debug names i relations = Except.ok () ↔
      forall rel, rel ∈ relations -> SoundRelation names rel := by
  induction relations generalizing i with
  | nil =>
      refine ⟨fun _ rel hrel => ?_, fun _ => rfl⟩
      cases hrel
  | cons rel rest ih =>
      rw [List.forall_mem_cons, ← ih (i := i + 1), validateRelations]
      have hone := @validateRelation_eq_ok debug names i rel
      cases hcheck : validateRelation debug names i rel with
      | error e =>
          rw [hcheck] at hone
          constructor
          · intro h
            cases h
          · intro h
            cases hone.mpr h.1
      | ok u =>
          rw [hcheck] at hone
          exact ⟨fun h => ⟨hone.mp rfl, h⟩, fun h => h.2⟩

variable {req : UpdateContextRequest}

theorem validate_eq_ok :
    validateUpdateRequest debug req = Except.ok () ↔ WellFormed req := by
  constructor
  · intro h
    unfold validateUpdateRequest at h
    split at h
    · cases h
    · next hdescribed =>
      split at h
      · cases h
      · next hentities =>
        split at h
        · cases h
        · next hrelations =>
          exact ⟨Bool.eq_false_iff.mpr hdescribed, hentities, hrelations,
            validateRelations_eq_ok.mp h⟩
  · intro h
    rw [validateUpdateRequest, if_neg (Bool.eq_false_iff.mp h.described),
      if_neg h.entities, if_neg h.relations]
    exact validateRelations_eq_ok.mpr h.sound

/-!
# Validity after redaction
-/

/-- The request is accepted: endpoints are declared entities, and a relation has
two different ones. -/
def Valid (debug : String -> String) (req : UpdateContextRequest) : Prop :=
  validateUpdateRequest debug req = Except.ok () ∧
    forall rel, rel ∈ req.relations ->
      (exists e, e ∈ req.entities ∧ e.name = rel.fromEntity) ∧
      (exists e, e ∈ req.entities ∧ e.name = rel.toEntity) ∧
      rel.fromEntity ≠ rel.toEntity

theorem valid_iff :
    Valid debug req ↔ validateUpdateRequest debug req = Except.ok () := by
  refine ⟨fun h => h.1, fun h => ⟨h, fun rel hrel => ?_⟩⟩
  have hsound := (validate_eq_ok.mp h).sound rel hrel
  exact ⟨List.mem_map.mp hsound.fromDeclared, List.mem_map.mp hsound.toDeclared,
    hsound.distinct⟩

/-- The image of a well-formed request is one if names that a relation joins stay
different. -/
theorem wellFormed_mapRequest {f : String -> String}
    (hempty : forall text, text ≠ "" -> f text ≠ "")
    (hblank : forall text, isBlank text = false -> isBlank (f text) = false)
    (h : WellFormed req) :
    WellFormed (mapRequest f req) ↔
      forall rel, rel ∈ req.relations -> f rel.fromEntity ≠ f rel.toEntity := by
  have hnames : (mapRequest f req).entities.map EntityData.name =
      (req.entities.map EntityData.name).map f := by
    rw [mapRequest, List.map_map, List.map_map]
    rfl
  constructor
  · intro hmapped rel hrel
    exact (hmapped.sound (mapRelation f rel) (List.mem_map_of_mem hrel)).distinct
  · intro hdistinct
    refine ⟨?_, ?_, ?_, ?_⟩
    · have hdescribed := h.described
      rw [Bool.and_eq_false_iff] at hdescribed ⊢
      exact hdescribed.imp (hblank _) (hblank _)
    · exact fun hnil => h.entities (List.map_eq_nil_iff.mp hnil)
    · exact fun hnil => h.relations (List.map_eq_nil_iff.mp hnil)
    · intro rel' hrel'
      obtain ⟨rel, hrel, rfl⟩ := List.mem_map.mp hrel'
      have hsound := h.sound rel hrel
      rw [hnames]
      exact ⟨hempty _ hsound.fromNamed, hempty _ hsound.toNamed, hdistinct rel hrel,
        hblank _ hsound.explained, List.mem_map_of_mem hsound.fromDeclared,
        List.mem_map_of_mem hsound.toDeclared⟩

/-- Redaction keeps a request valid exactly when it does not make the two names of a
relation the same text. -/
theorem redacted_valid_iff (debug : String -> String) (r : Redactor)
    {req : UpdateContextRequest} (h : validateUpdateRequest debug req = Except.ok ()) :
    Valid debug (r.redactRequest req).1 ↔
      forall rel, rel ∈ req.relations ->
        r.redacted rel.fromEntity ≠ r.redacted rel.toEntity := by
  rw [valid_iff, r.redactRequest_fst, validate_eq_ok]
  exact wellFormed_mapRequest (fun _ hne => Redactor.redacted_ne_empty hne)
    (fun _ hne => Redactor.redacted_not_blank hne) (validate_eq_ok.mp h)

def addresses (kind text : String) : List Piece :=
  if kind = "email" ∧ (text = "a@b.co" ∨ text = "c@d.co") then
    [Piece.found ⟨text, "", none⟩]
  else [Piece.gap text]

def addressRedactor : Redactor where
  enabled := true
  compiled := addresses
  extra := []

def named (name : String) : EntityData where
  name := name
  entityType := EntityType.concept
  firstMentioned := 0
  lastMentioned := 0
  mentionCount := 0
  importanceScore := 0
  description := none
  aliases := []

def relating (fromEntity toEntity : String) : UpdateContextRequest where
  sessionId := 1
  interactionType := UpdateType.decisionMade
  content :=
    { title := "Review"
      description := ""
      details := []
      examples := []
      implications := [] }
  entities := [named fromEntity, named toEntity]
  relations := [⟨fromEntity, toEntity, RelationType.dependsOn, "asks for a review"⟩]
  codeReference := none
  author := none
  derivedFrom := []
  metadata := UpdateMeta.default

theorem relating_valid :
    Valid id (addressRedactor.redactRequest (relating "a@b.co" "billing")).1 := by
  refine (redacted_valid_iff id addressRedactor (by rfl)).mpr ?_
  intro rel hrel
  rw [List.mem_singleton.mp hrel]
  decide +kernel

/-- Two addresses are redacted to one name. -/
theorem two_addresses_refused :
    validateUpdateRequest id (relating "a@b.co" "c@d.co") = Except.ok () ∧
    (forall rel, rel ∈
        (addressRedactor.redactRequest (relating "a@b.co" "c@d.co")).1.relations ->
      rel.fromEntity = "[REDACTED:email]" ∧ rel.toEntity = "[REDACTED:email]") ∧
    ¬ Valid id (addressRedactor.redactRequest (relating "a@b.co" "c@d.co")).1 := by
  have hboth : forall rel, rel ∈
        (addressRedactor.redactRequest (relating "a@b.co" "c@d.co")).1.relations ->
      rel.fromEntity = "[REDACTED:email]" ∧ rel.toEntity = "[REDACTED:email]" := by
    rw [Redactor.redactRequest_fst]
    intro rel hrel
    rw [List.mem_singleton.mp hrel]
    decide +kernel
  refine ⟨by rfl, hboth, ?_⟩
  intro hvalid
  have hmem : mapRelation addressRedactor.redacted
      ⟨"a@b.co", "c@d.co", RelationType.dependsOn, "asks for a review"⟩ ∈
      (addressRedactor.redactRequest (relating "a@b.co" "c@d.co")).1.relations := by
    rw [Redactor.redactRequest_fst]
    exact List.mem_cons_self
  have hdistinct := (hvalid.2 _ hmem).2.2
  have hsame := hboth _ hmem
  exact hdistinct (hsame.1.trans hsame.2.symm)

end UpdateRequests
end Memory
end PostCortex
