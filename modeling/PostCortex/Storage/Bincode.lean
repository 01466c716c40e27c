import PostCortex.KeyValue.Codec
import PostCortex.Session.ActiveSession

/-!
# Bincode rows

How bincode writes the structs of an update and of a checkpoint: the fields one
after the other, an enum as the number of its variant, a list after its length,
an option after a tag.  The values it writes otherwise are parameters.
-/

namespace PostCortex
namespace Storage

open PostCortex.Core
open PostCortex.Session
open KeyValue

/-- Numbers, texts, scores, ids and timestamps. -/
class Bincode where
  number : Codec Nat
  text : Codec String
  score : Codec Rat
  uuid : Codec Uuid
  timestamp : Codec Timestamp
  number_nil : number.FailsOnEmpty
  /-- An id is written as its 16 bytes after their number. -/
  uuid_head : forall id, exists bytes, uuid.encode id = 16 :: bytes

namespace Bincode

/-!
# Enums
-/

def updateTypeVariants : List UpdateType :=
  [UpdateType.questionAnswered, UpdateType.problemSolved, UpdateType.codeChanged,
    UpdateType.decisionMade, UpdateType.conceptDefined,
    UpdateType.requirementAdded]

def entityTypeVariants : List EntityType :=
  [EntityType.technology, EntityType.concept, EntityType.problem,
    EntityType.solution, EntityType.decision, EntityType.codeComponent]

def relationTypeVariants : List RelationType :=
  [RelationType.requiredBy, RelationType.leadsTo, RelationType.relatedTo,
    RelationType.conflictsWith, RelationType.dependsOn, RelationType.implements,
    RelationType.causedBy, RelationType.solves]

def questionStatusVariants : List QuestionStatus :=
  [QuestionStatus.opened, QuestionStatus.inProgress, QuestionStatus.answered,
    QuestionStatus.deferred]

section

variable [Bincode] {value : Type} [DecidableEq value]

def enum (variants : List value)
    (hall : forall x, variants[variants.idxOf x]? = some x) : Codec value :=
  number.iso (fun x => variants.idxOf x) (fun n => variants[n]?) hall

def updateType : Codec UpdateType :=
  enum updateTypeVariants (by intro x; cases x <;> rfl)

def entityType : Codec EntityType :=
  enum entityTypeVariants (by intro x; cases x <;> rfl)

def relationType : Codec RelationType :=
  enum relationTypeVariants (by intro x; cases x <;> rfl)

def questionStatus : Codec QuestionStatus :=
  enum questionStatusVariants (by intro x; cases x <;> rfl)

/-!
# Structs
-/

def list (c : Codec value) : Codec (List value) :=
  Codec.list number c

def texts : Codec (List String) :=
  list text

def updateContent : Codec UpdateContent :=
  (text.pair (text.pair (texts.pair (texts.pair texts)))).iso
    (fun c => (c.title, c.description, c.details, c.examples, c.implications))
    (fun (title, description, details, examples, implications) =>
      some ⟨title, description, details, examples, implications⟩)
    (fun _ => rfl)

def codeReference : Codec CodeReference :=
  (text.pair (number.pair (number.pair (text.pair (text.option.pair
    (text.option.pair text)))))).iso
    (fun c => (c.filePath, c.startLine, c.endLine, c.codeSnippet, c.commitHash,
      c.branch, c.changeDescription))
    (fun (filePath, startLine, endLine, codeSnippet, commitHash, branch,
        changeDescription) =>
      some ⟨filePath, startLine, endLine, codeSnippet, commitHash, branch,
        changeDescription⟩)
    (fun _ => rfl)

def entityRelationship : Codec EntityRelationship :=
  (text.pair (text.pair (relationType.pair text))).iso
    (fun r => (r.fromEntity, r.toEntity, r.relationType, r.context))
    (fun (fromEntity, toEntity, relationType, context) =>
      some ⟨fromEntity, toEntity, relationType, context⟩)
    (fun _ => rfl)

def typedEntity : Codec TypedEntity :=
  (text.pair entityType).iso (fun e => (e.name, e.entityType))
    (fun (name, entityType) => some ⟨name, entityType⟩) (fun _ => rfl)

def updateMeta : Codec UpdateMeta :=
  (timestamp.option.pair ((list uuid).pair (score.option.pair
    timestamp.option))).iso
    (fun m => (m.validFrom, m.supersedes, m.confidence, m.retiredAt))
    (fun (validFrom, supersedes, confidence, retiredAt) =>
      some ⟨validFrom, supersedes, confidence, retiredAt⟩)
    (fun _ => rfl)

def decisionItem : Codec DecisionItem :=
  (text.pair (text.pair (texts.pair (score.pair timestamp)))).iso
    (fun i => (i.description, i.context, i.alternatives, i.confidence,
      i.timestamp))
    (fun (description, context, alternatives, confidence, timestamp) =>
      some ⟨description, context, alternatives, confidence, timestamp⟩)
    (fun _ => rfl)

def questionItem : Codec QuestionItem :=
  (text.pair (text.pair (questionStatus.pair (timestamp.pair timestamp)))).iso
    (fun i => (i.question, i.context, i.status, i.timestamp, i.lastUpdated))
    (fun (question, context, status, timestamp, lastUpdated) =>
      some ⟨question, context, status, timestamp, lastUpdated⟩)
    (fun _ => rfl)

def conceptItem : Codec ConceptItem :=
  (text.pair (text.pair (texts.pair (texts.pair timestamp)))).iso
    (fun i => (i.name, i.definition, i.examples, i.relatedConcepts, i.timestamp))
    (fun (name, definition, examples, relatedConcepts, timestamp) =>
      some ⟨name, definition, examples, relatedConcepts, timestamp⟩)
    (fun _ => rfl)

def specItem : Codec SpecItem :=
  (text.pair (text.pair (texts.pair (texts.pair timestamp)))).iso
    (fun i => (i.title, i.description, i.requirements, i.constraints,
      i.timestamp))
    (fun (title, description, requirements, constraints, timestamp) =>
      some ⟨title, description, requirements, constraints, timestamp⟩)
    (fun _ => rfl)

def flowItem : Codec FlowItem :=
  (text.pair (timestamp.pair ((list uuid).pair text.option))).iso
    (fun i => (i.stepDescription, i.timestamp, i.relatedUpdates, i.outcome))
    (fun (stepDescription, timestamp, relatedUpdates, outcome) =>
      some ⟨stepDescription, timestamp, relatedUpdates, outcome⟩)
    (fun _ => rfl)

def structuredContext : Codec StructuredContext :=
  ((list decisionItem).pair ((list questionItem).pair ((list conceptItem).pair
    ((list specItem).pair (list flowItem))))).iso
    (fun c => (c.keyDecisions, c.openQuestions, c.keyConcepts,
      c.technicalSpecifications, c.conversationFlow))
    (fun (keyDecisions, openQuestions, keyConcepts, technicalSpecifications,
        conversationFlow) =>
      some ⟨keyDecisions, openQuestions, keyConcepts, technicalSpecifications,
        conversationFlow⟩)
    (fun _ => rfl)

def changeRecord : Codec ChangeRecord :=
  (uuid.pair (timestamp.pair (text.pair (text.pair uuid.option)))).iso
    (fun r => (r.id, r.timestamp, r.changeType, r.description, r.relatedUpdateId))
    (fun (id, timestamp, changeType, description, relatedUpdateId) =>
      some ⟨id, timestamp, changeType, description, relatedUpdateId⟩)
    (fun _ => rfl)

end

/-!
# A bincode

Ids, numbers and texts as bincode writes them.  A timestamp is a text, as chrono
has it at the epoch and else in nanoseconds; a score is written as an `f32` at
zero and else as a fraction.
-/

def encodeUuid (id : Uuid) : Bytes :=
  16 :: (Codec.littleEndian 16 id.toNat).reverse

def decodeUuid : Bytes -> Option (Uuid × Bytes)
  | [] => none
  | b :: rest =>
      if b = 16 ∧ 16 ≤ rest.length then
        some (BitVec.ofNat 128 (Codec.ofLittleEndian (rest.take 16).reverse),
          rest.drop 16)
      else none

theorem decodeUuid_encodeUuid (id : Uuid) (rest : Bytes) :
    decodeUuid (encodeUuid id ++ rest) = some (id, rest) := by
  have hlength : (Codec.littleEndian 16 id.toNat).reverse.length = 16 := by
    rw [List.length_reverse, Codec.length_littleEndian]
  have hid : id.toNat < 256 ^ 16 := id.isLt
  unfold encodeUuid decodeUuid
  dsimp only [List.cons_append]
  rw [if_pos ⟨rfl, by rw [List.length_append]; omega⟩, List.take_left' hlength,
    List.drop_left' hlength, List.reverse_reverse,
    Codec.ofLittleEndian_littleEndian hid, BitVec.ofNat_toNat,
    BitVec.setWidth_eq]

def uuidBytes : Codec Uuid where
  encode := encodeUuid
  decode := decodeUuid
  decode_encode := decodeUuid_encodeUuid

def epochText : String :=
  "1970-01-01T00:00:00Z"

def timestampText : Timestamp -> String
  | Int.ofNat 0 => epochText
  | Int.ofNat (n + 1) => String.ofList ('+' :: Nat.toDigits 10 (n + 1))
  | Int.negSucc n => String.ofList ('-' :: Nat.toDigits 10 n)

def parseTimestamp (s : String) : Option Timestamp :=
  match s.toList with
  | '+' :: digits => some (Int.ofNat (Nat.ofDigitChars 10 digits 0))
  | '-' :: digits => some (Int.negSucc (Nat.ofDigitChars 10 digits 0))
  | _ => if s = epochText then some 0 else none

theorem parseTimestamp_text (t : Timestamp) :
    parseTimestamp (timestampText t) = some t := by
  match t with
  | Int.ofNat 0 => rfl
  | Int.ofNat (n + 1) =>
      simp [parseTimestamp, timestampText, Nat.ofDigitChars_ten_toDigits]
  | Int.negSucc n =>
      simp [parseTimestamp, timestampText, Nat.ofDigitChars_ten_toDigits]

def fraction : Codec Rat :=
  (Codec.bool.pair (Codec.varint.pair Codec.varint)).iso
    (fun q => (decide (q.num < 0), q.num.natAbs, q.den))
    (fun (negative, n, d) =>
      some (mkRat (if negative = true then -(n : Int) else n) d)) (by
      intro q
      have hnum : (if decide (q.num < 0) = true then -(q.num.natAbs : Int)
          else q.num.natAbs) = q.num := by
        split
        · next hnegative =>
          have hlt : q.num < 0 := of_decide_eq_true hnegative
          omega
        · next hnegative =>
          have hge : ¬ q.num < 0 := fun h => hnegative (decide_eq_true h)
          omega
      exact congrArg some ((congrArg (fun n => mkRat n q.den) hnum).trans
        q.mkRat_self))

def scoreBytes : Codec Rat where
  encode q := if q = 0 then [0, 0, 0, 0] else 1 :: fraction.encode q
  decode bytes :=
    match bytes with
    | 0 :: 0 :: 0 :: 0 :: rest => some (0, rest)
    | 1 :: rest => fraction.decode rest
    | _ => none
  decode_encode := by
    intro q rest
    by_cases hzero : q = 0
    · rw [if_pos hzero, hzero]
      rfl
    · rw [if_neg hzero]
      exact fraction.decode_encode q rest

@[reducible] def plainBincode : Bincode where
  number := Codec.varint
  text := Codec.utf8
  score := scoreBytes
  uuid := uuidBytes
  timestamp := Codec.utf8.iso timestampText parseTimestamp parseTimestamp_text
  number_nil := rfl
  uuid_head _ := ⟨_, rfl⟩

end Bincode
end Storage
end PostCortex
