import Mathlib.Algebra.Ring.Nat
import PostCortex.Core.ContextUpdate
import PostCortex.JsonPath.Grammar
import PostCortex.KeyValue.Accumulation

/-!
# Redaction

`redact.rs`: what the patterns of sensitive values match is replaced by markers.  A
regex is the cutting of a text into gaps and matches; group 1 takes part in every
match of the rules that read it.
-/

namespace PostCortex
namespace Core
namespace Redaction

open PostCortex.JsonPath
open PostCortex.KeyValue
open PostCortex.Parsing

/-!
# Patterns
-/

structure Captures where
  whole : String
  group1 : String
  group2 : Option String
  deriving DecidableEq, Repr

inductive Piece where
  | gap (text : String)
  | found (captures : Captures)
  deriving DecidableEq, Repr

abbrev Regex := String -> List Piece

inductive Replace where
  | whole
  | keepPrefix
  | publicIpv4
  deriving DecidableEq, Repr

structure Rule where
  kind : String
  re : Regex
  replace : Replace

def builtin (compiled : String -> Regex) : List Rule :=
  [⟨"private_key", compiled "private_key", Replace.whole⟩,
    ⟨"jwt", compiled "jwt", Replace.whole⟩,
    ⟨"api_key", compiled "api_key", Replace.whole⟩,
    ⟨"telegram_token", compiled "telegram_token", Replace.whole⟩,
    ⟨"bearer", compiled "bearer", Replace.keepPrefix⟩,
    ⟨"url_password", compiled "url_password", Replace.keepPrefix⟩,
    ⟨"secret", compiled "secret", Replace.keepPrefix⟩,
    ⟨"email", compiled "email", Replace.whole⟩,
    ⟨"phone", compiled "phone", Replace.whole⟩,
    ⟨"ip", compiled "ip", Replace.publicIpv4⟩]

/-!
# Addresses
-/

structure Ipv4Addr where
  a : Nat
  b : Nat
  c : Nat
  d : Nat
  deriving DecidableEq, Repr

def octet (digits : List Char) : Option Nat :=
  if digits ≠ [] ∧ digits.length ≤ 3 ∧ digits.all Char.isDigit = true ∧
      (digits.length = 1 ∨ digits.head? ≠ some '0') ∧ value digits ≤ 255 then
    some (value digits)
  else none

/-- `str::parse::<Ipv4Addr>`. -/
def parseIpv4 (text : String) : Option Ipv4Addr :=
  match (text.toList.splitOn '.').map octet with
  | [some a, some b, some c, some d] => some ⟨a, b, c, d⟩
  | _ => none

namespace Ipv4Addr

def isPrivate (ip : Ipv4Addr) : Bool :=
  ip.a == 10 || (ip.a == 172 && (decide (16 ≤ ip.b) && decide (ip.b ≤ 31))) ||
    (ip.a == 192 && ip.b == 168)

def isLoopback (ip : Ipv4Addr) : Bool :=
  ip.a == 127

def isLinkLocal (ip : Ipv4Addr) : Bool :=
  ip.a == 169 && ip.b == 254

def isUnspecified (ip : Ipv4Addr) : Bool :=
  ip == ⟨0, 0, 0, 0⟩

def isBroadcast (ip : Ipv4Addr) : Bool :=
  ip == ⟨255, 255, 255, 255⟩

def isPublic (ip : Ipv4Addr) : Bool :=
  let tailnet := ip.a == 100 && (decide (64 ≤ ip.b) && decide (ip.b < 128))
  !(ip.isPrivate || ip.isLoopback || ip.isLinkLocal || ip.isUnspecified ||
    ip.isBroadcast || tailnet)

end Ipv4Addr

/-!
# Redacting a text
-/

abbrev RedactionCounts := Database String Nat

def marker (kind : String) : String :=
  "[REDACTED:" ++ kind ++ "]"

def replacement (r : Rule) (c : Captures) : String × Nat :=
  match r.replace with
  | Replace.whole => (marker r.kind, 1)
  | Replace.keepPrefix => (c.group1 ++ marker r.kind ++ c.group2.getD "", 1)
  | Replace.publicIpv4 =>
      match parseIpv4 c.whole with
      | some ip => if ip.isPublic then (marker r.kind, 1) else (c.whole, 0)
      | none => (c.whole, 0)

def replaceAll (rewrite : Captures -> String × Nat) : List Piece -> String × Nat
  | [] => ("", 0)
  | Piece.gap text :: rest =>
      (text ++ (replaceAll rewrite rest).1, (replaceAll rewrite rest).2)
  | Piece.found c :: rest =>
      ((rewrite c).1 ++ (replaceAll rewrite rest).1,
        (rewrite c).2 + (replaceAll rewrite rest).2)

def applyRule (state : String × RedactionCounts) (r : Rule) : String × RedactionCounts :=
  let replaced := replaceAll (replacement r) (r.re state.1)
  if 0 < replaced.2 then (replaced.1, state.2.accumulate r.kind replaced.2) else state

def customRule (re : Regex) : Rule :=
  ⟨"custom", re, Replace.whole⟩

structure Redactor where
  enabled : Bool
  compiled : String -> Regex
  extra : List Regex

namespace Redactor

def rules (r : Redactor) : List Rule :=
  builtin r.compiled ++ r.extra.map customRule

def redactStr (r : Redactor) (text : String) (counts : RedactionCounts) :
    String × RedactionCounts :=
  if r.enabled = false ∨ text = "" then (text, counts)
  else r.rules.foldl applyRule (text, counts)

def redacted (r : Redactor) (text : String) : String :=
  (r.redactStr text ∅).1

end Redactor

/-!
# One fixed function of the text
-/

def rewritten (r : Rule) (text : String) : String :=
  let replaced := replaceAll (replacement r) (r.re text)
  if 0 < replaced.2 then replaced.1 else text

theorem applyRule_fst (state : String × RedactionCounts) (r : Rule) :
    (applyRule state r).1 = rewritten r state.1 := by
  unfold applyRule rewritten
  dsimp only
  split
  · rfl
  · rfl

theorem foldl_applyRule_fst (rules : List Rule) (state : String × RedactionCounts) :
    (rules.foldl applyRule state).1 =
      rules.foldl (fun text r => rewritten r text) state.1 := by
  induction rules generalizing state with
  | nil => rfl
  | cons r rest ih => rw [List.foldl_cons, List.foldl_cons, ih, applyRule_fst]

namespace Redactor

theorem redactStr_fst (r : Redactor) (text : String) (counts : RedactionCounts) :
    (r.redactStr text counts).1 = r.redacted text := by
  unfold redacted redactStr
  split
  · rfl
  · rw [foldl_applyRule_fst, foldl_applyRule_fst]

theorem redacted_of_disabled {r : Redactor} (h : r.enabled = false) (text : String) :
    r.redacted text = text := by
  rw [redacted, redactStr, if_pos (Or.inl h)]

end Redactor

/-!
# What is left of a text

A text is left as it is, or a marker stands in it.
-/

theorem marked_marker (kind : String) : '[' ∈ (marker kind).toList := by
  rw [marker, String.toList_append, String.toList_append]
  exact List.mem_append_left _ (List.mem_append_left _ (by decide))

theorem marked_replacement {r : Rule} {c : Captures} (h : 0 < (replacement r c).2) :
    '[' ∈ (replacement r c).1.toList := by
  unfold replacement at h ⊢
  cases hreplace : r.replace with
  | whole => exact marked_marker r.kind
  | keepPrefix =>
      rw [String.toList_append, String.toList_append]
      exact List.mem_append_left _ (List.mem_append_right _ (marked_marker r.kind))
  | publicIpv4 =>
      rw [hreplace] at h
      dsimp only at h ⊢
      cases hparse : parseIpv4 c.whole with
      | none =>
          rw [hparse] at h
          cases h
      | some ip =>
          rw [hparse] at h
          dsimp only at h ⊢
          cases hpublic : ip.isPublic with
          | false =>
              rw [hpublic] at h
              cases h
          | true => exact marked_marker r.kind

theorem marked_replaceAll {r : Rule} {pieces : List Piece}
    (h : 0 < (replaceAll (replacement r) pieces).2) :
    '[' ∈ (replaceAll (replacement r) pieces).1.toList := by
  induction pieces with
  | nil => cases h
  | cons piece rest ih =>
      cases piece with
      | gap text =>
          rw [replaceAll, String.toList_append]
          exact List.mem_append_right _ (ih h)
      | found c =>
          rw [replaceAll, String.toList_append]
          by_cases hc : 0 < (replacement r c).2
          · exact List.mem_append_left _ (marked_replacement hc)
          · refine List.mem_append_right _ (ih ?_)
            rw [replaceAll] at h
            dsimp only at h
            omega

theorem rewritten_cases (r : Rule) (text : String) :
    rewritten r text = text ∨ '[' ∈ (rewritten r text).toList := by
  unfold rewritten
  dsimp only
  split
  · next h => exact Or.inr (marked_replaceAll h)
  · exact Or.inl rfl

theorem foldl_rewritten_cases (rules : List Rule) (text : String) :
    rules.foldl (fun text r => rewritten r text) text = text ∨
      '[' ∈ (rules.foldl (fun text r => rewritten r text) text).toList := by
  induction rules generalizing text with
  | nil => exact Or.inl rfl
  | cons r rest ih =>
      rw [List.foldl_cons]
      rcases ih (rewritten r text) with hsame | hmarked
      · rw [hsame]
        exact rewritten_cases r text
      · exact Or.inr hmarked

/-- `trim().is_empty()`. -/
def isBlank (text : String) : Bool :=
  (trimBy isWhitespace text.toList).isEmpty

theorem isBlank_eq_false_of_mem {text : String} {c : Char} (hc : c ∈ text.toList)
    (hspace : isWhitespace c = false) : isBlank text = false := by
  rw [isBlank, List.isEmpty_eq_false_iff]
  intro hnil
  have hblank := trimBy_eq_nil.mp hnil c hc
  rw [hspace] at hblank
  cases hblank

namespace Redactor

theorem redacted_cases (r : Redactor) (text : String) :
    r.redacted text = text ∨ '[' ∈ (r.redacted text).toList := by
  unfold redacted redactStr
  split
  · exact Or.inl rfl
  · rw [foldl_applyRule_fst]
    exact foldl_rewritten_cases r.rules text

theorem redacted_not_blank {r : Redactor} {text : String} (h : isBlank text = false) :
    isBlank (r.redacted text) = false := by
  rcases r.redacted_cases text with hsame | hmarked
  · rwa [hsame]
  · exact isBlank_eq_false_of_mem hmarked (by decide)

theorem redacted_ne_empty {r : Redactor} {text : String} (h : text ≠ "") :
    r.redacted text ≠ "" := by
  rcases r.redacted_cases text with hsame | hmarked
  · rwa [hsame]
  · intro hempty
    rw [hempty] at hmarked
    cases hmarked

end Redactor

/-!
# Redacting a request
-/

structure UpdateContextRequest where
  sessionId : Uuid
  interactionType : UpdateType
  content : UpdateContent
  entities : List EntityData
  relations : List EntityRelationship
  codeReference : Option CodeReference
  author : Option String
  derivedFrom : List String
  metadata : UpdateMeta
  deriving DecidableEq, Repr

def redactEach {item : Type} (redact : item -> RedactionCounts -> item × RedactionCounts) :
    List item -> RedactionCounts -> List item × RedactionCounts
  | [], counts => ([], counts)
  | x :: rest, counts =>
      let (x', counts) := redact x counts
      let (rest', counts) := redactEach redact rest counts
      (x' :: rest', counts)

namespace Redactor

def redactVec (r : Redactor) (items : List String) (counts : RedactionCounts) :
    List String × RedactionCounts :=
  redactEach r.redactStr items counts

def redactContent (r : Redactor) (c : UpdateContent) (counts : RedactionCounts) :
    UpdateContent × RedactionCounts :=
  let (title, counts) := r.redactStr c.title counts
  let (description, counts) := r.redactStr c.description counts
  let (details, counts) := r.redactVec c.details counts
  let (examples, counts) := r.redactVec c.examples counts
  let (implications, counts) := r.redactVec c.implications counts
  ({ title := title, description := description, details := details,
     examples := examples, implications := implications }, counts)

def redactEntity (r : Redactor) (e : EntityData) (counts : RedactionCounts) :
    EntityData × RedactionCounts :=
  let (name, counts) := r.redactStr e.name counts
  ({ e with name := name }, counts)

def redactRelation (r : Redactor) (rel : EntityRelationship) (counts : RedactionCounts) :
    EntityRelationship × RedactionCounts :=
  let (fromEntity, counts) := r.redactStr rel.fromEntity counts
  let (toEntity, counts) := r.redactStr rel.toEntity counts
  let (context, counts) := r.redactStr rel.context counts
  ({ rel with fromEntity := fromEntity, toEntity := toEntity, context := context }, counts)

def redactCode (r : Redactor) (code : CodeReference) (counts : RedactionCounts) :
    CodeReference × RedactionCounts :=
  let (codeSnippet, counts) := r.redactStr code.codeSnippet counts
  let (changeDescription, counts) := r.redactStr code.changeDescription counts
  ({ code with codeSnippet := codeSnippet, changeDescription := changeDescription },
    counts)

def redactRequest (r : Redactor) (req : UpdateContextRequest) :
    UpdateContextRequest × RedactionCounts :=
  if r.enabled = false then (req, ∅)
  else
    let (content, counts) := r.redactContent req.content ∅
    let (entities, counts) := redactEach r.redactEntity req.entities counts
    let (relations, counts) := redactEach r.redactRelation req.relations counts
    let (codeReference, counts) :=
      match req.codeReference with
      | some code =>
          let (code, counts) := r.redactCode code counts
          (some code, counts)
      | none => (none, counts)
    ({ req with content := content, entities := entities, relations := relations,
                codeReference := codeReference }, counts)

end Redactor

/-!
# Every text under one function
-/

section

variable (f : String -> String)

def mapContent (c : UpdateContent) : UpdateContent where
  title := f c.title
  description := f c.description
  details := c.details.map f
  examples := c.examples.map f
  implications := c.implications.map f

def mapRelation (rel : EntityRelationship) : EntityRelationship :=
  { rel with fromEntity := f rel.fromEntity
             toEntity := f rel.toEntity
             context := f rel.context }

def mapCode (code : CodeReference) : CodeReference :=
  { code with codeSnippet := f code.codeSnippet
              changeDescription := f code.changeDescription }

def mapRequest (req : UpdateContextRequest) : UpdateContextRequest :=
  { req with content := mapContent f req.content
             entities := req.entities.map (fun e => { e with name := f e.name })
             relations := req.relations.map (mapRelation f)
             codeReference := req.codeReference.map (mapCode f) }

end

theorem redactEach_fst {item : Type}
    {redact : item -> RedactionCounts -> item × RedactionCounts} {image : item -> item}
    (h : forall x counts, (redact x counts).1 = image x) (items : List item)
    (counts : RedactionCounts) :
    (redactEach redact items counts).1 = items.map image := by
  induction items generalizing counts with
  | nil => rfl
  | cons x rest ih =>
      rw [redactEach, List.map_cons, ← ih (redact x counts).2, ← h x counts]

theorem mapRequest_of_fixed {f : String -> String} (h : forall text, f text = text)
    (req : UpdateContextRequest) : mapRequest f req = req := by
  have hid : f = (fun text => text) := funext h
  subst hid
  have hcode : mapCode (fun text => text) = fun code => code := rfl
  have hrelation : mapRelation (fun text => text) = fun rel => rel := rfl
  have hcontent : forall c, mapContent (fun text => text) c = c := by
    intro c
    simp only [mapContent, List.map_id']
  rw [mapRequest, hcode, hrelation, hcontent]
  simp only [List.map_id', Option.map_id']

namespace Redactor

theorem redactContent_fst (r : Redactor) (c : UpdateContent) (counts : RedactionCounts) :
    (r.redactContent c counts).1 = mapContent r.redacted c := by
  simp only [redactContent, mapContent, redactVec, redactStr_fst,
    redactEach_fst r.redactStr_fst]

theorem redactRelation_fst (r : Redactor) (rel : EntityRelationship)
    (counts : RedactionCounts) :
    (r.redactRelation rel counts).1 = mapRelation r.redacted rel := by
  simp only [redactRelation, mapRelation, redactStr_fst]

theorem redactCode_fst (r : Redactor) (code : CodeReference) (counts : RedactionCounts) :
    (r.redactCode code counts).1 = mapCode r.redacted code := by
  simp only [redactCode, mapCode, redactStr_fst]

theorem redactRequest_fst (r : Redactor) (req : UpdateContextRequest) :
    (r.redactRequest req).1 = mapRequest r.redacted req := by
  have hentity : forall (e : EntityData) counts,
      (r.redactEntity e counts).1 = { e with name := r.redacted e.name } := by
    intro e counts
    simp only [redactEntity, redactStr_fst]
  unfold redactRequest
  split
  · next h => exact (mapRequest_of_fixed (redacted_of_disabled h) req).symm
  · cases hcode : req.codeReference with
    | none =>
        simp only [mapRequest, hcode, redactContent_fst, redactEach_fst hentity,
          redactEach_fst r.redactRelation_fst, Option.map_none]
    | some code =>
        simp only [mapRequest, hcode, redactContent_fst, redactEach_fst hentity,
          redactEach_fst r.redactRelation_fst, redactCode_fst, Option.map_some]

end Redactor

end Redaction
end Core
end PostCortex
