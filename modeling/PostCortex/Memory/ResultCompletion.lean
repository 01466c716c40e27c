import PostCortex.Graph.Temporal
import PostCortex.KeyValue.Firsts
import PostCortex.Storage.MessageStreams
import PostCortex.Vectors.Ingestion

/-!
# Completing search results

`memory_system/neighbours.rs` and `complete_message_results` of
`memory_system/messages.rs`: the hits of a search come back with the updates or turns
around them.  The arithmetic of scores is a parameter.  Arithmetic that overflows
panics, and so does an allocation of more than `isize::MAX` bytes; `resultSize` is the
size of a result.
-/

namespace PostCortex
namespace Memory
namespace Completion

open PostCortex.Core
open PostCortex.Graph
open PostCortex.Graph.Temporal
open PostCortex.KeyValue
open PostCortex.Numeric
open PostCortex.Session
open PostCortex.Storage
open PostCortex.Vectors

inductive ContentType where
  | updateContent
  | entityDescription
  | userMessage
  | decisionPoint
  | codeSnippet
  | problemSolution
  | sessionMetadata
  | message
  deriving DecidableEq, Repr

namespace ContentType

def importanceWeight : ContentType -> Rat
  | decisionPoint => 1
  | problemSolution => 9 / 10
  | userMessage => 8 / 10
  | updateContent => 7 / 10
  | codeSnippet => 6 / 10
  | entityDescription => 5 / 10
  | message => 4 / 10
  | sessionMetadata => 3 / 10

end ContentType

def determineContentType (update : ContextUpdate) : ContentType :=
  match update.updateType with
  | UpdateType.questionAnswered => ContentType.userMessage
  | UpdateType.problemSolved => ContentType.problemSolution
  | UpdateType.codeChanged => ContentType.codeSnippet
  | UpdateType.decisionMade => ContentType.decisionPoint
  | UpdateType.conceptDefined => ContentType.updateContent
  | UpdateType.requirementAdded => ContentType.updateContent

structure Scores (score : Type) where
  constant : Rat -> score
  times : score -> Rat -> score
  totalLe : score -> score -> Bool

structure SemanticSearchResult (score signals : Type) where
  contentId : String
  sessionId : Uuid
  contentType : ContentType
  textContent : String
  similarityScore : score
  importanceScore : score
  timestamp : Timestamp
  combinedScore : score
  neighbourOf : Option String
  author : Option String
  derivedFrom : List String
  validity : Option Validity
  confidence : Option Rat
  signals : Option signals
  deriving DecidableEq

def resultKey {score signals : Type} (r : SemanticSearchResult score signals) :
    Uuid × String :=
  (r.sessionId, r.contentId)

/-- `hit_at` and `hits`: the last of the results with a key. -/
def resultAt {score signals : Type} (results : List (SemanticSearchResult score signals))
    (key : Uuid × String) : Option (SemanticSearchResult score signals) :=
  results.reverse.find? (fun r => resultKey r = key)

abbrev Sessions : Type := Uuid -> Option ActiveSession

/-!
# Validity
-/

def endedFactor : Rat :=
  1 / 2

def confidenceFactor (c : Rat) : Rat :=
  1 / 2 + 1 / 2 * max 0 (min 1 c)

def endedExplicitly : EndReason -> Bool
  | EndReason.superseded => true
  | EndReason.contradicted => true
  | EndReason.forgotten => true
  | EndReason.restated => false
  | EndReason.duplicate => false

section

variable {score signals : Type} (scores : Scores score)

section

variable [WordTables] [UuidText] (sessions : Sessions)

def ended (session : ActiveSession) (id : Uuid) : Option Validity :=
  (validity session.incrementalUpdates session.entityGraph id).filter
    (fun v => !v.isCurrent)

/-- The body of the loop of `weigh_by_validity`, and whether it changes the score. -/
def weighHit (hit : SemanticSearchResult score signals) :
    SemanticSearchResult score signals × Bool :=
  match sessions hit.sessionId, UuidText.parseStr hit.contentId with
  | some session, Except.ok id =>
      match session.incrementalUpdates.find? (fun u => u.id = id) with
      | none => (hit, false)
      | some update =>
          let confidence := update.metadata.confidence
          let validity := ended session id
          let certain := confidence.elim hit.combinedScore
            (fun c => scores.times hit.combinedScore (confidenceFactor c))
          let explicit := validity.any (fun v => v.reason.any endedExplicitly)
          ({ hit with
              confidence := confidence
              validity := validity
              combinedScore :=
                if explicit then scores.times certain endedFactor else certain },
            confidence.isSome || explicit)
  | _, _ => (hit, false)

def weighByValidity (hits : List (SemanticSearchResult score signals)) :
    List (SemanticSearchResult score signals) :=
  let weighed := hits.map (weighHit scores sessions)
  if weighed.any Prod.snd then
    (weighed.map Prod.fst).mergeSort
      (fun a b => scores.totalLe b.combinedScore a.combinedScore)
  else weighed.map Prod.fst

/-!
# Completing update hits
-/

def positionOf (updates : List ContextUpdate) (id : Uuid) : Option Nat :=
  updates.zipIdx.foldl (fun found x => if x.1.id = id then some x.2 else found) none

def located (hit : SemanticSearchResult score signals) :
    Option (ActiveSession × Nat) :=
  match sessions hit.sessionId, UuidText.parseStr hit.contentId with
  | some session, Except.ok id =>
      (positionOf session.incrementalUpdates id).map (fun pos => (session, pos))
  | _, _ => none

def window (updates : List ContextUpdate) (pos radius : Nat) : List ContextUpdate :=
  (updates.drop (pos - radius)).take
    (min (pos + radius) (updates.length - 1) + 1 - (pos - radius))

def withFullText (hit : SemanticSearchResult score signals) (update : ContextUpdate) :
    SemanticSearchResult score signals :=
  let full := extractTextFromUpdate update
  { hit with
    derivedFrom := update.derivedFrom
    textContent :=
      if hit.textContent.utf8ByteSize < full.utf8ByteSize then full
      else hit.textContent }

def neighbour (update : ContextUpdate) (hit : SemanticSearchResult score signals) :
    SemanticSearchResult score signals where
  validity := none
  signals := none
  confidence := none
  contentId := UuidText.toText update.id
  sessionId := hit.sessionId
  importanceScore := scores.constant (determineContentType update).importanceWeight
  contentType := determineContentType update
  textContent := extractTextFromUpdate update
  similarityScore := scores.constant 0
  timestamp := update.timestamp
  combinedScore := hit.combinedScore
  neighbourOf := some hit.contentId
  author := update.author
  derivedFrom := update.derivedFrom

def updateResult (hits : List (SemanticSearchResult score signals))
    (hit : SemanticSearchResult score signals) (session : ActiveSession)
    (update : ContextUpdate) : SemanticSearchResult score signals :=
  match resultAt hits (hit.sessionId, UuidText.toText update.id) with
  | some own => withFullText own update
  | none =>
      { neighbour scores update hit with
        validity := ended session update.id
        confidence := update.metadata.confidence }

def updateResults (radius : Nat) (hits : List (SemanticSearchResult score signals))
    (hit : SemanticSearchResult score signals) :
    List (SemanticSearchResult score signals) :=
  match located sessions hit with
  | none => [hit]
  | some (session, pos) =>
      (window session.incrementalUpdates pos radius).map
        (updateResult scores hits hit session)

/-- `Vec::with_capacity(hits.len() * (2 * radius + 1))` does not panic. -/
def Reserves (resultSize hits radius : Nat) : Prop :=
  2 * radius + 1 < u64Values ∧ hits * (2 * radius + 1) < u64Values ∧
    hits * (2 * radius + 1) * resultSize < 9223372036854775808

instance (resultSize hits radius : Nat) : Decidable (Reserves resultSize hits radius) :=
  inferInstanceAs (Decidable (_ ∧ _ ∧ _))

/-- `complete_results`.  A position is below 2^60, so that its sum with a radius that
passed the allocation does not overflow. -/
def completeResults (resultSize radius : Nat)
    (hits : List (SemanticSearchResult score signals)) :
    Except Panic (List (SemanticSearchResult score signals)) :=
  let weighed := weighByValidity scores sessions hits
  if Reserves resultSize weighed.length radius then
    Except.ok (weighed.foldl
      (fun out hit =>
        emitAll resultKey (updateResults scores sessions radius weighed hit) out)
      ⟨[], []⟩).out
  else Except.error Panic.overflow

end

/-!
# Completing message hits
-/

def roleText : MessageRole -> String
  | MessageRole.user => "user"
  | MessageRole.assistant => "assistant"

def messageText (message : Message) : String :=
  roleText message.role ++ ": " ++ message.text

def messageNeighbour (message : Message) (hit : SemanticSearchResult score signals) :
    SemanticSearchResult score signals where
  validity := none
  signals := none
  confidence := none
  contentId := messageContentId message.seq
  sessionId := message.sessionId
  contentType := ContentType.message
  textContent := messageText message
  similarityScore := scores.constant 0
  importanceScore := scores.constant ContentType.message.importanceWeight
  timestamp := message.timestamp
  combinedScore := hit.combinedScore
  neighbourOf := some hit.contentId
  author := message.author
  derivedFrom := []

def seqOf (r : SemanticSearchResult score signals) : Option Nat :=
  if r.contentType = ContentType.message then seqOfContentId r.contentId else none

variable (streams : MessageStreams)

def turnsAround (radius : Nat) (sessionId : Uuid) (seq : Nat) : List Message :=
  (streams.load sessionId (seq - radius)
    (min (seq + (radius + 1)) (u64Values - 1))).toOption.getD []

def turnResult (results : List (SemanticSearchResult score signals))
    (hit : SemanticSearchResult score signals) (turn : Message) :
    SemanticSearchResult score signals :=
  { (resultAt results (hit.sessionId, messageContentId turn.seq)).getD
      (messageNeighbour scores turn hit) with
    textContent := messageText turn }

def turnResults (radius : Nat) (results : List (SemanticSearchResult score signals))
    (hit : SemanticSearchResult score signals) :
    List (SemanticSearchResult score signals) :=
  match seqOf hit with
  | none => [hit]
  | some seq =>
      let turns := turnsAround streams radius hit.sessionId seq
      (if turns.any (fun t => t.seq == seq) then [] else [hit]) ++
        turns.map (turnResult scores results hit)

def completeMessageResults (radius : Nat)
    (results : List (SemanticSearchResult score signals)) :
    Except Panic (List (SemanticSearchResult score signals)) :=
  if results.any (fun r => (seqOf r).isSome) then
    if radius + 1 < u64Values then
      Except.ok (results.foldl
        (fun out hit =>
          emitAll resultKey (turnResults scores streams radius results hit) out)
        ⟨[], []⟩).out
    else Except.error Panic.overflow
  else Except.ok results

end

/-!
# Completed results
-/

section

variable {score signals : Type}

def IsHit (hit item : SemanticSearchResult score signals) : Prop :=
  item = { hit with
    textContent := item.textContent
    derivedFrom := item.derivedFrom }

/-- `own` is a hit with its own scores, `reaches` says what lies within the radius of
a hit and `plain` which hits have nothing to be completed from. -/
structure Completed (hits : List (SemanticSearchResult score signals))
    (own : SemanticSearchResult score signals -> SemanticSearchResult score signals)
    (reaches : SemanticSearchResult score signals -> Uuid × String -> Prop)
    (plain : SemanticSearchResult score signals -> Prop)
    (out : List (SemanticSearchResult score signals)) : Prop where
  hit : forall h, h ∈ hits -> exists item, item ∈ out ∧ IsHit (own h) item
  once : (out.map resultKey).Nodup
  other : forall item, item ∈ out -> resultKey item ∉ hits.map resultKey ->
    exists h, h ∈ hits ∧ reaches h (resultKey item) ∧
      item.neighbourOf = some h.contentId ∧
      item.combinedScore = (own h).combinedScore
  present : forall h, h ∈ hits -> forall k, reaches h k -> k ∈ out.map resultKey
  plain : forall h, h ∈ hits -> plain h -> h ∈ out

theorem IsHit.key {hit item : SemanticSearchResult score signals}
    (h : IsHit hit item) : resultKey item = resultKey hit := by
  rw [h]
  rfl

theorem isHit_refl (hit : SemanticSearchResult score signals) : IsHit hit hit :=
  rfl

variable {results : List (SemanticSearchResult score signals)}
  {r : SemanticSearchResult score signals}

theorem resultAt_some {key : Uuid × String} (h : resultAt results key = some r) :
    r ∈ results ∧ resultKey r = key :=
  ⟨List.mem_reverse.mp (List.mem_of_find?_eq_some h),
    by simpa using List.find?_some h⟩

theorem resultAt_none {key : Uuid × String} (h : resultAt results key = none) :
    key ∉ results.map resultKey := by
  intro hmem
  obtain ⟨r, hr, hkey⟩ := List.mem_map.mp hmem
  have hnone := List.find?_eq_none.mp h r (List.mem_reverse.mpr hr)
  exact hnone (decide_eq_true hkey)

theorem resultAt_of_mem (hdistinct : (results.map resultKey).Nodup)
    (hr : r ∈ results) :
    resultAt results (resultKey r) = some r := by
  cases hfound : resultAt results (resultKey r) with
  | none => exact absurd (List.mem_map_of_mem hr) (resultAt_none hfound)
  | some found =>
      obtain ⟨hmem, hkey⟩ := resultAt_some hfound
      rw [List.inj_on_of_nodup_map hdistinct hmem hr hkey]

theorem completed_firsts {hits weighed : List (SemanticSearchResult score signals)}
    {own : SemanticSearchResult score signals -> SemanticSearchResult score signals}
    {reaches : SemanticSearchResult score signals -> Uuid × String -> Prop}
    {plain : SemanticSearchResult score signals -> Prop}
    {offers : SemanticSearchResult score signals ->
      List (SemanticSearchResult score signals)}
    (hweighed : forall w, w ∈ weighed ↔ exists h, h ∈ hits ∧ own h = w)
    (hsame : forall h, h ∈ hits -> forall w, w ∈ weighed ->
      forall item, item ∈ offers w -> resultKey item = resultKey h ->
        IsHit (own h) item)
    (hoffered : forall h, h ∈ hits -> exists w, w ∈ weighed ∧
      exists item, item ∈ offers w ∧ resultKey item = resultKey h)
    (hother : forall h, h ∈ hits -> forall item, item ∈ offers (own h) ->
      resultKey item ∉ hits.map resultKey ->
        reaches h (resultKey item) ∧ item.neighbourOf = some h.contentId ∧
          item.combinedScore = (own h).combinedScore)
    (hpresent : forall h, h ∈ hits -> forall k, reaches h k ->
      exists w, w ∈ weighed ∧ exists item, item ∈ offers w ∧ resultKey item = k)
    (hplain : forall h, h ∈ hits -> plain h ->
      h ∈ firsts resultKey (weighed.flatMap offers)) :
    Completed hits own reaches plain
      (firsts resultKey (weighed.flatMap offers)) where
  hit := by
    intro h hh
    obtain ⟨w, hw, item, hitem, hkey⟩ := hoffered h hh
    have hmem : resultKey h ∈ (firsts resultKey (weighed.flatMap offers)).map
        resultKey := by
      rw [mem_keys_firsts, ← hkey]
      exact List.mem_map_of_mem (List.mem_flatMap.mpr ⟨w, hw, hitem⟩)
    obtain ⟨found, hfound, heq⟩ := List.mem_map.mp hmem
    obtain ⟨v, hv, hoffer⟩ := List.mem_flatMap.mp (of_mem_firsts hfound)
    exact ⟨found, hfound, hsame h hh v hv found hoffer heq⟩
  once := nodup_firsts _
  other := by
    intro item hitem hnew
    obtain ⟨w, hw, hoffer⟩ := List.mem_flatMap.mp (of_mem_firsts hitem)
    obtain ⟨h, hh, rfl⟩ := (hweighed w).mp hw
    exact ⟨h, hh, hother h hh item hoffer hnew⟩
  present := by
    intro h hh k hk
    obtain ⟨w, hw, item, hitem, hkey⟩ := hpresent h hh k hk
    rw [mem_keys_firsts, ← hkey]
    exact List.mem_map_of_mem (List.mem_flatMap.mpr ⟨w, hw, hitem⟩)
  plain := hplain

end

/-!
# Update hits
-/

section

variable {score signals : Type} (scores : Scores score)
variable [WordTables] [UuidText] (sessions : Sessions)

omit [WordTables] [UuidText] in
theorem positionOf_spec (updates : List ContextUpdate) (id : Uuid) :
    (forall pos, positionOf updates id = some pos ->
      exists update, updates[pos]? = some update ∧ update.id = id) ∧
    (positionOf updates id = none -> forall u, u ∈ updates -> u.id ≠ id) := by
  induction updates using List.reverseRecOn with
  | nil =>
      constructor
      · intro pos h
        cases h
      · intro _ u hu
        cases hu
  | append_singleton updates last ih =>
      have hstep : positionOf (updates ++ [last]) id =
          if last.id = id then some updates.length else positionOf updates id := by
        rw [positionOf, List.zipIdx_append, List.foldl_append, positionOf]
        simp only [List.zipIdx_cons, List.zipIdx_nil, List.foldl_cons, List.foldl_nil,
          Nat.zero_add]
      rw [hstep]
      by_cases hlast : last.id = id
      · rw [if_pos hlast]
        constructor
        · intro pos h
          cases h
          exact ⟨last, List.getElem?_concat_length, hlast⟩
        · intro h
          cases h
      · rw [if_neg hlast]
        constructor
        · intro pos h
          obtain ⟨update, hget, hid⟩ := ih.1 pos h
          obtain ⟨hlt, _⟩ := List.getElem?_eq_some_iff.mp hget
          exact ⟨update, by rw [List.getElem?_append_left hlt, hget], hid⟩
        · intro h u hu
          rcases List.mem_append.mp hu with hu | hu
          · exact ih.2 h u hu
          · rw [List.mem_singleton.mp hu]
            exact hlast

variable {pos radius : Nat}

omit [WordTables] [UuidText] in
theorem mem_window {updates : List ContextUpdate} {u : ContextUpdate} :
    u ∈ window updates pos radius ↔
      exists q, updates[q]? = some u ∧ pos ≤ q + radius ∧ q ≤ pos + radius := by
  rw [window, List.mem_iff_getElem?]
  constructor
  · rintro ⟨i, hi⟩
    rw [List.getElem?_take] at hi
    split at hi
    · next hlt =>
      rw [List.getElem?_drop] at hi
      exact ⟨pos - radius + i, hi, by omega, by omega⟩
    · cases hi
  · rintro ⟨q, hq, hfrom, hto⟩
    obtain ⟨hlt, _⟩ := List.getElem?_eq_some_iff.mp hq
    refine ⟨q - (pos - radius), ?_⟩
    rw [List.getElem?_take, if_pos (by omega), List.getElem?_drop,
      show pos - radius + (q - (pos - radius)) = q by omega, hq]

/-- The update that a hit is, and where it is in its session. -/
structure Locates (hit : SemanticSearchResult score signals) (session : ActiveSession)
    (pos : Nat) (update : ContextUpdate) : Prop where
  stored : sessions hit.sessionId = some session
  parsed : UuidText.parseStr hit.contentId = Except.ok update.id
  update : session.incrementalUpdates[pos]? = some update

variable {sessions}

variable {hit : SemanticSearchResult score signals} {session : ActiveSession}

omit [WordTables] in
theorem locates_of_some (h : located sessions hit = some (session, pos)) :
    exists update, Locates sessions hit session pos update := by
  unfold located at h
  split at h
  · next found id hsession hparse =>
    rw [Option.map_eq_some_iff] at h
    obtain ⟨p, hp, hpair⟩ := h
    cases hpair
    obtain ⟨update, hget, hid⟩ :=
      (positionOf_spec session.incrementalUpdates id).1 pos hp
    exact ⟨update, hsession, hid ▸ hparse, hget⟩
  · cases h

omit [WordTables] in
theorem located_none (h : located sessions hit = none) {id : Uuid}
    (hsession : sessions hit.sessionId = some session)
    (hparse : UuidText.parseStr hit.contentId = Except.ok id) :
    forall u, u ∈ session.incrementalUpdates -> u.id ≠ id := by
  unfold located at h
  rw [hsession, hparse] at h
  exact (positionOf_spec session.incrementalUpdates id).2 (Option.map_eq_none_iff.mp h)

omit [WordTables] in
theorem located_congr {a b : SemanticSearchResult score signals}
    (h : resultKey a = resultKey b) : located sessions a = located sessions b := by
  obtain ⟨hsession, hcontent⟩ := Prod.mk.inj h
  rw [located, located, hsession, hcontent]

variable (sessions)

theorem weighHit_spec (hit : SemanticSearchResult score signals) :
    resultKey (weighHit scores sessions hit).1 = resultKey hit ∧
      (located sessions hit = none -> (weighHit scores sessions hit).1 = hit) := by
  unfold weighHit
  split
  · next session id hsession hparse =>
    split
    · exact ⟨rfl, fun _ => rfl⟩
    · next update hfind =>
      refine ⟨rfl, fun hnone => ?_⟩
      have hmem := List.mem_of_find?_eq_some hfind
      have hid : update.id = id := by simpa using List.find?_some hfind
      exact absurd hid (located_none hnone hsession hparse update hmem)
  · exact ⟨rfl, fun _ => rfl⟩

def weighed (hit : SemanticSearchResult score signals) :
    SemanticSearchResult score signals :=
  (weighHit scores sessions hit).1

theorem weighByValidity_perm (hits : List (SemanticSearchResult score signals)) :
    (weighByValidity scores sessions hits).Perm
      (hits.map (weighed scores sessions)) := by
  have hmap : (hits.map (weighHit scores sessions)).map Prod.fst =
      hits.map (weighed scores sessions) := by
    rw [List.map_map]
    rfl
  unfold weighByValidity
  dsimp only
  rw [hmap]
  split
  · exact List.mergeSort_perm _ _
  · exact List.Perm.refl _

theorem key_weighed (hit : SemanticSearchResult score signals) :
    resultKey (weighed scores sessions hit) = resultKey hit :=
  (weighHit_spec scores sessions hit).1

variable {hits : List (SemanticSearchResult score signals)}

theorem keys_weighByValidity (hdistinct : (hits.map resultKey).Nodup) :
    ((weighByValidity scores sessions hits).map resultKey).Nodup := by
  have hkeys : (hits.map (weighed scores sessions)).map resultKey =
      hits.map resultKey := by
    rw [List.map_map]
    exact List.map_congr_left (fun h _ => key_weighed scores sessions h)
  rw [((weighByValidity_perm scores sessions hits).map resultKey).nodup_iff, hkeys]
  exact hdistinct

def ReachesUpdate (radius : Nat) (hit : SemanticSearchResult score signals)
    (k : Uuid × String) : Prop :=
  exists session pos q update, located sessions hit = some (session, pos) ∧
    session.incrementalUpdates[q]? = some update ∧
      pos ≤ q + radius ∧ q ≤ pos + radius ∧
        k = (hit.sessionId, UuidText.toText update.id)

def Printed (contentId : String) : Prop :=
  exists id, contentId = UuidText.toText id

theorem key_updateResult (hits : List (SemanticSearchResult score signals))
    (hit : SemanticSearchResult score signals) (session : ActiveSession)
    (update : ContextUpdate) :
    resultKey (updateResult scores hits hit session update) =
      (hit.sessionId, UuidText.toText update.id) := by
  unfold updateResult
  cases hfound : resultAt hits (hit.sessionId, UuidText.toText update.id) with
  | none => rfl
  | some own => exact (resultAt_some hfound).2

variable {item : SemanticSearchResult score signals}

theorem mem_updateResults :
    item ∈ updateResults scores sessions radius hits hit ↔
      (located sessions hit = none ∧ item = hit) ∨
      exists session pos q update, located sessions hit = some (session, pos) ∧
        session.incrementalUpdates[q]? = some update ∧
          pos ≤ q + radius ∧ q ≤ pos + radius ∧
            item = updateResult scores hits hit session update := by
  unfold updateResults
  cases hlocated : located sessions hit with
  | none =>
      constructor
      · intro h
        exact Or.inl ⟨rfl, List.mem_singleton.mp h⟩
      · rintro (⟨_, rfl⟩ | ⟨_, _, _, _, hsome, _⟩)
        · exact List.mem_singleton.mpr rfl
        · cases hsome
  | some found =>
      rw [List.mem_map]
      constructor
      · rintro ⟨update, hmem, rfl⟩
        obtain ⟨q, hq, hfrom, hto⟩ := mem_window.mp hmem
        exact Or.inr ⟨found.1, found.2, q, update, rfl, hq, hfrom, hto, rfl⟩
      · rintro (⟨hnone, _⟩ | ⟨session, pos, q, update, hsome, hq, hfrom, hto, rfl⟩)
        · cases hnone
        · cases hsome
          exact ⟨update, mem_window.mpr ⟨q, hq, hfrom, hto⟩, rfl⟩

theorem located_weighed (hit : SemanticSearchResult score signals) :
    located sessions (weighed scores sessions hit) = located sessions hit :=
  located_congr (key_weighed scores sessions hit)

variable {scores sessions}

variable [LawfulUuidText]

theorem Locates.offered {update : ContextUpdate}
    (h : Locates sessions hit session pos update)
    (hlocated : located sessions hit = some (session, pos))
    (hprinted : Printed hit.contentId) :
    updateResult scores hits hit session update ∈
        updateResults scores sessions radius hits hit ∧
      resultKey (updateResult scores hits hit session update) = resultKey hit := by
  obtain ⟨id, hid⟩ := hprinted
  have hsame : id = update.id := by
    have hparsed := h.parsed
    rw [hid, LawfulUuidText.parse_toText] at hparsed
    exact Except.ok.inj hparsed
  constructor
  · exact (mem_updateResults scores sessions).mpr (Or.inr
      ⟨session, pos, pos, update, hlocated, h.update, by omega, by omega, rfl⟩)
  · rw [key_updateResult, ← hsame, ← hid]
    rfl

theorem updateResults_same (hdistinct : (hits.map resultKey).Nodup)
    {h w : SemanticSearchResult score signals} (hh : h ∈ hits) (hw : w ∈ hits)
    (hitem : item ∈ updateResults scores sessions radius hits w)
    (hkey : resultKey item = resultKey h) :
    IsHit h item ∧ (located sessions h = none -> item = h) := by
  rcases (mem_updateResults scores sessions).mp hitem with
    ⟨_, rfl⟩ | ⟨session, pos, q, update, hlocated, hq, _, _, rfl⟩
  · have hsame : item = h := List.inj_on_of_nodup_map hdistinct hw hh hkey
    exact ⟨hsame ▸ isHit_refl item, fun _ => hsame⟩
  · rw [key_updateResult] at hkey
    have hfound := resultAt_of_mem hdistinct hh
    rw [← hkey] at hfound
    constructor
    · rw [updateResult, hfound]
      rfl
    · intro hnone
      obtain ⟨own, hown⟩ := locates_of_some hlocated
      obtain ⟨hsession, hcontent⟩ := Prod.mk.inj hkey
      have hparse : UuidText.parseStr h.contentId = Except.ok update.id := by
        rw [← hcontent, LawfulUuidText.parse_toText]
      have hstored : sessions h.sessionId = some session := by
        rw [← hsession]
        exact hown.stored
      exact absurd rfl
        (located_none hnone hstored hparse update (List.mem_of_getElem? hq))

theorem updates_completed_iff (hdistinct : (hits.map resultKey).Nodup) :
    Completed hits (weighed scores sessions) (ReachesUpdate sessions radius)
        (fun h => located sessions h = none)
        (firsts resultKey ((weighByValidity scores sessions hits).flatMap
          (updateResults scores sessions radius
            (weighByValidity scores sessions hits)))) ↔
      forall h, h ∈ hits -> (located sessions h).isSome = true ->
        Printed h.contentId := by
  have hkeys := keys_weighByValidity scores sessions hdistinct
  have hmem : forall w, w ∈ weighByValidity scores sessions hits ↔
      exists h, h ∈ hits ∧ weighed scores sessions h = w := by
    intro w
    rw [(weighByValidity_perm scores sessions hits).mem_iff, List.mem_map]
  have hown : forall h, h ∈ hits ->
      weighed scores sessions h ∈ weighByValidity scores sessions hits :=
    fun h hh => (hmem _).mpr ⟨h, hh, rfl⟩
  constructor
  · intro hcompleted h hh hsome
    obtain ⟨item, hitem, hishit⟩ := hcompleted.hit h hh
    have hkey := hishit.key.trans (key_weighed scores sessions h)
    obtain ⟨w, hw, hoffer⟩ := List.mem_flatMap.mp (of_mem_firsts hitem)
    rcases (mem_updateResults scores sessions).mp hoffer with
      ⟨hnone, rfl⟩ | ⟨session, pos, q, update, _, _, _, _, rfl⟩
    · rw [located_congr hkey] at hnone
      rw [hnone] at hsome
      cases hsome
    · rw [key_updateResult] at hkey
      exact ⟨update.id, (Prod.mk.inj hkey).2.symm⟩
  · intro hprinted
    have hoffered : forall h, h ∈ hits ->
        exists w, w ∈ weighByValidity scores sessions hits ∧
          exists item, item ∈ updateResults scores sessions radius
              (weighByValidity scores sessions hits) w ∧
            resultKey item = resultKey h := by
      intro h hh
      refine ⟨weighed scores sessions h, hown h hh, ?_⟩
      cases hlocated : located sessions (weighed scores sessions h) with
      | none =>
          exact ⟨_, (mem_updateResults scores sessions).mpr (Or.inl ⟨hlocated, rfl⟩),
            key_weighed scores sessions h⟩
      | some found =>
          obtain ⟨update, hupdate⟩ := locates_of_some hlocated
          have hid : (weighed scores sessions h).contentId = h.contentId :=
            (Prod.mk.inj (key_weighed scores sessions h)).2
          have hsome : (located sessions h).isSome = true := by
            rw [← located_weighed scores sessions, hlocated]
            rfl
          obtain ⟨hoffer, hkey⟩ := hupdate.offered hlocated
            (hid.symm ▸ hprinted h hh hsome)
          exact ⟨_, hoffer, hkey.trans (key_weighed scores sessions h)⟩
    apply completed_firsts hmem
    · intro h hh w hw item hitem hkey
      exact (updateResults_same hkeys (hown h hh) hw hitem
        (hkey.trans (key_weighed scores sessions h).symm)).1
    · exact hoffered
    · intro h hh item hitem hnew
      rcases (mem_updateResults scores sessions).mp hitem with
        ⟨_, rfl⟩ | ⟨session, pos, q, update, hlocated, hq, hfrom, hto, rfl⟩
      · rw [key_weighed] at hnew
        exact absurd (List.mem_map_of_mem hh) hnew
      · obtain ⟨hsession, hcontent⟩ := Prod.mk.inj (key_weighed scores sessions h)
        rw [key_updateResult] at hnew ⊢
        rw [located_weighed] at hlocated
        cases hfound : resultAt (weighByValidity scores sessions hits)
            ((weighed scores sessions h).sessionId, UuidText.toText update.id) with
        | some own =>
            obtain ⟨hin, hkey⟩ := resultAt_some hfound
            obtain ⟨other, hother, rfl⟩ := (hmem own).mp hin
            rw [← hkey, key_weighed] at hnew
            exact absurd (List.mem_map_of_mem hother) hnew
        | none =>
            rw [updateResult, hfound]
            refine ⟨⟨session, pos, q, update, hlocated, hq, hfrom, hto, ?_⟩,
              congrArg some hcontent, rfl⟩
            rw [hsession]
    · rintro h hh k ⟨session, pos, q, update, hlocated, hq, hfrom, hto, rfl⟩
      refine ⟨weighed scores sessions h, hown h hh,
        updateResult scores (weighByValidity scores sessions hits)
          (weighed scores sessions h) session update, ?_, ?_⟩
      · rw [← located_weighed scores sessions] at hlocated
        exact (mem_updateResults scores sessions).mpr
          (Or.inr ⟨session, pos, q, update, hlocated, hq, hfrom, hto, rfl⟩)
      · rw [key_updateResult, (Prod.mk.inj (key_weighed scores sessions h)).1]
    · intro h hh hnone
      have hself : weighed scores sessions h = h :=
        (weighHit_spec scores sessions h).2 hnone
      have hin := hown h hh
      rw [hself] at hin
      apply mem_firsts_of_unique
      · exact List.mem_flatMap.mpr
          ⟨h, hin, (mem_updateResults scores sessions).mpr (Or.inl ⟨hnone, rfl⟩)⟩
      · intro y hy hkey
        obtain ⟨w, hw, hoffer⟩ := List.mem_flatMap.mp hy
        exact (updateResults_same hkeys hin hw hoffer hkey).2 hnone

end

/-!
# Message hits
-/

section

variable {score signals : Type} {scores : Scores score} {streams : MessageStreams}

variable {radius seq : Nat}

theorem mem_turnsAround {sessionId : Uuid} {t : Message} :
    t ∈ turnsAround streams radius sessionId seq ↔
      streams.Stores sessionId t ∧ seq ≤ t.seq + radius ∧ t.seq ≤ seq + radius ∧
        t.seq < u64Values - 1 := by
  unfold turnsAround
  cases hload : streams.load sessionId (seq - radius)
      (min (seq + (radius + 1)) (u64Values - 1)) with
  | error e =>
      constructor
      · intro h
        cases h
      · rintro ⟨hstores, _⟩
        obtain ⟨loaded, hok⟩ :=
          hstores.load (seq - radius) (min (seq + (radius + 1)) (u64Values - 1))
        rw [hload] at hok
        cases hok
  | ok loaded =>
      have hmem := @MessageStreams.mem_load streams sessionId _ _ loaded hload t
      have hloaded : (Except.ok loaded : Except String (List Message)).toOption.getD []
          = loaded := rfl
      rw [hloaded, hmem]
      constructor
      · rintro ⟨hstores, hfrom, hto⟩
        exact ⟨hstores, by omega, by omega, by omega⟩
      · rintro ⟨hstores, hfrom, hto, hlast⟩
        exact ⟨hstores, by omega, by omega⟩

variable (scores)

theorem key_turnResult (results : List (SemanticSearchResult score signals))
    (hit : SemanticSearchResult score signals) {turn : Message}
    (hsession : turn.sessionId = hit.sessionId) :
    resultKey (turnResult scores results hit turn) =
      (hit.sessionId, messageContentId turn.seq) := by
  unfold turnResult
  cases hfound : resultAt results (hit.sessionId, messageContentId turn.seq) with
  | none =>
      have hkey : (turn.sessionId, messageContentId turn.seq) =
          (hit.sessionId, messageContentId turn.seq) := by
        rw [hsession]
      exact hkey
  | some own => exact (resultAt_some hfound).2

variable {results : List (SemanticSearchResult score signals)}
  {hit item : SemanticSearchResult score signals}

theorem mem_turnResults :
    item ∈ turnResults scores streams radius results hit ↔
      (item = hit ∧ forall seq, seqOf hit = some seq ->
        forall t, t ∈ turnsAround streams radius hit.sessionId seq -> t.seq ≠ seq) ∨
      exists seq t, seqOf hit = some seq ∧
        t ∈ turnsAround streams radius hit.sessionId seq ∧
          item = turnResult scores results hit t := by
  unfold turnResults
  cases hseq : seqOf hit with
  | none =>
      constructor
      · intro h
        refine Or.inl ⟨List.mem_singleton.mp h, ?_⟩
        intro seq hsome
        cases hsome
      · rintro (⟨rfl, _⟩ | ⟨_, _, hsome, _⟩)
        · exact List.mem_singleton.mpr rfl
        · cases hsome
  | some seq =>
      dsimp only
      rw [List.mem_append, List.mem_map]
      constructor
      · rintro (h | ⟨t, ht, rfl⟩)
        · split at h
          · cases h
          · next hany =>
            refine Or.inl ⟨List.mem_singleton.mp h, ?_⟩
            intro other hother t ht heq
            cases hother
            exact hany (List.any_eq_true.mpr ⟨t, ht, beq_iff_eq.mpr heq⟩)
        · exact Or.inr ⟨seq, t, rfl, ht, rfl⟩
      · rintro (⟨rfl, hfree⟩ | ⟨other, t, hother, ht, rfl⟩)
        · left
          rw [if_neg]
          · exact List.mem_singleton.mpr rfl
          · intro hany
            obtain ⟨t, ht, heq⟩ := List.any_eq_true.mp hany
            exact hfree seq rfl t ht (beq_iff_eq.mp heq)
        · cases hother
          exact Or.inr ⟨t, ht, rfl⟩

variable (streams)

def ReachesTurn (radius : Nat) (hit : SemanticSearchResult score signals)
    (k : Uuid × String) : Prop :=
  exists seq t, seqOf hit = some seq ∧ streams.Stores hit.sessionId t ∧
    seq ≤ t.seq + radius ∧ t.seq ≤ seq + radius ∧
      k = (hit.sessionId, messageContentId t.seq)

/-- The hit is not of a turn that `around` reads, unless it has the turn's text. -/
def Undisturbed (radius : Nat) (around hit : SemanticSearchResult score signals) :
    Prop :=
  seqOf hit = none -> around.sessionId = hit.sessionId ->
    forall seq, seqOf around = some seq ->
      forall t, t ∈ turnsAround streams radius around.sessionId seq ->
        messageContentId t.seq = hit.contentId -> messageText t = hit.textContent

/-- When message hits are completed: the ids of the hits whose turns are read are
those of their turns, no turn that is read has the id of another kind of hit after it,
and a turn at the last position of all is around none of the hits. -/
structure Completable (radius : Nat)
    (results : List (SemanticSearchResult score signals)) : Prop where
  fits : forall h, h ∈ results -> (seqOf h).isSome = true -> radius + 1 < u64Values
  named : forall h, h ∈ results -> forall seq, seqOf h = some seq ->
    forall t, t ∈ turnsAround streams radius h.sessionId seq -> t.seq = seq ->
      h.contentId = messageContentId seq
  undisturbed : results.Pairwise (Undisturbed streams radius)
  inside : forall h, h ∈ results -> forall seq, seqOf h = some seq ->
    forall t, streams.Stores h.sessionId t -> seq ≤ t.seq + radius ->
      t.seq ≤ seq + radius -> t.seq = u64Values - 1 ->
        (h.sessionId, messageContentId t.seq) ∈ results.map resultKey

variable {scores streams}

theorem seqOf_eq (h : seqOf hit = some seq) :
    seqOfContentId hit.contentId = some seq := by
  unfold seqOf at h
  split at h
  · exact h
  · cases h

theorem key_offered {t : Message}
    (ht : t ∈ turnsAround streams radius hit.sessionId seq) :
    resultKey (turnResult scores results hit t) =
      (hit.sessionId, messageContentId t.seq) :=
  key_turnResult scores results hit (mem_turnsAround.mp ht).1.own

variable {h : SemanticSearchResult score signals}

theorem turnResults_same (hdistinct : (results.map resultKey).Nodup)
    {w : SemanticSearchResult score signals} (hh : h ∈ results) (hw : w ∈ results)
    (hitem : item ∈ turnResults scores streams radius results w)
    (hkey : resultKey item = resultKey h) :
    item = h ∨ exists seq t, seqOf w = some seq ∧
      t ∈ turnsAround streams radius w.sessionId seq ∧ w.sessionId = h.sessionId ∧
        messageContentId t.seq = h.contentId ∧
          item = { h with textContent := messageText t } := by
  rcases (mem_turnResults scores).mp hitem with ⟨rfl, _⟩ | ⟨seq, t, hseq, ht, rfl⟩
  · exact Or.inl (List.inj_on_of_nodup_map hdistinct hw hh hkey)
  · rw [key_offered ht] at hkey
    obtain ⟨hsession, hcontent⟩ := Prod.mk.inj hkey
    refine Or.inr ⟨seq, t, hseq, ht, hsession, hcontent, ?_⟩
    rw [turnResult, hkey, resultAt_of_mem hdistinct hh]
    rfl

theorem pairwise_of_split {item : Type} {r : item -> item -> Prop} {l : List item}
    (h : forall before x after, l = before ++ x :: after ->
      forall y, y ∈ before -> r y x) :
    l.Pairwise r := by
  induction l using List.reverseRecOn with
  | nil => exact List.Pairwise.nil
  | append_singleton l last ih =>
      refine List.pairwise_append.mpr ⟨ih ?_, List.pairwise_singleton _ _, ?_⟩
      · intro before x after hsplit
        refine h before x (after ++ [last]) ?_
        rw [hsplit, List.append_assoc, List.cons_append]
      · intro y hy x hx
        rw [List.mem_singleton.mp hx]
        exact h l last [] rfl y hy

theorem mem_firsts_plain (hdistinct : (results.map resultKey).Nodup)
    (hundisturbed : results.Pairwise (Undisturbed streams radius))
    (hh : h ∈ results) (hplain : seqOf h = none) :
    h ∈ firsts resultKey
      (results.flatMap (turnResults scores streams radius results)) := by
  obtain ⟨before, after, hsplit⟩ := List.append_of_mem hh
  have hoffers : turnResults scores streams radius results h = [h] := by
    rw [turnResults, hplain]
  rw [mem_firsts]
  conv => lhs; rw [hsplit]
  rw [List.flatMap_append, List.flatMap_cons, ← hsplit, hoffers, List.find?_append]
  cases hfound : (before.flatMap (turnResults scores streams radius results)).find?
      (fun y => resultKey y = resultKey h) with
  | none =>
      rw [Option.none_or, List.singleton_append, List.find?_cons_of_pos]
      exact decide_eq_true rfl
  | some y =>
      have hkey : resultKey y = resultKey h := by simpa using List.find?_some hfound
      obtain ⟨w, hw, hoffer⟩ := List.mem_flatMap.mp (List.mem_of_find?_eq_some hfound)
      have hmem : w ∈ results := by
        rw [hsplit]
        exact List.mem_append_left _ hw
      have hbefore : Undisturbed streams radius w h := by
        rw [hsplit, List.pairwise_append] at hundisturbed
        exact hundisturbed.2.2 w hw h List.mem_cons_self
      rw [Option.some_or]
      rcases turnResults_same hdistinct hh hmem hoffer hkey with
        rfl | ⟨seq, t, hseq, ht, hsession, hcontent, rfl⟩
      · rfl
      · rw [hbefore hplain hsession seq hseq t ht hcontent]

theorem undisturbed_of_mem (hdistinct : (results.map resultKey).Nodup)
    (hplain : forall h, h ∈ results -> seqOf h = none ->
      h ∈ firsts resultKey
        (results.flatMap (turnResults scores streams radius results))) :
    results.Pairwise (Undisturbed streams radius) := by
  apply pairwise_of_split
  intro before h after hsplit m hm hnone hsession seq hseq t ht hcontent
  have hh : h ∈ results := by
    rw [hsplit]
    exact List.mem_append_right _ List.mem_cons_self
  have hmem : forall w, w ∈ before -> w ∈ results := by
    intro w hw
    rw [hsplit]
    exact List.mem_append_left _ hw
  have hfirst := mem_firsts.mp (hplain h hh hnone)
  conv at hfirst => lhs; rw [hsplit]
  rw [List.flatMap_append, ← hsplit, List.find?_append] at hfirst
  cases hfound : (before.flatMap (turnResults scores streams radius results)).find?
      (fun y => resultKey y = resultKey h) with
  | none =>
      have hoffer : turnResult scores results m t ∈
          before.flatMap (turnResults scores streams radius results) :=
        List.mem_flatMap.mpr ⟨m, hm,
          (mem_turnResults scores).mpr (Or.inr ⟨seq, t, hseq, ht, rfl⟩)⟩
      have hkey : resultKey (turnResult scores results m t) = resultKey h := by
        rw [key_offered ht, hsession, hcontent]
        rfl
      exact absurd (decide_eq_true hkey) (List.find?_eq_none.mp hfound _ hoffer)
  | some y =>
      rw [hfound, Option.some_or] at hfirst
      cases hfirst
      have hfresh : resultKey h ∉ before.map resultKey := by
        intro hin
        rw [hsplit, List.map_append, List.nodup_append] at hdistinct
        exact hdistinct.2.2 _ hin _ List.mem_cons_self rfl
      obtain ⟨w, hw, hoffer⟩ := List.mem_flatMap.mp (List.mem_of_find?_eq_some hfound)
      rcases (mem_turnResults scores).mp hoffer with ⟨rfl, _⟩ | ⟨seq', t', hseq', ht', heq⟩
      · exact absurd (List.mem_map_of_mem hw) hfresh
      · have hkey := congrArg resultKey heq
        rw [key_offered ht'] at hkey
        obtain ⟨hsession', hcontent'⟩ := Prod.mk.inj hkey
        have hsame : t.seq = t'.seq :=
          messageContentId_inj (hcontent.trans hcontent')
        have hstores' := (mem_turnsAround.mp ht').1
        rw [← hsession', ← hsession] at hstores'
        rw [(mem_turnsAround.mp ht).1.unique hstores' hsame, heq]
        rfl

theorem Completable.offered (hcompletable : Completable streams radius results)
    (hh : h ∈ results) :
    exists w, w ∈ results ∧
      exists item, item ∈ turnResults scores streams radius results w ∧
        resultKey item = resultKey h := by
  by_cases hown : exists seq t, seqOf h = some seq ∧
      t ∈ turnsAround streams radius h.sessionId seq ∧ t.seq = seq
  · obtain ⟨seq, t, hseq, ht, htseq⟩ := hown
    refine ⟨h, hh, turnResult scores results h t,
      (mem_turnResults scores).mpr (Or.inr ⟨seq, t, hseq, ht, rfl⟩), ?_⟩
    rw [key_offered ht, htseq, ← hcompletable.named h hh seq hseq t ht htseq]
    rfl
  · refine ⟨h, hh, h, (mem_turnResults scores).mpr (Or.inl ⟨rfl, ?_⟩), rfl⟩
    intro seq hseq t ht htseq
    exact hown ⟨seq, t, hseq, ht, htseq⟩

theorem Completable.completed (hdistinct : (results.map resultKey).Nodup)
    (hcompletable : Completable streams radius results) :
    Completed results id (ReachesTurn streams radius) (fun h => seqOf h = none)
      (firsts resultKey
        (results.flatMap (turnResults scores streams radius results))) := by
  apply completed_firsts
  · intro w
    constructor
    · exact fun hw => ⟨w, hw, rfl⟩
    · rintro ⟨h, hh, rfl⟩
      exact hh
  · intro h hh w hw item hitem hkey
    rcases turnResults_same hdistinct hh hw hitem hkey with
      rfl | ⟨_, _, _, _, _, _, rfl⟩
    · exact isHit_refl item
    · rfl
  · exact fun h hh => hcompletable.offered hh
  · intro h hh item hitem hnew
    rw [id_eq] at hitem
    rcases (mem_turnResults scores).mp hitem with ⟨rfl, _⟩ | ⟨seq, t, hseq, ht, rfl⟩
    · exact absurd (List.mem_map_of_mem hh) hnew
    · rw [key_offered ht] at hnew ⊢
      obtain ⟨hstores, hfrom, hto, _⟩ := mem_turnsAround.mp ht
      have hnone : resultAt results (h.sessionId, messageContentId t.seq) = none := by
        cases hfound : resultAt results (h.sessionId, messageContentId t.seq) with
        | none => rfl
        | some own =>
            obtain ⟨hin, hkey⟩ := resultAt_some hfound
            rw [← hkey] at hnew
            exact absurd (List.mem_map_of_mem hin) hnew
      have hfresh : turnResult scores results h t = messageNeighbour scores t h := by
        rw [turnResult, hnone]
        rfl
      rw [hfresh]
      exact ⟨⟨seq, t, hseq, hstores, hfrom, hto, rfl⟩, rfl, rfl⟩
  · rintro h hh k ⟨seq, t, hseq, hstores, hfrom, hto, rfl⟩
    have hbound := hstores.fits
    by_cases hlast : t.seq = u64Values - 1
    · obtain ⟨other, hother, hkey⟩ := List.mem_map.mp
        (hcompletable.inside h hh seq hseq t hstores hfrom hto hlast)
      obtain ⟨w, hw, item, hitem, heq⟩ := hcompletable.offered hother
      exact ⟨w, hw, item, hitem, heq.trans hkey⟩
    · have ht : t ∈ turnsAround streams radius h.sessionId seq :=
        mem_turnsAround.mpr ⟨hstores, hfrom, hto, by omega⟩
      exact ⟨h, hh, turnResult scores results h t,
        (mem_turnResults scores).mpr (Or.inr ⟨seq, t, hseq, ht, rfl⟩), key_offered ht⟩
  · exact fun h hh hplain =>
      mem_firsts_plain hdistinct hcompletable.undisturbed hh hplain

theorem completable_of_completed (hdistinct : (results.map resultKey).Nodup)
    (hfits : radius + 1 < u64Values)
    (hcompleted : Completed results id (ReachesTurn streams radius)
      (fun h => seqOf h = none)
      (firsts resultKey
        (results.flatMap (turnResults scores streams radius results)))) :
    Completable streams radius results where
  fits := fun _ _ _ => hfits
  named := by
    intro h hh seq hseq t ht htseq
    obtain ⟨item, hitem, hishit⟩ := hcompleted.hit h hh
    have hkey := hishit.key
    obtain ⟨w, hw, hoffer⟩ := List.mem_flatMap.mp (of_mem_firsts hitem)
    rcases (mem_turnResults scores).mp hoffer with
      ⟨rfl, hfree⟩ | ⟨seq', t', _, ht', rfl⟩
    · have hsame := List.inj_on_of_nodup_map hdistinct hw hh hkey
      rw [hsame] at hfree
      exact absurd htseq (hfree seq hseq t ht)
    · rw [key_offered ht'] at hkey
      have hcontent : h.contentId = messageContentId t'.seq := (Prod.mk.inj hkey).2.symm
      have hread := seqOf_eq hseq
      rw [hcontent, seqOf_messageContentId (mem_turnsAround.mp ht').1.fits] at hread
      rw [hcontent, Option.some.inj hread]
  undisturbed := undisturbed_of_mem hdistinct hcompleted.plain
  inside := by
    intro h hh seq hseq t ht hfrom hto hlast
    have hpresent := hcompleted.present h hh _ ⟨seq, t, hseq, ht, hfrom, hto, rfl⟩
    obtain ⟨item, hitem, hkey⟩ := List.mem_map.mp hpresent
    obtain ⟨w, hw, hoffer⟩ := List.mem_flatMap.mp (of_mem_firsts hitem)
    rcases (mem_turnResults scores).mp hoffer with
      ⟨rfl, _⟩ | ⟨seq', t', _, ht', rfl⟩
    · rw [← hkey]
      exact List.mem_map_of_mem hw
    · rw [key_offered ht'] at hkey
      have hsame := messageContentId_inj (Prod.mk.inj hkey).2
      have hbelow := (mem_turnsAround.mp ht').2.2.2
      omega

theorem completed_self (hdistinct : (results.map resultKey).Nodup)
    (hnone : forall h, h ∈ results -> seqOf h = none) :
    Completed results id (ReachesTurn streams radius) (fun h => seqOf h = none)
      results where
  hit := fun h hh => ⟨h, hh, isHit_refl h⟩
  once := hdistinct
  other := fun _ hitem hnew => absurd (List.mem_map_of_mem hitem) hnew
  present := by
    rintro h hh k ⟨seq, t, hseq, _⟩
    rw [hnone h hh] at hseq
    cases hseq
  plain := fun _ hh _ => hh

theorem completable_self (hnone : forall h, h ∈ results -> seqOf h = none) :
    Completable streams radius results where
  fits := by
    intro h hh hsome
    rw [hnone h hh] at hsome
    cases hsome
  named := by
    intro h hh seq hseq
    rw [hnone h hh] at hseq
    cases hseq
  undisturbed := by
    apply List.pairwise_of_forall_mem_list
    intro a ha b _ _ _ seq hseq
    rw [hnone a ha] at hseq
    cases hseq
  inside := by
    intro h hh seq hseq
    rw [hnone h hh] at hseq
    cases hseq

theorem messages_completed_iff (hdistinct : (results.map resultKey).Nodup) :
    (exists out, completeMessageResults scores streams radius results = Except.ok out ∧
      Completed results id (ReachesTurn streams radius) (fun h => seqOf h = none) out) ↔
      Completable streams radius results := by
  unfold completeMessageResults
  by_cases hany : results.any (fun r => (seqOf r).isSome) = true
  · rw [if_pos hany]
    by_cases hfits : radius + 1 < u64Values
    · rw [if_pos hfits, foldl_emitAll]
      constructor
      · rintro ⟨out, hok, hcompleted⟩
        cases hok
        exact completable_of_completed hdistinct hfits hcompleted
      · exact fun hcompletable => ⟨_, rfl, hcompletable.completed hdistinct⟩
    · rw [if_neg hfits]
      constructor
      · rintro ⟨out, herror, _⟩
        cases herror
      · intro hcompletable
        obtain ⟨first, hfirst, hsome⟩ := List.any_eq_true.mp hany
        exact absurd (hcompletable.fits first hfirst hsome) hfits
  · rw [if_neg hany]
    have hnone : forall h, h ∈ results -> seqOf h = none := by
      intro h hh
      by_contra hsome
      exact hany (List.any_eq_true.mpr ⟨h, hh, Option.isSome_iff_ne_none.mpr hsome⟩)
    constructor
    · exact fun _ => completable_self hnone
    · exact fun _ => ⟨results, rfl, completed_self hdistinct hnone⟩

end

/-!
# Both completions
-/

section

variable [WordTables] [UuidText] [LawfulUuidText] {score signals : Type}

/-- The hits of a search come back completed exactly when the room for the results can
be allocated and the ids of the hits are those of the records they name. -/
theorem results_completed_iff (scores : Scores score) (sessions : Sessions)
    (streams : MessageStreams) (resultSize radius : Nat)
    (hits : List (SemanticSearchResult score signals))
    (hdistinct : (hits.map resultKey).Nodup) :
    ((exists out,
        completeResults scores sessions resultSize radius hits = Except.ok out ∧
        Completed hits (weighed scores sessions) (ReachesUpdate sessions radius)
          (fun h => located sessions h = none) out) ↔
      Reserves resultSize hits.length radius ∧
        forall h, h ∈ hits -> (located sessions h).isSome = true ->
          Printed h.contentId) ∧
    ((exists out, completeMessageResults scores streams radius hits = Except.ok out ∧
        Completed hits id (ReachesTurn streams radius) (fun h => seqOf h = none) out) ↔
      Completable streams radius hits) := by
  refine ⟨?_, messages_completed_iff hdistinct⟩
  rw [completeResults, (weighByValidity_perm scores sessions hits).length_eq, List.length_map,
    foldl_emitAll]
  by_cases hroom : Reserves resultSize hits.length radius
  · rw [if_pos hroom]
    constructor
    · rintro ⟨out, hok, hcompleted⟩
      cases hok
      exact ⟨hroom, (updates_completed_iff hdistinct).mp hcompleted⟩
    · rintro ⟨_, hprinted⟩
      exact ⟨_, rfl, (updates_completed_iff hdistinct).mpr hprinted⟩
  · rw [if_neg hroom]
    constructor
    · rintro ⟨out, herror, _⟩
      cases herror
    · exact fun h => absurd h.1 hroom

end

section

attribute [local instance] asciiWords hyphenatedText lawful_hyphenatedText

def rationalScores : Scores Rat where
  constant := id
  times := fun s f => s * f
  totalLe := fun a b => decide (a ≤ b)

def hitOf (contentId : String) (contentType : ContentType) (score : Rat) :
    SemanticSearchResult Rat Unit where
  contentId := contentId
  sessionId := 7
  contentType := contentType
  textContent := "chunk"
  similarityScore := score
  importanceScore := 0
  timestamp := 0
  combinedScore := score
  neighbourOf := none
  author := none
  derivedFrom := []
  validity := none
  confidence := none
  signals := none

def twoUpdates : Sessions := fun id =>
  if id = 7 then
    some { ActiveSession.new 7 none none 0 with
      incrementalUpdates :=
        [ContextUpdate.plain 1 10 "first", ContextUpdate.plain 2 20 "second"] }
  else none

def turnAt (seq : Nat) : Message where
  sessionId := 7
  seq := seq
  turnId := "turn"
  role := MessageRole.user
  author := none
  sourceSession := none
  timestamp := 0
  text := "text"
  tools := []
  files := []

def twoTurns : MessageStreams where
  turns := fun id =>
    if id = 7 then Except.ok [turnAt 2, turnAt 3] else Except.error "no stream"
  own := by
    intro s list hlist m hm
    split at hlist
    · next hs =>
      cases hlist
      rw [hs]
      rcases List.mem_cons.mp hm with rfl | hm
      · rfl
      · rw [List.mem_singleton.mp hm]
        rfl
    · cases hlist
  ordered := by
    intro s list hlist
    split at hlist
    · cases hlist
      decide
    · cases hlist
  fits := by
    intro s list hlist m hm
    split at hlist
    · cases hlist
      rcases List.mem_cons.mp hm with rfl | hm
      · decide
      · rw [List.mem_singleton.mp hm]
        decide
    · cases hlist

def mixedHits : List (SemanticSearchResult Rat Unit) :=
  [hitOf (UuidText.toText 1) ContentType.updateContent 3,
    hitOf (messageContentId 2) ContentType.message 2,
    hitOf "entity:rust" ContentType.entityDescription 1]

theorem mixed_results_completed :
    (exists out,
      completeResults rationalScores twoUpdates 1 1 mixedHits = Except.ok out ∧
      Completed mixedHits (weighed rationalScores twoUpdates)
        (ReachesUpdate twoUpdates 1) (fun h => located twoUpdates h = none) out) ∧
    (exists out,
      completeMessageResults rationalScores twoTurns 1 mixedHits = Except.ok out ∧
      Completed mixedHits id (ReachesTurn twoTurns 1) (fun h => seqOf h = none) out) := by
  have hdistinct : (mixedHits.map resultKey).Nodup := by decide +kernel
  have hiff := results_completed_iff rationalScores twoUpdates twoTurns 1 1 mixedHits
    hdistinct
  have hseq : forall h, h ∈ mixedHits -> forall seq, seqOf h = some seq ->
      seq = 2 ∧ h.contentId = messageContentId 2 := by
    have hall : mixedHits.all (fun h => (seqOf h).all
        (fun seq => seq = 2 ∧ h.contentId = messageContentId 2)) = true := by
      decide +kernel
    intro h hh seq hsome
    have hone := List.all_eq_true.mp hall h hh
    rw [hsome] at hone
    exact of_decide_eq_true hone
  constructor
  · refine hiff.1.mpr ⟨by decide +kernel, ?_⟩
    intro h hh hsome
    have hall : mixedHits.all (fun h => (located twoUpdates h).isNone ||
        h.contentId == UuidText.toText 1) = true := by
      decide +kernel
    have hone := List.all_eq_true.mp hall h hh
    rw [Option.isNone_eq_false_iff.mpr hsome, Bool.false_or] at hone
    exact ⟨1, beq_iff_eq.mp hone⟩
  · refine hiff.2.mpr ⟨?_, ?_, ?_, ?_⟩
    · intro h hh hsome
      decide
    · intro h hh seq hsome t ht htseq
      obtain ⟨rfl, hcontent⟩ := hseq h hh seq hsome
      exact hcontent
    · have hpairs : mixedHits.Pairwise (fun a b =>
          ¬ (seqOf b = none ∧ (seqOf a).isSome = true) ∨
            b.contentId = "entity:rust") := by
        decide +kernel
      refine hpairs.imp ?_
      intro a b hab hnone hsession seq hsome t ht hcontent
      rcases hab with hab | hab
      · exact absurd ⟨hnone, by rw [hsome]; rfl⟩ hab
      · have hlist := congrArg String.toList (hcontent.trans hab)
        rw [messageContentId_toList] at hlist
        cases hlist
    · intro h hh seq hsome t hstores hfrom hto hlast
      obtain ⟨rfl, _⟩ := hseq h hh seq hsome
      exact absurd hto (by rw [hlast]; decide)

/-- A radius beyond all sessions: the room for the results cannot be allocated. -/
theorem wide_radius_panics :
    ([hitOf (UuidText.toText 1) ContentType.updateContent 3].map resultKey).Nodup ∧
    completeResults rationalScores twoUpdates 1 9223372036854775807
        [hitOf (UuidText.toText 1) ContentType.updateContent 3] =
      Except.error Panic.overflow ∧
    ¬ exists out,
      completeResults rationalScores twoUpdates 1 9223372036854775807
          [hitOf (UuidText.toText 1) ContentType.updateContent 3] = Except.ok out ∧
      Completed [hitOf (UuidText.toText 1) ContentType.updateContent 3]
        (weighed rationalScores twoUpdates)
        (ReachesUpdate twoUpdates 9223372036854775807)
        (fun h => located twoUpdates h = none) out := by
  have herror : completeResults rationalScores twoUpdates 1 9223372036854775807
      [hitOf (UuidText.toText 1) ContentType.updateContent 3] =
        Except.error Panic.overflow := by
    rw [completeResults, (weighByValidity_perm rationalScores twoUpdates _).length_eq, List.length_map,
      if_neg (by decide)]
  refine ⟨List.nodup_singleton _, herror, ?_⟩
  rintro ⟨out, hok, _⟩
  rw [herror] at hok
  cases hok

end

end Completion
end Memory
end PostCortex
