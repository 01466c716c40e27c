import PostCortex.Core.UuidText
import PostCortex.Session.HotTier
import Mathlib.Data.List.TakeDrop

/-!
# Texts and content ids

What of an update is embedded (`content_vectorizer/ingestion.rs`): its text,
cut into overlapping chunks, and one content id for each chunk.  The collection
of a vectorization reads one version of the session and the set of the ids that
are marked as vectorized.
-/

namespace PostCortex
namespace Vectors

open PostCortex.Core
open PostCortex.Graph
open PostCortex.Session

/-- The id of the update for its first chunk, `<id>#<n>` for the others. -/
structure ContentId where
  update : Uuid
  chunk : Nat
  deriving DecidableEq, Repr

theorem toString_inj {n m : Nat} (h : toString n = toString m) : n = m := by
  have hdigits : Nat.toDigits 10 n = Nat.toDigits 10 m := by
    rw [Nat.toString_eq_ofList_toDigits, Nat.toString_eq_ofList_toDigits] at h
    simpa using congrArg String.toList h
  have hvalue := congrArg (fun l => Nat.ofDigitChars 10 l 0) hdigits
  simpa using hvalue

/-!
# The text of an update
-/

structure VectorizerConfig where
  autoVectorizeOnUpdate : Bool
  minTextLength : Nat
  maxTextLength : Nat
  deriving DecidableEq, Repr

def chunkOverlap : Nat :=
  200

def extractTextFromUpdate (update : ContextUpdate) : String :=
  String.intercalate " "
    ([update.content.title, update.content.description] ++
      update.content.details ++ update.content.examples ++
      update.content.implications ++
      (match update.relatedCode with
        | none => []
        | some codeRef => [codeRef.codeSnippet, codeRef.filePath]))

section

variable [CharTables]

def trim (text : List Char) : List Char :=
  ((text.dropWhile CharTables.isWhitespace).reverse.dropWhile
    CharTables.isWhitespace).reverse

def shouldVectorizeText (config : VectorizerConfig) (text : String) : Bool :=
  decide (config.minTextLength ≤
    (String.ofList (trim text.toList)).utf8ByteSize)

def isSpaceAt (text : List Char) (i : Nat) : Bool :=
  (text[i]?).any CharTables.isWhitespace

/-- Where the window from `start` ends: at the last whitespace of its second
half, unless the text ends in it. -/
def windowEnd (text : List Char) (size start : Nat) : Nat :=
  let stop := min (start + size) text.length
  if stop < text.length then
    ((List.range' (start + size / 2) (stop - (start + size / 2))).reverse.find?
      (isSpaceAt text)).getD stop
  else stop

def nextStart (text : List Char) (overlap start stop : Nat) : Nat :=
  let next := max (stop - overlap) (start + 1)
  match (List.range' next (stop - next)).find? (isSpaceAt text) with
  | some space => space + 1
  | none => stop

/-- The loop of `chunk_text`; a window of at least two characters moves its
start, so there are no more rounds than characters. -/
def windows (text : List Char) (size overlap : Nat) :
    Nat -> Nat -> List (List Char)
  | 0, _ => []
  | fuel + 1, start =>
      let stop := windowEnd text size start
      let chunk := trim ((text.drop start).take (stop - start))
      if text.length ≤ stop then [chunk]
      else chunk ::
        windows text size overlap fuel (nextStart text overlap start stop)

/-- `chunk_text` for windows of at least two characters.  In windows of one
character the source loops on whitespace, where the rounds are cut off here. -/
def chunkText (text : List Char) (size overlap : Nat) : List (List Char) :=
  if text.length ≤ size ∨ size = 0 then [text]
  else windows text size overlap (text.length + 1) 0

def updateVectors (config : VectorizerConfig) (update : ContextUpdate)
    (rawText : String) : List (ContentId × List Char) :=
  (chunkText rawText.toList config.maxTextLength chunkOverlap).mapIdx
    (fun n chunk => (⟨update.id, n⟩, chunk))

def contentsOf (config : VectorizerConfig) (update : ContextUpdate) :
    List ContentId :=
  let rawText := extractTextFromUpdate update
  if shouldVectorizeText config rawText then
    (updateVectors config update rawText).map Prod.fst
  else []

/-!
# The collection
-/

def lookupUpdate (session : ActiveSession) (id : Uuid) : Option ContextUpdate :=
  match session.hotContext.find (fun u => u.id == id) with
  | some update => some update
  | none => session.incrementalUpdates.reverse.find? (fun u => u.id == id)

def collect (config : VectorizerConfig) (session : ActiveSession)
    (marks : List Uuid) : Option Uuid -> List ContentId
  | some id =>
      if id ∈ marks then []
      else
        match lookupUpdate session id with
        | none => []
        | some update => contentsOf config update
  | none =>
      (session.incrementalUpdates.filter (fun u => u.id ∉ marks)).flatMap
        (contentsOf config)

end

def shows (session : ActiveSession) (id : Uuid) : Bool :=
  session.hotContext.containsId id ||
    session.incrementalUpdates.any (fun u => u.id == id)

def inWarm (session : ActiveSession) (id : Uuid) : Bool :=
  session.warmContext.any (fun c => c.update.id == id)

def Chained (items : List ContentId) : Prop :=
  forall (i : Nat) (u : Uuid) (n : Nat), items[i]? = some ⟨u, n + 1⟩ ->
    exists j, j < i ∧ items[j]? = some ⟨u, n⟩

theorem Chained.nil : Chained [] := by
  intro i u n h
  cases h

variable {items : List ContentId}

theorem Chained.take (h : Chained items) (k : Nat) :
    Chained (items.take k) := by
  intro i u n hi
  rw [List.getElem?_take] at hi
  split at hi
  · next hik =>
    obtain ⟨j, hji, hj⟩ := h i u n hi
    refine ⟨j, hji, ?_⟩
    rw [List.getElem?_take, if_pos (by omega)]
    exact hj
  · cases hi

theorem Chained.append {xs ys : List ContentId} (hx : Chained xs)
    (hy : Chained ys) :
    Chained (xs ++ ys) := by
  intro i u n hi
  by_cases hlt : i < xs.length
  · rw [List.getElem?_append_left hlt] at hi
    obtain ⟨j, hji, hj⟩ := hx i u n hi
    refine ⟨j, hji, ?_⟩
    rw [List.getElem?_append_left (by omega)]
    exact hj
  · rw [List.getElem?_append_right (by omega)] at hi
    obtain ⟨j, hji, hj⟩ := hy (i - xs.length) u n hi
    refine ⟨xs.length + j, by omega, ?_⟩
    rw [List.getElem?_append_right (by omega), Nat.add_sub_cancel_left]
    exact hj

theorem Chained.mem (h : Chained items) {u : Uuid} {n : Nat}
    (hmem : ⟨u, n + 1⟩ ∈ items) :
    ⟨u, n⟩ ∈ items := by
  obtain ⟨i, hi⟩ := List.getElem?_of_mem hmem
  obtain ⟨j, _, hj⟩ := h i u n hi
  exact List.mem_of_getElem? hj

variable {session : ActiveSession} {id : Uuid}

theorem lookupUpdate_shows {update : ContextUpdate}
    (h : lookupUpdate session id = some update) :
    update.id = id ∧ shows session id = true := by
  unfold lookupUpdate at h
  split at h
  · next found hfind =>
    cases h
    have hid : update.id = id := by
      simpa using List.find?_some hfind
    refine ⟨hid, ?_⟩
    have hmem := List.mem_of_find?_eq_some hfind
    obtain ⟨i, _, hi⟩ := List.mem_filterMap.mp hmem
    have hcontains : session.hotContext.containsId id = true :=
      List.any_eq_true.mpr ⟨(i, update),
        Std.ExtTreeMap.mem_toList_iff_getElem?_eq_some.mpr hi, by simp [hid]⟩
    rw [shows, hcontains, Bool.true_or]
  · have hid : update.id = id := by
      simpa using List.find?_some h
    refine ⟨hid, ?_⟩
    have hmem := List.mem_reverse.mp (List.mem_of_find?_eq_some h)
    rw [shows, Bool.or_eq_true]
    exact Or.inr (List.any_eq_true.mpr ⟨update, hmem, by simp [hid]⟩)

section

variable [CharTables]

variable {config : VectorizerConfig} {update : ContextUpdate} {c : ContentId}

theorem contentsOf_getElem? {i : Nat} (h : (contentsOf config update)[i]? = some c) :
    c = ⟨update.id, i⟩ := by
  unfold contentsOf at h
  dsimp only at h
  split at h
  · unfold updateVectors at h
    simp only [List.getElem?_map, List.getElem?_mapIdx, Option.map_map,
      Option.map_eq_some_iff] at h
    obtain ⟨_, _, hc⟩ := h
    exact hc.symm
  · cases h

theorem contentsOf_update (h : c ∈ contentsOf config update) :
    c.update = update.id := by
  obtain ⟨i, hi⟩ := List.getElem?_of_mem h
  rw [contentsOf_getElem? hi]

theorem contentsOf_chained (config : VectorizerConfig)
    (update : ContextUpdate) :
    Chained (contentsOf config update) := by
  intro i u n hi
  have heq := contentsOf_getElem? hi
  cases heq
  have hlt := (List.getElem?_eq_some_iff.mp hi).1
  have hbefore : n < (contentsOf config update).length := by
    omega
  refine ⟨n, Nat.lt_succ_self n, ?_⟩
  rw [List.getElem?_eq_getElem hbefore]
  exact congrArg some
    (contentsOf_getElem? (List.getElem?_eq_getElem hbefore))

theorem collect_chained (config : VectorizerConfig) (session : ActiveSession)
    (marks : List Uuid) (target : Option Uuid) :
    Chained (collect config session marks target) := by
  cases target with
  | some id =>
      simp only [collect]
      split
      · exact Chained.nil
      · split
        · exact Chained.nil
        · exact contentsOf_chained config _
  | none =>
      simp only [collect]
      generalize session.incrementalUpdates.filter _ = updates
      induction updates with
      | nil =>
          exact Chained.nil
      | cons u rest ih =>
          rw [List.flatMap_cons]
          exact (contentsOf_chained config u).append ih

theorem collect_shows {session : ActiveSession} {marks : List Uuid}
    {target : Option Uuid} (h : c ∈ collect config session marks target) :
    target.all (· == c.update) = true ∧ shows session c.update = true := by
  cases target with
  | some id =>
      simp only [collect] at h
      split at h
      · cases h
      · split at h
        · cases h
        · next update hfound =>
          obtain ⟨hid, hshows⟩ := lookupUpdate_shows hfound
          have hc := contentsOf_update h
          rw [hc, hid]
          exact ⟨by simp, hshows⟩
  | none =>
      obtain ⟨update, hupdate, hc⟩ := List.mem_flatMap.mp h
      refine ⟨rfl, ?_⟩
      rw [contentsOf_update hc, shows, Bool.or_eq_true]
      exact Or.inr (List.any_eq_true.mpr
        ⟨update, (List.mem_filter.mp hupdate).1, by simp⟩)

end

/-!
# What a removal leaves to be shown
-/

/-- No two slots of the hot tier have an update with the same id. -/
def HotDistinct (session : ActiveSession) : Prop :=
  forall (i j : Nat) (u v : ContextUpdate),
    session.hotContext.updates[i]? = some u ->
    session.hotContext.updates[j]? = some v -> u.id = v.id -> i = j

theorem hotDistinct_of_nodup (h : (session.hotContext.updates.toList.map
      (fun x => ContextUpdate.id x.2)).Nodup) :
    HotDistinct session := by
  intro i j u v hi hj hid
  have hmem := Std.ExtTreeMap.mem_toList_iff_getElem?_eq_some.mpr hi
  have hmem' := Std.ExtTreeMap.mem_toList_iff_getElem?_eq_some.mpr hj
  exact congrArg Prod.fst (List.inj_on_of_nodup_map h hmem hmem' hid)

def hotWithout (session : ActiveSession) (id : Uuid) : HotContext :=
  if session.hotContext.containsId id then
    session.hotContext.removeById id
  else session.hotContext

variable {after : ActiveSession}

theorem removeUpdateById_tiers (h : session.removeUpdateById id = some after) :
    after.hotContext = hotWithout session id ∧
      after.incrementalUpdates =
        session.incrementalUpdates.filter (fun u => u.id != id) ∧
      after.warmContext =
        session.warmContext.filter (fun c => c.update.id != id) := by
  obtain ⟨removed, -, rfl⟩ := ActiveSession.removeUpdateById_some h
  exact ⟨rfl, rfl, rfl⟩

theorem hotWithout_get {i : Nat} {u : ContextUpdate}
    (h : (hotWithout session id).updates[i]? = some u) :
    session.hotContext.updates[i]? = some u := by
  unfold hotWithout at h
  split at h
  · unfold HotContext.removeById at h
    split at h
    · exact h
    · rw [Std.ExtTreeMap.getElem?_erase] at h
      split at h
      · cases h
      · exact h
  · exact h

theorem hotWithout_containsId (h : HotDistinct session) :
    (hotWithout session id).containsId id = false := by
  unfold hotWithout
  split
  · next hcontains =>
    rw [Bool.eq_false_iff]
    intro hstill
    obtain ⟨i, u, hi, hid⟩ := HotContext.containsId_iff.mp hstill
    unfold HotContext.removeById at hi
    split at hi
    · next hnone =>
      have hnot := List.find?_eq_none.mp hnone (i, u)
        (Std.ExtTreeMap.mem_toList_iff_getElem?_eq_some.mpr hi)
      exact hnot (by simpa using hid)
    · next slot hslot =>
      have hmem := Std.ExtTreeMap.mem_toList_iff_getElem?_eq_some.mp
        (List.mem_of_find?_eq_some hslot)
      have hslotId : slot.2.id = id := by
        simpa using List.find?_some hslot
      rw [Std.ExtTreeMap.getElem?_erase] at hi
      split at hi
      · cases hi
      · next hne =>
        have heq := h slot.1 i slot.2 u hmem hi (hslotId.trans hid.symm)
        exact hne (by simp [heq])
  · next hnot =>
    exact Bool.eq_false_iff.mpr hnot

theorem inWarm_removeUpdateById (h : session.removeUpdateById id = some after) :
    inWarm after id = false ∧
      forall v, inWarm after v = true -> inWarm session v = true := by
  have hwarm := (removeUpdateById_tiers h).2.2
  constructor
  · rw [inWarm, hwarm, List.any_filter]
    simp
  · intro v hv
    rw [inWarm, hwarm] at hv
    obtain ⟨c, hc, hid⟩ := List.any_eq_true.mp hv
    exact List.any_eq_true.mpr ⟨c, (List.mem_filter.mp hc).1, hid⟩

theorem found_of_removeUpdateById (h : session.removeUpdateById id = some after) :
    shows session id = true ∨ inWarm session id = true := by
  unfold ActiveSession.removeUpdateById at h
  split at h
  · cases h
  · next removed hfound =>
    unfold ActiveSession.findUpdate at hfound
    rw [shows, Bool.or_eq_true]
    split at hfound
    · next update hfind =>
      have hid := List.find?_some hfind
      exact Or.inl (Or.inr (List.any_eq_true.mpr
        ⟨update, List.mem_of_find?_eq_some hfind, hid⟩))
    · split at hfound
      · next update hfind =>
        have hid := List.find?_some hfind
        obtain ⟨i, _, hi⟩ :=
          List.mem_filterMap.mp (List.mem_of_find?_eq_some hfind)
        exact Or.inl (Or.inl (HotContext.containsId_iff.mpr
          ⟨i, update, hi, by simpa using hid⟩))
      · obtain ⟨c, hfind, _⟩ := Option.map_eq_some_iff.mp hfound
        have hid := List.find?_some hfind
        exact Or.inr (List.any_eq_true.mpr
          ⟨c, List.mem_of_find?_eq_some hfind, hid⟩)

theorem shows_removeUpdateById (hdistinct : HotDistinct session)
    (h : session.removeUpdateById id = some after) :
    shows after id = false ∧
      (forall v, shows after v = true -> shows session v = true) ∧
      HotDistinct after := by
  obtain ⟨hhot, hupdates, _⟩ := removeUpdateById_tiers h
  refine ⟨?_, ?_, ?_⟩
  · rw [shows, hhot, hupdates, hotWithout_containsId hdistinct, Bool.false_or,
      List.any_filter]
    simp
  · intro v hv
    rw [shows, hhot, hupdates, Bool.or_eq_true] at hv
    rw [shows, Bool.or_eq_true]
    rcases hv with hv | hv
    · obtain ⟨i, u, hi, hid⟩ := HotContext.containsId_iff.mp hv
      exact Or.inl (HotContext.containsId_iff.mpr ⟨i, u, hotWithout_get hi, hid⟩)
    · obtain ⟨u, hu, hid⟩ := List.any_eq_true.mp hv
      exact Or.inr (List.any_eq_true.mpr ⟨u, (List.mem_filter.mp hu).1, hid⟩)
  · intro i j u v hi hj hid
    rw [hhot] at hi hj
    exact hdistinct i j u v (hotWithout_get hi) (hotWithout_get hj) hid

end Vectors
end PostCortex
