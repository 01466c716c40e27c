import PostCortex.Vectors.Erasure
import PostCortex.Vectors.Versions

/-!
# The books of the vectorizer

`vectorize_update`, `vectorize_session` and the erasure of an update, one call
after the other, on one session whose versions follow each other
(`content_vectorizer/ingestion.rs` and `vectorizer.rs`): the vectors of the session
in memory, the set of vectorized ids, and the counts of the last complete run.
Every single addition and the write to storage may fail.  `known` is not in the
source: the ids that the session has ever had.
-/

namespace PostCortex
namespace Vectors
namespace Bookkeeping

open PostCortex.Core
open PostCortex.Graph
open PostCortex.Session
open Transition

/-- What a vector stands for; an entity has the content id `entity:<name>`. -/
inductive Content where
  | chunk (c : ContentId)
  | entity (name : String)
  deriving DecidableEq, Repr

structure Item where
  content : Content
  text : String
  deriving DecidableEq, Repr

structure Entry where
  id : Nat
  content : Content
  text : String
  deriving DecidableEq, Repr

structure Books where
  session : ActiveSession
  entries : List Entry
  nextId : Nat
  marks : List Uuid
  vectorizedMark : Option (Nat × Nat)
  known : List Uuid

/-- How a call fares: what the engine returns for its texts, which additions
succeed, and whether the write to storage does. -/
structure Outcome where
  embedded : Except String Nat
  accepts : Nat -> Bool
  persisted : Bool

structure Setup where
  config : VectorizerConfig
  enableEntityVectorization : Bool
  persistentStorage : Bool
  /-- `build_entity_description`. -/
  describe : ActiveSession -> String -> String

/-!
# Adding vectors
-/

def Books.contents (b : Books) : List Content :=
  b.entries.map Entry.content

def accepted (accepts : Nat -> Bool) (items : List Item) : List Item :=
  (items.zipIdx.filter (fun x => accepts x.2)).map Prod.fst

def entriesOf (nextId : Nat) (items : List Item) : List Entry :=
  items.mapIdx (fun j i => ⟨nextId + j, i.content, i.text⟩)

def removeVectors (b : Books) (ids : List Nat) : Books :=
  { b with entries := b.entries.filter (fun e => e.id ∉ ids) }

def addAndPersistMany (setup : Setup) (b : Books) (items : List Item)
    (outcome : Outcome) : Books × List Content :=
  let added := entriesOf b.nextId (accepted outcome.accepts items)
  let after :=
    { b with
      entries := b.entries ++ added
      nextId := b.nextId + added.length }
  if setup.persistentStorage && !added.isEmpty && !outcome.persisted then
    (removeVectors after (added.map Entry.id), [])
  else (after, added.map Entry.content)

/-!
# Vectorizations
-/

section

variable [CharTables]

def itemsOf (config : VectorizerConfig) (update : ContextUpdate) : List Item :=
  let rawText := extractTextFromUpdate update
  if shouldVectorizeText config rawText then
    (updateVectors config update rawText).map
      (fun x => ⟨Content.chunk x.1, String.ofList x.2⟩)
  else []

def vectorizeUpdate (setup : Setup) (b : Books) (id : Uuid) (outcome : Outcome) :
    Books × Except String Nat :=
  if id ∈ b.marks then (b, Except.ok 0)
  else
    match lookupUpdate b.session id with
    | none => (b, Except.ok 0)
    | some update =>
        let items := itemsOf setup.config update
        if items = [] then (b, Except.ok 0)
        else
          match outcome.embedded with
          | Except.error e => (b, Except.error e)
          | Except.ok n =>
              if n ≠ items.length then (b, Except.ok 0)
              else
                let r := addAndPersistMany setup b items outcome
                (if r.2.length = items.length then
                    { r.1 with marks := r.1.marks ++ [update.id] }
                  else r.1,
                  Except.ok r.2.length)

def hasUpdateEmbedding (b : Books) (id : Uuid) : Bool :=
  b.entries.any (fun e => e.content == Content.chunk ⟨id, 0⟩)

def freshMarks (b : Books) : List Uuid :=
  b.marks.filter (hasUpdateEmbedding b)

def parsedIds (contents : List Content) : List Uuid :=
  contents.filterMap (fun c =>
    match c with
    | Content.chunk c => if c.chunk = 0 then some c.update else none
    | Content.entity _ => none)

def collectUpdates (setup : Setup) (session : ActiveSession) (marks : List Uuid) :
    List Item :=
  (session.incrementalUpdates.filter (fun u => u.id ∉ marks)).flatMap
    (itemsOf setup.config)

def vectorizeContextUpdates (setup : Setup) (b : Books) (outcome : Outcome) :
    Books × Except String (Nat × Bool) :=
  let b := { b with marks := freshMarks b }
  let items := collectUpdates setup b.session b.marks
  if items = [] then (b, Except.ok (0, true))
  else
    match outcome.embedded with
    | Except.error e => (b, Except.error e)
    | Except.ok n =>
        let r := addAndPersistMany setup b (items.take n) outcome
        ({ r.1 with marks := r.1.marks ++ parsedIds r.2 },
          Except.ok (r.2.length, r.2.length == items.length))

def entityItems (setup : Setup) (session : ActiveSession) : List Item :=
  (session.entityGraph.entities.keys.map
    (fun name => ⟨Content.entity name, setup.describe session name⟩)).filter
      (fun i => shouldVectorizeText setup.config i.text)

def unchanged (b : Books) (i : Item) : Bool :=
  match b.entries.filter (fun e => e.content == i.content) with
  | [e] => e.text == i.text
  | _ => false

def vectorizeEntities (setup : Setup) (b : Books) (outcome : Outcome) :
    Books × Except String (Nat × Bool) :=
  let items := (entityItems setup b.session).filter (fun i => !unchanged b i)
  if items = [] then (b, Except.ok (0, true))
  else
    match outcome.embedded with
    | Except.error e => (b, Except.error e)
    | Except.ok n =>
        let r := addAndPersistMany setup b (items.take n) outcome
        let superseded := b.entries.filter (fun e => e.content ∈ r.2)
        (removeVectors r.1 (superseded.map Entry.id),
          Except.ok (r.2.length, r.2.length == items.length))

def vectorizationMark (session : ActiveSession) : Nat × Nat :=
  (session.incrementalUpdates.length, session.entityGraph.entities.size)

def needsVectorization (b : Books) : Bool :=
  b.vectorizedMark != some (vectorizationMark b.session)

def markVectorized (b : Books) : Books :=
  { b with vectorizedMark := some (vectorizationMark b.session) }

def vectorizeSession (setup : Setup) (b : Books) (updates entities : Outcome) :
    Books × Except String Nat :=
  match vectorizeContextUpdates setup b updates with
  | (b, Except.error e) => (b, Except.error e)
  | (b, Except.ok (n, updatesComplete)) =>
      if setup.enableEntityVectorization then
        match vectorizeEntities setup b entities with
        | (b, Except.error e) => (b, Except.error e)
        | (b, Except.ok (m, entitiesComplete)) =>
            (if updatesComplete && entitiesComplete then markVectorized b else b,
              Except.ok (n + m))
      else
        (if updatesComplete then markVectorized b else b, Except.ok n)

/-!
# Runs
-/

def chunkVectors (entries : List Entry) : List StoredVector :=
  entries.filterMap (fun e =>
    match e.content with
    | Content.chunk c => some ⟨none, c⟩
    | Content.entity _ => none)

def removeContent (b : Books) (id : Uuid) : Books :=
  let removed := removedIds (chunkVectors b.entries) id
  { b with
    entries := b.entries.filter (fun e =>
      match e.content with
      | Content.chunk c => c ∉ removed
      | Content.entity _ => true) }

/-- `delete_update` and `purge_update`. -/
def erase (b : Books) (erasure : Erasure) (now : Timestamp) (id : Uuid) : Books :=
  match b.session.removeUpdateById id with
  | none => b
  | some session =>
      removeContent
        { b with
          session :=
            match erasure with
            | Erasure.delete => session
            | Erasure.purge => session.rebuildEntityGraphSync now
          marks := b.marks.filter (· != id) }
        id

inductive Action where
  | event (e : SessionEvent)
  | erase (erasure : Erasure) (now : Timestamp) (id : Uuid)
  | vectorizeUpdate (id : Uuid) (outcome : Outcome)
  | vectorizeSession (updates entities : Outcome)

def Action.apply (setup : Setup) (b : Books) : Action -> Books
  | event e =>
      { b with
        session := e.apply b.session
        known := b.known ++ ((addedUpdate e).map ContextUpdate.id).toList }
  | erase erasure now id => Bookkeeping.erase b erasure now id
  | vectorizeUpdate id outcome => (Bookkeeping.vectorizeUpdate setup b id outcome).1
  | vectorizeSession updates entities =>
      (Bookkeeping.vectorizeSession setup b updates entities).1

def bookkeeping (setup : Setup) (id : Uuid) (name description : Option String)
    (created : Timestamp) : System Books Action where
  init := ⟨ActiveSession.new id name description created, [], 0, [], none, []⟩
  step := fun b a => some (a.apply setup b)

end

section

/-!
# What an addition leaves
-/

/-- No two entries have one id, and the next id is free. -/
structure Numbered (b : Books) : Prop where
  ids : (b.entries.map Entry.id).Nodup
  below : forall e, e ∈ b.entries -> e.id < b.nextId

structure Extends (b after : Books) (kept : List Item) : Prop where
  session : after.session = b.session
  known : after.known = b.known
  vectorizedMark : after.vectorizedMark = b.vectorizedMark
  entries : after.entries = b.entries ++ entriesOf b.nextId kept
  nextId : b.nextId + kept.length ≤ after.nextId

theorem contents_entriesOf (n : Nat) (items : List Item) :
    (entriesOf n items).map Entry.content = items.map Item.content := by
  apply List.ext_getElem?
  intro i
  simp [entriesOf, List.getElem?_mapIdx, Option.map_map, Function.comp_def]

theorem ids_entriesOf (n : Nat) (items : List Item) :
    (entriesOf n items).map Entry.id = List.range' n items.length := by
  apply List.ext_getElem
  · simp [entriesOf]
  · intro i hi hi'
    simp [entriesOf]

variable {items : List Item}

theorem id_of_entriesOf {n : Nat} {e : Entry} (h : e ∈ entriesOf n items) :
    n ≤ e.id ∧ e.id < n + items.length := by
  have hmem := List.mem_map_of_mem (f := Entry.id) h
  rw [ids_entriesOf, List.mem_range'_1] at hmem
  exact hmem

variable {b after : Books} {kept : List Item}

theorem Extends.contents (h : Extends b after kept) :
    after.contents = b.contents ++ kept.map Item.content := by
  rw [Books.contents, h.entries, List.map_append, contents_entriesOf]
  rfl

theorem Extends.numbered (h : Extends b after kept) (hnumbered : Numbered b) :
    Numbered after where
  ids := by
    rw [h.entries, List.map_append, ids_entriesOf, List.nodup_append]
    refine ⟨hnumbered.ids, List.nodup_range', ?_⟩
    intro i hi j hj heq
    obtain ⟨e, he, rfl⟩ := List.mem_map.mp hi
    have hbelow := hnumbered.below e he
    have hfrom := (List.mem_range'_1.mp hj).1
    omega
  below := by
    intro e he
    rw [h.entries] at he
    have hnext := h.nextId
    rcases List.mem_append.mp he with hold | hnew
    · have hbelow := hnumbered.below e hold
      omega
    · have hid := (id_of_entriesOf hnew).2
      omega

def stored (setup : Setup) (items : List Item) (outcome : Outcome) : List Item :=
  if setup.persistentStorage && !outcome.persisted then []
  else accepted outcome.accepts items

theorem accepted_sublist (accepts : Nat -> Bool) (items : List Item) :
    (accepted accepts items).Sublist items := by
  have hsub := (List.filter_sublist (l := items.zipIdx)
    (p := fun x => accepts x.2)).map Prod.fst
  rw [List.zipIdx_map_fst] at hsub
  exact hsub

theorem stored_sublist (setup : Setup) (items : List Item) (outcome : Outcome) :
    (stored setup items outcome).Sublist items := by
  unfold stored
  split
  · exact List.nil_sublist items
  · exact accepted_sublist outcome.accepts items

theorem addAndPersistMany_extends (setup : Setup) (hnumbered : Numbered b)
    (items : List Item) (outcome : Outcome) :
    Extends b (addAndPersistMany setup b items outcome).1
        (stored setup items outcome) ∧
      (addAndPersistMany setup b items outcome).1.marks = b.marks ∧
      (addAndPersistMany setup b items outcome).2 =
        (stored setup items outcome).map Item.content := by
  unfold addAndPersistMany stored
  generalize accepted outcome.accepts items = kept
  dsimp only
  split
  · next hfails =>
    rw [Bool.and_eq_true, Bool.and_eq_true] at hfails
    rw [hfails.1.1, hfails.2, Bool.and_self, if_pos rfl]
    refine ⟨⟨rfl, rfl, rfl, ?_, Nat.le_add_right _ _⟩, rfl, rfl⟩
    show (b.entries ++ entriesOf b.nextId kept).filter _ = b.entries ++ []
    rw [List.filter_append]
    congr 1
    · refine List.filter_eq_self.mpr ?_
      intro e he
      refine decide_eq_true ?_
      intro hmem
      rw [ids_entriesOf, List.mem_range'_1] at hmem
      have hbelow := hnumbered.below e he
      omega
    · refine List.filter_eq_nil_iff.mpr ?_
      intro e he
      rw [decide_eq_true_iff, not_not]
      exact List.mem_map_of_mem he
  · next hwrites =>
    have hlength : (entriesOf b.nextId kept).length = kept.length :=
      List.length_mapIdx
    split
    · next hlost =>
      have hnone : kept = [] := by
        rw [Bool.and_eq_true] at hlost
        rw [hlost.1, hlost.2, Bool.true_and, Bool.and_true, Bool.not_eq_true,
          Bool.not_eq_false', List.isEmpty_iff] at hwrites
        rw [hwrites] at hlength
        exact List.eq_nil_of_length_eq_zero hlength.symm
      subst hnone
      exact ⟨⟨rfl, rfl, rfl, rfl, Nat.le_refl _⟩, rfl, rfl⟩
    · refine ⟨⟨rfl, rfl, rfl, rfl, ?_⟩, rfl, contents_entriesOf _ _⟩
      show b.nextId + kept.length ≤ b.nextId + (entriesOf b.nextId kept).length
      rw [hlength]

/-!
# What a vectorization leaves
-/

/-- A vectorization of one update adds nothing, or what is stored of an update that
is not marked yet. -/
theorem vectorizeUpdate_cases [CharTables] (setup : Setup) (hnumbered : Numbered b) (id : Uuid)
    (outcome : Outcome) :
    (vectorizeUpdate setup b id outcome).1 = b ∨
    exists update,
      lookupUpdate b.session id = some update ∧
      id ∉ b.marks ∧
      itemsOf setup.config update ≠ [] ∧
      outcome.embedded = Except.ok (itemsOf setup.config update).length ∧
      Extends b (vectorizeUpdate setup b id outcome).1
        (stored setup (itemsOf setup.config update) outcome) ∧
      (vectorizeUpdate setup b id outcome).1.marks =
        if (stored setup (itemsOf setup.config update) outcome).length =
            (itemsOf setup.config update).length then
          b.marks ++ [update.id]
        else b.marks := by
  unfold vectorizeUpdate
  split
  · exact Or.inl rfl
  · next hunmarked =>
    split
    · exact Or.inl rfl
    · next update hupdate =>
      dsimp only
      split
      · exact Or.inl rfl
      · next hitems =>
        split
        · exact Or.inl rfl
        · next n hembedded =>
          split
          · exact Or.inl rfl
          · next hcount =>
            rw [not_not] at hcount
            obtain ⟨hextends, hmarks, hadded⟩ := addAndPersistMany_extends
              setup hnumbered (itemsOf setup.config update) outcome
            refine Or.inr ⟨update, hupdate, hunmarked, hitems, ?_, ?_, ?_⟩
            · rw [hembedded, hcount]
            · rw [hadded, List.length_map]
              split
              · exact ⟨hextends.session, hextends.known, hextends.vectorizedMark,
                  hextends.entries, hextends.nextId⟩
              · exact hextends
            · rw [hadded, List.length_map]
              split
              · exact congrArg (· ++ [update.id]) hmarks
              · exact hmarks

def keptItems (setup : Setup) (items : List Item) (outcome : Outcome) : List Item :=
  match outcome.embedded with
  | Except.error _ => []
  | Except.ok n => stored setup (items.take n) outcome

theorem keptItems_sublist (setup : Setup) (items : List Item) (outcome : Outcome) :
    (keptItems setup items outcome).Sublist items := by
  unfold keptItems
  split
  · exact List.nil_sublist items
  · next n _ => exact (stored_sublist _ _ _).trans (List.take_sublist n items)

variable {setup : Setup}

theorem vectorizeContextUpdates_extends [CharTables] (hnumbered : Numbered b) (outcome : Outcome)
    (hitems : collectUpdates setup b.session (freshMarks b) = items) :
    Extends b (vectorizeContextUpdates setup b outcome).1
        (keptItems setup items outcome) ∧
      (vectorizeContextUpdates setup b outcome).1.marks =
        freshMarks b ++
          parsedIds ((keptItems setup items outcome).map Item.content) ∧
      forall n, (vectorizeContextUpdates setup b outcome).2 = Except.ok (n, true) ->
        keptItems setup items outcome = items := by
  have hnothing : Extends b { b with marks := freshMarks b } [] :=
    ⟨rfl, rfl, rfl, (List.append_nil _).symm, Nat.le_refl _⟩
  have hsub := keptItems_sublist setup items outcome
  unfold vectorizeContextUpdates
  dsimp only
  rw [hitems]
  split
  · next hnone =>
    subst hnone
    rw [List.sublist_nil] at hsub
    rw [hsub]
    exact ⟨hnothing, (List.append_nil _).symm, fun _ _ => rfl⟩
  · unfold keptItems at hsub ⊢
    cases hembedded : outcome.embedded with
    | error e =>
        refine ⟨hnothing, (List.append_nil _).symm, ?_⟩
        intro n hn
        cases hn
    | ok n =>
        rw [hembedded] at hsub
        have hfresh : Numbered { b with marks := freshMarks b } :=
          ⟨hnumbered.ids, hnumbered.below⟩
        obtain ⟨hextends, hmarks, hadded⟩ := addAndPersistMany_extends
          setup hfresh (items.take n) outcome
        refine ⟨⟨hextends.session, hextends.known, hextends.vectorizedMark,
          hextends.entries, hextends.nextId⟩, ?_, ?_⟩
        · dsimp only
          rw [hmarks, hadded]
        · intro m hm
          dsimp only at hm
          rw [hadded, List.length_map] at hm
          have hlength := congrArg Prod.snd (Except.ok.inj hm)
          exact hsub.eq_of_length (beq_iff_eq.mp hlength)

structure Refreshed (b after : Books) : Prop where
  session : after.session = b.session
  known : after.known = b.known
  marks : after.marks = b.marks
  chunks : forall c, Content.chunk c ∈ after.contents ↔ Content.chunk c ∈ b.contents
  nodup : b.contents.Nodup -> after.contents.Nodup
  numbered : Numbered after

theorem Refreshed.refl (h : Numbered b) : Refreshed b b :=
  ⟨rfl, rfl, rfl, fun _ => Iff.rfl, id, h⟩

theorem filter_superseded (hnumbered : Numbered b) (kept : List Item) :
    (b.entries ++ entriesOf b.nextId kept).filter (fun e =>
        e.id ∉ (b.entries.filter (fun e => e.content ∈ kept.map Item.content)).map
          Entry.id) =
      b.entries.filter (fun e => e.content ∉ kept.map Item.content) ++
        entriesOf b.nextId kept := by
  rw [List.filter_append]
  congr 1
  · refine List.filter_congr ?_
    intro e he
    refine decide_eq_decide.mpr (not_congr ?_)
    constructor
    · intro hmem
      obtain ⟨old, hold, hid⟩ := List.mem_map.mp hmem
      obtain ⟨hold, hcontent⟩ := List.mem_filter.mp hold
      rw [← List.inj_on_of_nodup_map hnumbered.ids hold he hid]
      exact of_decide_eq_true hcontent
    · intro hcontent
      exact List.mem_map_of_mem (List.mem_filter.mpr ⟨he, decide_eq_true hcontent⟩)
  · refine List.filter_eq_self.mpr ?_
    intro e he
    refine decide_eq_true ?_
    intro hmem
    obtain ⟨old, hold, hid⟩ := List.mem_map.mp hmem
    have hbelow := hnumbered.below old (List.mem_filter.mp hold).1
    have hfrom := (id_of_entriesOf he).1
    omega

theorem replaced_refreshes (hnumbered : Numbered b)
    (hentity : forall i, i ∈ kept -> exists name, i.content = Content.entity name)
    (hnodup : (kept.map Item.content).Nodup) (hextends : Extends b after kept)
    (hmarks : after.marks = b.marks) :
    Refreshed b (removeVectors after
      ((b.entries.filter (fun e => e.content ∈ kept.map Item.content)).map
        Entry.id)) := by
  have hentries : (removeVectors after
      ((b.entries.filter (fun e => e.content ∈ kept.map Item.content)).map
        Entry.id)).entries =
        b.entries.filter (fun e => e.content ∉ kept.map Item.content) ++
          entriesOf b.nextId kept := by
    rw [← filter_superseded hnumbered kept, removeVectors, hextends.entries]
  have hcontents : (removeVectors after
      ((b.entries.filter (fun e => e.content ∈ kept.map Item.content)).map
        Entry.id)).contents =
        (b.entries.filter (fun e => e.content ∉ kept.map Item.content)).map
            Entry.content ++
          kept.map Item.content := by
    rw [Books.contents, hentries, List.map_append, contents_entriesOf]
  have hnochunk : forall c, Content.chunk c ∉ kept.map Item.content := by
    intro c hc
    obtain ⟨i, hi, heq⟩ := List.mem_map.mp hc
    obtain ⟨name, hname⟩ := hentity i hi
    rw [hname] at heq
    cases heq
  refine ⟨hextends.session, hextends.known, hmarks, ?_, ?_, ?_⟩
  · intro c
    rw [hcontents, List.mem_append]
    constructor
    · intro hc
      rcases hc with hold | hnew
      · obtain ⟨e, he, hcontent⟩ := List.mem_map.mp hold
        exact List.mem_map.mpr ⟨e, (List.mem_filter.mp he).1, hcontent⟩
      · exact absurd hnew (hnochunk c)
    · intro hc
      obtain ⟨e, he, hcontent⟩ := List.mem_map.mp hc
      refine Or.inl (List.mem_map.mpr ⟨e, List.mem_filter.mpr ⟨he, ?_⟩, hcontent⟩)
      rw [hcontent]
      exact decide_eq_true (hnochunk c)
  · intro hold
    rw [hcontents, List.nodup_append]
    refine ⟨hold.sublist (List.filter_sublist.map Entry.content), hnodup, ?_⟩
    intro x hx y hy heq
    obtain ⟨e, he, rfl⟩ := List.mem_map.mp hx
    exact of_decide_eq_true (List.mem_filter.mp he).2 (heq ▸ hy)
  · have hnumbered' := hextends.numbered hnumbered
    refine ⟨hnumbered'.ids.sublist (List.filter_sublist.map Entry.id), ?_⟩
    intro e he
    exact hnumbered'.below e (List.mem_filter.mp he).1

theorem entityItems_contents [CharTables] {session : ActiveSession}
    (hsub : items.Sublist (entityItems setup session)) :
    (forall i, i ∈ items -> exists name, i.content = Content.entity name) ∧
      (items.map Item.content).Nodup := by
  constructor
  · intro i hi
    have hmem := (List.mem_filter.mp (hsub.subset hi)).1
    obtain ⟨name, -, rfl⟩ := List.mem_map.mp hmem
    exact ⟨name, rfl⟩
  · refine List.Nodup.sublist (hsub.map Item.content) ?_
    refine List.Nodup.sublist (List.filter_sublist.map Item.content) ?_
    rw [List.map_map]
    refine List.Nodup.map ?_ Std.ExtTreeMap.nodup_keys
    intro name name' heq
    exact Content.entity.inj heq

theorem vectorizeEntities_refreshes [CharTables] (setup : Setup) (hnumbered : Numbered b)
    (outcome : Outcome) :
    Refreshed b (vectorizeEntities setup b outcome).1 ∧
      (vectorizeEntities setup b outcome).1.vectorizedMark = b.vectorizedMark := by
  unfold vectorizeEntities
  dsimp only
  split
  · exact ⟨Refreshed.refl hnumbered, rfl⟩
  · split
    · exact ⟨Refreshed.refl hnumbered, rfl⟩
    · next n _ =>
      generalize hitems : ((entityItems setup b.session).filter
        (fun i => !unchanged b i)).take n = items
      obtain ⟨hextends, hmarks, hadded⟩ := addAndPersistMany_extends
        setup hnumbered items outcome
      have hsub : (stored setup items outcome).Sublist
          (entityItems setup b.session) := by
        refine (stored_sublist setup items outcome).trans ?_
        rw [← hitems]
        exact (List.take_sublist _ _).trans List.filter_sublist
      obtain ⟨hentity, hnodup⟩ := entityItems_contents hsub
      rw [hadded]
      exact ⟨replaced_refreshes hnumbered hentity hnodup hextends hmarks,
        hextends.vectorizedMark⟩

/-- The updates are vectorized first, and the counts are kept only when all of
them are stored. -/
theorem vectorizeSession_refreshes [CharTables] (setup : Setup) (hnumbered : Numbered b)
    (updates entities : Outcome)
    (hitems : collectUpdates setup b.session (freshMarks b) = items) :
    exists middle,
      Extends b middle (keptItems setup items updates) ∧
      middle.marks = freshMarks b ++
        parsedIds ((keptItems setup items updates).map Item.content) ∧
      Refreshed middle (vectorizeSession setup b updates entities).1 ∧
      ((vectorizeSession setup b updates entities).1.vectorizedMark =
          b.vectorizedMark ∨
        keptItems setup items updates = items) := by
  obtain ⟨hextends, hmarks, hcomplete⟩ :=
    vectorizeContextUpdates_extends hnumbered updates hitems
  have hmarked : forall after : Books, Refreshed
      (vectorizeContextUpdates setup b updates).1 after ->
      Refreshed (vectorizeContextUpdates setup b updates).1
        (markVectorized after) := by
    intro after h
    exact ⟨h.session, h.known, h.marks, h.chunks, h.nodup,
      ⟨h.numbered.ids, h.numbered.below⟩⟩
  have hmiddle := hextends.numbered hnumbered
  refine ⟨_, hextends, hmarks, ?_⟩
  have hmark := hextends.vectorizedMark
  unfold vectorizeSession
  generalize vectorizeContextUpdates setup b updates = context at *
  obtain ⟨middle, result⟩ := context
  dsimp only at *
  cases result with
  | error e =>
      exact ⟨Refreshed.refl hmiddle, Or.inl hmark⟩
  | ok counted =>
      obtain ⟨n, updatesComplete⟩ := counted
      dsimp only
      have hall : updatesComplete = true -> keptItems setup items updates = items := by
        intro hflag
        exact hcomplete n (by rw [hflag])
      split
      · obtain ⟨hrefreshed, hsame⟩ :=
          vectorizeEntities_refreshes setup hmiddle entities
        generalize vectorizeEntities setup middle entities = described at *
        obtain ⟨after, result⟩ := described
        dsimp only at *
        cases result with
        | error e =>
            exact ⟨hrefreshed, Or.inl (hsame.trans hmark)⟩
        | ok counted =>
            obtain ⟨m, entitiesComplete⟩ := counted
            dsimp only
            split
            · next hboth =>
              rw [Bool.and_eq_true] at hboth
              exact ⟨hmarked after hrefreshed, Or.inr (hall hboth.1)⟩
            · exact ⟨hrefreshed, Or.inl (hsame.trans hmark)⟩
      · dsimp only
        split
        · next hflag =>
          exact ⟨hmarked middle (Refreshed.refl hmiddle), Or.inr (hall hflag)⟩
        · exact ⟨Refreshed.refl hmiddle, Or.inl hmark⟩

end

end Bookkeeping
end Vectors
end PostCortex
