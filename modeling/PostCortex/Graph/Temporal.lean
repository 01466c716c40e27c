import Mathlib.Data.Prod.Lex
import Mathlib.Data.Finset.Card
import Mathlib.Logic.Relation
import PostCortex.Graph.AliasResolution

/-!
# Validity intervals

`validity` of `graph/temporal.rs`: the records are walked in the order of time
and id, and each may end records before it, by an explicit link, by a relation
that conflicts with theirs, or by stating the same fact anew; a retired record
ends by itself.  A slot of the source keeps positions in that order, here the
records themselves.  An overlap of two word sets is a rational: the quotient of
the source is on the same side of the two bounds as long as the sets have fewer
than a million words.
-/

namespace PostCortex
namespace Graph

open PostCortex.Core

class WordTables extends CharTables where
  isAlphanumeric : Char -> Bool

namespace Temporal

inductive EndReason where
  | superseded
  | contradicted
  | restated
  | duplicate
  | forgotten
  deriving DecidableEq, Repr

structure Validity where
  validFrom : Timestamp
  validTo : Option Timestamp
  endedBy : Option Uuid
  reason : Option EndReason
  deriving DecidableEq, Repr

def Validity.isCurrent (v : Validity) : Bool :=
  v.validTo.isNone

abbrev Validities : Type := Uuid -> Option Validity

def validFrom (update : ContextUpdate) : Timestamp :=
  update.metadata.validFrom.getD update.timestamp

def stamp (update : ContextUpdate) : Timestamp ×ₗ Nat :=
  toLex (update.timestamp, update.id.toNat)

def inOrder (updates : List ContextUpdate) : List ContextUpdate :=
  updates.insertionSort (fun u w => stamp u ≤ stamp w)

def restatable : UpdateType -> Bool
  | UpdateType.decisionMade => true
  | UpdateType.requirementAdded => true
  | UpdateType.conceptDefined => true
  | UpdateType.questionAnswered => false
  | UpdateType.problemSolved => false
  | UpdateType.codeChanged => false

/-!
# Words
-/

def restateTitleOverlap : Rat :=
  1 / 2

def duplicateOverlap : Rat :=
  4 / 5

section

variable [WordTables]

def words (text : String) : Finset String :=
  (((text.toList.splitOnP (fun c => !WordTables.isAlphanumeric c)).filter
    (fun w => 3 ≤ w.length)).map
      (fun w => CharTables.lowercase (String.ofList w))).toFinset

end

def overlap (a b : Finset String) : Rat :=
  if (a ∪ b).card = 0 then 0
  else (a ∩ b).card / (a ∪ b).card

/-!
# Ending a record
-/

def Validity.endAt (v : Validity) (time : Timestamp) (ender : Option Uuid)
    (reason : EndReason) : Validity :=
  { v with
    validTo := some (max time v.validFrom)
    endedBy := ender
    reason := some reason }

/-- The closure `end`: the first to end a record wins, and none ends itself. -/
def endRecord (update : ContextUpdate) (reason : EndReason) (out : Validities)
    (old : Uuid) : Validities :=
  match out old with
  | some v =>
      if v.validTo = none ∧ old ≠ update.id then
        Function.update out old
          (some (v.endAt (validFrom update) (some update.id) reason))
      else out
  | none => out

def starting (update : ContextUpdate) : Validity where
  validFrom := validFrom update
  validTo := none
  endedBy := none
  reason := none

def started (ordered : List ContextUpdate) : Validities :=
  ordered.foldl
    (fun out update => Function.update out update.id (some (starting update)))
    (fun _ => none)

/-!
# The walk
-/

section

variable [WordTables]

def subject (update : ContextUpdate) (graph : EntityGraph) : List String :=
  ((mentionedNames update).map
    (fun n => entityKey ((graph.resolve n).getD n))).dedup.insertionSort
      (fun x y => x ≤ y)

def pair (a b : String) (graph : EntityGraph) : String × String :=
  let a := entityKey ((graph.resolve a).getD a)
  let b := entityKey ((graph.resolve b).getD b)
  if a ≤ b then (a, b) else (b, a)

structure Walk where
  out : Validities
  bySubject : UpdateType × List String -> List ContextUpdate
  byPair : String × String -> List (Uuid × RelationType)

def explicitly (update : ContextUpdate) (out : Validities) : Validities :=
  update.metadata.supersedes.foldl (endRecord update EndReason.superseded) out

def contradictions (relation : RelationType)
    (asserted : List (Uuid × RelationType)) : List Uuid :=
  if relation = RelationType.conflictsWith then
    (asserted.filter (fun a => a.2 ≠ RelationType.conflictsWith)).map Prod.fst
  else []

def relate (graph : EntityGraph) (update : ContextUpdate) (walk : Walk)
    (rel : EntityRelationship) : Walk :=
  let key := pair rel.fromEntity rel.toEntity graph
  { walk with
    out :=
      (contradictions rel.relationType (walk.byPair key)).foldl
        (endRecord update EndReason.contradicted) walk.out
    byPair :=
      Function.update walk.byPair key
        (walk.byPair key ++ [(update.id, rel.relationType)]) }

def text (update : ContextUpdate) : String :=
  update.content.title ++ " " ++ update.content.description

def restateReason (update older : ContextUpdate) : EndReason :=
  if duplicateOverlap ≤ overlap (words (text update)) (words (text older)) then
    EndReason.duplicate
  else EndReason.restated

def restate (update : ContextUpdate) (out : Validities)
    (older : ContextUpdate) : Validities :=
  if (out older.id).any Validity.isCurrent ∧
      restateTitleOverlap ≤
        overlap (words update.content.title) (words older.content.title) then
    endRecord update (restateReason update older) out older.id
  else out

def restateAll (graph : EntityGraph) (update : ContextUpdate) (walk : Walk) :
    Walk :=
  let names := subject update graph
  if restatable update.updateType ∧ names ≠ [] then
    let key := (update.updateType, names)
    { walk with
      out := (walk.bySubject key).foldl (restate update) walk.out
      bySubject :=
        Function.update walk.bySubject key (walk.bySubject key ++ [update]) }
  else walk

def visit (graph : EntityGraph) (walk : Walk) (update : ContextUpdate) : Walk :=
  restateAll graph update
    (update.createsRelationships.foldl (relate graph update)
      { walk with out := explicitly update walk.out })

def walkAll (graph : EntityGraph) (ordered : List ContextUpdate) : Walk :=
  ordered.foldl (visit graph) ⟨started ordered, fun _ => [], fun _ => []⟩

end

def retire (out : Validities) (update : ContextUpdate) : Validities :=
  match update.metadata.retiredAt, out update.id with
  | some time, some v =>
      if v.validTo.all (fun ended => time < ended) then
        Function.update out update.id
          (some (v.endAt time none EndReason.forgotten))
      else out
  | _, _ => out

def validity [WordTables] (updates : List ContextUpdate) (graph : EntityGraph) :
    Validities :=
  let ordered := inOrder updates
  ordered.foldl retire (walkAll graph ordered).out

/-!
# The order of the walk
-/

variable {u : ContextUpdate}

theorem stamp_inj {w : ContextUpdate} (h : stamp u = stamp w) :
    u.id = w.id := by
  have hpair := toLex.injective h
  exact BitVec.eq_of_toNat_eq (congrArg Prod.snd hpair)

variable {updates : List ContextUpdate}

theorem mem_inOrder :
    u ∈ inOrder updates ↔ u ∈ updates :=
  List.mem_insertionSort _

theorem inOrder_ids_nodup (hids : (updates.map ContextUpdate.id).Nodup) :
    ((inOrder updates).map ContextUpdate.id).Nodup :=
  ((List.perm_insertionSort _ updates).map ContextUpdate.id).nodup_iff.mpr hids

theorem inOrder_pairwise (hids : (updates.map ContextUpdate.id).Nodup) :
    (inOrder updates).Pairwise (fun u w => stamp u < stamp w) := by
  have hle : (inOrder updates).Pairwise (fun u w => stamp u ≤ stamp w) := by
    have : Std.Total (fun u w : ContextUpdate => stamp u ≤ stamp w) :=
      ⟨fun u w => le_total (stamp u) (stamp w)⟩
    have : IsTrans ContextUpdate (fun u w => stamp u ≤ stamp w) :=
      ⟨fun _ _ _ => le_trans⟩
    exact List.pairwise_insertionSort _ updates
  have hne : (inOrder updates).Pairwise (fun u w => u.id ≠ w.id) :=
    List.pairwise_map.mp (inOrder_ids_nodup hids)
  apply (hle.and hne).imp
  rintro u w ⟨hstamp, hid⟩
  exact lt_of_le_of_ne hstamp (fun h => hid (stamp_inj h))

/-!
# Well-formed validity
-/

/-- What holds of the validity computed for one record of a set. -/
structure WellFormed (records : List ContextUpdate) (update : ContextUpdate)
    (v : Validity) : Prop where
  starts : v.validFrom = validFrom update
  ends : forall time, v.validTo = some time -> v.validFrom ≤ time
  reasoned : v.reason.isSome = v.validTo.isSome
  unended : v.endedBy = none ↔
    v.isCurrent = true ∨ v.reason = some EndReason.forgotten
  ended : forall id, v.endedBy = some id ->
    exists w, w ∈ records ∧ w.id = id ∧ id ≠ update.id ∧ stamp update < stamp w

theorem wellFormed_starting (records : List ContextUpdate)
    (update : ContextUpdate) :
    WellFormed records update (starting update) where
  starts := rfl
  ends := by
    intro time h
    cases h
  reasoned := rfl
  unended := by simp [starting, Validity.isCurrent]
  ended := by
    intro id h
    cases h

variable {records : List ContextUpdate} {update : ContextUpdate} {v : Validity}
  {reason : EndReason}

theorem WellFormed.endAt_later {later : ContextUpdate}
    (h : WellFormed records update v) (hlater : later ∈ records)
    (hid : update.id ≠ later.id) (hstamp : stamp update < stamp later)
    (hreason : reason ≠ EndReason.forgotten) :
    WellFormed records update
      (v.endAt (validFrom later) (some later.id) reason) where
  starts := h.starts
  ends := by
    intro time htime
    cases htime
    exact le_max_right _ _
  reasoned := rfl
  unended := by simp [Validity.endAt, Validity.isCurrent, hreason]
  ended := by
    intro id hended
    cases hended
    exact ⟨later, hlater, rfl, hid.symm, hstamp⟩

theorem WellFormed.endAt_forgotten (h : WellFormed records update v)
    (time : Timestamp) :
    WellFormed records update (v.endAt time none EndReason.forgotten) where
  starts := h.starts
  ends := by
    intro ended htime
    cases htime
    exact le_max_right _ _
  reasoned := rfl
  unended := by simp [Validity.endAt]
  ended := by
    intro id hended
    cases hended

/-- Exactly the records have a validity, and it is well formed. -/
structure Sound (records : List ContextUpdate) (out : Validities) : Prop where
  total : forall u, u ∈ records ->
    exists v, out u.id = some v ∧ WellFormed records u v
  known : forall id v, out id = some v -> exists u, u ∈ records ∧ u.id = id

variable {out : Validities}

theorem Sound.put (h : Sound records out)
    (hids : (records.map ContextUpdate.id).Nodup) (hu : u ∈ records)
    (hv : WellFormed records u v) :
    Sound records (Function.update out u.id (some v)) where
  total := by
    intro w hw
    by_cases hid : w.id = u.id
    · have hsame : w = u := List.inj_on_of_nodup_map hids hw hu hid
      subst hsame
      exact ⟨v, Function.update_self _ _ _, hv⟩
    · rw [Function.update_of_ne hid]
      exact h.total w hw
  known := by
    intro id w hw
    by_cases hid : id = u.id
    · exact ⟨u, hu, hid.symm⟩
    · rw [Function.update_of_ne hid] at hw
      exact h.known id w hw

/-- A record that `update` may end: it is `update` itself or before it. -/
def Endable (records : List ContextUpdate) (update : ContextUpdate)
    (old : Uuid) : Prop :=
  exists w, w ∈ records ∧ w.id = old ∧
    (old ≠ update.id -> stamp w < stamp update)

theorem Sound.endRecord (h : Sound records out)
    (hids : (records.map ContextUpdate.id).Nodup) (hupdate : update ∈ records)
    {old : Uuid} (hold : Endable records update old)
    (hreason : reason ≠ EndReason.forgotten) :
    Sound records (endRecord update reason out old) := by
  obtain ⟨w, hw, rfl, hbefore⟩ := hold
  unfold Temporal.endRecord
  obtain ⟨v, hv, hform⟩ := h.total w hw
  simp only [hv]
  split
  · next hends =>
    exact h.put hids hw
      (hform.endAt_later hupdate hends.2 (hbefore hends.2) hreason)
  · exact h

theorem Sound.endAll (h : Sound records out)
    (hids : (records.map ContextUpdate.id).Nodup) (hupdate : update ∈ records)
    {olds : List Uuid}
    (holds : forall old, old ∈ olds -> Endable records update old)
    (hreason : reason ≠ EndReason.forgotten) :
    Sound records (olds.foldl (Temporal.endRecord update reason) out) := by
  refine List.foldlRecOn olds _ h ?_
  intro out hout old hold
  exact hout.endRecord hids hupdate (holds old hold) hreason

theorem Sound.retire (h : Sound records out)
    (hids : (records.map ContextUpdate.id).Nodup) (hupdate : update ∈ records) :
    Sound records (retire out update) := by
  obtain ⟨v, hv, hform⟩ := h.total update hupdate
  unfold Temporal.retire
  split
  · next time w hretired hw =>
    rw [hv] at hw
    cases hw
    split
    · exact h.put hids hupdate (hform.endAt_forgotten time)
    · exact h
  · exact h

theorem started_snoc (xs : List ContextUpdate) (u : ContextUpdate) :
    started (xs ++ [u]) =
      Function.update (started xs) u.id (some (starting u)) := by
  simp [started]

variable {xs : List ContextUpdate}

theorem started_known {id : Uuid} (h : started xs id = some v) :
    exists u, u ∈ xs ∧ u.id = id ∧ v = starting u := by
  induction xs using List.reverseRecOn with
  | nil => cases h
  | append_singleton xs w ih =>
      rw [started_snoc] at h
      by_cases hid : id = w.id
      · subst hid
        rw [Function.update_self] at h
        exact ⟨w, by simp, rfl, (Option.some.inj h).symm⟩
      · rw [Function.update_of_ne hid] at h
        obtain ⟨u, hu, hsame, hv⟩ := ih h
        exact ⟨u, List.mem_append_left _ hu, hsame, hv⟩

theorem started_total (hu : u ∈ xs) :
    exists v, started xs u.id = some v := by
  induction xs using List.reverseRecOn with
  | nil => cases hu
  | append_singleton xs w ih =>
      rw [started_snoc]
      by_cases hid : u.id = w.id
      · exact ⟨starting w, by rw [hid, Function.update_self]⟩
      · rw [Function.update_of_ne hid]
        rcases List.mem_append.mp hu with hxs | hw
        · exact ih hxs
        · exact absurd (congrArg ContextUpdate.id (List.mem_singleton.mp hw)) hid

theorem started_sound (hids : (records.map ContextUpdate.id).Nodup) :
    Sound records (started records) where
  total := by
    intro u hu
    obtain ⟨v, hv⟩ := started_total hu
    obtain ⟨w, hw, hid, rfl⟩ := started_known hv
    have hsame : w = u := List.inj_on_of_nodup_map hids hw hu hid
    subst hsame
    exact ⟨_, hv, wellFormed_starting _ _⟩
  known := by
    intro id v hv
    obtain ⟨u, hu, hid, _⟩ := started_known hv
    exact ⟨u, hu, hid⟩

/-!
# The walk keeps it
-/

/-- The slots of the walk hold only records that it has seen. -/
structure Walked (records seen : List ContextUpdate) (walk : Walk) : Prop where
  sound : Sound records walk.out
  subjects : forall key older, older ∈ walk.bySubject key -> older ∈ seen
  pairs : forall key a, a ∈ walk.byPair key ->
    exists w, w ∈ seen ∧ w.id = a.1

theorem Walked.mono {seen more : List ContextUpdate} {walk : Walk}
    (h : Walked records seen walk) (hmore : forall w, w ∈ seen -> w ∈ more) :
    Walked records more walk where
  sound := h.sound
  subjects := fun key older holder => hmore older (h.subjects key older holder)
  pairs := by
    intro key a ha
    obtain ⟨w, hw, hid⟩ := h.pairs key a ha
    exact ⟨w, hmore w hw, hid⟩

section

variable [WordTables]

/-- What `visit` relies on: the record and those seen before it stand in
order, and so do the links of the record. -/
structure Placed (records seen : List ContextUpdate)
    (update : ContextUpdate) : Prop where
  ids : (records.map ContextUpdate.id).Nodup
  record : update ∈ records
  here : update ∈ seen
  before : forall w, w ∈ seen -> Endable records update w.id
  links : forall old, old ∈ update.metadata.supersedes ->
    Endable records update old

variable {records seen : List ContextUpdate} {walk : Walk} {update : ContextUpdate}

theorem Walked.relate (h : Walked records seen walk)
    (hplaced : Placed records seen update) (graph : EntityGraph)
    (rel : EntityRelationship) :
    Walked records seen (relate graph update walk rel) where
  sound := by
    refine h.sound.endAll hplaced.ids hplaced.record ?_ (by decide)
    intro old hold
    unfold contradictions at hold
    split at hold
    · obtain ⟨a, ha, rfl⟩ := List.mem_map.mp hold
      obtain ⟨w, hw, hid⟩ := h.pairs _ a (List.mem_of_mem_filter ha)
      rw [← hid]
      exact hplaced.before w hw
    · cases hold
  subjects := h.subjects
  pairs := by
    intro key a ha
    simp only [Temporal.relate] at ha
    by_cases hkey : key = pair rel.fromEntity rel.toEntity graph
    · rw [hkey, Function.update_self] at ha
      rcases List.mem_append.mp ha with hold | hnew
      · exact h.pairs _ a hold
      · rw [List.mem_singleton.mp hnew]
        exact ⟨update, hplaced.here, rfl⟩
    · rw [Function.update_of_ne hkey] at ha
      exact h.pairs key a ha

theorem Sound.restate {out : Validities} (h : Sound records out)
    (hids : (records.map ContextUpdate.id).Nodup) {older : ContextUpdate}
    (hupdate : update ∈ records) (holder : Endable records update older.id) :
    Sound records (restate update out older) := by
  unfold Temporal.restate
  split
  · refine h.endRecord hids hupdate holder ?_
    unfold restateReason
    split
    · decide
    · decide
  · exact h

theorem Walked.restateAll (h : Walked records seen walk)
    (hplaced : Placed records seen update) (graph : EntityGraph) :
    Walked records seen (restateAll graph update walk) := by
  unfold Temporal.restateAll
  dsimp only
  split
  · constructor
    · refine List.foldlRecOn (walk.bySubject _) _ h.sound ?_
      intro out hout older holder
      exact hout.restate hplaced.ids hplaced.record
        (hplaced.before older (h.subjects _ older holder))
    · intro key older holder
      simp only at holder
      by_cases hkey : key = (update.updateType, subject update graph)
      · rw [hkey, Function.update_self] at holder
        rcases List.mem_append.mp holder with hold | hnew
        · exact h.subjects _ older hold
        · rw [List.mem_singleton.mp hnew]
          exact hplaced.here
      · rw [Function.update_of_ne hkey] at holder
        exact h.subjects key older holder
    · exact h.pairs
  · exact h

theorem Walked.visit (h : Walked records seen walk)
    (hplaced : Placed records seen update) (graph : EntityGraph) :
    Walked records seen (visit graph walk update) := by
  have hlinks : Walked records seen
      { walk with out := explicitly update walk.out } :=
    ⟨h.sound.endAll hplaced.ids hplaced.record hplaced.links (by decide),
      h.subjects, h.pairs⟩
  have hrelations : Walked records seen
      (update.createsRelationships.foldl (Temporal.relate graph update)
        { walk with out := explicitly update walk.out }) := by
    refine List.foldlRecOn _ _ hlinks ?_
    intro walk hwalk rel _
    exact hwalk.relate hplaced graph rel
  exact hrelations.restateAll hplaced graph

def LinksEarlier (records : List ContextUpdate) : Prop :=
  forall u, u ∈ records -> forall old, old ∈ u.metadata.supersedes ->
    exists w, w ∈ records ∧ w.id = old ∧ stamp w < stamp u

theorem walkAll_walked {ordered : List ContextUpdate}
    (hids : (ordered.map ContextUpdate.id).Nodup)
    (horder : ordered.Pairwise (fun u w => stamp u < stamp w))
    (hlinks : LinksEarlier ordered) (graph : EntityGraph) :
    Walked ordered ordered (walkAll graph ordered) := by
  have hrest : forall (rest seen : List ContextUpdate) (walk : Walk),
      ordered = seen ++ rest -> Walked ordered seen walk ->
      Walked ordered ordered (rest.foldl (Temporal.visit graph) walk) := by
    intro rest
    induction rest with
    | nil =>
        intro seen walk hsplit hwalk
        rw [List.append_nil] at hsplit
        rw [hsplit] at hwalk ⊢
        exact hwalk
    | cons update rest ih =>
        intro seen walk hsplit hwalk
        have hsplit' : ordered = (seen ++ [update]) ++ rest := by
          rw [hsplit, List.append_assoc]
          rfl
        have hrecord : update ∈ ordered := by
          rw [hsplit]
          simp
        have hplaced : Placed ordered (seen ++ [update]) update := by
          refine ⟨hids, hrecord, by simp, ?_, ?_⟩
          · intro w hw
            refine ⟨w, ?_, rfl, ?_⟩
            · rw [hsplit']
              exact List.mem_append_left _ hw
            · intro hid
              rcases List.mem_append.mp hw with hseen | hlast
              · rw [hsplit] at horder
                exact (List.pairwise_append.mp horder).2.2 w hseen update
                  (List.mem_cons_self ..)
              · rw [List.mem_singleton.mp hlast] at hid
                exact absurd rfl hid
          · intro old hold
            obtain ⟨w, hw, hid, hstamp⟩ := hlinks update hrecord old hold
            exact ⟨w, hw, hid, fun _ => hstamp⟩
        exact ih (seen ++ [update]) _ hsplit'
          ((hwalk.mono (fun w hw => List.mem_append_left _ hw)).visit hplaced
            graph)
  refine hrest ordered [] _ rfl ⟨started_sound hids, ?_, ?_⟩
  · intro key older holder
    cases holder
  · intro key a ha
    cases ha

end

/-!
# Following `ended_by`
-/

def EndedBy (out : Validities) (a b : Uuid) : Prop :=
  exists v, out a = some v ∧ v.endedBy = some b

theorem Sound.later (h : Sound records out) {a b : Uuid}
    (hids : (records.map ContextUpdate.id).Nodup)
    (hchain : Relation.TransGen (EndedBy out) a b) :
    exists u w, u ∈ records ∧ w ∈ records ∧ u.id = a ∧ w.id = b ∧
      stamp u < stamp w := by
  have hlink : forall a b, EndedBy out a b ->
      exists u w, u ∈ records ∧ w ∈ records ∧ u.id = a ∧ w.id = b ∧
        stamp u < stamp w := by
    rintro a b ⟨v, hv, hended⟩
    obtain ⟨u, hu, rfl⟩ := h.known a v hv
    obtain ⟨v', hv', hform⟩ := h.total u hu
    rw [hv] at hv'
    cases hv'
    obtain ⟨w, hw, hid, _, hstamp⟩ := hform.ended b hended
    exact ⟨u, w, hu, hw, rfl, hid, hstamp⟩
  induction hchain with
  | single hab => exact hlink _ _ hab
  | tail _ hbc ih =>
      obtain ⟨u, w, hu, hw, hua, hwb, hstamp⟩ := ih
      obtain ⟨w', x, hw', hx, hwb', hxc, hstamp'⟩ := hlink _ _ hbc
      have hsame : w = w' :=
        List.inj_on_of_nodup_map hids hw hw' (hwb.trans hwb'.symm)
      subst hsame
      exact ⟨u, x, hu, hx, hua, hxc, hstamp.trans hstamp'⟩

theorem Sound.acyclic (h : Sound records out)
    (hids : (records.map ContextUpdate.id).Nodup) (a : Uuid) :
    ¬ Relation.TransGen (EndedBy out) a a := by
  intro hcycle
  obtain ⟨u, w, hu, hw, hua, hwa, hstamp⟩ := h.later hids hcycle
  have hsame : u = w :=
    List.inj_on_of_nodup_map hids hu hw (hua.trans hwa.symm)
  subst hsame
  exact lt_irrefl _ hstamp

section

variable [WordTables]

/-- The validity of every record of a set whose links name earlier records is
well formed, and following `ended_by` never comes back. -/
theorem validity_well_formed (graph : EntityGraph)
    (updates : List ContextUpdate)
    (hids : (updates.map ContextUpdate.id).Nodup)
    (hlinks : LinksEarlier updates) :
    (forall u, u ∈ updates ->
      exists v, validity updates graph u.id = some v ∧
        WellFormed updates u v) ∧
    forall a, ¬ Relation.TransGen (EndedBy (validity updates graph)) a a := by
  have hids' := inOrder_ids_nodup hids
  have hwalked := walkAll_walked hids' (inOrder_pairwise hids)
    (fun u hu old hold => by
      obtain ⟨w, hw, hid⟩ := hlinks u (mem_inOrder.mp hu) old hold
      exact ⟨w, mem_inOrder.mpr hw, hid⟩) graph
  have hsound : Sound (inOrder updates) (validity updates graph) := by
    refine List.foldlRecOn (inOrder updates) Temporal.retire hwalked.sound ?_
    intro out hout update hupdate
    exact hout.retire hids' hupdate
  constructor
  · intro u hu
    obtain ⟨v, hv, hform⟩ := hsound.total u (mem_inOrder.mpr hu)
    refine ⟨v, hv, { hform with ended := ?_ }⟩
    intro id hended
    obtain ⟨w, hw, hlater⟩ := hform.ended id hended
    exact ⟨w, mem_inOrder.mp hw, hlater⟩
  · exact hsound.acyclic hids'

end

/-!
# Starts
-/

def SameStarts (out out' : Validities) : Prop :=
  forall id, (out' id).map Validity.validFrom = (out id).map Validity.validFrom

theorem SameStarts.refl (out : Validities) : SameStarts out out :=
  fun _ => rfl

theorem SameStarts.trans {out' out'' : Validities} (h : SameStarts out out')
    (h' : SameStarts out' out'') : SameStarts out out'' :=
  fun id => (h' id).trans (h id)

theorem SameStarts.foldl {input : Type} {f : Validities -> input -> Validities}
    (hf : forall out x, SameStarts out (f out x)) (xs : List input) (out : Validities) :
    SameStarts out (xs.foldl f out) := by
  induction xs generalizing out with
  | nil => exact SameStarts.refl out
  | cons x rest ih => exact (hf out x).trans (ih (f out x))

theorem sameStarts_update {id : Uuid} (hv : out id = some v) (time : Timestamp)
    (ender : Option Uuid) (reason : EndReason) :
    SameStarts out (Function.update out id (some (v.endAt time ender reason))) := by
  intro x
  by_cases hx : x = id
  · rw [hx, Function.update_self, hv]
    rfl
  · rw [Function.update_of_ne hx]

theorem sameStarts_endRecord (update : ContextUpdate) (reason : EndReason)
    (out : Validities) (old : Uuid) :
    SameStarts out (endRecord update reason out old) := by
  unfold endRecord
  cases hv : out old with
  | none => exact SameStarts.refl out
  | some v =>
      dsimp only
      split
      · exact sameStarts_update hv _ _ _
      · exact SameStarts.refl out

theorem sameStarts_retire (out : Validities) (update : ContextUpdate) :
    SameStarts out (retire out update) := by
  unfold retire
  split
  · next time v hretired hv =>
    split
    · exact sameStarts_update hv _ _ _
    · exact SameStarts.refl out
  · exact SameStarts.refl out

section

variable [WordTables]

theorem sameStarts_visit (graph : EntityGraph) (walk : Walk) (update : ContextUpdate) :
    SameStarts walk.out (visit graph walk update).out := by
  have hrelate : forall (rels : List EntityRelationship) (walk : Walk),
      SameStarts walk.out (rels.foldl (relate graph update) walk).out := by
    intro rels
    induction rels with
    | nil => exact fun walk => SameStarts.refl walk.out
    | cons rel rest ih =>
        intro walk
        exact (SameStarts.foldl (sameStarts_endRecord update _) _ walk.out).trans
          (ih (relate graph update walk rel))
  have hrestate : forall walk : Walk,
      SameStarts walk.out (restateAll graph update walk).out := by
    intro walk
    unfold restateAll
    dsimp only
    split
    · apply SameStarts.foldl
      intro out older
      unfold restate
      split
      · exact sameStarts_endRecord update _ out older.id
      · exact SameStarts.refl out
    · exact SameStarts.refl walk.out
  have hlinks : SameStarts walk.out (explicitly update walk.out) :=
    SameStarts.foldl (sameStarts_endRecord update _) _ walk.out
  exact hlinks.trans ((hrelate update.createsRelationships _).trans (hrestate _))

theorem validity_starts (graph : EntityGraph) {updates : List ContextUpdate}
    (hids : (updates.map ContextUpdate.id).Nodup) {u : ContextUpdate} (hu : u ∈ updates) :
    exists v, validity updates graph u.id = some v ∧ v.validFrom = validFrom u := by
  have hwalk : forall (rest : List ContextUpdate) (walk : Walk),
      SameStarts walk.out (rest.foldl (visit graph) walk).out := by
    intro rest
    induction rest with
    | nil => exact fun walk => SameStarts.refl walk.out
    | cons w rest ih =>
        exact fun walk => (sameStarts_visit graph walk w).trans (ih (visit graph walk w))
  obtain ⟨v, hv, hform⟩ :=
    (started_sound (inOrder_ids_nodup hids)).total u (mem_inOrder.mpr hu)
  have hstarts : SameStarts (started (inOrder updates)) (validity updates graph) :=
    (hwalk (inOrder updates) ⟨started (inOrder updates), fun _ => [], fun _ => []⟩).trans
      (SameStarts.foldl sameStarts_retire _ _)
  have hstart := hstarts u.id
  rw [hv, Option.map_some, hform.starts, Option.map_eq_some_iff] at hstart
  exact hstart

end

@[reducible] def asciiWords : WordTables :=
  { EntityGraph.asciiTables with isAlphanumeric := Char.isAlphanum }

attribute [local instance] asciiWords

def recordOf (id : Uuid) (timestamp : Timestamp) (title : String)
    (supersedes : List Uuid) (validFrom retiredAt : Option Timestamp) :
    ContextUpdate :=
  { ContextUpdate.plain id timestamp "" with
    content :=
      { (ContextUpdate.plain id timestamp "").content with title := title }
    referencesEntities := ["storage"]
    metadata :=
      { UpdateMeta.default with
        validFrom := validFrom
        supersedes := supersedes
        retiredAt := retiredAt } }

/-- One record is replaced from before it was written, one is restated, and
one is retired before it starts. -/
def replacedRecords : List ContextUpdate :=
  [recordOf 2 10 "move away" [1] (some 5) none,
    recordOf 1 0 "use the rocksdb store" [] (some 7) none,
    recordOf 4 30 "the rocksdb store cache" [] none (some 20),
    recordOf 3 20 "the rocksdb store options" [] none none]

theorem validity_well_formed_replaced :
    ((forall u, u ∈ replacedRecords ->
      exists v, validity replacedRecords EntityGraph.new u.id = some v ∧
        WellFormed replacedRecords u v) ∧
    forall a, ¬ Relation.TransGen
      (EndedBy (validity replacedRecords EntityGraph.new)) a a) ∧
    [1, 2, 3, 4].map (validity replacedRecords EntityGraph.new) =
      [some ⟨7, some 7, some 2, some EndReason.superseded⟩,
        some ⟨5, none, none, none⟩,
        some ⟨20, some 30, some 4, some EndReason.restated⟩,
        some ⟨30, some 30, none, some EndReason.forgotten⟩] := by
  have hlinks : replacedRecords.all (fun u =>
      u.metadata.supersedes.all (fun old =>
        replacedRecords.any (fun w => w.id = old ∧ stamp w < stamp u))) := by
    decide +kernel
  refine ⟨validity_well_formed EntityGraph.new replacedRecords (by decide) ?_,
    ?_⟩
  · intro u hu old hold
    have hlink := List.all_eq_true.mp (List.all_eq_true.mp hlinks u hu) old hold
    obtain ⟨w, hw, hearlier⟩ := List.any_eq_true.mp hlink
    exact ⟨w, hw, of_decide_eq_true hearlier⟩
  · decide +kernel

end Temporal
end Graph
end PostCortex
