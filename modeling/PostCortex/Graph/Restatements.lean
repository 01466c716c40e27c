import PostCortex.Graph.Appending

/-!
# Which records end

The rules of `graph/temporal.rs` are complete: a record that a later one restates
has ended, a record that has ended was ended by one of the rules, and the order in
which the records are given does not matter.  The walk compares a record with the
records of its slot that are still current; the invariant speaks of all earlier
records, because one that is no longer current stays so.
-/

namespace PostCortex
namespace Graph
namespace Temporal

open PostCortex.Core

section

variable [WordTables]

/-!
# The rules
-/

/-- The newer record is of the same restatable kind, about the same entities, under
a similar title. -/
structure Restates (graph : EntityGraph) (older newer : ContextUpdate) : Prop where
  later : stamp older < stamp newer
  kind : older.updateType = newer.updateType
  restatable : restatable newer.updateType = true
  subject : subject older graph = subject newer graph
  nonempty : Temporal.subject newer graph ≠ []
  titles : restateTitleOverlap ≤
    overlap (words newer.content.title) (words older.content.title)

/-- The newer record asserts a conflict between two entities of which the older one
asserted another relation. -/
structure Contradicts (graph : EntityGraph) (older newer : ContextUpdate) : Prop where
  later : stamp older < stamp newer
  relations : exists asserted rel, asserted ∈ older.createsRelationships ∧
    rel ∈ newer.createsRelationships ∧
    asserted.relationType ≠ RelationType.conflictsWith ∧
    rel.relationType = RelationType.conflictsWith ∧
    pair asserted.fromEntity asserted.toEntity graph =
      pair rel.fromEntity rel.toEntity graph

/-- The record ended when `ender` began to hold, for this reason. -/
structure EndedAs (v : Validity) (ender : ContextUpdate) (reason : EndReason) :
    Prop where
  time : v.validTo = some (max (validFrom ender) v.validFrom)
  ender : v.endedBy = some ender.id
  reason : v.reason = some reason

inductive Rule (graph : EntityGraph) (records : List ContextUpdate)
    (u : ContextUpdate) (v : Validity) : Prop where
  | superseded (w : ContextUpdate) (record : w ∈ records) (other : u.id ≠ w.id)
      (link : u.id ∈ w.metadata.supersedes)
      (ended : EndedAs v w EndReason.superseded)
  | contradicted (w : ContextUpdate) (record : w ∈ records)
      (conflict : Contradicts graph u w) (ended : EndedAs v w EndReason.contradicted)
  | restated (w : ContextUpdate) (record : w ∈ records)
      (restates : Restates graph u w) (ended : EndedAs v w (restateReason w u))
  | retired (time : Timestamp) (retiredAt : u.metadata.retiredAt = some time)
      (ended : v.validTo = some (max time v.validFrom)) (ender : v.endedBy = none)
      (reason : v.reason = some EndReason.forgotten)

def Ruled (graph : EntityGraph) (records : List ContextUpdate) (out : Validities) :
    Prop :=
  forall u, u ∈ records -> forall v, out u.id = some v -> v.isCurrent = false ->
    Rule graph records u v

variable {graph : EntityGraph} {records : List ContextUpdate} {out : Validities}

variable {reason : EndReason}

theorem Ruled.endRecord (h : Ruled graph records out) {update : ContextUpdate}
    {old : Uuid} (hrule : forall u, u ∈ records -> u.id = old -> u.id ≠ update.id ->
      forall v, EndedAs v update reason -> Rule graph records u v) :
    Ruled graph records (endRecord update reason out old) := by
  intro u hu v hv hended
  rw [endRecord_at] at hv
  by_cases hid : u.id = old
  · rw [if_pos hid, Option.map_eq_some_iff] at hv
    obtain ⟨before, hbefore, rfl⟩ := hv
    unfold endedBy at hended ⊢
    split at hended
    · next hends =>
        rw [if_pos hends]
        exact hrule u hu hid hends.2 _ ⟨rfl, rfl, rfl⟩
    · next hkeeps =>
        rw [if_neg hkeeps]
        exact h u hu before hbefore hended
  · rw [if_neg hid] at hv
    exact h u hu v hv hended

theorem Ruled.endAll (h : Ruled graph records out) {update : ContextUpdate}
    {olds : List Uuid}
    (hrule : forall u, u ∈ records -> u.id ∈ olds -> u.id ≠ update.id ->
      forall v, EndedAs v update reason -> Rule graph records u v) :
    Ruled graph records (olds.foldl (Temporal.endRecord update reason) out) := by
  refine List.foldlRecOn olds _ h ?_
  intro out hout old hold
  exact hout.endRecord (fun u hu hid => hrule u hu (hid ▸ hold))

variable {older : ContextUpdate}

theorem Ruled.restate (h : Ruled graph records out) {update : ContextUpdate}
    (hids : (records.map ContextUpdate.id).Nodup) (holder : older ∈ records)
    (hrule : older.id ≠ update.id ->
      restateTitleOverlap ≤
        overlap (words update.content.title) (words older.content.title) ->
      forall v, EndedAs v update (restateReason update older) ->
        Rule graph records older v) :
    Ruled graph records (restate update out older) := by
  unfold Temporal.restate
  split
  · next hsimilar =>
      refine h.endRecord ?_
      intro u hu hid hother v hended
      have hsame : u = older := List.inj_on_of_nodup_map hids hu holder hid
      subst hsame
      exact hrule hother hsimilar.2 v hended
  · exact h

theorem ruled_started (graph : EntityGraph) (records : List ContextUpdate) :
    Ruled graph records (started records) := by
  intro u _ v hv hended
  obtain ⟨w, _, _, rfl⟩ := started_known hv
  cases hended

/-!
# Ending what is restated
-/

def Ended (out : Validities) (id : Uuid) : Prop :=
  exists v, out id = some v ∧ v.isCurrent = false

omit [WordTables] in
theorem Keeps.ended {f : Validities -> Validities} (h : Keeps f) {id : Uuid}
    (hended : Ended out id) :
    Ended (f out) id := by
  obtain ⟨v, hv, hold⟩ := hended
  obtain ⟨w, hw, hcontinues⟩ := h out id v hv
  rw [hcontinues.ended hold] at hw
  exact ⟨v, hw, hold⟩

variable {v : Validity}

theorem restate_ends {update : ContextUpdate} (hid : older.id ≠ update.id)
    (htitles : restateTitleOverlap ≤
      overlap (words update.content.title) (words older.content.title))
    (hv : out older.id = some v) :
    Ended (restate update out older) older.id := by
  unfold Temporal.restate
  by_cases hcurrent : v.isCurrent = true
  · rw [if_pos ⟨by rw [hv]; exact hcurrent, htitles⟩]
    refine ⟨endedBy update (restateReason update older) older.id v, ?_, ?_⟩
    · rw [endRecord_at, if_pos rfl, hv]
      rfl
    · rw [endedBy, if_pos ⟨Option.isNone_iff_eq_none.mp hcurrent, hid⟩]
      rfl
  · have hended := Bool.eq_false_of_not_eq_true hcurrent
    rw [if_neg]
    · exact ⟨v, hv, hended⟩
    · rintro ⟨hany, _⟩
      rw [hv, Option.any_some, hended] at hany
      cases hany

theorem foldl_restate_ends {update : ContextUpdate} (hid : older.id ≠ update.id)
    (htitles : restateTitleOverlap ≤
      overlap (words update.content.title) (words older.content.title))
    {slot : List ContextUpdate} (hslot : older ∈ slot) (hv : out older.id = some v) :
    Ended (slot.foldl (restate update) out) older.id := by
  obtain ⟨before, after, rfl⟩ := List.append_of_mem hslot
  rw [List.foldl_append, List.foldl_cons]
  have hbefore : Keeps (fun out => before.foldl (restate update) out) :=
    Keeps.foldl (keeps_restate update)
  obtain ⟨w, hw, _⟩ := hbefore out older.id v hv
  exact Keeps.ended (Keeps.foldl (keeps_restate update)) (restate_ends hid htitles hw)

/-!
# The walk
-/

def PairsOf (graph : EntityGraph) (seen : List ContextUpdate)
    (byPair : String × String -> List (Uuid × RelationType)) : Prop :=
  forall key a, a ∈ byPair key -> exists w, w ∈ seen ∧ w.id = a.1 ∧
    exists rel, rel ∈ w.createsRelationships ∧ rel.relationType = a.2 ∧
      pair rel.fromEntity rel.toEntity graph = key

/-- The slots hold the restatable ones of these records. -/
structure SlotsOf (graph : EntityGraph) (seen : List ContextUpdate)
    (bySubject : UpdateType × List String -> List ContextUpdate) : Prop where
  sound : forall key older, older ∈ bySubject key -> older ∈ seen ∧
    key = (older.updateType, subject older graph)
  complete : forall older, older ∈ seen -> restatable older.updateType = true ->
    subject older graph ≠ [] ->
      older ∈ bySubject (older.updateType, subject older graph)

/-- After some of the records: the slots are theirs, what has ended was ended by a
rule, and what one of them restated has ended. -/
structure Traced (graph : EntityGraph) (records seen : List ContextUpdate)
    (walk : Walk) : Prop where
  ruled : Ruled graph records walk.out
  total : forall u, u ∈ records -> exists v, walk.out u.id = some v
  slots : SlotsOf graph seen walk.bySubject
  pairs : PairsOf graph seen walk.byPair
  ended : forall older, older ∈ seen -> forall newer, newer ∈ seen ->
    Restates graph older newer -> Ended walk.out older.id

structure Next (records seen : List ContextUpdate) (update : ContextUpdate) :
    Prop where
  ids : (records.map ContextUpdate.id).Nodup
  record : update ∈ records
  earlier : forall w, w ∈ seen -> w ∈ records ∧ stamp w < stamp update

variable {seen : List ContextUpdate} {update : ContextUpdate} {walk : Walk}

omit [WordTables] in
theorem mem_seen {w : ContextUpdate}
    (hw : w ∈ seen ++ [update]) (hid : w.id ≠ update.id) :
    w ∈ seen := by
  rcases List.mem_append.mp hw with hseen | hlast
  · exact hseen
  · exact absurd (congrArg ContextUpdate.id (List.mem_singleton.mp hlast)) hid

theorem ruled_explicitly (hnext : Next records seen update)
    (h : Ruled graph records out) :
    Ruled graph records (explicitly update out) := by
  refine Ruled.endAll h ?_
  intro u hu hlink hother v hended
  exact Rule.superseded update hnext.record hother hlink hended

variable {rel : EntityRelationship}

theorem ruled_relate (hnext : Next records seen update)
    (h : Ruled graph records walk.out)
    (hpairs : PairsOf graph (seen ++ [update]) walk.byPair)
    (hrel : rel ∈ update.createsRelationships) :
    Ruled graph records (relate graph update walk rel).out := by
  refine Ruled.endAll h ?_
  intro u hu hcontradicted hother v hended
  unfold contradictions at hcontradicted
  split at hcontradicted
  · next hconflict =>
      obtain ⟨a, ha, haid⟩ := List.mem_map.mp hcontradicted
      obtain ⟨hasserted, hkind⟩ := List.mem_filter.mp ha
      obtain ⟨w, hw, hwid, assertion, hassertion, htype, hkey⟩ :=
        hpairs _ a hasserted
      have hid : w.id = u.id := hwid.trans haid
      have hseen := mem_seen hw (hid ▸ hother)
      obtain ⟨hrecord, hlater⟩ := hnext.earlier w hseen
      have hsame : w = u := List.inj_on_of_nodup_map hnext.ids hrecord hu hid
      subst hsame
      exact Rule.contradicted update hnext.record
        ⟨hlater, assertion, rel, hassertion, hrel,
          htype ▸ of_decide_eq_true hkind, hconflict, hkey⟩ hended
  · cases hcontradicted

theorem pairsOf_relate (hpairs : PairsOf graph (seen ++ [update]) walk.byPair)
    (hrel : rel ∈ update.createsRelationships) :
    PairsOf graph (seen ++ [update]) (relate graph update walk rel).byPair := by
  intro key a ha
  simp only [relate] at ha
  by_cases hkey : key = pair rel.fromEntity rel.toEntity graph
  · rw [hkey, Function.update_self] at ha
    rcases List.mem_append.mp ha with hold | hnew
    · rw [hkey]
      exact hpairs _ a hold
    · rw [List.mem_singleton.mp hnew]
      exact ⟨update, by simp, rfl, rel, hrel, rfl, hkey.symm⟩
  · rw [Function.update_of_ne hkey] at ha
    exact hpairs key a ha

theorem relations_traced (hnext : Next records seen update)
    (h : Ruled graph records walk.out) (hpairs : PairsOf graph seen walk.byPair) :
    Ruled graph records
        (update.createsRelationships.foldl (relate graph update) walk).out ∧
      PairsOf graph (seen ++ [update])
        (update.createsRelationships.foldl (relate graph update) walk).byPair ∧
      (update.createsRelationships.foldl (relate graph update) walk).bySubject =
        walk.bySubject := by
  have hstart : PairsOf graph (seen ++ [update]) walk.byPair := by
    intro key a ha
    obtain ⟨w, hw, hrest⟩ := hpairs key a ha
    exact ⟨w, List.mem_append_left _ hw, hrest⟩
  refine List.foldlRecOn (motive := fun after : Walk => Ruled graph records after.out ∧
    PairsOf graph (seen ++ [update]) after.byPair ∧
      after.bySubject = walk.bySubject) update.createsRelationships _
    ⟨h, hstart, rfl⟩ ?_
  rintro after ⟨hafter, hpairs, hsubjects⟩ rel hrel
  exact ⟨ruled_relate hnext hafter hpairs hrel, pairsOf_relate hpairs hrel, hsubjects⟩

theorem ruled_restateAll (hnext : Next records seen update)
    (h : Ruled graph records walk.out) (hslots : SlotsOf graph seen walk.bySubject) :
    Ruled graph records (restateAll graph update walk).out := by
  unfold restateAll
  dsimp only
  split
  · next hstates =>
      refine List.foldlRecOn (motive := Ruled graph records) _ _ h ?_
      intro out hout older holder
      obtain ⟨hseen, hkey⟩ := hslots.sound _ older holder
      obtain ⟨hkind, hsubject⟩ := Prod.mk.inj hkey
      obtain ⟨hrecord, hlater⟩ := hnext.earlier older hseen
      refine hout.restate hnext.ids hrecord ?_
      intro _ htitles v hended
      exact Rule.restated update hnext.record
        ⟨hlater, hkind.symm, hstates.1, hsubject.symm, hstates.2, htitles⟩ hended
  · exact h

theorem slotsOf_restateAll (hslots : SlotsOf graph seen walk.bySubject) :
    SlotsOf graph (seen ++ [update]) (restateAll graph update walk).bySubject := by
  unfold restateAll
  dsimp only
  split
  · next hstates =>
      constructor
      · intro key older holder
        simp only at holder
        by_cases hkey : key = (update.updateType, subject update graph)
        · rw [hkey, Function.update_self] at holder
          rcases List.mem_append.mp holder with hold | hnew
          · obtain ⟨hseen, hsame⟩ := hslots.sound _ older hold
            exact ⟨List.mem_append_left _ hseen, hkey.trans hsame⟩
          · rw [List.mem_singleton.mp hnew]
            exact ⟨by simp, hkey⟩
        · rw [Function.update_of_ne hkey] at holder
          obtain ⟨hseen, hsame⟩ := hslots.sound _ older holder
          exact ⟨List.mem_append_left _ hseen, hsame⟩
      · intro older holder hkind hsubject
        dsimp only
        by_cases hkey : (older.updateType, subject older graph) =
            (update.updateType, subject update graph)
        · rw [hkey, Function.update_self]
          rcases List.mem_append.mp holder with hseen | hlast
          · exact List.mem_append_left _
              (hkey ▸ hslots.complete older hseen hkind hsubject)
          · exact List.mem_append_right _ hlast
        · rw [Function.update_of_ne hkey]
          rcases List.mem_append.mp holder with hseen | hlast
          · exact hslots.complete older hseen hkind hsubject
          · rw [List.mem_singleton.mp hlast] at hkey
            exact absurd rfl hkey
  · next hnot =>
      constructor
      · intro key older holder
        obtain ⟨hseen, hsame⟩ := hslots.sound key older holder
        exact ⟨List.mem_append_left _ hseen, hsame⟩
      · intro older holder hkind hsubject
        rcases List.mem_append.mp holder with hseen | hlast
        · exact hslots.complete older hseen hkind hsubject
        · rw [List.mem_singleton.mp hlast] at hkind hsubject
          exact absurd ⟨hkind, hsubject⟩ hnot

theorem restateAll_ends (hnext : Next records seen update)
    (hslots : SlotsOf graph seen walk.bySubject) (hseen : older ∈ seen)
    (hrestates : Restates graph older update) (hv : walk.out older.id = some v) :
    Ended (restateAll graph update walk).out older.id := by
  have hid : older.id ≠ update.id := by
    intro heq
    have hsame := List.inj_on_of_nodup_map hnext.ids (hnext.earlier older hseen).1
      hnext.record heq
    exact absurd (hsame ▸ hrestates.later) (lt_irrefl _)
  have hslot := hslots.complete older hseen (hrestates.kind ▸ hrestates.restatable)
    (hrestates.subject ▸ hrestates.nonempty)
  rw [hrestates.kind, hrestates.subject] at hslot
  unfold restateAll
  dsimp only
  rw [if_pos ⟨hrestates.restatable, hrestates.nonempty⟩]
  exact foldl_restate_ends hid hrestates.titles hslot hv

theorem Traced.visit (hnext : Next records seen update)
    (h : Traced graph records seen walk) :
    Traced graph records (seen ++ [update]) (visit graph walk update) := by
  let linked : Walk := { walk with out := explicitly update walk.out }
  have hlinked : Ruled graph records linked.out := ruled_explicitly hnext h.ruled
  obtain ⟨hruled, hpairs, hsubjects⟩ := relations_traced hnext hlinked h.pairs
  have hslots : SlotsOf graph seen
      (update.createsRelationships.foldl (relate graph update) linked).bySubject := by
    rw [hsubjects]
    exact h.slots
  constructor
  · exact ruled_restateAll hnext hruled hslots
  · intro u hu
    obtain ⟨v, hv⟩ := h.total u hu
    obtain ⟨w, hw, _⟩ := visit_continues graph update hv
    exact ⟨w, hw⟩
  · exact slotsOf_restateAll hslots
  · unfold Temporal.visit restateAll
    dsimp only
    split
    · exact hpairs
    · exact hpairs
  · intro older holder newer hnewer hrestates
    have hseen : older ∈ seen := by
      rcases List.mem_append.mp holder with hseen | hlast
      · exact hseen
      · rw [List.mem_singleton.mp hlast] at hrestates
        rcases List.mem_append.mp hnewer with hseen | hlast'
        · exact absurd (hrestates.later.trans (hnext.earlier newer hseen).2)
            (lt_irrefl _)
        · exact absurd (List.mem_singleton.mp hlast' ▸ hrestates.later) (lt_irrefl _)
    rcases List.mem_append.mp hnewer with hbefore | hlast
    · obtain ⟨v, hv, hended⟩ := h.ended older hseen newer hbefore hrestates
      obtain ⟨w, hw, hcontinues⟩ := visit_continues graph update hv
      rw [hcontinues.ended hended] at hw
      exact ⟨v, hw, hended⟩
    · rw [List.mem_singleton.mp hlast] at hrestates
      obtain ⟨v, hv⟩ := h.total older (hnext.earlier older hseen).1
      obtain ⟨w, hw, _⟩ := Keeps.foldl
        (keeps_endRecord update EndReason.superseded) walk.out older.id v hv
      have hlinkedOut : linked.out older.id = some w := hw
      obtain ⟨z, hz, _⟩ := relate_continues graph update update.createsRelationships
        hlinkedOut
      exact restateAll_ends hnext hslots hseen hrestates hz

theorem walkAll_traced {ordered : List ContextUpdate}
    (hids : (ordered.map ContextUpdate.id).Nodup)
    (horder : ordered.Pairwise (fun u w => stamp u < stamp w)) (graph : EntityGraph) :
    Traced graph ordered ordered (walkAll graph ordered) := by
  have hrest : forall (rest seen : List ContextUpdate) (walk : Walk),
      ordered = seen ++ rest -> Traced graph ordered seen walk ->
      Traced graph ordered ordered (rest.foldl (Temporal.visit graph) walk) := by
    intro rest
    induction rest with
    | nil =>
        intro seen walk hsplit hwalk
        rw [List.append_nil] at hsplit
        rw [← hsplit] at hwalk
        exact hwalk
    | cons update rest ih =>
        intro seen walk hsplit hwalk
        have hnext : Next ordered seen update := by
          refine ⟨hids, by rw [hsplit]; simp, ?_⟩
          intro w hw
          refine ⟨by rw [hsplit]; exact List.mem_append_left _ hw, ?_⟩
          rw [hsplit] at horder
          exact (List.pairwise_append.mp horder).2.2 w hw update List.mem_cons_self
        exact ih (seen ++ [update]) _ (by rw [hsplit, List.append_assoc]; rfl)
          (hwalk.visit hnext)
  refine hrest ordered [] _ rfl ⟨ruled_started graph ordered, ?_, ⟨?_, ?_⟩, ?_, ?_⟩
  · intro u hu
    exact started_total hu
  · intro key older holder
    cases holder
  · intro older holder
    cases holder
  · intro key a ha
    cases ha
  · intro older holder
    cases holder

/-!
# The validity of a set of records
-/

omit [WordTables] in
theorem retired_ended (u : ContextUpdate) (h : v.isCurrent = false) :
    (retired u v).isCurrent = false := by
  unfold retired
  split
  · exact h
  · split
    · rfl
    · exact h

variable {u : ContextUpdate}

theorem Rule.mono {more : List ContextUpdate}
    (hmore : forall w, w ∈ records -> w ∈ more) (h : Rule graph records u v) :
    Rule graph more u v := by
  cases h with
  | superseded w record other link ended =>
      exact Rule.superseded w (hmore w record) other link ended
  | contradicted w record conflict ended =>
      exact Rule.contradicted w (hmore w record) conflict ended
  | restated w record restates ended =>
      exact Rule.restated w (hmore w record) restates ended
  | retired time retiredAt ended ender reason =>
      exact Rule.retired time retiredAt ended ender reason

theorem rule_retired (h : v.isCurrent = false -> Rule graph records u v)
    (hended : (Temporal.retired u v).isCurrent = false) :
    Rule graph records u (Temporal.retired u v) := by
  unfold Temporal.retired at hended ⊢
  split
  · next hnone =>
      simp only [hnone] at hended
      exact h hended
  · next time htime =>
      simp only [htime] at hended
      split
      · exact Rule.retired time htime rfl rfl rfl
      · next hstays =>
          rw [if_neg hstays] at hended
          exact h hended

omit [WordTables] in
theorem inOrder_perm {updates updates' : List ContextUpdate}
    (hids : (updates.map ContextUpdate.id).Nodup) (h : updates'.Perm updates) :
    inOrder updates' = inOrder updates := by
  have hwhole : updates'.Perm (updates ++ []) := by rwa [List.append_nil]
  rw [inOrder_append (by rwa [List.append_nil])
    (fun _ _ w hw => absurd hw List.not_mem_nil) hwhole]
  exact List.append_nil _

/-- Every record of a set has an interval; one that a later record restates has
ended, one that has ended was ended by a rule, and the order in which the records
are given does not matter. -/
theorem validity_complete (graph : EntityGraph) (updates : List ContextUpdate)
    (hids : (updates.map ContextUpdate.id).Nodup) :
    (forall u, u ∈ updates -> exists v, validity updates graph u.id = some v ∧
      (forall w, w ∈ updates -> Restates graph u w -> v.isCurrent = false) ∧
      (v.isCurrent = false -> Rule graph updates u v)) ∧
    forall updates' : List ContextUpdate, updates'.Perm updates ->
      validity updates' graph = validity updates graph := by
  have hwalk := walkAll_traced (inOrder_ids_nodup hids) (inOrder_pairwise hids) graph
  constructor
  · intro u hu
    have hordered := mem_inOrder.mpr hu
    obtain ⟨v, hv⟩ := hwalk.total u hordered
    refine ⟨retired u v, by rw [validity_at graph hids hu, hv]; rfl, ?_, ?_⟩
    · intro w hw hrestates
      obtain ⟨v', hv', hended⟩ :=
        hwalk.ended u hordered w (mem_inOrder.mpr hw) hrestates
      rw [hv] at hv'
      cases hv'
      exact retired_ended u hended
    · intro hended
      exact (rule_retired (hwalk.ruled u hordered v hv) hended).mono
        (fun w hw => mem_inOrder.mp hw)
  · intro updates' hperm
    rw [validity, validity, inOrder_perm hids hperm]

end

section

attribute [local instance] asciiWords

/-- One record is superseded, one is restated, and one is retired. -/
theorem validity_complete_replaced :
    (forall u, u ∈ replacedRecords ->
      exists v, validity replacedRecords EntityGraph.new u.id = some v ∧
        (forall w, w ∈ replacedRecords -> Restates EntityGraph.new u w ->
          v.isCurrent = false) ∧
        (v.isCurrent = false -> Rule EntityGraph.new replacedRecords u v)) ∧
    forall updates' : List ContextUpdate, updates'.Perm replacedRecords ->
      validity updates' EntityGraph.new =
        validity replacedRecords EntityGraph.new :=
  validity_complete EntityGraph.new replacedRecords (by decide)

end

end Temporal
end Graph
end PostCortex
