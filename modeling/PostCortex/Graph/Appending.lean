import PostCortex.Graph.Temporal

/-!
# Validity after later records

What `validity` (`graph/temporal.rs`) makes of a set of records when later ones
join it.  A step of the walk decides what becomes of one interval from that
interval and the slots of the walk, never from other intervals; so the walk over
the first records is the same with the later ones behind it, and these only end
what has not ended.
-/

namespace PostCortex
namespace Graph
namespace Temporal

open PostCortex.Core

/-!
# One interval at a time
-/

/-- What becomes of an interval depends on that interval alone. -/
def Entrywise (f : Validities -> Validities) : Prop :=
  forall (out out' : Validities) id, out id = out' id -> f out id = f out' id

/-- A later state of an interval: an ended one does not change. -/
structure Continues (v w : Validity) : Prop where
  validFrom : w.validFrom = v.validFrom
  ended : v.isCurrent = false -> w = v

def Keeps (f : Validities -> Validities) : Prop :=
  forall out id v, out id = some v ->
    exists w, f out id = some w ∧ Continues v w

theorem Continues.refl (v : Validity) : Continues v v where
  validFrom := rfl
  ended := fun _ => rfl

theorem Continues.trans {u v w : Validity} (huv : Continues u v)
    (hvw : Continues v w) :
    Continues u w where
  validFrom := hvw.validFrom.trans huv.validFrom
  ended := by
    intro hu
    have hv := huv.ended hu
    subst hv
    exact hvw.ended hu

section

variable {α : Type} {f : Validities -> α -> Validities} {xs : List α}

theorem Entrywise.foldl (h : forall x, Entrywise (fun out => f out x)) :
    Entrywise (fun out => xs.foldl f out) := by
  induction xs with
  | nil =>
      exact fun _ _ _ heq => heq
  | cons x rest ih =>
      intro out out' id heq
      exact ih (f out x) (f out' x) id (h x out out' id heq)

theorem Keeps.foldl (h : forall x, Keeps (fun out => f out x)) :
    Keeps (fun out => xs.foldl f out) := by
  induction xs with
  | nil =>
      exact fun _ _ v hv => ⟨v, hv, Continues.refl v⟩
  | cons x rest ih =>
      intro out id v hv
      obtain ⟨w, hw, hvw⟩ := h x out id v hv
      obtain ⟨z, hz, hwz⟩ := ih (f out x) id w hw
      exact ⟨z, hz, hvw.trans hwz⟩

end

/-- What `endRecord` makes of the interval of the record it names. -/
def endedBy (update : ContextUpdate) (reason : EndReason) (id : Uuid)
    (v : Validity) : Validity :=
  if v.validTo = none ∧ id ≠ update.id then
    v.endAt (validFrom update) (some update.id) reason
  else v

theorem endRecord_at (update : ContextUpdate) (reason : EndReason)
    (out : Validities) (old id : Uuid) :
    endRecord update reason out old id =
      if id = old then (out id).map (endedBy update reason id) else out id := by
  unfold endRecord
  by_cases hid : id = old
  · subst hid
    rw [if_pos rfl]
    cases hout : out id with
    | none =>
        exact hout
    | some v =>
        dsimp only [Option.map_some, endedBy]
        split
        · exact Function.update_self _ _ _
        · exact hout
  · rw [if_neg hid]
    cases out old with
    | none =>
        rfl
    | some v =>
        dsimp only
        split
        · exact Function.update_of_ne hid _ _
        · rfl

theorem endedBy_continues (update : ContextUpdate) (reason : EndReason)
    (id : Uuid) (v : Validity) :
    Continues v (endedBy update reason id v) := by
  unfold endedBy
  split
  · next hends =>
    refine ⟨rfl, ?_⟩
    intro hended
    rw [Validity.isCurrent, hends.1] at hended
    cases hended
  · exact Continues.refl v

theorem entrywise_endRecord (update : ContextUpdate) (reason : EndReason)
    (old : Uuid) :
    Entrywise (fun out => endRecord update reason out old) := by
  intro out out' id heq
  dsimp only
  rw [endRecord_at, endRecord_at, heq]

theorem keeps_endRecord (update : ContextUpdate) (reason : EndReason)
    (old : Uuid) :
    Keeps (fun out => endRecord update reason out old) := by
  intro out id v hv
  dsimp only
  rw [endRecord_at, hv]
  split
  · exact ⟨_, rfl, endedBy_continues update reason id v⟩
  · exact ⟨v, rfl, Continues.refl v⟩

section

variable [WordTables]

theorem entrywise_restate (update older : ContextUpdate) :
    Entrywise (fun out => restate update out older) := by
  intro out out' id heq
  have hother : forall out : Validities, id ≠ older.id ->
      restate update out older id = out id := by
    intro out hid
    unfold restate
    split
    · rw [endRecord_at, if_neg hid]
    · rfl
  by_cases hid : id = older.id
  · subst hid
    dsimp only [restate]
    rw [heq]
    split
    · exact entrywise_endRecord update _ older.id out out' older.id heq
    · exact heq
  · exact (hother out hid).trans (heq.trans (hother out' hid).symm)

theorem keeps_restate (update older : ContextUpdate) :
    Keeps (fun out => restate update out older) := by
  intro out id v hv
  dsimp only [restate]
  split
  · exact keeps_endRecord update _ older.id out id v hv
  · exact ⟨v, hv, Continues.refl v⟩

/-!
# The walk
-/

/-- Two walks with the same slots agree on one interval. -/
structure AgreesAt (id : Uuid) (walk walk' : Walk) : Prop where
  bySubject : walk.bySubject = walk'.bySubject
  byPair : walk.byPair = walk'.byPair
  out : walk.out id = walk'.out id

variable {id : Uuid} {walk walk' : Walk}

theorem AgreesAt.relate (h : AgreesAt id walk walk') (graph : EntityGraph)
    (update : ContextUpdate) (rel : EntityRelationship) :
    AgreesAt id (relate graph update walk rel) (relate graph update walk' rel) where
  bySubject := h.bySubject
  byPair := by
    simp only [Temporal.relate, h.byPair]
  out := by
    simp only [Temporal.relate, ← h.byPair]
    exact Entrywise.foldl (entrywise_endRecord update EndReason.contradicted)
      walk.out walk'.out id h.out

theorem AgreesAt.restateAll (h : AgreesAt id walk walk') (graph : EntityGraph)
    (update : ContextUpdate) :
    AgreesAt id (restateAll graph update walk)
      (restateAll graph update walk') := by
  unfold Temporal.restateAll
  dsimp only
  split
  · refine ⟨?_, h.byPair, ?_⟩
    · simp only [h.bySubject]
    · simp only [← h.bySubject]
      exact Entrywise.foldl (entrywise_restate update) walk.out walk'.out id h.out
  · exact h

theorem AgreesAt.visit (h : AgreesAt id walk walk') (graph : EntityGraph)
    (update : ContextUpdate) :
    AgreesAt id (visit graph walk update) (visit graph walk' update) := by
  have hrelations : forall (rels : List EntityRelationship) (w w' : Walk),
      AgreesAt id w w' ->
      AgreesAt id (rels.foldl (Temporal.relate graph update) w)
        (rels.foldl (Temporal.relate graph update) w') := by
    intro rels
    induction rels with
    | nil =>
        exact fun _ _ hw => hw
    | cons rel rest ih =>
        intro w w' hw
        exact ih _ _ (hw.relate graph update rel)
  have hlinks : AgreesAt id { walk with out := explicitly update walk.out }
      { walk' with out := explicitly update walk'.out } :=
    ⟨h.bySubject, h.byPair,
      Entrywise.foldl (entrywise_endRecord update EndReason.superseded)
        walk.out walk'.out id h.out⟩
  exact (hrelations update.createsRelationships _ _ hlinks).restateAll graph update

theorem AgreesAt.visitAll (h : AgreesAt id walk walk') (graph : EntityGraph)
    (updates : List ContextUpdate) :
    AgreesAt id (updates.foldl (Temporal.visit graph) walk)
      (updates.foldl (Temporal.visit graph) walk') := by
  induction updates generalizing walk walk' with
  | nil =>
      exact h
  | cons update rest ih =>
      exact ih (h.visit graph update)

variable {v : Validity}

theorem relate_continues (graph : EntityGraph) (update : ContextUpdate)
    (rels : List EntityRelationship) (hv : walk.out id = some v) :
    exists w, (rels.foldl (relate graph update) walk).out id = some w ∧
      Continues v w := by
  induction rels generalizing walk v with
  | nil =>
      exact ⟨v, hv, Continues.refl v⟩
  | cons rel rest ih =>
      obtain ⟨w, hw, hvw⟩ :=
        Keeps.foldl (keeps_endRecord update EndReason.contradicted)
          walk.out id v hv
      have hnext : (relate graph update walk rel).out id = some w := hw
      obtain ⟨z, hz, hwz⟩ := ih hnext
      exact ⟨z, hz, hvw.trans hwz⟩

theorem visit_continues (graph : EntityGraph) (update : ContextUpdate)
    (hv : walk.out id = some v) :
    exists w, (visit graph walk update).out id = some w ∧ Continues v w := by
  obtain ⟨w, hw, hvw⟩ :=
    Keeps.foldl (keeps_endRecord update EndReason.superseded) walk.out id v hv
  let linked : Walk := { walk with out := explicitly update walk.out }
  have hlinked : linked.out id = some w := hw
  obtain ⟨z, hz, hwz⟩ := relate_continues graph update
    update.createsRelationships hlinked
  unfold visit restateAll
  dsimp only
  split
  · obtain ⟨y, hy, hzy⟩ := Keeps.foldl (keeps_restate update) _ id z hz
    exact ⟨y, hy, (hvw.trans hwz).trans hzy⟩
  · exact ⟨z, hz, hvw.trans hwz⟩

theorem visitAll_continues (graph : EntityGraph) (updates : List ContextUpdate)
    (hv : walk.out id = some v) :
    exists w, (updates.foldl (visit graph) walk).out id = some w ∧
      Continues v w := by
  induction updates generalizing walk v with
  | nil =>
      exact ⟨v, hv, Continues.refl v⟩
  | cons update rest ih =>
      obtain ⟨w, hw, hvw⟩ := visit_continues graph update hv
      obtain ⟨z, hz, hwz⟩ := ih hw
      exact ⟨z, hz, hvw.trans hwz⟩

end

/-!
# Retirement
-/

/-- What `retire` makes of the interval of its record. -/
def retired (update : ContextUpdate) (v : Validity) : Validity :=
  match update.metadata.retiredAt with
  | none => v
  | some time =>
      if v.validTo.all (fun ended => time < ended) then
        v.endAt time none EndReason.forgotten
      else v

theorem retire_at (out : Validities) (update : ContextUpdate) (id : Uuid) :
    retire out update id =
      if id = update.id then (out id).map (retired update) else out id := by
  unfold retire
  by_cases hid : id = update.id
  · subst hid
    rw [if_pos rfl]
    cases hout : out update.id with
    | none =>
        cases update.metadata.retiredAt with
        | none | some time => exact hout
    | some v =>
        simp only [Option.map_some, retired]
        cases update.metadata.retiredAt with
        | none =>
            exact hout
        | some time =>
            dsimp only
            split
            · exact Function.update_self _ _ _
            · exact hout
  · rw [if_neg hid]
    cases update.metadata.retiredAt with
    | none =>
        cases out update.id with
        | none | some v => rfl
    | some time =>
        cases out update.id with
        | none =>
            rfl
        | some v =>
            dsimp only
            split
            · exact Function.update_of_ne hid _ _
            · rfl

variable {updates : List ContextUpdate}

theorem foldl_retire (hids : (updates.map ContextUpdate.id).Nodup)
    (out : Validities) {u : ContextUpdate} (hu : u ∈ updates) :
    updates.foldl retire out u.id = (out u.id).map (retired u) := by
  have hothers : forall (rest : List ContextUpdate) (out : Validities),
      u.id ∉ rest.map ContextUpdate.id -> rest.foldl retire out u.id = out u.id := by
    intro rest
    induction rest with
    | nil =>
        exact fun _ _ => rfl
    | cons w rest ih =>
        intro out hnot
        rw [List.map_cons, List.mem_cons, not_or] at hnot
        rw [List.foldl_cons, ih _ hnot.2, retire_at, if_neg hnot.1]
  induction updates generalizing out with
  | nil =>
      cases hu
  | cons w rest ih =>
      rw [List.map_cons, List.nodup_cons] at hids
      rw [List.foldl_cons]
      rcases List.mem_cons.mp hu with hhead | hrest
      · subst hhead
        rw [hothers rest _ hids.1, retire_at, if_pos rfl]
      · have hne : u.id ≠ w.id :=
          fun heq => hids.1 (heq ▸ List.mem_map_of_mem hrest)
        rw [ih hids.2 _ hrest, retire_at, if_neg hne]

/-- How the interval of a record may change when later records are added. -/
structure Stable (v w : Validity) : Prop where
  validFrom : w.validFrom = v.validFrom
  ended : v.isCurrent = false -> v.reason ≠ some EndReason.forgotten -> w = v
  notCurrent : v.isCurrent = false -> w.isCurrent = false
  forgotten : forall time, v.validTo = some time ->
    v.reason = some EndReason.forgotten ->
      exists earlier, w.validTo = some earlier ∧ earlier ≤ time

theorem Stable.refl (v : Validity) : Stable v v where
  validFrom := rfl
  ended := fun _ _ => rfl
  notCurrent := id
  forgotten := fun time htime _ => ⟨time, htime, le_refl time⟩

/-- A retirement comes after everything else, and does not outlast what ended the
record in the meantime. -/
theorem Continues.retired {v w : Validity} (h : Continues v w)
    (update : ContextUpdate) :
    Stable (retired update v) (retired update w) := by
  cases hcurrent : v.isCurrent with
  | false =>
      rw [h.ended hcurrent]
      exact Stable.refl _
  | true =>
      have hopen : v.validTo = none := Option.isNone_iff_eq_none.mp hcurrent
      unfold Temporal.retired
      cases update.metadata.retiredAt with
      | none =>
          refine ⟨h.validFrom, ?_, ?_, ?_⟩
          · intro hended
            rw [hcurrent] at hended
            cases hended
          · intro hended
            rw [hcurrent] at hended
            cases hended
          · intro time htime
            rw [hopen] at htime
            cases htime
      | some time =>
          dsimp only
          rw [if_pos (by simp [hopen])]
          have hstart : forall ender reason,
              (w.endAt time ender reason).validTo =
                (v.endAt time ender reason).validTo := by
            intro ender reason
            simp only [Validity.endAt, h.validFrom]
          split
          · refine ⟨h.validFrom, ?_, fun _ => rfl, ?_⟩
            · exact fun _ hreason => absurd rfl hreason
            · intro ended hended _
              exact ⟨ended, (hstart _ _).trans hended, le_refl ended⟩
          · next hbefore =>
            obtain ⟨ended, hended, hle⟩ :
                exists ended, w.validTo = some ended ∧ ended ≤ time := by
              cases hw : w.validTo with
              | none => simp [hw] at hbefore
              | some ended =>
                  refine ⟨ended, rfl, ?_⟩
                  simpa [hw] using hbefore
            refine ⟨h.validFrom, ?_, ?_, ?_⟩
            · exact fun _ hreason => absurd rfl hreason
            · intro _
              rw [Validity.isCurrent, hended]
              rfl
            · intro t ht _
              refine ⟨ended, hended, ?_⟩
              cases ht
              exact hle.trans (le_max_left _ _)

/-!
# Later records
-/

theorem started_append (updates more : List ContextUpdate) {id : Uuid}
    (hid : id ∉ more.map ContextUpdate.id) :
    started (updates ++ more) id = started updates id := by
  induction more using List.reverseRecOn with
  | nil =>
      rw [List.append_nil]
  | append_singleton more w ih =>
      rw [List.map_append, List.mem_append, not_or] at hid
      rw [← List.append_assoc, started_snoc,
        Function.update_of_ne (fun heq => hid.2 (by simp [heq])), ih hid.1]

theorem inOrder_append {more whole : List ContextUpdate}
    (hids : ((updates ++ more).map ContextUpdate.id).Nodup)
    (hlater : forall u, u ∈ updates -> forall w, w ∈ more -> stamp u < stamp w)
    (hwhole : whole.Perm (updates ++ more)) :
    inOrder whole = inOrder updates ++ inOrder more := by
  have hwholeIds : (whole.map ContextUpdate.id).Nodup :=
    (hwhole.map ContextUpdate.id).nodup_iff.mpr hids
  rw [List.map_append] at hids
  have hperm : (inOrder whole).Perm (inOrder updates ++ inOrder more) :=
    (List.perm_insertionSort _ whole).trans
      (hwhole.trans ((List.perm_insertionSort _ updates).symm.append
        (List.perm_insertionSort _ more).symm))
  have hantisymm : forall u w, u ∈ inOrder whole -> w ∈ inOrder updates ++ inOrder more ->
      stamp u < stamp w -> stamp w < stamp u -> u = w :=
    fun u w _ _ huw hwu => absurd (huw.trans hwu) (lt_irrefl _)
  apply hperm.eq_of_pairwise hantisymm
  · exact inOrder_pairwise hwholeIds
  · rw [List.pairwise_append]
    refine ⟨inOrder_pairwise hids.of_append_left,
      inOrder_pairwise hids.of_append_right, ?_⟩
    intro u hu w hw
    exact hlater u (mem_inOrder.mp hu) w (mem_inOrder.mp hw)

section

variable [WordTables]

theorem validity_at (graph : EntityGraph) {updates : List ContextUpdate}
    (hids : (updates.map ContextUpdate.id).Nodup) {u : ContextUpdate}
    (hu : u ∈ updates) :
    validity updates graph u.id =
      ((walkAll graph (inOrder updates)).out u.id).map (retired u) :=
  foldl_retire (inOrder_ids_nodup hids) _ (mem_inOrder.mpr hu)

/-- Whatever later records join a set of records, none of the first changes that
has ended other than by retirement, none that has ended becomes current, and a
retired one ends no later than before. -/
theorem validity_stable (graph : EntityGraph)
    (updates more whole : List ContextUpdate)
    (hids : ((updates ++ more).map ContextUpdate.id).Nodup)
    (hlater : forall u, u ∈ updates -> forall w, w ∈ more -> stamp u < stamp w)
    (hwhole : whole.Perm (updates ++ more)) :
    forall u, u ∈ updates ->
      exists v w, validity updates graph u.id = some v ∧
        validity whole graph u.id = some w ∧ Stable v w := by
  intro u hu
  have hsplit := hids
  rw [List.map_append] at hsplit
  have hwholeIds : (whole.map ContextUpdate.id).Nodup :=
    (hwhole.map ContextUpdate.id).nodup_iff.mpr hids
  have hmember : u ∈ whole := hwhole.mem_iff.mpr (List.mem_append_left _ hu)
  have hfresh : u.id ∉ (inOrder more).map ContextUpdate.id := by
    intro hmem
    obtain ⟨w, hw, hid⟩ := List.mem_map.mp hmem
    exact List.disjoint_of_nodup_append hsplit (List.mem_map_of_mem hu)
      (hid ▸ List.mem_map_of_mem (mem_inOrder.mp hw))
  -- the walk over the first records does not see the others
  let first : Walk := ⟨started (inOrder updates), fun _ => [], fun _ => []⟩
  let both : Walk :=
    ⟨started (inOrder updates ++ inOrder more), fun _ => [], fun _ => []⟩
  have hwalk : walkAll graph (inOrder whole) =
      (inOrder more).foldl (visit graph)
        ((inOrder updates).foldl (visit graph) both) := by
    rw [walkAll, inOrder_append hids hlater hwhole, List.foldl_append]
  have hbase : AgreesAt u.id first both :=
    ⟨rfl, rfl, (started_append (inOrder updates) (inOrder more) hfresh).symm⟩
  have hagree := hbase.visitAll graph (inOrder updates)
  obtain ⟨start, hstart⟩ := started_total (mem_inOrder.mpr hu)
  have hfirst : first.out u.id = some start := hstart
  obtain ⟨v, hv, -⟩ := visitAll_continues graph (inOrder updates) hfirst
  obtain ⟨w, hw, hcontinues⟩ := visitAll_continues graph (inOrder more)
    (hagree.out.symm.trans hv)
  rw [← hwalk] at hw
  refine ⟨retired u v, retired u w, ?_, ?_, hcontinues.retired u⟩
  · rw [validity_at graph hsplit.of_append_left hu]
    exact congrArg (Option.map (retired u)) hv
  · rw [validity_at graph hwholeIds hmember, hw]
    rfl

end

attribute [local instance] asciiWords

def firstRecords : List ContextUpdate :=
  [recordOf 2 10 "move away" [1] (some 5) none,
    recordOf 1 0 "use the rocksdb store" [] (some 7) none,
    recordOf 5 15 "the rocksdb store options" [] none (some 40)]

def laterRecords : List ContextUpdate :=
  [recordOf 4 30 "the rocksdb store options" [] none none,
    recordOf 3 20 "unrelated" [] none none]

/-- The superseded record stays as it was, and the retired one ends when a later
record says the same. -/
theorem validity_stable_restated :
    (forall u, u ∈ firstRecords ->
      exists v w, validity firstRecords EntityGraph.new u.id = some v ∧
        validity (laterRecords ++ firstRecords) EntityGraph.new u.id = some w ∧
        Stable v w) ∧
    validity firstRecords EntityGraph.new 5 =
      some ⟨15, some 40, none, some EndReason.forgotten⟩ ∧
    validity (laterRecords ++ firstRecords) EntityGraph.new 5 =
      some ⟨15, some 30, some 4, some EndReason.duplicate⟩ := by
  have hlater : forall u, u ∈ firstRecords -> forall w, w ∈ laterRecords ->
      stamp u < stamp w := by
    decide +kernel
  refine ⟨validity_stable EntityGraph.new firstRecords laterRecords
    (laterRecords ++ firstRecords) (by decide) hlater List.perm_append_comm, ?_, ?_⟩
  · decide +kernel
  · decide +kernel

end Temporal
end Graph
end PostCortex
