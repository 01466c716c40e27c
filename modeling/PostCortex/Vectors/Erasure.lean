import PostCortex.Vectors.Ingestion
import PostCortex.Graph.AliasResolution
import PostCortex.Transition.System
import PostCortex.Transition.Calls

/-!
# Erasure and vectorization

The calls of `delete_update` and `purge_update`, and the runs of
`vectorize_update_now` and `vectorize_session`, on one cached session, any
number of each.  A run works on the version of the session it has loaded: it
collects, embeds, adds to the vectors in memory, writes to storage, and marks
what it has added; a failed write takes its own vectors back out of memory.  An
erasure swaps the update out, takes its mark, and drops its vectors: from memory
every chunk up to the first that is missing, then the same ids from storage.
Until the vectorizer is initialised there are no vectors in memory, and an
erasure drops only the first chunk from storage; initialisation reads what
storage has and then puts it in memory.
-/

namespace PostCortex
namespace Vectors

open PostCortex.Core
open PostCortex.Graph
open PostCortex.Session
open Transition

/-- A vector of the session in memory; `owner` is the run that has added it, none
for one that was read from storage. -/
structure StoredVector where
  owner : Option Nat
  content : ContentId
  deriving DecidableEq, Repr

structure Shared where
  session : ActiveSession
  marks : List Uuid
  memory : Option (List StoredVector)
  loading : Option (List ContentId)
  persisted : List ContentId

inductive RunStage where
  | called
  | loaded (session : ActiveSession)
  | collected (items : List ContentId)
  | embedded (items : List ContentId)
  | added (items : List ContentId)
  | written (items : List ContentId)
  | returned (result : Except String Nat)

inductive Erasure where
  | delete
  | purge
  deriving DecidableEq, Repr

inductive EraseStage where
  | called
  | swapped
  | unmarked
  | cleared
  | dropping (ids : List ContentId)
  | returned (result : Except String Bool)

/-- `vectorize` is `vectorize_update_now` of a target, or `vectorize_session`. -/
inductive Call where
  | vectorize (target : Option Uuid) (stage : RunStage)
  | erase (erasure : Erasure) (id : Uuid) (stage : EraseStage)

def Call.isReturned : Call -> Bool
  | Call.vectorize _ (RunStage.returned _) => true
  | Call.erase _ _ (EraseStage.returned _) => true
  | _ => false

structure State where
  shared : Shared
  calls : List Call

/-- The steps of a call, with what the embedding engine and storage return. -/
inductive Move where
  | load (error : Option String)
  | collect
  | embed (result : Except String Nat)
  | addVectors (accepted : Bool)
  | persist (error : Option String)
  | mark
  | swap (exhausted : Option String) (now : Timestamp)
  | unmark
  | clear (error : Option String)
  | drop
  | removePersisted (error : Option String)

inductive Action where
  | call (c : Call)
  | move (i : Nat) (m : Move)
  | readVectors (failed : Bool)
  | installVectors

/-!
# The vectors of one content
-/

def hasContent (memory : List StoredVector) (c : ContentId) : Bool :=
  memory.any (fun v => v.content == c)

/-- `has_update_embedding`. -/
def hasEmbedding (memory : Option (List StoredVector)) (id : Uuid) : Bool :=
  memory.any (fun vectors => hasContent vectors ⟨id, 0⟩)

/-- The loop of `remove_content`: chunks from `n` on while they are there. -/
def chunksFrom (present : Nat -> Bool) : Nat -> Nat -> List Nat
  | 0, _ => []
  | fuel + 1, n =>
      if present n then n :: chunksFrom present fuel (n + 1) else []

def lastChunk (memory : List StoredVector) : Nat :=
  memory.foldr (fun v n => max v.content.chunk n) 0

/-- The content ids that `remove_content` removes; no chunk after the last of the
memory can be present. -/
def removedIds (memory : List StoredVector) (id : Uuid) : List ContentId :=
  (0 :: chunksFrom (fun n => hasContent memory ⟨id, n⟩) (lastChunk memory) 1).map
    (fun n => ⟨id, n⟩)

/-!
# The steps
-/

section

variable [CharTables]

def advanceRun (config : VectorizerConfig) (i : Nat) (s : Shared)
    (target : Option Uuid) : RunStage -> Move -> Option (Shared × RunStage)
  | RunStage.called, Move.load error =>
      if target.isSome && !config.autoVectorizeOnUpdate then
        some (s, RunStage.returned (Except.ok 0))
      else
        match error with
        | some e => some (s, RunStage.returned (Except.error e))
        | none =>
            if s.memory.isSome then some (s, RunStage.loaded s.session)
            else none
  | RunStage.loaded session, Move.collect =>
      let marks :=
        match target with
        | some _ => s.marks
        | none => s.marks.filter (hasEmbedding s.memory)
      let items := Vectors.collect config session marks target
      some ({ s with marks := marks },
        if items = [] then RunStage.returned (Except.ok 0)
        else RunStage.collected items)
  | RunStage.collected items, Move.embed result =>
      match result with
      | Except.error e => some (s, RunStage.returned (Except.error e))
      | Except.ok n =>
          if target.isSome && n != items.length then
            some (s, RunStage.returned (Except.ok 0))
          else some (s, RunStage.embedded (items.take n))
  | RunStage.embedded items, Move.addVectors accepted =>
      if accepted then
        some ({ s with
            memory := s.memory.map
              (fun vectors => vectors ++ items.map (fun c => ⟨some i, c⟩)) },
          RunStage.added items)
      else some (s, RunStage.returned (Except.ok 0))
  | RunStage.added items, Move.persist error =>
      match error with
      | some _ =>
          some ({ s with
              memory := s.memory.map
                (fun vectors => vectors.filter (fun v => v.owner != some i)) },
            RunStage.returned (Except.ok 0))
      | none =>
          some ({ s with persisted := s.persisted ++ items },
            RunStage.written items)
  | RunStage.written items, Move.mark =>
      some ({ s with
          marks := s.marks ++
            (items.filter (fun c => c.chunk == 0)).map ContentId.update },
        RunStage.returned (Except.ok items.length))
  | _, _ => none

def advanceErase (s : Shared) (erasure : Erasure) (id : Uuid) :
    EraseStage -> Move -> Option (Shared × EraseStage)
  | EraseStage.called, Move.swap exhausted now =>
      match exhausted with
      | some e => some (s, EraseStage.returned (Except.error e))
      | none =>
          match s.session.removeUpdateById id with
          | none => some (s, EraseStage.returned (Except.ok false))
          | some session =>
              some ({ s with
                  session :=
                    match erasure with
                    | Erasure.delete => session
                    | Erasure.purge => session.rebuildEntityGraphSync now },
                EraseStage.swapped)
  | EraseStage.swapped, Move.unmark =>
      some ({ s with marks := s.marks.filter (· != id) },
        match erasure with
        | Erasure.delete => EraseStage.cleared
        | Erasure.purge => EraseStage.unmarked)
  | EraseStage.unmarked, Move.clear error =>
      match error with
      | some e => some (s, EraseStage.returned (Except.error e))
      | none => some (s, EraseStage.cleared)
  | EraseStage.cleared, Move.drop =>
      match s.memory with
      | none => some (s, EraseStage.dropping [⟨id, 0⟩])
      | some vectors =>
          let ids := removedIds vectors id
          some ({ s with
              memory := some (vectors.filter (fun v => v.content ∉ ids)) },
            EraseStage.dropping ids)
  | EraseStage.dropping ids, Move.removePersisted error =>
      match ids, error with
      | c :: rest, none =>
          some ({ s with persisted := s.persisted.filter (· != c) },
            if rest = [] then EraseStage.returned (Except.ok true)
            else EraseStage.dropping rest)
      | _, _ => some (s, EraseStage.returned (Except.ok true))
  | _, _ => none

def advance (config : VectorizerConfig) (i : Nat) (s : Shared) (m : Move) :
    Call -> Option (Shared × Call)
  | Call.vectorize target stage =>
      (advanceRun config i s target stage m).map
        (fun x => (x.1, Call.vectorize target x.2))
  | Call.erase erasure id stage =>
      (advanceErase s erasure id stage m).map
        (fun x => (x.1, Call.erase erasure id x.2))

def Call.begun : Call -> Call
  | Call.vectorize target _ => Call.vectorize target RunStage.called
  | Call.erase erasure id _ => Call.erase erasure id EraseStage.called

def step (config : VectorizerConfig) (s : State) : Action -> Option State
  | Action.call c => some { s with calls := s.calls ++ [c.begun] }
  | Action.move i m =>
      match s.calls[i]? with
      | none => none
      | some call =>
          (advance config i s.shared m call).map
            (fun x => ⟨x.1, s.calls.set i x.2⟩)
  | Action.readVectors failed =>
      if s.shared.memory.isNone && s.shared.loading.isNone then
        some { s with
          shared :=
            { s.shared with
              loading := some (if failed then [] else s.shared.persisted) } }
      else none
  | Action.installVectors =>
      match s.shared.loading with
      | none => none
      | some contents =>
          some { s with
            shared :=
              { s.shared with
                memory := some (contents.map (fun c => ⟨none, c⟩))
                loading := none } }

def vectorizations (config : VectorizerConfig) (start : Shared) :
    System State Action where
  init := ⟨start, []⟩
  step := step config

end

/-!
# Runs that no erasure overtakes
-/

def Call.concerns (id : Uuid) : Call -> Bool
  | Call.vectorize target (RunStage.loaded session) =>
      target.all (· == id) && shows session id
  | Call.vectorize _ (RunStage.collected items)
  | Call.vectorize _ (RunStage.embedded items)
  | Call.vectorize _ (RunStage.added items)
  | Call.vectorize _ (RunStage.written items) =>
      items.any (fun c => c.update == id)
  | _ => false

def Call.isDropping : Call -> Bool
  | Call.erase _ _ (EraseStage.dropping _) => true
  | _ => false

/-- No run that has seen an update is at work when it is swapped out; the
vectors of an erased update are dropped from an initialised vectorizer, or
before it reads storage and while storage has one chunk of it at most; and
storage does what it is asked to. -/
def isUndisturbed (s : State) : Action -> Bool
  | Action.move i (Move.swap none _) =>
      match s.calls[i]? with
      | some (Call.erase _ id _) => !s.calls.any (Call.concerns id)
      | _ => true
  | Action.move i Move.drop =>
      match s.calls[i]? with
      | some (Call.erase _ id _) =>
          s.shared.memory.isSome ||
            s.shared.loading.isNone &&
              !s.shared.persisted.any
                (fun c => c.update == id && c.chunk != 0)
      | _ => true
  | Action.move _ (Move.removePersisted error) => error.isNone
  | Action.readVectors failed => !failed && !s.calls.any Call.isDropping
  | _ => true

def Undisturbed (s : State) (a : Action) : Prop :=
  isUndisturbed s a = true

instance (s : State) (a : Action) : Decidable (Undisturbed s a) :=
  inferInstanceAs (Decidable (_ = true))

/-!
# What a step adds
-/

structure AddsNothing (id : Uuid) (s s' : Shared) : Prop where
  shows : shows s'.session id = true -> shows s.session id = true
  warm : inWarm s'.session id = true -> inWarm s.session id = true
  marks : id ∈ s'.marks -> id ∈ s.marks
  memory : forall vectors', s'.memory = some vectors' ->
    forall v, v ∈ vectors' -> v.content.update = id ->
      exists vectors, s.memory = some vectors ∧ v ∈ vectors
  persisted : forall c, c ∈ s'.persisted -> c.update = id -> c ∈ s.persisted
  loading : s'.loading = s.loading

theorem AddsNothing.refl (id : Uuid) (s : Shared) : AddsNothing id s s where
  shows := fun h => h
  warm := fun h => h
  marks := fun h => h
  memory := fun vectors' hvectors _ hv _ => ⟨vectors', hvectors, hv⟩
  persisted := fun _ h _ => h
  loading := rfl

variable {id : Uuid} {items : List ContentId} {c : ContentId}

theorem update_ne_of_concerns (h : items.any (fun c => c.update == id) = false)
    (hc : c ∈ items) :
    c.update ≠ id := by
  intro heq
  exact List.any_eq_false.mp h c hc (by simp [heq])

variable {target : Option Uuid}

theorem concerns_collected (h : forall c, c ∈ items -> c.update ≠ id) :
    (Call.vectorize target
      (if items = [] then RunStage.returned (Except.ok 0)
        else RunStage.collected items)).concerns id = false := by
  split
  · rfl
  · rw [Call.concerns, List.any_eq_false]
    intro c hc heq
    exact h c hc (by simpa using heq)

section

variable [CharTables]

variable {config : VectorizerConfig} {s s' : Shared} {target : Option Uuid}
  {stage stage' : RunStage} {m : Move} {id : Uuid}

theorem advanceRun_adds {i : Nat}
    (hquiet : (Call.vectorize target stage).concerns id = false)
    (h : advanceRun config i s target stage m = some (s', stage')) :
    AddsNothing id s s' := by
  have hsame := AddsNothing.refl id s
  unfold advanceRun at h
  split at h
  · split at h
    · cases h
      exact hsame
    · split at h
      · cases h
        exact hsame
      · split at h
        · cases h
          exact hsame
        · cases h
  · dsimp only at h
    cases h
    refine { hsame with marks := ?_ }
    intro hmem
    split at hmem
    · exact hmem
    · exact (List.mem_filter.mp hmem).1
  · split at h
    · cases h
      exact hsame
    · split at h
      · cases h
        exact hsame
      · cases h
        exact hsame
  · next items accepted =>
    split at h
    · cases h
      refine { hsame with memory := ?_ }
      intro vectors' hvectors v hv hid
      obtain ⟨vectors, hbefore, rfl⟩ := Option.map_eq_some_iff.mp hvectors
      rcases List.mem_append.mp hv with hold | hnew
      · exact ⟨vectors, hbefore, hold⟩
      · obtain ⟨c, hc, rfl⟩ := List.mem_map.mp hnew
        exact absurd hid (update_ne_of_concerns hquiet hc)
    · cases h
      exact hsame
  · next items error =>
    split at h
    · cases h
      refine { hsame with memory := ?_ }
      intro vectors' hvectors v hv _
      obtain ⟨vectors, hbefore, rfl⟩ := Option.map_eq_some_iff.mp hvectors
      exact ⟨vectors, hbefore, (List.mem_filter.mp hv).1⟩
    · cases h
      refine { hsame with persisted := ?_ }
      intro c hc hid
      rcases List.mem_append.mp hc with hold | hnew
      · exact hold
      · exact absurd hid (update_ne_of_concerns hquiet hnew)
  · next items =>
    cases h
    refine { hsame with marks := ?_ }
    intro hmem
    rcases List.mem_append.mp hmem with hold | hnew
    · exact hold
    · obtain ⟨c, hc, rfl⟩ := List.mem_map.mp hnew
      exact absurd rfl (update_ne_of_concerns hquiet (List.mem_filter.mp hc).1)
  · cases h

theorem advanceRun_concerns {i : Nat}
    (hquiet : (Call.vectorize target stage).concerns id = false)
    (hgone : shows s.session id = false)
    (h : advanceRun config i s target stage m = some (s', stage')) :
    (Call.vectorize target stage').concerns id = false := by
  unfold advanceRun at h
  split at h
  · split at h
    · cases h
      rfl
    · split at h
      · cases h
        rfl
      · split at h
        · cases h
          simp [Call.concerns, hgone]
        · cases h
  · next session =>
    dsimp only at h
    cases h
    apply concerns_collected
    intro c hc hid
    obtain ⟨htarget, hshows⟩ := collect_shows hc
    rw [hid] at htarget hshows
    rw [Call.concerns, htarget, hshows] at hquiet
    cases hquiet
  · next items result =>
    split at h
    · cases h
      rfl
    · split at h
      · cases h
        rfl
      · cases h
        rw [Call.concerns, List.any_eq_false]
        intro c hc
        exact List.any_eq_false.mp hquiet c (List.mem_of_mem_take hc)
  · split at h
    · cases h
      exact hquiet
    · cases h
      rfl
  · split at h
    · cases h
      rfl
    · cases h
      exact hquiet
  · cases h
    rfl
  · cases h

theorem advanceErase_adds {erasure : Erasure} {erased : Uuid}
    {stage stage' : EraseStage} (hdistinct : HotDistinct s.session)
    (h : advanceErase s erasure erased stage m = some (s', stage')) :
    AddsNothing id s s' := by
  have hsame := AddsNothing.refl id s
  unfold advanceErase at h
  split at h
  · split at h
    · cases h
      exact hsame
    · split at h
      · cases h
        exact hsame
      · next session hremoved =>
        cases h
        have hshows := (shows_removeUpdateById hdistinct hremoved).2.1 id
        have hwarm := (inWarm_removeUpdateById hremoved).2 id
        cases erasure with
        | delete | purge => exact { hsame with shows := hshows, warm := hwarm }
  · cases h
    refine { hsame with marks := ?_ }
    intro hmem
    exact (List.mem_filter.mp hmem).1
  · split at h
    · cases h
      exact hsame
    · cases h
      exact hsame
  · split at h
    · cases h
      exact hsame
    · next vectors hvectors =>
      cases h
      refine { hsame with memory := ?_ }
      intro vectors' heq v hv _
      cases heq
      exact ⟨vectors, hvectors, (List.mem_filter.mp hv).1⟩
  · split at h
    · cases h
      refine { hsame with persisted := ?_ }
      intro c hc _
      exact (List.mem_filter.mp hc).1
    · cases h
      exact hsame
  · cases h

end

/-!
# The invariant
-/

/-- No run will touch the update, and no later one can load it. -/
structure Gone (s : State) (id : Uuid) : Prop where
  session : shows s.shared.session id = false
  warm : inWarm s.shared.session id = false
  calls : forall (i : Nat) (call : Call), s.calls[i]? = some call ->
    call.concerns id = false

/-- Nothing of the update is left in memory, in storage or among the marks. -/
structure Forgotten (s : Shared) (id : Uuid) : Prop where
  memory : forall vectors, s.memory = some vectors ->
    forall v, v ∈ vectors -> v.content.update ≠ id
  persisted : forall c, c ∈ s.persisted -> c.update ≠ id
  marks : id ∉ s.marks

/-- Only storage has vectors of the update, and these are still to be removed. -/
structure Dropping (s : Shared) (id : Uuid) (ids : List ContentId) : Prop where
  loading : s.loading = none
  memory : forall vectors, s.memory = some vectors ->
    forall v, v ∈ vectors -> v.content.update ≠ id
  persisted : forall c, c ∈ s.persisted -> c.update = id -> c ∈ ids
  only : forall c, c ∈ ids -> c.update = id
  first : s.memory = none -> forall c, c ∈ ids -> c.chunk = 0

def EraseFits (s : State) (id : Uuid) : EraseStage -> Prop
  | EraseStage.swapped => Gone s id
  | EraseStage.unmarked | EraseStage.cleared =>
      Gone s id ∧ id ∉ s.shared.marks
  | EraseStage.dropping ids =>
      Gone s id ∧ id ∉ s.shared.marks ∧ Dropping s.shared id ids
  | EraseStage.returned (Except.ok true) =>
      Gone s id ∧ Forgotten s.shared id ∧
        forall contents, s.shared.loading = some contents ->
          forall c, c ∈ contents -> c.update ≠ id
  | _ => True

/-- The update is out of the session and its vectors are not yet all removed. -/
def EraseStage.underWay : EraseStage -> Bool
  | EraseStage.swapped | EraseStage.unmarked | EraseStage.cleared
  | EraseStage.dropping _ => true
  | _ => false

def RunFits (s : State) (i : Nat) : RunStage -> Prop
  | RunStage.loaded _ => s.shared.memory ≠ none
  | RunStage.collected items | RunStage.embedded items =>
      s.shared.memory ≠ none ∧ Chained items
  | RunStage.added items =>
      exists vectors, s.shared.memory = some vectors ∧
        forall c, c ∈ items -> ⟨some i, c⟩ ∈ vectors
  | _ => True

def Gapless (contents : List ContentId) : Prop :=
  forall (u : Uuid) (n : Nat), ⟨u, n + 2⟩ ∈ contents -> ⟨u, n + 1⟩ ∈ contents

def OwnedGapless (vectors : List StoredVector) : Prop :=
  forall (o : Option Nat) (u : Uuid) (n : Nat),
    ⟨o, ⟨u, n + 2⟩⟩ ∈ vectors -> ⟨o, ⟨u, n + 1⟩⟩ ∈ vectors

def Settled (calls : List Call) : Option Nat -> Prop
  | none => True
  | some j => forall target items,
      calls[j]? ≠ some (Call.vectorize target (RunStage.added items))

def Covered (s : State) (vectors : List StoredVector) (c : ContentId) : Prop :=
  (exists v, v ∈ vectors ∧ v.content = c ∧ Settled s.calls v.owner) ∨
    exists (i : Nat) (erasure : Erasure) (id : Uuid) (ids : List ContentId),
      s.calls[i]? = some (Call.erase erasure id (EraseStage.dropping ids)) ∧
        c ∈ ids

def RunStage.hasAdded : RunStage -> Bool
  | RunStage.added _ | RunStage.written _ | RunStage.returned _ => true
  | _ => false

/-- The vectors in memory have owners and no gaps, and no vector in storage is
without one in memory unless an erasure is removing it. -/
structure Backed (s : State) (vectors : List StoredVector) : Prop where
  gapless : OwnedGapless vectors
  owned : forall v, v ∈ vectors -> forall j, v.owner = some j ->
    exists target stage, s.calls[j]? = some (Call.vectorize target stage) ∧
      stage.hasAdded = true
  covered : forall c, c ∈ s.shared.persisted -> Covered s vectors c

structure Kept (s : State) : Prop where
  distinct : HotDistinct s.shared.session
  loading : s.shared.memory ≠ none -> s.shared.loading = none
  loaded : forall contents, s.shared.loading = some contents ->
    Gapless contents ∧ forall c, c ∈ s.shared.persisted -> c ∈ contents
  gapless : s.shared.memory = none -> Gapless s.shared.persisted
  backed : forall vectors, s.shared.memory = some vectors -> Backed s vectors
  runs : forall (i : Nat) (target : Option Uuid) (stage : RunStage),
    s.calls[i]? = some (Call.vectorize target stage) -> RunFits s i stage
  erasures : forall (i : Nat) (erasure : Erasure) (id : Uuid)
      (stage : EraseStage),
    s.calls[i]? = some (Call.erase erasure id stage) -> EraseFits s id stage
  single : forall (i j : Nat) (erasure erasure' : Erasure) (id : Uuid)
      (stage stage' : EraseStage),
    s.calls[i]? = some (Call.erase erasure id stage) ->
    s.calls[j]? = some (Call.erase erasure' id stage') ->
    stage.underWay = true -> stage'.underWay = true -> i = j

variable {s' : Shared}

theorem Dropping.mono {s : Shared} {ids : List ContentId} (h : Dropping s id ids)
    (hadds : AddsNothing id s s') (hnone : s'.memory = none -> s.memory = none) :
    Dropping s' id ids where
  loading := hadds.loading.trans h.loading
  memory := by
    intro vectors' hvectors v hv hid
    obtain ⟨vectors, hbefore, hold⟩ := hadds.memory vectors' hvectors v hv hid
    exact h.memory vectors hbefore v hold hid
  persisted := fun c hc hid => h.persisted c (hadds.persisted c hc hid) hid
  only := h.only
  first := fun hnone' => h.first (hnone hnone')

theorem Forgotten.mono {s : Shared} (h : Forgotten s id)
    (hadds : AddsNothing id s s') :
    Forgotten s' id where
  memory := by
    intro vectors' hvectors v hv hid
    obtain ⟨vectors, hbefore, hold⟩ := hadds.memory vectors' hvectors v hv hid
    exact h.memory vectors hbefore v hold hid
  persisted := fun c hc hid => h.persisted c (hadds.persisted c hc hid) hid
  marks := fun hmem => h.marks (hadds.marks hmem)

variable {s : State} {stage : EraseStage}

theorem EraseFits.mono {t : State} (h : EraseFits s id stage)
    (hgone : Gone s id -> Gone t id)
    (hadds : Gone s id -> AddsNothing id s.shared t.shared)
    (hnone : t.shared.memory = none -> s.shared.memory = none) :
    EraseFits t id stage := by
  unfold EraseFits at h ⊢
  split at h
  · exact hgone h
  · exact ⟨hgone h.1, fun hmem => h.2 ((hadds h.1).marks hmem)⟩
  · exact ⟨hgone h.1, fun hmem => h.2 ((hadds h.1).marks hmem)⟩
  · exact ⟨hgone h.1, fun hmem => h.2.1 ((hadds h.1).marks hmem),
      h.2.2.mono (hadds h.1) hnone⟩
  · refine ⟨hgone h.1, h.2.1.mono (hadds h.1), ?_⟩
    rw [(hadds h.1).loading]
    exact h.2.2
  · trivial

theorem EraseFits.gone (h : EraseFits s id stage) (hstage : stage.underWay = true) :
    Gone s id := by
  cases stage with
  | swapped =>
      exact h
  | unmarked | cleared | dropping ids =>
      exact h.1
  | called | returned result => cases hstage

variable {i : Nat} {call' : Call}

theorem Gone.set {call : Call} (h : Gone s id) (hi : s.calls[i]? = some call)
    (hquiet : call'.concerns id = false) (hadds : AddsNothing id s.shared s') :
    Gone ⟨s', s.calls.set i call'⟩ id where
  session := by
    rw [Bool.eq_false_iff]
    intro hyes
    have hbefore := hadds.shows hyes
    rw [h.session] at hbefore
    cases hbefore
  warm := by
    rw [Bool.eq_false_iff]
    intro hyes
    have hbefore := hadds.warm hyes
    rw [h.warm] at hbefore
    cases hbefore
  calls := forall_getElem?_set (P := fun _ call => call.concerns id = false) hi
    hquiet (fun j other _ hj => h.calls j other hj)

variable {calls : List Call} {o : Option Nat}

theorem Settled.set {call : Call} (h : Settled calls o) (hi : calls[i]? = some call)
    (hnot : o = some i ->
      forall target items, call' ≠ Call.vectorize target (RunStage.added items)) :
    Settled (calls.set i call') o := by
  cases o with
  | none =>
      trivial
  | some j =>
      intro target items hj
      rcases getElem?_set_cases hi hj with ⟨rfl, heq⟩ | ⟨_, hother⟩
      · exact hnot rfl target items heq.symm
      · exact h target items hother

variable {stage' : RunStage} {vectors vectors' : List StoredVector}

theorem Covered.set {stage : RunStage} (h : Covered s vectors c)
    (hi : s.calls[i]? = some (Call.vectorize target stage))
    (hkept : forall v, v ∈ vectors -> Settled s.calls v.owner ->
      v ∈ vectors' ∧
        (v.owner = some i -> forall items, stage' ≠ RunStage.added items)) :
    Covered ⟨s', s.calls.set i (Call.vectorize target stage')⟩ vectors' c := by
  rcases h with ⟨v, hv, hc, hsettled⟩ | ⟨j, erasure, id, ids, hj, hc⟩
  · obtain ⟨hv', hnot⟩ := hkept v hv hsettled
    refine Or.inl ⟨v, hv', hc, hsettled.set hi ?_⟩
    intro howner target' items heq
    cases heq
    exact hnot howner items rfl
  · refine Or.inr ⟨j, erasure, id, ids, ?_, hc⟩
    have hji : i ≠ j := by
      rintro rfl
      rw [hi] at hj
      cases hj
    rw [List.getElem?_set_ne hji]
    exact hj

theorem Backed.owned_set {stage : RunStage} (h : Backed s vectors)
    (hi : s.calls[i]? = some (Call.vectorize target stage))
    (hforward : stage.hasAdded = true -> stage'.hasAdded = true) :
    forall v, v ∈ vectors -> forall j, v.owner = some j ->
      exists target' stage'',
        (s.calls.set i (Call.vectorize target stage'))[j]? =
          some (Call.vectorize target' stage'') ∧ stage''.hasAdded = true := by
  intro v hv j hj
  obtain ⟨target', stage'', hcall, hadded⟩ := h.owned v hv j hj
  by_cases hij : i = j
  · subst hij
    rw [hi] at hcall
    cases hcall
    exact ⟨target, stage',
      List.getElem?_set_self (List.getElem?_eq_some_iff.mp hi).1,
      hforward hadded⟩
  · exact ⟨target', stage'', by rw [List.getElem?_set_ne hij]; exact hcall,
      hadded⟩

theorem RunFits.mono {t : State} {j : Nat} {stage : RunStage}
    (h : RunFits s j stage)
    (hnone : s.shared.memory ≠ none -> t.shared.memory ≠ none)
    (hadded : forall items, stage = RunStage.added items ->
      forall vectors, s.shared.memory = some vectors ->
        exists vectors', t.shared.memory = some vectors' ∧
          forall c, c ∈ items -> ⟨some j, c⟩ ∈ vectors ->
            ⟨some j, c⟩ ∈ vectors') :
    RunFits t j stage := by
  unfold RunFits at h ⊢
  split at h
  · exact hnone h
  · exact ⟨hnone h.1, h.2⟩
  · exact ⟨hnone h.1, h.2⟩
  · next items =>
    obtain ⟨vectors, hvectors, hmem⟩ := h
    obtain ⟨vectors', hafter, hkept⟩ := hadded items rfl vectors hvectors
    exact ⟨vectors', hafter, fun c hc => hkept c hc (hmem c hc)⟩
  · trivial

theorem collected_not_added (items : List ContentId) :
    forall added : List ContentId,
      (if items = [] then RunStage.returned (Except.ok 0)
        else RunStage.collected items) ≠ RunStage.added added := by
  intro added
  split
  · nofun
  · nofun

theorem runFits_collected (hsome : s.shared.memory ≠ none)
    (hchained : Chained items) :
    RunFits s i
      (if items = [] then RunStage.returned (Except.ok 0)
        else RunStage.collected items) := by
  split
  · trivial
  · exact ⟨hsome, hchained⟩

/-!
# The steps of a run
-/

/-- What a step of a run leaves of the other calls. -/
structure OthersFit (s t : State) (i : Nat) : Prop where
  runs : forall (j : Nat) (target : Option Uuid) (stage : RunStage), j ≠ i ->
    s.calls[j]? = some (Call.vectorize target stage) -> RunFits t j stage
  erasures : forall (j : Nat) (erasure : Erasure) (id : Uuid)
      (stage : EraseStage), j ≠ i ->
    s.calls[j]? = some (Call.erase erasure id stage) -> EraseFits t id stage

theorem OthersFit.all {call : Call} (h : OthersFit s ⟨s', s.calls.set i call'⟩ i)
    (hi : s.calls[i]? = some call)
    (hrun : forall target stage, call' = Call.vectorize target stage ->
      RunFits ⟨s', s.calls.set i call'⟩ i stage)
    (herase : forall erasure id stage, call' = Call.erase erasure id stage ->
      EraseFits ⟨s', s.calls.set i call'⟩ id stage) :
    (forall (j : Nat) (target : Option Uuid) (stage : RunStage),
      (s.calls.set i call')[j]? = some (Call.vectorize target stage) ->
        RunFits ⟨s', s.calls.set i call'⟩ j stage) ∧
    forall (j : Nat) (erasure : Erasure) (id : Uuid) (stage : EraseStage),
      (s.calls.set i call')[j]? = some (Call.erase erasure id stage) ->
        EraseFits ⟨s', s.calls.set i call'⟩ id stage := by
  constructor
  · intro j target stage hj
    rcases getElem?_set_cases hi hj with ⟨rfl, heq⟩ | ⟨hji, hother⟩
    · exact hrun target stage heq.symm
    · exact h.runs j target stage hji hother
  · intro j erasure id stage hj
    rcases getElem?_set_cases hi hj with ⟨rfl, heq⟩ | ⟨hji, hother⟩
    · exact herase erasure id stage heq.symm
    · exact h.erasures j erasure id stage hji hother

section

variable [CharTables]

variable {config : VectorizerConfig} {s : State} {s' : Shared} {i : Nat}
  {target : Option Uuid} {stage stage' : RunStage} {m : Move}

theorem erasures_after_run (h : Kept s)
    (hi : s.calls[i]? = some (Call.vectorize target stage))
    (hstep : advanceRun config i s.shared target stage m = some (s', stage'))
    (hnone : s'.memory = none -> s.shared.memory = none) :
    forall (j : Nat) (erasure : Erasure) (id : Uuid) (est : EraseStage),
      s.calls[j]? = some (Call.erase erasure id est) ->
      EraseFits ⟨s', s.calls.set i (Call.vectorize target stage')⟩ id est := by
  intro j erasure id est hj
  apply (h.erasures j erasure id est hj).mono ?_ ?_ hnone
  · intro hgone
    have hquiet := hgone.calls i _ hi
    exact hgone.set hi (advanceRun_concerns hquiet hgone.session hstep)
      (advanceRun_adds hquiet hstep)
  · intro hgone
    exact advanceRun_adds (hgone.calls i _ hi) hstep

omit [CharTables] in
theorem Kept.run (h : Kept s)
    (hi : s.calls[i]? = some (Call.vectorize target stage))
    (hsession : s'.session = s.shared.session)
    (hloading : s'.loading = s.shared.loading)
    (hnone : s'.memory = none ↔ s.shared.memory = none)
    (hpersisted : s.shared.memory = none ->
      s'.persisted = s.shared.persisted)
    (hbacked : forall vectors', s'.memory = some vectors' ->
      Backed ⟨s', s.calls.set i (Call.vectorize target stage')⟩ vectors')
    (hothers : forall j, j ≠ i -> forall vectors,
      s.shared.memory = some vectors ->
        exists vectors', s'.memory = some vectors' ∧
          forall c, ⟨some j, c⟩ ∈ vectors -> ⟨some j, c⟩ ∈ vectors')
    (hown : RunFits ⟨s', s.calls.set i (Call.vectorize target stage')⟩ i stage')
    (herasures : forall (j : Nat) (erasure : Erasure) (id : Uuid)
        (est : EraseStage),
      s.calls[j]? = some (Call.erase erasure id est) ->
      EraseFits ⟨s', s.calls.set i (Call.vectorize target stage')⟩ id est) :
    Kept ⟨s', s.calls.set i (Call.vectorize target stage')⟩ := by
  have hfit : OthersFit s
      ⟨s', s.calls.set i (Call.vectorize target stage')⟩ i := by
    constructor
    · intro j target' stage'' hji hj
      apply (h.runs j target' stage'' hj).mono (fun hsome => hsome ∘ hnone.mp)
      intro items _ vectors hvectors
      obtain ⟨vectors', hafter, hkept⟩ := hothers j hji vectors hvectors
      exact ⟨vectors', hafter, fun c _ => hkept c⟩
    · intro j erasure id est _ hj
      exact herasures j erasure id est hj
  obtain ⟨hruns, herases⟩ := hfit.all hi
    (fun target' stage'' heq => by cases heq; exact hown) nofun
  refine ⟨?_, ?_, ?_, ?_, hbacked, hruns, herases, ?_⟩
  · change HotDistinct s'.session
    rw [hsession]
    exact h.distinct
  · intro hsome
    change s'.loading = none
    rw [hloading]
    exact h.loading (hsome ∘ hnone.mpr)
  · intro contents hcontents
    change s'.loading = some contents at hcontents
    rw [hloading] at hcontents
    have hempty : s.shared.memory = none := by
      by_contra hsome
      rw [h.loading hsome] at hcontents
      cases hcontents
    change Gapless contents ∧ forall c, c ∈ s'.persisted -> c ∈ contents
    rw [hpersisted hempty]
    exact h.loaded contents hcontents
  · intro hempty
    change Gapless s'.persisted
    rw [hpersisted (hnone.mp hempty)]
    exact h.gapless (hnone.mp hempty)
  · intro j k erasure erasure' id est est' hj hk
    rcases getElem?_set_cases hi hj with ⟨_, heq⟩ | ⟨_, hj'⟩
    · cases heq
    · rcases getElem?_set_cases hi hk with ⟨_, heq⟩ | ⟨_, hk'⟩
      · cases heq
      · exact h.single j k erasure erasure' id est est' hj' hk'

theorem Kept.run_quiet {marks : List Uuid} (h : Kept s)
    (hi : s.calls[i]? = some (Call.vectorize target stage))
    (hstep : advanceRun config i s.shared target stage m =
      some ({ s.shared with marks := marks }, stage'))
    (hforward : stage.hasAdded = true -> stage'.hasAdded = true)
    (hnot : forall items, stage' ≠ RunStage.added items) (hown : RunFits
      ⟨{ s.shared with marks := marks },
        s.calls.set i (Call.vectorize target stage')⟩ i stage') :
    Kept ⟨{ s.shared with marks := marks },
      s.calls.set i (Call.vectorize target stage')⟩ := by
  refine h.run hi rfl rfl Iff.rfl (fun _ => rfl) ?_ ?_ hown
    (erasures_after_run h hi hstep id)
  · intro vectors hvectors
    have hbacked := h.backed vectors hvectors
    refine ⟨hbacked.gapless, hbacked.owned_set hi hforward, ?_⟩
    intro c hc
    exact (hbacked.covered c hc).set hi (fun v hv _ => ⟨hv, fun _ => hnot⟩)
  · exact fun j _ vectors hvectors => ⟨vectors, hvectors, fun c hc => hc⟩

variable {items : List ContentId}

theorem Kept.run_add (h : Kept s)
    (hi : s.calls[i]? = some (Call.vectorize target (RunStage.embedded items)))
    (hstep : advanceRun config i s.shared target (RunStage.embedded items) m =
      some ({ s.shared with
          memory := s.shared.memory.map
            (fun vectors => vectors ++ items.map (fun c => ⟨some i, c⟩)) },
        RunStage.added items)) :
    Kept ⟨{ s.shared with
        memory := s.shared.memory.map
          (fun vectors => vectors ++ items.map (fun c => ⟨some i, c⟩)) },
      s.calls.set i (Call.vectorize target (RunStage.added items))⟩ := by
  obtain ⟨hsome, hchained⟩ := h.runs i target _ hi
  obtain ⟨vectors, hvectors⟩ := Option.ne_none_iff_exists'.mp hsome
  have hbacked := h.backed vectors hvectors
  have hmap : s.shared.memory.map
      (fun vectors => vectors ++ items.map (fun c => ⟨some i, c⟩)) =
      some (vectors ++ items.map (fun c => ⟨some i, c⟩)) := by
    rw [hvectors]
    rfl
  have hnone : s.shared.memory.map
      (fun vectors => vectors ++ items.map (fun c => ⟨some i, c⟩)) = none ↔
      s.shared.memory = none :=
    Option.map_eq_none_iff
  refine h.run hi rfl rfl hnone (fun _ => rfl) ?_ ?_ ?_
    (erasures_after_run h hi hstep hnone.mp)
  · intro vectors' hvectors'
    cases hmap.symm.trans hvectors'
    refine ⟨?_, ?_, ?_⟩
    · intro o u n hmem
      rcases List.mem_append.mp hmem with hold | hnew
      · exact List.mem_append_left _ (hbacked.gapless o u n hold)
      · obtain ⟨c, hc, heq⟩ := List.mem_map.mp hnew
        cases heq
        exact List.mem_append_right _
          (List.mem_map.mpr ⟨⟨u, n + 1⟩, hchained.mem hc, rfl⟩)
    · intro v hv j hj
      rcases List.mem_append.mp hv with hold | hnew
      · exact hbacked.owned_set hi nofun v hold j hj
      · obtain ⟨c, _, rfl⟩ := List.mem_map.mp hnew
        cases hj
        exact ⟨target, RunStage.added items,
          List.getElem?_set_self (List.getElem?_eq_some_iff.mp hi).1, rfl⟩
    · intro c hc
      apply (hbacked.covered c hc).set hi
      intro v hv _
      refine ⟨List.mem_append_left _ hv, ?_⟩
      intro howner
      obtain ⟨target', stage, hcall, hadded⟩ := hbacked.owned v hv i howner
      rw [hi] at hcall
      cases hcall
      cases hadded
  · intro j _ vectors' hvectors'
    cases hvectors.symm.trans hvectors'
    exact ⟨_, hmap, fun c hc => List.mem_append_left _ hc⟩
  · refine ⟨_, hmap, ?_⟩
    intro c hc
    exact List.mem_append_right _ (List.mem_map.mpr ⟨c, hc, rfl⟩)

theorem Kept.run_write (h : Kept s)
    (hi : s.calls[i]? = some (Call.vectorize target (RunStage.added items)))
    (hstep : advanceRun config i s.shared target (RunStage.added items) m =
      some ({ s.shared with persisted := s.shared.persisted ++ items },
        RunStage.written items)) :
    Kept ⟨{ s.shared with persisted := s.shared.persisted ++ items },
      s.calls.set i (Call.vectorize target (RunStage.written items))⟩ := by
  obtain ⟨vectors, hvectors, hown⟩ := h.runs i target _ hi
  have hbacked := h.backed vectors hvectors
  have hempty : s.shared.memory ≠ none := by
    rw [hvectors]
    nofun
  refine h.run hi rfl rfl Iff.rfl (fun hnone => absurd hnone hempty) ?_ ?_
    True.intro (erasures_after_run h hi hstep id)
  · intro vectors' hvectors'
    cases hvectors.symm.trans hvectors'
    refine ⟨hbacked.gapless, hbacked.owned_set hi (fun _ => rfl), ?_⟩
    intro c hc
    rcases List.mem_append.mp hc with hold | hnew
    · exact (hbacked.covered c hold).set hi (fun v hv _ => ⟨hv, nofun⟩)
    · refine Or.inl ⟨⟨some i, c⟩, hown c hnew, rfl, ?_⟩
      intro target' items' hcall
      rw [List.getElem?_set_self (List.getElem?_eq_some_iff.mp hi).1] at hcall
      cases hcall
  · exact fun j _ vectors' hvectors' => ⟨vectors', hvectors', fun c hc => hc⟩

theorem Kept.run_undo {result : Except String Nat} (h : Kept s)
    (hi : s.calls[i]? = some (Call.vectorize target (RunStage.added items)))
    (hstep : advanceRun config i s.shared target (RunStage.added items) m =
      some ({ s.shared with
          memory := s.shared.memory.map
            (fun vectors => vectors.filter (fun v => v.owner != some i)) },
        RunStage.returned result)) :
    Kept ⟨{ s.shared with
        memory := s.shared.memory.map
          (fun vectors => vectors.filter (fun v => v.owner != some i)) },
      s.calls.set i (Call.vectorize target (RunStage.returned result))⟩ := by
  have hnone : s.shared.memory.map
      (fun vectors => vectors.filter (fun v => v.owner != some i)) = none ↔
      s.shared.memory = none :=
    Option.map_eq_none_iff
  refine h.run hi rfl rfl hnone (fun _ => rfl) ?_ ?_ True.intro
    (erasures_after_run h hi hstep hnone.mp)
  · intro vectors' hvectors'
    obtain ⟨vectors, hvectors, rfl⟩ := Option.map_eq_some_iff.mp hvectors'
    have hbacked := h.backed vectors hvectors
    refine ⟨?_, ?_, ?_⟩
    · intro o u n hmem
      obtain ⟨hold, howner⟩ := List.mem_filter.mp hmem
      exact List.mem_filter.mpr ⟨hbacked.gapless o u n hold, howner⟩
    · intro v hv
      exact hbacked.owned_set hi (fun _ => rfl) v (List.mem_filter.mp hv).1
    · intro c hc
      apply (hbacked.covered c hc).set hi
      intro v hv hsettled
      refine ⟨List.mem_filter.mpr ⟨hv, ?_⟩, nofun⟩
      rw [bne_iff_ne]
      intro howner
      rw [howner] at hsettled
      exact hsettled target items hi
  · intro j hji vectors hvectors
    refine ⟨vectors.filter (fun v => v.owner != some i), by rw [hvectors]; rfl, ?_⟩
    intro c hc
    refine List.mem_filter.mpr ⟨hc, ?_⟩
    rw [bne_iff_ne]
    intro heq
    exact hji (Option.some.inj heq)

theorem advanceRun_kept (h : Kept s)
    (hi : s.calls[i]? = some (Call.vectorize target stage))
    (hstep : advanceRun config i s.shared target stage m = some (s', stage')) :
    Kept ⟨s', s.calls.set i (Call.vectorize target stage')⟩ := by
  have hfits := h.runs i target stage hi
  have hrun := hstep
  unfold advanceRun at hstep
  split at hstep
  · split at hstep
    · cases hstep
      exact h.run_quiet hi hrun nofun nofun True.intro
    · split at hstep
      · cases hstep
        exact h.run_quiet hi hrun nofun nofun True.intro
      · split at hstep
        · next hsome =>
          cases hstep
          refine h.run_quiet hi hrun nofun nofun ?_
          intro hempty
          change s.shared.memory = none at hempty
          rw [hempty] at hsome
          cases hsome
        · cases hstep
  · next session =>
    dsimp only at hstep
    cases hstep
    exact h.run_quiet hi hrun nofun (collected_not_added _)
      (runFits_collected hfits (collect_chained config session _ target))
  · next items result =>
    split at hstep
    · cases hstep
      exact h.run_quiet hi hrun nofun nofun True.intro
    · next n =>
      split at hstep
      · cases hstep
        exact h.run_quiet hi hrun nofun nofun True.intro
      · cases hstep
        exact h.run_quiet hi hrun nofun nofun ⟨hfits.1, hfits.2.take n⟩
  · split at hstep
    · cases hstep
      exact h.run_add hi hrun
    · cases hstep
      exact h.run_quiet hi hrun nofun nofun True.intro
  · split at hstep
    · cases hstep
      exact h.run_undo hi hrun
    · cases hstep
      exact h.run_write hi hrun
  · cases hstep
    exact h.run_quiet hi hrun (fun _ => rfl) nofun True.intro
  · cases hstep

end

/-!
# The steps of an erasure
-/

theorem mem_chunksFrom {present : Nat -> Bool} {m : Nat} :
    forall (fuel n : Nat), n ≤ m -> m < n + fuel ->
      (forall j, n ≤ j -> j ≤ m -> present j = true) ->
      m ∈ chunksFrom present fuel n := by
  intro fuel
  induction fuel with
  | zero =>
      intro n hle hlt _
      omega
  | succ fuel ih =>
      intro n hle hlt hpresent
      rw [chunksFrom, if_pos (hpresent n (Nat.le_refl n) hle)]
      by_cases heq : m = n
      · rw [heq]
        exact List.mem_cons_self
      · exact List.mem_cons_of_mem _ (ih (n + 1) (by omega) (by omega)
          (fun j hj => hpresent j (by omega)))

variable {v : StoredVector}

theorem le_lastChunk (hv : v ∈ vectors) :
    v.content.chunk ≤ lastChunk vectors := by
  induction vectors with
  | nil =>
      cases hv
  | cons w rest ih =>
      have hmax : lastChunk (w :: rest) =
          max w.content.chunk (lastChunk rest) := rfl
      rw [hmax]
      rcases List.mem_cons.mp hv with rfl | hrest
      · exact Nat.le_max_left _ _
      · exact Nat.le_trans (ih hrest) (Nat.le_max_right _ _)

theorem update_of_removed (h : c ∈ removedIds vectors id) :
    c.update = id := by
  obtain ⟨n, _, rfl⟩ := List.mem_map.mp h
  rfl

theorem hasContent_of_mem (h : ⟨o, c⟩ ∈ vectors) :
    hasContent vectors c = true :=
  List.any_eq_true.mpr ⟨⟨o, c⟩, h, by simp⟩

theorem OwnedGapless.down (h : OwnedGapless vectors) {u : Uuid} (n k : Nat)
    (hmem : ⟨o, ⟨u, n + k + 1⟩⟩ ∈ vectors) :
    ⟨o, ⟨u, n + 1⟩⟩ ∈ vectors := by
  induction k with
  | zero =>
      exact hmem
  | succ k ih =>
      exact ih (h o u (n + k) hmem)

theorem mem_removedIds (h : OwnedGapless vectors) (hv : v ∈ vectors)
    (hid : v.content.update = id) :
    v.content ∈ removedIds vectors id := by
  obtain ⟨o, u, n⟩ := v
  cases hid
  apply List.mem_map.mpr
  refine ⟨n, ?_, rfl⟩
  cases n with
  | zero =>
      exact List.mem_cons_self
  | succ m =>
      apply List.mem_cons_of_mem
      have hlast := le_lastChunk hv
      apply mem_chunksFrom _ 1 (by omega) (by dsimp only at hlast; omega)
      intro j hj hjm
      obtain ⟨n, rfl⟩ : exists n, j = n + 1 := ⟨j - 1, by omega⟩
      obtain ⟨k, rfl⟩ : exists k, m = n + k := ⟨m - n, by omega⟩
      exact hasContent_of_mem (h.down n k hv)

variable {erasure : Erasure}

theorem Covered.set_erase {stage' : EraseStage} (h : Covered s vectors c)
    (hi : s.calls[i]? = some (Call.erase erasure id stage))
    (hkept : forall v, v ∈ vectors -> v.content = c -> v ∈ vectors')
    (hids : forall ids, stage = EraseStage.dropping ids -> c ∈ ids ->
      exists ids', stage' = EraseStage.dropping ids' ∧ c ∈ ids') :
    Covered ⟨s', s.calls.set i (Call.erase erasure id stage')⟩ vectors' c := by
  rcases h with ⟨v, hv, hc, hsettled⟩ | ⟨j, erasure', id', ids, hj, hc⟩
  · exact Or.inl ⟨v, hkept v hv hc, hc, hsettled.set hi (fun _ _ _ => nofun)⟩
  · right
    by_cases hij : i = j
    · subst hij
      rw [hi] at hj
      cases hj
      obtain ⟨ids', rfl, hc'⟩ := hids ids rfl hc
      exact ⟨i, erasure, id, ids',
        List.getElem?_set_self (List.getElem?_eq_some_iff.mp hi).1, hc'⟩
    · exact ⟨j, erasure', id', ids, by rw [List.getElem?_set_ne hij]; exact hj,
        hc⟩

theorem Backed.owned_set_erase (h : Backed s vectors)
    (hi : s.calls[i]? = some (Call.erase erasure id stage)) :
    forall v, v ∈ vectors -> forall j, v.owner = some j ->
      exists target' stage'',
        (s.calls.set i call')[j]? = some (Call.vectorize target' stage'') ∧
          stage''.hasAdded = true := by
  intro v hv j hj
  obtain ⟨target', stage'', hcall, hadded⟩ := h.owned v hv j hj
  have hij : i ≠ j := by
    rintro rfl
    rw [hi] at hcall
    cases hcall
  exact ⟨target', stage'', by rw [List.getElem?_set_ne hij]; exact hcall, hadded⟩

section

variable [CharTables]

variable {s : State} {i : Nat} {erasure : Erasure} {id : Uuid}
  {stage stage' : EraseStage} {m : Move}

theorem Kept.erase {s' : Shared} (h : Kept s)
    (hi : s.calls[i]? = some (Call.erase erasure id stage))
    (hstep : advanceErase s.shared erasure id stage m = some (s', stage'))
    (hdistinct : HotDistinct s'.session)
    (hnone : s'.memory = none ↔ s.shared.memory = none)
    (hgapless : s.shared.memory = none -> Gapless s'.persisted)
    (hbacked : forall vectors', s'.memory = some vectors' ->
      Backed ⟨s', s.calls.set i (Call.erase erasure id stage')⟩ vectors')
    (hadded : forall (j : Nat) (target : Option Uuid) (items : List ContentId),
      s.calls[j]? = some (Call.vectorize target (RunStage.added items)) ->
      forall vectors, s.shared.memory = some vectors ->
        exists vectors', s'.memory = some vectors' ∧
          forall c, c ∈ items -> ⟨some j, c⟩ ∈ vectors ->
            ⟨some j, c⟩ ∈ vectors')
    (hown : EraseFits ⟨s', s.calls.set i (Call.erase erasure id stage')⟩ id
      stage') (hsingle : stage'.underWay = true -> stage.underWay = true ∨
      shows s.shared.session id = true ∨ inWarm s.shared.session id = true) :
    Kept ⟨s', s.calls.set i (Call.erase erasure id stage')⟩ := by
  have hadds : forall other, AddsNothing other s.shared s' :=
    fun other => advanceErase_adds h.distinct hstep
  have hfit : OthersFit s
      ⟨s', s.calls.set i (Call.erase erasure id stage')⟩ i := by
    constructor
    · intro j target stage'' _ hj
      apply (h.runs j target stage'' hj).mono (fun hsome => hsome ∘ hnone.mp)
      rintro items rfl
      exact hadded j target items hj
    · intro j erasure' other est _ hj
      apply (h.erasures j erasure' other est hj).mono ?_ (fun _ => hadds other)
        hnone.mp
      intro hgone
      exact hgone.set hi rfl (hadds other)
  obtain ⟨hruns, herases⟩ := hfit.all hi nofun
    (fun _ _ _ heq => by cases heq; exact hown)
  have hother : forall (j : Nat) (erasure' : Erasure) (est : EraseStage),
      s.calls[j]? = some (Call.erase erasure' id est) ->
      est.underWay = true -> stage'.underWay = true -> i = j := by
    intro j erasure' est hj hest hstage'
    rcases hsingle hstage' with hstage | hfound
    · exact h.single i j erasure erasure' id stage est hi hj hstage hest
    · have hgone := (h.erasures j erasure' id est hj).gone hest
      rw [hgone.session, hgone.warm] at hfound
      simp at hfound
  refine ⟨hdistinct, ?_, ?_, ?_, hbacked, hruns, herases, ?_⟩
  · intro hsome
    change s'.loading = none
    rw [(hadds id).loading]
    exact h.loading (hsome ∘ hnone.mpr)
  · intro contents hcontents
    change s'.loading = some contents at hcontents
    rw [(hadds id).loading] at hcontents
    obtain ⟨hgap, hsub⟩ := h.loaded contents hcontents
    refine ⟨hgap, ?_⟩
    intro c hc
    exact hsub c ((hadds c.update).persisted c hc rfl)
  · intro hempty
    exact hgapless (hnone.mp hempty)
  · intro j k erasure₁ erasure₂ other est est' hj hk hest hest'
    rcases getElem?_set_cases hi hj with ⟨rfl, heq⟩ | ⟨_, hj'⟩
    · cases heq
      rcases getElem?_set_cases hi hk with ⟨rfl, _⟩ | ⟨_, hk'⟩
      · rfl
      · exact hother k erasure₂ est' hk' hest' hest
    · rcases getElem?_set_cases hi hk with ⟨rfl, heq⟩ | ⟨_, hk'⟩
      · cases heq
        exact (hother j erasure₁ est hj' hest hest').symm
      · exact h.single j k erasure₁ erasure₂ other est est' hj' hk' hest hest'

variable {session : ActiveSession}

theorem Kept.erase_quiet {marks : List Uuid} (h : Kept s)
    (hi : s.calls[i]? = some (Call.erase erasure id stage))
    (hstep : advanceErase s.shared erasure id stage m =
      some ({ s.shared with session := session, marks := marks }, stage'))
    (hdistinct : HotDistinct session) (hnot : forall c : ContentId, forall ids,
      stage = EraseStage.dropping ids -> c ∈ ids ->
        exists ids', stage' = EraseStage.dropping ids' ∧ c ∈ ids') (hown : EraseFits
      ⟨{ s.shared with session := session, marks := marks },
        s.calls.set i (Call.erase erasure id stage')⟩ id stage')
    (hsingle : stage'.underWay = true -> stage.underWay = true ∨
      shows s.shared.session id = true ∨ inWarm s.shared.session id = true) :
    Kept ⟨{ s.shared with session := session, marks := marks },
      s.calls.set i (Call.erase erasure id stage')⟩ := by
  refine h.erase hi hstep hdistinct Iff.rfl h.gapless ?_ ?_ hown hsingle
  · intro vectors hvectors
    have hbacked := h.backed vectors hvectors
    refine ⟨hbacked.gapless, hbacked.owned_set_erase hi, ?_⟩
    intro c hc
    exact (hbacked.covered c hc).set_erase hi (fun v hv _ => hv) (hnot c)
  · exact fun j _ items _ vectors hvectors =>
      ⟨vectors, hvectors, fun c _ hc => hc⟩

/-- The erasure takes the vectors of its update out of memory, all of them as
there are no gaps. -/
theorem Kept.erase_drop {vectors : List StoredVector} (h : Kept s)
    (hi : s.calls[i]? = some (Call.erase erasure id EraseStage.cleared))
    (hvectors : s.shared.memory = some vectors)
    (hstep : advanceErase s.shared erasure id EraseStage.cleared m =
      some ({ s.shared with
          memory := some (vectors.filter
            (fun v => v.content ∉ removedIds vectors id)) },
        EraseStage.dropping (removedIds vectors id))) :
    Kept ⟨{ s.shared with
        memory := some (vectors.filter
          (fun v => v.content ∉ removedIds vectors id)) },
      s.calls.set i
        (Call.erase erasure id
          (EraseStage.dropping (removedIds vectors id)))⟩ := by
  obtain ⟨hgone, hmarks⟩ := h.erasures i erasure id _ hi
  have hbacked := h.backed vectors hvectors
  have hkept : forall v, v ∈ vectors -> v.content.update ≠ id ->
      v ∈ vectors.filter (fun v => v.content ∉ removedIds vectors id) := by
    intro v hv hne
    refine List.mem_filter.mpr ⟨hv, ?_⟩
    rw [decide_eq_true_eq]
    exact fun hremoved => hne (update_of_removed hremoved)
  have hlacks : forall v,
      v ∈ vectors.filter (fun v => v.content ∉ removedIds vectors id) ->
        v.content.update ≠ id := by
    intro v hv hid
    obtain ⟨hold, hnot⟩ := List.mem_filter.mp hv
    exact of_decide_eq_true hnot (mem_removedIds hbacked.gapless hold hid)
  have hsome : s.shared.memory ≠ none := by
    rw [hvectors]
    nofun
  have hnone : some (vectors.filter
      (fun v => v.content ∉ removedIds vectors id)) = none ↔
      s.shared.memory = none :=
    ⟨nofun, fun hempty => absurd hempty hsome⟩
  refine h.erase hi hstep h.distinct hnone h.gapless ?_ ?_ ?_
    (fun _ => Or.inl rfl)
  · intro vectors' hvectors'
    cases hvectors'
    refine ⟨?_, ?_, ?_⟩
    · intro o u n hmem
      have hne := hlacks _ hmem
      exact hkept _ (hbacked.gapless o u n (List.mem_filter.mp hmem).1) hne
    · intro v hv
      exact hbacked.owned_set_erase hi v (List.mem_filter.mp hv).1
    · intro c hc
      by_cases hremoved : c ∈ removedIds vectors id
      · exact Or.inr ⟨i, erasure, id, _,
          List.getElem?_set_self (List.getElem?_eq_some_iff.mp hi).1, hremoved⟩
      · apply (hbacked.covered c hc).set_erase hi ?_ nofun
        rintro v hv rfl
        exact List.mem_filter.mpr ⟨hv, by simpa using hremoved⟩
  · intro j target items hj vectors' hvectors'
    cases hvectors.symm.trans hvectors'
    refine ⟨_, rfl, ?_⟩
    intro c hc hmem
    exact hkept _ hmem (update_ne_of_concerns (hgone.calls j _ hj) hc)
  · refine ⟨hgone.set hi rfl (advanceErase_adds h.distinct hstep), hmarks,
      h.loading hsome, ?_, ?_,
      fun c hc => update_of_removed hc, nofun⟩
    · intro vectors' hvectors'
      cases hvectors'
      exact hlacks
    · intro c hc hid
      rcases hbacked.covered c hc with ⟨v, hv, rfl, _⟩ | hdropping
      · exact mem_removedIds hbacked.gapless hv hid
      · obtain ⟨j, erasure', other, ids, hj, hmem⟩ := hdropping
        obtain ⟨_, _, hother⟩ := h.erasures j erasure' other _ hj
        cases hid.symm.trans (hother.only c hmem)
        have hij := h.single i j erasure erasure' id _ _ hi hj rfl rfl
        subst hij
        rw [hi] at hj
        cases hj

theorem Kept.erase_remove {c : ContentId} {rest : List ContentId} (h : Kept s)
    (hi : s.calls[i]? =
      some (Call.erase erasure id (EraseStage.dropping (c :: rest))))
    (hstep : advanceErase s.shared erasure id
        (EraseStage.dropping (c :: rest)) m =
      some ({ s.shared with
          persisted := s.shared.persisted.filter (· != c) },
        if rest = [] then EraseStage.returned (Except.ok true)
        else EraseStage.dropping rest)) :
    Kept ⟨{ s.shared with persisted := s.shared.persisted.filter (· != c) },
      s.calls.set i
        (Call.erase erasure id
          (if rest = [] then EraseStage.returned (Except.ok true)
          else EraseStage.dropping rest))⟩ := by
  obtain ⟨hgone, hmarks, hdropping⟩ := h.erasures i erasure id _ hi
  have hleft : forall d, d ∈ s.shared.persisted.filter (· != c) ->
      d.update = id -> d ∈ rest := by
    intro d hd hid
    obtain ⟨hold, hne⟩ := List.mem_filter.mp hd
    rcases List.mem_cons.mp (hdropping.persisted d hold hid) with rfl | hrest
    · simp at hne
    · exact hrest
  refine h.erase hi hstep h.distinct Iff.rfl ?_ ?_ ?_ ?_ (fun _ => Or.inl rfl)
  · intro hempty u n hmem
    obtain ⟨hold, _⟩ := List.mem_filter.mp hmem
    refine List.mem_filter.mpr ⟨h.gapless hempty u n hold, ?_⟩
    rw [bne_iff_ne]
    rintro rfl
    have hchunk := hdropping.first hempty _ List.mem_cons_self
    cases hchunk
  · intro vectors hvectors
    have hbacked := h.backed vectors hvectors
    refine ⟨hbacked.gapless, hbacked.owned_set_erase hi, ?_⟩
    intro d hd
    obtain ⟨hold, hne⟩ := List.mem_filter.mp hd
    apply (hbacked.covered d hold).set_erase hi (fun v hv _ => hv)
    intro ids hids hmem
    cases hids
    rcases List.mem_cons.mp hmem with rfl | hrest
    · simp at hne
    · refine ⟨rest, ?_, hrest⟩
      rw [if_neg]
      rintro rfl
      cases hrest
  · exact fun j _ items _ vectors hvectors =>
      ⟨vectors, hvectors, fun c _ hc => hc⟩
  · have hadds : AddsNothing id s.shared _ := advanceErase_adds h.distinct hstep
    split
    · next hnil =>
      subst hnil
      refine ⟨hgone.set hi rfl hadds, ⟨hdropping.memory, ?_, hmarks⟩, ?_⟩
      · intro d hd hid
        cases hleft d hd hid
      · intro contents hcontents
        change s.shared.loading = some contents at hcontents
        rw [hdropping.loading] at hcontents
        cases hcontents
    · exact ⟨hgone.set hi rfl hadds, hmarks, hdropping.loading, hdropping.memory, hleft,
        fun d hd => hdropping.only d (List.mem_cons_of_mem _ hd),
        fun hempty d hd => hdropping.first hempty d (List.mem_cons_of_mem _ hd)⟩

theorem Kept.erase_swap {without : ActiveSession} (h : Kept s)
    (hi : s.calls[i]? = some (Call.erase erasure id EraseStage.called))
    (hquiet : s.calls.any (Call.concerns id) = false)
    (hremoved : s.shared.session.removeUpdateById id = some without)
    (hshows : forall v, shows session v = shows without v)
    (hwarm : forall v, inWarm session v = inWarm without v)
    (hhot : session.hotContext = without.hotContext)
    (hstep : advanceErase s.shared erasure id EraseStage.called m =
      some ({ s.shared with session := session }, EraseStage.swapped)) :
    Kept ⟨{ s.shared with session := session },
      s.calls.set i (Call.erase erasure id EraseStage.swapped)⟩ := by
  obtain ⟨hgone, _, hdistinct⟩ := shows_removeUpdateById h.distinct hremoved
  refine h.erase_quiet hi hstep ?_ nofun ?_
    (fun _ => Or.inr (found_of_removeUpdateById hremoved))
  · unfold HotDistinct
    rw [hhot]
    exact hdistinct
  · refine ⟨(hshows id).trans hgone,
      (hwarm id).trans (inWarm_removeUpdateById hremoved).1, ?_⟩
    apply forall_getElem?_set (P := fun _ call => call.concerns id = false) hi
      rfl
    intro j other _ hj
    exact eq_false_of_ne_true
      (List.any_eq_false.mp hquiet other (List.mem_of_getElem? hj))

theorem advanceErase_kept {s' : Shared} (h : Kept s)
    (hi : s.calls[i]? = some (Call.erase erasure id stage))
    (hallowed : Undisturbed s (Action.move i m))
    (hstep : advanceErase s.shared erasure id stage m = some (s', stage')) :
    Kept ⟨s', s.calls.set i (Call.erase erasure id stage')⟩ := by
  have hfits := h.erasures i erasure id stage hi
  have herase := hstep
  unfold advanceErase at hstep
  split at hstep
  · split at hstep
    · cases hstep
      exact h.erase_quiet hi herase h.distinct nofun True.intro nofun
    · split at hstep
      · cases hstep
        exact h.erase_quiet hi herase h.distinct nofun True.intro nofun
      · next without hremoved =>
        simp only [Undisturbed, isUndisturbed, hi, Bool.not_eq_true'] at hallowed
        cases hstep
        cases erasure with
        | delete | purge =>
            exact h.erase_swap hi hallowed hremoved (fun _ => rfl)
              (fun _ => rfl) rfl herase
  · cases hstep
    have hadds : AddsNothing id s.shared _ := advanceErase_adds h.distinct herase
    have hunmarked : id ∉ s.shared.marks.filter (· != id) := by
      simp
    cases erasure with
    | delete | purge =>
        exact h.erase_quiet hi herase h.distinct nofun
          ⟨hfits.set hi rfl hadds, hunmarked⟩ (fun _ => Or.inl rfl)
  · split at hstep
    · cases hstep
      exact h.erase_quiet hi herase h.distinct nofun True.intro nofun
    · cases hstep
      exact h.erase_quiet hi herase h.distinct nofun
        ⟨hfits.1.set hi rfl (advanceErase_adds h.distinct herase), hfits.2⟩
        (fun _ => Or.inl rfl)
  · split at hstep
    · next hempty =>
      simp only [Undisturbed, isUndisturbed, hi, hempty, Option.isSome_none,
        Bool.false_or, Bool.and_eq_true, Bool.not_eq_true'] at hallowed
      obtain ⟨hloading, hfirst⟩ := hallowed
      cases hstep
      refine h.erase_quiet hi herase h.distinct nofun ?_ (fun _ => Or.inl rfl)
      refine ⟨hfits.1.set hi rfl (advanceErase_adds h.distinct herase), hfits.2,
        Option.isNone_iff_eq_none.mp hloading, ?_, ?_, ?_, ?_⟩
      · intro vectors hvectors
        change s.shared.memory = some vectors at hvectors
        rw [hempty] at hvectors
        cases hvectors
      · intro c hc hid
        have hnot := List.any_eq_false.mp hfirst c hc
        obtain ⟨u, n⟩ := c
        cases hid
        cases n with
        | zero =>
            exact List.mem_cons_self
        | succ n =>
            simp at hnot
      · intro c hc
        rw [List.mem_singleton.mp hc]
      · intro _ c hc
        rw [List.mem_singleton.mp hc]
    · next vectors hvectors =>
      cases hstep
      exact h.erase_drop hi hvectors herase
  · next ids error =>
    have hsucceeds : error = none := Option.isNone_iff_eq_none.mp hallowed
    subst hsucceeds
    cases ids with
    | cons c rest =>
        cases hstep
        exact h.erase_remove hi herase
    | nil =>
        cases hstep
        obtain ⟨hgone, hmarks, hdropping⟩ := hfits
        refine h.erase_quiet hi herase h.distinct ?_ ?_ nofun
        · intro c ids hids hc
          cases hids
          cases hc
        · refine ⟨hgone.set hi rfl (advanceErase_adds h.distinct herase),
            ⟨hdropping.memory, ?_, hmarks⟩, ?_⟩
          · intro c hc hid
            cases hdropping.persisted c hc hid
          · intro contents hcontents
            change s.shared.loading = some contents at hcontents
            rw [hdropping.loading] at hcontents
            cases hcontents
  · cases hstep

end

/-!
# The other steps
-/

theorem Call.begun_concerns (c : Call) (id : Uuid) :
    c.begun.concerns id = false := by
  cases c with
  | vectorize target stage | erase erasure erased stage => rfl

theorem Gone.snoc {s : State} {id : Uuid} (h : Gone s id) (c : Call) :
    Gone { s with calls := s.calls ++ [c.begun] } id where
  session := h.session
  warm := h.warm
  calls := forall_getElem?_snoc
    (P := fun _ (call : Call) => call.concerns id = false)
    (c.begun_concerns id) h.calls

theorem Backed.snoc {s : State} {vectors : List StoredVector}
    (h : Backed s vectors) (c : Call) :
    Backed { s with calls := s.calls ++ [c.begun] } vectors where
  gapless := h.gapless
  owned := by
    intro v hv j hj
    obtain ⟨target, stage, hcall, hadded⟩ := h.owned v hv j hj
    refine ⟨target, stage, ?_, hadded⟩
    rw [List.getElem?_append_left (List.getElem?_eq_some_iff.mp hcall).1]
    exact hcall
  covered := by
    intro d hd
    rcases h.covered d hd with ⟨v, hv, hc, hsettled⟩ | hdropping
    · refine Or.inl ⟨v, hv, hc, ?_⟩
      cases hv : v.owner with
      | none =>
          trivial
      | some j =>
          rw [hv] at hsettled
          intro target items hj
          refine forall_getElem?_snoc (P := fun j call => Settled s.calls (some j) ->
            call ≠ Call.vectorize target (RunStage.added items)) ?_ ?_ j _ hj
              hsettled rfl
          · intro _
            cases c with
            | vectorize target stage | erase erasure erased stage => nofun
          · rintro k other hk hsettled rfl
            exact hsettled target items hk
    · obtain ⟨j, erasure, id, ids, hj, hmem⟩ := hdropping
      refine Or.inr ⟨j, erasure, id, ids, ?_, hmem⟩
      rw [List.getElem?_append_left (List.getElem?_eq_some_iff.mp hj).1]
      exact hj

theorem Kept.call (h : Kept s) (c : Call) :
    Kept { s with calls := s.calls ++ [c.begun] } := by
  have hfits : forall (i : Nat) (call : Call),
      (s.calls ++ [c.begun])[i]? = some call ->
      s.calls[i]? = some call ∨ call = c.begun := by
    intro i call hi
    exact forall_getElem?_snoc (P := fun i call =>
      s.calls[i]? = some call ∨ call = c.begun) (Or.inr rfl)
      (fun j other hj => Or.inl hj) i call hi
  refine ⟨h.distinct, h.loading, h.loaded, h.gapless,
    fun vectors hvectors => (h.backed vectors hvectors).snoc c, ?_, ?_, ?_⟩
  · intro i target stage hi
    rcases hfits i _ hi with hold | hnew
    · exact (h.runs i target stage hold).mono id
        (fun items _ vectors hvectors => ⟨vectors, hvectors, fun c _ hc => hc⟩)
    · cases c with
      | vectorize target' stage' =>
          cases hnew
          trivial
      | erase erasure id stage' =>
          cases hnew
  · intro i erasure erased stage hi
    rcases hfits i _ hi with hold | hnew
    · exact (h.erasures i erasure erased stage hold).mono (fun hgone => hgone.snoc c)
        (fun _ => AddsNothing.refl erased s.shared) id
    · cases c with
      | vectorize target' stage' =>
          cases hnew
      | erase erasure' id stage' =>
          cases hnew
          trivial
  · intro i j erasure erasure' erased stage stage' hi hj hstage hstage'
    rcases hfits i _ hi with hold | hnew
    · rcases hfits j _ hj with hold' | hnew'
      · exact h.single i j erasure erasure' erased stage stage' hold hold' hstage
          hstage'
      · cases c with
        | vectorize target' est =>
            cases hnew'
        | erase erasure' id est =>
            cases hnew'
            cases hstage'
    · cases c with
      | vectorize target' est =>
          cases hnew
      | erase erasure' id est =>
          cases hnew
          cases hstage

theorem EraseFits.reloaded {shared : Shared} (h : EraseFits s id stage)
    (hsession : shared.session = s.shared.session)
    (hpersisted : shared.persisted = s.shared.persisted)
    (hmarks : shared.marks = s.shared.marks)
    (hdropping : forall ids, stage = EraseStage.dropping ids ->
      ¬ Dropping s.shared id ids) (hvectors : Forgotten s.shared id ->
      (forall contents, s.shared.loading = some contents ->
        forall c, c ∈ contents -> c.update ≠ id) ->
      (forall vectors, shared.memory = some vectors ->
        forall v, v ∈ vectors -> v.content.update ≠ id) ∧
      forall contents, shared.loading = some contents ->
        forall c, c ∈ contents -> c.update ≠ id) :
    EraseFits ⟨shared, s.calls⟩ id stage := by
  have hgone : Gone s id -> Gone ⟨shared, s.calls⟩ id := by
    intro hgone
    constructor
    · exact hsession ▸ hgone.session
    · exact hsession ▸ hgone.warm
    · exact hgone.calls
  unfold EraseFits at h ⊢
  split at h
  · exact hgone h
  · exact ⟨hgone h.1, hmarks ▸ h.2⟩
  · exact ⟨hgone h.1, hmarks ▸ h.2⟩
  · exact absurd h.2.2 (hdropping _ rfl)
  · obtain ⟨hout, hforgotten, hlacks⟩ := h
    obtain ⟨hmemory, hloading⟩ := hvectors hforgotten hlacks
    exact ⟨hgone hout, ⟨hmemory, hpersisted ▸ hforgotten.persisted,
      hmarks ▸ hforgotten.marks⟩, hloading⟩
  · trivial

theorem Kept.readVectors (h : Kept s) (hempty : s.shared.memory = none)
    (hdropping : s.calls.any Call.isDropping = false) :
    Kept { s with
      shared := { s.shared with loading := some s.shared.persisted } } := by
  refine ⟨h.distinct, fun hsome => absurd hempty hsome, ?_, h.gapless, ?_, ?_, ?_,
    h.single⟩
  · intro contents hcontents
    cases hcontents
    exact ⟨h.gapless hempty, fun c hc => hc⟩
  · intro vectors hvectors
    change s.shared.memory = some vectors at hvectors
    rw [hempty] at hvectors
    cases hvectors
  · intro i target stage hi
    exact (h.runs i target stage hi).mono id
      (fun items _ vectors hvectors => ⟨vectors, hvectors, fun c _ hc => hc⟩)
  · intro i erasure id stage hi
    refine (h.erasures i erasure id stage hi).reloaded rfl rfl rfl ?_ ?_
    · rintro ids rfl _
      exact List.any_eq_false.mp hdropping _ (List.mem_of_getElem? hi) rfl
    · intro hforgotten _
      refine ⟨hforgotten.memory, ?_⟩
      intro contents hcontents
      cases hcontents
      exact hforgotten.persisted

theorem Kept.installVectors {contents : List ContentId} (h : Kept s)
    (hloading : s.shared.loading = some contents) :
    Kept { s with
      shared :=
        { s.shared with
          memory := some (contents.map (fun c => ⟨none, c⟩))
          loading := none } } := by
  have hempty : s.shared.memory = none := by
    by_contra hsome
    rw [h.loading hsome] at hloading
    cases hloading
  obtain ⟨hgapless, hsub⟩ := h.loaded contents hloading
  refine ⟨h.distinct, fun _ => rfl, nofun, nofun, ?_, ?_, ?_, h.single⟩
  · intro vectors hvectors
    cases hvectors
    refine ⟨?_, ?_, ?_⟩
    · intro o u n hmem
      obtain ⟨c, hc, heq⟩ := List.mem_map.mp hmem
      cases heq
      exact List.mem_map.mpr ⟨_, hgapless u n hc, rfl⟩
    · intro v hv j hj
      obtain ⟨c, _, rfl⟩ := List.mem_map.mp hv
      cases hj
    · intro c hc
      exact Or.inl ⟨_, List.mem_map.mpr ⟨c, hsub c hc, rfl⟩, rfl, True.intro⟩
  · intro i target stage hi
    apply (h.runs i target stage hi).mono (fun hsome => absurd hempty hsome)
    intro items _ vectors hvectors
    rw [hempty] at hvectors
    cases hvectors
  · intro i erasure id stage hi
    refine (h.erasures i erasure id stage hi).reloaded rfl rfl rfl ?_ ?_
    · intro ids _ hdrop
      have hnone := hdrop.loading
      rw [hloading] at hnone
      cases hnone
    · intro _ hlacks
      refine ⟨?_, nofun⟩
      intro vectors hvectors v hv
      cases hvectors
      obtain ⟨c, hc, rfl⟩ := List.mem_map.mp hv
      exact hlacks contents hloading c hc

/-!
# Whole runs
-/

section

variable [CharTables]

theorem step_kept {config : VectorizerConfig} {s s' : State} {a : Action}
    (h : Kept s) (hallowed : Undisturbed s a)
    (hstep : step config s a = some s') :
    Kept s' := by
  cases a with
  | call c =>
      cases hstep
      exact h.call c
  | readVectors failed =>
      rw [Undisturbed, isUndisturbed, Bool.and_eq_true] at hallowed
      obtain ⟨hread, hdropping⟩ := hallowed
      rw [Bool.not_eq_true'] at hread hdropping
      subst hread
      simp only [step] at hstep
      split at hstep
      · next hfree =>
        cases hstep
        rw [Bool.and_eq_true] at hfree
        exact h.readVectors (Option.isNone_iff_eq_none.mp hfree.1) hdropping
      · cases hstep
  | installVectors =>
      simp only [step] at hstep
      split at hstep
      · cases hstep
      · next contents hloading =>
        cases hstep
        exact h.installVectors hloading
  | move i m =>
      simp only [step] at hstep
      split at hstep
      · cases hstep
      · next call hi =>
        obtain ⟨⟨shared, call'⟩, hadvance, rfl⟩ :=
          Option.map_eq_some_iff.mp hstep
        cases call with
        | vectorize target stage =>
            obtain ⟨⟨shared', stage'⟩, hrun, heq⟩ :=
              Option.map_eq_some_iff.mp hadvance
            cases heq
            exact advanceRun_kept h hi hrun
        | erase erasure id stage =>
            obtain ⟨⟨shared', stage'⟩, herase, heq⟩ :=
              Option.map_eq_some_iff.mp hadvance
            cases heq
            exact advanceErase_kept h hi hallowed herase

/-- The vectorizer is not initialised, and storage has the vectors of whole
updates. -/
structure Fresh (start : Shared) : Prop where
  distinct : HotDistinct start.session
  memory : start.memory = none
  loading : start.loading = none
  gapless : Gapless start.persisted

omit [CharTables] in
theorem Fresh.kept {start : Shared} (h : Fresh start) : Kept ⟨start, []⟩ := by
  refine ⟨h.distinct, fun hsome => absurd h.memory hsome, ?_,
    fun _ => h.gapless, ?_, nofun, nofun, nofun⟩
  · intro contents hcontents
    change start.loading = some contents at hcontents
    rw [h.loading] at hcontents
    cases hcontents
  · intro vectors hvectors
    change start.memory = some vectors at hvectors
    rw [h.memory] at hvectors
    cases hvectors

/-- An update whose erasure has returned `true` has no vector in memory or in
storage, and is not marked, as long as no erasure is overtaken. -/
theorem erased_leaves_no_vectors {config : VectorizerConfig} {start : Shared}
    (hstart : Fresh start) {s : State}
    (h : (vectorizations config start).Reachable Undisturbed s)
    {erasure : Erasure} {id : Uuid}
    (herased : Call.erase erasure id (EraseStage.returned (Except.ok true)) ∈
      s.calls) :
    Forgotten s.shared id := by
  have hkept : Kept s :=
    h.invariant hstart.kept (fun s a s' hs hallowed hstep =>
      step_kept hs hallowed hstep)
  obtain ⟨i, hi⟩ := List.getElem?_of_mem herased
  exact (hkept.erasures i erasure id _ hi).2.1

end

/-!
# A run in order, and a run that adds late
-/

attribute [local instance] EntityGraph.asciiTables

def windowed : VectorizerConfig :=
  ⟨true, 3, 20⟩

def described : Shared where
  session :=
    ((ActiveSession.new 0 none none 0).addIncrementalUpdateFast ⟨1, 1, 2, 3⟩
        (ContextUpdate.plain 1 1 "some text")).addIncrementalUpdateFast
      ⟨2, 4, 5, 6⟩ (ContextUpdate.plain 2 2 "some more")
  marks := []
  memory := none
  loading := none
  persisted := []

theorem described_fresh : Fresh described where
  distinct := hotDistinct_of_nodup (by decide +kernel)
  memory := rfl
  loading := rfl
  gapless := nofun

def hasErased (id : Uuid) : Call -> Bool
  | Call.erase _ erased (EraseStage.returned (Except.ok true)) => erased == id
  | _ => false

theorem erase_of_hasErased (h : calls.any (hasErased id) = true) :
    exists erasure, Call.erase erasure id (EraseStage.returned (Except.ok true)) ∈
      calls := by
  obtain ⟨call, hmem, herased⟩ := List.any_eq_true.mp h
  unfold hasErased at herased
  split at herased
  · next erasure erased =>
    rw [beq_iff_eq.mp herased] at hmem
    exact ⟨erasure, hmem⟩
  · cases herased

def orderedRun : List Action :=
  [Action.readVectors false, Action.installVectors,
    Action.call (Call.vectorize none RunStage.called),
    Action.move 0 (Move.load none), Action.move 0 Move.collect,
    Action.move 0 (Move.embed (Except.ok 4)),
    Action.move 0 (Move.addVectors true), Action.move 0 (Move.persist none),
    Action.move 0 Move.mark,
    Action.call (Call.erase Erasure.purge 1 EraseStage.called),
    Action.move 1 (Move.swap none 7), Action.move 1 Move.unmark,
    Action.move 1 (Move.clear none), Action.move 1 Move.drop,
    Action.move 1 (Move.removePersisted none),
    Action.move 1 (Move.removePersisted none)]

theorem erased_leaves_no_vectors_in_order :
    exists s, (vectorizations windowed described).Reachable Undisturbed s ∧
      s.shared.persisted = [⟨2, 0⟩, ⟨2, 1⟩] ∧ s.shared.marks = [2] ∧
      Forgotten s.shared 1 := by
  obtain ⟨s, -, hreach, hpersisted, hmarks, hdone⟩ :=
    (vectorizations windowed described).replay_reaches Undisturbed orderedRun (fun s =>
      s.shared.persisted = [⟨2, 0⟩, ⟨2, 1⟩] ∧ s.shared.marks = [2] ∧
        s.calls.any (hasErased 1) = true) (by decide +kernel)
  obtain ⟨erasure, herased⟩ := erase_of_hasErased hdone
  exact ⟨s, hreach, hpersisted, hmarks,
    erased_leaves_no_vectors described_fresh hreach herased⟩

def overtakenRun : List Action :=
  [Action.readVectors false, Action.installVectors,
    Action.call (Call.vectorize (some 1) RunStage.called),
    Action.move 0 (Move.load none), Action.move 0 Move.collect,
    Action.call (Call.erase Erasure.delete 1 EraseStage.called),
    Action.move 1 (Move.swap none 7), Action.move 1 Move.unmark,
    Action.move 1 Move.drop, Action.move 1 (Move.removePersisted none),
    Action.move 0 (Move.embed (Except.ok 2)),
    Action.move 0 (Move.addVectors true), Action.move 0 (Move.persist none),
    Action.move 0 Move.mark]

/-- Both calls have succeeded, and the erased update is embedded and marked. -/
theorem late_run_restores_vectors :
    ¬ forall (config : VectorizerConfig) (start : Shared) (s : State),
      Fresh start ->
      (vectorizations config start).Reachable System.Anything s ->
      s.calls.all Call.isReturned = true ->
      forall (erasure : Erasure) (id : Uuid),
        Call.erase erasure id (EraseStage.returned (Except.ok true)) ∈ s.calls ->
        Forgotten s.shared id := by
  intro hall
  obtain ⟨s, -, hreach, hreturned, hdone, hstill⟩ :=
    (vectorizations windowed described).replay_reaches System.Anything overtakenRun
      (fun s => s.calls.all Call.isReturned = true ∧ s.calls.any (hasErased 1) = true ∧
        ⟨1, 1⟩ ∈ s.shared.persisted) (by decide +kernel)
  obtain ⟨erasure, herased⟩ := erase_of_hasErased hdone
  have hforgotten := hall windowed described s described_fresh hreach hreturned erasure
    1 herased
  exact hforgotten.persisted _ hstill rfl

end Vectors
end PostCortex
