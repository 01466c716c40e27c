import PostCortex.Memory.SessionWrites
import PostCortex.Transition.Calls

/-!
# Invalidating a source file

`invalidate_and_rebuild_entity_graph` of `memory_system/embeddings.rs`, any
number of calls of it beside the other writers of one session handle.  The call
deletes the references of the file in storage, loads the session, takes the
updates of the file out of a copy, rebuilds the graph of the copy and tries
once to swap it in.

The swaps of the other writers are those of the loops of `SessionWrites`, one
step each; `name` is the removal request they make after a swap.  `queued` are
the ids that were ever named to the persister for removal.
-/

namespace PostCortex
namespace Memory
namespace Invalidation

open PostCortex.Core
open PostCortex.Graph
open Session
open Session.ActiveSession
open Cas
open Transition

inductive Stage where
  | called
  | deleted (entries : Nat)
  | obtained (entries : Nat)
  | loaded (entries version : Nat) (seen : ActiveSession)
  | rebuilt (entries version : Nat) (next : ActiveSession)
      (removedIds : List String) (entitiesAfter : Nat)
  | swapped (entries : Nat) (removedIds : List String) (entitiesAfter : Nat)
  | named (entries entitiesAfter : Nat)
  | returned (result : Except String (Nat × Nat))

/-- `begun` is the version the session had when the call was made. -/
structure Call where
  filePath : String
  begun : ActiveSession
  stage : Stage

/-- The versions of the session, the last one current. -/
structure Handle where
  earlier : List ActiveSession
  current : ActiveSession
  queued : List Uuid

namespace Handle

def history (h : Handle) : List ActiveSession :=
  h.earlier ++ [h.current]

def install (h : Handle) (next : ActiveSession) : Handle :=
  { h with
    earlier := h.history
    current := next }

def name (h : Handle) (ids : List Uuid) : Handle :=
  { h with queued := h.queued ++ ids }

end Handle

structure State where
  handle : Handle
  calls : List Call

/-- The steps of a call, with what storage answers and what the clock says. -/
inductive Move where
  | invalidateSource (result : Except String Nat)
  | getOrCreateSession (result : Except String Unit)
  | load
  | rebuild (now : Timestamp)
  | swap
  | persist
  | dropVectors
  deriving DecidableEq, Repr

inductive Action (κ : Type) where
  | call (filePath : String)
  | move (i : Nat) (m : Move)
  | write (request : Request κ) (draws : Draws × κ)
  | name (ids : List Uuid)

def idsOf (session : ActiveSession) : List Uuid :=
  session.incrementalUpdates.map ContextUpdate.id

def idsForFile (filePath : String) (session : ActiveSession) : List Uuid :=
  (session.incrementalUpdates.filter (refersToFile filePath)).map
    ContextUpdate.id

section

variable [CharTables] [UuidText] {κ : Type}

/-- The updates of `current` that are not in `new`, as text. -/
def removedIds (current new : ActiveSession) : List String :=
  (current.incrementalUpdates.filter (fun u => !(idsOf new).contains u.id)).map
    (fun u => UuidText.toText u.id)

def removedUuids (ids : List String) : List Uuid :=
  ids.filterMap (fun id => (UuidText.parseStr id).toOption)

/-- The stage after the copy of `seen` has been worked on. -/
def rebuildStage (filePath : String) (entries version : Nat)
    (seen : ActiveSession) (now : Timestamp) : Stage :=
  let (new, removed) := seen.removeUpdatesForFile filePath
  if 0 < removed then
    let rebuilt := new.rebuildEntityGraphSync now
    Stage.rebuilt entries version rebuilt (removedIds seen rebuilt)
      rebuilt.entityGraph.entities.size
  else Stage.returned (Except.ok (entries, new.entityGraph.entities.size))

def advance (h : Handle) (filePath : String) :
    Stage -> Move -> Option (Handle × Stage)
  | Stage.called, Move.invalidateSource (Except.error e) =>
      some (h, Stage.returned (Except.error e))
  | Stage.called, Move.invalidateSource (Except.ok entries) =>
      some (h, Stage.deleted entries)
  | Stage.deleted _, Move.getOrCreateSession (Except.error e) =>
      some (h, Stage.returned (Except.error e))
  | Stage.deleted entries, Move.getOrCreateSession (Except.ok _) =>
      some (h, Stage.obtained entries)
  | Stage.obtained entries, Move.load =>
      some (h, Stage.loaded entries h.earlier.length h.current)
  | Stage.loaded entries version seen, Move.rebuild now =>
      some (h, rebuildStage filePath entries version seen now)
  | Stage.rebuilt entries version next removedIds entitiesAfter, Move.swap =>
      if version = h.earlier.length then
        some (h.install next, Stage.swapped entries removedIds entitiesAfter)
      else
        -- A warning is logged, and the call goes on.
        some (h, Stage.returned (Except.ok (entries, entitiesAfter)))
  | Stage.swapped entries removedIds entitiesAfter, Move.persist =>
      some (h.name (removedUuids removedIds), Stage.named entries entitiesAfter)
  | Stage.named entries entitiesAfter, Move.dropVectors =>
      some (h, Stage.returned (Except.ok (entries, entitiesAfter)))
  | _, _ => none

def step (sessionId : Uuid) (s : State) : Action κ -> Option State
  | Action.call filePath =>
      some { s with
        calls := s.calls ++ [⟨filePath, s.handle.current, Stage.called⟩] }
  | Action.move i m =>
      match s.calls[i]? with
      | none => none
      | some call =>
          match advance s.handle call.filePath call.stage m with
          | none => none
          | some (handle, stage) =>
              some ⟨handle, s.calls.set i { call with stage := stage }⟩
  | Action.write request draws =>
      match (sessionLoop κ sessionId).attempt request draws s.handle.current with
      | Attempt.changed next _ =>
          some { s with handle := s.handle.install next }
      | Attempt.unchanged _ | Attempt.failed _ => none
  | Action.name ids => some { s with handle := s.handle.name ids }

def invalidations (κ : Type) (sessionId : Uuid) (start : ActiveSession) :
    System State (Action κ) where
  init := ⟨⟨[], start, []⟩, []⟩
  step := step sessionId

end

/-!
# What may happen beside a call
-/

/-- A writer's next version: the updates it keeps refer to the files they
referred to, those it adds have ids of their own. -/
structure Ordinary (h : Handle) (next : ActiveSession) : Prop where
  distinct : (idsOf next).Nodup
  kept : forall u, u ∈ next.incrementalUpdates ->
    (exists w, w ∈ h.current.incrementalUpdates ∧ w.id = u.id ∧
      w.relatedCode = u.relatedCode) ∨
    forall v, v ∈ h.history -> u.id ∉ idsOf v

/-- The call has loaded the session, found updates of its file, and has not
tried to swap yet. -/
def Call.Pending (call : Call) : Prop :=
  match call.stage with
  | Stage.loaded _ _ seen => idsForFile call.filePath seen ≠ []
  | Stage.rebuilt _ _ _ _ _ => True
  | _ => False

instance (call : Call) : Decidable call.Pending := by
  unfold Call.Pending
  split <;> infer_instance

def NonePending (s : State) (besides : Option Nat) : Prop :=
  forall i, i < s.calls.length -> some i ≠ besides ->
    (s.calls[i]?).all (fun call => decide (¬ call.Pending)) = true

/-- What another writer took out before the call loads has been named. -/
def GoneNamed (s : State) (i : Nat) : Prop :=
  (s.calls[i]?).all (fun call =>
    (idsForFile call.filePath call.begun).all (fun id =>
      decide (id ∈ idsOf s.handle.current ∨ id ∈ s.handle.queued))) = true

/-- The update has left the session for good. -/
structure Gone (h : Handle) (id : Uuid) : Prop where
  absent : id ∉ idsOf h.current
  held : exists v, v ∈ h.history ∧ id ∈ idsOf v

/-- The update has left the session, and its row is to be deleted. -/
structure Settled (h : Handle) (id : Uuid) : Prop extends Gone h id where
  queued : id ∈ h.queued

/-- The versions have distinct ids, and an id stands for one update of one
file. -/
structure Steady (h : Handle) : Prop where
  distinct : (idsOf h.current).Nodup
  files : forall v u w, v ∈ h.history -> u ∈ v.incrementalUpdates ->
    w ∈ h.current.incrementalUpdates -> u.id = w.id ->
      u.relatedCode = w.relatedCode

variable {session : ActiveSession} {id : Uuid}

theorem mem_idsOf :
    id ∈ idsOf session ↔
      exists u, u ∈ session.incrementalUpdates ∧ u.id = id :=
  List.mem_map

variable {filePath : String}

theorem mem_idsForFile :
    id ∈ idsForFile filePath session ↔
      exists u, u ∈ session.incrementalUpdates ∧
        refersToFile filePath u = true ∧ u.id = id := by
  simp only [idsForFile, List.mem_map, List.mem_filter, and_assoc]

theorem idsForFile_sub (h : id ∈ idsForFile filePath session) :
    id ∈ idsOf session := by
  obtain ⟨u, hu, _, hid⟩ := mem_idsForFile.mp h
  exact mem_idsOf.mpr ⟨u, hu, hid⟩

@[simp] theorem mem_history {h : Handle} {v : ActiveSession} :
    v ∈ h.history ↔ v ∈ h.earlier ∨ v = h.current := by
  simp [Handle.history]

theorem history_install (h : Handle) (next : ActiveSession) :
    (h.install next).history = h.history ++ [next] :=
  rfl

variable {h : Handle} {next : ActiveSession}

theorem Gone.install (hgone : Gone h id) (hnext : Ordinary h next) :
    Gone (h.install next) id where
  absent := by
    intro hmem
    obtain ⟨u, hu, rfl⟩ := mem_idsOf.mp hmem
    rcases hnext.kept u hu with ⟨w, hw, hid, _⟩ | hfresh
    · exact hgone.absent (mem_idsOf.mpr ⟨w, hw, hid⟩)
    · obtain ⟨v, hv, hheld⟩ := hgone.held
      exact hfresh v hv hheld
  held := by
    obtain ⟨v, hv, hheld⟩ := hgone.held
    refine ⟨v, ?_, hheld⟩
    rw [history_install]
    exact List.mem_append_left _ hv

theorem Gone.name (hgone : Gone h id) (ids : List Uuid) :
    Gone (h.name ids) id :=
  ⟨hgone.absent, hgone.held⟩

theorem Settled.install (hsettled : Settled h id) (hnext : Ordinary h next) :
    Settled (h.install next) id :=
  ⟨hsettled.toGone.install hnext, hsettled.queued⟩

theorem Settled.name (hsettled : Settled h id) (ids : List Uuid) :
    Settled (h.name ids) id :=
  ⟨hsettled.toGone.name ids, List.mem_append_left _ hsettled.queued⟩

theorem Steady.install (hsteady : Steady h) (hnext : Ordinary h next) :
    Steady (h.install next) where
  distinct := hnext.distinct
  files := by
    intro v u w hv hu hw hid
    rw [history_install] at hv
    rcases List.mem_append.mp hv with hold | hlast
    · rcases hnext.kept w hw with ⟨x, hx, hxw, hcode⟩ | hfresh
      · rw [← hcode]
        exact hsteady.files v u x hold hu hx (hid.trans hxw.symm)
      · exact absurd (mem_idsOf.mpr ⟨u, hu, hid⟩) (hfresh v hold)
    · rw [List.mem_singleton.mp hlast] at hu
      have hsame : u = w :=
        List.inj_on_of_nodup_map hnext.distinct hu hw hid
      rw [hsame]

/-!
# Removing the updates of a file
-/

theorem removed_pos_iff (session : ActiveSession) (filePath : String) :
    0 < (session.removeUpdatesForFile filePath).2 ↔
      idsForFile filePath session ≠ [] := by
  have hsplit : (session.incrementalUpdates.filter
        (refersToFile filePath)).length +
      (session.incrementalUpdates.filter
        (fun u => !refersToFile filePath u)).length =
      session.incrementalUpdates.length :=
    List.length_eq_length_filter_add _ |>.symm
  have hids : idsForFile filePath session ≠ [] ↔
      0 < (session.incrementalUpdates.filter
        (refersToFile filePath)).length := by
    rw [idsForFile, ne_eq, List.map_eq_nil_iff, List.length_pos_iff]
  rw [hids]
  simp only [removeUpdatesForFile]
  omega

section

variable [CharTables]

def reworked (filePath : String) (seen : ActiveSession) (now : Timestamp) :
    ActiveSession :=
  (seen.removeUpdatesForFile filePath).1.rebuildEntityGraphSync now

theorem reworked_updates (filePath : String) (seen : ActiveSession)
    (now : Timestamp) :
    (reworked filePath seen now).incrementalUpdates =
      seen.incrementalUpdates.filter (fun u => !refersToFile filePath u) :=
  rfl

theorem reworked_ordinary {h : Handle} (hsteady : Steady h)
    (filePath : String) (now : Timestamp) :
    Ordinary h (reworked filePath h.current now) where
  distinct := by
    rw [idsOf, reworked_updates]
    exact hsteady.distinct.sublist
      ((List.filter_sublist).map ContextUpdate.id)
  kept := by
    intro u hu
    rw [reworked_updates] at hu
    exact Or.inl ⟨u, List.mem_of_mem_filter hu, rfl, rfl⟩

end

section

variable [CharTables] [UuidText]

variable {filePath : String} {seen : ActiveSession}

theorem rebuildStage_found (hfound : idsForFile filePath seen ≠ [])
    (entries version : Nat) (now : Timestamp) :
    rebuildStage filePath entries version seen now =
      Stage.rebuilt entries version (reworked filePath seen now)
        (removedIds seen (reworked filePath seen now))
        (reworked filePath seen now).entityGraph.entities.size := by
  have hremoved := (removed_pos_iff seen filePath).mpr hfound
  unfold rebuildStage
  simp only [hremoved, if_true]
  rfl

theorem rebuildStage_nothing (hnone : idsForFile filePath seen = [])
    (entries version : Nat) (now : Timestamp) :
    exists n, rebuildStage filePath entries version seen now =
      Stage.returned (Except.ok (entries, n)) := by
  have hremoved : ¬ 0 < (seen.removeUpdatesForFile filePath).2 := by
    rw [removed_pos_iff]
    exact fun hne => hne hnone
  unfold rebuildStage
  simp only [hremoved, if_false]
  exact ⟨_, rfl⟩

theorem reworked_without {h : Handle} (hsteady : Steady h) {id : Uuid}
    (hid : id ∈ idsForFile filePath h.current) (now : Timestamp) :
    id ∉ idsOf (reworked filePath h.current now) ∧
      UuidText.toText id ∈
        removedIds h.current (reworked filePath h.current now) := by
  obtain ⟨u, hu, hrefers, rfl⟩ := mem_idsForFile.mp hid
  have hout : u.id ∉ idsOf (reworked filePath h.current now) := by
    intro hmem
    obtain ⟨w, hw, hsame⟩ := mem_idsOf.mp hmem
    rw [reworked_updates, List.mem_filter] at hw
    have heq : w = u :=
      List.inj_on_of_nodup_map hsteady.distinct hw.1 hu hsame
    rw [heq, hrefers] at hw
    cases hw.2
  refine ⟨hout, ?_⟩
  refine List.mem_map.mpr ⟨u, List.mem_filter.mpr ⟨hu, ?_⟩, rfl⟩
  simpa using hout

end

section

variable [UuidText]

theorem mem_removedUuids
    (hparse : forall id, UuidText.parseStr (UuidText.toText id) = Except.ok id)
    {id : Uuid} {ids : List String} (hid : UuidText.toText id ∈ ids) :
    id ∈ removedUuids ids := by
  apply List.mem_filterMap.mpr
  exact ⟨UuidText.toText id, hid, by rw [hparse]; rfl⟩

/-!
# What a call has achieved
-/

/-- Where every update stands that referred to the file at the start. -/
def Fits (h : Handle) (call : Call) : Prop :=
  match call.stage with
  | Stage.called | Stage.deleted _ | Stage.obtained _ => call.begun ∈ h.history
  | Stage.loaded _ version seen =>
      (forall id, id ∈ idsForFile call.filePath call.begun ->
        Settled h id ∨ id ∈ idsForFile call.filePath seen) ∧
      (idsForFile call.filePath seen ≠ [] ->
        version = h.earlier.length ∧ seen = h.current)
  | Stage.rebuilt _ version next names _ =>
      version = h.earlier.length ∧ Ordinary h next ∧
      forall id, id ∈ idsForFile call.filePath call.begun ->
        Settled h id ∨ id ∈ idsOf h.current ∧ id ∉ idsOf next ∧
          UuidText.toText id ∈ names
  | Stage.swapped _ names _ =>
      forall id, id ∈ idsForFile call.filePath call.begun ->
        Settled h id ∨ Gone h id ∧ UuidText.toText id ∈ names
  | Stage.named _ _ | Stage.returned (Except.ok _) =>
      forall id, id ∈ idsForFile call.filePath call.begun -> Settled h id
  | Stage.returned (Except.error _) => True

theorem Fits.name {h : Handle} {call : Call} (hfits : Fits h call)
    (ids : List Uuid) :
    Fits (h.name ids) call := by
  unfold Fits at hfits ⊢
  split at hfits
  · exact hfits
  · exact hfits
  · exact hfits
  · refine ⟨fun id hid => ?_, hfits.2⟩
    exact (hfits.1 id hid).imp_left (fun hsettled => hsettled.name ids)
  · refine ⟨hfits.1, ⟨hfits.2.1.distinct, hfits.2.1.kept⟩, fun id hid => ?_⟩
    exact (hfits.2.2 id hid).imp_left (fun hsettled => hsettled.name ids)
  · intro id hid
    exact (hfits id hid).imp (fun hsettled => hsettled.name ids)
      (fun hgone => ⟨hgone.1.name ids, hgone.2⟩)
  · exact fun id hid => (hfits id hid).name ids
  · exact fun id hid => (hfits id hid).name ids
  · trivial

theorem Fits.install {h : Handle} {call : Call} (hfits : Fits h call)
    (hpending : ¬ call.Pending) {next : ActiveSession}
    (hnext : Ordinary h next) :
    Fits (h.install next) call := by
  have hhistory : forall v, v ∈ h.history -> v ∈ (h.install next).history := by
    intro v hv
    rw [history_install]
    exact List.mem_append_left _ hv
  unfold Fits at hfits ⊢
  unfold Call.Pending at hpending
  split at hfits
  · exact hhistory _ hfits
  · exact hhistory _ hfits
  · exact hhistory _ hfits
  · next hstage =>
    rw [hstage] at hpending
    refine ⟨fun id hid => ?_, fun hne => absurd hne hpending⟩
    exact (hfits.1 id hid).imp_left (fun hsettled => hsettled.install hnext)
  · next hstage =>
    rw [hstage] at hpending
    exact absurd True.intro hpending
  · intro id hid
    exact (hfits id hid).imp (fun hsettled => hsettled.install hnext)
      (fun hgone => ⟨hgone.1.install hnext, hgone.2⟩)
  · exact fun id hid => (hfits id hid).install hnext
  · exact fun id hid => (hfits id hid).install hnext
  · trivial

end

section

variable [CharTables] [UuidText] {κ : Type}

/-- A step of a call leaves the handle alone, names rows, or is its swap. -/
inductive Changes (h : Handle) (stage : Stage) : Move -> Handle -> Prop where
  | nothing {m : Move} : m ≠ Move.swap -> Changes h stage m h
  | names (ids : List Uuid) : Changes h stage Move.persist (h.name ids)
  | lost {entries version entitiesAfter : Nat} {next : ActiveSession}
      {names : List String} :
      stage = Stage.rebuilt entries version next names entitiesAfter ->
      version ≠ h.earlier.length -> Changes h stage Move.swap h
  | installs {entries version entitiesAfter : Nat} {next : ActiveSession}
      {names : List String} :
      stage = Stage.rebuilt entries version next names entitiesAfter ->
      version = h.earlier.length ->
      Changes h stage Move.swap (h.install next)

variable {stage stage' : Stage} {m : Move}

theorem advance_changes {h h' : Handle} {filePath : String}
    (hstep : advance h filePath stage m = some (h', stage')) :
    Changes h stage m h' := by
  unfold advance at hstep
  split at hstep
  · cases hstep
    exact Changes.nothing (by simp)
  · cases hstep
    exact Changes.nothing (by simp)
  · cases hstep
    exact Changes.nothing (by simp)
  · cases hstep
    exact Changes.nothing (by simp)
  · cases hstep
    exact Changes.nothing (by simp)
  · cases hstep
    exact Changes.nothing (by simp)
  · split at hstep
    · next hversion =>
      cases hstep
      exact Changes.installs rfl hversion
    · next hversion =>
      cases hstep
      exact Changes.lost rfl hversion
  · cases hstep
    exact Changes.names _
  · cases hstep
    exact Changes.nothing (by simp)
  · cases hstep

theorem advance_fits
    (hparse : forall id, UuidText.parseStr (UuidText.toText id) = Except.ok id)
    {h h' : Handle} {call : Call} (hsteady : Steady h) (hfits : Fits h call)
    (hgone : m = Move.load ->
      forall id, id ∈ idsForFile call.filePath call.begun ->
        id ∈ idsOf h.current ∨ id ∈ h.queued)
    (hstep : advance h call.filePath call.stage m = some (h', stage')) :
    Fits h' { call with stage := stage' } := by
  obtain ⟨filePath, begun, stage⟩ := call
  simp only at hstep
  unfold advance at hstep
  split at hstep
  · cases hstep
    trivial
  · cases hstep
    exact hfits
  · cases hstep
    trivial
  · cases hstep
    exact hfits
  · cases hstep
    refine ⟨?_, fun _ => ⟨rfl, rfl⟩⟩
    intro id hid
    obtain ⟨u, hu, hrefers, rfl⟩ := mem_idsForFile.mp hid
    by_cases hin : u.id ∈ idsOf h.current
    · right
      obtain ⟨w, hw, hsame⟩ := mem_idsOf.mp hin
      have hcode := hsteady.files begun u w hfits hu hw hsame.symm
      refine mem_idsForFile.mpr ⟨w, hw, ?_, hsame⟩
      rwa [refersToFile, ← hcode]
    · left
      refine ⟨⟨hin, begun, hfits, idsForFile_sub hid⟩, ?_⟩
      exact (hgone rfl u.id hid).resolve_left hin
  · next entries version seen now =>
    cases hstep
    obtain ⟨hseen, hcurrent⟩ := hfits
    by_cases hfound : idsForFile filePath seen = []
    · obtain ⟨n, hstage⟩ := rebuildStage_nothing hfound entries version now
      rw [hstage]
      intro id hid
      refine (hseen id hid).resolve_right ?_
      rw [hfound]
      exact List.not_mem_nil
    · obtain ⟨hversion, rfl⟩ := hcurrent hfound
      rw [rebuildStage_found hfound]
      refine ⟨hversion, reworked_ordinary hsteady filePath now, ?_⟩
      intro id hid
      refine (hseen id hid).imp_right ?_
      intro hin
      exact ⟨idsForFile_sub hin, reworked_without hsteady hin now⟩
  · next entries version next names entitiesAfter =>
    obtain ⟨hversion, hnext, hnames⟩ := hfits
    rw [if_pos hversion] at hstep
    cases hstep
    intro id hid
    rcases hnames id hid with hsettled | ⟨hin, hout, hnamed⟩
    · exact Or.inl (hsettled.install hnext)
    · refine Or.inr ⟨⟨hout, h.current, ?_, hin⟩, hnamed⟩
      rw [history_install]
      exact List.mem_append_left _ (by simp)
  · next entries names entitiesAfter =>
    cases hstep
    intro id hid
    rcases hfits id hid with hsettled | ⟨hgone', hnamed⟩
    · exact hsettled.name _
    · exact ⟨hgone'.name _,
        List.mem_append_right _ (mem_removedUuids hparse hnamed)⟩
  · cases hstep
    exact hfits
  · cases hstep

/-!
# Undisturbed runs
-/

def OrdinaryWrite (sessionId : Uuid) (s : State) : Action κ -> Prop
  | Action.write request draws =>
      match (sessionLoop κ sessionId).attempt request draws s.handle.current with
      | Attempt.changed next _ => Ordinary s.handle next
      | Attempt.unchanged _ | Attempt.failed _ => True
  | Action.call _ | Action.move _ _ | Action.name _ => True

/-- No version is swapped in while a call is between its load and its swap,
and what another writer took out before the load has been named by then. -/
def Quiet (s : State) : Action κ -> Prop
  | Action.write _ _ => NonePending s none
  | Action.move i Move.swap => NonePending s (some i)
  | Action.move i Move.load => GoneNamed s i
  | _ => True

structure Undisturbed (sessionId : Uuid) (s : State) (a : Action κ) : Prop where
  ordinary : OrdinaryWrite sessionId s a
  quiet : Quiet s a

structure Tracked (s : State) : Prop where
  steady : Steady s.handle
  fits : forall call, call ∈ s.calls -> Fits s.handle call

variable {s : State}

theorem tracked_move
    (hparse : forall id, UuidText.parseStr (UuidText.toText id) = Except.ok id)
    {i : Nat} {call : Call} {handle : Handle} (h : Tracked s)
    (hcall : s.calls[i]? = some call)
    (hadvance : advance s.handle call.filePath call.stage m =
      some (handle, stage)) (hquiet : Quiet s (Action.move (κ := κ) i m)) :
    Tracked ⟨handle, s.calls.set i { call with stage := stage }⟩ := by
  have hfits : Fits s.handle call := h.fits call (List.mem_of_getElem? hcall)
  have hown : Fits handle { call with stage := stage } := by
    refine advance_fits hparse h.steady hfits ?_ hadvance
    intro hload id hid
    subst hload
    have hnamed : GoneNamed s i := hquiet
    rw [GoneNamed, hcall] at hnamed
    exact of_decide_eq_true (List.all_eq_true.mp hnamed id hid)
  have hothers := Transition.forall_mem_set (P := Fits handle) hcall hown
  cases advance_changes hadvance with
  | nothing _ | lost _ _ =>
      exact ⟨h.steady,
        hothers (fun _ other _ hj => h.fits other (List.mem_of_getElem? hj))⟩
  | names ids =>
      exact ⟨⟨h.steady.distinct, h.steady.files⟩,
        hothers (fun _ other _ hj =>
          (h.fits other (List.mem_of_getElem? hj)).name ids)⟩
  | @installs entries version entitiesAfter next names hstage hversion =>
      have hnext : Ordinary s.handle next := by
        rw [Fits, hstage] at hfits
        exact hfits.2.1
      refine ⟨h.steady.install hnext, hothers ?_⟩
      intro j other hji hj
      refine (h.fits other (List.mem_of_getElem? hj)).install ?_ hnext
      have hidle := hquiet j (List.getElem?_eq_some_iff.mp hj).1
        (fun heq => hji (Option.some.inj heq))
      rw [hj] at hidle
      exact of_decide_eq_true hidle

variable {sessionId : Uuid}

theorem tracked_step
    (hparse : forall id, UuidText.parseStr (UuidText.toText id) = Except.ok id)
    {s' : State} {a : Action κ} (h : Tracked s)
    (hallowed : Undisturbed sessionId s a) (hstep : step sessionId s a = some s') :
    Tracked s' := by
  obtain ⟨hwrite, hquiet⟩ := hallowed
  cases a with
  | call filePath =>
      cases hstep
      refine ⟨h.steady, ?_⟩
      intro call hcall
      rcases List.mem_append.mp hcall with hold | hnew
      · exact h.fits call hold
      · rw [List.mem_singleton.mp hnew]
        exact mem_history.mpr (Or.inr rfl)
  | name ids =>
      cases hstep
      exact ⟨⟨h.steady.distinct, h.steady.files⟩,
        fun call hcall => (h.fits call hcall).name ids⟩
  | write request draws =>
      simp only [step] at hstep
      simp only [OrdinaryWrite] at hwrite
      cases hattempt : (sessionLoop κ sessionId).attempt request draws
          s.handle.current with
      | changed next answer =>
          rw [hattempt] at hstep hwrite
          cases hstep
          refine ⟨h.steady.install hwrite, ?_⟩
          intro call hcall
          refine (h.fits call hcall).install ?_ hwrite
          obtain ⟨i, hi⟩ := List.getElem?_of_mem hcall
          have hidle := hquiet i (List.getElem?_eq_some_iff.mp hi).1 (by simp)
          rw [hi] at hidle
          exact of_decide_eq_true hidle
      | unchanged answer =>
          rw [hattempt] at hstep
          cases hstep
      | failed e =>
          rw [hattempt] at hstep
          cases hstep
  | move i m =>
      simp only [step] at hstep
      cases hcall : s.calls[i]? with
      | none =>
          rw [hcall] at hstep
          cases hstep
      | some call =>
          rw [hcall] at hstep
          simp only at hstep
          cases hadvance : advance s.handle call.filePath call.stage m with
          | none =>
              rw [hadvance] at hstep
              cases hstep
          | some moved =>
              obtain ⟨handle, stage⟩ := moved
              rw [hadvance] at hstep
              cases hstep
              exact tracked_move hparse h hcall hadvance hquiet

theorem tracked {start : ActiveSession}
    (hparse : forall id, UuidText.parseStr (UuidText.toText id) = Except.ok id)
    (hids : (idsOf start).Nodup)
    (h : System.Reachable (invalidations κ sessionId start)
      (Undisturbed sessionId) s) :
    Tracked s := by
  refine h.invariant ⟨⟨hids, ?_⟩, ?_⟩
    (fun s a s' ht hallowed hstep => tracked_step hparse ht hallowed hstep)
  · intro v u w hv hu hw hid
    have hstart : v = start := by
      simpa [invalidations, Handle.history] using hv
    subst hstart
    have hsame : u = w := List.inj_on_of_nodup_map hids hu hw hid
    rw [hsame]
  · intro call hcall
    cases hcall

/-- The updates that referred to the file at the start of the call are out of
the session and their rows are to be deleted. -/
def TookEffect (h : Handle) (call : Call) : Prop :=
  forall id, id ∈ idsForFile call.filePath call.begun ->
    id ∉ idsOf h.current ∧ id ∈ h.queued

/-- In every undisturbed run a call that has returned `Ok` took effect, and a
call that is about to swap will install its copy. -/
theorem invalidation_takes_effect {sessionId : Uuid} {start : ActiveSession}
    {s : State}
    (hparse : forall id, UuidText.parseStr (UuidText.toText id) = Except.ok id)
    (hids : (idsOf start).Nodup)
    (h : System.Reachable (invalidations κ sessionId start)
      (Undisturbed sessionId) s) :
    forall call, call ∈ s.calls ->
      (forall r, call.stage = Stage.returned (Except.ok r) ->
        TookEffect s.handle call) ∧
      forall entries version next names entitiesAfter,
        call.stage = Stage.rebuilt entries version next names entitiesAfter ->
          version = s.handle.earlier.length := by
  intro call hcall
  have hfits := (tracked hparse hids h).fits call hcall
  constructor
  · intro r hstage id hid
    rw [Fits, hstage] at hfits
    exact ⟨(hfits id hid).absent, (hfits id hid).queued⟩
  · intro entries version next names entitiesAfter hstage
    rw [Fits, hstage] at hfits
    exact hfits.1

end

/-!
# Runs
-/

instance (h : Handle) (next : ActiveSession) : Decidable (Ordinary h next) :=
  decidable_of_iff
    ((idsOf next).Nodup ∧ forall u, u ∈ next.incrementalUpdates ->
      (exists w, w ∈ h.current.incrementalUpdates ∧ w.id = u.id ∧
        w.relatedCode = u.relatedCode) ∨
      forall v, v ∈ h.history -> u.id ∉ idsOf v)
    ⟨fun h => ⟨h.1, h.2⟩, fun h => ⟨h.distinct, h.kept⟩⟩

instance (s : State) (besides : Option Nat) :
    Decidable (NonePending s besides) :=
  inferInstanceAs (Decidable (forall i, i < s.calls.length -> _))

instance (s : State) (i : Nat) : Decidable (GoneNamed s i) :=
  inferInstanceAs (Decidable (_ = true))

attribute [local instance] EntityGraph.asciiTables hyphenatedText

instance (sessionId : Uuid) (s : State) (a : Action Unit) :
    Decidable (OrdinaryWrite sessionId s a) := by
  unfold OrdinaryWrite
  split
  · split <;> infer_instance
  · infer_instance
  · infer_instance
  · infer_instance

instance (s : State) (a : Action Unit) : Decidable (Quiet s a) := by
  unfold Quiet
  split <;> infer_instance

instance (sessionId : Uuid) (s : State) (a : Action Unit) :
    Decidable (Undisturbed sessionId s a) :=
  decidable_of_iff (OrdinaryWrite sessionId s a ∧ Quiet s a)
    ⟨fun h => ⟨h.1, h.2⟩, fun h => ⟨h.ordinary, h.quiet⟩⟩

def coded : ActiveSession :=
  (ActiveSession.new 0 none none 0).addIncrementalUpdateFast ⟨1, 1, 2, 3⟩
    { ContextUpdate.plain 1 1 "first" with
      relatedCode := some ⟨"a.rs", 1, 2, "fn main() {}", none, none, "new"⟩ }

def adds (id : Uuid) : Action Unit :=
  Action.write (Request.addIncrementalUpdate "more" none WriteMode.inlined)
    (⟨2, id, 5, 6⟩, ())

def quietRun : List (Action Unit) :=
  [Action.call "a.rs", adds 4,
    Action.move 0 (Move.invalidateSource (Except.ok 1)),
    Action.move 0 (Move.getOrCreateSession (Except.ok ())),
    Action.move 0 Move.load, Action.move 0 (Move.rebuild 3),
    Action.move 0 Move.swap, adds 7, Action.move 0 Move.persist,
    Action.move 0 Move.dropVectors]

theorem invalidation_takes_effect_between_writes :
    exists s, System.Reachable (invalidations Unit 0 coded) (Undisturbed 0) s ∧
      idsOf s.handle.current = [4, 7] ∧ s.handle.queued = [1] ∧
      forall call, call ∈ s.calls ->
        (forall r, call.stage = Stage.returned (Except.ok r) ->
          TookEffect s.handle call) ∧
        forall entries version next names entitiesAfter,
          call.stage = Stage.rebuilt entries version next names entitiesAfter ->
            version = s.handle.earlier.length := by
  obtain ⟨s, -, hreach, hids, hqueued⟩ :=
    (invalidations Unit 0 coded).replay_reaches (Undisturbed 0) quietRun
      (fun s => idsOf s.handle.current = [4, 7] ∧ s.handle.queued = [1])
      (by decide +kernel)
  exact ⟨s, hreach, hids, hqueued,
    invalidation_takes_effect parse_hyphenated (by decide +kernel) hreach⟩

def lostRun : List (Action Unit) :=
  [Action.call "a.rs", Action.move 0 (Move.invalidateSource (Except.ok 1)),
    Action.move 0 (Move.getOrCreateSession (Except.ok ())),
    Action.move 0 Move.load, adds 4, Action.move 0 (Move.rebuild 3),
    Action.move 0 Move.swap]

def Stage.succeeded : Stage -> Bool
  | Stage.returned (Except.ok _) => true
  | _ => false

theorem Stage.succeeded_iff {stage : Stage} :
    stage.succeeded = true ↔ exists r, stage = Stage.returned (Except.ok r) := by
  cases stage with
  | returned result =>
      cases result with
      | ok r | error e => simp [Stage.succeeded]
  | _ => simp [Stage.succeeded]

/-- The call loses its swap, returns `Ok`, and the update is still there. -/
theorem lost_swap_returns_ok :
    ¬ forall (sessionId : Uuid) (start : ActiveSession) (s : State),
      (idsOf start).Nodup ->
      System.Reachable (invalidations Unit sessionId start)
        (OrdinaryWrite sessionId) s ->
      forall call, call ∈ s.calls ->
        forall r, call.stage = Stage.returned (Except.ok r) ->
          TookEffect s.handle call := by
  intro hall
  obtain ⟨s, -, hreach, ⟨call, hcall, hstage, hid⟩, hstill⟩ :=
    (invalidations Unit 0 coded).replay_reaches (OrdinaryWrite 0) lostRun (fun s =>
      (exists call, call ∈ s.calls ∧ call.stage.succeeded = true ∧
        1 ∈ idsForFile call.filePath call.begun) ∧ 1 ∈ idsOf s.handle.current)
      (by decide +kernel)
  obtain ⟨r, hr⟩ := Stage.succeeded_iff.mp hstage
  exact (hall 0 coded s (by decide +kernel) hreach call hcall r hr 1 hid).1 hstill

end Invalidation
end Memory
end PostCortex
