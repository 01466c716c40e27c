import PostCortex.Core.UuidText
import PostCortex.Cas.RetryLoop
import PostCortex.Session.ActiveSession
import PostCortex.Graph.AliasResolution

/-!
# Writes to a session

The three compare-and-swap loops of `memory_system/system.rs` on one session
handle: `cas_update_session` with any closure, `add_incremental_update_internal`
and `apply_entity_graph_update_now`.  `κ` is what a closure keeps from one
attempt to the next.  How the source prints and reads an id is the `uuid`
crate's, `UuidText`.
-/

namespace PostCortex
namespace Memory

open PostCortex.Core
open PostCortex.Graph
open Session
open Cas
open Cas.Loop (swapsOf)
open Transition

inductive WriteMode where
  | inlined
  | deferred (waitDurable : Bool)
  deriving DecidableEq, Repr

inductive Request (κ : Type) where
  | casUpdateSession (op : String)
      (mutate : Draws × κ -> ActiveSession -> Option ActiveSession)
  | addIncrementalUpdate (description : String)
      (metadata : Option (Except String ContextUpdate)) (mode : WriteMode)
  | applyEntityGraphUpdate (update : ContextUpdate)

inductive Answer where
  | updated (session : Option ActiveSession)
  | added (updateId : String) (update : ContextUpdate)
  | merged

structure CommittedUpdate where
  entryId : Uuid
  update : ContextUpdate
  durable : Bool
  deriving DecidableEq, Repr

/-- What a caller gets back when it does not get an error. -/
inductive Reply where
  | updated (session : Option ActiveSession)
  | added (committed : CommittedUpdate)
  | merged

def maxCasAttempts : Nat :=
  20

section

variable [CharTables] [UuidText] {κ : Type}

/-!
# One attempt
-/

def casUpdateSession (mutate : ActiveSession -> Option ActiveSession)
    (session : ActiveSession) : Attempt ActiveSession Answer String :=
  match mutate session with
  | none => Attempt.unchanged (Answer.updated none)
  | some new => Attempt.changed new (Answer.updated (some new))

/-- One attempt of `add_incremental_update_internal`; the description is cut
before the loop. -/
def addIncrementalUpdateInternal (draws : Draws) (description : String)
    (metadata : Option (Except String ContextUpdate)) (mode : WriteMode)
    (session : ActiveSession) : Attempt ActiveSession Answer String :=
  match session.addContextUpdate draws
      (ActiveSession.limitedDescription description) metadata with
  | Except.error e => Attempt.failed e
  | Except.ok (new, update) =>
      let new :=
        match mode with
        | WriteMode.inlined => new.applyEntityGraphUpdate draws.now update
        | WriteMode.deferred _ => new
      Attempt.changed new (Answer.added (UuidText.toText update.id) update)

def applyEntityGraphUpdateNow (draws : Draws) (update : ContextUpdate)
    (session : ActiveSession) : Attempt ActiveSession Answer String :=
  if session.incrementalUpdates.any (fun u => u.id == update.id) then
    Attempt.changed (session.applyEntityGraphUpdate draws.now update)
      Answer.merged
  else Attempt.unchanged Answer.merged

def exhausted (sessionId : Uuid) : Request κ -> String
  | Request.casUpdateSession op _ =>
      op ++ ": high contention (" ++ toString maxCasAttempts ++
        " CAS attempts exhausted) for session " ++ UuidText.toText sessionId
  | Request.addIncrementalUpdate _ _ _ =>
      "Failed to update session: high contention (" ++
        toString maxCasAttempts ++ " CAS attempts exhausted)"
  | Request.applyEntityGraphUpdate _ =>
      "apply_entity_graph_update_now: high contention (" ++
        toString maxCasAttempts ++ " CAS attempts exhausted) for session " ++
        UuidText.toText sessionId

def sessionLoop (κ : Type) (sessionId : Uuid) :
    Loop ActiveSession (Request κ) (Draws × κ) Answer String where
  attempt := fun request draws session =>
    match request with
    | Request.casUpdateSession _ mutate =>
        casUpdateSession (mutate draws) session
    | Request.addIncrementalUpdate description metadata mode =>
        addIncrementalUpdateInternal draws.1 description metadata mode session
    | Request.applyEntityGraphUpdate update =>
        applyEntityGraphUpdateNow draws.1 update session
  maxAttempts := maxCasAttempts
  exhausted := exhausted sessionId

abbrev SessionCell (κ : Type) : Type :=
  Cell ActiveSession (Request κ) (Draws × κ) Answer String

/-- The writes to a handle that was published with version `start`. -/
def sessionWrites (κ : Type) (sessionId : Uuid) (start : ActiveSession) :
    System (SessionCell κ) (Cas.Action (Request κ) (Draws × κ)) :=
  (sessionLoop κ sessionId).system start

/-!
# What a caller is told
-/

/-- The rest of a call after its loop; `written` says whether the storage write
it waits for succeeded. -/
def finish (request : Request κ) (written : Bool) :
    Answer -> Except String Reply
  | Answer.updated session => Except.ok (Reply.updated session)
  | Answer.merged => Except.ok Reply.merged
  | Answer.added updateId update =>
      match UuidText.parseStr updateId with
      | Except.error e =>
          Except.error ("Invalid update id " ++ updateId.quote ++ ": " ++ e)
      | Except.ok entryId =>
          let durable :=
            match request with
            | Request.addIncrementalUpdate _ _ (WriteMode.deferred true) =>
                written
            | _ => false
          Except.ok (Reply.added ⟨entryId, update, durable⟩)

def replyTo (request : Request κ) (written : Bool) :
    Outcome (Draws × κ) Answer String -> Except String Reply
  | Outcome.committed a => finish request written a
  | Outcome.declined _ _ a => finish request written a
  | Outcome.failed e => Except.error e

def told (request : Request κ) (written : Bool) :
    Stage ActiveSession (Draws × κ) Answer String ->
      Option (Except String Reply)
  | Stage.returned outcome => some (replyTo request written outcome)
  | Stage.waiting _ | Stage.loaded _ _ _ | Stage.prepared _ _ _ _ _ => none

variable {sessionId : Uuid} {request : Request κ}

theorem finish_of_changed
    (hparse : forall id, UuidText.parseStr (UuidText.toText id) = Except.ok id)
    {draws : Draws × κ} {session next : ActiveSession} {a : Answer}
    (h : (sessionLoop κ sessionId).attempt request draws session =
      Attempt.changed next a) (written : Bool) :
    exists reply, finish request written a = Except.ok reply := by
  cases request with
  | casUpdateSession op mutate =>
      simp only [sessionLoop, casUpdateSession] at h
      split at h
      · cases h
      · cases h
        exact ⟨_, rfl⟩
  | addIncrementalUpdate description metadata mode =>
      simp only [sessionLoop, addIncrementalUpdateInternal] at h
      split at h
      · cases h
      · cases h
        simp only [finish, hparse]
        exact ⟨_, rfl⟩
  | applyEntityGraphUpdate update =>
      simp only [sessionLoop, applyEntityGraphUpdateNow] at h
      split at h
      · cases h
        exact ⟨_, rfl⟩
      · cases h

/-!
# Every write takes effect once
-/

/-- At a version that was current during the call, the attempt changed
nothing. -/
def NothingToChange (sessionId : Uuid) (start : ActiveSession)
    (c : SessionCell κ) (request : Request κ) (arrived : Nat) : Prop :=
  exists version draws, arrived ≤ version ∧ version ≤ c.log.length ∧
    forall next a,
      (sessionLoop κ sessionId).attempt request draws
          ((sessionLoop κ sessionId).versionAt start c.log version) ≠
        Attempt.changed next a

/-- The swaps are the writes whose callers got `Ok`, each once; a caller that
got `Err`, or has no answer yet, has contributed nothing. -/
structure Linearized (sessionId : Uuid) (start : ActiveSession)
    (c : SessionCell κ) : Prop where
  folded : c.current = (sessionLoop κ sessionId).fold start c.log
  swapped : forall n e, c.log[n]? = some e ->
    exists a arrived stage,
      (sessionLoop κ sessionId).attempt e.request e.d
          ((sessionLoop κ sessionId).versionAt start c.log n) =
        Attempt.changed
          ((sessionLoop κ sessionId).versionAt start c.log (n + 1)) a ∧
      c.calls[e.caller]? = some ⟨e.request, arrived, stage⟩ ∧
      forall written, exists reply,
        told e.request written stage = some (Except.ok reply)
  answered : forall i request arrived stage written reply,
    c.calls[i]? = some ⟨request, arrived, stage⟩ ->
    told request written stage = some (Except.ok reply) ->
    (exists draws, swapsOf i c.log = [⟨i, request, draws⟩]) ∨
      swapsOf i c.log = [] ∧
        NothingToChange sessionId start c request arrived
  failed : forall i request arrived stage written e,
    c.calls[i]? = some ⟨request, arrived, stage⟩ ->
    told request written stage = some (Except.error e) ->
    swapsOf i c.log = []
  running : forall i request arrived stage written,
    c.calls[i]? = some ⟨request, arrived, stage⟩ ->
    told request written stage = none ->
    swapsOf i c.log = []

variable {start : ActiveSession} {c : SessionCell κ}

theorem told_committed
    (hparse : forall id, UuidText.parseStr (UuidText.toText id) = Except.ok id)
    (h : (sessionLoop κ sessionId).Tracked start c) {i arrived : Nat} {a : Answer}
    (hcall : c.calls[i]? =
      some ⟨request, arrived, Stage.returned (Outcome.committed a)⟩)
    (written : Bool) :
    exists reply, finish request written a = Except.ok reply := by
  obtain ⟨draws, hswaps⟩ := h.fits i request arrived _ hcall
  have hmem : (⟨i, request, draws⟩ : Swap (Request κ) (Draws × κ)) ∈ c.log := by
    apply List.mem_of_mem_filter (p := fun e => e.caller == i)
    show _ ∈ swapsOf i c.log
    rw [hswaps]
    exact List.mem_singleton_self _
  obtain ⟨n, hn⟩ := List.getElem?_of_mem hmem
  obtain ⟨b, hattempt, arrived', hcaller⟩ := h.changed n _ hn
  rw [hcall] at hcaller
  cases hcaller
  exact finish_of_changed hparse hattempt written

theorem linearized
    (hparse : forall id, UuidText.parseStr (UuidText.toText id) = Except.ok id)
    (h : (sessionLoop κ sessionId).Tracked start c) :
    Linearized sessionId start c := by
  constructor
  · exact h.current
  · intro n e he
    obtain ⟨a, hattempt, arrived, hcaller⟩ := h.changed n e he
    refine ⟨a, arrived, _, hattempt, hcaller, ?_⟩
    intro written
    obtain ⟨reply, hreply⟩ := finish_of_changed hparse hattempt written
    exact ⟨reply, congrArg some hreply⟩
  · intro i request arrived stage written reply hcall htold
    have hfits := h.fits i request arrived stage hcall
    cases stage with
    | returned outcome =>
        cases outcome with
        | committed a =>
            exact Or.inl hfits
        | declined version draws a =>
            obtain ⟨hnone, harrived, hv, hattempt⟩ := hfits
            refine Or.inr ⟨hnone, version, draws, harrived, hv, ?_⟩
            intro next b hchanged
            rw [hattempt] at hchanged
            cases hchanged
        | failed e =>
            cases htold
    | waiting _ | loaded _ _ _ | prepared _ _ _ _ _ =>
        cases htold
  · intro i request arrived stage written e hcall htold
    have hfits := h.fits i request arrived stage hcall
    cases stage with
    | returned outcome =>
        cases outcome with
        | committed a =>
            obtain ⟨reply, hreply⟩ := told_committed hparse h hcall written
            have herror := Option.some.inj htold
            simp only [replyTo, hreply] at herror
            cases herror
        | declined version draws a =>
            exact hfits.1
        | failed e' =>
            exact hfits
    | waiting _ | loaded _ _ _ | prepared _ _ _ _ _ =>
        cases htold
  · intro i request arrived stage written hcall htold
    refine ((h.fits i request arrived stage hcall).running ?_).1
    intro outcome hstage
    subst hstage
    cases htold

/-- In every run the session is the fold of the swaps, the swaps are exactly
the writes answered with `Ok` that had something to change, each once, and no
later step loses one. -/
theorem session_writes_linearized {sessionId : Uuid} {start : ActiveSession}
    {c : SessionCell κ}
    (hparse : forall id, UuidText.parseStr (UuidText.toText id) = Except.ok id)
    (h : System.Reachable (sessionWrites κ sessionId start) System.Anything c) :
    Linearized sessionId start c ∧
      forall c', System.Steps (sessionWrites κ sessionId start)
        System.Anything c c' -> c.log <+: c'.log :=
  ⟨linearized hparse (Loop.tracked h), fun _ hrun => Loop.log_prefix hrun⟩

end

/-!
# Two writers at once
-/

attribute [local instance] EntityGraph.asciiTables hyphenatedText

def mentioning : ContextUpdate :=
  { ContextUpdate.plain 10 4 "second" with createsEntities := ["Redis"] }

/-- Two updates are added at once, and the graph of the second one is merged
while the first one is deleted. -/
def contendedRun : List (Cas.Action (Request Unit) (Draws × Unit)) :=
  [Cas.Action.call (Request.addIncrementalUpdate "first" none WriteMode.inlined),
    Cas.Action.call
      (Request.casUpdateSession "delete_update"
        (fun _ session => session.removeUpdateById 7)),
    Cas.Action.call (Request.addIncrementalUpdate "second"
      (some (Except.ok mentioning)) (WriteMode.deferred false)),
    Cas.Action.load 0, Cas.Action.load 2,
    Cas.Action.compute 0 (⟨1, 1, 2, 3⟩, ()),
    Cas.Action.compute 2 (⟨2, 4, 5, 6⟩, ()),
    Cas.Action.swap 0, Cas.Action.swap 2,
    Cas.Action.load 1, Cas.Action.compute 1 (⟨3, 7, 8, 9⟩, ()),
    Cas.Action.load 2, Cas.Action.compute 2 (⟨4, 10, 11, 12⟩, ()),
    Cas.Action.swap 2,
    Cas.Action.call (Request.applyEntityGraphUpdate mentioning),
    Cas.Action.call
      (Request.casUpdateSession "delete_update"
        (fun _ session => session.removeUpdateById 1)),
    Cas.Action.load 3, Cas.Action.load 4,
    Cas.Action.compute 3 (⟨5, 13, 14, 15⟩, ()),
    Cas.Action.compute 4 (⟨6, 16, 17, 18⟩, ()),
    Cas.Action.swap 4, Cas.Action.swap 3,
    Cas.Action.load 3, Cas.Action.compute 3 (⟨7, 19, 20, 21⟩, ()),
    Cas.Action.swap 3]

theorem session_writes_linearized_contended :
    exists c, c.log.map Swap.caller = [0, 2, 4, 3] ∧
      c.current.incrementalUpdates.map ContextUpdate.id = [10] ∧
      c.current.entityGraph.values.map EntityData.name = ["Redis"] ∧
      Linearized 0 (ActiveSession.new 0 none none 0) c ∧
      forall c', System.Steps
        (sessionWrites Unit 0 (ActiveSession.new 0 none none 0))
        System.Anything c c' -> c.log <+: c'.log := by
  obtain ⟨c, -, hreach, hlog, hids, hnames⟩ :=
    (sessionWrites Unit 0 (ActiveSession.new 0 none none 0)).replay_reaches
      System.Anything contendedRun (fun c => c.log.map Swap.caller = [0, 2, 4, 3] ∧
        c.current.incrementalUpdates.map ContextUpdate.id = [10] ∧
        c.current.entityGraph.values.map EntityData.name = ["Redis"])
      (by decide +kernel)
  exact ⟨c, hlog, hids, hnames,
    session_writes_linearized parse_hyphenated hreach⟩

end Memory
end PostCortex
