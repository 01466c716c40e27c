import PostCortex.Storage.Messages
import PostCortex.Transition.Calls

/-!
# Message streams and their sessions

The calls of `append_messages` (`memory_system/messages.rs`) and
`delete_session` (`memory_system/system.rs`) on one session id, any number of
each.  An append looks the session up in the cache, or under the loading gate
in storage; the storage append and the storage deletion are one step each, under
the session's lock; the vectors of the appended turns are added after that.
`vectors` are the content ids of the session's message vectors in memory.  A
deletion that storage reports as failed has changed nothing.
-/

namespace PostCortex
namespace Memory
namespace MessageStream

open PostCortex.Core
open KeyValue
open Storage
open Transition

inductive AppendStage where
  | called
  | waiting
  | gated
  | read (found : Bool)
  | checked
  | stored (messages : List Message)
  | returned (result : Except String (List Message × Nat))

inductive DeleteStage where
  | called
  | evicted
  | deleted
  | returned (result : Except String Bool)

inductive Call where
  | append (messages : List NewMessage) (stage : AppendStage)
  | delete (stage : DeleteStage)

def Call.isReturned : Call -> Bool
  | Call.append _ (AppendStage.returned _) => true
  | Call.delete (DeleteStage.returned _) => true
  | _ => false

/-- `gate` is the call that holds the loading gate of the session. -/
structure Shared (blob : Type) where
  db : Db blob
  cached : Bool
  gate : Option Nat
  vectors : List String

structure State (blob : Type) where
  shared : Shared blob
  calls : List Call

/-- The steps of a call, with the errors of storage and the vectors that the
vectorizer adds. -/
inductive Move where
  | lookup
  | lock
  | load (error : Option String)
  | install
  | appendMessages (error : Option String)
  | vectorize (added : List String)
  | deleteSession (error : Option String)
  | removeVectors
  deriving DecidableEq, Repr

inductive Action where
  | append (messages : List NewMessage)
  | delete
  | move (i : Nat) (m : Move)
  | evict
  deriving DecidableEq, Repr

def vectorsOf (messages : List Message) (added : List String) : Bool :=
  added.all (fun c =>
    messages.any (fun m => hasPrefix (messageContentId m.seq) c))

/-- A deletion has deleted the session and will remove its vectors. -/
def RemovalPending (calls : List Call) : Prop :=
  exists i : Nat, calls[i]? = some (Call.delete DeleteStage.deleted)

def Call.isWriting : Call -> Bool
  | Call.append messages AppendStage.checked => !messages.isEmpty
  | _ => false

def Call.isEmbedding : Call -> Bool
  | Call.append _ (AppendStage.stored appended) => !appended.isEmpty
  | _ => false

variable {calls : List Call}

theorem RemovalPending.set {i : Nat} {call call' : Call} (h : RemovalPending calls)
    (hi : calls[i]? = some call) (hother : call ≠ Call.delete DeleteStage.deleted) :
    RemovalPending (calls.set i call') := by
  obtain ⟨j, hj⟩ := h
  refine ⟨j, ?_⟩
  by_cases hji : j = i
  · subst hji
    rw [hi] at hj
    exact absurd (Option.some.inj hj) hother
  · rw [List.getElem?_set_ne (Ne.symm hji)]
    exact hj

theorem not_any_of_getElem? {p : Call -> Bool} {j : Nat} {call : Call}
    (hnone : calls.any p = false) (hj : calls[j]? = some call) :
    p call = false :=
  eq_false_of_ne_true
    (List.any_eq_false.mp hnone call (List.mem_of_getElem? hj))

section

variable {blob : Type} [UuidText]

def isStored (db : Db blob) (sessionId : Uuid) : Bool :=
  (blobOf db sessionId).isSome

def notFound (sessionId : Uuid) : String :=
  "Session " ++ UuidText.toText sessionId ++ " not found"

def advanceAppend (sessionId : Uuid) (i : Nat) (s : Shared blob)
    (messages : List NewMessage) :
    AppendStage -> Move -> Option (Shared blob × AppendStage)
  | AppendStage.called, Move.lookup =>
      some (s, if s.cached then AppendStage.checked else AppendStage.waiting)
  | AppendStage.waiting, Move.lock =>
      if s.gate = none then some ({ s with gate := some i }, AppendStage.gated)
      else none
  | AppendStage.gated, Move.load error =>
      if s.cached then some ({ s with gate := none }, AppendStage.checked)
      else
        match error with
        | some e =>
            some ({ s with gate := none },
              AppendStage.returned (Except.error ("Storage error: " ++ e)))
        | none => some (s, AppendStage.read (isStored s.db sessionId))
  | AppendStage.read found, Move.install =>
      if found then
        some ({ s with gate := none, cached := true }, AppendStage.checked)
      else
        some ({ s with gate := none },
          AppendStage.returned (Except.error (notFound sessionId)))
  | AppendStage.checked, Move.appendMessages error =>
      match error with
      | some e => some (s, AppendStage.returned (Except.error e))
      | none =>
          match Storage.appendMessages s.db sessionId messages with
          | Except.error e => some (s, AppendStage.returned (Except.error e))
          | Except.ok (db, appended) =>
              some ({ s with db := db }, AppendStage.stored appended)
  | AppendStage.stored appended, Move.vectorize added =>
      if vectorsOf appended added then
        some ({ s with vectors := s.vectors ++ added },
          AppendStage.returned (Except.ok (appended, added.length)))
      else none
  | _, _ => none

def advanceDelete (sessionId : Uuid) (i : Nat) (s : Shared blob) :
    DeleteStage -> Move -> Option (Shared blob × DeleteStage)
  | DeleteStage.called, Move.lock =>
      if s.gate = none then
        some ({ s with gate := some i, cached := false }, DeleteStage.evicted)
      else none
  | DeleteStage.evicted, Move.deleteSession error =>
      match error with
      | some e =>
          some ({ s with gate := none }, DeleteStage.returned (Except.error e))
      | none =>
          some ({ s with
              gate := none
              db := Storage.deleteSession s.db sessionId },
            DeleteStage.deleted)
  | DeleteStage.deleted, Move.removeVectors =>
      some ({ s with vectors := [] }, DeleteStage.returned (Except.ok true))
  | _, _ => none

def advance (sessionId : Uuid) (i : Nat) (s : Shared blob) (m : Move) :
    Call -> Option (Shared blob × Call)
  | Call.append messages stage =>
      (advanceAppend sessionId i s messages stage m).map
        (fun x => (x.1, Call.append messages x.2))
  | Call.delete stage =>
      (advanceDelete sessionId i s stage m).map
        (fun x => (x.1, Call.delete x.2))

def step (sessionId : Uuid) (s : State blob) : Action -> Option (State blob)
  | Action.append messages =>
      some { s with
        calls := s.calls ++ [Call.append messages AppendStage.called] }
  | Action.delete =>
      some { s with calls := s.calls ++ [Call.delete DeleteStage.called] }
  | Action.move i m =>
      match s.calls[i]? with
      | none => none
      | some call =>
          (advance sessionId i s.shared m call).map
            (fun x => ⟨x.1, s.calls.set i x.2⟩)
  | Action.evict => some { s with shared := { s.shared with cached := false } }

def streams (sessionId : Uuid) (start : Shared blob) :
    System (State blob) Action where
  init := ⟨start, []⟩
  step := step sessionId

/-!
# What holds while calls run
-/

def Fits (sessionId : Uuid) (s : State blob) (i : Nat) : Call -> Prop
  | Call.append _ AppendStage.gated => s.shared.gate = some i
  | Call.append _ (AppendStage.read found) =>
      s.shared.gate = some i ∧
        (found = true -> isStored s.shared.db sessionId = true)
  | Call.append messages AppendStage.checked =>
      messages ≠ [] -> isStored s.shared.db sessionId = true
  | Call.append _ (AppendStage.stored appended) =>
      appended ≠ [] ->
        isStored s.shared.db sessionId = true ∨ RemovalPending s.calls
  | Call.delete DeleteStage.evicted =>
      s.shared.gate = some i ∧ s.shared.cached = false
  | _ => True

structure Kept (sessionId : Uuid) (s : State blob) : Prop where
  messages : HasMessages s.shared.db sessionId ->
    isStored s.shared.db sessionId = true
  vectors : s.shared.vectors ≠ [] ->
    isStored s.shared.db sessionId = true ∨ RemovalPending s.calls
  cached : s.shared.cached = true -> isStored s.shared.db sessionId = true
  fits : forall i call, s.calls[i]? = some call -> Fits sessionId s i call

/-- A step that neither deletes the session nor removes the vectors. -/
structure Plain (sessionId : Uuid) (i : Nat) (s s' : Shared blob)
    (call : Call) : Prop where
  stored : isStored s'.db sessionId = isStored s.db sessionId
  other : call ≠ Call.delete DeleteStage.deleted
  gate : forall j, j ≠ i -> s.gate = some j ->
    s'.gate = some j ∧ s'.cached = s.cached

variable {sessionId : Uuid} {s : State blob} {i : Nat} {call : Call} {s' : Shared blob}

theorem Kept.plain {call' : Call} (h : Kept sessionId s)
    (hi : s.calls[i]? = some call) (hplain : Plain sessionId i s.shared s' call)
    (hmessages : HasMessages s'.db sessionId ->
      isStored s'.db sessionId = true) (hvectors : s'.vectors ≠ [] ->
      isStored s.shared.db sessionId = true ∨ RemovalPending s.calls)
    (hcached : s'.cached = true -> isStored s'.db sessionId = true)
    (hown : Fits sessionId ⟨s', s.calls.set i call'⟩ i call') :
    Kept sessionId ⟨s', s.calls.set i call'⟩ where
  messages := hmessages
  vectors := by
    intro hne
    rw [hplain.stored]
    exact (hvectors hne).imp_right (fun hp => hp.set hi hplain.other)
  cached := hcached
  fits := by
    apply forall_getElem?_set hi hown
    intro j other hji hj
    have hfits := h.fits j other hj
    unfold Fits at hfits ⊢
    split at hfits
    · exact (hplain.gate j hji hfits).1
    · refine ⟨(hplain.gate j hji hfits.1).1, ?_⟩
      rw [hplain.stored]
      exact hfits.2
    · rw [hplain.stored]
      exact hfits
    · intro hne
      rw [hplain.stored]
      exact (hfits hne).imp_right (fun hp => hp.set hi hplain.other)
    · obtain ⟨hgate, hcached⟩ := hplain.gate j hji hfits.1
      refine ⟨hgate, ?_⟩
      rw [hcached]
      exact hfits.2
    · trivial

theorem Kept.quiet {call' : Call} {gate : Option Nat} {cached : Bool}
    (h : Kept sessionId s) (hi : s.calls[i]? = some call)
    (hother : call ≠ Call.delete DeleteStage.deleted)
    (hgate : forall j, j ≠ i -> s.shared.gate = some j ->
      gate = some j ∧ cached = s.shared.cached)
    (hcached : cached = true -> isStored s.shared.db sessionId = true)
    (hown : Fits sessionId
      ⟨{ s.shared with gate := gate, cached := cached },
        s.calls.set i call'⟩ i call') :
    Kept sessionId
      ⟨{ s.shared with gate := gate, cached := cached },
        s.calls.set i call'⟩ :=
  h.plain hi ⟨rfl, hother, hgate⟩ h.messages h.vectors hcached hown

/-!
# Runs in which no deletion interrupts an append
-/

/-- The session is not deleted between an append's check and its write, and
the vectors are not removed between its write and its embedding. -/
def Uninterrupted (s : State blob) : Action -> Prop
  | Action.move _ (Move.deleteSession none) =>
      s.calls.any Call.isWriting = false
  | Action.move _ Move.removeVectors => s.calls.any Call.isEmbedding = false
  | _ => True

theorem advanceAppend_kept {messages : List NewMessage} {stage stage' : AppendStage}
    {m : Move} (h : Kept sessionId s)
    (hi : s.calls[i]? = some (Call.append messages stage))
    (hstep : advanceAppend sessionId i s.shared messages stage m =
      some (s', stage')) :
    Kept sessionId ⟨s', s.calls.set i (Call.append messages stage')⟩ := by
  have hother : Call.append messages stage ≠ Call.delete DeleteStage.deleted :=
    nofun
  have hfits := h.fits i _ hi
  unfold advanceAppend at hstep
  split at hstep
  · cases hstep
    refine h.quiet hi hother (fun j _ hj => ⟨hj, rfl⟩) h.cached ?_
    split
    · next hcached => exact fun _ => h.cached hcached
    · trivial
  · split at hstep
    · next hfree =>
      cases hstep
      refine h.quiet hi hother ?_ h.cached rfl
      intro j _ hj
      rw [hfree] at hj
      cases hj
    · cases hstep
  · have hgate : forall j, j ≠ i -> s.shared.gate = some j ->
        (none : Option Nat) = some j ∧ s.shared.cached = s.shared.cached := by
      intro j hji hj
      rw [show s.shared.gate = some i from hfits] at hj
      exact absurd (Option.some.inj hj).symm hji
    split at hstep
    · next hcached =>
      cases hstep
      exact h.quiet hi hother hgate h.cached (fun _ => h.cached hcached)
    · split at hstep
      · cases hstep
        exact h.quiet hi hother hgate h.cached True.intro
      · cases hstep
        exact h.quiet hi hother (fun j _ hj => ⟨hj, rfl⟩) h.cached ⟨hfits, id⟩
  · obtain ⟨hheld, hfound⟩ := hfits
    have hgate : forall cached, forall j, j ≠ i -> s.shared.gate = some j ->
        (none : Option Nat) = some j ∧ cached = s.shared.cached := by
      intro cached j hji hj
      rw [hheld] at hj
      exact absurd (Option.some.inj hj).symm hji
    split at hstep
    · next hyes =>
      cases hstep
      exact h.quiet hi hother (hgate true) (fun _ => hfound hyes)
        (fun _ => hfound hyes)
    · cases hstep
      exact h.quiet hi hother (hgate _) h.cached True.intro
  · split at hstep
    · cases hstep
      exact h.quiet hi hother (fun j _ hj => ⟨hj, rfl⟩) h.cached True.intro
    · split at hstep
      · cases hstep
        exact h.quiet hi hother (fun j _ hj => ⟨hj, rfl⟩) h.cached True.intro
      · next db appended happend =>
        cases hstep
        have hblob : isStored db sessionId = isStored s.shared.db sessionId := by
          rw [isStored, append_blobOf happend]
          rfl
        refine h.plain hi ⟨hblob, hother, fun j _ hj => ⟨hj, rfl⟩⟩ ?_ h.vectors
          ?_ ?_
        · intro hhas
          rw [hblob]
          by_cases hnil : messages = []
          · subst hnil
            cases happend
            exact h.messages hhas
          · exact hfits hnil
        · rw [hblob]
          exact h.cached
        · intro hne
          left
          rw [hblob]
          apply hfits
          rintro rfl
          cases happend
          exact hne rfl
  · next appended added =>
    split at hstep
    · next hadded =>
      cases hstep
      refine h.plain hi ⟨rfl, hother, fun j _ hj => ⟨hj, rfl⟩⟩ h.messages ?_
        h.cached True.intro
      intro hne
      by_cases happended : appended = []
      · subst happended
        have hnone : added = [] := by
          cases added with
          | nil =>
              rfl
          | cons c rest =>
              simp [vectorsOf] at hadded
        subst hnone
        rw [List.append_nil] at hne
        exact h.vectors hne
      · exact hfits happended
    · cases hstep
  · cases hstep

/-- The deletion holds the gate, so no lookup is under way, and by `Uninterrupted`
no append is about to write. -/
theorem deleteSession_kept (h : Kept sessionId s)
    (hi : s.calls[i]? = some (Call.delete DeleteStage.evicted))
    (hquiet : s.calls.any Call.isWriting = false) :
    Kept sessionId
      ⟨{ s.shared with
          gate := none
          db := Storage.deleteSession s.shared.db sessionId },
        s.calls.set i (Call.delete DeleteStage.deleted)⟩ := by
  have hfits : s.shared.gate = some i ∧ s.shared.cached = false := h.fits i _ hi
  obtain ⟨hgate, hcached⟩ := hfits
  have hpending : RemovalPending
      (s.calls.set i (Call.delete DeleteStage.deleted)) :=
    ⟨i, List.getElem?_set_self (List.getElem?_eq_some_iff.mp hi).1⟩
  have hother : forall j, j ≠ i -> s.shared.gate ≠ some j := by
    intro j hji hj
    rw [hgate] at hj
    exact hji (Option.some.inj hj).symm
  refine ⟨?_, fun _ => Or.inr hpending, ?_, ?_⟩
  · intro hhas
    exact absurd hhas (delete_messages s.shared.db sessionId)
  · intro hyes
    rw [hcached] at hyes
    cases hyes
  · refine forall_getElem?_set (P := Fits sessionId _) hi True.intro ?_
    intro j other hji hj
    have hold := h.fits j other hj
    unfold Fits at hold ⊢
    split at hold
    · exact absurd hold (hother j hji)
    · exact absurd hold.1 (hother j hji)
    · next messages =>
      intro hne
      have hnot := not_any_of_getElem? hquiet hj
      cases messages with
      | nil =>
          exact absurd rfl hne
      | cons new rest =>
          cases hnot
    · exact fun _ => Or.inr hpending
    · exact absurd hold.1 (hother j hji)
    · trivial

theorem removeVectors_kept {result : Except String Bool} (h : Kept sessionId s)
    (hi : s.calls[i]? = some (Call.delete DeleteStage.deleted))
    (hquiet : s.calls.any Call.isEmbedding = false) :
    Kept sessionId
      ⟨{ s.shared with vectors := [] },
        s.calls.set i (Call.delete (DeleteStage.returned result))⟩ := by
  refine ⟨h.messages, fun hne => absurd rfl hne, h.cached, ?_⟩
  refine forall_getElem?_set (P := Fits sessionId _) hi True.intro ?_
  intro j other hji hj
  have hold := h.fits j other hj
  unfold Fits at hold ⊢
  split at hold
  · exact hold
  · exact hold
  · exact hold
  · next messages appended =>
    intro hne
    have hnot := not_any_of_getElem? hquiet hj
    cases appended with
    | nil =>
        exact absurd rfl hne
    | cons message rest =>
        cases hnot
  · exact hold
  · trivial

theorem advanceDelete_kept {stage stage' : DeleteStage} {m : Move}
    (h : Kept sessionId s) (hi : s.calls[i]? = some (Call.delete stage))
    (hallowed : Uninterrupted s (Action.move i m))
    (hstep : advanceDelete sessionId i s.shared stage m = some (s', stage')) :
    Kept sessionId ⟨s', s.calls.set i (Call.delete stage')⟩ := by
  have hfits := h.fits i _ hi
  unfold advanceDelete at hstep
  split at hstep
  · split at hstep
    · next hfree =>
      cases hstep
      refine h.quiet hi nofun ?_ nofun ⟨rfl, rfl⟩
      intro j _ hj
      rw [hfree] at hj
      cases hj
    · cases hstep
  · split at hstep
    · cases hstep
      refine h.quiet hi nofun ?_ h.cached True.intro
      intro j hji hj
      rw [hfits.1] at hj
      exact absurd (Option.some.inj hj).symm hji
    · cases hstep
      exact deleteSession_kept h hi hallowed
  · cases hstep
    exact removeVectors_kept h hi hallowed
  · cases hstep

theorem Kept.called (h : Kept sessionId s)
    (hcall : forall (t : State blob) i, Fits sessionId t i call) :
    Kept sessionId { s with calls := s.calls ++ [call] } := by
  have hpending : RemovalPending s.calls ->
      RemovalPending (s.calls ++ [call]) := by
    rintro ⟨j, hj⟩
    refine ⟨j, ?_⟩
    rw [List.getElem?_append_left (List.getElem?_eq_some_iff.mp hj).1]
    exact hj
  refine ⟨h.messages, fun hne => (h.vectors hne).imp_right hpending,
    h.cached, ?_⟩
  refine forall_getElem?_snoc (P := Fits sessionId _) (hcall _ _) ?_
  intro j other hj
  have hold := h.fits j other hj
  unfold Fits at hold ⊢
  split at hold
  · exact hold
  · exact hold
  · exact hold
  · exact fun hne => (hold hne).imp_right hpending
  · exact hold
  · trivial

theorem Kept.evicted (h : Kept sessionId s) :
    Kept sessionId { s with shared := { s.shared with cached := false } } := by
  refine ⟨h.messages, h.vectors, nofun, ?_⟩
  intro j other hj
  have hold := h.fits j other hj
  unfold Fits at hold ⊢
  split at hold
  · exact hold
  · exact hold
  · exact hold
  · exact hold
  · exact ⟨hold.1, rfl⟩
  · trivial

theorem step_kept {s' : State blob} {a : Action} (h : Kept sessionId s)
    (hallowed : Uninterrupted s a) (hstep : step sessionId s a = some s') :
    Kept sessionId s' := by
  cases a with
  | append messages | delete =>
      cases hstep
      exact h.called (fun _ _ => True.intro)
  | evict =>
      cases hstep
      exact h.evicted
  | move i m =>
      simp only [step] at hstep
      split at hstep
      · cases hstep
      · next call hi =>
        obtain ⟨⟨shared, call'⟩, hadvance, rfl⟩ := Option.map_eq_some_iff.mp hstep
        cases call with
        | append messages stage =>
            obtain ⟨⟨shared', stage'⟩, happend, heq⟩ :=
              Option.map_eq_some_iff.mp hadvance
            cases heq
            exact advanceAppend_kept h hi happend
        | delete stage =>
            obtain ⟨⟨shared', stage'⟩, hdelete, heq⟩ :=
              Option.map_eq_some_iff.mp hadvance
            cases heq
            exact advanceDelete_kept h hi hallowed hdelete

/-- A shared state in which the stream has its session. -/
structure Owned (sessionId : Uuid) (s : Shared blob) : Prop where
  messages : HasMessages s.db sessionId -> isStored s.db sessionId = true
  vectors : s.vectors ≠ [] -> isStored s.db sessionId = true

theorem kept_reachable {start : Shared blob} (howned : Owned sessionId start)
    (hcached : start.cached = true -> isStored start.db sessionId = true)
    (h : (streams sessionId start).Reachable Uninterrupted s) :
    Kept sessionId s := by
  refine h.invariant ?_ (fun s a s' hs hallowed hstep =>
    step_kept hs hallowed hstep)
  refine ⟨howned.messages, fun hne => Or.inl (howned.vectors hne), hcached, ?_⟩
  intro i call hi
  cases hi

/-- When every call has returned and no deletion interrupted an append, there
are message rows and message vectors only of a session that is stored. -/
theorem stream_has_session {sessionId : Uuid} {start : Shared blob}
    (howned : Owned sessionId start)
    (hcached : start.cached = true -> isStored start.db sessionId = true)
    {s : State blob}
    (h : (streams sessionId start).Reachable Uninterrupted s)
    (hreturned : s.calls.all Call.isReturned = true) :
    Owned sessionId s.shared := by
  have hkept := kept_reachable howned hcached h
  refine ⟨hkept.messages, ?_⟩
  intro hne
  rcases hkept.vectors hne with hstored | ⟨i, hi⟩
  · exact hstored
  · have hdone := List.all_eq_true.mp hreturned _ (List.mem_of_getElem? hi)
    cases hdone

end

/-!
# A run in order, and a deletion in between
-/

instance {blob : Type} (s : State blob) (a : Action) :
    Decidable (Uninterrupted s a) :=
  match a with
  | Action.move _ (Move.deleteSession none) =>
      inferInstanceAs (Decidable (s.calls.any Call.isWriting = false))
  | Action.move _ Move.removeVectors =>
      inferInstanceAs (Decidable (s.calls.any Call.isEmbedding = false))
  | Action.move _ Move.lookup | Action.move _ Move.lock
  | Action.move _ (Move.load _) | Action.move _ Move.install
  | Action.move _ (Move.appendMessages _) | Action.move _ (Move.vectorize _)
  | Action.move _ (Move.deleteSession (some _)) | Action.append _
  | Action.delete | Action.evict =>
      inferInstanceAs (Decidable True)

attribute [local instance] hyphenatedText

def silent : Shared Unit where
  db := Database.write ∅ [Edit.put (sessionKey 7) (Record.session ())]
  cached := true
  gate := none
  vectors := []

def turn (id text : String) : NewMessage :=
  ⟨id, MessageRole.user, none, none, 1, text, [], []⟩

def orderedRun : List Action :=
  [Action.append [turn "a" "hello", turn "a" "hello"], Action.evict,
    Action.move 0 Move.lookup, Action.move 0 Move.lock,
    Action.move 0 (Move.load none), Action.move 0 Move.install,
    Action.move 0 (Move.appendMessages none),
    Action.move 0 (Move.vectorize ["message:0", "message:0#2"]),
    Action.append [turn "b" "again"], Action.move 1 Move.lookup,
    Action.move 1 (Move.appendMessages none),
    Action.move 1 (Move.vectorize [])]

/-- The session is deleted between the call of a third append and its lookup. -/
def deletedRun : List Action :=
  orderedRun ++ [Action.append [turn "c" "late"], Action.delete,
    Action.move 3 Move.lock, Action.move 3 (Move.deleteSession none),
    Action.move 2 Move.lookup, Action.move 3 Move.removeVectors,
    Action.move 2 Move.lock, Action.move 2 (Move.load none),
    Action.move 2 Move.install]

theorem stored_of_silent {s : Shared Unit}
    (h : isStored s.db (7 : Uuid) = true) :
    Owned 7 s :=
  ⟨fun _ => h, fun _ => h⟩

theorem stream_has_session_in_order :
    (exists s, (streams 7 silent).Reachable Uninterrupted s ∧
      s.shared.vectors = ["message:0", "message:0#2"] ∧
      (blobOf s.shared.db 7).isSome = true ∧ Owned 7 s.shared) ∧
    exists s, (streams 7 silent).Reachable Uninterrupted s ∧
      ¬ isStored s.shared.db 7 = true ∧ ¬ HasMessages s.shared.db 7 ∧
      s.shared.vectors = [] := by
  have howned := @stream_has_session _ _ _ _
    (stored_of_silent (s := silent) (by decide +kernel)) (by decide +kernel)
  constructor
  · obtain ⟨s, -, hreach, hvectors, hblob, hreturned⟩ :=
      (streams 7 silent).replay_reaches Uninterrupted orderedRun (fun s =>
        s.shared.vectors = ["message:0", "message:0#2"] ∧
          (blobOf s.shared.db 7).isSome = true ∧
          s.calls.all Call.isReturned = true)
        (by decide +kernel)
    exact ⟨s, hreach, hvectors, hblob, howned hreach hreturned⟩
  · obtain ⟨s, -, hreach, hgone, hreturned⟩ :=
      (streams 7 silent).replay_reaches Uninterrupted deletedRun (fun s =>
        ¬ isStored s.shared.db 7 = true ∧ s.calls.all Call.isReturned = true)
        (by decide +kernel)
    have hend := howned hreach hreturned
    refine ⟨s, hreach, hgone, fun hhas => hgone (hend.messages hhas), ?_⟩
    by_contra hne
    exact hgone (hend.vectors hne)

def interruptedRun : List Action :=
  [Action.append [turn "a" "hello"], Action.move 0 Move.lookup, Action.delete,
    Action.move 1 Move.lock, Action.move 1 (Move.deleteSession none),
    Action.move 1 Move.removeVectors,
    Action.move 0 (Move.appendMessages none),
    Action.move 0 (Move.vectorize ["message:0"])]

/-- The append has succeeded, and its rows and its vector have no session. -/
theorem stream_outlives_session :
    ¬ forall (sessionId : Uuid) (start : Shared Unit) (s : State Unit),
      Owned sessionId start ->
      (start.cached = true -> isStored start.db sessionId = true) ->
      (streams sessionId start).Reachable System.Anything s ->
      s.calls.all Call.isReturned = true ->
      Owned sessionId s.shared := by
  intro hall
  obtain ⟨s, -, hreach, hcounter, hgone, hreturned⟩ :=
    (streams 7 silent).replay_reaches System.Anything interruptedRun (fun s =>
      (s.shared.db[messageNextKey 7]?).isSome = true ∧ ¬ isStored s.shared.db 7 = true ∧
        s.calls.all Call.isReturned = true) (by decide +kernel)
  have howned := hall 7 silent s (stored_of_silent (by decide +kernel))
    (by decide +kernel) hreach hreturned
  exact hgone (howned.messages ⟨_, Or.inr (Or.inr rfl), hcounter⟩)

end MessageStream
end Memory
end PostCortex
