import PostCortex.Memory.SessionWrites
import PostCortex.Session.ContentLimits

/-!
# The update returned and the update stored

`add_context_update` hands back the update it was given, and the storage row
is written from that; the session keeps the update after its title and
description have been cut.  The two are the same update exactly when there was
nothing to cut.
-/

namespace PostCortex
namespace Session
namespace ActiveSession

open PostCortex.Core

/-- The text of the update that `add_context_update` is asked to add needs no
cut. -/
def InputKept (description : String) :
    Option (Except String ContextUpdate) -> Prop
  | none => DescriptionKept description
  | some (Except.ok update) => ContentKept update.content
  | some (Except.error _) => True

theorem stored_iff {session next : ActiveSession} {draws : Draws}
    {description : String} {metadata : Option (Except String ContextUpdate)}
    {update : ContextUpdate}
    (h : session.addContextUpdate draws description metadata =
      Except.ok (next, update)) :
    next.incrementalUpdates = session.incrementalUpdates ++ [update] ↔
      InputKept description metadata := by
  have hstored : forall u : ContextUpdate,
      (session.addIncrementalUpdateFast draws u).incrementalUpdates =
          session.incrementalUpdates ++ [u] ↔ ContentKept u.content := by
    intro u
    rw [incrementalUpdates_addIncrementalUpdateFast, ← limited_eq_iff]
    simp
  cases metadata with
  | none =>
      cases h
      rw [hstored]
      have htitle : "Incremental Update".utf8ByteSize ≤ 200 := by decide
      exact ⟨fun h => h.2, fun h => ⟨htitle, h⟩⟩
  | some parsed =>
      cases parsed with
      | error e => cases h
      | ok u =>
          cases h
          exact hstored _

end ActiveSession
end Session

namespace Memory

open PostCortex.Core
open PostCortex.Graph
open Session
open Cas

section

variable [CharTables] [UuidText] {κ : Type}

/-- The update in the answer of a swap is the one `add_context_update`
returned, and a merge of the graph leaves the list alone. -/
theorem added_update {sessionId : Uuid} {session next : ActiveSession}
    {draws : Draws × κ} {description : String}
    {metadata : Option (Except String ContextUpdate)} {mode : WriteMode}
    {updateId : String} {update : ContextUpdate}
    (h : (sessionLoop κ sessionId).attempt
        (Request.addIncrementalUpdate description metadata mode) draws session =
      Attempt.changed next (Answer.added updateId update)) :
    exists added, session.addContextUpdate draws.1
        (ActiveSession.limitedDescription description) metadata =
          Except.ok (added, update) ∧
      next.incrementalUpdates = added.incrementalUpdates := by
  simp only [sessionLoop, addIncrementalUpdateInternal] at h
  split at h
  · cases h
  · next added committed hadded =>
    cases h
    refine ⟨added, hadded, ?_⟩
    cases mode with
    | inlined | deferred waitDurable => rfl

/-- The update that is returned and written to the session's row is the one
the session keeps exactly when neither its title nor its description is cut,
for `add_context_update` and for the write path, which cuts a plain
description once before. -/
theorem returned_update_stored_iff (sessionId : Uuid) :
    (forall (session next : ActiveSession) (draws : Draws)
      (description : String) (metadata : Option (Except String ContextUpdate))
      (update : ContextUpdate),
      session.addContextUpdate draws description metadata =
          Except.ok (next, update) ->
        (next.incrementalUpdates = session.incrementalUpdates ++ [update] ↔
          ActiveSession.InputKept description metadata)) ∧
    forall (session next : ActiveSession) (draws : Draws × κ)
      (description : String) (metadata : Option (Except String ContextUpdate))
      (mode : WriteMode) (updateId : String) (update : ContextUpdate),
      (sessionLoop κ sessionId).attempt
          (Request.addIncrementalUpdate description metadata mode) draws
            session =
        Attempt.changed next (Answer.added updateId update) ->
        (next.incrementalUpdates = session.incrementalUpdates ++ [update] ↔
          ActiveSession.InputKept
            (ActiveSession.limitedDescription description) metadata) := by
  constructor
  · intro session next draws description metadata update h
    exact ActiveSession.stored_iff h
  · intro session next draws description metadata mode updateId update h
    obtain ⟨added, hadded, hnext⟩ := added_update h
    rw [hnext]
    exact ActiveSession.stored_iff hadded

end

attribute [local instance] EntityGraph.asciiTables hyphenatedText

def longTitled : ContextUpdate :=
  { ContextUpdate.plain 1 0 "short" with
    content :=
      { (ContextUpdate.plain 1 0 "short").content with
        title := String.ofList (List.replicate 201 'a') } }

theorem returned_update_stored_plain :
    ((ActiveSession.new 0 none none 0).addIncrementalUpdateFast ⟨1, 1, 2, 3⟩
        (ContextUpdate.plain 1 1 "short")).incrementalUpdates =
          [] ++ [ContextUpdate.plain 1 1 "short"] ∧
    exists next update, (sessionLoop Unit 0).attempt
        (Request.addIncrementalUpdate "short" none WriteMode.inlined)
        (⟨1, 1, 2, 3⟩, ()) (ActiveSession.new 0 none none 0) =
          Attempt.changed next (Answer.added (hyphenated 1) update) ∧
      next.incrementalUpdates = [] ++ [update] := by
  have hkept : ActiveSession.DescriptionKept "short" := Or.inl (by decide)
  have hlimited : ActiveSession.limitedDescription "short" = "short" :=
    (ActiveSession.limitedDescription_eq_iff _).mpr hkept
  refine ⟨?_, _, _, rfl, ?_⟩
  · exact ((returned_update_stored_iff (κ := Unit) 0).1
      (ActiveSession.new 0 none none 0) _ ⟨1, 1, 2, 3⟩ "short" none _ rfl).mpr
        hkept
  · refine ((returned_update_stored_iff (κ := Unit) 0).2
      (ActiveSession.new 0 none none 0) _ (⟨1, 1, 2, 3⟩, ()) "short" none
        WriteMode.inlined _ _ rfl).mpr ?_
    rw [hlimited]
    exact hkept

/-- A title of 201 bytes is returned whole and stored cut. -/
theorem long_title_returned_uncut :
    ¬ forall (session next : ActiveSession) (draws : Draws)
      (description : String) (metadata : Option (Except String ContextUpdate))
      (update : ContextUpdate),
      session.addContextUpdate draws description metadata =
          Except.ok (next, update) ->
        next.incrementalUpdates = session.incrementalUpdates ++ [update] := by
  intro h
  have hadded : (ActiveSession.new 0 none none 0).addContextUpdate ⟨1, 1, 2, 3⟩
      "" (some (Except.ok longTitled)) =
        Except.ok ((ActiveSession.new 0 none none 0).addIncrementalUpdateFast
          ⟨1, 1, 2, 3⟩ longTitled, longTitled) :=
    rfl
  have hkept := (ActiveSession.stored_iff hadded).mp (h _ _ _ _ _ _ hadded)
  have hlong : ¬ longTitled.content.title.utf8ByteSize ≤ 200 := by
    decide +kernel
  exact hlong hkept.1

end Memory
end PostCortex
