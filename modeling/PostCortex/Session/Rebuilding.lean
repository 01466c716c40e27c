import PostCortex.Graph.Rebuilding
import PostCortex.Session.Documents

/-!
# Rebuilding the graph of a session

`rebuild_entity_graph_sync` applies the remaining updates to an empty graph and
then repeats the explicit merges of the old one, pair by pair.  A merge does
nothing when one of its names is unknown, so two names stay together only when a
chain of merges joins them all of whose names the remaining updates have added.
-/

namespace PostCortex
namespace Session

open PostCortex.Core
open PostCortex.Graph
open PostCortex.Graph.EntityGraph
open Transition

section

variable [CharTables]

def Mentions (session : ActiveSession) (n : String) : Prop :=
  exists u, u ∈ session.incrementalUpdates ∧ n ∈ mentionedNames u

def remainingNames (session : ActiveSession) : List String :=
  session.incrementalUpdates.flatMap addedNames

/-- The remaining updates add both names, up to spelling, and a chain of explicit
merges joins them, each of two names that the remaining updates add. -/
def JoinedByMerges (session : ActiveSession) (n m : String) : Prop :=
  entityKey n ∈ (remainingNames session).map entityKey ∧
    entityKey m ∈ (remainingNames session).map entityKey ∧
    Relation.EqvGen
      (MergeStep (remainingNames session) session.entityGraph.explicitAliases)
      (entityKey n) (entityKey m)

/-- What a rebuild is meant to do: names of one entity that are still mentioned
stay names of one entity, and all of the new graph comes from the remaining
updates. -/
structure RebuiltRight (now : Timestamp) (session : ActiveSession) : Prop where
  merges : forall n m, session.entityGraph.Together n m ->
    Mentions session n -> Mentions session m ->
    (session.rebuildEntityGraphSync now).entityGraph.Together n m
  sourced : Sourced session.incrementalUpdates
    (session.rebuildEntityGraphSync now).entityGraph

def replayed (now : Timestamp) (session : ActiveSession) : EntityGraph :=
  session.incrementalUpdates.foldl (EntityGraph.applyUpdate now) EntityGraph.new

theorem replayed_restorable (now : Timestamp) (session : ActiveSession) :
    (replayed now session).Restorable :=
  List.foldlRecOn _ _ restorable_new (fun _ hg update _ => hg.applyUpdate now update)

theorem replayed_sourced (now : Timestamp) (session : ActiveSession) :
    Sourced session.incrementalUpdates (replayed now session) := by
  have hnew : Made session.incrementalUpdates EntityGraph.new :=
    ⟨resolving_new, indexed_new, sourced_new session.incrementalUpdates⟩
  exact (hnew.foldl (fun g u hu hg => hg.applyUpdate hu now)).sourced

theorem replayed_index (now : Timestamp) (session : ActiveSession) :
    (forall k, (replayed now session).aliasIndex k = none ↔
      k ∉ (remainingNames session).map entityKey) ∧
    forall k e, (replayed now session).aliasIndex k = some e -> entityKey e = k := by
  have hgrown := grown (session.incrementalUpdates.map (fun u => (now, u)))
  have hgraph : applyAll (session.incrementalUpdates.map (fun u => (now, u))) =
      replayed now session :=
    List.foldl_map
  have hnames : namesOf (session.incrementalUpdates.map (fun u => (now, u))) =
      remainingNames session :=
    List.flatMap_map _ _ _
  refine ⟨?_, ?_⟩
  · intro k
    rw [← hgraph, ← hnames]
    exact hgrown.unknown k
  · rw [← hgraph]
    exact hgrown.own

theorem rebuild_together (now : Timestamp) (session : ActiveSession) (n m : String) :
    (session.rebuildEntityGraphSync now).entityGraph.Together n m ↔
      JoinedByMerges session n m := by
  obtain ⟨hknown, hown⟩ := replayed_index now session
  exact together_mergeAll (replayed_restorable now session) hknown hown now
    session.entityGraph.explicitAliases n m

theorem rebuild_sourced (now : Timestamp) (session : ActiveSession) :
    Sourced session.incrementalUpdates
      (session.rebuildEntityGraphSync now).entityGraph :=
  (replayed_sourced now session).mergeAll (replayed_restorable now session) now
    session.entityGraph.explicitAliases

/-- A rebuild keeps what it is meant to keep exactly when merges between names that
are still added join the names that belong together. -/
theorem rebuild_right_iff (now : Timestamp) (session : ActiveSession) :
    RebuiltRight now session ↔
      forall n m, session.entityGraph.Together n m ->
        Mentions session n -> Mentions session m -> JoinedByMerges session n m := by
  constructor
  · intro h n m htogether hn hm
    exact (rebuild_together now session n m).mp (h.merges n m htogether hn hm)
  · intro h
    refine ⟨?_, rebuild_sourced now session⟩
    intro n m htogether hn hm
    exact (rebuild_together now session n m).mpr (h n m htogether hn hm)

end

section

attribute [local instance] EntityGraph.asciiTables

def addAndApply (update : ContextUpdate) : List SessionEvent :=
  [SessionEvent.addIncrementalUpdateFast ⟨5, update.id, 20, 30⟩ update,
    SessionEvent.applyEntityGraphUpdate 5 update]

/-- Two entities are merged into a third one, whose update is then removed. -/
theorem vanished_entity_parts_aliases :
    ¬ forall session : ActiveSession,
      (sessions 0 none none 0).Reachable FreshIds session ->
      forall now, RebuiltRight now session := by
  intro hall
  have hrun : ((sessions 0 none none 0).replay FreshIds
      (sessions 0 none none 0).init
      (addAndApply (creates 1 "PG") ++ addAndApply (creates 2 "Postgres") ++
        addAndApply (creates 3 "PostgreSQL") ++
        [SessionEvent.mergeEntities 6 "PG" "PostgreSQL",
          SessionEvent.mergeEntities 6 "Postgres" "PostgreSQL",
          SessionEvent.removeUpdateById 3])).any (fun session => decide (
            session.entityGraph.resolve "PG" = some "PostgreSQL" ∧
            session.entityGraph.resolve "Postgres" = some "PostgreSQL" ∧
            (session.incrementalUpdates.flatMap mentionedNames) = ["PG", "Postgres"] ∧
            (session.rebuildEntityGraphSync 7).entityGraph.resolve "PG" ≠
              (session.rebuildEntityGraphSync 7).entityGraph.resolve
                "Postgres")) = true := by
    decide +kernel
  obtain ⟨session, hsession, hend⟩ := (Option.any_eq_true _ _).mp hrun
  obtain ⟨hfirst, hsecond, hmentioned, hapart⟩ := of_decide_eq_true hend
  have hmentions : forall n, n ∈ ["PG", "Postgres"] -> Mentions session n := by
    intro n hn
    rw [← hmentioned] at hn
    exact List.mem_flatMap.mp hn
  have hright := hall session (System.Reachable.init.replay hsession) 7
  have htogether := hright.merges "PG" "Postgres"
    ⟨by rw [hfirst]; exact Option.some_ne_none _, hfirst.trans hsecond.symm⟩
    (hmentions _ List.mem_cons_self)
    (hmentions _ (List.mem_cons_of_mem _ List.mem_cons_self))
  exact hapart htogether.2

end

end Session
end PostCortex
