import Mathlib.Order.Lattice.Nat
import PostCortex.Embeddings.VectorDb
import PostCortex.Graph.GraphRanking
import PostCortex.KeyValue.StampedCache
import PostCortex.Session.ActiveSession
import PostCortex.Vectors.Forgetting

/-!
# The cached retrieval graph

`graph_candidates` of `memory_system/embeddings.rs` and the calls of `system.rs` that
change what its graph is built from, one after another on one session.  A state holds
the session, the vectors of the session by id, and the session's entry among the cached
graphs; what that graph was built from is remembered for the statements, not kept by the
program.
-/

namespace PostCortex
namespace Memory
namespace GraphCache

open PostCortex.Core
open PostCortex.Embeddings
open PostCortex.Graph
open PostCortex.Graph.Retrieval
open PostCortex.KeyValue
open PostCortex.Session
open PostCortex.Transition

/-- The metadata of a vector with its custom fields. -/
structure StoredMetadata extends VectorMetadata where
  metadata : Database String String

abbrev SessionVectors :=
  Database Nat StoredMetadata

/-- The orders in which the hash sets of texts and of vector ids are iterated. -/
structure Orders where
  texts : HashOrder String
  ids : HashOrder Nat

def termsKey : String :=
  "terms"

def entitiesKey : String :=
  "entities"

def chunkParentKey : String :=
  "parent"

def rerankPool : Nat :=
  300

def splitKeys (joined : String) : List String :=
  ((joined.toList.splitOn '\n').filter (fun k => k ≠ [])).map String.ofList

/-!
# Removing the vectors of a content
-/

def sourceContentIds (vectors : SessionVectors) (contentId : String) : List Nat :=
  (vectors.toList.filter (fun e => e.2.id = contentId)).map Prod.fst

def contentIds (vectors : SessionVectors) (contentId : String) : List String :=
  contentId :: (Vectors.chunksFrom
    (fun n => !(sourceContentIds vectors (Vectors.chunkId contentId n)).isEmpty)
    vectors.size 2).map (Vectors.chunkId contentId)

def removeVectors (vectors : SessionVectors) (ids : List Nat) : SessionVectors :=
  ids.foldl (fun vectors id => vectors.erase id) vectors

def removeContent (vectors : SessionVectors) (contentId : String) : SessionVectors :=
  (contentIds vectors contentId).foldl
    (fun vectors id => removeVectors vectors (sourceContentIds vectors id)) vectors

section

variable [TermTables]

def graphRecord (m : StoredMetadata) : Option (GraphRecord String) :=
  if m.contentType ≠ entityDescription ∧ m.contentType ≠ messageContentType ∧
      m.metadata[chunkParentKey]? = none then
    some
      { id := m.id
        terms :=
          match m.metadata[termsKey]? with
          | some joined => (splitKeys joined).toFinset
          | none => terms m.text
        entities :=
          match m.metadata[entitiesKey]? with
          | some joined => splitKeys joined
          | none => [] }
  else none

def graphRecords (order : Orders) (vectors : SessionVectors) :
    List (GraphRecord String) :=
  ((order.ids.iter vectors.keys.toFinset).filterMap (fun id => vectors[id]?)).filterMap
    graphRecord

/-!
# The session and its cached graph
-/

/-- What a graph is built from, and the counts it is kept with. -/
structure Content where
  records : List (GraphRecord String)
  relations : List EntityRelationship
  vectorCount : Nat
  edgeCount : Nat

def counts (c : Content) : Nat × Nat :=
  (c.vectorCount, c.edgeCount)

def buildFrom (order : Orders) (c : Content) : RetrievalGraph String :=
  build order.texts c.records c.relations

structure State where
  session : ActiveSession
  vectors : SessionVectors
  cached : Option (Stamped (Nat × Nat) (RetrievalGraph String))
  builtFrom : Option Content

namespace State

def content (order : Orders) (s : State) : Content where
  records := graphRecords order s.vectors
  relations := s.session.entityGraph.relations
  vectorCount := s.vectors.size
  edgeCount := s.session.entityGraph.graph.edges.length

def currentGraph (order : Orders) (s : State) : RetrievalGraph String :=
  buildFrom order (s.content order)

def servedGraph (order : Orders) (s : State) : RetrievalGraph String :=
  (serve counts (buildFrom order) (s.content order) s.cached).1

/-- What `graph_candidates` leaves. -/
def afterSearch (order : Orders) (s : State) : State :=
  { s with
    cached := (serve counts (buildFrom order) (s.content order) s.cached).2
    builtFrom := sourceAfter counts (s.content order) s.builtFrom s.cached }

def graphCandidates (order : Orders) (s : State) (query : String) : List String :=
  (s.servedGraph order).rank order.texts query rerankPool

variable [UuidText]

def deleteUpdate (s : State) (id : Uuid) : State :=
  match s.session.removeUpdateById id with
  | none => s
  | some session =>
      { s with
        session := session
        vectors := removeContent s.vectors (UuidText.toText id) }

def purgeUpdate (s : State) (now : Timestamp) (id : Uuid) : State :=
  match s.session.removeUpdateById id with
  | none => s
  | some session =>
      { session := session.rebuildEntityGraphSync now
        vectors := removeContent s.vectors (UuidText.toText id)
        cached := none
        builtFrom := none }

end State

inductive Action where
  | addVectors (items : List (Nat × StoredMetadata))
  | removeVectors (ids : List Nat)
  | relate (entityGraph : EntityGraph)
  | deleteUpdate (id : Uuid)
  | purgeUpdate (now : Timestamp) (id : Uuid)
  | search (query : String)

def Action.apply [UuidText] (order : Orders) (s : State) : Action -> State
  | addVectors items =>
      { s with vectors := items.foldl (fun vectors e => vectors.insert e.1 e.2) s.vectors }
  | removeVectors ids => { s with vectors := GraphCache.removeVectors s.vectors ids }
  | relate entityGraph => { s with session := { s.session with entityGraph := entityGraph } }
  | deleteUpdate id => s.deleteUpdate id
  | purgeUpdate now id => s.purgeUpdate now id
  | search _ => s.afterSearch order

def graphCache [UuidText] (order : Orders) (session : ActiveSession)
    (vectors : SessionVectors) : System State Action where
  init := ⟨session, vectors, none, none⟩
  step := fun s a => some (a.apply order s)

end

/-!
# What an operation changes
-/

section

def State.ids (s : State) : Finset Nat :=
  s.vectors.keys.toFinset

def contentVectors (vectors : SessionVectors) (contentId : String) : List Nat :=
  (contentIds vectors contentId).flatMap (sourceContentIds vectors)

/-- The vectors before the operation, with those that it adds or without those that
it takes out. -/
def Action.ids [UuidText] (s : State) : Action -> Finset Nat
  | addVectors items => s.ids ∪ (items.map Prod.fst).toFinset
  | removeVectors ids => s.ids \ ids.toFinset
  | deleteUpdate id =>
      if (s.session.findUpdate id).isSome then
        s.ids \ (contentVectors s.vectors (UuidText.toText id)).toFinset
      else s.ids
  | _ => s.ids

def Action.edges (s : State) : Action -> Nat
  | relate entityGraph => entityGraph.graph.edges.length
  | _ => s.session.entityGraph.graph.edges.length

/-- The operation leaves all vectors and relations as they are. -/
def Action.Idle [UuidText] (s : State) : Action -> Prop
  | addVectors items => items.isEmpty = true
  | removeVectors ids => (removeVectors ids).ids s = s.ids
  | relate entityGraph =>
      entityGraph.relations = s.session.entityGraph.relations ∧
        entityGraph.graph.edges.length = s.session.entityGraph.graph.edges.length
  | deleteUpdate id => (deleteUpdate id).ids s = s.ids
  | purgeUpdate _ _ => True
  | search _ => True

/-- While a graph is cached, nothing is added, taken out or related anew that brings
the counts to those the graph is kept with. -/
def Steady [UuidText] (s : State) (a : Action) : Prop :=
  forall e, e ∈ s.cached -> e.stamp = ((a.ids s).card, a.edges s) -> a.Idle s

instance [UuidText] (s : State) : (a : Action) -> Decidable (a.Idle s)
  | Action.addVectors _ => inferInstanceAs (Decidable (_ = true))
  | Action.removeVectors _ => inferInstanceAs (Decidable (_ = _))
  | Action.relate _ => inferInstanceAs (Decidable (_ ∧ _))
  | Action.deleteUpdate _ => inferInstanceAs (Decidable (_ = _))
  | Action.purgeUpdate _ _ => isTrue True.intro
  | Action.search _ => isTrue True.intro

instance [UuidText] (s : State) (a : Action) : Decidable (Steady s a) :=
  inferInstanceAs (Decidable (forall e, e ∈ s.cached -> _))

variable {vectors : SessionVectors} {k : Nat}

theorem mem_ids {s : State} : k ∈ s.ids ↔ k ∈ s.vectors := by
  rw [State.ids, List.mem_toFinset, Std.ExtTreeMap.mem_keys]

theorem card_ids (s : State) : s.vectors.size = s.ids.card := by
  rw [State.ids, List.toFinset_card_of_nodup Std.ExtTreeMap.nodup_keys,
    Std.ExtTreeMap.length_keys]

theorem mem_insertAll (items : List (Nat × StoredMetadata)) :
    k ∈ items.foldl (fun vectors e => vectors.insert e.1 e.2) vectors ↔
      k ∈ vectors ∨ k ∈ items.map Prod.fst := by
  induction items generalizing vectors with
  | nil => simp
  | cons e rest ih =>
      rw [List.foldl_cons, ih, Std.ExtTreeMap.mem_insert, compare_eq_iff_eq,
        List.map_cons, List.mem_cons]
      tauto

theorem get_removeVectors (ids : List Nat) :
    (removeVectors vectors ids)[k]? = if k ∈ ids then none else vectors[k]? := by
  induction ids generalizing vectors with
  | nil => simp [removeVectors]
  | cons id rest ih =>
      rw [removeVectors, List.foldl_cons]
      refine ih.trans ?_
      simp only [Std.ExtTreeMap.getElem?_erase, compare_eq_iff_eq, List.mem_cons]
      grind

theorem mem_removeVectors (ids : List Nat) :
    k ∈ removeVectors vectors ids ↔ k ∈ vectors ∧ k ∉ ids := by
  rw [Std.ExtTreeMap.mem_iff_isSome_getElem?, Std.ExtTreeMap.mem_iff_isSome_getElem?,
    get_removeVectors]
  split <;> simp [*]

theorem removeVectors_idle {ids : List Nat} {s : State}
    (hidle : s.ids \ ids.toFinset = s.ids) :
    removeVectors s.vectors ids = s.vectors := by
  apply Std.ExtTreeMap.ext_getElem?
  intro k
  rw [get_removeVectors]
  split
  · next hk =>
    symm
    refine Std.ExtTreeMap.getElem?_eq_none ?_
    rw [← mem_ids, ← hidle, Finset.mem_sdiff,
      List.mem_toFinset]
    exact fun h => h.2 hk
  · rfl

theorem mem_sourceContentIds {contentId : String} :
    k ∈ sourceContentIds vectors contentId ↔
      exists m, vectors[k]? = some m ∧ m.id = contentId := by
  simp only [sourceContentIds, List.mem_map, List.mem_filter, decide_eq_true_eq,
    Prod.exists, Std.ExtTreeMap.mem_toList_iff_getElem?_eq_some]
  constructor
  · rintro ⟨j, m, ⟨hm, hid⟩, rfl⟩
    exact ⟨m, hm, hid⟩
  · rintro ⟨m, hm, hid⟩
    exact ⟨k, m, ⟨hm, hid⟩, rfl⟩

theorem get_removeContents (contents : List String) :
    (contents.foldl
        (fun vectors id => removeVectors vectors (sourceContentIds vectors id))
        vectors)[k]? =
      vectors[k]?.filter (fun m => m.id ∉ contents) := by
  induction contents generalizing vectors with
  | nil =>
      cases hk : vectors[k]? with
      | none => simp [hk]
      | some m => simp [hk, Option.filter_some]
  | cons id rest ih =>
      have hone : (removeVectors vectors (sourceContentIds vectors id))[k]? =
          vectors[k]?.filter (fun m => m.id ≠ id) := by
        rw [get_removeVectors]
        cases hk : vectors[k]? with
        | none => simp
        | some m => simp [mem_sourceContentIds, hk, Option.filter_some]
      rw [List.foldl_cons, ih, hone, Option.filter_filter]
      congr 1
      funext m
      grind

theorem mem_contentVectors {contentId : String} :
    k ∈ contentVectors vectors contentId ↔
      exists m, vectors[k]? = some m ∧ m.id ∈ contentIds vectors contentId := by
  simp only [contentVectors, List.mem_flatMap, mem_sourceContentIds]
  constructor
  · rintro ⟨id, hid, m, hm, rfl⟩
    exact ⟨m, hm, hid⟩
  · rintro ⟨m, hm, hid⟩
    exact ⟨m.id, hid, m, hm, rfl⟩

theorem get_removeContent (contentId : String) :
    (removeContent vectors contentId)[k]? =
      vectors[k]?.filter (fun m => m.id ∉ contentIds vectors contentId) :=
  get_removeContents _

theorem mem_removeContent {contentId : String} :
    k ∈ removeContent vectors contentId ↔
      k ∈ vectors ∧ k ∉ contentVectors vectors contentId := by
  rw [mem_contentVectors, Std.ExtTreeMap.mem_iff_isSome_getElem?,
    Std.ExtTreeMap.mem_iff_isSome_getElem?, get_removeContent]
  cases vectors[k]? with
  | none => simp
  | some m => simp [Option.filter_some]

theorem removeContent_idle {s : State} {contentId : String}
    (hidle : s.ids \ (contentVectors s.vectors contentId).toFinset = s.ids) :
    removeContent s.vectors contentId = s.vectors := by
  apply Std.ExtTreeMap.ext_getElem?
  intro k
  rw [get_removeContent]
  cases hk : s.vectors[k]? with
  | none => rfl
  | some m =>
      rw [Option.filter_some, if_pos]
      rw [decide_eq_true_iff]
      intro hmem
      have hin : k ∈ s.ids := by
        rw [mem_ids, Std.ExtTreeMap.mem_iff_isSome_getElem?, hk]
        rfl
      rw [← hidle, Finset.mem_sdiff, List.mem_toFinset] at hin
      exact hin.2 (mem_contentVectors.mpr ⟨m, hk, hmem⟩)

theorem relations_removeMentions (g : EntityGraph) (id : Uuid) :
    (ActiveSession.removeMentions g id).relations = g.relations ∧
      (ActiveSession.removeMentions g id).graph = g.graph := by
  unfold ActiveSession.removeMentions
  split
  · exact ⟨rfl, rfl⟩
  · exact ⟨rfl, rfl⟩

variable [UuidText] {s : State} {a : Action}

/-- The state after an operation that keeps the cached graph: the counts are those
foretold, and the content is the same after an idle one. -/
structure Foretold (s : State) (a : Action) (after : State) : Prop where
  cached : after.cached = s.cached
  builtFrom : after.builtFrom = s.builtFrom
  ids : after.ids = a.ids s
  edges : after.session.entityGraph.graph.edges.length = a.edges s
  idle : a.Idle s -> after.vectors = s.vectors ∧
    after.session.entityGraph.relations = s.session.entityGraph.relations ∧
    a.edges s = s.session.entityGraph.graph.edges.length

theorem foretold_deleteUpdate (s : State) (id : Uuid) :
    Foretold s (Action.deleteUpdate id) (s.deleteUpdate id) := by
  cases hfound : s.session.findUpdate id with
  | none =>
      have hnone : s.session.removeUpdateById id = none := by
        rw [ActiveSession.removeUpdateById, hfound]
      have hsame : s.deleteUpdate id = s := by
        rw [State.deleteUpdate, hnone]
      rw [hsame]
      exact ⟨rfl, rfl, by simp [Action.ids, hfound], rfl, fun _ => ⟨rfl, rfl, rfl⟩⟩
  | some removed =>
      have hids : (Action.deleteUpdate id).ids s =
          s.ids \ (contentVectors s.vectors (UuidText.toText id)).toFinset := by
        simp [Action.ids, hfound]
      have hafter : s.deleteUpdate id =
          { s with
            session := s.session.without id removed
            vectors := removeContent s.vectors (UuidText.toText id) } := by
        rw [State.deleteUpdate, ActiveSession.removeUpdateById_found hfound]
      have hgraph := relations_removeMentions s.session.entityGraph id
      rw [hafter]
      refine ⟨rfl, rfl, ?_, congrArg (fun g => g.edges.length) hgraph.2, ?_⟩
      · rw [hids]
        ext k
        rw [Finset.mem_sdiff, mem_ids, mem_ids, List.mem_toFinset]
        exact mem_removeContent
      · intro hidle
        exact ⟨removeContent_idle (hids.symm.trans hidle), hgraph.1, rfl⟩

end

section

variable [TermTables]

/-!
# Freshness
-/

def Kept (order : Orders) (s : State) : Prop :=
  MadeFrom (buildFrom order) s.builtFrom s.cached

theorem Kept.apply [UuidText] {order : Orders} {s : State} (h : Kept order s)
    (a : Action) : Kept order (a.apply order s) := by
  cases a with
  | addVectors items | removeVectors ids | relate entityGraph =>
      exact h
  | deleteUpdate id =>
      unfold Action.apply State.deleteUpdate
      dsimp only
      split
      · exact h
      · exact h
  | purgeUpdate now id =>
      unfold Action.apply State.purgeUpdate
      dsimp only
      split
      · exact h
      · intro e he
        cases he
  | search query => exact MadeFrom.serve h

theorem kept_of_reachable [UuidText] {order : Orders} {session : ActiveSession}
    {vectors : SessionVectors} {allowed : State -> Action -> Prop} {s : State}
    (h : System.Reachable (graphCache order session vectors) allowed s) :
    Kept order s := by
  refine h.invariant ?_ ?_
  · intro e he
    cases he
  · intro s a s' hkept _ hstep
    cases hstep
    exact hkept.apply a

theorem Foretold.tells [UuidText] {order : Orders} {s after : State} {a : Action}
    (h : Foretold s a after) (hsteady : Steady s a)
    (htells : Tells counts (s.content order) s.builtFrom s.cached) :
    Tells counts (after.content order) after.builtFrom after.cached := by
  rw [h.cached, h.builtFrom]
  refine htells.moved ?_
  intro e he hstamp
  have hcounts : counts (after.content order) = ((a.ids s).card, a.edges s) := by
    rw [← h.ids, ← h.edges, ← card_ids]
    rfl
  obtain ⟨hvectors, hrelations, hedges⟩ := h.idle (hsteady e he (hstamp.trans hcounts))
  unfold State.content
  rw [hvectors, hrelations, h.edges, hedges]

theorem steady_step [UuidText] {order : Orders} {s : State} (a : Action)
    (h : Tells counts (s.content order) s.builtFrom s.cached) (hsteady : Steady s a) :
    Tells counts ((a.apply order s).content order) (a.apply order s).builtFrom
      (a.apply order s).cached := by
  cases a with
  | addVectors items =>
      refine Foretold.tells (s := s) (a := Action.addVectors items)
        ⟨rfl, rfl, ?_, rfl, ?_⟩ hsteady h
      · ext k
        simp only [Action.ids, Finset.mem_union, mem_ids, List.mem_toFinset]
        exact mem_insertAll items
      · intro hidle
        have hnil : items = [] := List.isEmpty_iff.mp hidle
        subst hnil
        exact ⟨rfl, rfl, rfl⟩
  | removeVectors ids =>
      refine Foretold.tells (s := s) (a := Action.removeVectors ids)
        ⟨rfl, rfl, ?_, rfl, ?_⟩ hsteady h
      · ext k
        rw [mem_ids, Action.ids, Finset.mem_sdiff, mem_ids, List.mem_toFinset]
        exact mem_removeVectors ids
      · intro hidle
        exact ⟨removeVectors_idle hidle, rfl, rfl⟩
  | relate entityGraph =>
      exact Foretold.tells (s := s) (a := Action.relate entityGraph)
        ⟨rfl, rfl, rfl, rfl, fun hidle => ⟨rfl, hidle⟩⟩ hsteady h
  | deleteUpdate id => exact (foretold_deleteUpdate s id).tells hsteady h
  | purgeUpdate now id =>
      unfold Action.apply State.purgeUpdate
      dsimp only
      split
      · exact h
      · intro e he
        cases he
  | search query => exact h.serve

/-- As long as the counts do not come back to those of the cached graph, a search
ranks with the graph of the vectors and relations at hand. -/
theorem served_current [UuidText] {order : Orders} {session : ActiveSession}
    {vectors : SessionVectors} {s : State}
    (h : System.Reachable (graphCache order session vectors) Steady s) :
    s.servedGraph order = s.currentGraph order ∧
      forall query, s.graphCandidates order query =
        (s.currentGraph order).rank order.texts query rerankPool := by
  have htells : Tells counts (s.content order) s.builtFrom s.cached := by
    refine h.invariant (P := fun s => Tells counts (s.content order) s.builtFrom s.cached)
      ?_ ?_
    · intro e he
      cases he
    · intro s a s' hs hsteady hstep
      cases hstep
      exact steady_step a hs hsteady
  have hserved := serve_eq_iff.mpr ((kept_of_reachable h).fresh htells)
  exact ⟨hserved, fun query => congrArg (fun g => g.rank order.texts query rerankPool)
    hserved⟩

end

section

attribute [local instance] asciiTerms hyphenatedText

def storedUpdate (id : Uuid) (text : String) : StoredMetadata where
  id := UuidText.toText id
  text := text
  source := UuidText.toText 7
  contentType := "UpdateContent"
  metadata := ∅

def twoRecords : ActiveSession :=
  { ActiveSession.new 7 none none 0 with
    incrementalUpdates :=
      [ContextUpdate.plain 1 10 "first", ContextUpdate.plain 2 20 "second"] }

def twoVectors : SessionVectors :=
  Std.ExtTreeMap.ofList [(0, storedUpdate 1 "first"), (1, storedUpdate 2 "second")]

def countingOrder : HashOrder Nat where
  iter := fun s => (List.range (s.sup id + 1)).filter (fun k => k ∈ s)
  nodup := fun _ => List.nodup_range.filter _
  mem := by
    intro s k
    rw [List.mem_filter, List.mem_range, decide_eq_true_iff]
    refine ⟨And.right, fun hk => ⟨?_, hk⟩⟩
    exact Nat.lt_succ_of_le (@Finset.le_sup _ _ _ _ s id k hk)

def plainOrders : Orders :=
  ⟨sortedOrder, countingOrder⟩

def cachedState : State :=
  State.afterSearch plainOrders ⟨twoRecords, twoVectors, none, none⟩

/-- A search, a third record, a search and a deletion: only the searches keep a
graph with the counts at hand. -/
def countedRun : List Action :=
  [Action.search "first", Action.addVectors [(2, storedUpdate 3 "third")],
    Action.search "third", Action.deleteUpdate 1]

theorem added_update_served :
    exists s, System.Reachable (graphCache plainOrders twoRecords twoVectors) Steady s ∧
      (s.cached.map Stamped.stamp) = some (3, 0) ∧
      (s.currentGraph plainOrders).records = [UuidText.toText 2, UuidText.toText 3] ∧
      s.servedGraph plainOrders = s.currentGraph plainOrders ∧
      forall query, s.graphCandidates plainOrders query =
        (s.currentGraph plainOrders).rank plainOrders.texts query rerankPool := by
  obtain ⟨s, -, hreach, hstamp, hrecords⟩ :=
    (graphCache plainOrders twoRecords twoVectors).replay_reaches Steady countedRun
      (fun s => s.cached.map Stamped.stamp = some (3, 0) ∧
        (s.currentGraph plainOrders).records = [UuidText.toText 2, UuidText.toText 3])
      (by decide +kernel)
  exact ⟨s, hreach, hstamp, hrecords, served_current hreach⟩

def replacedState : State :=
  (Action.addVectors [(2, storedUpdate 3 "third")]).apply plainOrders
    (State.deleteUpdate cachedState 1)

theorem deleted_update_served :
    System.Reachable (graphCache plainOrders twoRecords twoVectors) System.Anything
      replacedState ∧
    (replacedState.servedGraph plainOrders).records =
      [UuidText.toText 1, UuidText.toText 2] ∧
    (replacedState.currentGraph plainOrders).records =
      [UuidText.toText 2, UuidText.toText 3] ∧
    replacedState.servedGraph plainOrders ≠ replacedState.currentGraph plainOrders := by
  have hserved : (replacedState.servedGraph plainOrders).records =
      [UuidText.toText 1, UuidText.toText 2] := by decide +kernel
  have hcurrent : (replacedState.currentGraph plainOrders).records =
      [UuidText.toText 2, UuidText.toText 3] := by decide +kernel
  refine ⟨?_, hserved, hcurrent, ?_⟩
  · refine System.Reachable.step (a := Action.addVectors [(2, storedUpdate 3 "third")])
      (System.Reachable.step (a := Action.deleteUpdate 1)
        (System.Reachable.step (a := Action.search "first") System.Reachable.init
          True.intro rfl) True.intro rfl) True.intro rfl
  · intro heq
    rw [heq, hcurrent] at hserved
    exact absurd hserved (by decide +kernel)

end

end GraphCache
end Memory
end PostCortex
