import Mathlib.Data.Finset.Sort
import Mathlib.Data.String.Basic
import PostCortex.Core.MessageIds
import PostCortex.Graph.Importance
import PostCortex.Graph.Temporal
import PostCortex.Numeric.RestartedWalk
import PostCortex.Parsing.Numerals
import PostCortex.Search.BreadthFirst

/-!
# The retrieval graph

`graph/retrieval_graph.rs`: records are joined to the terms of their text and to their
entities, and the entities to each other.  Floats are exact rationals.  The key at a
position of `keys` is the node of that position after the records.
-/

namespace PostCortex
namespace Graph
namespace Retrieval

open PostCortex.Core
open PostCortex.KeyValue
open PostCortex.KeyValue.Database
open PostCortex.Numeric
open PostCortex.Parsing
open PostCortex.Search

class TermTables extends WordTables where
  isUppercase : Char -> Bool
  stem : String -> String

/-- A colon is no letter, and neither lower case nor stemming brings one in. -/
class LawfulTermTables [TermTables] : Prop where
  colon : WordTables.isAlphanumeric ':' = false
  lowercase : forall s, ':' ∈ (CharTables.lowercase s).toList -> ':' ∈ s.toList
  stem : forall s, ':' ∈ (TermTables.stem s).toList -> ':' ∈ s.toList

/-- The order in which a hash set is iterated. -/
structure HashOrder (item : Type) where
  iter : Finset item -> List item
  nodup : forall s, (iter s).Nodup
  mem : forall s k, k ∈ iter s ↔ k ∈ s

def maxDfShare : Rat :=
  1 / 20

def damping : Rat :=
  1 / 2

def iterations : Nat :=
  30

/-!
# Terms
-/

section

variable [TermTables]

def termWords (text : String) : List (List Char) :=
  ((text.toList.splitOnP
    (fun c => !(WordTables.isAlphanumeric c || c == '\''))).map
      (trimBy (fun c => c == '\''))).filter (fun w => w ≠ [])

/-- The capitalised words at hand, and the names found. -/
structure NameRun where
  run : List (List Char)
  out : Finset String

namespace NameRun

def close (s : NameRun) : NameRun :=
  if s.run = [] then s
  else
    let name := CharTables.lowercase (String.ofList (List.intercalate [' '] s.run))
    ⟨[], if 2 < name.length then insert name s.out else s.out⟩

def step (s : NameRun) (w : List Char) : NameRun :=
  if w.head?.any TermTables.isUppercase then ⟨s.run ++ [w], s.out⟩ else s.close

end NameRun

def addWord (out : Finset String) (w : List Char) : Finset String :=
  let lower := CharTables.lowercase (String.ofList w)
  if 2 < lower.length then insert (TermTables.stem lower) out else out

def terms (text : String) : Finset String :=
  let words := termWords text
  words.foldl addWord ((words.foldl NameRun.step ⟨[], ∅⟩).close).out

/-!
# Building the graph
-/

structure GraphRecord (R : Type) where
  id : R
  terms : Finset String
  entities : List String

structure RetrievalGraph (R : Type) where
  records : List R
  keys : List String
  edges : Adjacency
  df : List Rat

def entityKey (name : String) : String :=
  "entity:" ++ CharTables.lowercase name

variable {R : Type}

def keysOf (record : GraphRecord R) : Finset String :=
  record.terms ∪ (record.entities.map entityKey).toFinset

end

section

variable {R : Type}

namespace RetrievalGraph

def node (g : RetrievalGraph R) (k : String) : Option Nat :=
  (g.keys.idxOf? k).map (fun i => g.records.length + i)

def size (g : RetrievalGraph R) : Nat :=
  g.records.length + g.keys.length

def strength (g : RetrievalGraph R) (node : Nat) : Rat :=
  ((g.edges node).map Prod.snd).sum

end RetrievalGraph

def countKeys (order : HashOrder String) (keysPerRecord : List (Finset String)) :
    Database String Nat :=
  (keysPerRecord.flatMap order.iter).foldl (fun count k => count.accumulate k 1) ∅

def maxDf (n : Nat) : Nat :=
  max (maxDfShare * (n : Rat)).floor.toNat 2

def keptKeys (order : HashOrder String) (keysPerRecord : List (Finset String)) :
    List (String × Nat) :=
  (countKeys order keysPerRecord).toList.filter
    (fun e => e.2 ≤ maxDf keysPerRecord.length)

def recordPairs (order : HashOrder String) (node : String -> Option Nat)
    (keysPerRecord : List (Finset String)) : List ((Nat × Nat) × Rat) :=
  keysPerRecord.zipIdx.flatMap (fun x =>
    (order.iter x.1).filterMap (fun k => (node k).map (fun i => ((x.2, i), 1))))

end

section

variable [TermTables] {R : Type}

def relationPairs (node : String -> Option Nat) (relations : List EntityRelationship) :
    List ((Nat × Nat) × Rat) :=
  relations.filterMap (fun rel =>
    match node (entityKey rel.fromEntity), node (entityKey rel.toEntity) with
    | some a, some b =>
        if a ≠ b then some ((a, b), relationWeight rel.relationType) else none
    | _, _ => none)

def build (order : HashOrder String) (records : List (GraphRecord R))
    (relations : List EntityRelationship) : RetrievalGraph R :=
  let keysPerRecord := records.map keysOf
  let kept := keptKeys order keysPerRecord
  let g : RetrievalGraph R :=
    { records := records.map GraphRecord.id
      keys := kept.map Prod.fst
      edges := fun _ => []
      df := kept.map (fun e => (e.2 : Rat)) }
  { g with
    edges := (recordPairs order g.node keysPerRecord ++
      relationPairs g.node relations).foldl Adjacency.link (fun _ => []) }

/-!
# Ranking
-/

namespace RetrievalGraph

variable (g : RetrievalGraph R) (order : HashOrder String) (query : String)

def entitySeed (k : String) : Option Nat :=
  match stripPrefix "entity:".toList k.toList with
  | some name =>
      if name ≠ [] ∧ name <:+: (CharTables.lowercase query).toList then g.node k
      else none
  | none => none

def seedNodes : List Nat :=
  (order.iter (terms query)).filterMap g.node ++ g.keys.filterMap (g.entitySeed query)

def dfAt (node : Nat) : Rat :=
  g.df.getD (node - g.records.length) 0

def seedWeight : Nat -> Rat :=
  (g.seedNodes order query).foldl
    (fun seed node => Function.update seed node (1 / g.dfAt node)) (fun _ => 0)

def seedTotal : Rat :=
  ∑ i ∈ Finset.range g.size, g.seedWeight order query i

def seed (node : Nat) : Rat :=
  g.seedWeight order query node / g.seedTotal order query

def shareFrom (rank next : Nat -> Rat) (node : Nat) : Nat -> Rat :=
  if g.edges node = [] then next
  else
    let share := damping * rank node / g.strength node
    (g.edges node).foldl
      (fun next e => Function.update next e.1 (next e.1 + share * e.2)) next

def nextRank (seed rank : Nat -> Rat) : Nat -> Rat :=
  (List.range g.size).foldl (g.shareFrom rank) (fun j => (1 - damping) * seed j)

def ranks (seed : Nat -> Rat) : Nat -> Nat -> Rat
  | 0 => seed
  | k + 1 => g.nextRank seed (ranks seed k)

def ordered (rank : Nat -> Rat) : List Nat :=
  ((List.range g.records.length).filter (fun r => 0 < rank r)).mergeSort
    (fun a b => rank b ≤ rank a)

def rank (limit : Nat) : List R :=
  if g.seedTotal order query = 0 then []
  else
    ((g.ordered (g.ranks (g.seed order query) iterations)).take limit).filterMap
      (fun r => g.records[r]?)

end RetrievalGraph

end

/-!
# Terms hold no colon
-/

variable {cs : List Char} {c : Char}

theorem of_mem_splitOnP {p : Char -> Bool} {w : List Char} (hw : w ∈ cs.splitOnP p)
    (hc : c ∈ w) : p c = false := by
  induction cs generalizing w with
  | nil =>
      rw [List.splitOnP_nil, List.mem_singleton] at hw
      rw [hw] at hc
      cases hc
  | cons x rest ih =>
      rw [List.splitOnP_cons_eq_if_modifyHead] at hw
      split at hw
      · rcases List.mem_cons.mp hw with rfl | hw
        · cases hc
        · exact ih hw hc
      · next hx =>
        cases hsplit : rest.splitOnP p with
        | nil => exact absurd hsplit (List.splitOnP_ne_nil p rest)
        | cons first others =>
            rw [hsplit, List.modifyHead_cons] at hw
            rcases List.mem_cons.mp hw with rfl | hw
            · rcases List.mem_cons.mp hc with rfl | hc
              · exact Bool.eq_false_iff.mpr hx
              · exact ih (hsplit ▸ List.mem_cons_self) hc
            · exact ih (hsplit ▸ List.mem_cons_of_mem _ hw) hc

theorem of_mem_trimBy {space : Char -> Bool} (hc : c ∈ trimBy space cs) : c ∈ cs := by
  obtain ⟨before, after, hsplit, _, _⟩ := @trimBy_split space cs
  rw [hsplit]
  exact List.mem_append_left _ (List.mem_append_right _ hc)

theorem mem_intercalate {sep : List Char} {parts : List (List Char)}
    (hc : c ∈ List.intercalate sep parts) :
    c ∈ sep ∨ exists w, w ∈ parts ∧ c ∈ w := by
  induction parts with
  | nil => cases hc
  | cons first rest ih =>
      cases rest with
      | nil =>
          rw [List.intercalate_singleton] at hc
          exact Or.inr ⟨first, List.mem_cons_self, hc⟩
      | cons second rest =>
          rw [List.intercalate_cons_cons, List.append_assoc, List.mem_append,
            List.mem_append] at hc
          rcases hc with hc | hc | hc
          · exact Or.inr ⟨first, List.mem_cons_self, hc⟩
          · exact Or.inl hc
          · refine (ih hc).imp id ?_
            rintro ⟨w, hw, hc⟩
            exact ⟨w, List.mem_cons_of_mem _ hw, hc⟩

section

variable [TermTables] [LawfulTermTables]

variable {text : String}

theorem colon_not_mem_word {w : List Char} (hw : w ∈ termWords text) :
    ':' ∉ w := by
  intro hc
  obtain ⟨piece, hpiece, rfl⟩ := List.mem_map.mp (List.mem_filter.mp hw).1
  have hnone := of_mem_splitOnP hpiece (of_mem_trimBy hc)
  rw [LawfulTermTables.colon] at hnone
  cases hnone

theorem colon_not_mem_lowercase {cs : List Char} (h : ':' ∉ cs) :
    ':' ∉ (CharTables.lowercase (String.ofList cs)).toList := by
  intro hc
  have hmem := LawfulTermTables.lowercase _ hc
  rw [String.toList_ofList] at hmem
  exact h hmem

/-- No word of the run and no name found has a colon. -/
structure NameRun.Plain (s : NameRun) : Prop where
  run : forall w, w ∈ s.run -> ':' ∉ w
  out : forall t, t ∈ s.out -> ':' ∉ t.toList

theorem NameRun.Plain.close {s : NameRun} (h : s.Plain) : s.close.Plain := by
  unfold NameRun.close
  split
  · exact h
  · refine ⟨fun w hw => ?_, fun t ht => ?_⟩
    · cases hw
    · have hname : ':' ∉ List.intercalate [' '] s.run := by
        intro hc
        rcases mem_intercalate hc with hspace | ⟨w, hw, hc⟩
        · exact absurd hspace (by decide)
        · exact h.run w hw hc
      dsimp only at ht
      split at ht
      · rcases Finset.mem_insert.mp ht with rfl | ht
        · exact colon_not_mem_lowercase hname
        · exact h.out t ht
      · exact h.out t ht

variable {words : List (List Char)}

theorem NameRun.Plain.foldl (hwords : forall w, w ∈ words -> ':' ∉ w) {s : NameRun}
    (h : s.Plain) :
    (words.foldl NameRun.step s).Plain := by
  induction words generalizing s with
  | nil => exact h
  | cons w rest ih =>
      refine ih (fun w' hw' => hwords w' (List.mem_cons_of_mem _ hw')) ?_
      unfold NameRun.step
      split
      · refine ⟨fun w' hw' => ?_, h.out⟩
        rcases List.mem_append.mp hw' with hw' | hw'
        · exact h.run w' hw'
        · rw [List.mem_singleton.mp hw']
          exact hwords w List.mem_cons_self
      · exact h.close

theorem colon_not_mem_foldl_addWord (hwords : forall w, w ∈ words -> ':' ∉ w)
    {out : Finset String} (hout : forall t, t ∈ out -> ':' ∉ t.toList) :
    forall t, t ∈ words.foldl addWord out -> ':' ∉ t.toList := by
  induction words generalizing out with
  | nil => exact hout
  | cons w rest ih =>
      refine ih (fun w' hw' => hwords w' (List.mem_cons_of_mem _ hw')) ?_
      intro t ht
      unfold addWord at ht
      dsimp only at ht
      split at ht
      · rcases Finset.mem_insert.mp ht with rfl | ht
        · intro hc
          exact colon_not_mem_lowercase (hwords w List.mem_cons_self)
            (LawfulTermTables.stem _ hc)
        · exact hout t ht
      · exact hout t ht

theorem colon_not_mem_term {t : String} (ht : t ∈ terms text) : ':' ∉ t.toList := by
  have hwords : forall w, w ∈ termWords text -> ':' ∉ w := fun w hw => colon_not_mem_word hw
  have hstart : NameRun.Plain ⟨[], ∅⟩ :=
    ⟨fun w hw => (by cases hw), fun t ht => absurd ht (Finset.notMem_empty t)⟩
  exact colon_not_mem_foldl_addWord hwords (hstart.foldl hwords).close.out t ht

theorem term_ne_entityKey {t : String} (ht : t ∈ terms text) (name : String) :
    t ≠ entityKey name := by
  rintro rfl
  refine colon_not_mem_term ht ?_
  rw [entityKey, String.toList_append]
  exact List.mem_append_left _ (by decide)

end

/-!
# Nodes and edges
-/

theorem keptKeys_pos (order : HashOrder String) (keysPerRecord : List (Finset String))
    {e : String × Nat} (he : e ∈ keptKeys order keysPerRecord) : 0 < e.2 := by
  have hcount : forall (keys : List String) (count : Database String Nat),
      (forall (k : String) (c : Nat), count[k]? = some c -> 0 < c) ->
      forall (k : String) (c : Nat),
        (keys.foldl (fun count k => count.accumulate k 1) count)[k]? = some c ->
        0 < c := by
    intro keys
    induction keys with
    | nil => exact fun _ h => h
    | cons k rest ih =>
        intro count h
        refine ih _ ?_
        have hpositive : forall (k' : String) (c : Nat),
            (count.accumulate k 1)[k']? = some c -> (fun _ c => 0 < c) k' c :=
          fun _ _ hc => accumulate_forall h Nat.one_pos
            (fun v hv => Nat.add_pos_left hv 1) hc
        exact hpositive
  have hmem := Std.ExtTreeMap.mem_toList_iff_getElem?_eq_some.mp (List.mem_filter.mp he).1
  refine hcount _ ∅ ?_ e.1 e.2 hmem
  intro k c hc
  simp at hc

namespace RetrievalGraph

section

variable {R : Type}

variable {g : RetrievalGraph R} {k : String} {i : Nat}

theorem node_eq_some (h : g.node k = some i) :
    exists p, g.keys.idxOf? k = some p ∧ p < g.keys.length ∧ g.records.length + p = i := by
  obtain ⟨p, hp, rfl⟩ := Option.map_eq_some_iff.mp h
  exact ⟨p, hp, (List.findIdx?_eq_some_iff_getElem.mp hp).1, rfl⟩

theorem node_inj {k' : String} (h : g.node k = some i) (h' : g.node k' = some i) :
    k = k' := by
  obtain ⟨p, hp, _, hi⟩ := node_eq_some h
  obtain ⟨p', hp', _, hi'⟩ := node_eq_some h'
  have heq : p = p' := by omega
  subst heq
  obtain ⟨hlt, hk, _⟩ := List.findIdx?_eq_some_iff_getElem.mp hp
  obtain ⟨_, hk', _⟩ := List.findIdx?_eq_some_iff_getElem.mp hp'
  rw [beq_iff_eq] at hk hk'
  exact hk.symm.trans hk'

theorem node_lt (h : g.node k = some i) :
    g.records.length ≤ i ∧ i < g.size := by
  obtain ⟨p, _, hlt, rfl⟩ := node_eq_some h
  unfold size
  omega

end

end RetrievalGraph

variable {pair : (Nat × Nat) × Rat}

theorem mem_recordPairs {order : HashOrder String} {node : String -> Option Nat}
    {keysPerRecord : List (Finset String)}
    (h : pair ∈ recordPairs order node keysPerRecord) :
    pair.1.1 < keysPerRecord.length ∧ (exists k, node k = some pair.1.2) ∧
      0 < pair.2 := by
  obtain ⟨x, hx, hpair⟩ := List.mem_flatMap.mp h
  obtain ⟨k, _, hlink⟩ := List.mem_filterMap.mp hpair
  obtain ⟨i, hi, rfl⟩ := Option.map_eq_some_iff.mp hlink
  have hlt := List.snd_lt_of_mem_zipIdx hx
  exact ⟨hlt, ⟨k, hi⟩, zero_lt_one⟩

theorem mem_relationPairs [TermTables] {node : String -> Option Nat}
    {relations : List EntityRelationship} (h : pair ∈ relationPairs node relations) :
    (exists k, node k = some pair.1.1) ∧ (exists k, node k = some pair.1.2) ∧
      0 < pair.2 := by
  obtain ⟨rel, _, hpair⟩ := List.mem_filterMap.mp h
  split at hpair
  · next a b ha hb =>
    split at hpair
    · cases hpair
      exact ⟨⟨_, ha⟩, ⟨_, hb⟩, relationWeight_pos rel.relationType⟩
    · cases hpair
  · cases hpair

section

variable [TermTables] {R : Type} (order : HashOrder String) (records : List (GraphRecord R))
  (relations : List EntityRelationship)

theorem length_build :
    (build order records relations).records.length = records.length :=
  List.length_map _

theorem mem_edges {i : Nat} {e : Nat × Rat}
    (he : e ∈ (build order records relations).edges i) :
    i < (build order records relations).size ∧
      e.1 < (build order records relations).size ∧ 0 < e.2 := by
  have hsize : (build order records relations).records.length ≤
      (build order records relations).size := Nat.le_add_right _ _
  have hpair : forall pair,
      pair ∈ recordPairs order (build order records relations).node (records.map keysOf) ++
        relationPairs (build order records relations).node relations ->
      pair.1.1 < (build order records relations).size ∧
        pair.1.2 < (build order records relations).size ∧ 0 < pair.2 := by
    intro pair hmem
    rcases List.mem_append.mp hmem with hmem | hmem
    · obtain ⟨hlt, ⟨k, hk⟩, hpos⟩ := mem_recordPairs hmem
      rw [List.length_map, ← length_build order records relations] at hlt
      exact ⟨by omega, (RetrievalGraph.node_lt hk).2, hpos⟩
    · obtain ⟨⟨a, ha⟩, ⟨b, hb⟩, hpos⟩ := mem_relationPairs hmem
      exact ⟨(RetrievalGraph.node_lt ha).2, (RetrievalGraph.node_lt hb).2, hpos⟩
  rcases Adjacency.mem_foldl_link.mp he with hnil | ⟨pair, hmem, hw, hends⟩
  · cases hnil
  · have hpair := hpair pair hmem
    rw [hw]
    refine ⟨?_, ?_, hpair.2.2⟩
    · omega
    · omega

theorem dfAt_pos {node : Nat}
    (h : (build order records relations).records.length ≤ node ∧
      node < (build order records relations).size) :
    0 < (build order records relations).dfAt node := by
  have hlength : (build order records relations).df.length =
      (build order records relations).keys.length := by
    rw [build, List.length_map, List.length_map]
  have hlt : node - (build order records relations).records.length <
      (build order records relations).df.length := by
    unfold RetrievalGraph.size at h
    omega
  rw [RetrievalGraph.dfAt, List.getD_eq_getElem?_getD, List.getElem?_eq_getElem hlt,
    Option.getD_some]
  obtain ⟨e, he, hdf⟩ := List.mem_map.mp (List.getElem_mem hlt)
  rw [← hdf]
  exact Nat.cast_pos.mpr (keptKeys_pos order _ he)

end

end Retrieval
end Graph
end PostCortex
