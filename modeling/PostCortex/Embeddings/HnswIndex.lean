import Mathlib.Data.Nat.Bitwise
import PostCortex.KeyValue.Database

/-!
# The HNSW index

`vector_db/hnsw_index.rs`: the adjacency lists, the layers of the nodes, and one
word that holds the entry point and the highest layer, so that both change in
one compare-and-swap.  Node ids and layers are the program's 32-bit numbers; a
layer is stored as a `usize` and cut to 32 bits where it is packed.
-/

namespace PostCortex
namespace Embeddings

open KeyValue

structure HnswIndex where
  connections : Database Nat (List Nat)
  entryState : Nat
  layers : Database Nat Nat
  deriving DecidableEq

namespace HnswIndex

/-- `u32::MAX`, in the place of the entry point: there is none. -/
def noEntryPoint : Nat :=
  2 ^ 32 - 1

/-- `as u32`. -/
def cut (layer : Nat) : Nat :=
  layer % 2 ^ 32

def packState (entryPoint maxLayer : Nat) : Nat :=
  entryPoint <<< 32 ||| maxLayer

def unpackState (state : Nat) : Nat × Nat :=
  (state >>> 32, state &&& 0xFFFFFFFF)

def new : HnswIndex where
  connections := ∅
  entryState := packState noEntryPoint 0
  layers := ∅

def clear (_ : HnswIndex) : HnswIndex :=
  new

def entryPoint (index : HnswIndex) : Nat :=
  (unpackState index.entryState).1

def maxLayer (index : HnswIndex) : Nat :=
  (unpackState index.entryState).2

def getEntryPoint (index : HnswIndex) : Option Nat :=
  if index.entryPoint = noEntryPoint then none else some index.entryPoint

/-- `should_update`: the index is empty or the new layer is at least as high. -/
def raises (index : HnswIndex) (layer : Nat) : Bool :=
  index.entryPoint = noEntryPoint || index.maxLayer ≤ cut layer

def raisedState (index : HnswIndex) (vectorId layer : Nat) : Nat :=
  packState vectorId (max index.maxLayer (cut layer))

def register (index : HnswIndex) (vectorId layer : Nat) (connections : List Nat) :
    HnswIndex :=
  { index with
    layers := index.layers.insert vectorId layer
    connections := index.connections.insert vectorId connections }

def addVector (index : HnswIndex) (vectorId layer : Nat)
    (connections : List Nat) : HnswIndex :=
  let index := index.register vectorId layer connections
  if index.raises layer = true then
    { index with entryState := index.raisedState vectorId layer }
  else index

def unlink (index : HnswIndex) (ids : List Nat) : HnswIndex :=
  { index with
    connections := index.connections.map
      (fun _ neighbours => neighbours.filter (fun id => id ∉ ids)) }

def removeLayer (index : HnswIndex) (vectorId : Nat) : HnswIndex :=
  { index with layers := index.layers.erase vectorId }

def removeConnections (index : HnswIndex) (vectorId : Nat) : HnswIndex :=
  { index with connections := index.connections.erase vectorId }

def prefer (best : Option (Nat × Nat)) (entry : Nat × Nat) : Option (Nat × Nat) :=
  match best with
  | some (layer, id) =>
      if cut entry.2 < layer ∨ layer = cut entry.2 ∧ id < entry.1 then
        some (layer, id)
      else some (cut entry.2, entry.1)
  | none => some (cut entry.2, entry.1)

def proposal (index : HnswIndex) : Nat :=
  match index.layers.toList.foldl prefer none with
  | some (layer, id) => packState id layer
  | none => packState noEntryPoint 0

def entryStands (index : HnswIndex) (entryPoint : Nat) : Bool :=
  if entryPoint = noEntryPoint then index.layers.isEmpty
  else index.layers.contains entryPoint

/-!
# An entry point that stands
-/

/-- Without a node there is no entry point, and otherwise it is a node. -/
def EntryIsNode (index : HnswIndex) : Prop :=
  (index.layers = ∅ -> index.getEntryPoint = none) ∧
  (index.layers ≠ ∅ ->
    exists id, index.getEntryPoint = some id ∧ id ∈ index.layers)

theorem entryStands_iff (index : HnswIndex) :
    index.entryStands index.entryPoint = true ↔ index.EntryIsNode := by
  have hempty : index.layers.isEmpty = true ↔ index.layers = ∅ :=
    Std.ExtTreeMap.isEmpty_iff
  rw [entryStands, EntryIsNode, getEntryPoint]
  split
  · rw [hempty]
    constructor
    · exact fun hnone => ⟨fun _ => rfl, fun hsome => absurd hnone hsome⟩
    · intro h
      by_contra hsome
      obtain ⟨id, hid, _⟩ := h.2 hsome
      cases hid
  · constructor
    · intro hmem
      refine ⟨?_, fun _ => ⟨_, rfl, hmem⟩⟩
      intro hnone
      rw [hnone] at hmem
      simp at hmem
    · intro h
      have hsome : index.layers ≠ ∅ := by
        intro hnone
        cases h.1 hnone
      obtain ⟨id, hid, hmem⟩ := h.2 hsome
      cases hid
      exact hmem

end HnswIndex
end Embeddings
end PostCortex
