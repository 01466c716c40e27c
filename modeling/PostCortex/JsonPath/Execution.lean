import PostCortex.JsonPath.Syntax

/-!
# Execution of paths

`execute` of `jsonpath.rs` with its machine arithmetic, and what a path means: every
segment selects children of a value, and a path the children along it.
-/

namespace PostCortex
namespace JsonPath

open PostCortex.Numeric

/-- A JSON value; the fields of an object are in the order of the map. -/
inductive Value where
  | null
  | bool (b : Bool)
  | number (literal : String)
  | string (text : String)
  | array (items : List Value)
  | object (fields : List (String × Value))

/-- A value as memory and the map of an object allow it. -/
inductive Fits : Value -> Prop where
  | null : Fits Value.null
  | bool (b : Bool) : Fits (Value.bool b)
  | number (literal : String) : Fits (Value.number literal)
  | string (text : String) : Fits (Value.string text)
  | array {items : List Value} :
      items.length < 9223372036854775808 ->
      (forall v, v ∈ items -> Fits v) ->
      Fits (Value.array items)
  | object {fields : List (String × Value)} :
      fields.Pairwise (fun f g => f.1 < g.1) ->
      (forall f, f ∈ fields -> Fits f.2) ->
      Fits (Value.object fields)

namespace Value

def get (name : String) : Value -> Option Value
  | object fields => fields.lookup name
  | _ => none

def indexValue (idx : Isize) : Value -> Except Panic (Option Value)
  | array arr =>
      if 0 ≤ idx.val then Except.ok arr[idx.toUsize]?
      else if idx.unsignedAbs ≤ arr.length then
        (usizeSub arr.length idx.unsignedAbs).map (fun i => arr[i]?)
      else Except.ok none
  | _ => Except.ok none

def fromEnd (len bound inside : Isize) : Except Panic Isize :=
  if bound.val < 0 then (len.add bound).map (Isize.max Isize.zero)
  else Except.ok inside

def sliceValue (start stop : Option Isize) : Value -> Except Panic (List Value)
  | array arr => do
      let len := Isize.ofUsize arr.length
      let s := start.getD Isize.zero
      let s ← fromEnd len s s
      let e := stop.getD len
      let e ← fromEnd len e (e.min len)
      if e.toUsize ≤ s.toUsize then Except.ok []
      else sliceRange arr s.toUsize e.toUsize
  | _ => Except.ok []

def visit : PathSegment -> Value -> Except Panic (List Value)
  | PathSegment.field name, val => Except.ok (val.get name).toList
  | PathSegment.index idx, val => (val.indexValue idx).map Option.toList
  | PathSegment.slice start stop, val => val.sliceValue start stop
  | PathSegment.wildcard, array arr => Except.ok arr
  | PathSegment.wildcard, object fields => Except.ok (fields.map Prod.snd)
  | PathSegment.wildcard, _ => Except.ok []
  | PathSegment.union indices, val =>
      (indices.mapM (fun idx => val.indexValue idx)).map (List.filterMap id)

end Value

def walk : List PathSegment -> List Value -> Except Panic (List Value)
  | [], current => Except.ok current
  | segment :: rest, current => do
      let next ← current.mapM (Value.visit segment)
      walk rest next.flatten

def package : List Value -> Value
  | [] => Value.null
  | [single] => single
  | many => Value.array many

/-- No node gives null, one gives itself and several give their array. -/
theorem package_cases (found : List Value) :
    found = [] ∧ package found = Value.null ∨
      (exists v, found = [v] ∧ package found = v) ∨
      1 < found.length ∧ package found = Value.array found := by
  match found with
  | [] => exact Or.inl ⟨rfl, rfl⟩
  | [v] => exact Or.inr (Or.inl ⟨v, rfl, rfl⟩)
  | v :: w :: rest =>
      refine Or.inr (Or.inr ⟨?_, rfl⟩)
      rw [List.length_cons, List.length_cons]
      omega

namespace Value

def items : Value -> List Value
  | array arr => arr
  | _ => []

def children : Value -> List Value
  | array arr => arr
  | object fields => fields.map Prod.snd
  | _ => []

def selected : PathSegment -> Value -> List Value
  | PathSegment.field name, v => (v.get name).toList
  | PathSegment.index idx, v => (pyIndex v.items idx.val).toList
  | PathSegment.slice start stop, v =>
      pySlice v.items (start.map Isize.val) (stop.map Isize.val)
  | PathSegment.wildcard, v => v.children
  | PathSegment.union indices, v =>
      indices.filterMap (fun idx => pyIndex v.items idx.val)

end Value

def nodes : List PathSegment -> Value -> List Value
  | [], v => [v]
  | segment :: rest, v => (v.selected segment).flatMap (nodes rest)

/-!
# Segments
-/

variable {v : Value}

theorem mem_of_pyIndex {item : Type} {xs : List item} {i : Int} {x : item}
    (h : pyIndex xs i = some x) :
    x ∈ xs := by
  unfold pyIndex at h
  split at h
  · exact List.mem_of_getElem? h
  · split at h
    · exact List.mem_of_getElem? h
    · cases h

theorem mem_of_pySlice {item : Type} {xs : List item} {start stop : Option Int} {x : item}
    (h : x ∈ pySlice xs start stop) :
    x ∈ xs := by
  obtain ⟨p, hp, rfl⟩ := List.mem_map.mp h
  obtain ⟨_, _, heq⟩ := List.mem_zipIdx (List.mem_filter.mp hp).1
  rw [heq]
  exact List.getElem_mem _

theorem mem_of_lookup {name : String} {fields : List (String × Value)}
    (h : fields.lookup name = some v) :
    exists key, (key, v) ∈ fields := by
  induction fields with
  | nil =>
      cases h
  | cons f rest ih =>
      obtain ⟨key, w⟩ := f
      rw [List.lookup_cons] at h
      split at h
      · rw [Option.some.inj h]
        exact ⟨key, List.mem_cons_self⟩
      · obtain ⟨key', hmem⟩ := ih h
        exact ⟨key', List.mem_cons_of_mem _ hmem⟩

variable {w : Value}

theorem Fits.items (h : Fits v) (hw : w ∈ v.items) : Fits w := by
  cases h with
  | array _ hall => exact hall w hw
  | _ => cases hw

theorem Fits.children (h : Fits v) (hw : w ∈ v.children) : Fits w := by
  cases h with
  | array _ hall => exact hall w hw
  | object _ hall =>
      obtain ⟨f, hf, rfl⟩ := List.mem_map.mp hw
      exact hall f hf
  | _ => cases hw

theorem Fits.selected (h : Fits v) {segment : PathSegment}
    (hw : w ∈ v.selected segment) :
    Fits w := by
  cases segment with
  | field name =>
      have hget : v.get name = some w := Option.mem_toList.mp hw
      cases h with
      | object _ hall =>
          obtain ⟨key, hmem⟩ := mem_of_lookup hget
          exact hall _ hmem
      | _ => cases hget
  | index idx => exact h.items (mem_of_pyIndex (Option.mem_toList.mp hw))
  | slice start stop => exact h.items (mem_of_pySlice hw)
  | wildcard => exact h.children hw
  | union indices =>
      obtain ⟨idx, _, hidx⟩ := List.mem_filterMap.mp hw
      exact h.items (mem_of_pyIndex hidx)

/-!
# Paths
-/

end JsonPath
end PostCortex
