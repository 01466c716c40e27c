import PostCortex.Embeddings.HnswIndex
import PostCortex.Transition.Calls
import PostCortex.Transition.System

/-!
# Concurrent removals from the HNSW index

Any number of `remove_vector` and `remove_vectors` calls run at once on one
index.  A call takes the layer and the list of each of its ids, takes the ids
out of the other lists, and then looks after the entry point in
`reselect_entry_point`: it loads the state, checks it, scans the layers, swaps
what it found, and begins again until a check succeeds.  Each is a step.
-/

namespace PostCortex
namespace Embeddings
namespace Removals

open HnswIndex
open KeyValue
open Transition

/-- The ids of a set are listed in the order in which it is iterated. -/
inductive Request where
  | removeVector (vectorId : Nat)
  | removeVectors (vectorIds : List Nat)
  deriving DecidableEq

inductive Stage where
  | removing (left : List Nat)
  | disconnecting (vectorId : Nat) (left : List Nat)
  | unlinking
  | loading
  | checking (current : Nat)
  | scanning (current : Nat)
  | swapping (current next : Nat)
  | returned
  deriving DecidableEq

structure Call where
  request : Request
  stage : Stage
  deriving DecidableEq

/-- Calls are numbered in the order they arrive. -/
structure State where
  index : HnswIndex
  calls : List Call
  deriving DecidableEq

inductive Action where
  | call (request : Request)
  | advance (i : Nat)

def Request.ids : Request -> List Nat
  | removeVector id => [id]
  | removeVectors ids => ids

def Request.first : Request -> Stage
  | removeVector id => Stage.removing [id]
  | removeVectors ids =>
      if ids = [] then Stage.returned else Stage.removing ids

def advance (ids : List Nat) (index : HnswIndex) :
    Stage -> Option (HnswIndex × Stage)
  | Stage.removing (id :: left) =>
      some (index.removeLayer id, Stage.disconnecting id left)
  | Stage.removing [] => some (index, Stage.unlinking)
  | Stage.disconnecting id left =>
      some (index.removeConnections id, Stage.removing left)
  | Stage.unlinking => some (index.unlink ids, Stage.loading)
  | Stage.loading => some (index, Stage.checking index.entryState)
  | Stage.checking current =>
      if index.entryStands (unpackState current).1 = true then
        some (index, Stage.returned)
      else some (index, Stage.scanning current)
  | Stage.scanning current =>
      some (index, Stage.swapping current index.proposal)
  | Stage.swapping current next =>
      if index.entryState = current then
        some ({ index with entryState := next }, Stage.loading)
      else some (index, Stage.loading)
  | Stage.returned => none

def step (s : State) : Action -> Option State
  | Action.call request =>
      some { s with calls := s.calls ++ [⟨request, request.first⟩] }
  | Action.advance i =>
      s.calls[i]?.bind (fun call =>
        (advance call.request.ids s.index call.stage).map (fun r =>
          ⟨r.1, s.calls.set i { call with stage := r.2 }⟩))

def removals (start : HnswIndex) : System State Action where
  init := ⟨start, []⟩
  step := step

/-!
# What a step does
-/

inductive Effect (s : State) : State -> Prop where
  | call (request : Request) :
      Effect s { s with calls := s.calls ++ [⟨request, request.first⟩] }
  | advance {i : Nat} {call : Call} {index : HnswIndex} {stage : Stage} :
      s.calls[i]? = some call ->
      advance call.request.ids s.index call.stage = some (index, stage) ->
      Effect s ⟨index, s.calls.set i { call with stage := stage }⟩

variable {s s' : State} {a : Action}

theorem step_cases (h : step s a = some s') :
    Effect s s' := by
  cases a with
  | call request =>
      cases h
      exact Effect.call request
  | advance i =>
      obtain ⟨call, hi, hadvance⟩ := Option.bind_eq_some_iff.mp h
      obtain ⟨r, hr, rfl⟩ := Option.map_eq_some_iff.mp hadvance
      exact Effect.advance hi hr

/-!
# The entry point

A call that has yet to check the state as it is now will find out when the entry
point is gone.  Every step but a return leaves the call that made it so.
-/

def Rechecks (index : HnswIndex) : Stage -> Prop
  | Stage.checking current => current = index.entryState
  | Stage.returned => False
  | _ => True

variable {index index' : HnswIndex} {stage stage' : Stage}

theorem advance_rechecks {ids : List Nat}
    (h : advance ids index stage = some (index', stage')) :
    Rechecks index' stage' ∨
      index' = index ∧ exists current, stage = Stage.checking current ∧
        index.entryStands (unpackState current).1 = true := by
  cases stage with
  | removing left =>
      cases left with
      | nil | cons id left =>
          cases h
          exact Or.inl True.intro
  | disconnecting id left | unlinking | scanning current =>
      cases h
      exact Or.inl True.intro
  | loading =>
      cases h
      exact Or.inl rfl
  | checking current =>
      rw [advance] at h
      split at h
      · next hstands =>
        cases h
        exact Or.inr ⟨rfl, current, rfl, hstands⟩
      · cases h
        exact Or.inl True.intro
  | swapping current next =>
      rw [advance] at h
      split at h <;> cases h <;> exact Or.inl True.intro
  | returned => cases h

def Watched (s : State) : Prop :=
  s.index.EntryIsNode ∨
    exists (i : Nat) (call : Call), s.calls[i]? = some call ∧
      Rechecks s.index call.stage

theorem Watched.call (h : Watched s) (call : Call) :
    Watched { s with calls := s.calls ++ [call] } := by
  rcases h with hentry | ⟨i, c, hi, hc⟩
  · exact Or.inl hentry
  · have hlt := (List.getElem?_eq_some_iff.mp hi).1
    exact Or.inr ⟨i, c, (List.getElem?_append_left hlt).trans hi, hc⟩

theorem Watched.advance {s : State} (h : Watched s) {i : Nat} {call : Call}
    {index : HnswIndex} {stage : Stage} (hi : s.calls[i]? = some call)
    (hadvance : advance call.request.ids s.index call.stage =
      some (index, stage)) :
    Watched ⟨index, s.calls.set i { call with stage := stage }⟩ := by
  have hlt := (List.getElem?_eq_some_iff.mp hi).1
  rcases advance_rechecks hadvance with hagain | ⟨hindex, current, hchecking, hstands⟩
  · exact Or.inr ⟨i, _, List.getElem?_set_self hlt, hagain⟩
  · rw [hindex]
    rcases h with hentry | ⟨j, c, hj, hc⟩
    · exact Or.inl hentry
    · by_cases hji : j = i
      · -- the check that the call returns on was of the present state
        subst hji
        rw [hi] at hj
        cases hj
        rw [hchecking] at hc
        have hcurrent : current = s.index.entryState := hc
        rw [hcurrent] at hstands
        exact Or.inl ((entryStands_iff s.index).mp hstands)
      · exact Or.inr ⟨j, c,
          (List.getElem?_set_ne (Ne.symm hji)).trans hj, hc⟩

theorem first_rechecks {request : Request} (h : request.ids ≠ [])
    (index : HnswIndex) :
    Rechecks index request.first := by
  cases request with
  | removeVector id => exact True.intro
  | removeVectors ids =>
      have hids : ids ≠ [] := h
      rw [Request.first, if_neg hids]
      exact True.intro

def Idle (s : State) : Prop :=
  forall call, call ∈ s.calls ->
    call.request.ids = [] ∧ call.stage = Stage.returned

theorem step_watched (h : Watched s ∨ Idle s) (hstep : step s a = some s') :
    Watched s' ∨ Idle s' := by
  cases step_cases hstep with
  | call request =>
      rcases h with hwatched | hidle
      · exact Or.inl (hwatched.call _)
      · by_cases hids : request.ids = []
        · right
          intro call hcall
          rcases List.mem_append.mp hcall with hold | hnew
          · exact hidle call hold
          · rw [List.mem_singleton.mp hnew]
            cases request with
            | removeVector id => cases hids
            | removeVectors ids => exact ⟨hids, if_pos hids⟩
        · left
          refine Or.inr ⟨s.calls.length, _, List.getElem?_concat_length, ?_⟩
          exact first_rechecks hids s.index
  | @advance i call index stage hi hadvance =>
      rcases h with hwatched | hidle
      · exact Or.inl (hwatched.advance hi hadvance)
      · have hreturned := (hidle call (List.mem_of_getElem? hi)).2
        rw [hreturned] at hadvance
        cases hadvance

/-!
# The nodes that are left
-/

def Stage.left : Stage -> List Nat
  | removing left => left
  | disconnecting _ left => left
  | _ => []

/-- Of the ids of the call only those that it has yet to remove are nodes. -/
structure Settles (layers : Database Nat Nat) (call : Call) : Prop where
  own : forall id, id ∈ call.stage.left -> id ∈ call.request.ids
  removed : forall id, id ∈ layers -> id ∈ call.request.ids ->
    id ∈ call.stage.left

/-- A node goes when a call removes it, and for no other reason. -/
structure Accounted (start : HnswIndex) (s : State) : Prop where
  kept : forall id, id ∈ start.layers ->
    (forall call, call ∈ s.calls -> id ∉ call.request.ids) -> id ∈ s.index.layers
  origin : forall id, id ∈ s.index.layers -> id ∈ start.layers
  settles : forall call, call ∈ s.calls -> Settles s.index.layers call

theorem advance_layers {ids : List Nat}
    (h : advance ids index stage = some (index', stage')) :
    index'.layers = index.layers ∧ stage'.left = stage.left ∨
      exists id, stage.left = id :: stage'.left ∧
        index'.layers = index.layers.erase id := by
  cases stage with
  | removing left =>
      cases left with
      | nil =>
          cases h
          exact Or.inl ⟨rfl, rfl⟩
      | cons id left =>
          cases h
          exact Or.inr ⟨id, rfl, rfl⟩
  | checking current | swapping current next =>
      rw [advance] at h
      split at h <;> cases h <;> exact Or.inl ⟨rfl, rfl⟩
  | returned => cases h
  | _ =>
      cases h
      exact Or.inl ⟨rfl, rfl⟩

theorem first_left (request : Request) : request.first.left = request.ids := by
  cases request with
  | removeVector id => rfl
  | removeVectors ids =>
      rw [Request.first]
      split
      · next hids =>
        rw [hids]
        rfl
      · rfl

variable {start : HnswIndex}

theorem Accounted.call (h : Accounted start s) (request : Request) :
    Accounted start { s with calls := s.calls ++ [⟨request, request.first⟩] } where
  kept := by
    intro id hid hnone
    exact h.kept id hid (fun call hcall =>
      hnone call (List.mem_append_left _ hcall))
  origin := h.origin
  settles := by
    intro call hcall
    rcases List.mem_append.mp hcall with hold | hnew
    · exact h.settles call hold
    · rw [List.mem_singleton.mp hnew]
      constructor
      · intro id hid
        rwa [first_left] at hid
      · intro id _ hids
        rwa [first_left]

theorem Settles.moved {call : Call} (h : Settles index.layers call)
    (hadvance : advance call.request.ids index call.stage = some (index', stage)) :
    Settles index'.layers { call with stage := stage } := by
  rcases advance_layers hadvance with ⟨hlayers, hleft⟩ | ⟨gone, hnext, hlayers⟩
  · rw [hlayers]
    constructor
    · intro id hid
      rw [hleft] at hid
      exact h.own id hid
    · intro id hid hids
      rw [hleft]
      exact h.removed id hid hids
  · rw [hlayers]
    constructor
    · intro id hid
      apply h.own id
      rw [hnext]
      exact List.mem_cons_of_mem _ hid
    · intro id hid hids
      rw [Std.ExtTreeMap.mem_erase] at hid
      have hold := h.removed id hid.2 hids
      rw [hnext] at hold
      rcases List.mem_cons.mp hold with rfl | hrest
      · exact absurd Std.ReflCmp.compare_self hid.1
      · exact hrest

theorem Settles.keeps {call : Call} (h : Settles index.layers call)
    (hadvance : advance call.request.ids index call.stage = some (index', stage))
    {id : Nat} (hid : id ∈ index.layers) (hids : id ∉ call.request.ids) :
    id ∈ index'.layers := by
  rcases advance_layers hadvance with ⟨hlayers, _⟩ | ⟨gone, hnext, hlayers⟩
  · rwa [hlayers]
  · rw [hlayers]
    refine Std.ExtTreeMap.mem_erase.mpr ⟨?_, hid⟩
    intro heq
    have hgone : gone ∈ call.stage.left := by
      rw [hnext]
      exact List.mem_cons_self
    have hown := h.own gone hgone
    rw [Std.LawfulEqOrd.eq_of_compare heq] at hown
    exact hids hown

theorem advance_subset {ids : List Nat}
    (h : advance ids index stage = some (index', stage')) {id : Nat}
    (hid : id ∈ index'.layers) :
    id ∈ index.layers := by
  rcases advance_layers h with ⟨hsame, _⟩ | ⟨gone, _, herase⟩
  · rwa [hsame] at hid
  · rw [herase] at hid
    exact (Std.ExtTreeMap.mem_erase.mp hid).2

theorem Accounted.advance {start : HnswIndex} {s : State}
    (h : Accounted start s) {i : Nat} {call : Call} {index : HnswIndex}
    {stage : Stage} (hi : s.calls[i]? = some call)
    (hadvance : advance call.request.ids s.index call.stage =
      some (index, stage)) :
    Accounted start ⟨index, s.calls.set i { call with stage := stage }⟩ := by
  have hsettles := h.settles call (List.mem_of_getElem? hi)
  constructor
  · intro id hid hnone
    have hmoved : id ∉ call.request.ids :=
      hnone { call with stage := stage }
        (List.mem_set (List.getElem?_eq_some_iff.mp hi).1 _)
    refine hsettles.keeps hadvance (h.kept id hid ?_) hmoved
    intro other hother
    obtain ⟨j, hj⟩ := List.getElem?_of_mem hother
    by_cases hji : i = j
    · subst hji
      rw [hi] at hj
      cases hj
      exact hmoved
    · exact hnone other
        (List.mem_of_getElem? ((List.getElem?_set_ne hji).trans hj))
  · exact fun id hid => h.origin id (advance_subset hadvance hid)
  · refine forall_mem_set (P := Settles index.layers) hi
      (hsettles.moved hadvance) ?_
    intro j other _ hother
    have hold := h.settles other (List.mem_of_getElem? hother)
    exact ⟨hold.own,
      fun id hid => hold.removed id (advance_subset hadvance hid)⟩

theorem step_accounted (h : Accounted start s) (hstep : step s a = some s') :
    Accounted start s' := by
  cases step_cases hstep with
  | call request => exact h.call request
  | advance hi hadvance => exact h.advance hi hadvance

/-!
# Runs
-/

theorem reachable_accounted (h : (removals start).Reachable System.Anything s) :
    Accounted start s := by
  refine h.invariant (P := Accounted start) ?_
    (fun _ _ _ hold _ hstep => step_accounted hold hstep)
  constructor
  · exact fun id hid _ => hid
  · exact fun id hid => hid
  · intro call hcall
    cases hcall

theorem reachable_watched (h : (removals start).Reachable System.Anything s) :
    Watched s ∨ Idle s := by
  refine h.invariant (P := fun s => Watched s ∨ Idle s) (Or.inr ?_)
    (fun _ _ _ hold _ hstep => step_watched hold hstep)
  intro call hcall
  cases hcall

theorem reachable_watched_of_start (hstart : start.EntryIsNode)
    (h : (removals start).Reachable System.Anything s) :
    Watched s := by
  refine h.invariant (P := Watched) (Or.inl hstart) ?_
  intro s a s' hold _ hstep
  cases step_cases hstep with
  | call request => exact hold.call _
  | advance hi hadvance => exact hold.advance hi hadvance

/-- Any number of removals at once, in any order of their steps: once all calls
have returned, the nodes of none of them are left, and the entry point is one of
the nodes that are, if any.  One call that removes something is enough, whatever
the entry point was. -/
theorem removals_keep_entry_point {start : HnswIndex} {s : State}
    (h : (removals start).Reachable System.Anything s)
    (hstart : start.EntryIsNode ∨
      exists call, call ∈ s.calls ∧ call.request.ids ≠ [])
    (hdone : forall call, call ∈ s.calls -> call.stage = Stage.returned) :
    (forall id, id ∈ s.index.layers ↔
      id ∈ start.layers ∧
        forall call, call ∈ s.calls -> id ∉ call.request.ids) ∧
    (s.index.layers = ∅ -> s.index.getEntryPoint = none) ∧
    (s.index.layers ≠ ∅ ->
      exists id, s.index.getEntryPoint = some id ∧ id ∈ s.index.layers) := by
  have haccounted := reachable_accounted h
  have hwatched : Watched s := by
    rcases hstart with hentry | ⟨call, hcall, hids⟩
    · exact reachable_watched_of_start hentry h
    · rcases reachable_watched h with hwatched | hidle
      · exact hwatched
      · exact absurd (hidle call hcall).1 hids
  have hentry : s.index.EntryIsNode := by
    rcases hwatched with hentry | ⟨i, call, hi, hagain⟩
    · exact hentry
    · rw [hdone call (List.mem_of_getElem? hi)] at hagain
      exact hagain.elim
  refine ⟨?_, hentry⟩
  intro id
  constructor
  · intro hid
    refine ⟨haccounted.origin id hid, fun call hcall hids => ?_⟩
    have hleft := (haccounted.settles call hcall).removed id hid hids
    rw [hdone call hcall] at hleft
    cases hleft
  · exact fun hid => haccounted.kept id hid.1 hid.2

/-- Two removals at once, and the first swaps in the node that the second has
removed. -/
theorem removals_keep_entry_point_raced :
    exists s : State,
      (removals (((new.addVector 1 0 []).addVector 2 1 []).addVector 3 2 [])
        ).Reachable System.Anything s ∧
      s.index.getEntryPoint = some 1 ∧
      exists id, s.index.getEntryPoint = some id ∧ id ∈ s.index.layers := by
  obtain ⟨s, -, hreach, hentry, hsome, hdone⟩ :=
    (removals (((new.addVector 1 0 []).addVector 2 1 []).addVector 3 2 [])
      ).replay_reaches System.Anything
      ([Action.call (Request.removeVector 3),
          Action.call (Request.removeVectors [2])] ++
        -- the first has scanned when the second removes what it found
        List.replicate 7 (Action.advance 0) ++
        List.replicate 5 (Action.advance 1) ++
        [Action.advance 0] ++
        List.replicate 6 (Action.advance 1) ++
        List.replicate 6 (Action.advance 0) ++
        List.replicate 3 (Action.advance 1))
      (fun s => s.index.getEntryPoint = some 1 ∧ s.index.layers ≠ ∅ ∧
        forall call, call ∈ s.calls -> call.stage = Stage.returned) (by decide +kernel)
  have hstart : (((new.addVector 1 0 []).addVector 2 1 []).addVector 3 2
      []).EntryIsNode :=
    (entryStands_iff _).mp (by decide +kernel)
  obtain ⟨_, _, hnode⟩ := removals_keep_entry_point hreach (Or.inl hstart)
    hdone
  exact ⟨s, hreach, hentry, hnode hsome⟩

end Removals
end Embeddings
end PostCortex
