import Mathlib.Data.List.Range
import PostCortex.Session.ActiveSession
import PostCortex.Transition.System

/-!
# The hot tier in sequential use

The readers of `HotContext` (`session/session_components.rs`) and runs of its
operations.  A run logs what was pushed since the tier was made or cleared, and
what of it was removed; a push takes the next number of the log.  A removal by
id names the slot that the search over the map meets first.
-/

namespace PostCortex
namespace Session

open PostCortex.Core
open Transition

/-!
# Slots read in a range
-/

section

variable {α β : Type} {slots : Nat -> Option α}

theorem filterMap_getElem? (l : List β) (g : β -> Option α) (a : Nat) :
    (List.range' a (l.length - a)).filterMap (fun i => (l[i]?).bind g) =
      (l.drop a).filterMap g := by
  have hread : (List.range' a (l.length - a)).map (fun i => l[i]?) =
      (l.drop a).map some := by
    apply List.ext_getElem
    · simp
    · intro i hi _
      have hlt : a + i < l.length := by
        rw [List.length_map, List.length_range'] at hi
        omega
      simp [List.getElem?_eq_getElem hlt]
  have hbind := congrArg (fun xs => xs.filterMap (fun x => x.bind g)) hread
  simp only [List.filterMap_map] at hbind
  exact hbind

variable {a : Nat}

theorem length_filterMap_full {n : Nat}
    (hfull : forall i, a ≤ i -> i < a + n -> (slots i).isSome = true) :
    ((List.range' a n).filterMap slots).length = n := by
  rw [List.length_filterMap_eq_countP, List.countP_eq_length.mpr,
    List.length_range']
  intro i hi
  obtain ⟨hge, hlt⟩ := List.mem_range'_1.mp hi
  exact hfull i hge hlt

theorem range'_split {b c : Nat} (hab : a ≤ b) (hbc : b ≤ c) :
    List.range' a (c - a) = List.range' a (b - a) ++ List.range' b (c - b) := by
  have happend := List.range'_append_1 (s := a) (m := b - a) (n := c - b)
  rw [show a + (b - a) = b by omega,
    show b - a + (c - b) = c - a by omega] at happend
  exact happend.symm

/-- Reading from `a` on where the slots before `first` are empty and the others
are not. -/
theorem filterMap_from {first last : Nat} (hfirst : first ≤ last)
    (hslots : forall i, i < last -> ((slots i).isSome = true ↔ first ≤ i))
    (ha : a ≤ last) :
    (List.range' a (last - a)).filterMap slots =
      ((List.range' first (last - first)).filterMap slots).drop (a - first) := by
  by_cases hbefore : a ≤ first
  · have hempty : (List.range' a (first - a)).filterMap slots = [] := by
      rw [List.filterMap_eq_nil_iff]
      intro i hi
      obtain ⟨_, hlt⟩ := List.mem_range'_1.mp hi
      rw [← Option.not_isSome_iff_eq_none, hslots i (by omega)]
      omega
    rw [range'_split hbefore hfirst, List.filterMap_append, hempty,
      List.nil_append, Nat.sub_eq_zero_of_le hbefore, List.drop_zero]
  · have hlength :
        ((List.range' first (a - first)).filterMap slots).length = a - first := by
      apply length_filterMap_full
      intro i hge hlt
      exact (hslots i (by omega)).mpr hge
    rw [range'_split (Nat.le_of_not_le hbefore) ha, List.filterMap_append,
      List.drop_left' hlength]

theorem size_eq_length {m : Std.ExtTreeMap Nat α} {keys : List Nat}
    (hnodup : keys.Nodup) (hkeys : forall i, i ∈ m -> i ∈ keys) :
    m.size = (keys.filterMap (fun i => m[i]?)).length := by
  have hperm : m.keys.Perm (keys.filter (fun i => (m[i]?).isSome)) := by
    rw [List.perm_ext_iff_of_nodup Std.ExtTreeMap.nodup_keys
      (hnodup.filter _)]
    intro i
    rw [Std.ExtTreeMap.mem_keys, List.mem_filter,
      Std.ExtTreeMap.isSome_getElem?_iff_mem]
    exact ⟨fun hi => ⟨hkeys i hi, hi⟩, And.right⟩
  rw [← Std.ExtTreeMap.length_keys, hperm.length_eq,
    List.length_filterMap_eq_countP, List.countP_eq_length_filter]

end

namespace HotContext

def len (hot : HotContext) : Nat :=
  hot.updates.size

/-- `get_recent_arcs`. -/
def getRecent (hot : HotContext) (n : Nat) : List ContextUpdate :=
  let startId := hot.nextId - min n hot.maxSize
  (List.range' startId (hot.nextId - startId)).reverse.filterMap
    (fun i => hot.updates[i]?)

/-- `back_arc`. -/
def back (hot : HotContext) : Option ContextUpdate :=
  if hot.nextId = 0 then none else hot.updates[hot.nextId - 1]?

def clear (hot : HotContext) : HotContext :=
  { hot with
    updates := ∅
    nextId := 0 }

def clone (hot : HotContext) : HotContext :=
  { hot with
    updates := (∅ : Std.ExtTreeMap Nat ContextUpdate).insertMany hot.updates.toList }

def meets (hot : HotContext) (entryId : Uuid) : Option Nat -> Bool
  | some i => (hot.updates[i]?).any (fun u => u.id == entryId)
  | none => !hot.containsId entryId

/-- The rest of `remove_by_id`. -/
def removeMet (hot : HotContext) : Option Nat -> HotContext × Bool
  | some i => ({ hot with updates := hot.updates.erase i }, true)
  | none => (hot, false)

theorem containsId_iff {hot : HotContext} {entryId : Uuid} :
    hot.containsId entryId = true ↔
      exists (i : Nat) (u : ContextUpdate),
        hot.updates[i]? = some u ∧ u.id = entryId := by
  unfold containsId
  simp [Std.ExtTreeMap.mem_toList_iff_getElem?_eq_some]

theorem clone_eq (hot : HotContext) : hot.clone = hot := by
  have hslots : (∅ : Std.ExtTreeMap Nat ContextUpdate).insertMany
      hot.updates.toList = hot.updates := by
    apply Std.ExtTreeMap.ext_getElem?
    intro i
    cases hi : hot.updates[i]? with
    | some u =>
        exact Std.ExtTreeMap.getElem?_insertMany_list_of_mem
          Std.ReflCmp.compare_self Std.ExtTreeMap.distinct_keys_toList
          (Std.ExtTreeMap.mem_toList_iff_getElem?_eq_some.mpr hi)
    | none =>
        have habsent : (hot.updates.toList.map Prod.fst).contains i = false := by
          rw [Std.ExtTreeMap.map_fst_toList_eq_keys,
            Std.ExtTreeMap.contains_keys, ← Bool.not_eq_true]
          intro hmem
          have hsome := Std.ExtTreeMap.mem_iff_isSome_getElem?.mp
            (Std.ExtTreeMap.mem_iff_contains.mpr hmem)
          rw [hi] at hsome
          cases hsome
        rw [Std.ExtTreeMap.getElem?_insertMany_list_of_contains_eq_false habsent,
          Std.ExtTreeMap.getElem?_empty]
  unfold clone
  rw [hslots]

theorem removeById_eq (hot : HotContext) (entryId : Uuid) :
    exists met, hot.meets entryId met = true ∧
      hot.removeById entryId = (hot.removeMet met).1 := by
  unfold removeById
  cases hfind : hot.updates.toList.find? (fun x => x.2.id == entryId) with
  | none =>
      refine ⟨none, ?_, rfl⟩
      have habsent : hot.containsId entryId = false :=
        List.any_eq_false.mpr (fun x hx => List.find?_eq_none.mp hfind x hx)
      simp [meets, habsent]
  | some x =>
      refine ⟨some x.1, ?_, rfl⟩
      have hslot := Std.ExtTreeMap.mem_toList_iff_getElem?_eq_some.mp
        (List.mem_of_find?_eq_some hfind)
      have hid := List.find?_some hfind
      simp only [meets, hslot, Option.any_some]
      exact hid

end HotContext

/-!
# Runs
-/

namespace HotTier

structure State where
  tier : HotContext
  log : List (ContextUpdate × Bool)

inductive Action where
  | push (update : ContextUpdate)
  | removeById (entryId : Uuid) (met : Option Nat)
  | clear
  | clone
  | fromUpdates (updates : List ContextUpdate) (maxSize : Nat)

def crossOut (log : List (ContextUpdate × Bool)) :
    Option Nat -> List (ContextUpdate × Bool)
  | some i => log.modify i (fun x => (x.1, true))
  | none => log

def logged (updates : List ContextUpdate) : List (ContextUpdate × Bool) :=
  updates.map (fun u => (u, false))

def step (s : State) : Action -> Option State
  | Action.push update =>
      some ⟨s.tier.push update, s.log ++ [(update, false)]⟩
  | Action.removeById entryId met =>
      if s.tier.meets entryId met then
        some ⟨(s.tier.removeMet met).1, crossOut s.log met⟩
      else none
  | Action.clear => some ⟨s.tier.clear, []⟩
  | Action.clone => some ⟨s.tier.clone, s.log⟩
  | Action.fromUpdates updates maxSize =>
      some ⟨HotContext.fromUpdates updates maxSize, logged updates⟩

def tiers (maxSize : Nat) : System State Action where
  init := ⟨HotContext.new maxSize, []⟩
  step := step

/-!
# What is claimed of a tier
-/

def unremoved (x : ContextUpdate × Bool) : Option ContextUpdate :=
  if x.2 then none else some x.1

def retained (s : State) : List ContextUpdate :=
  (s.log.drop (s.log.length - s.tier.maxSize)).filterMap unremoved

/-- The readers of the tier agree with its log and with each other. -/
structure Sound (s : State) : Prop where
  bounded : s.tier.len ≤ s.tier.maxSize
  length : s.tier.len = s.tier.snapshot.length
  ordered : s.tier.snapshot = retained s
  back : s.tier.back = s.tier.snapshot.getLast?
  recent : forall n, s.tier.getRecent n = s.tier.snapshot.reverse.take n

def RemovesExactly (s : State) (s' : State) : Action -> Prop
  | Action.removeById entryId _ =>
      s'.tier.snapshot = s.tier.snapshot.filter (fun u => u.id != entryId)
  | _ => True

def RemovesOldest (s : State) : Action -> Prop
  | Action.removeById entryId _ =>
      forall u, u ∈ s.tier.snapshot.tail -> u.id ≠ entryId
  | _ => True

instance (s : State) : (a : Action) -> Decidable (RemovesOldest s a)
  | Action.removeById _ _ => inferInstanceAs (Decidable (forall _, _ -> _))
  | Action.push _ | Action.clear | Action.clone | Action.fromUpdates _ _ =>
      isTrue trivial

/-!
# Every run
-/

/-- A slot of the window holds the push with its number unless that was removed;
the others are empty. -/
structure Placed (s : State) : Prop where
  numbered : s.tier.nextId = s.log.length
  slots : forall i, s.tier.updates[i]? =
    if s.log.length - s.tier.maxSize ≤ i then (s.log[i]?).bind unremoved
    else none

theorem placed_new (maxSize : Nat) : Placed ⟨HotContext.new maxSize, []⟩ where
  numbered := rfl
  slots := by simp [HotContext.new]

theorem maxSize_push (hot : HotContext) (update : ContextUpdate) :
    (hot.push update).maxSize = hot.maxSize :=
  rfl

variable {s : State}

theorem Placed.push (h : Placed s) (update : ContextUpdate) :
    Placed ⟨s.tier.push update, s.log ++ [(update, false)]⟩ where
  numbered := by
    rw [List.length_append, ← h.numbered]
    rfl
  slots := by
    intro i
    rw [maxSize_push, List.length_append]
    simp only [HotContext.push, List.length_cons, List.length_nil, Nat.zero_add]
    have hold := h.slots i
    rw [← h.numbered] at hold ⊢
    have hlast : (s.log ++ [(update, false)])[s.tier.nextId]? =
        some (update, false) := by
      rw [h.numbered, List.getElem?_concat_length]
    have hother : i ≠ s.tier.nextId ->
        (s.log ++ [(update, false)])[i]? = s.log[i]? := by
      intro hne
      rw [h.numbered] at hne
      rcases Nat.lt_or_gt_of_ne hne with hlt | hgt
      · exact List.getElem?_append_left hlt
      · rw [List.getElem?_eq_none, List.getElem?_eq_none (by omega)]
        rw [List.length_append, List.length_singleton]
        omega
    split
    · next hfull =>
      rw [Std.ExtTreeMap.getElem?_erase, Std.ExtTreeMap.getElem?_insert]
      simp only [Nat.compare_eq_eq]
      grind [unremoved]
    · next hroom =>
      rw [Std.ExtTreeMap.getElem?_insert]
      simp only [Nat.compare_eq_eq]
      grind [unremoved]

theorem crossOut_getElem? (log : List (ContextUpdate × Bool)) (i j : Nat) :
    ((crossOut log (some i))[j]?).bind unremoved =
      if i = j then none else (log[j]?).bind unremoved := by
  unfold crossOut
  rw [List.getElem?_modify]
  cases log[j]? with
  | none =>
      simp
  | some x =>
      by_cases hij : i = j
      · simp [hij, unremoved]
      · simp [hij]

theorem length_crossOut (log : List (ContextUpdate × Bool)) (met : Option Nat) :
    (crossOut log met).length = log.length := by
  cases met with
  | none => rfl
  | some i => exact List.length_modify ..

theorem Placed.removeMet (h : Placed s) (met : Option Nat) :
    Placed ⟨(s.tier.removeMet met).1, crossOut s.log met⟩ := by
  cases met with
  | none =>
      exact h
  | some i =>
      refine ⟨?_, ?_⟩
      · rw [length_crossOut]
        exact h.numbered
      · intro j
        rw [crossOut_getElem?, length_crossOut]
        simp only [HotContext.removeMet, Std.ExtTreeMap.getElem?_erase,
          Nat.compare_eq_eq]
        rw [h.slots j]
        by_cases hij : i = j
        · simp [hij]
        · simp [hij]

theorem Placed.pushAll (h : Placed s) (updates : List ContextUpdate) :
    Placed ⟨updates.foldl HotContext.push s.tier, s.log ++ logged updates⟩ := by
  induction updates generalizing s with
  | nil =>
      simpa [logged] using h
  | cons update rest ih =>
      have hpushed := ih (h.push update)
      rw [List.append_assoc] at hpushed
      exact hpushed

theorem Placed.step {s s' : State} (h : Placed s) {a : Action}
    (hs : HotTier.step s a = some s') :
    Placed s' := by
  cases a with
  | push update =>
      cases hs
      exact h.push update
  | removeById entryId met =>
      simp only [HotTier.step, Option.ite_none_right_eq_some] at hs
      obtain ⟨_, hs⟩ := hs
      cases hs
      exact h.removeMet met
  | clear =>
      cases hs
      exact placed_new s.tier.maxSize
  | clone =>
      cases hs
      rw [HotContext.clone_eq]
      exact h
  | fromUpdates updates maxSize =>
      cases hs
      exact (placed_new maxSize).pushAll updates

variable {maxSize : Nat}

theorem placed {allowed : State -> Action -> Prop}
    (h : (tiers maxSize).Reachable allowed s) :
    Placed s :=
  h.invariant (placed_new maxSize) (fun _ _ _ hP _ hs => hP.step hs)

variable {i : Nat}

theorem Placed.window (h : Placed s) (hi : (s.tier.updates[i]?).isSome = true) :
    s.tier.nextId - s.tier.maxSize ≤ i ∧ i < s.tier.nextId := by
  rw [h.slots i] at hi
  rw [h.numbered]
  split at hi
  · next hge =>
    obtain ⟨u, hu⟩ := Option.isSome_iff_exists.mp hi
    obtain ⟨x, hx, -⟩ := Option.bind_eq_some_iff.mp hu
    exact ⟨hge, (List.getElem?_eq_some_iff.mp hx).1⟩
  · cases hi

theorem Placed.ordered (h : Placed s) :
    s.tier.snapshot = retained s := by
  unfold retained HotContext.snapshot HotContext.idRange
  rw [← filterMap_getElem?, h.numbered]
  apply List.filterMap_congr
  intro i hi
  rw [h.slots i, if_pos (List.mem_range'_1.mp hi).1]

theorem Placed.length (h : Placed s) :
    s.tier.len = s.tier.snapshot.length := by
  apply size_eq_length
  · exact List.nodup_range'
  · intro i hi
    obtain ⟨hge, hlt⟩ := h.window (Std.ExtTreeMap.isSome_getElem?_iff_mem.mpr hi)
    exact List.mem_range'_1.mpr ⟨hge, by omega⟩

theorem Placed.bounded (h : Placed s) :
    s.tier.len ≤ s.tier.maxSize := by
  rw [h.length]
  have hread := List.length_filterMap_le (fun i => s.tier.updates[i]?)
    s.tier.idRange
  have hrange : s.tier.idRange.length =
      s.tier.nextId - (s.tier.nextId - s.tier.maxSize) :=
    List.length_range'
  unfold HotContext.snapshot
  omega

/-!
# Runs that remove the oldest entry only
-/

/-- The entries are those of the last pushes, from one of them on. -/
def Unbroken (hot : HotContext) : Prop :=
  exists first, first ≤ hot.nextId ∧ hot.nextId - hot.maxSize ≤ first ∧
    forall i, i < hot.nextId -> ((hot.updates[i]?).isSome = true ↔ first ≤ i)

theorem unbroken_new (maxSize : Nat) : Unbroken (HotContext.new maxSize) :=
  ⟨0, Nat.le_refl 0, by simp [HotContext.new], fun _ hi => absurd hi (Nat.not_lt_zero _)⟩

variable {hot : HotContext}

theorem Unbroken.push (h : Unbroken hot) (update : ContextUpdate) :
    Unbroken (hot.push update) := by
  obtain ⟨first, hlast, hwindow, hslots⟩ := h
  refine ⟨max first (hot.nextId + 1 - hot.maxSize), ?_, ?_, ?_⟩
  · simp only [HotContext.push]
    omega
  · simp only [HotContext.push]
    omega
  · intro i hi
    simp only [HotContext.push] at hi ⊢
    have hold := hslots i
    split
    · next hfull =>
      rw [Std.ExtTreeMap.getElem?_erase, Std.ExtTreeMap.getElem?_insert]
      simp only [Nat.compare_eq_eq]
      by_cases hnew : hot.nextId = i
      · subst hnew
        by_cases hzero : hot.maxSize = 0
        · simp [hzero]
        · rw [if_neg (by omega), if_pos rfl]
          simp
          omega
      · rw [if_neg hnew]
        by_cases hgone : hot.nextId - hot.maxSize = i
        · rw [if_pos hgone]
          simp
          omega
        · rw [if_neg hgone, hold (by omega)]
          omega
    · next hroom =>
      rw [Std.ExtTreeMap.getElem?_insert]
      simp only [Nat.compare_eq_eq]
      by_cases hnew : hot.nextId = i
      · subst hnew
        simp
        omega
      · rw [if_neg hnew, hold (by omega)]
        omega

theorem Unbroken.pushAll (h : Unbroken hot) (updates : List ContextUpdate) :
    Unbroken (updates.foldl HotContext.push hot) := by
  induction updates generalizing hot with
  | nil =>
      exact h
  | cons update rest ih =>
      exact ih (h.push update)

variable {first : Nat}

theorem snapshot_from (hlast : first ≤ hot.nextId)
    (hwindow : hot.nextId - hot.maxSize ≤ first)
    (hslots : forall i, i < hot.nextId ->
      ((hot.updates[i]?).isSome = true ↔ first ≤ i)) :
    hot.snapshot =
      (List.range' first (hot.nextId - first)).filterMap
        (fun i => hot.updates[i]?) := by
  unfold HotContext.snapshot HotContext.idRange
  rw [filterMap_from hlast hslots (Nat.sub_le _ _), Nat.sub_eq_zero_of_le hwindow,
    List.drop_zero]

theorem tail_snapshot (hlast : first < hot.nextId)
    (hwindow : hot.nextId - hot.maxSize ≤ first)
    (hslots : forall i, i < hot.nextId ->
      ((hot.updates[i]?).isSome = true ↔ first ≤ i)) :
    hot.snapshot.tail =
      (List.range' (first + 1) (hot.nextId - (first + 1))).filterMap
        (fun i => hot.updates[i]?) := by
  rw [snapshot_from (Nat.le_of_lt hlast) hwindow hslots,
    filterMap_from (a := first + 1) (Nat.le_of_lt hlast) hslots hlast,
    Nat.add_sub_cancel_left, List.drop_one]

theorem Unbroken.back (h : Unbroken hot) :
    hot.back = hot.snapshot.getLast? := by
  obtain ⟨first, hlast, hwindow, hslots⟩ := h
  rw [snapshot_from hlast hwindow hslots]
  unfold HotContext.back
  by_cases hempty : hot.nextId = first
  · rw [hempty, Nat.sub_self]
    split
    · rfl
    · next hsome =>
      have hnone : ¬ (hot.updates[hot.nextId - 1]?).isSome = true := by
        rw [hslots (hot.nextId - 1) (by omega)]
        omega
      rw [← hempty]
      simpa using hnone
  · have hlt : first < hot.nextId := by omega
    have hsome := (hslots (hot.nextId - 1) (by omega)).mpr (by omega)
    obtain ⟨u, hu⟩ := Option.isSome_iff_exists.mp hsome
    rw [if_neg (by omega), show hot.nextId - first = (hot.nextId - 1 - first) + 1 by omega,
      List.range'_concat, List.filterMap_append,
      show first + 1 * (hot.nextId - 1 - first) = hot.nextId - 1 by omega,
      List.filterMap_cons, hu]
    simp

theorem Unbroken.recent (h : Unbroken hot) (n : Nat) :
    hot.getRecent n = hot.snapshot.reverse.take n := by
  obtain ⟨first, hlast, hwindow, hslots⟩ := h
  have hlength : hot.snapshot.length = hot.nextId - first := by
    rw [snapshot_from hlast hwindow hslots]
    apply length_filterMap_full
    intro i hge hlt
    exact (hslots i (by omega)).mpr hge
  unfold HotContext.getRecent
  rw [List.filterMap_reverse, filterMap_from hlast hslots (Nat.sub_le _ _),
    ← snapshot_from hlast hwindow hslots, List.take_reverse, hlength]
  congr 1
  by_cases hn : n ≤ hot.maxSize
  · rw [Nat.min_eq_left hn]
    congr 1
    omega
  · rw [Nat.min_eq_right (by omega), Nat.sub_eq_zero_of_le hwindow,
      Nat.sub_eq_zero_of_le (by omega)]

theorem isSome_of_recent
    (hrecent : forall n, hot.getRecent n = hot.snapshot.reverse.take n) {j : Nat}
    (hij : i < j) (hj : j < hot.nextId) (hwindow : hot.nextId - hot.maxSize ≤ i)
    (hi : (hot.updates[i]?).isSome = true) :
    (hot.updates[j]?).isSome = true := by
  have hread := congrArg List.length (hrecent (hot.nextId - j))
  unfold HotContext.getRecent HotContext.snapshot HotContext.idRange at hread
  rw [Nat.min_eq_left (by omega), show hot.nextId - (hot.nextId - j) = j by omega,
    List.filterMap_reverse, List.length_reverse, List.length_take,
    List.length_reverse,
    range'_split (a := hot.nextId - hot.maxSize) (b := j) (c := hot.nextId)
      (by omega) (by omega),
    List.filterMap_append, List.length_append] at hread
  have hbelow : 0 < ((List.range' (hot.nextId - hot.maxSize)
      (j - (hot.nextId - hot.maxSize))).filterMap
        (fun i => hot.updates[i]?)).length := by
    obtain ⟨u, hu⟩ := Option.isSome_iff_exists.mp hi
    exact List.length_pos_of_mem
      (List.mem_filterMap.mpr ⟨i, List.mem_range'_1.mpr ⟨hwindow, by omega⟩, hu⟩)
  have hall : ((List.range' j (hot.nextId - j)).filterMap
      (fun i => hot.updates[i]?)).length = (List.range' j (hot.nextId - j)).length := by
    rw [List.length_range']
    omega
  rw [List.length_filterMap_eq_countP, List.countP_eq_length] at hall
  exact hall j (List.mem_range'_1.mpr ⟨Nat.le_refl j, by omega⟩)

variable {entryId : Uuid} {met : Option Nat}

theorem exists_met (h : hot.meets entryId met = true) (i : Nat)
    (hmet : met = some i) :
    exists u, hot.updates[i]? = some u ∧ u.id = entryId := by
  subst hmet
  obtain ⟨u, hu, hid⟩ := (Option.any_eq_true _ _).mp h
  exact ⟨u, hu, eq_of_beq hid⟩

theorem met_first (hlast : first ≤ hot.nextId)
    (hwindow : hot.nextId - hot.maxSize ≤ first)
    (hslots : forall i, i < hot.nextId ->
      ((hot.updates[i]?).isSome = true ↔ first ≤ i))
    (holdest : forall u, u ∈ hot.snapshot.tail -> u.id ≠ entryId)
    (hi : i < hot.nextId) {u : ContextUpdate} (hu : hot.updates[i]? = some u)
    (hid : u.id = entryId) :
    i = first := by
  have hge := (hslots i hi).mp (Option.isSome_of_eq_some hu)
  by_contra hne
  apply holdest u _ hid
  rw [tail_snapshot (by omega) hwindow hslots]
  exact List.mem_filterMap.mpr
    ⟨i, List.mem_range'_1.mpr ⟨by omega, by omega⟩, hu⟩

theorem slots_removed (hslots : forall i, i < hot.nextId ->
      ((hot.updates[i]?).isSome = true ↔ first ≤ i)) (i : Nat)
    (hi : i < (hot.removeMet (some first)).1.nextId) :
    ((hot.removeMet (some first)).1.updates[i]?).isSome = true ↔ first + 1 ≤ i := by
  simp only [HotContext.removeMet, Std.ExtTreeMap.getElem?_erase,
    Nat.compare_eq_eq]
  by_cases hfirst : first = i
  · simp [hfirst]
  · rw [if_neg hfirst, hslots i hi]
    omega

theorem Unbroken.removeMet (hplaced : Placed s) (h : Unbroken s.tier)
    (hmet : s.tier.meets entryId met = true)
    (holdest : RemovesOldest s (Action.removeById entryId met)) :
    Unbroken (s.tier.removeMet met).1 := by
  cases met with
  | none =>
      exact h
  | some i =>
      obtain ⟨first, hlast, hwindow, hslots⟩ := h
      obtain ⟨u, hu, hid⟩ := exists_met hmet i rfl
      have hi := (hplaced.window (Option.isSome_of_eq_some hu)).2
      have hfirst := met_first hlast hwindow hslots holdest hi hu hid
      subst hfirst
      exact ⟨i + 1, hi, Nat.le_succ_of_le hwindow, slots_removed hslots⟩

theorem Unbroken.step {s s' : State} (hplaced : Placed s) (h : Unbroken s.tier)
    {a : Action} (holdest : RemovesOldest s a) (hs : HotTier.step s a = some s') :
    Unbroken s'.tier := by
  cases a with
  | push update =>
      cases hs
      exact h.push update
  | removeById entryId met =>
      simp only [HotTier.step, Option.ite_none_right_eq_some] at hs
      obtain ⟨hmet, hs⟩ := hs
      cases hs
      exact h.removeMet hplaced hmet holdest
  | clear =>
      cases hs
      exact unbroken_new s.tier.maxSize
  | clone =>
      cases hs
      show Unbroken s.tier.clone
      rw [HotContext.clone_eq]
      exact h
  | fromUpdates updates maxSize =>
      cases hs
      exact (unbroken_new maxSize).pushAll updates

theorem unbroken (h : (tiers maxSize).Reachable RemovesOldest s) :
    Unbroken s.tier :=
  System.Reachable.invariant_of (P := fun s => Unbroken s.tier) (fun _ => placed)
    (unbroken_new maxSize)
    (fun _ _ _ hplaced hP holdest hs => hP.step hplaced holdest hs) h

theorem Placed.sound (h : Placed s) (hunbroken : Unbroken s.tier) :
    Sound s where
  bounded := h.bounded
  length := h.length
  ordered := h.ordered
  back := hunbroken.back
  recent := hunbroken.recent

/-!
# What a removal takes
-/

theorem removeMet_exact (hplaced : Placed s) (h : Unbroken s.tier)
    (hmet : s.tier.meets entryId met = true)
    (holdest : RemovesOldest s (Action.removeById entryId met)) :
    (s.tier.removeMet met).1.snapshot =
      s.tier.snapshot.filter (fun u => u.id != entryId) := by
  cases met with
  | none =>
      show s.tier.snapshot = _
      refine (List.filter_eq_self.mpr ?_).symm
      intro u hu
      obtain ⟨i, -, hi⟩ := List.mem_filterMap.mp hu
      rw [bne_iff_ne]
      intro hid
      have habsent : s.tier.containsId entryId = false := by
        simpa [HotContext.meets] using hmet
      have hcontains := HotContext.containsId_iff.mpr ⟨i, u, hi, hid⟩
      rw [habsent] at hcontains
      cases hcontains
  | some i =>
      obtain ⟨first, hlast, hwindow, hslots⟩ := h
      obtain ⟨u, hu, hid⟩ := exists_met hmet i rfl
      have hi := (hplaced.window (Option.isSome_of_eq_some hu)).2
      have hfirst := met_first hlast hwindow hslots holdest hi hu hid
      subst hfirst
      have hnext : i + 1 ≤ (s.tier.removeMet (some i)).1.nextId := hi
      have htail : (s.tier.removeMet (some i)).1.snapshot = s.tier.snapshot.tail := by
        rw [tail_snapshot hi hwindow hslots,
          snapshot_from hnext (Nat.le_succ_of_le hwindow)
            (slots_removed hslots)]
        apply List.filterMap_congr
        intro j hj
        have hlt := (List.mem_range'_1.mp hj).1
        simp only [HotContext.removeMet, Std.ExtTreeMap.getElem?_erase,
          Nat.compare_eq_eq]
        rw [if_neg (by omega)]
      rw [htail]
      have hcons : s.tier.snapshot = u :: s.tier.snapshot.tail := by
        rw [tail_snapshot hi hwindow hslots, snapshot_from hlast hwindow hslots,
          show s.tier.nextId - i = (s.tier.nextId - (i + 1)) + 1 by omega,
          List.range'_succ, List.filterMap_cons, hu]
      rw [hcons, List.tail_cons, List.filter_cons_of_neg (by simp [hid])]
      refine (List.filter_eq_self.mpr ?_).symm
      intro w hw
      rw [bne_iff_ne]
      exact holdest w hw

/-- A removal that leaves the tier sound and takes exactly the entries with the
id has met the oldest entry. -/
theorem removesOldest_of_exact (hplaced : Placed s) (h : Unbroken s.tier)
    (hmet : s.tier.meets entryId met = true)
    (hsound : Sound ⟨(s.tier.removeMet met).1, crossOut s.log met⟩)
    (hexact : (s.tier.removeMet met).1.snapshot =
      s.tier.snapshot.filter (fun u => u.id != entryId)) :
    RemovesOldest s (Action.removeById entryId met) := by
  intro u hu hid
  obtain ⟨first, hlast, hwindow, hslots⟩ := h
  have hnonempty : first < s.tier.nextId := by
    by_contra hnot
    have hnil : s.tier.snapshot = [] := by
      rw [snapshot_from hlast hwindow hslots, Nat.sub_eq_zero_of_le (by omega)]
      rfl
    rw [hnil] at hu
    cases hu
  rw [tail_snapshot hnonempty hwindow hslots] at hu
  obtain ⟨j, hj, hslot⟩ := List.mem_filterMap.mp hu
  obtain ⟨hafter, hbefore⟩ := List.mem_range'_1.mp hj
  cases met with
  | none =>
      have habsent : s.tier.containsId entryId = false := by
        simpa [HotContext.meets] using hmet
      have hcontains := HotContext.containsId_iff.mpr ⟨j, u, hslot, hid⟩
      rw [habsent] at hcontains
      cases hcontains
  | some i =>
      obtain ⟨w, hw, -⟩ := exists_met hmet i rfl
      obtain ⟨hin, hi⟩ := hplaced.window (Option.isSome_of_eq_some hw)
      have hkeeps : forall k, i ≠ k ->
          (s.tier.removeMet (some i)).1.updates[k]? = s.tier.updates[k]? := by
        intro k hik
        simp only [HotContext.removeMet, Std.ExtTreeMap.getElem?_erase,
          Nat.compare_eq_eq]
        rw [if_neg hik]
      by_cases hij : i = j
      · -- the oldest entry stays below the gap
        have hold : first < i := by omega
        have hsome := isSome_of_recent hsound.recent hold hi hwindow
          (by
            rw [hkeeps first (by omega), hslots first (by omega)])
        simp [HotContext.removeMet] at hsome
      · have hstays : u ∈ (s.tier.removeMet (some i)).1.snapshot := by
          refine List.mem_filterMap.mpr ⟨j, ?_, (hkeeps j hij).trans hslot⟩
          exact List.mem_range'_1.mpr ⟨by
            show s.tier.nextId - s.tier.maxSize ≤ j
            omega, by
            show j < s.tier.nextId - s.tier.maxSize +
              (s.tier.nextId - (s.tier.nextId - s.tier.maxSize))
            omega⟩
        rw [hexact, List.mem_filter] at hstays
        simp [hid] at hstays

/-- In every run whose removals by id name the oldest entry or none, a tier
agrees with what was pushed and not removed, and its readers with each other; and
one more step keeps that, and takes exactly the entries with the id, exactly
when it names the oldest entry or none. -/
theorem hot_tier_sound {maxSize : Nat} {s : State}
    (h : (tiers maxSize).Reachable RemovesOldest s) :
    Sound s ∧
    forall a s', (tiers maxSize).step s a = some s' ->
      (Sound s' ∧ RemovesExactly s s' a ↔ RemovesOldest s a) := by
  have hplaced := placed h
  have hunbroken := unbroken h
  refine ⟨hplaced.sound hunbroken, ?_⟩
  intro a s' hs
  have hplaced' : Placed s' := hplaced.step hs
  constructor
  · intro hafter
    cases a with
    | removeById entryId met =>
        simp only [tiers, HotTier.step, Option.ite_none_right_eq_some] at hs
        obtain ⟨hmet, hs⟩ := hs
        cases hs
        exact removesOldest_of_exact hplaced hunbroken hmet hafter.1 hafter.2
    | push _ | clear | clone | fromUpdates _ _ => exact True.intro
  · intro holdest
    refine ⟨hplaced'.sound (hunbroken.step hplaced holdest hs), ?_⟩
    cases a with
    | removeById entryId met =>
        simp only [tiers, HotTier.step, Option.ite_none_right_eq_some] at hs
        obtain ⟨hmet, hs⟩ := hs
        cases hs
        exact removeMet_exact hplaced hunbroken hmet holdest
    | push _ | clear | clone | fromUpdates _ _ => exact True.intro

def noted (id : Uuid) : ContextUpdate :=
  ContextUpdate.plain id 0 "note"

/-- Pushes past the capacity, a removal of the oldest entry, a clone, and a
removal of an id that is not there. -/
theorem hot_tier_sound_run :
    exists s, (tiers 2).Reachable RemovesOldest s ∧ Sound s ∧
      s.tier.back = some (noted 4) ∧ s.tier.getRecent 5 = [noted 4] := by
  obtain ⟨s, -, hreach, hvalues⟩ := (tiers 2).replay_reaches RemovesOldest
    [Action.push (noted 1), Action.push (noted 2), Action.push (noted 4),
      Action.removeById 2 (some 1), Action.clone, Action.removeById 7 none]
    (fun s => s.tier.back = some (noted 4) ∧ s.tier.getRecent 5 = [noted 4])
    (by decide +kernel)
  exact ⟨s, hreach, (hot_tier_sound hreach).1, hvalues⟩

/-- The newest of two entries is removed: the other one is still in the tier, but
it is neither its back nor its most recent entry. -/
theorem removed_newest_hides_rest :
    ¬ forall (maxSize : Nat) (s : State), 0 < maxSize ->
      (tiers maxSize).Reachable System.Anything s -> Sound s := by
  intro hall
  obtain ⟨s, -, hreach, hback, hlast⟩ := (tiers 2).replay_reaches System.Anything
    [Action.push (noted 1), Action.push (noted 2), Action.removeById 2 (some 1)]
    (fun s => s.tier.back = none ∧ s.tier.snapshot.getLast? = some (noted 1))
    (by decide +kernel)
  have hsound := hall 2 s (by decide) hreach
  have habsurd := hback.symm.trans (hsound.back.trans hlast)
  cases habsurd

end HotTier
end Session
end PostCortex
