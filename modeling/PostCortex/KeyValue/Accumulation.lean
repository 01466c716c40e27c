import Mathlib.Algebra.BigOperators.Group.List.Basic
import Mathlib.Algebra.Ring.Defs
import PostCortex.KeyValue.Grouping

/-!
# Accumulated weights

A database of weights to which weights are added key by key.  What any linear
measure of the database gains is the measure of what is added.
-/

namespace PostCortex
namespace KeyValue
namespace Database

variable {key weight : Type} [Ord key] [Std.TransOrd key] [CommSemiring weight]

def accumulate (db : Database key weight) (k : key) (w : weight) :
    Database key weight :=
  db.insert k (db[k]?.getD 0 + w)

def weigh (factor : key -> weight) (db : Database key weight) : weight :=
  (db.toList.map (fun e => factor e.1 * e.2)).sum

theorem weigh_empty (factor : key -> weight) :
    weigh factor (∅ : Database key weight) = 0 := by
  have hnil : (∅ : Database key weight).toList = [] := rfl
  rw [weigh, hnil]
  rfl

variable [Std.LawfulEqOrd key]

omit [CommSemiring weight] [Std.LawfulEqOrd key] in
theorem toList_nodup (db : Database key weight) :
    (db.toList.map Prod.fst).Nodup := by
  rw [Std.ExtTreeMap.map_fst_toList_eq_keys]
  exact Std.ExtTreeMap.nodup_keys

omit [CommSemiring weight] in
theorem toList_insert_perm (db : Database key weight) (k : key) (w : weight) :
    (db.insert k w).toList.Perm ((k, w) :: (db.erase k).toList) := by
  classical
  have herase : (db.insert k w).erase k = db.erase k := by
    refine Std.ExtTreeMap.ext_getElem? ?_
    intro k'
    by_cases hk : k = k'
    · simp [hk]
    · simp [Std.ExtTreeMap.getElem?_erase, get_insert, hk]
  have hmem : (k, w) ∈ (db.insert k w).toList :=
    Std.ExtTreeMap.mem_toList_iff_getElem?_eq_some.mpr (by simp)
  have hperm := perm_cons_filter (toList_nodup (db.insert k w)) hmem
  rw [← toList_erase, herase] at hperm
  exact hperm

theorem weigh_insert (factor : key -> weight) (db : Database key weight) (k : key)
    (w : weight) :
    weigh factor (db.insert k w) = factor k * w + weigh factor (db.erase k) := by
  rw [weigh, ((toList_insert_perm db k w).map _).sum_eq]
  exact List.sum_cons

variable {db : Database key weight} {k : key}

omit [CommSemiring weight] in
theorem insert_eq_self {w : weight} (h : db[k]? = some w) : db.insert k w = db := by
  classical
  refine Std.ExtTreeMap.ext_getElem? ?_
  intro k'
  by_cases heq : k = k'
  · rw [← heq, h]
    simp
  · simp [get_insert, heq]

omit [CommSemiring weight] in
theorem erase_eq_self (h : db[k]? = none) :
    db.erase k = db := by
  refine Std.ExtTreeMap.ext_getElem? ?_
  intro k'
  by_cases heq : k = k'
  · rw [← heq, h]
    simp
  · simp [Std.ExtTreeMap.getElem?_erase, heq]

theorem weigh_erase (factor : key -> weight) (db : Database key weight) (k : key) :
    weigh factor db = factor k * db[k]?.getD 0 + weigh factor (db.erase k) := by
  cases hk : db[k]? with
  | none =>
      rw [erase_eq_self hk]
      simp
  | some w => rw [Option.getD_some, ← weigh_insert factor db k w, insert_eq_self hk]

theorem weigh_accumulate (factor : key -> weight) (db : Database key weight)
    (k : key) (w : weight) :
    weigh factor (db.accumulate k w) = weigh factor db + factor k * w := by
  rw [accumulate, weigh_insert, weigh_erase factor db k, mul_add, add_right_comm]

theorem get_accumulate [DecidableEq key] (db : Database key weight) (k c : key)
    (w : weight) :
    (db.accumulate k w)[c]?.getD 0 = db[c]?.getD 0 + if k = c then w else 0 := by
  rw [accumulate, get_insert]
  by_cases hk : k = c
  · rw [if_pos hk, if_pos hk, hk]
    rfl
  · rw [if_neg hk, if_neg hk, add_zero]

theorem accumulate_forall {good : key -> weight -> Prop} {w : weight}
    (h : forall k' v, db[k']? = some v -> good k' v) (hnew : good k w)
    (hsum : forall v, good k v -> good k (v + w)) {k' : key} {v : weight}
    (hv : (db.accumulate k w)[k']? = some v) :
    good k' v := by
  classical
  rw [accumulate, get_insert] at hv
  by_cases hk : k = k'
  · subst hk
    rw [if_pos rfl] at hv
    cases hv
    cases hold : db[k]? with
    | none =>
        rw [Option.getD_none, zero_add]
        exact hnew
    | some u => exact hsum u (h k u hold)
  · rw [if_neg hk] at hv
    exact h k' v hv

end Database
end KeyValue
end PostCortex
