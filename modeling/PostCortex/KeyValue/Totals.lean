import Mathlib.Algebra.GroupWithZero.Nat
import PostCortex.KeyValue.Accumulation

/-!
# Totals

The sum of a measure over the entries of a database, through insertions, erasures and
filters.
-/

namespace PostCortex
namespace KeyValue
namespace Database

variable {key value : Type} [Ord key] [Std.TransOrd key]

def total (measure : value -> Nat) (db : Database key value) : Nat :=
  (db.toList.map (fun e => measure e.2)).sum

theorem total_one (db : Database key value) : total (fun _ => 1) db = db.size := by
  rw [total, ← Std.ExtTreeMap.length_toList]
  simp

theorem total_filter (measure : value -> Nat) (db : Database key value)
    (drops : value -> Bool) :
    ((db.toList.filter (fun e => drops e.2)).map (fun e => measure e.2)).sum +
        total measure (db.filter (fun _ v => !drops v)) =
      total measure db := by
  rw [total, total, Std.ExtTreeMap.toList_filter]
  induction db.toList with
  | nil => rfl
  | cons e rest ih =>
      cases hdrops : drops e.2 with
      | true =>
          simp only [List.filter_cons, hdrops, Bool.not_true, if_true, List.map_cons,
            List.sum_cons, Bool.false_eq_true, if_false]
          omega
      | false =>
          simp only [List.filter_cons, hdrops, Bool.not_false, if_true, List.map_cons,
            List.sum_cons, Bool.false_eq_true, if_false]
          omega

variable [Std.LawfulEqOrd key]

theorem total_insert (measure : value -> Nat) (db : Database key value) (k : key)
    (v : value) :
    total measure (db.insert k v) = measure v + total measure (db.erase k) := by
  rw [total, ((toList_insert_perm db k v).map _).sum_eq]
  exact List.sum_cons

theorem total_erase (measure : value -> Nat) {db : Database key value} {k : key} {v : value}
    (h : db[k]? = some v) :
    total measure db = measure v + total measure (db.erase k) := by
  rw [← total_insert, insert_eq_self h]

end Database
end KeyValue
end PostCortex
