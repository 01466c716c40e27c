import Mathlib.Data.List.Sort
import PostCortex.KeyValue.Database

/-!
# Tables keyed by their rows

A table in which each row stands under the key that it has: its rows have different keys,
and a row with a free key changes no other.
-/

namespace PostCortex
namespace KeyValue

variable {key row : Type} [Ord key] [Std.TransOrd key] [Std.LawfulEqOrd key]

def Keyed (f : row -> key) (table : Database key row) : Prop :=
  forall k r, table[k]? = some r -> k = f r

namespace Keyed

variable {f : row -> key} {table : Database key row} {r : row}

theorem mem_rows (h : Keyed f table) :
    r ∈ table.toList.map Prod.snd ↔ table[f r]? = some r := by
  rw [List.mem_map]
  constructor
  · rintro ⟨⟨k, r⟩, hmem, rfl⟩
    have hrow := Std.ExtTreeMap.mem_toList_iff_getElem?_eq_some.mp hmem
    rwa [← h k r hrow]
  · intro hrow
    exact ⟨(_, r), Std.ExtTreeMap.mem_toList_iff_getElem?_eq_some.mpr hrow, rfl⟩

theorem pairwise_rows (h : Keyed f table) :
    (table.toList.map Prod.snd).Pairwise (fun r s => f r ≠ f s) := by
  refine List.pairwise_map.mpr (Std.ExtTreeMap.distinct_keys_toList.imp_of_mem ?_)
  intro e e' he he' hne heq
  rw [h _ _ (Std.ExtTreeMap.mem_toList_iff_getElem?_eq_some.mp he),
    h _ _ (Std.ExtTreeMap.mem_toList_iff_getElem?_eq_some.mp he'), heq] at hne
  exact hne Std.ReflCmp.compare_self

theorem sorted {rank : Type} [LinearOrder rank] (h : Keyed f table) {p : row -> Prop}
    [DecidablePred p] {g : row -> rank} (hg : forall r s, p r -> p s -> g r = g s -> f r = f s) :
    (((table.toList.map Prod.snd).filter p).insertionSort (fun r s => g r ≤ g s)).Pairwise
      (fun r s => g r < g s) := by
  have htotal : Std.Total (fun r s => g r ≤ g s) := ⟨fun r s => le_total (g r) (g s)⟩
  have htrans : IsTrans row (fun r s => g r ≤ g s) := ⟨fun _ _ _ => le_trans⟩
  refine ((List.pairwise_insertionSort _ _).and ((List.perm_insertionSort _ _).symm.pairwise
    (h.pairwise_rows.filter _) (fun hne => hne.symm))).imp_of_mem ?_
  intro r s hr hs hrs
  rw [List.mem_insertionSort, List.mem_filter, decide_eq_true_eq] at hr hs
  exact lt_of_le_of_ne hrs.1 (fun heq => hrs.2 (hg r s hr.2 hs.2 heq))

theorem insert (h : Keyed f table) (r : row) : Keyed f (table.insert (f r) r) := by
  classical
  intro k s hrow
  rw [Database.get_insert] at hrow
  split at hrow
  · next hk =>
    cases hrow
    exact hk.symm
  · exact h k s hrow

theorem get_insert (hfree : table[f r]? = none) {s : row} :
    (table.insert (f r) r)[f s]? = some s ↔ table[f s]? = some s ∨ s = r := by
  classical
  rw [Database.get_insert]
  split
  · next hk =>
    rw [← hk, hfree]
    simp [eq_comm]
  · next hk =>
    refine (or_iff_left ?_).symm
    rintro rfl
    exact hk rfl

end Keyed
end KeyValue
end PostCortex
