import Mathlib.Logic.Relation
import Mathlib.Data.List.Basic

/-!
# Merging keys pair by pair

A list of pairs of keys worked off against an index: each pair makes the keys of
the one name lead to the other, when both are known.  Two keys lead to one name in
the end when a chain of pairs of known keys joins them.
-/

namespace PostCortex
namespace Naming

variable {Name Key : Type} [DecidableEq Name]

def mergeKeys (index : Key -> Option Name) (pair : Key × Key) :
    Key -> Option Name :=
  match index pair.1, index pair.2 with
  | some gone, some into =>
      fun k => if index k = some gone then some into else index k
  | _, _ => index

/-- Known keys that lead to one name or make a pair. -/
structure Adjacent (index : Key -> Option Name) (pairs : List (Key × Key))
    (j k : Key) : Prop where
  left : index j ≠ none
  right : index k ≠ none
  joined : index j = index k ∨ (j, k) ∈ pairs

def OfPair (index : Key -> Option Name) (pair : Key × Key) (k : Key) : Prop :=
  index k = index pair.1 ∨ index k = index pair.2

variable {index : Key -> Option Name} {pair : Key × Key} {k : Key}

theorem mergeKeys_none :
    mergeKeys index pair k = none ↔ index k = none := by
  unfold mergeKeys
  cases index pair.1 with
  | none => exact Iff.rfl
  | some gone =>
      cases index pair.2 with
      | none => exact Iff.rfl
      | some into =>
          dsimp only
          split
          · next hk => simp [hk]
          · exact Iff.rfl

variable {j : Key}

/-- Two keys come to lead to one name when they did, or when each of them led to a
name of the pair. -/
theorem mergeKeys_eq_iff :
    mergeKeys index pair j = mergeKeys index pair k ↔
      index j = index k ∨ (index pair.1 ≠ none ∧ index pair.2 ≠ none ∧
        OfPair index pair j ∧ OfPair index pair k) := by
  unfold mergeKeys OfPair
  cases hgone : index pair.1 with
  | none => simp
  | some gone =>
      cases hinto : index pair.2 with
      | none => simp
      | some into =>
          dsimp only
          constructor
          · intro heq
            split at heq
            · next hj =>
              split at heq
              · next hk => exact Or.inl (hj.trans hk.symm)
              · exact Or.inr ⟨Option.some_ne_none _, Option.some_ne_none _,
                  Or.inl hj, Or.inr heq.symm⟩
            · split at heq
              · next hk =>
                exact Or.inr ⟨Option.some_ne_none _, Option.some_ne_none _,
                  Or.inr heq, Or.inl hk⟩
              · exact Or.inl heq
          · intro hcase
            rcases hcase with heq | ⟨-, -, hj, hk⟩
            · rw [heq]
            · have hend : forall i, index i = some gone ∨ index i = some into ->
                  (if index i = some gone then some into else index i) =
                    some into := by
                intro i hi
                split
                · rfl
                · next hne => exact hi.resolve_left hne
              rw [hend j hj, hend k hk]

theorem foldl_mergeKeys_none (pairs : List (Key × Key)) :
    pairs.foldl mergeKeys index k = none ↔ index k = none := by
  induction pairs generalizing index with
  | nil =>
      exact Iff.rfl
  | cons pair rest ih =>
      exact ih.trans mergeKeys_none

variable {rest : List (Key × Key)}

theorem Adjacent.before (h : Adjacent (mergeKeys index pair) rest j k) :
    Relation.EqvGen (Adjacent index (pair :: rest)) j k := by
  have hj : index j ≠ none := fun hnone => h.left (mergeKeys_none.mpr hnone)
  have hk : index k ≠ none := fun hnone => h.right (mergeKeys_none.mpr hnone)
  rcases h.joined with hsame | hpair
  · rcases mergeKeys_eq_iff.mp hsame with heq | ⟨hfirst, hsecond, hjpair, hkpair⟩
    · exact Relation.EqvGen.rel j k ⟨hj, hk, Or.inl heq⟩
    · have hjoined : Relation.EqvGen (Adjacent index (pair :: rest))
          pair.1 pair.2 :=
        Relation.EqvGen.rel _ _ ⟨hfirst, hsecond, Or.inr List.mem_cons_self⟩
      have hreaches : forall i, index i ≠ none -> OfPair index pair i ->
          Relation.EqvGen (Adjacent index (pair :: rest)) i pair.2 := by
        intro i hi hof
        rcases hof with heq | heq
        · exact Relation.EqvGen.trans _ _ _
            (Relation.EqvGen.rel _ _ ⟨hi, hfirst, Or.inl heq⟩) hjoined
        · exact Relation.EqvGen.rel _ _ ⟨hi, hsecond, Or.inl heq⟩
      exact Relation.EqvGen.trans _ _ _ (hreaches j hj hjpair)
        (Relation.EqvGen.symm _ _ (hreaches k hk hkpair))
  · exact Relation.EqvGen.rel j k ⟨hj, hk, Or.inr (List.mem_cons_of_mem _ hpair)⟩

theorem Adjacent.after (h : Adjacent index (pair :: rest) j k) :
    Adjacent (mergeKeys index pair) rest j k where
  left := fun hnone => h.left (mergeKeys_none.mp hnone)
  right := fun hnone => h.right (mergeKeys_none.mp hnone)
  joined := by
    rcases h.joined with heq | hmem
    · exact Or.inl (mergeKeys_eq_iff.mpr (Or.inl heq))
    · rcases List.mem_cons.mp hmem with hpair | hrest
      · refine Or.inl (mergeKeys_eq_iff.mpr (Or.inr ?_))
        rw [← hpair]
        exact ⟨h.left, h.right, Or.inl rfl, Or.inr rfl⟩
      · exact Or.inr hrest

/-- Known keys lead to one name in the end when a chain of known keys joins them,
each to the next by one name or by a pair. -/
theorem foldl_mergeKeys_eq_iff {pairs : List (Key × Key)} (hj : index j ≠ none)
    (hk : index k ≠ none) :
    pairs.foldl mergeKeys index j = pairs.foldl mergeKeys index k ↔
      Relation.EqvGen (Adjacent index pairs) j k := by
  induction pairs generalizing index with
  | nil =>
      constructor
      · intro heq
        exact Relation.EqvGen.rel j k ⟨hj, hk, Or.inl heq⟩
      · intro hchain
        clear hj hk
        induction hchain with
        | rel a b hab => exact hab.joined.resolve_right List.not_mem_nil
        | refl a => rfl
        | symm a b _ ih => exact ih.symm
        | trans a b c _ _ ihab ihbc => exact ihab.trans ihbc
  | cons pair rest ih =>
      have hj' : mergeKeys index pair j ≠ none :=
        fun hnone => hj (mergeKeys_none.mp hnone)
      have hk' : mergeKeys index pair k ≠ none :=
        fun hnone => hk (mergeKeys_none.mp hnone)
      refine (ih hj' hk').trans ?_
      constructor
      · exact Relation.EqvGen.eqvGen_le (fun _ _ hab => hab.before) j k
      · exact Relation.EqvGen.mono (fun _ _ hab => hab.after) j k

end Naming
end PostCortex
