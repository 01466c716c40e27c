import Mathlib.Data.List.Induction
import Mathlib.Data.List.Nodup

/-!
# Lists of entries with one for each key

An entry is put into a list in place of the one that has its key, merged with it, or
at the end.  What a list of entries makes of a key is the merge of the entries that
have it.
-/

namespace PostCortex
namespace KeyValue

variable {item key : Type} [DecidableEq key]

def upsert (keyOf : item -> key) (merge : item -> item -> item) (x : item) :
    List item -> List item
  | [] => [x]
  | y :: rest =>
      if keyOf y = keyOf x then merge y x :: rest
      else y :: upsert keyOf merge x rest

def upsertAll (keyOf : item -> key) (merge : item -> item -> item)
    (xs entries : List item) : List item :=
  xs.foldl (fun entries x => upsert keyOf merge x entries) entries

def entryOf (keyOf : item -> key) (k : key) (entries : List item) : Option item :=
  entries.find? (fun y => keyOf y = k)

def merged (merge : item -> item -> item) : List item -> Option item
  | [] => none
  | x :: rest => some (rest.foldl merge x)

def KeepsKey (keyOf : item -> key) (merge : item -> item -> item) : Prop :=
  forall x y, keyOf x = keyOf y -> keyOf (merge x y) = keyOf x

variable {keyOf : item -> key} {merge : item -> item -> item}

omit [DecidableEq key] in
theorem merged_snoc (merge : item -> item -> item) (xs : List item) (x : item) :
    merged merge (xs ++ [x]) =
      some ((merged merge xs).elim x (fun y => merge y x)) := by
  cases xs with
  | nil => rfl
  | cons y rest =>
      simp [merged]

theorem keys_upsert (h : KeepsKey keyOf merge) (x : item) (entries : List item) :
    (upsert keyOf merge x entries).map keyOf =
      if keyOf x ∈ entries.map keyOf then entries.map keyOf
      else entries.map keyOf ++ [keyOf x] := by
  induction entries with
  | nil =>
      simp [upsert]
  | cons y rest ih =>
      rw [upsert]
      by_cases hkey : keyOf y = keyOf x
      · rw [if_pos hkey, List.map_cons, h y x hkey, if_pos]
        · rfl
        · rw [List.map_cons, hkey]
          exact List.mem_cons_self
      · rw [if_neg hkey, List.map_cons, ih, List.map_cons]
        by_cases hmem : keyOf x ∈ rest.map keyOf
        · rw [if_pos hmem, if_pos (List.mem_cons_of_mem _ hmem)]
        · have hnew : keyOf x ∉ keyOf y :: rest.map keyOf := fun hx =>
            (List.mem_cons.mp hx).elim (fun heq => hkey heq.symm) hmem
          rw [if_neg hmem, if_neg hnew]
          rfl

variable {entries : List item}

theorem nodup_upsert (h : KeepsKey keyOf merge) (x : item)
    (hentries : (entries.map keyOf).Nodup) :
    ((upsert keyOf merge x entries).map keyOf).Nodup := by
  rw [keys_upsert h]
  split
  · exact hentries
  · next hnew =>
      rw [← List.concat_eq_append]
      exact hentries.concat hnew

theorem nodup_upsertAll (h : KeepsKey keyOf merge) (xs : List item)
    (hentries : (entries.map keyOf).Nodup) :
    ((upsertAll keyOf merge xs entries).map keyOf).Nodup := by
  induction xs generalizing entries with
  | nil => exact hentries
  | cons x rest ih => exact ih (nodup_upsert h x hentries)

theorem entryOf_upsert (h : KeepsKey keyOf merge) (k : key) (x : item)
    (entries : List item) :
    entryOf keyOf k (upsert keyOf merge x entries) =
      if keyOf x = k then
        some ((entryOf keyOf k entries).elim x (fun y => merge y x))
      else entryOf keyOf k entries := by
  induction entries with
  | nil =>
      by_cases hk : keyOf x = k
      · simp [upsert, entryOf, hk]
      · simp [upsert, entryOf, hk]
  | cons y rest ih =>
      unfold entryOf at ih ⊢
      rw [upsert]
      by_cases hkey : keyOf y = keyOf x
      · rw [if_pos hkey, List.find?_cons, List.find?_cons, h y x hkey, hkey]
        by_cases hk : keyOf x = k
        · simp [hk]
        · simp [hk]
      · rw [if_neg hkey, List.find?_cons, List.find?_cons, ih]
        by_cases hk : keyOf x = k
        · rw [hk] at hkey
          simp [hk, hkey]
        · simp [hk]

theorem entryOf_upsertAll (h : KeepsKey keyOf merge) (k : key) (xs : List item) :
    entryOf keyOf k (upsertAll keyOf merge xs []) =
      merged merge (xs.filter (fun x => keyOf x = k)) := by
  induction xs using List.reverseRecOn with
  | nil => rfl
  | append_singleton xs x ih =>
      rw [upsertAll, List.foldl_append, List.foldl_cons, List.foldl_nil]
      rw [upsertAll] at ih
      rw [entryOf_upsert h, ih, List.filter_append]
      by_cases hk : keyOf x = k
      · rw [if_pos hk, List.filter_cons_of_pos (by simpa using hk), List.filter_nil,
          merged_snoc]
      · rw [if_neg hk, List.filter_cons_of_neg (by simpa using hk), List.filter_nil,
          List.append_nil]

variable {x : item}

theorem entryOf_mem {k : key} (h : entryOf keyOf k entries = some x) :
    x ∈ entries ∧ keyOf x = k :=
  ⟨List.mem_of_find?_eq_some h, by simpa using List.find?_some h⟩

theorem mem_entryOf (hentries : (entries.map keyOf).Nodup) (hx : x ∈ entries) :
    entryOf keyOf (keyOf x) entries = some x := by
  cases hentry : entryOf keyOf (keyOf x) entries with
  | none =>
      have hnone := List.find?_eq_none.mp hentry x hx
      simp at hnone
  | some y =>
      obtain ⟨hy, hkey⟩ := entryOf_mem hentry
      rw [List.inj_on_of_nodup_map hentries hy hx hkey]

variable {xs : List item}

theorem mem_upsertAll (h : KeepsKey keyOf merge) :
    x ∈ upsertAll keyOf merge xs [] ↔
      merged merge (xs.filter (fun y => keyOf y = keyOf x)) = some x := by
  have hnodup : ((upsertAll keyOf merge xs []).map keyOf).Nodup :=
    nodup_upsertAll h xs List.nodup_nil
  rw [← entryOf_upsertAll h]
  constructor
  · exact mem_entryOf hnodup
  · exact fun hentry => (entryOf_mem hentry).1

theorem mem_keys_upsertAll (h : KeepsKey keyOf merge) {k : key} :
    k ∈ (upsertAll keyOf merge xs []).map keyOf ↔ k ∈ xs.map keyOf := by
  have hentry := entryOf_upsertAll h k xs
  constructor
  · intro hk
    obtain ⟨x, hx, rfl⟩ := List.mem_map.mp hk
    have hmerged := (mem_upsertAll h).mp hx
    cases hfilter : xs.filter (fun y => keyOf y = keyOf x) with
    | nil =>
        rw [hfilter] at hmerged
        cases hmerged
    | cons y rest =>
        have hy : y ∈ xs.filter (fun y => keyOf y = keyOf x) := by
          rw [hfilter]
          exact List.mem_cons_self
        obtain ⟨hmem, hkey⟩ := List.mem_filter.mp hy
        exact List.mem_map.mpr ⟨y, hmem, of_decide_eq_true hkey⟩
  · intro hk
    obtain ⟨x, hx, rfl⟩ := List.mem_map.mp hk
    have hmem : x ∈ xs.filter (fun y => keyOf y = keyOf x) :=
      List.mem_filter.mpr ⟨hx, decide_eq_true rfl⟩
    cases hfilter : xs.filter (fun y => keyOf y = keyOf x) with
    | nil =>
        rw [hfilter] at hmem
        cases hmem
    | cons y rest =>
        rw [hfilter] at hentry
        obtain ⟨hentry, hkey⟩ := entryOf_mem hentry
        exact List.mem_map.mpr ⟨_, hentry, hkey⟩

/-!
# Merging into the best
-/

omit [DecidableEq key] in
theorem foldl_merge_mem (h : forall x y, merge x y = x ∨ merge x y = y) (x : item)
    (rest : List item) :
    rest.foldl merge x ∈ x :: rest := by
  induction rest generalizing x with
  | nil =>
      exact List.mem_cons_self
  | cons y rest ih =>
      rw [List.foldl_cons]
      rcases List.mem_cons.mp (ih (merge x y)) with heq | hmem
      · rw [heq]
        rcases h x y with hx | hy
        · rw [hx]
          exact List.mem_cons_self
        · rw [hy]
          exact List.mem_cons_of_mem _ List.mem_cons_self
      · exact List.mem_cons_of_mem _ (List.mem_cons_of_mem _ hmem)

theorem merged_mem (h : forall x y, merge x y = x ∨ merge x y = y)
    (hx : merged merge xs = some x) :
    x ∈ xs := by
  cases xs with
  | nil => cases hx
  | cons y rest =>
      cases hx
      exact foldl_merge_mem h y rest

variable {le : item -> item -> Prop}

theorem le_foldl_merge (hrefl : forall x, le x x)
    (htrans : forall x y z, le x y -> le y z -> le x z)
    (hold : forall x y, le x (merge x y)) (hnew : forall x y, le y (merge x y))
    (x : item) (rest : List item) :
    forall y, y ∈ x :: rest -> le y (rest.foldl merge x) := by
  induction rest generalizing x with
  | nil =>
      intro y hy
      rw [List.mem_singleton.mp hy]
      exact hrefl x
  | cons z rest ih =>
      intro y hy
      rw [List.foldl_cons]
      have hmerged := ih (merge x z) (merge x z) List.mem_cons_self
      rcases List.mem_cons.mp hy with rfl | hy
      · exact htrans _ _ _ (hold y z) hmerged
      rcases List.mem_cons.mp hy with rfl | hy
      · exact htrans _ _ _ (hnew x y) hmerged
      · exact ih (merge x z) y (List.mem_cons_of_mem _ hy)

theorem le_merged (hrefl : forall x, le x x)
    (htrans : forall x y z, le x y -> le y z -> le x z)
    (hold : forall x y, le x (merge x y)) (hnew : forall x y, le y (merge x y))
    (hx : merged merge xs = some x) :
    forall y, y ∈ xs -> le y x := by
  cases xs with
  | nil => cases hx
  | cons y rest =>
      cases hx
      exact le_foldl_merge hrefl htrans hold hnew y rest

end KeyValue
end PostCortex
