import Mathlib.Data.List.Sort
import PostCortex.KeyValue.Database

/-!
# Indexes by group

A database that lists, for each key, the items of that key, or counts them, and
has no entry for a key without items.  The lemmas say what an entry holds after
an item is added and after one is taken out.
-/

namespace PostCortex
namespace KeyValue

section

variable {item : Type}

def present (xs : List item) : Option (List item) :=
  if xs = [] then none else some xs

def positive (n : Nat) : Option Nat :=
  if n = 0 then none else some n

def push (x : item) (entry : Option (List item)) : Option (List item) :=
  some (entry.getD [] ++ [x])

def retain (keep : item -> Bool) : Option (List item) -> Option (List item)
  | none => none
  | some xs => present (xs.filter keep)

def increment (entry : Option Nat) : Option Nat :=
  some (entry.getD 0 + 1)

def decrement : Option Nat -> Option Nat
  | none => none
  | some n => positive (n - 1)

@[simp] theorem present_nil : present ([] : List item) = none := by
  simp [present]

theorem push_present (x : item) (xs : List item) :
    push x (present xs) = present (xs ++ [x]) := by
  unfold push present
  split
  · next hnil =>
    simp [hnil]
  · simp

theorem retain_present (keep : item -> Bool) (xs : List item) :
    retain keep (present xs) = present (xs.filter keep) := by
  unfold present
  split
  · next hnil =>
    simp [hnil, retain]
  · rfl

theorem increment_positive (n : Nat) :
    increment (positive n) = positive (n + 1) := by
  unfold increment positive
  split
  · next hzero =>
    simp [hzero]
  · simp

theorem decrement_positive (n : Nat) :
    decrement (positive (n + 1)) = positive n :=
  rfl

theorem positive_ne_zero (n : Nat) : positive n ≠ some 0 := by
  unfold positive
  split
  · nofun
  · next hpos =>
    exact fun h => hpos (Option.some.inj h)

theorem perm_cons_filter {key value : Type} [DecidableEq key]
    {records : List (key × value)} {k : key} {v : value}
    (hnodup : (records.map Prod.fst).Nodup) (hmem : (k, v) ∈ records) :
    records.Perm ((k, v) :: records.filter (fun r => r.1 ≠ k)) := by
  have hrows : records.Nodup := List.Nodup.of_map _ hnodup
  refine (List.perm_ext_iff_of_nodup hrows ?_).mpr ?_
  · refine List.nodup_cons.mpr ⟨?_, hrows.filter _⟩
    intro h
    have hne := (List.mem_filter.mp h).2
    simp at hne
  · intro r
    rw [List.mem_cons, List.mem_filter]
    constructor
    · intro hr
      by_cases hk : r.1 = k
      · exact Or.inl (List.inj_on_of_nodup_map hnodup hr hmem hk)
      · exact Or.inr ⟨hr, decide_eq_true hk⟩
    · rintro (rfl | ⟨hr, _⟩)
      · exact hmem
      · exact hr

end

namespace Database

variable {key value item : Type} [Ord key] [Std.TransOrd key]
  [Std.LawfulEqOrd key]

theorem get_alter (db : Database key value) (k k' : key)
    (f : Option value -> Option value) [Decidable (k = k')] :
    (db.alter k f)[k']? = if k = k' then f db[k]? else db[k']? := by
  rw [Std.ExtTreeMap.getElem?_alter]
  by_cases hk : k = k'
  · rw [if_pos hk, if_pos (hk ▸ Std.ReflCmp.compare_self)]
  · rw [if_neg hk, if_neg (fun h => hk (Std.LawfulEqCmp.eq_of_compare h))]

def alterAll (db : Database key value) (f : item -> key)
    (g : item -> Option value -> Option value) (items : List item) :
    Database key value :=
  items.foldl (fun db x => db.alter (f x) (g x)) db

variable {f : item -> key} {items : List item} {k : key}

theorem get_alterAll_other (db : Database key value)
    (g : item -> Option value -> Option value) (hk : forall x, x ∈ items -> f x ≠ k) :
    (db.alterAll f g items)[k]? = db[k]? := by
  classical
  induction items generalizing db with
  | nil =>
      rfl
  | cons x rest ih =>
      rw [alterAll, List.foldl_cons, ← alterAll,
        ih _ (fun y hy => hk y (List.mem_cons_of_mem _ hy)), get_alter,
        if_neg (hk x List.mem_cons_self)]

theorem get_alterAll_mem (db : Database key value)
    (g : item -> Option value -> Option value) (hkeys : (items.map f).Nodup)
    {x : item} (hx : x ∈ items) :
    (db.alterAll f g items)[f x]? = g x db[f x]? := by
  classical
  induction items generalizing db with
  | nil =>
      cases hx
  | cons y rest ih =>
      rw [List.map_cons, List.nodup_cons] at hkeys
      rw [alterAll, List.foldl_cons, ← alterAll]
      rcases List.mem_cons.mp hx with rfl | hrest
      · rw [get_alterAll_other, get_alter, if_pos rfl]
        intro z hz heq
        exact hkeys.1 (heq ▸ List.mem_map_of_mem hz)
      · have hne : f y ≠ f x := by
          intro heq
          exact hkeys.1 (heq ▸ List.mem_map_of_mem hrest)
        rw [ih _ hkeys.2 hrest, get_alter, if_neg hne]

/-!
# The records in order
-/

theorem get_ofList {records : List (key × value)}
    (hnodup : (records.map Prod.fst).Nodup) {v : value} :
    (Std.ExtTreeMap.ofList records)[k]? = some v ↔ (k, v) ∈ records := by
  classical
  have hdistinct : records.Pairwise (fun x y => ¬ compare x.1 y.1 = Ordering.eq) :=
    (List.pairwise_map.mp hnodup).imp
      (fun hne heq => hne (Std.LawfulEqOrd.eq_of_compare heq))
  have hget : forall {w : value}, (k, w) ∈ records ->
      (Std.ExtTreeMap.ofList records)[k]? = some w :=
    fun hw => Std.ExtTreeMap.getElem?_ofList_of_mem Std.ReflCmp.compare_self hdistinct hw
  refine ⟨?_, hget⟩
  intro hv
  have hmem : k ∈ Std.ExtTreeMap.ofList records :=
    Std.ExtTreeMap.mem_iff_isSome_getElem?.mpr (by rw [hv]; rfl)
  rw [Std.ExtTreeMap.mem_ofList, List.contains_iff_mem] at hmem
  obtain ⟨⟨k', w⟩, hw, rfl⟩ := List.mem_map.mp hmem
  rw [hget hw] at hv
  rw [← Option.some.inj hv]
  exact hw

omit [Std.LawfulEqOrd key] in
theorem eq_of_ordered {xs ys : List (key × value)}
    (hxs : xs.Pairwise (fun x y => compare x.1 y.1 = Ordering.lt))
    (hys : ys.Pairwise (fun x y => compare x.1 y.1 = Ordering.lt))
    (h : forall e, e ∈ xs ↔ e ∈ ys) :
    xs = ys := by
  have : Std.Irrefl (fun x y : key × value => compare x.1 y.1 = Ordering.lt) :=
    ⟨fun x hx => by
      have hself : compare x.1 x.1 = Ordering.eq := Std.ReflCmp.compare_self
      rw [hself] at hx
      cases hx⟩
  have : Std.Antisymm (fun x y : key × value => compare x.1 y.1 = Ordering.lt) :=
    ⟨fun x y hxy hyx => by
      have hswap : compare y.1 x.1 = (compare x.1 y.1).swap :=
        Std.OrientedCmp.eq_swap
      rw [hswap, hxy] at hyx
      cases hyx⟩
  exact hxs.eq_of_mem_iff hys h

theorem toList_erase (db : Database key value) (k : key)
    [DecidablePred (fun e : key × value => e.1 ≠ k)] :
    (db.erase k).toList = db.toList.filter (fun e => e.1 ≠ k) := by
  classical
  refine eq_of_ordered Std.ExtTreeMap.ordered_keys_toList
    (Std.ExtTreeMap.ordered_keys_toList.filter _) ?_
  intro e
  have hmem : forall (db : Database key value), e ∈ db.toList ↔
      db[e.1]? = some e.2 :=
    fun _ => Std.ExtTreeMap.mem_toList_iff_getElem?_eq_some
  rw [List.mem_filter, hmem, hmem]
  by_cases hk : e.1 = k
  · simp [hk]
  · have hkept : (db.erase k)[e.1]? = db[e.1]? :=
      get_apply_other db (e := Edit.delete k) (Ne.symm hk)
    simp [hk, hkept]

theorem toList_insert_last (db : Database key value) (v : value)
    (hlast : forall e, e ∈ db.toList -> compare e.1 k = Ordering.lt) :
    (db.insert k v).toList = db.toList ++ [(k, v)] := by
  refine eq_of_ordered Std.ExtTreeMap.ordered_keys_toList ?_ ?_
  · refine List.pairwise_append.mpr ⟨Std.ExtTreeMap.ordered_keys_toList,
      List.pairwise_singleton _ _, ?_⟩
    intro e he e' he'
    rw [List.mem_singleton.mp he']
    exact hlast e he
  · intro e
    have hmem : forall (db : Database key value), e ∈ db.toList ↔
        db[e.1]? = some e.2 :=
      fun _ => Std.ExtTreeMap.mem_toList_iff_getElem?_eq_some
    rw [List.mem_append, List.mem_singleton, hmem]
    by_cases hk : k = e.1
    · have hfresh : e ∉ db.toList := by
        intro he
        have hlt := hlast e he
        have hself : compare e.1 e.1 = Ordering.eq := Std.ReflCmp.compare_self
        rw [hk, hself] at hlt
        cases hlt
      have hnew : (db.insert k v)[e.1]? = some v := by
        rw [← hk]
        exact get_put_self db k v
      rw [hnew]
      constructor
      · intro hv
        right
        rw [Option.some.inj hv, hk]
      · rintro (hold | rfl)
        · exact absurd hold hfresh
        · rfl
    · have hkept : (db.insert k v)[e.1]? = db[e.1]? :=
        get_apply_other db (e := Edit.put k v) hk
      rw [hkept, hmem]
      constructor
      · exact Or.inl
      · rintro (hold | rfl)
        · exact hold
        · exact absurd rfl hk

end Database
end KeyValue
end PostCortex
