import Mathlib.Data.List.Basic
import PostCortex.Naming.AliasIndex

/-!
# Items that claim keys in an order

Items arrive one after another.  An item joins the entity that the key of its
name leads to, or is a new entity, and claims its keys as far as they are free.
An entry of the index never changes.  Which keys lead to one entity does not
depend on the order when items that share a key know the keys of each other's
names.
-/

namespace PostCortex
namespace Naming

variable {Item Name Key Value : Type}

/-- Items with a name, and keys with the key of the name among them. -/
structure Scheme (Item Name Key : Type) where
  name : Item -> Name
  key : Name -> Key
  keys : Item -> List Key
  own : forall x, key (name x) ∈ keys x

namespace Scheme

/-!
# Arrivals
-/

def ownKey (s : Scheme Item Name Key) (x : Item) : Key :=
  s.key (s.name x)

theorem ownKey_mem (s : Scheme Item Name Key) (x : Item) :
    s.ownKey x ∈ s.keys x :=
  s.own x

def owner (s : Scheme Item Name Key) (index : Key -> Option Name) (x : Item) :
    Name :=
  (index (s.ownKey x)).getD (s.name x)

section

variable [DecidableEq Key] {s : Scheme Item Name Key}
  {index : Key -> Option Name}

def arrive (s : Scheme Item Name Key) (index : Key -> Option Name) (x : Item) :
    Key -> Option Name :=
  claimKeys (s.owner index x) index (s.keys x)

def arriveAll (s : Scheme Item Name Key) (index : Key -> Option Name)
    (xs : List Item) :
    Key -> Option Name :=
  xs.foldl s.arrive index

theorem arrive_apply (x : Item) (k : Key) :
    s.arrive index x k =
      (index k).or (if k ∈ s.keys x then some (s.owner index x) else none) :=
  claimKeys_apply _ _ _ _

variable {k : Key} {e : Name}

theorem arrive_kept (h : index k = some e) (x : Item) :
    s.arrive index x k = some e := by
  rw [arrive_apply, h]
  rfl

theorem arrive_own (x : Item) :
    s.arrive index x (s.ownKey x) = some (s.owner index x) := by
  rw [arrive_apply, if_pos (s.ownKey_mem x)]
  unfold owner
  cases index (s.ownKey x) with
  | none | some e => rfl

theorem arriveAll_append (xs ys : List Item) :
    s.arriveAll index (xs ++ ys) = s.arriveAll (s.arriveAll index xs) ys :=
  List.foldl_append

theorem arriveAll_kept (h : index k = some e) (xs : List Item) :
    s.arriveAll index xs k = some e := by
  induction xs generalizing index with
  | nil =>
      exact h
  | cons x rest ih =>
      exact ih (arrive_kept h x)

theorem arrive_none {x : Item} :
    s.arrive index x k = none ↔ index k = none ∧ k ∉ s.keys x := by
  rw [arrive_apply]
  cases index k with
  | none | some e => simp

variable {xs : List Item}

theorem arriveAll_none :
    s.arriveAll index xs k = none ↔
      index k = none ∧ forall x, x ∈ xs -> k ∉ s.keys x := by
  induction xs generalizing index with
  | nil =>
      simp [arriveAll]
  | cons x rest ih =>
      have hcons : s.arriveAll index (x :: rest) =
          s.arriveAll (s.arrive index x) rest := rfl
      rw [hcons, ih, arrive_none, List.forall_mem_cons, and_assoc]

theorem named_arriveAll (h : s.arriveAll index xs k = some e) :
    (exists j, index j = some e) ∨ exists x, x ∈ xs ∧ s.name x = e := by
  induction xs generalizing index with
  | nil =>
      exact Or.inl ⟨k, h⟩
  | cons x rest ih =>
      rcases ih h with ⟨j, hj⟩ | ⟨y, hy, hname⟩
      · rw [arrive_apply] at hj
        cases hold : index j with
        | some f =>
            rw [hold] at hj
            exact Or.inl ⟨j, hold.trans hj⟩
        | none =>
            rw [hold, Option.none_or] at hj
            split at hj
            · have hown : s.owner index x = e := Option.some.inj hj
              cases hname : index (s.ownKey x) with
              | some f =>
                  rw [owner, hname] at hown
                  exact Or.inl ⟨_, hname.trans (congrArg some hown)⟩
              | none =>
                  rw [owner, hname] at hown
                  exact Or.inr ⟨x, List.mem_cons_self, hown⟩
            · cases hj
      · exact Or.inr ⟨y, List.mem_cons_of_mem _ hy, hname⟩

def Settled (s : Scheme Item Name Key) (index : Key -> Option Name) : Prop :=
  forall k e, index k = some e -> index (s.key e) = some e

theorem Settled.arrive (h : s.Settled index) (x : Item) :
    s.Settled (s.arrive index x) := by
  intro k e hk
  rw [arrive_apply] at hk
  cases hold : index k with
  | some f =>
      rw [hold] at hk
      have hfe : f = e := Option.some.inj hk
      subst hfe
      exact arrive_kept (h k f hold) x
  | none =>
      rw [hold, Option.none_or] at hk
      split at hk
      · have hown : s.owner index x = e := Option.some.inj hk
        subst hown
        cases hname : index (s.ownKey x) with
        | some f =>
            have howner : s.owner index x = f := by simp [owner, hname]
            rw [howner]
            exact arrive_kept (h _ f hname) x
        | none =>
            have howner : s.owner index x = s.name x := by simp [owner, hname]
            have hkey : s.key (s.owner index x) = s.ownKey x := by
              rw [howner]
              rfl
            rw [hkey]
            exact arrive_own x
      · cases hk

/-!
# Values of entities
-/

def record [DecidableEq Name] (s : Scheme Item Name Key)
    (bump : Option Value -> Item -> Option Value)
    (ledger : (Key -> Option Name) × (Name -> Option Value)) (x : Item) :
    (Key -> Option Name) × (Name -> Option Value) :=
  (s.arrive ledger.1 x,
    Function.update ledger.2 (s.owner ledger.1 x)
      (bump (ledger.2 (s.owner ledger.1 x)) x))

theorem record_index [DecidableEq Name]
    (bump : Option Value -> Item -> Option Value) (xs : List Item)
    (ledger : (Key -> Option Name) × (Name -> Option Value)) :
    (xs.foldl (s.record bump) ledger).1 = s.arriveAll ledger.1 xs := by
  induction xs generalizing ledger with
  | nil =>
      rfl
  | cons x rest ih =>
      exact ih _

theorem record_value [DecidableEq Name]
    (bump : Option Value -> Item -> Option Value) (xs : List Item)
    (ledger : (Key -> Option Name) × (Name -> Option Value)) (e : Name) :
    (xs.foldl (s.record bump) ledger).2 e =
      (xs.filter (fun x => decide
        (s.arriveAll ledger.1 xs (s.ownKey x) = some e))).foldl bump
          (ledger.2 e) := by
  induction xs generalizing ledger with
  | nil =>
      rfl
  | cons x rest ih =>
      have hhead : s.arriveAll ledger.1 (x :: rest) (s.ownKey x) =
          some (s.owner ledger.1 x) :=
        arriveAll_kept (arrive_own x) rest
      rw [List.foldl_cons, ih, List.filter_cons, hhead]
      by_cases he : s.owner ledger.1 x = e
      · rw [if_pos (by simp [he]), List.foldl_cons]
        have hvalue : (s.record bump ledger x).2 e = bump (ledger.2 e) x := by
          simp [record, he]
        rw [hvalue]
        rfl
      · rw [if_neg (by simp [he])]
        have hvalue : (s.record bump ledger x).2 e = ledger.2 e := by
          have hne : ¬ e = s.owner ledger.1 x := fun heq => he heq.symm
          simp [record, hne]
        rw [hvalue]
        rfl

end

/-!
# Shared keys
-/

def Shares (s : Scheme Item Name Key) (x y : Item) : Prop :=
  exists k, k ∈ s.keys x ∧ k ∈ s.keys y

variable {s : Scheme Item Name Key}

theorem Shares.symm {x y : Item} (h : s.Shares x y) :
    s.Shares y x := by
  obtain ⟨k, hx, hy⟩ := h
  exact ⟨k, hy, hx⟩

theorem shares_self (s : Scheme Item Name Key) (x : Item) : s.Shares x x :=
  ⟨s.ownKey x, s.own x, s.own x⟩

/-- Items that share a key know the keys of each other's names. -/
def Mutual (s : Scheme Item Name Key) (xs : List Item) : Prop :=
  forall x, x ∈ xs -> forall y, y ∈ xs -> s.Shares x y ->
    s.ownKey y ∈ s.keys x

variable {xs : List Item}

theorem Mutual.of_subset {ys : List Item} (h : s.Mutual ys)
    (hsub : forall x, x ∈ xs -> x ∈ ys) :
    s.Mutual xs :=
  fun x hx y hy => h x (hsub x hx) y (hsub y hy)

theorem Mutual.shares_trans (h : s.Mutual xs) {x y z : Item} (hx : x ∈ xs)
    (hy : y ∈ xs) (hz : z ∈ xs) (hxy : s.Shares x y) (hyz : s.Shares y z) :
    s.Shares x z :=
  ⟨s.ownKey y, h x hx y hy hxy, h z hz y hy hyz.symm⟩

variable {k : Key} {x : Item} {index : Key -> Option Name}

/-- An index of the items: the keys of an item lead where its name leads, and
the names of two items lead to one entity only if they share a key. -/
structure Grouped (s : Scheme Item Name Key) (xs : List Item)
    (index : Key -> Option Name) : Prop where
  settled : s.Settled index
  known : forall k, index k = none ↔ forall x, x ∈ xs -> k ∉ s.keys x
  lead : forall x, x ∈ xs -> forall k, k ∈ s.keys x ->
    index k = index (s.ownKey x)
  apart : forall x, x ∈ xs -> forall y, y ∈ xs ->
    index (s.ownKey x) = index (s.ownKey y) -> s.Shares x y

theorem grouped_nil : s.Grouped [] (fun _ => none) where
  settled := fun _ _ hk => nomatch hk
  known _ := ⟨nofun, fun _ => rfl⟩
  lead := nofun
  apart := nofun

theorem Grouped.exists_mem (h : s.Grouped xs index)
    (hk : index k ≠ none) :
    exists x, x ∈ xs ∧ k ∈ s.keys x := by
  by_contra hnone
  exact hk ((h.known k).mpr (fun x hx hmem => hnone ⟨x, hx, hmem⟩))

theorem Grouped.exists_index (h : s.Grouped xs index)
    (hx : x ∈ xs) (hk : k ∈ s.keys x) :
    exists e, index k = some e := by
  cases hcase : index k with
  | none => exact absurd hk ((h.known k).mp hcase x hx)
  | some e => exact ⟨e, rfl⟩

theorem Grouped.apart_new (h : s.Grouped xs index) (hmutual : s.Mutual (x :: xs))
    {y : Item} (hy : y ∈ xs)
    (heq : some (s.owner index x) = index (s.ownKey y)) :
    s.Shares x y := by
  cases hcase : index (s.ownKey x) with
  | none =>
      have howner : s.owner index x = s.name x := by simp [owner, hcase]
      rw [howner] at heq
      have hself : index (s.ownKey x) = some (s.name x) := h.settled _ _ heq.symm
      rw [hcase] at hself
      cases hself
  | some e =>
      obtain ⟨z, hz, hkz⟩ := h.exists_mem (k := s.ownKey x) (by simp [hcase])
      have howner : s.owner index x = e := by simp [owner, hcase]
      have hzy : s.Shares z y := by
        refine h.apart z hz y hy ?_
        rw [← h.lead z hz _ hkz, hcase, ← heq, howner]
      exact hmutual.shares_trans List.mem_cons_self (List.mem_cons_of_mem x hz)
        (List.mem_cons_of_mem x hy) ⟨s.ownKey x, s.ownKey_mem x, hkz⟩ hzy

def Separate (s : Scheme Item Name Key) (xs : List Item) : Prop :=
  forall x, x ∈ xs -> forall y, y ∈ xs -> s.Shares x y -> x = y

theorem Separate.name_eq (h : s.Separate xs) {y : Item} (hx : x ∈ xs) (hy : y ∈ xs)
    (hname : s.name x = s.name y) :
    x = y := by
  refine h x hx y hy ⟨s.ownKey x, s.own x, ?_⟩
  rw [ownKey, hname]
  exact s.own y

theorem Separate.mutual (h : s.Separate xs) :
    s.Mutual xs := by
  intro x hx y hy hshare
  rw [h x hx y hy hshare]
  exact s.own y

section

variable [DecidableEq Key]

theorem Grouped.kept (h : s.Grouped xs index) {y : Item} (hy : y ∈ xs) {k : Key}
    (hk : k ∈ s.keys y) :
    s.arrive index x k = index k := by
  obtain ⟨e, he⟩ := h.exists_index hy hk
  rw [arrive_kept he, he]

theorem Grouped.lead_new (h : s.Grouped xs index) (hmutual : s.Mutual (x :: xs))
    {k : Key} (hk : k ∈ s.keys x) :
    s.arrive index x k = some (s.owner index x) := by
  rw [arrive_apply, if_pos hk]
  cases hcase : index k with
  | none => rfl
  | some e =>
      obtain ⟨y, hy, hky⟩ := h.exists_mem (k := k) (by simp [hcase])
      have hknows := hmutual y (List.mem_cons_of_mem x hy) x List.mem_cons_self
        ⟨k, hky, hk⟩
      have hname : index (s.ownKey x) = some e := by
        rw [h.lead y hy _ hknows, ← h.lead y hy k hky, hcase]
      simp [owner, hname]

theorem Grouped.arrive (h : s.Grouped xs index) (hmutual : s.Mutual (x :: xs)) :
    s.Grouped (x :: xs) (s.arrive index x) := by
  have hlead : forall y, y ∈ x :: xs -> forall k, k ∈ s.keys y ->
      s.arrive index x k = s.arrive index x (s.ownKey y) := by
    intro y hy k hk
    rcases List.mem_cons.mp hy with rfl | hy
    · rw [h.lead_new hmutual hk, arrive_own]
    · rw [h.kept hy hk, h.kept hy (s.ownKey_mem y)]
      exact h.lead y hy k hk
  refine ⟨h.settled.arrive x, ?_, hlead, ?_⟩
  · intro k
    rw [arrive_none, h.known, List.forall_mem_cons, and_comm]
  · intro y hy z hz heq
    rcases List.mem_cons.mp hy with rfl | hyold
    · rcases List.mem_cons.mp hz with rfl | hzold
      · exact s.shares_self z
      · rw [arrive_own, h.kept hzold (s.ownKey_mem z)] at heq
        exact h.apart_new hmutual hzold heq
    · rw [h.kept hyold (s.ownKey_mem y)] at heq
      rcases List.mem_cons.mp hz with rfl | hzold
      · rw [arrive_own] at heq
        exact (h.apart_new hmutual hyold heq.symm).symm
      · rw [h.kept hzold (s.ownKey_mem z)] at heq
        exact h.apart y hyold z hzold heq

theorem Mutual.grouped (h : s.Mutual xs) :
    s.Grouped xs (s.arriveAll (fun _ => none) xs) := by
  induction xs using List.reverseRecOn with
  | nil =>
      exact grouped_nil
  | append_singleton xs x ih =>
      have hold := ih (h.of_subset (fun y hy => List.mem_append_left _ hy))
      have hmem : forall y, y ∈ xs ++ [x] ↔ y ∈ x :: xs := by
        intro y
        rw [List.mem_append, List.mem_singleton, List.mem_cons, or_comm]
      have hnew := hold.arrive (x := x) (h.of_subset (fun y => (hmem y).mpr))
      have hsnoc : s.arriveAll (fun _ => none) (xs ++ [x]) =
          s.arrive (s.arriveAll (fun _ => none) xs) x :=
        arriveAll_append xs [x]
      rw [hsnoc]
      refine ⟨hnew.settled, ?_, ?_, ?_⟩
      · simpa only [hmem] using hnew.known
      · simpa only [hmem] using hnew.lead
      · simpa only [hmem] using hnew.apart

theorem Mutual.together_iff (h : s.Mutual xs) (k k' : Key) :
    (s.arriveAll (fun _ => none) xs k ≠ none ∧
      s.arriveAll (fun _ => none) xs k = s.arriveAll (fun _ => none) xs k') ↔
    exists x, x ∈ xs ∧ k ∈ s.keys x ∧
      exists y, y ∈ xs ∧ k' ∈ s.keys y ∧ s.Shares x y := by
  have hgrouped := h.grouped
  have hlead := hgrouped.lead
  constructor
  · rintro ⟨hk, heq⟩
    obtain ⟨x, hx, hkx⟩ := hgrouped.exists_mem hk
    obtain ⟨y, hy, hky⟩ := hgrouped.exists_mem (heq ▸ hk)
    refine ⟨x, hx, hkx, y, hy, hky, hgrouped.apart x hx y hy ?_⟩
    rw [← hlead x hx k hkx, heq, hlead y hy k' hky]
  · rintro ⟨x, hx, hkx, y, hy, hky, hshare⟩
    obtain ⟨e, he⟩ := hgrouped.exists_index hx hkx
    refine ⟨by simp [he], ?_⟩
    rw [hlead x hx k hkx, hlead y hy k' hky,
      ← hlead x hx _ (h x hx y hy hshare)]

/-!
# Two orders
-/

theorem Separate.index_eq (h : s.Separate xs) (hx : x ∈ xs) (hk : k ∈ s.keys x) :
    s.arriveAll (fun _ => none) xs k = some (s.name x) := by
  have hgrouped := h.mutual.grouped
  obtain ⟨e, he⟩ := hgrouped.exists_index hx (s.ownKey_mem x)
  rw [hgrouped.lead x hx k hk]
  rcases named_arriveAll he with ⟨_, hnone⟩ | ⟨y, hy, rfl⟩
  · cases hnone
  · have hself := hgrouped.settled _ _ he
    have hxy := h x hx y hy (hgrouped.apart x hx y hy (he.trans hself.symm))
    rw [hxy] at he ⊢
    exact he

/-- Behind the items of one list, an item that shares a key with one of them
without knowing its name is an entity of its own. -/
theorem Separate.index_ne {ys : List Item} (hxs : s.Separate xs)
    (hys : s.Separate ys) {y : Item} (hx : x ∈ xs) (hy : y ∈ ys)
    (hne : s.ownKey y ∉ s.keys x) (rest : List Item) :
    s.arriveAll (fun _ => none) (xs ++ ys ++ rest) (s.ownKey y) ≠
      some (s.name x) := by
  rw [arriveAll_append, arriveAll_append]
  cases hfirst : s.arriveAll (fun _ => none) xs (s.ownKey y) with
  | some e =>
      rw [arriveAll_kept (arriveAll_kept hfirst ys) rest]
      rintro ⟨rfl⟩
      obtain ⟨z, hz, hkz⟩ := hxs.mutual.grouped.exists_mem (k := s.ownKey y)
        (by simp [hfirst])
      rw [hxs.index_eq hz hkz] at hfirst
      have hzx := hxs.name_eq hz hx (Option.some.inj hfirst)
      exact hne (hzx ▸ hkz)
  | none =>
      obtain ⟨before, after, rfl, hbefore⟩ := List.eq_append_cons_of_mem hy
      have hfree : s.arriveAll (s.arriveAll (fun _ => none) xs) before
          (s.ownKey y) = none := by
        refine arriveAll_none.mpr ⟨hfirst, ?_⟩
        intro z hz hkz
        have hzy := hys z (List.mem_append_left _ hz) y hy ⟨_, hkz, s.ownKey_mem y⟩
        exact hbefore (hzy ▸ hz)
      have hclaimed : s.arriveAll (s.arriveAll (fun _ => none) xs)
          (before ++ y :: after) (s.ownKey y) = some (s.name y) := by
        have hself : s.arrive (s.arriveAll (s.arriveAll (fun _ => none) xs) before) y
            (s.ownKey y) = some (s.name y) := by
          rw [arrive_own, owner, hfree]
          rfl
        rw [arriveAll_append]
        exact arriveAll_kept hself after
      rw [arriveAll_kept hclaimed rest]
      intro hname
      refine hne ?_
      rw [ownKey, Option.some.inj hname]
      exact s.own x

end

end Scheme
end Naming
end PostCortex
