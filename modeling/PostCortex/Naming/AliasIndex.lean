import Mathlib.Logic.Function.Basic
import Mathlib.Data.List.Basic
import Mathlib.Data.List.Induction

/-!
# Alias indexes

Entities that go by several names, and an index from the key of a name to the
entity that owns it.  `named e n` says that `n` is a name of the entity `e`.
An index agrees with the names when every name leads to its entity and nothing
else is indexed.  The module says how the agreement survives new names, the
removal of an entity, and the merge of two entities whose keys may already
point at each other.
-/

namespace PostCortex
namespace Naming

variable {Name Key : Type}

/-!
# Writing an index
-/

section

variable [DecidableEq Key]

def claimKey (owner : Name) (index : Key -> Option Name) (k : Key) :
    Key -> Option Name :=
  match index k with
  | some _ => index
  | none => Function.update index k (some owner)

def claimKeys (owner : Name) (index : Key -> Option Name) (keys : List Key) :
    Key -> Option Name :=
  keys.foldl (claimKey owner) index

def assignKeys (owner : Name) (index : Key -> Option Name) (keys : List Key) :
    Key -> Option Name :=
  keys.foldl (fun index k => Function.update index k (some owner)) index

theorem claimKey_apply (owner : Name) (index : Key -> Option Name) (k j : Key) :
    claimKey owner index k j =
      (index j).or (if j = k then some owner else none) := by
  unfold claimKey
  cases hk : index k with
  | none | some o =>
      by_cases hj : j = k
      · subst hj
        simp [hk]
      · simp [hj]

theorem claimKeys_apply (owner : Name) (index : Key -> Option Name)
    (keys : List Key) (j : Key) :
    claimKeys owner index keys j =
      (index j).or (if j ∈ keys then some owner else none) := by
  induction keys generalizing index with
  | nil =>
      simp [claimKeys]
  | cons k rest ih =>
      have hrest := ih (claimKey owner index k)
      have hcons : claimKeys owner index (k :: rest) =
          claimKeys owner (claimKey owner index k) rest := rfl
      rw [hcons, hrest, claimKey_apply]
      by_cases hj : j = k
      · subst hj
        cases index j <;> simp
      · cases index j <;> simp [hj]

theorem assignKeys_apply (owner : Name) (index : Key -> Option Name)
    (keys : List Key) (j : Key) :
    assignKeys owner index keys j =
      if j ∈ keys then some owner else index j := by
  induction keys generalizing index with
  | nil =>
      simp [assignKeys]
  | cons k rest ih =>
      have hrest := ih (Function.update index k (some owner))
      have hcons : assignKeys owner index (k :: rest) =
          assignKeys owner (Function.update index k (some owner)) rest := rfl
      rw [hcons, hrest]
      by_cases hmem : j ∈ rest
      · simp [hmem]
      · by_cases hj : j = k
        · subst hj
          simp
        · simp [hmem, hj]

end

def release [DecidableEq Name] (index : Key -> Option Name) (gone : Name) :
    Key -> Option Name :=
  fun k => (index k).filter (fun owner => decide (owner ≠ gone))

theorem release_apply [DecidableEq Name] {index : Key -> Option Name}
    {gone owner : Name} {k : Key} :
    release index gone k = some owner ↔
      index k = some owner ∧ owner ≠ gone := by
  simp [release, Option.filter_eq_some_iff]

/-!
# Agreement
-/

structure Agrees (key : Name -> Key) (named : Name -> Name -> Prop)
    (index : Key -> Option Name) : Prop where
  own : forall e n, named e n -> named e e
  indexed : forall e n, named e n -> index (key n) = some e
  known : forall e k, index k = some e -> named e e

section

variable {key : Name -> Key} {named named' : Name -> Name -> Prop}
  {index index' : Key -> Option Name}

theorem Agrees.congr (h : Agrees key named index)
    (hnamed : forall e n, named' e n ↔ named e n)
    (hindex : forall k, index' k = index k) :
    Agrees key named' index' := by
  constructor
  · intro e n hn
    exact (hnamed e e).mpr (h.own e n ((hnamed e n).mp hn))
  · intro e n hn
    rw [hindex]
    exact h.indexed e n ((hnamed e n).mp hn)
  · intro e k hk
    rw [hindex] at hk
    exact (hnamed e e).mpr (h.known e k hk)

theorem Agrees.same (h : Agrees key named index) {e f n m : Name}
    (hn : named e n) (hm : named f m) (hkey : key n = key m) :
    e = f := by
  have hindexed := h.indexed e n hn
  rw [hkey, h.indexed f m hm] at hindexed
  exact (Option.some.inj hindexed).symm

theorem Agrees.extend [DecidableEq Key] (h : Agrees key named index)
    (owner : Name) (more : List Name)
    (hnamed : forall e n, named' e n ↔ named e n ∨ e = owner ∧ n ∈ more)
    (hindex : forall k, index' k = claimKeys owner index (more.map key) k)
    (hfree : forall n, n ∈ more ->
      index (key n) = none ∨ index (key n) = some owner)
    (howner : named' owner owner) :
    Agrees key named' index' := by
  constructor
  · intro e n hn
    rcases (hnamed e n).mp hn with hold | ⟨rfl, -⟩
    · exact (hnamed e e).mpr (Or.inl (h.own e n hold))
    · exact howner
  · intro e n hn
    rw [hindex, claimKeys_apply]
    rcases (hnamed e n).mp hn with hold | ⟨rfl, hmore⟩
    · rw [h.indexed e n hold]
      rfl
    · have hmem : key n ∈ more.map key := List.mem_map.mpr ⟨n, hmore, rfl⟩
      rcases hfree n hmore with hnone | hsome
      · simp [hnone, hmem]
      · simp [hsome]
  · intro e k hk
    rw [hindex, claimKeys_apply] at hk
    cases hold : index k with
    | some f =>
        rw [hold] at hk
        have hfe : f = e := Option.some.inj hk
        subst hfe
        exact (hnamed f f).mpr (Or.inl (h.known f k hold))
    | none =>
        rw [hold] at hk
        by_cases hmem : k ∈ more.map key
        · have howns : owner = e := by simpa [hmem] using hk
          exact howns ▸ howner
        · simp [hmem] at hk

theorem Agrees.remove [DecidableEq Name] (h : Agrees key named index)
    {gone : Name}
    (hnamed : forall e n, named' e n ↔ named e n ∧ e ≠ gone)
    (hindex : forall k, index' k = release index gone k) :
    Agrees key named' index' := by
  constructor
  · intro e n hn
    rcases (hnamed e n).mp hn with ⟨hold, hne⟩
    exact (hnamed e e).mpr ⟨h.own e n hold, hne⟩
  · intro e n hn
    rcases (hnamed e n).mp hn with ⟨hold, hne⟩
    rw [hindex]
    exact release_apply.mpr ⟨h.indexed e n hold, hne⟩
  · intro e k hk
    rw [hindex] at hk
    rcases release_apply.mp hk with ⟨hold, hne⟩
    exact (hnamed e e).mpr ⟨h.known e k hold, hne⟩

/-!
# Merging
-/

/-- The names agree, but those of two entities may lead to either. -/
structure Mergeable (key : Name -> Key) (named : Name -> Name -> Prop)
    (index : Key -> Option Name) (a b : Name) : Prop where
  own : forall e n, named e n -> named e e
  others : forall e n, named e n -> e ≠ a -> e ≠ b -> index (key n) = some e
  pair : forall e n, named e n -> e = a ∨ e = b ->
    index (key n) = some a ∨ index (key n) = some b
  known : forall e k, index k = some e -> named e e

theorem Agrees.mergeable (h : Agrees key named index) (a b : Name) :
    Mergeable key named index a b where
  own := h.own
  others e n hn _ _ := h.indexed e n hn
  pair e n hn hpair := by
    rw [h.indexed e n hn]
    exact hpair.imp (congrArg some) (congrArg some)
  known := h.known

theorem Mergeable.symm {a b : Name} (h : Mergeable key named index a b) :
    Mergeable key named index b a where
  own := h.own
  others e n hn hb ha := h.others e n hn ha hb
  pair e n hn hpair := (h.pair e n hn hpair.symm).symm
  known := h.known

/-- An entity is replaced by one whose names lead to it, to one other entity
or nowhere. -/
theorem Agrees.replace [DecidableEq Key] (h : Agrees key named index)
    {owner other : Name} (names : List Name)
    (hnamed : forall e n, named' e n ↔
      named e n ∧ e ≠ owner ∨ e = owner ∧ n ∈ names)
    (hindex : forall k, index' k = claimKeys owner index (names.map key) k)
    (hfree : forall n, n ∈ names -> index (key n) = none ∨
      index (key n) = some owner ∨ index (key n) = some other)
    (howner : owner ∈ names) :
    Mergeable key named' index' owner other := by
  have hown : named' owner owner := (hnamed owner owner).mpr (Or.inr ⟨rfl, howner⟩)
  have hkept : forall e n, named e n -> index' (key n) = some e := by
    intro e n hn
    rw [hindex, claimKeys_apply, h.indexed e n hn]
    rfl
  constructor
  · intro e n hn
    rcases (hnamed e n).mp hn with ⟨hold, hne⟩ | ⟨rfl, -⟩
    · exact (hnamed e e).mpr (Or.inl ⟨h.own e n hold, hne⟩)
    · exact hown
  · intro e n hn hne _
    rcases (hnamed e n).mp hn with ⟨hold, -⟩ | ⟨heq, -⟩
    · exact hkept e n hold
    · exact absurd heq hne
  · intro e n hn hpair
    rcases (hnamed e n).mp hn with ⟨hold, hne⟩ | ⟨rfl, hmem⟩
    · rcases hpair with heq | heq
      · exact absurd heq hne
      · rw [hkept e n hold, heq]
        exact Or.inr rfl
    · rw [hindex, claimKeys_apply]
      have hkey : key n ∈ names.map key := List.mem_map.mpr ⟨n, hmem, rfl⟩
      rcases hfree n hmem with hnone | hsome | hsome
      · simp [hnone, hkey]
      · simp [hsome]
      · simp [hsome]
  · intro e k hk
    rw [hindex, claimKeys_apply] at hk
    cases hold : index k with
    | some f =>
        rw [hold] at hk
        have hfe : f = e := Option.some.inj hk
        subst hfe
        by_cases hf : f = owner
        · exact hf ▸ hown
        · exact (hnamed f f).mpr (Or.inl ⟨h.known f k hold, hf⟩)
    | none =>
        rw [hold] at hk
        by_cases hmem : k ∈ names.map key
        · have howns : owner = e := by simpa [hmem] using hk
          exact howns ▸ hown
        · simp [hmem] at hk

theorem Mergeable.agrees {a : Name} (h : Mergeable key named index a a) :
    Agrees key named index where
  own := h.own
  indexed e n hn := by
    by_cases he : e = a
    · subst he
      exact (h.pair e n hn (Or.inl rfl)).elim id id
    · exact h.others e n hn he he
  known := h.known

theorem Mergeable.merge [DecidableEq Name] [DecidableEq Key] {gone into : Name}
    (h : Mergeable key named index gone into) (hne : gone ≠ into)
    (hinto : named into into) (names : List Name)
    (hnames : forall n, n ∈ names ↔ named into n ∨ named gone n)
    (hnamed : forall e n, named' e n ↔
      e ≠ gone ∧ (named e n ∨ e = into ∧ n ∈ names))
    (hindex : forall k, index' k =
      assignKeys into (release index gone) (names.map key) k) :
    Agrees key named' index' := by
  have hown : named' into into :=
    (hnamed into into).mpr ⟨hne.symm, Or.inl hinto⟩
  constructor
  · intro e n hn
    rcases (hnamed e n).mp hn with ⟨hgone, hold | ⟨rfl, -⟩⟩
    · exact (hnamed e e).mpr ⟨hgone, Or.inl (h.own e n hold)⟩
    · exact hown
  · intro e n hn
    rw [hindex, assignKeys_apply]
    rcases (hnamed e n).mp hn with ⟨hgone, hnew⟩
    by_cases he : e = into
    · subst he
      have hmem : n ∈ names := by
        rcases hnew with hold | ⟨-, hmem⟩
        · exact (hnames n).mpr (Or.inl hold)
        · exact hmem
      rw [if_pos (List.mem_map.mpr ⟨n, hmem, rfl⟩)]
    · have hold : named e n := by
        rcases hnew with hold | ⟨heq, -⟩
        · exact hold
        · exact absurd heq he
      have hindexed := h.others e n hold hgone he
      have hout : key n ∉ names.map key := by
        intro hmem
        rcases List.mem_map.mp hmem with ⟨m, hm, hkey⟩
        have hpair : index (key m) = some gone ∨ index (key m) = some into := by
          rcases (hnames m).mp hm with hinto | hgone
          · exact h.pair into m hinto (Or.inr rfl)
          · exact h.pair gone m hgone (Or.inl rfl)
        rw [hkey, hindexed] at hpair
        rcases hpair with heq | heq
        · exact hgone (Option.some.inj heq)
        · exact he (Option.some.inj heq)
      rw [if_neg hout]
      exact release_apply.mpr ⟨hindexed, hgone⟩
  · intro e k hk
    rw [hindex, assignKeys_apply] at hk
    split at hk
    · have heq : into = e := Option.some.inj hk
      exact heq ▸ hown
    · rcases release_apply.mp hk with ⟨hold, hgone⟩
      exact (hnamed e e).mpr ⟨hgone, Or.inl (h.known e k hold)⟩

end

/-!
# Rebuilding
-/

section

variable [DecidableEq Key] [DecidableEq Name]

/-- Index one name of an entity; a key another entity holds asks for a merge
of the two. -/
def indexName (owner : Name) (built : (Key -> Option Name) × List (Name × Name))
    (k : Key) : (Key -> Option Name) × List (Name × Name) :=
  match built.1 k with
  | none => (Function.update built.1 k (some owner), built.2)
  | some holder =>
      if holder ≠ owner then (built.1, built.2 ++ [(owner, holder)])
      else built

def rebuild (keysOf : Name -> List Key) (order : List Name) :
    (Key -> Option Name) × List (Name × Name) :=
  order.foldl (fun built e => (keysOf e).foldl (indexName e) built)
    (fun _ => none, [])

variable {keysOf : Name -> List Key} {order : List Name}

theorem rebuild_known {k : Key} {e : Name} (h : (rebuild keysOf order).1 k = some e) :
    e ∈ order := by
  have hall : forall j f, (rebuild keysOf order).1 j = some f -> f ∈ order := by
    unfold rebuild
    refine List.foldlRecOn
      (motive := fun built : (Key -> Option Name) × List (Name × Name) =>
        forall j f, built.1 j = some f -> f ∈ order) order _ nofun ?_
    intro built hbuilt owner howner
    refine List.foldlRecOn
      (motive := fun built : (Key -> Option Name) × List (Name × Name) =>
        forall j f, built.1 j = some f -> f ∈ order) (keysOf owner) _ hbuilt ?_
    intro built hbuilt key _ j f hf
    unfold indexName at hf
    split at hf
    · simp only at hf
      by_cases hj : j = key
      · subst hj
        rw [Function.update_self] at hf
        exact (Option.some.inj hf) ▸ howner
      · rw [Function.update_of_ne hj] at hf
        exact hbuilt j f hf
    · split at hf
      · exact hbuilt j f hf
      · exact hbuilt j f hf
  exact hall k e h

/-- Indexing the keys of a thing claims the free ones and asks for a merge with the
owner of each other one. -/
theorem foldl_indexName_eq (owner : Name)
    (built : (Key -> Option Name) × List (Name × Name)) (keys : List Key) :
    keys.foldl (indexName owner) built =
      (claimKeys owner built.1 keys, built.2 ++ keys.filterMap (fun k =>
        ((built.1 k).filter (fun holder => decide (holder ≠ owner))).map
          (fun holder => (owner, holder)))) := by
  induction keys generalizing built with
  | nil =>
      rw [List.filterMap_nil, List.append_nil]
      rfl
  | cons k rest ih =>
      have hclaim : forall j, ((claimKey owner built.1 k j).filter
          (fun holder => decide (holder ≠ owner))) =
          (built.1 j).filter (fun holder => decide (holder ≠ owner)) := by
        intro j
        rw [claimKey_apply]
        cases built.1 j with
        | none =>
            by_cases hj : j = k
            · simp [hj]
            · simp [hj]
        | some holder => rfl
      have hstep : indexName owner built k =
          (claimKey owner built.1 k, built.2 ++ (((built.1 k).filter
            (fun holder => decide (holder ≠ owner))).map
              (fun holder => (owner, holder))).toList) := by
        cases hk : built.1 k with
        | none =>
            simp [indexName, claimKey, hk]
        | some holder =>
            by_cases hself : holder = owner
            · simp [indexName, claimKey, hk, hself, Option.filter]
            · simp [indexName, claimKey, hk, hself, Option.filter]
      rw [List.foldl_cons, hstep, ih, List.filterMap_cons]
      simp only [hclaim]
      refine Prod.ext rfl ?_
      dsimp only
      rw [List.append_assoc]
      cases ((built.1 k).filter (fun holder => decide (holder ≠ owner))).map
          (fun holder => (owner, holder)) with
      | none => rfl
      | some merge => rfl

theorem foldl_indexName {owner : Name} {index : Key -> Option Name}
    {keys : List Key}
    (hfree : forall k, k ∈ keys -> index k = none ∨ index k = some owner) :
    keys.foldl (indexName owner) (index, []) =
      (claimKeys owner index keys, []) := by
  rw [foldl_indexName_eq, List.nil_append]
  refine Prod.ext rfl (List.filterMap_eq_nil_iff.mpr ?_)
  intro k hk
  rcases hfree k hk with hnone | hsome
  · simp [hnone]
  · simp [hsome, Option.filter]

theorem rebuild_eq
    (hdisjoint : forall e f k, e ∈ order -> f ∈ order -> k ∈ keysOf e ->
      k ∈ keysOf f -> e = f) :
    (rebuild keysOf order).2 = [] ∧
      forall e k, (rebuild keysOf order).1 k = some e ↔
        e ∈ order ∧ k ∈ keysOf e := by
  induction order using List.reverseRecOn with
  | nil =>
      simp [rebuild]
  | append_singleton order e ih =>
      have hbegins := ih (fun f g k hf hg => hdisjoint f g k
        (List.mem_append_left _ hf) (List.mem_append_left _ hg))
      rcases hbegins with ⟨hnone, hindex⟩
      have hfree : forall k, k ∈ keysOf e ->
          (rebuild keysOf order).1 k = none ∨
            (rebuild keysOf order).1 k = some e := by
        intro k hk
        cases hcase : (rebuild keysOf order).1 k with
        | none => exact Or.inl rfl
        | some f =>
            rcases (hindex f k).mp hcase with ⟨hf, hkf⟩
            right
            rw [hdisjoint e f k (by simp) (List.mem_append_left _ hf) hk hkf]
      have hsplit : rebuild keysOf (order ++ [e]) =
          (claimKeys e (rebuild keysOf order).1 (keysOf e), []) := by
        have hpair : rebuild keysOf order = ((rebuild keysOf order).1, []) :=
          Prod.ext rfl hnone
        have hstep : rebuild keysOf (order ++ [e]) =
            (keysOf e).foldl (indexName e) (rebuild keysOf order) := by
          simp [rebuild]
        rw [hstep, hpair]
        exact foldl_indexName hfree
      rw [hsplit]
      refine ⟨rfl, ?_⟩
      intro f k
      show claimKeys e (rebuild keysOf order).1 (keysOf e) k = some f ↔
        f ∈ order ++ [e] ∧ k ∈ keysOf f
      rw [claimKeys_apply]
      cases hcase : (rebuild keysOf order).1 k with
      | some g =>
          have hg := (hindex g k).mp hcase
          constructor
          · intro heq
            have hgf : g = f := Option.some.inj heq
            subst hgf
            exact ⟨List.mem_append_left _ hg.1, hg.2⟩
          · rintro ⟨hf, hk⟩
            rw [hdisjoint f g k hf (List.mem_append_left _ hg.1) hk hg.2]
            rfl
      | none =>
          constructor
          · intro heq
            by_cases hk : k ∈ keysOf e
            · have hef : e = f := by simpa [hk] using heq
              subst hef
              exact ⟨by simp, hk⟩
            · simp [hk] at heq
          · rintro ⟨hf, hk⟩
            rcases List.mem_append.mp hf with hold | hnew
            · have hsome := (hindex f k).mpr ⟨hold, hk⟩
              rw [hcase] at hsome
              cases hsome
            · have hfe : f = e := List.mem_singleton.mp hnew
              subst hfe
              simp [hk]

end

end Naming
end PostCortex
