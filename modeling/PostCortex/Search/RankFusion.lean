import Mathlib.Algebra.BigOperators.Group.List.Basic
import Mathlib.Data.Rat.Lemmas
import Mathlib.Tactic.Linarith
import Mathlib.Tactic.Positivity
import PostCortex.KeyValue.Upserts
import PostCortex.Search.Levels
import PostCortex.Search.SemanticSearch

/-!
# Reciprocal rank fusion

What `fuse` makes of ranked lists, with exact scores.  The rank of a record in a
list counts the records before it, each once; records in a row that have the same
text have the rank of the first of them.
-/

namespace PostCortex
namespace Search

open KeyValue

/-!
# The rank in one list
-/

section

variable {item key text : Type} [DecidableEq key] [DecidableEq text]

def runStart (texts : List text) : Nat -> Nat
  | 0 => 0
  | i + 1 => if texts[i + 1]? = texts[i]? then runStart texts i else i + 1

def rankIn (keyOf : item -> key) (textOf : item -> text) (k : key)
    (list : List item) : Option Nat :=
  ((unseen keyOf [] list).findIdx? (fun m => keyOf m = k)).map
    (runStart ((unseen keyOf [] list).map textOf))

def ranks (textOf : item -> text) : Nat -> Nat -> Option text -> List item ->
    List (item × Nat)
  | _, _, _, [] => []
  | position, rank, previous, m :: rest =>
      let rank' := if previous = some (textOf m) then rank else position
      (m, rank') :: ranks textOf (position + 1) rank' (some (textOf m)) rest

variable {keyOf : item -> key} {textOf : item -> text}

theorem runStart_eq_zero_iff (texts : List text) (i : Nat) :
    runStart texts i = 0 ↔ forall j, j ≤ i -> texts[j]? = texts[0]? := by
  induction i with
  | zero =>
      constructor
      · intro _ j hj
        rw [Nat.le_zero.mp hj]
      · intro _
        rfl
  | succ i ih =>
      rw [runStart]
      split
      · next hsame =>
          rw [ih]
          constructor
          · intro h j hj
            rcases Nat.lt_or_eq_of_le hj with hlt | rfl
            · exact h j (Nat.le_of_lt_succ hlt)
            · rw [hsame, h i (Nat.le_refl i)]
          · exact fun h j hj => h j (Nat.le_succ_of_le hj)
      · next hother =>
          constructor
          · intro h
            exact absurd h (Nat.succ_ne_zero i)
          · intro h
            exact absurd ((h (i + 1) (Nat.le_refl _)).trans
              (h i (Nat.le_succ i)).symm) hother

/-- The item of the key is the first of the list, or tied by text with the first. -/
def RankedFirst (keyOf : item -> key) (textOf : item -> text) (k : key)
    (list : List item) : Prop :=
  exists (i : Nat) (m : item), (unseen keyOf [] list)[i]? = some m ∧ keyOf m = k ∧
    forall j, j ≤ i -> ((unseen keyOf [] list).map textOf)[j]? =
      ((unseen keyOf [] list).map textOf)[0]?

theorem rankIn_eq_zero_iff (k : key) (list : List item) :
    rankIn keyOf textOf k list = some 0 ↔ RankedFirst keyOf textOf k list := by
  rw [rankIn, Option.map_eq_some_iff]
  constructor
  · rintro ⟨i, hi, hstart⟩
    obtain ⟨hlt, hkey, -⟩ := List.findIdx?_eq_some_iff_getElem.mp hi
    exact ⟨i, _, List.getElem?_eq_getElem hlt, of_decide_eq_true hkey,
      (runStart_eq_zero_iff _ _).mp hstart⟩
  · rintro ⟨i, m, hm, hkey, htexts⟩
    obtain ⟨hlt, rfl⟩ := List.getElem?_eq_some_iff.mp hm
    cases hfind : (unseen keyOf [] list).findIdx? (fun m => keyOf m = k) with
    | none =>
        have hnone := List.findIdx?_eq_none_iff.mp hfind _ (List.getElem_mem hlt)
        simp [hkey] at hnone
    | some i' =>
        obtain ⟨_, _, hfirst⟩ := List.findIdx?_eq_some_iff_getElem.mp hfind
        have hle : i' ≤ i := by
          by_contra hgt
          exact hfirst i (Nat.lt_of_not_le hgt) (decide_eq_true hkey)
        exact ⟨i', rfl, (runStart_eq_zero_iff _ _).mpr
          (fun j hj => htexts j (Nat.le_trans hj hle))⟩

theorem rankIn_isSome_iff (k : key) (list : List item) :
    (rankIn keyOf textOf k list).isSome = true ↔ k ∈ list.map keyOf := by
  rw [rankIn, Option.isSome_map, List.findIdx?_isSome, List.any_eq_true]
  have hmem : k ∈ (unseen keyOf [] list).map keyOf ↔ _ := mem_unseen_iff
  rw [List.mem_map] at hmem
  simp only [decide_eq_true_eq]
  rw [hmem]
  simp

theorem ranks_eq (before rest : List item) (rank : Nat)
    (hrank : forall i, before.length = i + 1 ->
      rank = runStart ((before ++ rest).map textOf) i) :
    ranks textOf before.length rank ((before.map textOf).getLast?) rest =
      (rest.zipIdx before.length).map
        (fun x => (x.1, runStart ((before ++ rest).map textOf) x.2)) := by
  induction rest generalizing before rank with
  | nil => rfl
  | cons m rest ih =>
      have hthis : (if (before.map textOf).getLast? = some (textOf m) then rank
          else before.length) =
            runStart ((before ++ m :: rest).map textOf) before.length := by
        cases hbefore : before.length with
        | zero =>
            rw [List.length_eq_zero_iff.mp hbefore]
            rfl
        | succ i =>
            have hlast : (before.map textOf).getLast? =
                ((before ++ m :: rest).map textOf)[i]? := by
              rw [List.getLast?_eq_getElem?, List.length_map, hbefore,
                List.map_append, List.getElem?_append_left]
              · rfl
              · rw [List.length_map, hbefore]
                exact Nat.lt_succ_self i
            have hhere : ((before ++ m :: rest).map textOf)[i + 1]? =
                some (textOf m) := by
              rw [List.map_append, List.getElem?_append_right]
              · simp [hbefore]
              · rw [List.length_map, hbefore]
            rw [runStart, hhere, ← hlast, hrank i hbefore]
            simp only [eq_comm]
      have hnext := ih (before ++ [m])
        (runStart ((before ++ m :: rest).map textOf) before.length) (by
          intro i hi
          have hlength : before.length = i := by
            simpa using hi
          rw [List.append_assoc, List.singleton_append, hlength])
      rw [ranks, List.zipIdx_cons, List.map_cons]
      simp only [hthis]
      simp only [List.length_append, List.length_singleton, List.map_append,
        List.map_cons, List.map_nil, List.getLast?_concat, List.append_assoc,
        List.singleton_append] at hnext ⊢
      rw [hnext]

theorem ranks_zero (list : List item) :
    ranks textOf 0 0 none list =
      list.zipIdx.map (fun x => (x.1, runStart (list.map textOf) x.2)) :=
  ranks_eq [] list 0 (fun _ h => absurd h (Nat.succ_ne_zero _).symm)

theorem sum_filter_zipIdx (f : Nat -> Rat) (k : key) {list : List item}
    (hnodup : (list.map keyOf).Nodup) (n : Nat) :
    (((list.zipIdx n).filter (fun x => keyOf x.1 = k)).map (fun x => f x.2)).sum =
      ((list.findIdx? (fun m => keyOf m = k)).map (fun i => f (n + i))).getD 0 := by
  induction list generalizing n with
  | nil => rfl
  | cons m rest ih =>
      rw [List.map_cons, List.nodup_cons] at hnodup
      rw [List.zipIdx_cons, List.findIdx?_cons]
      by_cases hk : keyOf m = k
      · have hrest : (rest.zipIdx (n + 1)).filter (fun x => keyOf x.1 = k) = [] := by
          refine List.filter_eq_nil_iff.mpr ?_
          intro x hx hkey
          refine hnodup.1 ?_
          rw [hk, ← of_decide_eq_true hkey]
          exact List.mem_map_of_mem (List.fst_mem_of_mem_zipIdx hx)
        simp [hk, hrest]
      · rw [List.filter_cons_of_neg (by simpa using hk), ih hnodup.2]
        simp only [hk, decide_false, Bool.false_eq_true, if_false, Option.map_map]
        congr 2
        funext i
        simp only [Function.comp_apply]
        congr 1
        omega

end

/-!
# The loop
-/

section

variable {embedding : Type}

def exactly (engine : Engine embedding Rat) : Engine embedding Rat :=
  { engine with
    totalLe := fun a b => decide (a ≤ b)
    add := fun a b => a + b
    reciprocalRank := fun rank => 1 / (60 + rank + 1)
    normalised := fun lists sum => sum / (lists / (60 + 1)) }

def fusionKey (m : SearchMatch Rat) : String × String :=
  (m.record.source, m.record.id)

def matchText (m : SearchMatch Rat) : String :=
  m.record.text

def share (rank : Nat) : Rat :=
  1 / (60 + rank + 1)

def entries (list : List (SearchMatch Rat)) :
    List ((String × String) × SearchMatch Rat × Rat) :=
  (ranks matchText 0 0 none (unseen fusionKey [] list)).map
    (fun x => (fusionKey x.1, x.1, share x.2))

def addUp (x y : (String × String) × SearchMatch Rat × Rat) :
    (String × String) × SearchMatch Rat × Rat :=
  (x.1, x.2.1, x.2.2 + y.2.2)

theorem addScore_eq (engine : Engine embedding Rat) (key : String × String)
    (m : SearchMatch Rat) (s : Rat)
    (fused : List ((String × String) × SearchMatch Rat × Rat)) :
    addScore (exactly engine) key m s fused =
      upsert Prod.fst addUp (key, m, s) fused := by
  induction fused with
  | nil => rfl
  | cons x rest ih =>
      rw [addScore, upsert, ih]
      split
      · rfl
      · rfl

theorem foldl_fuseMatch (engine : Engine embedding Rat) (list : List (SearchMatch Rat))
    (f : Fusing Rat) :
    (list.foldl (fuseMatch (exactly engine)) f).fused =
      upsertAll Prod.fst addUp
        ((ranks matchText f.position f.rank f.previousText
          (unseen fusionKey f.seen list)).map
            (fun x => (fusionKey x.1, x.1, share x.2))) f.fused := by
  induction list generalizing f with
  | nil => rfl
  | cons m rest ih =>
      rw [List.foldl_cons, unseen]
      by_cases hseen : fusionKey m ∈ f.seen
      · have hskip : fuseMatch (exactly engine) f m = f := by
          rw [fuseMatch]
          exact if_pos hseen
        rw [hskip, if_pos hseen, ih]
      · have hstep : fuseMatch (exactly engine) f m =
            { position := f.position + 1
              rank := if f.previousText = some (matchText m) then f.rank
                else f.position
              previousText := some (matchText m)
              seen := fusionKey m :: f.seen
              fused := upsert Prod.fst addUp (fusionKey m, m, share
                (if f.previousText = some (matchText m) then f.rank
                  else f.position)) f.fused } := by
          rw [← addScore_eq engine, fuseMatch]
          exact if_neg hseen
        rw [hstep, if_neg hseen, ih]
        rfl

theorem foldl_lists (engine : Engine embedding Rat)
    (lists : List (List (SearchMatch Rat)))
    (fused : List ((String × String) × SearchMatch Rat × Rat)) :
    lists.foldl (fun fused list =>
        (list.foldl (fuseMatch (exactly engine)) ⟨0, 0, none, [], fused⟩).fused)
      fused =
      upsertAll Prod.fst addUp (lists.flatMap entries) fused := by
  induction lists generalizing fused with
  | nil => rfl
  | cons list rest ih =>
      rw [List.foldl_cons, ih, foldl_fuseMatch, List.flatMap_cons, upsertAll, upsertAll,
        upsertAll, List.foldl_append]
      rfl

theorem keepsKey_addUp : KeepsKey Prod.fst addUp :=
  fun _ _ _ => rfl

theorem foldl_addUp (rest : List ((String × String) × SearchMatch Rat × Rat))
    (y : (String × String) × SearchMatch Rat × Rat) :
    (rest.foldl addUp y).1 = y.1 ∧ (rest.foldl addUp y).2.1 = y.2.1 ∧
      (rest.foldl addUp y).2.2 = y.2.2 + (rest.map (fun z => z.2.2)).sum := by
  induction rest generalizing y with
  | nil => simp
  | cons z rest ih =>
      obtain ⟨hkey, hmatch, hsum⟩ := ih (addUp y z)
      rw [List.foldl_cons, List.map_cons, List.sum_cons]
      refine ⟨hkey, hmatch, ?_⟩
      rw [hsum, addUp, add_assoc]

variable {x : (String × String) × SearchMatch Rat × Rat}

theorem merged_addUp {xs : List ((String × String) × SearchMatch Rat × Rat)}
    (h : merged addUp xs = some x) :
    (exists y, y ∈ xs ∧ x.1 = y.1 ∧ x.2.1 = y.2.1) ∧
      x.2.2 = (xs.map (fun y => y.2.2)).sum := by
  cases xs with
  | nil => cases h
  | cons y rest =>
      cases h
      obtain ⟨hkey, hmatch, hsum⟩ := foldl_addUp rest y
      refine ⟨⟨y, List.mem_cons_self, hkey, hmatch⟩, ?_⟩
      rw [hsum, List.map_cons, List.sum_cons]

/-!
# The scores
-/

def contribution (k : String × String) (list : List (SearchMatch Rat)) : Rat :=
  ((rankIn fusionKey matchText k list).map share).getD 0

theorem sum_entries (k : String × String) (list : List (SearchMatch Rat)) :
    (((entries list).filter (fun x => x.1 = k)).map (fun x => x.2.2)).sum =
      contribution k list := by
  have hnodup : ((unseen fusionKey [] list).map fusionKey).Nodup := nodup_unseen [] list
  have hsum := sum_filter_zipIdx
    (fun i => share (runStart ((unseen fusionKey [] list).map matchText) i)) k hnodup 0
  rw [entries, ranks_zero, contribution, rankIn, List.map_map, List.filter_map,
    List.map_map]
  simp only [Nat.zero_add] at hsum
  rw [Option.map_map]
  exact hsum

theorem sum_all_entries (k : String × String) (lists : List (List (SearchMatch Rat))) :
    (((lists.flatMap entries).filter (fun x => x.1 = k)).map (fun x => x.2.2)).sum =
      (lists.map (contribution k)).sum := by
  induction lists with
  | nil => rfl
  | cons list rest ih =>
      rw [List.flatMap_cons, List.filter_append, List.map_append, List.sum_append, ih,
        sum_entries, List.map_cons, List.sum_cons]

theorem share_pos (rank : Nat) : 0 < share rank := by
  unfold share
  positivity

theorem share_le (rank : Nat) : share rank ≤ share 0 := by
  unfold share
  gcongr
  exact Nat.zero_le rank

theorem share_eq_iff (rank : Nat) : share rank = share 0 ↔ rank = 0 := by
  constructor
  · intro h
    have hrank : (60 + (rank : Rat) + 1) = 60 + ((0 : Nat) : Rat) + 1 := by
      unfold share at h
      simpa using h
    have hcast : (rank : Rat) = 0 := by
      simpa using hrank
    exact_mod_cast hcast
  · intro h
    rw [h]

theorem contribution_nonneg (k : String × String) (list : List (SearchMatch Rat)) :
    0 ≤ contribution k list := by
  unfold contribution
  cases rankIn fusionKey matchText k list with
  | none => exact le_refl 0
  | some rank => exact le_of_lt (share_pos rank)

theorem contribution_le (k : String × String) (list : List (SearchMatch Rat)) :
    contribution k list ≤ share 0 := by
  unfold contribution
  cases rankIn fusionKey matchText k list with
  | none => exact le_of_lt (share_pos 0)
  | some rank => exact share_le rank

theorem contribution_eq_iff (k : String × String) (list : List (SearchMatch Rat)) :
    contribution k list = share 0 ↔ rankIn fusionKey matchText k list = some 0 := by
  unfold contribution
  cases rankIn fusionKey matchText k list with
  | none =>
      constructor
      · intro h
        exact absurd h (ne_of_lt (share_pos 0))
      · intro h
        cases h
  | some rank =>
      rw [Option.map_some, Option.getD_some, share_eq_iff, Option.some.injEq]

variable {k : String × String} {list : List (SearchMatch Rat)}

theorem contribution_pos (h : k ∈ list.map fusionKey) :
    0 < contribution k list := by
  have hranked : (rankIn fusionKey matchText k list).isSome = true :=
    (rankIn_isSome_iff k list).mpr h
  obtain ⟨rank, hrank⟩ := Option.isSome_iff_exists.mp hranked
  rw [contribution, hrank]
  exact share_pos rank

theorem sum_bounds (f : List (SearchMatch Rat) -> Rat) (bound : Rat)
    (lists : List (List (SearchMatch Rat)))
    (hle : forall list, list ∈ lists -> f list ≤ bound) :
    (lists.map f).sum ≤ lists.length * bound ∧
      ((lists.map f).sum = lists.length * bound ↔
        forall list, list ∈ lists -> f list = bound) := by
  induction lists with
  | nil => simp
  | cons list rest ih =>
      obtain ⟨hsum, hiff⟩ := ih (fun l hl => hle l (List.mem_cons_of_mem _ hl))
      have hfirst := hle list List.mem_cons_self
      have hlength : (((list :: rest).length : Nat) : Rat) * bound =
          bound + rest.length * bound := by
        rw [List.length_cons, Nat.cast_succ, add_mul, one_mul, add_comm]
      rw [List.map_cons, List.sum_cons, hlength]
      refine ⟨add_le_add hfirst hsum, ?_⟩
      constructor
      · intro heq
        have hlist : f list = bound := by linarith
        have hrest : (rest.map f).sum = rest.length * bound := by linarith
        intro l hl
        rcases List.mem_cons.mp hl with rfl | hl
        · exact hlist
        · exact hiff.mp hrest l hl
      · intro hall
        rw [hall list List.mem_cons_self,
          hiff.mpr (fun l hl => hall l (List.mem_cons_of_mem _ hl))]

variable {lists : List (List (SearchMatch Rat))}

theorem sum_pos (hlist : list ∈ lists) (hk : k ∈ list.map fusionKey) :
    0 < (lists.map (contribution k)).sum := by
  refine lt_of_lt_of_le (contribution_pos hk) (List.single_le_sum ?_ _
    (List.mem_map_of_mem hlist))
  intro x hx
  obtain ⟨l, -, rfl⟩ := List.mem_map.mp hx
  exact contribution_nonneg k l

/-!
# The fused list
-/

/-- The records of the lists, once each, with the sums of their shares divided by
what a record has that is ranked first in every list; best first. -/
structure Fuses (lists : List (List (SearchMatch Rat)))
    (fused : List (SearchMatch Rat × Rat)) : Prop where
  once : (fused.map (fun x => fusionKey x.1)).Nodup
  each : forall k, k ∈ fused.map (fun x => fusionKey x.1) ↔
    exists list, list ∈ lists ∧ k ∈ list.map fusionKey
  score : forall x, x ∈ fused ->
    x.2 = (lists.map (contribution (fusionKey x.1))).sum / (lists.length * share 0)
  positive : forall x, x ∈ fused -> 0 < x.2
  bounded : forall x, x ∈ fused -> x.2 ≤ 1
  best : forall x, x ∈ fused -> (x.2 = 1 ↔
    forall list, list ∈ lists -> RankedFirst fusionKey matchText (fusionKey x.1) list)
  sorted : fused.Pairwise (fun x y => y.2 ≤ x.2)

def fuseListed (engine : Engine embedding Rat)
    (listing : List ((String × String) × SearchMatch Rat × Rat) ->
      List ((String × String) × SearchMatch Rat × Rat))
    (lists : List (List (SearchMatch Rat))) : List (SearchMatch Rat × Rat) :=
  ((listing (lists.foldl
    (fun fused list => (list.foldl (fuseMatch engine) ⟨0, 0, none, [], fused⟩).fused)
    [])).map (fun x => (x.2.1, engine.normalised lists.length x.2.2))).mergeSort
      (fun a b => engine.totalLe b.2 a.2)

theorem share_zero : share 0 = 1 / (60 + 1) := by
  rw [share, Nat.cast_zero, add_zero]

theorem normalised_eq (engine : Engine embedding Rat) (lists : Nat) (sum : Rat) :
    (exactly engine).normalised lists sum = sum / (lists * share 0) := by
  rw [share_zero, mul_one_div]
  rfl

/-- Each entry of the map has the key of its match, which is in some list, and the
sum of the shares of that key. -/
theorem mem_fused (hx : x ∈ upsertAll Prod.fst addUp (lists.flatMap entries) []) :
    x.1 = fusionKey x.2.1 ∧ x.2.2 = (lists.map (contribution x.1)).sum := by
  have hmerged := (mem_upsertAll keepsKey_addUp).mp hx
  obtain ⟨⟨y, hy, hkey, hmatch⟩, hsum⟩ := merged_addUp hmerged
  refine ⟨?_, ?_⟩
  · obtain ⟨list, -, hentry⟩ := List.mem_flatMap.mp (List.mem_filter.mp hy).1
    obtain ⟨z, -, rfl⟩ := List.mem_map.mp hentry
    rw [hkey, hmatch]
  · rw [hsum, sum_all_entries]

theorem keys_fused (lists : List (List (SearchMatch Rat))) (k : String × String) :
    k ∈ (upsertAll Prod.fst addUp (lists.flatMap entries) []).map Prod.fst ↔
      exists list, list ∈ lists ∧ k ∈ list.map fusionKey := by
  rw [mem_keys_upsertAll keepsKey_addUp, List.map_flatMap, List.mem_flatMap]
  have hlist : forall list : List (SearchMatch Rat),
      (entries list).map Prod.fst = (unseen fusionKey [] list).map fusionKey := by
    intro list
    rw [entries, ranks_zero, List.map_map, List.map_map]
    conv => rhs; rw [← List.zipIdx_map_fst 0 (unseen fusionKey [] list)]
    rw [List.map_map]
    rfl
  constructor
  · rintro ⟨list, hlists, hk⟩
    rw [hlist] at hk
    exact ⟨list, hlists, (mem_unseen_iff.mp hk).1⟩
  · rintro ⟨list, hlists, hk⟩
    refine ⟨list, hlists, ?_⟩
    rw [hlist]
    exact mem_unseen_iff.mpr ⟨hk, List.not_mem_nil⟩

/-- Every record of the lists is returned once, with its normalised score. -/
theorem fuse_ranks (engine : Engine embedding Rat)
    {listing : List ((String × String) × SearchMatch Rat × Rat) ->
      List ((String × String) × SearchMatch Rat × Rat)}
    (hlisting : forall l, (listing l).Perm l)
    (lists : List (List (SearchMatch Rat))) :
    Fuses lists (fuseListed (exactly engine) listing lists) := by
  let fused := upsertAll Prod.fst addUp (lists.flatMap entries) []
  let scored := fun x : (String × String) × SearchMatch Rat × Rat =>
    (x.2.1, x.2.2 / (lists.length * share 0))
  have hperm : (fuseListed (exactly engine) listing lists).Perm (fused.map scored) := by
    rw [fuseListed, foldl_lists]
    simp only [normalised_eq]
    exact (List.mergeSort_perm _ _).trans ((hlisting fused).map scored)
  have hkeys : (fused.map scored).map (fun x => fusionKey x.1) =
      fused.map Prod.fst := by
    rw [List.map_map]
    refine List.map_congr_left ?_
    intro x hx
    exact (mem_fused hx).1.symm
  have hmem : forall x, x ∈ fuseListed (exactly engine) listing lists ->
      (exists list, list ∈ lists ∧ fusionKey x.1 ∈ list.map fusionKey) ∧
      x.2 = (lists.map (contribution (fusionKey x.1))).sum /
        (lists.length * share 0) := by
    intro x hx
    obtain ⟨y, hy, rfl⟩ := List.mem_map.mp (hperm.mem_iff.mp hx)
    obtain ⟨hkey, hsum⟩ := mem_fused hy
    refine ⟨(keys_fused lists _).mp ?_, ?_⟩
    · exact hkey ▸ List.mem_map_of_mem hy
    · rw [← hkey, ← hsum]
  have hmost : forall {lists : List (List (SearchMatch Rat))} {list},
      list ∈ lists -> (0 : Rat) < lists.length * share 0 := by
    intro lists list hlist
    exact mul_pos (Nat.cast_pos.mpr (List.length_pos_of_mem hlist)) (share_pos 0)
  constructor
  · rw [(hperm.map _).nodup_iff, hkeys]
    exact nodup_upsertAll keepsKey_addUp _ List.nodup_nil
  · intro k
    rw [(hperm.map _).mem_iff, hkeys]
    exact keys_fused lists k
  · exact fun x hx => (hmem x hx).2
  · intro x hx
    obtain ⟨⟨list, hlist, hk⟩, hscore⟩ := hmem x hx
    rw [hscore]
    exact div_pos (sum_pos hlist hk) (hmost hlist)
  · intro x hx
    obtain ⟨⟨list, hlist, -⟩, hscore⟩ := hmem x hx
    rw [hscore, div_le_one (hmost hlist)]
    exact (sum_bounds _ (share 0) lists (fun l _ => contribution_le _ l)).1
  · intro x hx
    obtain ⟨⟨list, hlist, -⟩, hscore⟩ := hmem x hx
    rw [hscore, div_eq_one_iff_eq (ne_of_gt (hmost hlist)),
      (sum_bounds _ (share 0) lists (fun l _ => contribution_le _ l)).2]
    simp only [contribution_eq_iff, rankIn_eq_zero_iff]
  · refine List.Pairwise.imp of_decide_eq_true (List.pairwise_mergeSort ?_ ?_ _)
    · intro x y z hxy hyz
      exact decide_eq_true (le_trans (of_decide_eq_true hyz) (of_decide_eq_true hxy))
    · intro x y
      rw [Bool.or_eq_true_iff, decide_eq_true_iff, decide_eq_true_iff]
      exact le_total _ _

def fusionEngine : Engine Unit Rat where
  enableCrossSessionSearch := true
  encodeText := fun _ => ()
  similarity := fun _ _ => 1
  zero := 0
  isNan := fun _ => false
  totalLe := fun a b => a ≤ b
  lt := fun a b => a < b
  equal := fun a b => a == b
  add := fun a b => a + b
  reciprocalRank := fun rank => 1 / (60 + rank + 1)
  normalised := fun lists sum => sum / (lists / (60 + 1))
  baseScore := fun relevance _ => relevance
  decay := fun _ base _ => base
  preferAuthorBoost := 0
  reranker := fun _ => none

def rankedMatch (id text : String) : SearchMatch Rat where
  vectorId := 0
  similarity := 1
  record :=
    { id := id
      text := text
      source := "session"
      contentType := "DecisionPoint"
      timestamp := 0
      metadata := ∅ }

/-- The second record is second in one list and, beside a repeat of the first and
tied with it, in the other; the third is only in the second list. -/
def rankedLists : List (List (SearchMatch Rat)) :=
  [[rankedMatch "a" "x", rankedMatch "b" "y"],
    [rankedMatch "a" "x", rankedMatch "a" "x", rankedMatch "b" "x",
      rankedMatch "c" "z"]]

theorem fuse_ranks_two_lists :
    Fuses rankedLists (fuseListed (exactly fusionEngine) List.reverse rankedLists) :=
  fuse_ranks fusionEngine List.reverse_perm rankedLists

end

end Search
end PostCortex
