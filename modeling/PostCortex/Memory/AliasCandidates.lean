import Mathlib.Data.List.Sort
import Mathlib.Data.Prod.Lex
import Mathlib.Data.String.Basic
import PostCortex.Graph.Merging
import PostCortex.Storage.Keys

/-!
# Names that may be aliases

`alias_candidates` of `graph_views.rs`: the entities in the order of their keys,
and after each one the run of those whose keys begin with its key.
-/

namespace PostCortex
namespace Memory

open PostCortex.Core
open PostCortex.Graph
open PostCortex.KeyValue
open PostCortex.Storage

structure AliasCandidate where
  name : String
  of : String
  sharedRecords : Nat
  deriving DecidableEq, Repr

def PairLe (x y : String × String) : Prop :=
  toLex x ≤ toLex y

instance : DecidableRel PairLe :=
  fun x y => inferInstanceAs (Decidable (toLex x ≤ toLex y))

instance : Std.Total PairLe where
  total x y := le_total (toLex x) (toLex y)

instance : IsTrans (String × String) PairLe where
  trans _ _ _ := le_trans

def Before (a b : AliasCandidate) : Prop :=
  b.sharedRecords < a.sharedRecords ∨
    b.sharedRecords = a.sharedRecords ∧ PairLe (a.name, a.of) (b.name, b.of)

instance : DecidableRel Before :=
  fun _ _ => inferInstanceAs (Decidable (_ ∨ _))

instance : Std.Total Before where
  total a b := by
    rcases Nat.lt_trichotomy b.sharedRecords a.sharedRecords with hlt | heq | hgt
    · exact Or.inl (Or.inl hlt)
    · rcases Std.Total.total (r := PairLe) (a.name, a.of) (b.name, b.of) with hle | hge
      · exact Or.inl (Or.inr ⟨heq, hle⟩)
      · exact Or.inr (Or.inr ⟨heq.symm, hge⟩)
    · exact Or.inr (Or.inl hgt)

instance : IsTrans AliasCandidate Before where
  trans a b c := by
    rintro (hab | ⟨heq, hab⟩) (hbc | ⟨heq', hbc⟩)
    · exact Or.inl (Nat.lt_trans hbc hab)
    · exact Or.inl (heq' ▸ hab)
    · exact Or.inl (heq ▸ hbc)
    · exact Or.inr ⟨heq'.trans heq, trans_of PairLe hab hbc⟩

def sharedRecords (graph : EntityGraph) (name other : String) : Nat :=
  let mine := graph.mentionIds name
  (graph.mentionIds other).countP (fun id => decide (id ∈ mine))

def scan (graph : EntityGraph) : List (String × String) -> List AliasCandidate
  | [] => []
  | (short, name) :: rest =>
      let found :=
        if short.length < 4 then []
        else
          ((rest.takeWhile (fun e => hasPrefix short e.1)).filter
            (fun e => decide (e.1 ≠ short))).map
              (fun e => ⟨name, e.2, sharedRecords graph name e.2⟩)
      found ++ scan graph rest

section

variable [CharTables]

def keyed (graph : EntityGraph) : List (String × String) :=
  (graph.entities.keys.map (fun n => (entityKey n, n))).insertionSort PairLe

def aliasCandidates (graph : EntityGraph) (limit : Nat) : List AliasCandidate :=
  ((scan graph (keyed graph)).insertionSort Before).take limit

/-- The key of one name, of at least four characters, begins the longer key of
the other. -/
def MayAlias (a b : String) : Prop :=
  4 ≤ (entityKey a).length ∧ hasPrefix (entityKey a) (entityKey b) = true ∧
    entityKey a ≠ entityKey b

end

/-!
# The scan
-/

theorem PairLe.not_lt {x y : String × String} (h : PairLe x y) :
    ¬ y.1.toList < x.1.toList := by
  rcases Prod.Lex.toLex_le_toLex.mp h with hlt | ⟨heq, -⟩
  · exact Std.not_lt.mpr (Std.le_of_lt (String.lt_iff_toList_lt.mp hlt))
  · rw [heq]
    exact Std.lt_irrefl

variable {graph : EntityGraph} {entities : List (String × String)}

theorem takeWhile_keys {x : String × String}
    (h : (x :: entities).Pairwise PairLe) :
    entities.takeWhile (fun e => hasPrefix x.1 e.1) =
      entities.filter (fun e => hasPrefix x.1 e.1) := by
  obtain ⟨hfirst, hrest⟩ := List.pairwise_cons.mp h
  refine takeWhile_eq_filter (hrest.imp_of_mem ?_)
  intro y z hy _ hle hz
  rw [hasPrefix_iff] at hz ⊢
  exact prefix_of_le (hfirst y hy).not_lt hle.not_lt hz

theorem PairLe.not_extends {x y : String × String} (h : PairLe x y)
    (hbegins : hasPrefix y.1 x.1 = true) :
    y.1 = x.1 := by
  obtain ⟨rest, hrest⟩ := hasPrefix_iff.mp hbegins
  cases rest with
  | nil =>
      rw [List.append_nil] at hrest
      exact String.toList_inj.mp hrest
  | cons c rest =>
      have hlt : y.1.toList ++ [] < y.1.toList ++ c :: rest :=
        (append_left_lt_iff _).mpr (List.nil_lt_cons c rest)
      rw [List.append_nil, hrest] at hlt
      exact absurd hlt h.not_lt

/-- The candidates of a sorted list are its pairs of a key and a longer one that
begins with it. -/
theorem mem_scan (hsorted : entities.Pairwise PairLe) {c : AliasCandidate} :
    c ∈ scan graph entities ↔
      exists x y, x ∈ entities ∧ y ∈ entities ∧ 4 ≤ x.1.length ∧
        hasPrefix x.1 y.1 = true ∧ x.1 ≠ y.1 ∧
        c = ⟨x.2, y.2, sharedRecords graph x.2 y.2⟩ := by
  induction entities with
  | nil => simp [scan]
  | cons first rest ih =>
      obtain ⟨hfirst, hrest⟩ := List.pairwise_cons.mp hsorted
      have hhere : c ∈ (if first.1.length < 4 then []
          else ((rest.takeWhile (fun e => hasPrefix first.1 e.1)).filter
            (fun e => decide (e.1 ≠ first.1))).map
              (fun e => ⟨first.2, e.2, sharedRecords graph first.2 e.2⟩)) ↔
          exists y, y ∈ rest ∧ 4 ≤ first.1.length ∧
            hasPrefix first.1 y.1 = true ∧ first.1 ≠ y.1 ∧
            c = ⟨first.2, y.2, sharedRecords graph first.2 y.2⟩ := by
        split
        · next hshort =>
          constructor
          · nofun
          · rintro ⟨_, -, hlong, -⟩
            omega
        · next hlong =>
          rw [takeWhile_keys hsorted]
          constructor
          · intro hc
            obtain ⟨y, hy, rfl⟩ := List.mem_map.mp hc
            obtain ⟨hy, hne⟩ := List.mem_filter.mp hy
            obtain ⟨hy, hbegins⟩ := List.mem_filter.mp hy
            exact ⟨y, hy, Nat.not_lt.mp hlong, hbegins,
              fun heq => of_decide_eq_true hne heq.symm, rfl⟩
          · rintro ⟨y, hy, -, hbegins, hne, rfl⟩
            refine List.mem_map.mpr ⟨y, ?_, rfl⟩
            refine List.mem_filter.mpr ⟨List.mem_filter.mpr ⟨hy, hbegins⟩, ?_⟩
            exact decide_eq_true (fun heq => hne heq.symm)
      rw [scan, List.mem_append, hhere, ih hrest]
      constructor
      · rintro (⟨y, hy, h⟩ | ⟨x, y, hx, hy, h⟩)
        · exact ⟨first, y, List.mem_cons_self, List.mem_cons_of_mem _ hy, h⟩
        · exact ⟨x, y, List.mem_cons_of_mem _ hx, List.mem_cons_of_mem _ hy, h⟩
      · rintro ⟨x, y, hx, hy, hlong, hbegins, hne, hc⟩
        rcases List.mem_cons.mp hx with rfl | hx'
        · rcases List.mem_cons.mp hy with rfl | hy'
          · exact absurd rfl hne
          · exact Or.inl ⟨y, hy', hlong, hbegins, hne, hc⟩
        · rcases List.mem_cons.mp hy with rfl | hy'
          · exact absurd ((hfirst x hx').not_extends hbegins) hne
          · exact Or.inr ⟨x, y, hx', hy', hlong, hbegins, hne, hc⟩

theorem name_of_mem_scan {c : AliasCandidate} (hc : c ∈ scan graph entities) :
    c.name ∈ entities.map Prod.snd := by
  induction entities with
  | nil => cases hc
  | cons first rest ih =>
      rw [scan] at hc
      rcases List.mem_append.mp hc with hfound | hlater
      · split at hfound
        · cases hfound
        · obtain ⟨_, -, rfl⟩ := List.mem_map.mp hfound
          exact List.mem_cons_self
      · exact List.mem_cons_of_mem _ (ih hlater)

theorem nodup_scan (hnames : (entities.map Prod.snd).Nodup) :
    ((scan graph entities).map (fun c => (c.name, c.of))).Nodup := by
  induction entities with
  | nil => exact List.nodup_nil
  | cons first rest ih =>
      obtain ⟨hfirst, hrest⟩ := List.nodup_cons.mp hnames
      rw [scan, List.map_append, List.nodup_append']
      refine ⟨?_, ih hrest, ?_⟩
      · split
        · exact List.nodup_nil
        · apply List.Nodup.of_map Prod.snd
          rw [List.map_map, List.map_map]
          exact hrest.sublist ((List.filter_sublist.trans
            (List.takeWhile_sublist _)).map Prod.snd)
      · intro pair hfound hlater
        obtain ⟨c, hc, rfl⟩ := List.mem_map.mp hfound
        obtain ⟨d, hd, heq⟩ := List.mem_map.mp hlater
        have hname : c.name = first.2 := by
          split at hc
          · cases hc
          · obtain ⟨_, -, rfl⟩ := List.mem_map.mp hc
            rfl
        have hmem := name_of_mem_scan hd
        rw [(Prod.mk.inj heq).1, hname] at hmem
        exact hfirst hmem

/-!
# The answer
-/

section

variable [CharTables]

theorem sorted_keyed (graph : EntityGraph) : (keyed graph).Pairwise PairLe :=
  List.pairwise_insertionSort PairLe _

theorem mem_keyed {e : String × String} :
    e ∈ keyed graph ↔ e.2 ∈ graph.entities ∧ e.1 = entityKey e.2 := by
  rw [keyed, List.mem_insertionSort, List.mem_map]
  constructor
  · rintro ⟨n, hn, rfl⟩
    exact ⟨Std.ExtTreeMap.mem_keys.mp hn, rfl⟩
  · rintro ⟨hn, hkey⟩
    exact ⟨e.2, Std.ExtTreeMap.mem_keys.mpr hn, Prod.ext hkey.symm rfl⟩

theorem names_keyed (graph : EntityGraph) :
    ((keyed graph).map Prod.snd).Nodup := by
  have hperm := (List.perm_insertionSort PairLe
    (graph.entities.keys.map (fun n => (entityKey n, n)))).map Prod.snd
  rw [keyed, hperm.nodup_iff, List.map_map]
  simpa [Function.comp_def] using Std.ExtTreeMap.nodup_keys

/-- The scan finds the pairs of entities where a key of at least four characters
begins the longer key of the other, each once and one way round, with the number
of records they share; the answer is the first of them by that number and the
names. -/
theorem alias_candidates_exact (graph : EntityGraph) :
    (forall a b : String,
      (exists c, c ∈ scan graph (keyed graph) ∧ c.name = a ∧ c.of = b) ↔
        a ∈ graph.entities ∧ b ∈ graph.entities ∧ MayAlias a b) ∧
    ((scan graph (keyed graph)).map (fun c => (c.name, c.of))).Nodup ∧
    (forall c d, c ∈ scan graph (keyed graph) -> d ∈ scan graph (keyed graph) ->
      ¬ (c.name = d.of ∧ c.of = d.name)) ∧
    (forall c, c ∈ scan graph (keyed graph) ->
      c.sharedRecords = sharedRecords graph c.name c.of) ∧
    forall limit, exists sorted : List AliasCandidate,
      sorted.Perm (scan graph (keyed graph)) ∧ sorted.Pairwise Before ∧
        aliasCandidates graph limit = sorted.take limit := by
  have hmem : forall c, c ∈ scan graph (keyed graph) ↔
      c.name ∈ graph.entities ∧ c.of ∈ graph.entities ∧ MayAlias c.name c.of ∧
        c.sharedRecords = sharedRecords graph c.name c.of := by
    intro c
    rw [mem_scan (sorted_keyed graph)]
    constructor
    · rintro ⟨x, y, hx, hy, hlong, hbegins, hne, rfl⟩
      obtain ⟨hx, hkx⟩ := mem_keyed.mp hx
      obtain ⟨hy, hky⟩ := mem_keyed.mp hy
      rw [hkx] at hlong
      rw [hkx, hky] at hbegins hne
      exact ⟨hx, hy, ⟨hlong, hbegins, hne⟩, rfl⟩
    · rintro ⟨hname, hof, ⟨hlong, hbegins, hne⟩, hshared⟩
      refine ⟨(entityKey c.name, c.name), (entityKey c.of, c.of),
        mem_keyed.mpr ⟨hname, rfl⟩, mem_keyed.mpr ⟨hof, rfl⟩, hlong, hbegins, hne, ?_⟩
      exact congrArg (AliasCandidate.mk c.name c.of) hshared
  refine ⟨?_, nodup_scan (names_keyed graph), ?_, ?_, ?_⟩
  · intro a b
    constructor
    · rintro ⟨c, hc, rfl, rfl⟩
      obtain ⟨ha, hb, halias, -⟩ := (hmem c).mp hc
      exact ⟨ha, hb, halias⟩
    · rintro ⟨ha, hb, halias⟩
      exact ⟨⟨a, b, sharedRecords graph a b⟩, (hmem _).mpr ⟨ha, hb, halias, rfl⟩, rfl, rfl⟩
  · rintro c d hc hd ⟨hname, hof⟩
    obtain ⟨-, -, ⟨-, hcd, hne⟩, -⟩ := (hmem c).mp hc
    obtain ⟨-, -, ⟨-, hdc, -⟩, -⟩ := (hmem d).mp hd
    rw [← hname, ← hof] at hdc
    have hlists := (hasPrefix_iff.mp hcd).eq_of_length_le (hasPrefix_iff.mp hdc).length_le
    exact hne (String.toList_inj.mp hlists)
  · exact fun c hc => ((hmem c).mp hc).2.2.2
  · exact fun limit => ⟨_, List.perm_insertionSort Before _,
      List.pairwise_insertionSort Before _, rfl⟩

end

end Memory
end PostCortex
