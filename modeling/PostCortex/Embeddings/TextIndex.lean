import Mathlib.Algebra.BigOperators.Group.List.Lemmas
import Mathlib.Algebra.GroupWithZero.Nat
import PostCortex.Graph.Temporal
import PostCortex.KeyValue.Grouping

/-!
# The text index

`vector_db/text_index.rs`: how many texts have each word, the postings, the
lengths of the texts and their sum.  A subtraction that would underflow has no
result.
-/

namespace PostCortex
namespace Embeddings

open PostCortex.Graph
open KeyValue

section

variable [WordTables]

def tokens (text : String) : List String :=
  (((CharTables.lowercase text).toList.splitOnP
    (fun c => !WordTables.isAlphanumeric c)).filter (fun w => w ≠ [])).map
      String.ofList

def termCounts (text : String) : List (String × Nat) :=
  (tokens text).dedup.map (fun term => (term, (tokens text).count term))

end

structure TextIndex where
  df : Database String Nat
  docs : Nat
  postings : Database String (List (Nat × Nat))
  lengths : Database Nat Nat
  totalLength : Nat

def checkedSub (n m : Nat) : Option Nat :=
  if m ≤ n then some (n - m) else none

namespace TextIndex

def empty : TextIndex :=
  ⟨∅, 0, ∅, ∅, 0⟩

def lengthWithout (index : TextIndex) (id : Nat) : Option Nat :=
  match index.lengths[id]? with
  | some old => checkedSub index.totalLength old
  | none => some index.totalLength

section

variable [WordTables]

def add (withPostings : Bool) (index : TextIndex) (id : Nat) (text : String) :
    Option TextIndex :=
  let counts := termCounts text
  let index :=
    { index with
      docs := index.docs + 1
      df := index.df.alterAll Prod.fst (fun _ => increment) counts }
  if withPostings = false then some index
  else
    let length := (counts.map Prod.snd).sum
    (index.lengthWithout id).map (fun total =>
      { index with
        postings :=
          index.postings.alterAll Prod.fst (fun count => push (id, count.2)) counts
        lengths := index.lengths.insert id length
        totalLength := total + length })

def removeTerm (id : Nat) (index : TextIndex) (term : String) :
    Option TextIndex :=
  if index.df[term]? = some 0 then none
  else
    some { index with
      df := index.df.alter term decrement
      postings := index.postings.alter term (retain (fun p => p.1 ≠ id)) }

def remove (index : TextIndex) (id : Nat) (text : String) :
    Option TextIndex :=
  (((termCounts text).map Prod.fst).foldlM (removeTerm id)
    { index with docs := index.docs - 1 }).bind (fun index =>
      (index.lengthWithout id).map (fun total =>
        { index with
          lengths := index.lengths.erase id
          totalLength := total }))

/-!
# The index of a list of texts
-/

def postingsOf (texts : List (Nat × String)) (term : String) :
    List (Nat × Nat) :=
  (texts.filter (fun r => term ∈ tokens r.2)).map
    (fun r => (r.1, (tokens r.2).count term))

def lengthOf (texts : List (Nat × String)) (id : Nat) : Option Nat :=
  (texts.find? (fun r => r.1 = id)).map (fun r => (tokens r.2).length)

/-- The index is the one of these texts; without postings only the counts are
kept. -/
structure Indexes (withPostings : Bool) (index : TextIndex)
    (texts : List (Nat × String)) : Prop where
  docs : index.docs = texts.length
  df : forall term,
    index.df[term]? = positive (texts.countP (fun r => term ∈ tokens r.2))
  postings : forall term,
    index.postings[term]? =
      if withPostings = true then present (postingsOf texts term) else none
  lengths : forall id,
    index.lengths[id]? = if withPostings = true then lengthOf texts id else none
  totalLength : index.totalLength =
    if withPostings = true then (texts.map (fun r => (tokens r.2).length)).sum
    else 0

theorem indexes_empty (withPostings : Bool) : Indexes withPostings empty [] := by
  constructor <;> intros <;> simp [empty, positive, postingsOf, lengthOf]

theorem termCounts_fst (text : String) :
    (termCounts text).map Prod.fst = (tokens text).dedup := by
  rw [termCounts, List.map_map]
  exact List.map_id' _

theorem nodup_termCounts (text : String) :
    ((termCounts text).map Prod.fst).Nodup := by
  rw [termCounts_fst]
  exact List.nodup_dedup _

theorem mem_terms {text term : String} :
    term ∈ (termCounts text).map Prod.fst ↔ term ∈ tokens text := by
  rw [termCounts_fst, List.mem_dedup]

theorem mem_termCounts {text term : String} (h : term ∈ tokens text) :
    (term, (tokens text).count term) ∈ termCounts text :=
  List.mem_map_of_mem (List.mem_dedup.mpr h)

theorem sum_termCounts (text : String) :
    ((termCounts text).map Prod.snd).sum = (tokens text).length := by
  rw [termCounts, List.map_map]
  exact List.sum_map_count_dedup_eq_length _

theorem get_alterAll_terms {value : Type} (db : Database String value)
    (g : String × Nat -> Option value -> Option value) (text term : String) :
    (db.alterAll Prod.fst g (termCounts text))[term]? =
      if term ∈ tokens text then
        g (term, (tokens text).count term) db[term]?
      else db[term]? := by
  split
  · next hterm =>
    exact Database.get_alterAll_mem db g (nodup_termCounts text)
      (mem_termCounts hterm)
  · next hterm =>
    apply Database.get_alterAll_other
    rintro x hx rfl
    exact hterm (mem_terms.mp (List.mem_map_of_mem hx))

/-!
# Adding a text
-/

theorem postingsOf_snoc (texts : List (Nat × String)) (id : Nat)
    (text term : String) :
    postingsOf (texts ++ [(id, text)]) term =
      if term ∈ tokens text then
        postingsOf texts term ++ [(id, (tokens text).count term)]
      else postingsOf texts term := by
  unfold postingsOf
  rw [List.filter_append, List.map_append]
  split
  · next hterm =>
    simp [hterm]
  · next hterm =>
    simp [hterm]

theorem lengthOf_snoc {texts : List (Nat × String)} {id : Nat}
    (hnone : lengthOf texts id = none) (text : String) (x : Nat) :
    lengthOf (texts ++ [(id, text)]) x =
      if id = x then some (tokens text).length else lengthOf texts x := by
  unfold lengthOf at hnone ⊢
  rw [List.find?_append]
  split
  · next hx =>
    subst hx
    rw [Option.map_eq_none_iff] at hnone
    rw [hnone]
    simp
  · next hx =>
    simp [hx]

theorem Indexes.add {withPostings : Bool} {index : TextIndex}
    {texts : List (Nat × String)} (h : Indexes withPostings index texts) {id : Nat}
    (hfresh : id ∉ texts.map Prod.fst) (text : String) :
    exists index', index.add withPostings id text = some index' ∧
      Indexes withPostings index' (texts ++ [(id, text)]) := by
  have hnone : lengthOf texts id = none := by
    rw [lengthOf, Option.map_eq_none_iff, List.find?_eq_none]
    intro r hr heq
    exact hfresh (of_decide_eq_true heq ▸ List.mem_map_of_mem hr)
  have hdf : forall term,
      (index.df.alterAll Prod.fst (fun _ => increment) (termCounts text))[term]? =
        positive ((texts ++ [(id, text)]).countP
          (fun r => term ∈ tokens r.2)) := by
    intro term
    rw [get_alterAll_terms, h.df, increment_positive, List.countP_append]
    split
    · next hterm =>
      simp [hterm]
    · next hterm =>
      simp [hterm]
  cases withPostings with
  | false =>
      refine ⟨_, rfl, ?_, hdf, h.postings, h.lengths, h.totalLength⟩
      simp [h.docs]
  | true =>
      have hwithout : index.lengthWithout id = some index.totalLength := by
        rw [lengthWithout, h.lengths, if_pos rfl, hnone]
      refine ⟨_, congrArg (Option.map _) hwithout, ?_, hdf, ?_, ?_, ?_⟩
      · simp [h.docs]
      · intro term
        rw [if_pos rfl, postingsOf_snoc]
        dsimp only
        rw [get_alterAll_terms, h.postings, if_pos rfl]
        split
        · rw [push_present]
        · rfl
      · intro x
        rw [if_pos rfl, lengthOf_snoc hnone, sum_termCounts]
        by_cases hx : id = x
        · subst hx
          rw [if_pos rfl]
          exact Database.get_put_self index.lengths id (tokens text).length
        · have hold := h.lengths x
          rw [if_pos rfl] at hold
          rw [if_neg hx, ← hold]
          exact Database.get_apply_other index.lengths
            (e := Edit.put id (tokens text).length) hx
      · rw [if_pos rfl, List.map_append, List.sum_append, sum_termCounts,
          h.totalLength, if_pos rfl]
        simp

/-!
# Removing a text
-/

omit [WordTables] in
theorem foldlM_removeTerm (id : Nat) {terms : List String} (hnodup : terms.Nodup)
    (index : TextIndex)
    (hdf : forall term, term ∈ terms -> index.df[term]? ≠ some 0) :
    exists index', terms.foldlM (removeTerm id) index = some index' ∧
      index'.docs = index.docs ∧ index'.lengths = index.lengths ∧
      index'.totalLength = index.totalLength ∧
      forall term,
        index'.df[term]? =
          (if term ∈ terms then decrement index.df[term]?
          else index.df[term]?) ∧
        index'.postings[term]? =
          if term ∈ terms then
            retain (fun p => p.1 ≠ id) index.postings[term]?
          else index.postings[term]? := by
  induction terms generalizing index with
  | nil =>
      exact ⟨index, rfl, rfl, rfl, rfl, fun _ => ⟨rfl, rfl⟩⟩
  | cons t rest ih =>
      rw [List.nodup_cons] at hnodup
      have hkept : forall term, term ∈ rest -> t ≠ term := by
        rintro term hterm rfl
        exact hnodup.1 hterm
      rw [List.foldlM_cons, removeTerm, if_neg (hdf t List.mem_cons_self)]
      obtain ⟨index', hfold, hdocs, hlengths, htotal, hentries⟩ :=
        ih hnodup.2 { index with
          df := index.df.alter t decrement
          postings := index.postings.alter t (retain (fun p => p.1 ≠ id)) } (by
            intro term hterm
            rw [Database.get_alter, if_neg (hkept term hterm)]
            exact hdf term (List.mem_cons_of_mem _ hterm))
      refine ⟨index', hfold, hdocs, hlengths, htotal, ?_⟩
      intro term
      obtain ⟨hterms, hpostings⟩ := hentries term
      rw [Database.get_alter] at hterms hpostings
      rw [hterms, hpostings]
      by_cases ht : t = term
      · subst ht
        simp [hnodup.1]
      · simp [ht, Ne.symm ht]

theorem countP_remove {texts : List (Nat × String)} {id : Nat} {text : String}
    (hnodup : (texts.map Prod.fst).Nodup) (hmem : (id, text) ∈ texts)
    (term : String) :
    texts.countP (fun r => term ∈ tokens r.2) =
      (texts.filter (fun r => r.1 ≠ id)).countP (fun r => term ∈ tokens r.2) +
        if term ∈ tokens text then 1 else 0 := by
  rw [(perm_cons_filter hnodup hmem).countP_eq, List.countP_cons]
  simp only [decide_eq_true_eq]

theorem postingsOf_remove (texts : List (Nat × String)) (id : Nat)
    (term : String) :
    (postingsOf texts term).filter (fun p => p.1 ≠ id) =
      postingsOf (texts.filter (fun r => r.1 ≠ id)) term := by
  unfold postingsOf
  rw [List.filter_map, List.filter_filter, List.filter_filter]
  congr 1
  apply List.filter_congr
  intro r _
  exact Bool.and_comm _ _

theorem postingsOf_other {texts : List (Nat × String)} {id : Nat}
    {text : String} (hnodup : (texts.map Prod.fst).Nodup)
    (hmem : (id, text) ∈ texts) {term : String} (hterm : term ∉ tokens text) :
    postingsOf (texts.filter (fun r => r.1 ≠ id)) term =
      postingsOf texts term := by
  rw [← postingsOf_remove, List.filter_eq_self]
  intro p hp
  obtain ⟨r, hr, rfl⟩ := List.mem_map.mp hp
  obtain ⟨hr, hword⟩ := List.mem_filter.mp hr
  refine decide_eq_true ?_
  intro hid
  have heq := List.inj_on_of_nodup_map hnodup hr hmem hid
  rw [heq] at hword
  exact hterm (of_decide_eq_true hword)

theorem lengthOf_mem {texts : List (Nat × String)} {id : Nat} {text : String}
    (hnodup : (texts.map Prod.fst).Nodup) (hmem : (id, text) ∈ texts) :
    lengthOf texts id = some (tokens text).length := by
  unfold lengthOf
  cases hfind : texts.find? (fun r => r.1 = id) with
  | none =>
      have hnone := List.find?_eq_none.mp hfind _ hmem
      simp at hnone
  | some r =>
      have hsome := List.find?_some hfind
      have hid : r.1 = id := of_decide_eq_true hsome
      rw [List.inj_on_of_nodup_map hnodup (List.mem_of_find?_eq_some hfind)
        hmem hid]
      rfl

theorem lengthOf_remove (texts : List (Nat × String)) (id x : Nat) :
    lengthOf (texts.filter (fun r => r.1 ≠ id)) x =
      if id = x then none else lengthOf texts x := by
  unfold lengthOf
  rw [List.find?_filter]
  split
  · next hx =>
    subst hx
    rw [Option.map_eq_none_iff, List.find?_eq_none]
    intro r _
    simp
  · next hx =>
    congr 2
    funext r
    by_cases hr : r.1 = x
    · simp [hr, Ne.symm hx]
    · simp [hr]

theorem Indexes.remove {withPostings : Bool} {index : TextIndex}
    {texts : List (Nat × String)} (h : Indexes withPostings index texts)
    (hnodup : (texts.map Prod.fst).Nodup) {id : Nat} {text : String}
    (hmem : (id, text) ∈ texts) :
    exists index', index.remove id text = some index' ∧
      Indexes withPostings index' (texts.filter (fun r => r.1 ≠ id)) := by
  have hperm := perm_cons_filter hnodup hmem
  obtain ⟨index', hfold, hdocs, hlengths, htotal, hentries⟩ :=
    foldlM_removeTerm id (nodup_termCounts text)
      { index with docs := index.docs - 1 } (by
        intro term _
        rw [show index.df[term]? = _ from h.df term]
        exact positive_ne_zero _)
  have hsum : (texts.map (fun r => (tokens r.2).length)).sum =
      (tokens text).length +
        ((texts.filter (fun r => r.1 ≠ id)).map
          (fun r => (tokens r.2).length)).sum := by
    rw [(hperm.map _).sum_eq, List.map_cons, List.sum_cons]
  have hwithout : index'.lengthWithout id = some
      (if withPostings = true then
        ((texts.filter (fun r => r.1 ≠ id)).map
          (fun r => (tokens r.2).length)).sum
      else 0) := by
    rw [lengthWithout, hlengths, htotal, h.lengths, h.totalLength,
      lengthOf_mem hnodup hmem]
    cases withPostings with
    | false => rfl
    | true =>
        rw [if_pos rfl, if_pos rfl, if_pos rfl, hsum]
        simp [checkedSub]
  refine ⟨_, by rw [TextIndex.remove, hfold, Option.bind_some, hwithout,
    Option.map_some], ?_, ?_, ?_, ?_, rfl⟩
  · have hlength := hperm.length_eq
    rw [List.length_cons] at hlength
    rw [hdocs, h.docs, hlength]
    rfl
  · intro term
    rw [(hentries term).1, h.df, countP_remove hnodup hmem]
    by_cases hterm : term ∈ tokens text
    · rw [if_pos (mem_terms.mpr hterm), if_pos hterm, decrement_positive]
    · rw [if_neg (fun hmem => hterm (mem_terms.mp hmem)), if_neg hterm,
        Nat.add_zero]
  · intro term
    rw [(hentries term).2, h.postings]
    by_cases hterm : term ∈ tokens text
    · rw [if_pos (mem_terms.mpr hterm)]
      cases withPostings with
      | false => rfl
      | true =>
          rw [if_pos rfl, if_pos rfl, retain_present, postingsOf_remove]
    · rw [if_neg (fun hmem => hterm (mem_terms.mp hmem)),
        postingsOf_other hnodup hmem hterm]
  · intro x
    rw [lengthOf_remove]
    by_cases hx : id = x
    · subst hx
      have hgone : (index'.lengths.erase id)[id]? = none :=
        Database.get_delete_self index'.lengths id
      rw [hgone, if_pos rfl, ite_self]
    · have hkept : (index'.lengths.erase id)[x]? = index'.lengths[x]? :=
        Database.get_apply_other index'.lengths (e := Edit.delete id) hx
      rw [hkept, hlengths, h.lengths, if_neg hx]

end

end TextIndex
end Embeddings
end PostCortex
