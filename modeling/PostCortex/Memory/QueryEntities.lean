import Mathlib.Data.List.Infix
import PostCortex.Graph.Temporal
import PostCortex.Parsing.Text

/-!
# Entities that a query names

`find_query_entities` of `context_assembly.rs`: a name is found verbatim in the query,
or by enough of its tokens.  The name is brought to lower case before it is split, so
that it is not split at the boundaries of camel case.
-/

namespace PostCortex
namespace Memory

open PostCortex.Core
open PostCortex.Graph
open PostCortex.Parsing

class NameTables extends WordTables where
  isUppercase : Char -> Bool

/-!
# Tokens of names
-/

def isSeparator (c : Char) : Bool :=
  c == '_' || c == '-' || c == '/' || c == ' ' || c == '.'

structure Splitting where
  tokens : List (List Char)
  current : List Char

namespace Splitting

def close (s : Splitting) : Splitting :=
  if s.current = [] then s else ⟨s.tokens ++ [s.current], []⟩

def add (s : Splitting) (c : Char) : Splitting :=
  ⟨s.tokens, s.current ++ [c.toLower]⟩

end Splitting

section

variable [NameTables]

def splitStep (s : Splitting) (c : Char) : Splitting :=
  if isSeparator c then s.close
  else if NameTables.isUppercase c && s.current ≠ [] then s.close.add c
  else s.add c

def splitEntityTokens (name : String) : List String :=
  (name.toList.foldl splitStep ⟨[], []⟩).close.tokens.map String.ofList

/-!
# Matching
-/

def queryTokens (query : String) : List String :=
  (((CharTables.lowercase query).toList.splitOnP
    (fun c => !WordTables.isAlphanumeric c && c != '_')).map String.ofList).filter
      (fun t => 3 ≤ t.utf8ByteSize)

def tokenMatches (words : List String) (et : String) : Bool :=
  if et.utf8ByteSize < 3 then false
  else
    words.any (fun qt =>
      let (shorter, longer) := if et.utf8ByteSize ≤ qt.utf8ByteSize then (et, qt) else (qt, et)
      3 ≤ shorter.utf8ByteSize && shorter.toList.isPrefixOf longer.toList)

def threshold (tokens : Nat) : Nat :=
  if tokens ≤ 2 then tokens else max 1 ((tokens * 2 + 4) / 5)

structure FoundName where
  name : String
  score : Nat
  isExact : Bool
  deriving DecidableEq, Repr

def scoreName (query name : String) : Option FoundName :=
  let nameLower := CharTables.lowercase name
  if nameLower.utf8ByteSize < 2 then none
  else if nameLower.toList <:+: (CharTables.lowercase query).toList then
    some ⟨name, nameLower.utf8ByteSize * 10, true⟩
  else
    let entityTokens := splitEntityTokens nameLower
    let matched := (entityTokens.filter (tokenMatches (queryTokens query))).length
    if entityTokens = [] then none
    else if matched = 0 then none
    else if threshold entityTokens.length ≤ matched then
      some ⟨name, matched * 5 + nameLower.utf8ByteSize, false⟩
    else none

def beforeFound (a b : FoundName) : Bool :=
  if a.isExact = b.isExact then b.score ≤ a.score else a.isExact

def findQueryEntities (query : String) (graph : EntityGraph) : List String :=
  ((graph.entities.values.filterMap (fun e => scoreName query e.name)).mergeSort
    beforeFound).map FoundName.name

/-!
# Names whose tokens occur
-/

def nameTokens (name : String) : List String :=
  (splitEntityTokens name).map CharTables.lowercase

def Shares (query : String) (tokens : List String) : Prop :=
  tokens ≠ [] ∧
    threshold tokens.length ≤ (tokens.filter (fun t => t ∈ queryTokens query)).length

def FindsShared (query : String) (graph : EntityGraph) : Prop :=
  forall e, e ∈ graph.entities.values -> Shares query (nameTokens e.name) ->
    e.name ∈ findQueryEntities query graph

/-- Lowering the case of the name before it is split gives the same tokens. -/
def SplitsAlike (name : String) : Prop :=
  splitEntityTokens (CharTables.lowercase name) = nameTokens name

/-- The name is found verbatim or by the tokens of its lower-case form. -/
def FoundLowered (query name : String) : Prop :=
  2 ≤ (CharTables.lowercase name).utf8ByteSize ∧
    ((CharTables.lowercase name).toList <:+: (CharTables.lowercase query).toList ∨
      splitEntityTokens (CharTables.lowercase name) ≠ [] ∧
        threshold (splitEntityTokens (CharTables.lowercase name)).length ≤
          ((splitEntityTokens (CharTables.lowercase name)).filter
            (tokenMatches (queryTokens query))).length)

/-!
# Sizes
-/

omit [NameTables] in
theorem utf8Size_toLower (c : Char) : c.toLower.utf8Size = c.utf8Size := by
  unfold Char.toLower
  split
  · next hupper =>
    have hbounds := hupper
    rw [ge_iff_le, UInt32.le_iff_toNat_le, UInt32.le_iff_toNat_le] at hbounds
    have hlow : 'A'.val.toNat = 65 := rfl
    have hhigh : 'Z'.val.toNat = 90 := rfl
    have hmax : (127 : UInt32).toNat = 127 := rfl
    have hshift : ('a'.val - 'A'.val).toNat = 32 := rfl
    have hone : c.utf8Size = 1 := by
      rw [Char.utf8Size_eq_one_iff, UInt32.le_iff_toNat_le]
      omega
    rw [hone, Char.utf8Size_eq_one_iff, UInt32.le_iff_toNat_le, UInt32.toNat_add]
    omega
  · rfl

omit [NameTables] in
theorem length_encode_snoc (cs : List Char) (c : Char) :
    (encode (cs ++ [c])).length = (encode cs).length + c.utf8Size := by
  rw [encode_append, List.length_append, encode_cons, encode_nil, List.append_nil,
    String.length_utf8EncodeChar]

structure Splitting.Bounded (s : Splitting) (n : Nat) : Prop where
  tokens : forall t, t ∈ s.tokens -> (encode t).length ≤ n
  current : (encode s.current).length ≤ n

omit [NameTables] in
theorem Splitting.Bounded.close {s : Splitting} {n : Nat} (h : s.Bounded n) :
    s.close.Bounded n := by
  unfold Splitting.close
  split
  · exact h
  · refine ⟨?_, Nat.zero_le n⟩
    intro t ht
    rcases List.mem_append.mp ht with hold | hnew
    · exact h.tokens t hold
    · rw [List.mem_singleton.mp hnew]
      exact h.current

omit [NameTables] in
theorem Splitting.Bounded.add {s : Splitting} {n : Nat} (h : s.Bounded n) (c : Char) :
    (s.add c).Bounded (n + c.utf8Size) where
  tokens := fun t ht => Nat.le_add_right_of_le (h.tokens t ht)
  current := by
    rw [Splitting.add, length_encode_snoc, utf8Size_toLower]
    exact Nat.add_le_add_right h.current _

theorem Splitting.Bounded.step {s : Splitting} {n : Nat} (h : s.Bounded n) (c : Char) :
    (splitStep s c).Bounded (n + c.utf8Size) := by
  unfold splitStep
  split
  · exact ⟨fun t ht => Nat.le_add_right_of_le (h.close.tokens t ht),
      Nat.le_add_right_of_le h.close.current⟩
  · split
    · exact h.close.add c
    · exact h.add c

variable {name : String}

theorem size_splitEntityTokens {t : String} (ht : t ∈ splitEntityTokens name) :
    t.utf8ByteSize ≤ name.utf8ByteSize := by
  have hfold : forall cs : List Char,
      (cs.foldl splitStep ⟨[], []⟩).Bounded (encode cs).length := by
    intro cs
    induction cs using List.reverseRecOn with
    | nil => exact ⟨fun t ht => absurd ht List.not_mem_nil, Nat.le_refl 0⟩
    | append_singleton cs c ih =>
        rw [List.foldl_append, List.foldl_cons, List.foldl_nil, length_encode_snoc]
        exact ih.step c
  obtain ⟨cs, hcs, rfl⟩ := List.mem_map.mp ht
  rw [utf8ByteSize_eq, utf8ByteSize_eq, String.toList_ofList]
  exact (hfold name.toList).close.tokens cs hcs

/-!
# What is found
-/

omit [NameTables] in
theorem threshold_pos {n : Nat} (h : n ≠ 0) : 0 < threshold n := by
  unfold threshold
  split
  · omega
  · omega

variable {query : String}

theorem scoreName_isSome :
    (scoreName query name).isSome = true ↔ FoundLowered query name := by
  unfold scoreName FoundLowered
  dsimp only
  by_cases hshort : (CharTables.lowercase name).utf8ByteSize < 2
  · rw [if_pos hshort]
    simp only [Option.isSome_none, Bool.false_eq_true, false_iff, not_and]
    omega
  · rw [if_neg hshort]
    by_cases hverbatim : (CharTables.lowercase name).toList <:+:
        (CharTables.lowercase query).toList
    · rw [if_pos hverbatim]
      exact iff_of_true rfl ⟨by omega, Or.inl hverbatim⟩
    · rw [if_neg hverbatim]
      generalize splitEntityTokens (CharTables.lowercase name) = tokens
      by_cases hnil : tokens = []
      · simp [hverbatim, hnil]
      · have hpos := threshold_pos (mt List.length_eq_zero_iff.mp hnil)
        rw [if_neg hnil]
        split
        · next hzero =>
          simp only [Option.isSome_none, Bool.false_eq_true, hverbatim, false_or, hzero,
            false_iff]
          omega
        · split
          · next henough =>
            simp only [Option.isSome_some, hverbatim, false_or, true_iff]
            exact ⟨by omega, hnil, henough⟩
          · next hfew =>
            simp only [Option.isSome_none, Bool.false_eq_true, hverbatim, false_or,
              false_iff]
            exact fun h => hfew h.2.2

theorem mem_findQueryEntities {graph : EntityGraph} :
    name ∈ findQueryEntities query graph ↔
      exists e, e ∈ graph.entities.values ∧ e.name = name ∧ FoundLowered query name := by
  have hname : forall {name : String} {found : FoundName},
      scoreName query name = some found -> found.name = name := by
    intro name found h
    unfold scoreName at h
    dsimp only at h
    split at h
    · cases h
    · split at h
      · cases h
        rfl
      · split at h
        · cases h
        · split at h
          · cases h
          · split at h
            · cases h
              rfl
            · cases h
  simp only [findQueryEntities, List.mem_map, List.mem_mergeSort, List.mem_filterMap]
  constructor
  · rintro ⟨found, ⟨e, he, hscore⟩, rfl⟩
    refine ⟨e, he, (hname hscore).symm, ?_⟩
    rw [hname hscore, ← scoreName_isSome, hscore]
    rfl
  · rintro ⟨e, he, rfl, hfound⟩
    obtain ⟨found, hscore⟩ := Option.isSome_iff_exists.mp (scoreName_isSome.mpr hfound)
    exact ⟨found, ⟨e, he, hscore⟩, hname hscore⟩

theorem tokenMatches_self {t : String} (ht : t ∈ queryTokens query) :
    tokenMatches (queryTokens query) t = true := by
  have hsize : 3 ≤ t.utf8ByteSize := of_decide_eq_true (List.mem_filter.mp ht).2
  unfold tokenMatches
  rw [if_neg (by omega), List.any_eq_true]
  refine ⟨t, ht, ?_⟩
  simp [hsize]

theorem foundLowered_of_splitsAlike (halike : SplitsAlike name)
    (h : Shares query (nameTokens name)) : FoundLowered query name := by
  obtain ⟨hne, hshare⟩ := h
  rw [← halike] at hne hshare
  have hpos := threshold_pos (mt List.length_eq_zero_iff.mp hne)
  have hmono : ((splitEntityTokens (CharTables.lowercase name)).filter
      (fun t => t ∈ queryTokens query)).length ≤
        ((splitEntityTokens (CharTables.lowercase name)).filter
          (tokenMatches (queryTokens query))).length := by
    rw [← List.countP_eq_length_filter, ← List.countP_eq_length_filter]
    apply List.countP_mono_left
    intro t _ ht
    exact tokenMatches_self (of_decide_eq_true ht)
  refine ⟨?_, Or.inr ⟨hne, hshare.trans hmono⟩⟩
  obtain ⟨t, ht⟩ := List.exists_mem_of_length_pos (Nat.lt_of_lt_of_le hpos hshare)
  obtain ⟨htoken, hword⟩ := List.mem_filter.mp ht
  have hword := of_decide_eq_true hword
  have hlong : 3 ≤ t.utf8ByteSize := of_decide_eq_true (List.mem_filter.mp hword).2
  have hsize := size_splitEntityTokens htoken
  omega

/-- Every entity enough of whose tokens occur is found exactly when every such entity
whose name loses a boundary in lower case is found in that form. -/
theorem findsShared_iff (query : String) (graph : EntityGraph) :
    FindsShared query graph ↔
      forall e, e ∈ graph.entities.values -> ¬ SplitsAlike e.name ->
        Shares query (nameTokens e.name) -> FoundLowered query e.name := by
  constructor
  · intro h e he _ hshares
    obtain ⟨_, _, _, hfound⟩ := mem_findQueryEntities.mp (h e he hshares)
    exact hfound
  · intro h e he hshares
    apply mem_findQueryEntities.mpr
    refine ⟨e, he, rfl, ?_⟩
    by_cases halike : SplitsAlike e.name
    · exact foundLowered_of_splitsAlike halike hshares
    · exact h e he halike hshares

end

/-!
# A name in camel case
-/

@[reducible] def asciiNames : NameTables :=
  { Temporal.asciiWords with isUppercase := Char.isUpper }

attribute [local instance] asciiNames

def camelCaseGraph : EntityGraph :=
  EntityGraph.addRelationship 0 EntityGraph.new
    ⟨"ChatRepositoryImpl", "store", RelationType.dependsOn, ""⟩

/-- Two of the three tokens occur, but the name in lower case is one token. -/
theorem camelCase_name_missed :
    ¬ FindsShared "where is the repository impl" camelCaseGraph := by
  intro h
  have hname : "ChatRepositoryImpl" ∈ camelCaseGraph.entities.values.map EntityData.name := by
    decide +kernel
  obtain ⟨e, he, hsame⟩ := List.mem_map.mp hname
  have hshares : Shares "where is the repository impl" (nameTokens e.name) := by
    rw [hsame]
    exact ⟨by decide +kernel, by decide +kernel⟩
  obtain ⟨_, _, _, hfound⟩ := mem_findQueryEntities.mp (h e he hshares)
  rw [hsame] at hfound
  obtain ⟨-, hverbatim | ⟨-, hshare⟩⟩ := hfound
  · exact absurd hverbatim (by decide +kernel)
  · exact absurd hshare (by decide +kernel)

end Memory
end PostCortex
