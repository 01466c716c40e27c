import PostCortex.Search.CacheKey

/-!
# Searches with one key

The tuples of parameters that have the same bytes, and what their searches return.
Two searches of one key differ exactly when their date ranges admit different
timestamps: because the ranges differ within a second, or because one tuple has
the bytes of its range where the other one has its options.
-/

namespace PostCortex
namespace Search

open PostCortex.Core
open KeyValue

/-!
# The tuples with the same bytes
-/

variable {b b' : BitVec 32}

theorem biasBytes_congr (h : SameBias b b') :
    biasBytes b = biasBytes b' := by
  rcases h with ⟨hb, hb'⟩ | rfl
  · rw [biasBytes_of_isZero hb, biasBytes_of_isZero hb']
  · rfl

theorem secondsBytes_congr {t u : DateTime}
    (h : seconds t.nanos = seconds u.nanos) :
    secondsBytes t = secondsBytes u := by
  rw [secondsBytes, h, secondsBytes]

variable {range range' : Option (DateTime × DateTime)}

theorem rangeBytes_congr (h : SameSeconds range range') :
    rangeBytes range = rangeBytes range' := by
  cases range with
  | none =>
      cases range' with
      | none => rfl
      | some r' => cases h
  | some r =>
      cases range' with
      | none => cases h
      | some r' =>
          rw [rangeBytes, rangeBytes, secondsBytes_congr h.1,
            secondsBytes_congr h.2]

variable {p q : SearchParams}

theorem SameReading.rest (h : SameReading p q) :
    p.rest = q.rest := by
  rw [SearchParams.rest, SearchParams.rest, rangeBytes_congr h.range,
    biasBytes_congr h.bias, SearchParams.options, SearchParams.options, h.mode,
    h.corpus, h.author, h.preferAuthor]

theorem secondsBytes_of_number {t : DateTime} {n : Nat} (hn : n < 4294967296)
    (h : seconds t.nanos = n) :
    secondsBytes t = discriminant n := by
  have hnumber : (seconds t.nanos % 18446744073709551616).toNat = n := by
    omega
  rw [secondsBytes, hnumber]
  rfl

theorem strBytes_append (s t : String) :
    strBytes (s ++ t) = utf8 s ++ strBytes t := by
  rw [strBytes, strBytes, utf8_append, List.append_assoc]

theorem RepeatedOptions.bytes (h : RepeatedOptions p q) :
    biasBytes p.recencyBias ++ p.options =
      optionBytes q.filter.author ++ optionBytes q.preferAuthor := by
  have hcorpus := utf8_numberText (corpus_number_le p.filter.corpus)
  have hone := utf8_numberText (n := 1) (by decide)
  have hzero := utf8_numberText (n := 0) (by decide)
  cases h with
  | prefer x hbias hmode hmessages hauthor hauthor' hprefer hprefer' =>
      rw [biasBytes_of_isZero hbias, SearchParams.options, hmode, hmessages,
        hauthor, hauthor', hprefer, hprefer']
      simp only [optionsBytes, optionBytes, strBytes_append, hzero, hone,
        List.nil_append]
      rfl
  | author a hbias hmode hauthor hauthor' hprefer =>
      rw [biasBytes_of_isZero hbias, SearchParams.options, hmode, hauthor,
        hauthor', hprefer]
      simp only [optionsBytes, optionBytes, strBytes_append, hcorpus, hone,
        List.nil_append, List.append_assoc]
      rfl
  | biased a hbias hmode hauthor hauthor' hprefer =>
      have hnonzero : isZero p.recencyBias = false := by
        rw [hbias]
        decide
      rw [biasBytes_of_not hnonzero, SearchParams.options, hmode, hauthor,
        hauthor', hprefer, hbias]
      simp only [optionsBytes, optionBytes, strBytes_append, hcorpus, hone,
        utf8_zeroText, List.append_assoc]
      rfl

theorem Overlaps.rest (h : Overlaps p q) :
    p.rest = q.rest := by
  obtain ⟨r, hrange, hstart, hend⟩ := h.range
  rw [SearchParams.rest, SearchParams.rest, hrange, h.unranged, rangeBytes,
    rangeBytes, biasBytes_of_isZero h.unbiased, h.options.bytes,
    secondsBytes_of_number (mode_number_lt q.mode) hstart,
    secondsBytes_of_number (corpus_number_lt q.filter.corpus) hend]
  simp only [List.nil_append, List.append_assoc]
  rfl

theorem sameReading_of_rest (hrange : SameSeconds
      p.filter.dateRange q.filter.dateRange)
    (h : biasBytes p.recencyBias ++ p.options =
      biasBytes q.recencyBias ++ q.options) :
    SameReading p q := by
  obtain ⟨hbias, hoptions⟩ := bias_options_inj h
  obtain ⟨hmode, hcorpus, hauthor, hprefer⟩ := optionsBytes_inj hoptions
  exact ⟨hrange, hbias, hmode, hcorpus, hauthor, hprefer⟩

theorem rest_eq_iff :
    p.rest = q.rest ↔ SameReading p q ∨ Overlaps p q ∨ Overlaps q p := by
  constructor
  · intro h
    cases hp : p.filter.dateRange with
    | none =>
        cases hq : q.filter.dateRange with
        | none =>
            refine Or.inl (sameReading_of_rest (by rw [hp, hq]; exact True.intro) ?_)
            unfold SearchParams.rest at h
            rw [hp, hq] at h
            exact h
        | some r' =>
            exact Or.inr (Or.inr (overlaps_of_rest hq hp h.symm))
    | some r =>
        cases hq : q.filter.dateRange with
        | none =>
            exact Or.inr (Or.inl (overlaps_of_rest hp hq h))
        | some r' =>
            unfold SearchParams.rest at h
            rw [hp, hq, rangeBytes, rangeBytes, List.append_assoc,
              List.append_assoc] at h
            obtain ⟨hstart, hafter⟩ := secondsBytes_append_inj h
            obtain ⟨hend, hrest⟩ := secondsBytes_append_inj hafter
            refine Or.inl (sameReading_of_rest ?_ hrest)
            rw [hp, hq]
            exact ⟨hstart, hend⟩
  · rintro (h | h | h)
    · exact h.rest
    · exact h.rest
    · exact h.rest.symm

/-!
# What the searches return
-/

def SameRange (range range' : Option (DateTime × DateTime)) : Prop :=
  forall t, inRange range t = inRange range' t

theorem sameInterval_iff {a b c d : Int} :
    (forall t : Int, (a ≤ t ∧ t ≤ b) ↔ (c ≤ t ∧ t ≤ d)) ↔
      a = c ∧ b = d ∨ b < a ∧ d < c := by
  constructor
  · intro h
    have hstart := h a
    have hend := h b
    have hstart' := h c
    have hend' := h d
    omega
  · intro h t
    omega

variable {r : DateTime × DateTime}

theorem sameRange_some_iff {r' : DateTime × DateTime} :
    SameRange (some r) (some r') ↔
      r.1.nanos = r'.1.nanos ∧ r.2.nanos = r'.2.nanos ∨
        r.2.nanos < r.1.nanos ∧ r'.2.nanos < r'.1.nanos := by
  simp only [SameRange, inRange, ← Bool.decide_and, decide_eq_decide]
  exact sameInterval_iff

theorem not_sameRange_none :
    ¬ SameRange (some r) none := by
  intro h
  have hlate := h (r.2.nanos + 1)
  simp only [inRange, Bool.and_eq_true, decide_eq_true_eq] at hlate
  exact absurd hlate.2 (Int.not_le.mpr (Int.lt_succ _))

theorem positiveBias_congr (h : SameBias b b') :
    positiveBias b = positiveBias b' := by
  have hzero : forall bits : BitVec 32, isZero bits = true ->
      positiveBias bits = none := by
    intro bits hbits
    simp only [isZero, Bool.or_eq_true, beq_iff_eq] at hbits
    rcases hbits with rfl | rfl
    · rfl
    · rfl
  rcases h with ⟨hb, hb'⟩ | rfl
  · rw [hzero b hb, hzero b' hb']
  · rfl

theorem admits_congr {f f' : Filter} (hcorpus : f.corpus = f'.corpus)
    (hauthor : f.author = f'.author)
    (hrange : SameRange f.dateRange f'.dateRange) :
    f.admits = f'.admits := by
  funext record
  rw [Filter.admits, Filter.admits, hcorpus, hauthor, hrange record.timestamp]

theorem sameSeconds_isSome (h : SameSeconds range range') :
    range.isSome = range'.isSome := by
  cases range with
  | none =>
      cases range' with
      | none => rfl
      | some r' => cases h
  | some r =>
      cases range' with
      | none => cases h
      | some r' => rfl

/-- Both tuples have a range, of the same whole seconds, and agree in all else; but
the ranges are neither equal nor both empty. -/
structure DifferWithinSeconds (p q : SearchParams) : Prop where
  reading : SameReading p q
  ranges : exists r r', p.filter.dateRange = some r ∧
    q.filter.dateRange = some r' ∧
    ¬ (r.1.nanos = r'.1.nanos ∧ r.2.nanos = r'.2.nanos ∨
      r.2.nanos < r.1.nanos ∧ r'.2.nanos < r'.1.nanos)

def Confused (p q : SearchParams) : Prop :=
  SameTarget p q ∧ (DifferWithinSeconds p q ∨ Overlaps p q ∨ Overlaps q p)

theorem not_sameRange_of_confused (h : Confused p q) :
    ¬ SameRange p.filter.dateRange q.filter.dateRange := by
  rcases h.2 with hseconds | hover | hover
  · obtain ⟨r, r', hp, hq, hdiffer⟩ := hseconds.ranges
    rw [hp, hq, sameRange_some_iff]
    exact hdiffer
  · obtain ⟨r, hp, -, -⟩ := hover.range
    rw [hp, hover.unranged]
    exact not_sameRange_none
  · obtain ⟨r, hq, -, -⟩ := hover.range
    rw [hq, hover.unranged]
    intro hsame
    exact not_sameRange_none (fun t => (hsame t).symm)

theorem sameRange_of_reading (h : SameReading p q)
    (hdiffer : ¬ DifferWithinSeconds p q) :
    SameRange p.filter.dateRange q.filter.dateRange := by
  have hseconds := h.range
  cases hp : p.filter.dateRange with
  | none =>
      cases hq : q.filter.dateRange with
      | none =>
          exact fun _ => rfl
      | some r' =>
          rw [hp, hq] at hseconds
          cases hseconds
  | some r =>
      cases hq : q.filter.dateRange with
      | none =>
          rw [hp, hq] at hseconds
          cases hseconds
      | some r' =>
          rw [sameRange_some_iff]
          by_contra hranges
          exact hdiffer ⟨h, r, r', hp, hq, hranges⟩

section

variable {embedding score key : Type} [UuidText]

/-- A search depends on its range only through the timestamps it admits, and on
its bias only where that is positive. -/
theorem semanticSearch_congr (engine : Engine embedding score)
    (store : Store embedding score) (graphCandidates : Option (List String))
    {p q : SearchParams} (htarget : SameTarget p q) (hreading : SameReading p q)
    (hrange : SameRange p.filter.dateRange q.filter.dateRange) :
    semanticSearch engine store graphCandidates p =
      semanticSearch engine store graphCandidates q := by
  have hadmits := admits_congr hreading.corpus hreading.author hrange
  have hrestrictive : isRestrictive p.filter store = isRestrictive q.filter store := by
    rw [isRestrictive, isRestrictive, sameSeconds_isSome hreading.range,
      hreading.author, hreading.corpus]
  simp only [semanticSearch, htarget.query, htarget.limit, htarget.scope,
    hreading.mode, hreading.corpus, hreading.preferAuthor, hadmits, hrestrictive,
    positiveBias_congr hreading.bias]

/-- The searches return the same over every store, and their ranges admit the same
timestamps. -/
def Agree (engine : Engine embedding score) (p q : SearchParams) : Prop :=
  (forall (store : Store embedding score) (graphCandidates : Option (List String)),
    semanticSearch engine store graphCandidates p =
      semanticSearch engine store graphCandidates q) ∧
  SameRange p.filter.dateRange q.filter.dateRange

/-- Searches of one key return the same, and their ranges admit the same
timestamps, exactly for the tuples that are not confused. -/
theorem same_key_agrees_iff {hash : List UInt8 -> key}
    (hhash : Function.Injective hash) (engine : Engine embedding score)
    (p q : SearchParams) :
    (paramsHash hash p = paramsHash hash q -> Agree engine p q) ↔
      ¬ Confused p q := by
  constructor
  · intro h hconfused
    refine not_sameRange_of_confused hconfused (h ?_).2
    unfold paramsHash
    refine congrArg hash (paramsBytes_eq_iff.mpr ⟨hconfused.1, ?_⟩)
    rw [rest_eq_iff]
    rcases hconfused.2 with hseconds | hover | hover
    · exact Or.inl hseconds.reading
    · exact Or.inr (Or.inl hover)
    · exact Or.inr (Or.inr hover)
  · intro hnot hkey
    obtain ⟨htarget, hrest⟩ := paramsBytes_eq_iff.mp (hhash hkey)
    rcases rest_eq_iff.mp hrest with hreading | hover | hover
    · have hrange := sameRange_of_reading hreading
        (fun hseconds => hnot ⟨htarget, Or.inl hseconds⟩)
      exact ⟨fun store ids => semanticSearch_congr engine store ids htarget
        hreading hrange, hrange⟩
    · exact absurd ⟨htarget, Or.inr (Or.inl hover)⟩ hnot
    · exact absurd ⟨htarget, Or.inr (Or.inr hover)⟩ hnot

end

section

attribute [local instance] hyphenatedText

def plainEngine : Engine Unit Nat where
  enableCrossSessionSearch := true
  encodeText := fun _ => ()
  similarity := fun _ _ => 1
  zero := 0
  isNan := fun _ => false
  totalLe := fun a b => a ≤ b
  lt := fun a b => a < b
  equal := fun a b => a == b
  add := fun a b => a + b
  reciprocalRank := fun rank => 100 - rank
  normalised := fun _ sum => sum
  baseScore := fun relevance _ => relevance
  decay := fun _ base _ => base
  preferAuthorBoost := 5
  reranker := fun _ => none

def halfSecond : VectorRecord where
  id := "decision"
  text := "Use Redis"
  source := UuidText.toText 1
  contentType := "DecisionPoint"
  timestamp := 500000000
  metadata := ∅

def halfSecondStore : Store Unit Nat where
  vectors := (∅ : Database Nat (Unit × VectorRecord)).insert 1 ((), halfSecond)
  exactSearchThreshold := 1000
  efSearch := 64
  graphSearch := fun _ _ _ => none
  queryTerms := fun _ => []
  searchText := fun _ _ _ => none
  storageText := fun _ _ _ _ _ => none

/-- A search of the first session for what is dated from `start` to a second after
the epoch. -/
def datedSearch (start : DateTime) (preferAuthor : Option String) :
    SearchParams where
  query := "redis"
  limit := 10
  scope := CacheScope.session 1
  scope_fits := by decide
  recencyBias := 0#32
  mode := SearchMode.fast
  filter := ⟨Corpus.records, some (start, ⟨1000000000, by decide⟩), none⟩
  preferAuthor := preferAuthor

def contentIds (results : Except String (List (SearchResult Nat))) :
    Option (List String) :=
  results.toOption.map (fun found => found.map SearchResult.contentId)

/-- A bias of negative zero has the key of a bias of zero. -/
theorem same_key_agrees_zeros :
    exists p q : SearchParams, p ≠ q ∧ ¬ Confused p q ∧
      paramsHash id p = paramsHash id q ∧ Agree plainEngine p q := by
  let p := datedSearch ⟨0, by decide⟩ (some "ana")
  let q : SearchParams := { p with recencyBias := 2147483648#32 }
  have hnot : ¬ Confused p q :=
    fun h => not_sameRange_of_confused h (fun _ => rfl)
  have hkey : paramsHash id p = paramsHash id q := by
    decide +kernel
  refine ⟨p, q, ?_, hnot, hkey,
    (same_key_agrees_iff Function.injective_id plainEngine p q).mpr hnot hkey⟩
  intro hpq
  have hbias : (0#32 : BitVec 32) = 2147483648#32 :=
    congrArg SearchParams.recencyBias hpq
  cases hbias

/-- Two ranges that begin within one second have one key: only the search from the
epoch on finds what is dated half a second later. -/
theorem subsecond_ranges_collide :
    paramsHash id (datedSearch ⟨0, by decide⟩ none) =
        paramsHash id (datedSearch ⟨900000000, by decide⟩ none) ∧
      contentIds (semanticSearch plainEngine halfSecondStore none
        (datedSearch ⟨0, by decide⟩ none)) = some ["decision"] ∧
      contentIds (semanticSearch plainEngine halfSecondStore none
        (datedSearch ⟨900000000, by decide⟩ none)) = some [] ∧
      ¬ forall p q : SearchParams, paramsHash id p = paramsHash id q ->
        Agree plainEngine p q := by
  have hkey : paramsHash id (datedSearch ⟨0, by decide⟩ none) =
      paramsHash id (datedSearch ⟨900000000, by decide⟩ none) := by
    decide +kernel
  have hfound : contentIds (semanticSearch plainEngine halfSecondStore none
      (datedSearch ⟨0, by decide⟩ none)) = some ["decision"] := by
    decide +kernel
  have hmissed : contentIds (semanticSearch plainEngine halfSecondStore none
      (datedSearch ⟨900000000, by decide⟩ none)) = some [] := by
    decide +kernel
  refine ⟨hkey, hfound, hmissed, ?_⟩
  intro hall
  have hsame := (hall _ _ hkey).1 halfSecondStore none
  rw [hsame, hmissed] at hfound
  cases hfound

end

end Search
end PostCortex
