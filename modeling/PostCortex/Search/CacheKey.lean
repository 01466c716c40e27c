import PostCortex.KeyValue.HashBytes
import PostCortex.Search.SemanticSearch

/-!
# Cache keys

`params_hash` of `content_vectorizer/search.rs`: the bytes that the parameters of a
search feed to the hasher.  A date range is written in whole seconds, and neither
a range nor a recency bias leaves a trace when it is not there.
-/

namespace PostCortex
namespace Search

open PostCortex.Core
open KeyValue

/-!
# The bytes of the parameters
-/

def SearchMode.number : SearchMode -> Nat
  | SearchMode.fast => 0
  | SearchMode.local => 1
  | SearchMode.accurate => 2

def Corpus.number : Corpus -> Nat
  | records => 0
  | messages => 1
  | all => 2

def word (n : Nat) : List UInt8 :=
  littleEndian 4 n

def discriminant (n : Nat) : List UInt8 :=
  littleEndian 8 n

def optionBytes : Option String -> List UInt8
  | none => discriminant 0
  | some s => discriminant 1 ++ strBytes s

/-- An `i64` in two's complement. -/
def secondsBytes (t : DateTime) : List UInt8 :=
  littleEndian 8 (seconds t.nanos % 18446744073709551616).toNat

def rangeBytes : Option (DateTime × DateTime) -> List UInt8
  | none => []
  | some range => secondsBytes range.1 ++ secondsBytes range.2

def biasBytes (bits : BitVec 32) : List UInt8 :=
  if isZero bits then [] else word bits.toNat

def uuidBytes (id : Uuid) : List UInt8 :=
  (littleEndian 16 id.toNat).reverse

def sessionsBytes (ids : List Uuid) : List UInt8 :=
  littleEndian 8 ids.length ++ ids.flatMap uuidBytes

def optionsBytes (mode : SearchMode) (corpus : Corpus)
    (author preferAuthor : Option String) : List UInt8 :=
  discriminant mode.number ++ (discriminant corpus.number ++
    (optionBytes author ++ optionBytes preferAuthor))

def SearchParams.options (p : SearchParams) : List UInt8 :=
  optionsBytes p.mode p.filter.corpus p.filter.author p.preferAuthor

def paramsBytes (p : SearchParams) : List UInt8 :=
  strBytes p.query ++ (littleEndian 8 p.limit.toNat ++
    (littleEndian 1 p.scope.tag ++ (sessionsBytes p.scope.ids ++
      (rangeBytes p.filter.dateRange ++ (biasBytes p.recencyBias ++ p.options)))))

def paramsHash {key : Type} (hash : List UInt8 -> key) (p : SearchParams) : key :=
  hash (paramsBytes p)

/-!
# Reading the bytes back
-/

variable {n : Nat} {xs ys : List UInt8}

theorem word_append_inj {m : Nat} (hm : m < 4294967296) (hn : n < 4294967296)
    (h : word m ++ xs = word n ++ ys) :
    m = n ∧ xs = ys :=
  littleEndian_append_inj hm hn h

theorem discriminant_words (hn : n < 4294967296) :
    discriminant n = word n ++ word 0 := by
  unfold discriminant word
  have hhigh : n / 256 ^ 4 = 0 := Nat.div_eq_of_lt hn
  rw [show 8 = 4 + 4 from rfl, littleEndian_add, hhigh]

theorem mode_number_lt (mode : SearchMode) : mode.number < 4294967296 := by
  cases mode <;> decide

theorem corpus_number_lt (corpus : Corpus) : corpus.number < 4294967296 := by
  cases corpus <;> decide

variable {mode mode' : SearchMode}

theorem mode_number_inj (h : mode.number = mode'.number) :
    mode = mode' := by
  cases mode <;> cases mode' <;> first | rfl | cases h

variable {corpus corpus' : Corpus}

theorem corpus_number_inj (h : corpus.number = corpus'.number) :
    corpus = corpus' := by
  cases corpus <;> cases corpus' <;> first | rfl | cases h

theorem optionBytes_none : optionBytes none = word 0 ++ word 0 :=
  discriminant_words (by decide)

theorem optionBytes_some (s : String) :
    optionBytes (some s) = word 1 ++ (word 0 ++ strBytes s) := by
  rw [optionBytes, discriminant_words (by decide), List.append_assoc]

theorem optionsBytes_words (mode : SearchMode) (corpus : Corpus)
    (author preferAuthor : Option String) :
    optionsBytes mode corpus author preferAuthor =
      word mode.number ++ (word 0 ++ (word corpus.number ++ (word 0 ++
        (optionBytes author ++ optionBytes preferAuthor)))) := by
  rw [optionsBytes, discriminant_words (mode_number_lt mode),
    discriminant_words (corpus_number_lt corpus), List.append_assoc,
    List.append_assoc]

theorem length_optionBytes (o : Option String) : 8 ≤ (optionBytes o).length := by
  cases o with
  | none =>
      exact Nat.le_refl 8
  | some s =>
      rw [optionBytes, List.length_append, discriminant, length_littleEndian]
      exact Nat.le_add_right 8 _

theorem optionBytes_append_inj {o o' : Option String}
    (h : optionBytes o ++ xs = optionBytes o' ++ ys) :
    o = o' ∧ xs = ys := by
  cases o with
  | none =>
      cases o' with
      | none =>
          exact ⟨rfl, List.append_cancel_left h⟩
      | some t =>
          rw [optionBytes_none, optionBytes_some, List.append_assoc,
            List.append_assoc] at h
          cases (word_append_inj (by decide) (by decide) h).1
  | some s =>
      cases o' with
      | none =>
          rw [optionBytes_none, optionBytes_some, List.append_assoc,
            List.append_assoc] at h
          cases (word_append_inj (by decide) (by decide) h).1
      | some t =>
          rw [optionBytes, optionBytes, List.append_assoc, List.append_assoc] at h
          obtain ⟨hs, hrest⟩ := strBytes_append_inj (List.append_cancel_left h)
          exact ⟨congrArg some hs, hrest⟩

variable {a a' x x' : Option String}

theorem optionsBytes_inj
    (h : optionsBytes mode corpus a x = optionsBytes mode' corpus' a' x') :
    mode = mode' ∧ corpus = corpus' ∧ a = a' ∧ x = x' := by
  unfold optionsBytes discriminant at h
  have hmode := littleEndian_append_inj
    (Nat.lt_trans (mode_number_lt mode) (by decide))
    (Nat.lt_trans (mode_number_lt mode') (by decide)) h
  have hcorpus := littleEndian_append_inj
    (Nat.lt_trans (corpus_number_lt corpus) (by decide))
    (Nat.lt_trans (corpus_number_lt corpus') (by decide)) hmode.2
  obtain ⟨hauthor, hrest⟩ := optionBytes_append_inj hcorpus.2
  have hprefer : x = x' := by
    have happend : optionBytes x ++ [] = optionBytes x' ++ [] := by
      rw [hrest]
    exact (optionBytes_append_inj happend).1
  exact ⟨mode_number_inj hmode.1, corpus_number_inj hcorpus.1, hauthor, hprefer⟩

theorem seconds_toNat_inj {x y : Int}
    (hx : -9223372036854775808 ≤ x ∧ x < 9223372036854775808)
    (hy : -9223372036854775808 ≤ y ∧ y < 9223372036854775808)
    (h : (x % 18446744073709551616).toNat = (y % 18446744073709551616).toNat) :
    x = y := by
  omega

theorem seconds_toNat_lt (t : DateTime) :
    (seconds t.nanos % 18446744073709551616).toNat < 256 ^ 8 := by
  have hpow : 256 ^ 8 = 18446744073709551616 := by decide
  omega

theorem secondsBytes_append_inj {t u : DateTime}
    (h : secondsBytes t ++ xs = secondsBytes u ++ ys) :
    seconds t.nanos = seconds u.nanos ∧ xs = ys := by
  obtain ⟨hnumber, hrest⟩ := littleEndian_append_inj (seconds_toNat_lt t)
    (seconds_toNat_lt u) h
  exact ⟨seconds_toNat_inj t.fits u.fits hnumber, hrest⟩

theorem length_uuidBytes (id : Uuid) : (uuidBytes id).length = 16 := by
  rw [uuidBytes, List.length_reverse, length_littleEndian]

theorem uuidBytes_inj {u v : Uuid} (h : uuidBytes u = uuidBytes v) : u = v :=
  BitVec.eq_of_toNat_eq
    (littleEndian_inj (BitVec.isLt u) (BitVec.isLt v) (List.reverse_inj.mp h))

variable {us vs : List Uuid}

theorem flatMap_uuidBytes_inj (hlength : us.length = vs.length)
    (h : us.flatMap uuidBytes ++ xs = vs.flatMap uuidBytes ++ ys) :
    us = vs ∧ xs = ys := by
  induction us generalizing vs with
  | nil =>
      cases vs with
      | nil => exact ⟨rfl, h⟩
      | cons v vs => cases hlength
  | cons u us ih =>
      cases vs with
      | nil => cases hlength
      | cons v vs =>
          rw [List.flatMap_cons, List.flatMap_cons, List.append_assoc,
            List.append_assoc] at h
          obtain ⟨hfirst, hrest⟩ := List.append_inj h (by
            rw [length_uuidBytes, length_uuidBytes])
          obtain ⟨htail, hafter⟩ := ih (Nat.succ.inj hlength) hrest
          exact ⟨by rw [uuidBytes_inj hfirst, htail], hafter⟩

theorem sessionsBytes_append_inj (hu : us.length < 18446744073709551616)
    (hv : vs.length < 18446744073709551616)
    (h : sessionsBytes us ++ xs = sessionsBytes vs ++ ys) :
    us = vs ∧ xs = ys := by
  unfold sessionsBytes at h
  rw [List.append_assoc, List.append_assoc] at h
  obtain ⟨hlength, hrest⟩ := littleEndian_append_inj hu hv h
  exact flatMap_uuidBytes_inj hlength hrest

theorem scope_inj {s t : CacheScope} (htag : s.tag = t.tag) (hids : s.ids = t.ids) :
    s = t := by
  cases s <;> cases t <;> simp_all [CacheScope.tag, CacheScope.ids]

/-- The tuples agree on what comes before the date range. -/
structure SameTarget (p q : SearchParams) : Prop where
  query : p.query = q.query
  limit : p.limit = q.limit
  scope : p.scope = q.scope

def SearchParams.rest (p : SearchParams) : List UInt8 :=
  rangeBytes p.filter.dateRange ++ (biasBytes p.recencyBias ++ p.options)

theorem scope_tag_lt (s : CacheScope) : s.tag < 256 ^ 1 := by
  cases s <;> simp [CacheScope.tag]

variable {p q : SearchParams}

theorem paramsBytes_eq_iff :
    paramsBytes p = paramsBytes q ↔ SameTarget p q ∧ p.rest = q.rest := by
  constructor
  · intro h
    unfold paramsBytes at h
    obtain ⟨hquery, h⟩ := strBytes_append_inj h
    obtain ⟨hlimit, h⟩ := littleEndian_append_inj p.limit.isLt q.limit.isLt h
    obtain ⟨htag, h⟩ := littleEndian_append_inj (scope_tag_lt _) (scope_tag_lt _) h
    obtain ⟨hids, h⟩ := sessionsBytes_append_inj p.scope_fits q.scope_fits h
    exact ⟨⟨hquery, BitVec.eq_of_toNat_eq hlimit, scope_inj htag hids⟩, h⟩
  · rintro ⟨⟨hquery, hlimit, hscope⟩, hrest⟩
    have hwritten : paramsBytes p = strBytes p.query ++
        (littleEndian 8 p.limit.toNat ++ (littleEndian 1 p.scope.tag ++
          (sessionsBytes p.scope.ids ++ p.rest))) := rfl
    rw [hwritten, hquery, hlimit, hscope, hrest]
    rfl

/-!
# Options read at another place

Without a range or a bias the bytes of another tuple begin where those would be.
-/

theorem terminator_notMem_word (hn : n ≤ 2) : terminator ∉ word n := by
  have hall : forall k, k ≤ 2 -> terminator ∉ word k := by decide
  exact hall n hn

theorem terminator_notMem_discriminant (hn : n ≤ 2) :
    terminator ∉ discriminant n := by
  have hall : forall k, k ≤ 2 -> terminator ∉ discriminant k := by decide
  exact hall n hn

theorem corpus_number_le (corpus : Corpus) : corpus.number ≤ 2 := by
  cases corpus <;> decide

theorem biased_ne {b : Nat} (hb : b < 4294967296) :
    word b ++ optionsBytes mode corpus a x ≠ optionsBytes mode' corpus' a' x' := by
  intro h
  rw [optionsBytes_words, optionsBytes_words] at h
  have hmode := word_append_inj hb (mode_number_lt mode') h
  have hzero := word_append_inj (mode_number_lt mode) (by decide) hmode.2
  have hcorpus := word_append_inj (by decide) (corpus_number_lt corpus') hzero.2
  have hnumber := word_append_inj (corpus_number_lt corpus) (by decide) hcorpus.2
  have hrest := hnumber.2
  cases a' with
  | some s =>
      rw [optionBytes_some, List.append_assoc] at hrest
      cases (word_append_inj (by decide) (by decide) hrest).1
  | none =>
      rw [optionBytes_none, List.append_assoc] at hrest
      have hauthor := List.append_cancel_left hrest
      cases a with
      | some s =>
          rw [optionBytes_some, List.append_assoc] at hauthor
          cases (word_append_inj (by decide) (by decide) hauthor).1
      | none =>
          rw [optionBytes_none, List.append_assoc] at hauthor
          have hprefer := List.append_cancel_left hauthor
          cases x' with
          | some s =>
              rw [optionBytes_some] at hprefer
              cases (word_append_inj (by decide) (by decide) hprefer).1
          | none =>
              rw [optionBytes_none] at hprefer
              have hlength := congrArg List.length (List.append_cancel_left hprefer)
              have hlong := length_optionBytes x
              have hshort : (word 0).length = 4 := length_littleEndian 4 0
              omega

variable {pre : List UInt8}

/-- A text read as options: its bytes up to the first terminator are those of an
option that is a text. -/
theorem read_author (hpre : terminator ∉ pre) {s : String}
    (h : pre ++ (optionBytes a ++ optionBytes x) = strBytes s ++ optionBytes x') :
    exists t, a = some t ∧ utf8 s = pre ++ (discriminant 1 ++ utf8 t) ∧ x = x' := by
  have hone := terminator_notMem_discriminant (n := 1) (by decide)
  have hzero := terminator_notMem_discriminant (n := 0) (by decide)
  have htext : strBytes s ++ optionBytes x' =
      utf8 s ++ terminator :: optionBytes x' := by
    rw [strBytes, List.append_assoc]
    rfl
  rw [htext] at h
  cases a with
  | some t =>
      have hsplit : pre ++ (optionBytes (some t) ++ optionBytes x) =
          (pre ++ (discriminant 1 ++ utf8 t)) ++ terminator :: optionBytes x := by
        simp [optionBytes, strBytes]
      rw [hsplit] at h
      have hbefore : terminator ∉ pre ++ (discriminant 1 ++ utf8 t) := by
        simp [hpre, hone, terminator_notMem_utf8]
      obtain ⟨hs, hx⟩ := split_at_mark hbefore (terminator_notMem_utf8 s) h
      have hagain : optionBytes x ++ [] = optionBytes x' ++ [] := by
        rw [hx]
      exact ⟨t, rfl, hs.symm, (optionBytes_append_inj hagain).1⟩
  | none =>
      cases x with
      | none =>
          have hmem : terminator ∈ utf8 s ++ terminator :: optionBytes x' :=
            List.mem_append_right _ List.mem_cons_self
          rw [← h] at hmem
          simp [optionBytes, hpre, hzero] at hmem
      | some z =>
          have hsplit : pre ++ (optionBytes none ++ optionBytes (some z)) =
              (pre ++ (discriminant 0 ++ (discriminant 1 ++ utf8 z))) ++
                terminator :: [] := by
            simp [optionBytes, strBytes]
          rw [hsplit] at h
          have hbefore : terminator ∉
              pre ++ (discriminant 0 ++ (discriminant 1 ++ utf8 z)) := by
            simp [hpre, hzero, hone, terminator_notMem_utf8]
          have hend := (split_at_mark hbefore (terminator_notMem_utf8 s) h).2
          have hlength := congrArg List.length hend
          have hlong := length_optionBytes x'
          simp only [List.length_nil] at hlength
          omega

theorem read_prefer {y : String} (h : optionBytes a ++ optionBytes x = strBytes y) :
    a = none ∧ exists z, x = some z ∧
      utf8 y = discriminant 0 ++ (discriminant 1 ++ utf8 z) := by
  have hone := terminator_notMem_discriminant (n := 1) (by decide)
  have hzero := terminator_notMem_discriminant (n := 0) (by decide)
  unfold strBytes at h
  cases a with
  | some t =>
      have hsplit : optionBytes (some t) ++ optionBytes x =
          (discriminant 1 ++ utf8 t) ++ terminator :: optionBytes x := by
        simp [optionBytes, strBytes]
      rw [hsplit] at h
      have hbefore : terminator ∉ discriminant 1 ++ utf8 t := by
        simp [hone, terminator_notMem_utf8]
      have hend := (split_at_mark hbefore (terminator_notMem_utf8 y) h).2
      have hlength := congrArg List.length hend
      have hlong := length_optionBytes x
      simp only [List.length_nil] at hlength
      omega
  | none =>
      cases x with
      | none =>
          have hmem : terminator ∈ utf8 y ++ [terminator] :=
            List.mem_append_right _ List.mem_cons_self
          rw [← h] at hmem
          simp [optionBytes, hzero] at hmem
      | some z =>
          have hsplit : optionBytes none ++ optionBytes (some z) =
              (discriminant 0 ++ (discriminant 1 ++ utf8 z)) ++ terminator :: [] := by
            simp [optionBytes, strBytes]
          rw [hsplit] at h
          have hbefore : terminator ∉
              discriminant 0 ++ (discriminant 1 ++ utf8 z) := by
            simp [hzero, hone, terminator_notMem_utf8]
          have hsame := (split_at_mark hbefore (terminator_notMem_utf8 y) h).1
          exact ⟨rfl, z, rfl, hsame.symm⟩

/-!
# Tuples with the same bytes
-/

def numberText (n : Nat) : String :=
  String.ofList (Char.ofNat n :: List.replicate 7 (Char.ofNat 0))

def zeroText : String :=
  String.ofList (List.replicate 4 (Char.ofNat 0))

theorem utf8_numberText (hn : n ≤ 2) :
    utf8 (numberText n) = discriminant n := by
  have hall : forall k, k ≤ 2 -> utf8 (numberText k) = discriminant k := by
    decide +kernel
  exact hall n hn

theorem utf8_zeroText : utf8 zeroText = word 0 := by
  decide +kernel

def SameBias (b b' : BitVec 32) : Prop :=
  isZero b = true ∧ isZero b' = true ∨ b = b'

def SameSeconds : Option (DateTime × DateTime) -> Option (DateTime × DateTime) ->
    Prop
  | none, none => True
  | some r, some r' =>
      seconds r.1.nanos = seconds r'.1.nanos ∧ seconds r.2.nanos = seconds r'.2.nanos
  | _, _ => False

/-- The tuples agree, but for parts of a second in their ranges. -/
structure SameReading (p q : SearchParams) : Prop where
  range : SameSeconds p.filter.dateRange q.filter.dateRange
  bias : SameBias p.recencyBias q.recencyBias
  mode : p.mode = q.mode
  corpus : p.filter.corpus = q.filter.corpus
  author : p.filter.author = q.filter.author
  preferAuthor : p.preferAuthor = q.preferAuthor

/-- What of the options of the first tuple the author or the preferred author of
the second one repeats. -/
inductive RepeatedOptions (p q : SearchParams) : Prop where
  | prefer (x : String) :
      isZero p.recencyBias = true ->
      p.mode = SearchMode.fast ->
      p.filter.corpus = Corpus.messages ->
      p.filter.author = none ->
      q.filter.author = none ->
      p.preferAuthor = some x ->
      q.preferAuthor = some (numberText 0 ++ (numberText 1 ++ x)) ->
      RepeatedOptions p q
  | author (a : String) :
      isZero p.recencyBias = true ->
      p.mode = SearchMode.local ->
      p.filter.author = some a ->
      q.filter.author =
        some (numberText p.filter.corpus.number ++ (numberText 1 ++ a)) ->
      p.preferAuthor = q.preferAuthor ->
      RepeatedOptions p q
  | biased (a : String) :
      p.recencyBias = 1#32 ->
      p.mode = SearchMode.fast ->
      p.filter.author = some a ->
      q.filter.author =
        some (zeroText ++
          (numberText p.filter.corpus.number ++ (numberText 1 ++ a))) ->
      p.preferAuthor = q.preferAuthor ->
      RepeatedOptions p q

/-- The seconds of the range of the first tuple are the numbers of the mode and of
the corpus of the second one, which has no range and no bias. -/
structure Overlaps (p q : SearchParams) : Prop where
  range : exists r, p.filter.dateRange = some r ∧
    seconds r.1.nanos = q.mode.number ∧ seconds r.2.nanos = q.filter.corpus.number
  unranged : q.filter.dateRange = none
  unbiased : isZero q.recencyBias = true
  options : RepeatedOptions p q

variable {b : BitVec 32}

theorem biasBytes_of_isZero (h : isZero b = true) :
    biasBytes b = [] :=
  if_pos h

theorem biasBytes_of_not (h : isZero b = false) :
    biasBytes b = word b.toNat :=
  if_neg (by rw [h]; exact Bool.false_ne_true)

variable {b' : BitVec 32}

theorem bias_options_inj (h : biasBytes b ++ optionsBytes mode corpus a x =
      biasBytes b' ++ optionsBytes mode' corpus' a' x') :
    SameBias b b' ∧
      optionsBytes mode corpus a x = optionsBytes mode' corpus' a' x' := by
  cases hb : isZero b with
  | true =>
      rw [biasBytes_of_isZero hb, List.nil_append] at h
      cases hb' : isZero b' with
      | true =>
          rw [biasBytes_of_isZero hb', List.nil_append] at h
          exact ⟨Or.inl ⟨hb, hb'⟩, h⟩
      | false =>
          rw [biasBytes_of_not hb'] at h
          exact absurd h.symm (biased_ne b'.isLt)
  | false =>
      rw [biasBytes_of_not hb] at h
      cases hb' : isZero b' with
      | true =>
          rw [biasBytes_of_isZero hb', List.nil_append] at h
          exact absurd h (biased_ne b.isLt)
      | false =>
          rw [biasBytes_of_not hb'] at h
          obtain ⟨hbits, hoptions⟩ := word_append_inj b.isLt b'.isLt h
          exact ⟨Or.inr (BitVec.eq_of_toNat_eq hbits), hoptions⟩

theorem not_zero_of_biased (h : isZero b = false) : b.toNat ≠ 0 := by
  intro hzero
  have hb : b = 0#32 := BitVec.eq_of_toNat_eq hzero
  rw [hb] at h
  cases h

theorem ranged_ne_biased {t u : DateTime} (hb' : isZero b' = false) :
    secondsBytes t ++ (secondsBytes u ++
      (biasBytes b ++ optionsBytes mode corpus a x)) ≠
    biasBytes b' ++ optionsBytes mode' corpus' a' x' := by
  intro h
  rw [biasBytes_of_not hb', optionsBytes_words mode' corpus'] at h
  have hgroups : (secondsBytes t ++ secondsBytes u) ++
      (biasBytes b ++ optionsBytes mode corpus a x) =
      (word b'.toNat ++ (word mode'.number ++ (word 0 ++ word corpus'.number))) ++
        (word 0 ++ (optionBytes a' ++ optionBytes x')) := by
    simpa using h
  obtain ⟨-, hrest⟩ := List.append_inj hgroups (by
    simp [secondsBytes, word, length_littleEndian])
  cases hb : isZero b with
  | false =>
      rw [biasBytes_of_not hb] at hrest
      exact not_zero_of_biased hb
        (word_append_inj b.isLt (by decide) hrest).1
  | true =>
      rw [biasBytes_of_isZero hb, List.nil_append, optionsBytes_words] at hrest
      have hmode := word_append_inj (mode_number_lt mode) (by decide) hrest
      cases a' with
      | some s =>
          have hone := hmode.2
          rw [optionBytes_some, List.append_assoc] at hone
          cases (word_append_inj (by decide) (by decide) hone).1
      | none =>
          have hnone := hmode.2
          rw [optionBytes_none, List.append_assoc] at hnone
          have hcorpus := word_append_inj (corpus_number_lt corpus) (by decide)
            (List.append_cancel_left hnone)
          cases x' with
          | some s =>
              have hone := hcorpus.2
              rw [optionBytes_some] at hone
              cases (word_append_inj (by decide) (by decide) hone).1
          | none =>
              have hlast := hcorpus.2
              rw [optionBytes_none] at hlast
              have hlength := congrArg List.length (List.append_cancel_left hlast)
              have hlong := length_optionBytes a
              have hshort : (word 0).length = 4 := length_littleEndian 4 0
              rw [List.length_append] at hlength
              omega

theorem repeated_author {text : String} (hpre : terminator ∉ pre)
    (htext : utf8 text = pre) {s : String}
    (h : pre ++ (optionBytes a ++ optionBytes x) = strBytes s ++ optionBytes x') :
    exists t, a = some t ∧ s = text ++ (numberText 1 ++ t) ∧ x = x' := by
  obtain ⟨t, ha, hs, hx⟩ := read_author hpre h
  refine ⟨t, ha, utf8_inj ?_, hx⟩
  rw [hs, utf8_append, utf8_append, htext, utf8_numberText (by decide)]

theorem repeated_unbiased (hbias : isZero p.recencyBias = true)
    (h : p.options = optionBytes q.filter.author ++ optionBytes q.preferAuthor) :
    RepeatedOptions p q := by
  unfold SearchParams.options optionsBytes at h
  have hmodeLt := Nat.lt_trans (mode_number_lt p.mode)
    (show 4294967296 < 256 ^ 8 by decide)
  have hcorpusLt := Nat.lt_trans (corpus_number_lt p.filter.corpus)
    (show 4294967296 < 256 ^ 8 by decide)
  cases hauthor : q.filter.author with
  | none =>
      rw [hauthor, optionBytes] at h
      obtain ⟨hfast, hrest⟩ := littleEndian_append_inj hmodeLt (by decide) h
      have hmode : p.mode = SearchMode.fast := mode_number_inj hfast
      cases hprefer : q.preferAuthor with
      | none =>
          rw [hprefer, optionBytes] at hrest
          have hlength := congrArg List.length hrest
          have hlong := length_optionBytes p.filter.author
          simp only [List.length_append, discriminant, length_littleEndian] at hlength
          omega
      | some y =>
          rw [hprefer, optionBytes] at hrest
          obtain ⟨hmessages, htail⟩ :=
            littleEndian_append_inj hcorpusLt (by decide) hrest
          have hcorpus : p.filter.corpus = Corpus.messages :=
            corpus_number_inj hmessages
          obtain ⟨hnone, x, hx, hy⟩ := read_prefer htail
          have htext : y = numberText 0 ++ (numberText 1 ++ x) := by
            apply utf8_inj
            rw [hy, utf8_append, utf8_append, utf8_numberText (by decide),
              utf8_numberText (by decide)]
          exact RepeatedOptions.prefer x hbias hmode hcorpus hnone hauthor hx
            (htext ▸ hprefer)
  | some s =>
      rw [hauthor, optionBytes, List.append_assoc] at h
      obtain ⟨hlocal, hrest⟩ := littleEndian_append_inj hmodeLt (by decide) h
      have hmode : p.mode = SearchMode.local := mode_number_inj hlocal
      obtain ⟨t, ht, hs, hx⟩ := repeated_author
        (terminator_notMem_discriminant (corpus_number_le p.filter.corpus))
        (utf8_numberText (corpus_number_le p.filter.corpus)) hrest
      exact RepeatedOptions.author t hbias hmode ht (hs ▸ hauthor) hx

theorem repeated_biased (hbias : isZero p.recencyBias = false)
    (h : word p.recencyBias.toNat ++ p.options =
      optionBytes q.filter.author ++ optionBytes q.preferAuthor) :
    RepeatedOptions p q := by
  unfold SearchParams.options at h
  rw [optionsBytes_words] at h
  cases hauthor : q.filter.author with
  | none =>
      rw [hauthor, optionBytes_none, List.append_assoc] at h
      exact absurd (word_append_inj p.recencyBias.isLt (by decide) h).1
        (not_zero_of_biased hbias)
  | some s =>
      rw [hauthor, optionBytes_some, List.append_assoc, List.append_assoc] at h
      obtain ⟨hone, hafter⟩ := word_append_inj p.recencyBias.isLt (by decide) h
      have hbits : p.recencyBias = 1#32 := BitVec.eq_of_toNat_eq hone
      obtain ⟨hfast, hrest⟩ :=
        word_append_inj (mode_number_lt p.mode) (by decide) hafter
      have hmode : p.mode = SearchMode.fast := mode_number_inj hfast
      have hgroups : (word 0 ++ discriminant p.filter.corpus.number) ++
          (optionBytes p.filter.author ++ optionBytes p.preferAuthor) =
          strBytes s ++ optionBytes q.preferAuthor := by
        rw [discriminant_words (corpus_number_lt _)]
        simpa using hrest
      have hpre : terminator ∉ word 0 ++ discriminant p.filter.corpus.number := by
        rw [List.mem_append, not_or]
        exact ⟨terminator_notMem_word (by decide),
          terminator_notMem_discriminant (corpus_number_le p.filter.corpus)⟩
      have htext : utf8 (zeroText ++ numberText p.filter.corpus.number) =
          word 0 ++ discriminant p.filter.corpus.number := by
        rw [utf8_append, utf8_zeroText,
          utf8_numberText (corpus_number_le p.filter.corpus)]
      obtain ⟨t, ht, hs, hx⟩ := repeated_author hpre htext hgroups
      refine RepeatedOptions.biased t hbits hmode ht ?_ hx
      rw [hauthor, hs, String.append_assoc]

theorem overlaps_of_rest {r : DateTime × DateTime}
    (hp : p.filter.dateRange = some r) (hq : q.filter.dateRange = none)
    (h : p.rest = q.rest) :
    Overlaps p q := by
  unfold SearchParams.rest at h
  rw [hp, hq, rangeBytes, rangeBytes, List.nil_append, List.append_assoc] at h
  cases hbias : isZero q.recencyBias with
  | false =>
      exact absurd h (ranged_ne_biased hbias)
  | true =>
      have hoptions : q.options = discriminant q.mode.number ++
          (discriminant q.filter.corpus.number ++
            (optionBytes q.filter.author ++ optionBytes q.preferAuthor)) := rfl
      rw [biasBytes_of_isZero hbias, List.nil_append, hoptions] at h
      obtain ⟨hmode, hafter⟩ := littleEndian_append_inj (seconds_toNat_lt r.1)
        (Nat.lt_trans (mode_number_lt q.mode) (by decide)) h
      obtain ⟨hcorpus, hrest⟩ := littleEndian_append_inj (seconds_toNat_lt r.2)
        (Nat.lt_trans (corpus_number_lt q.filter.corpus) (by decide)) hafter
      have hstart : seconds r.1.nanos = q.mode.number := by
        have hfits := r.1.fits
        have hnumber := mode_number_lt q.mode
        omega
      have hend : seconds r.2.nanos = q.filter.corpus.number := by
        have hfits := r.2.fits
        have hnumber := corpus_number_lt q.filter.corpus
        omega
      refine ⟨⟨r, hp, hstart, hend⟩, hq, hbias, ?_⟩
      cases hpbias : isZero p.recencyBias with
      | true =>
          rw [biasBytes_of_isZero hpbias, List.nil_append] at hrest
          exact repeated_unbiased hpbias hrest
      | false =>
          rw [biasBytes_of_not hpbias] at hrest
          exact repeated_biased hpbias hrest

end Search
end PostCortex
