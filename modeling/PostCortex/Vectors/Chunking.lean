import Mathlib.Algebra.GroupWithZero.Nat
import Mathlib.Data.List.TakeWhile
import PostCortex.Graph.AliasResolution
import PostCortex.Vectors.Ingestion

/-!
# The loop of `chunk_text`

The loop with its slices at byte offsets, which fail off the boundaries of
characters, and without a bound on its rounds.  It returns the windows of the text
unless it stands still: a window of one character that is whitespace is cut to
nothing, and the next window starts where it ended.
-/

namespace PostCortex
namespace Vectors

open PostCortex.Graph

/-!
# Slices
-/

def byteLength (text : List Char) : Nat :=
  (text.map Char.utf8Size).sum

def byteOf (text : List Char) (c : Nat) : Nat :=
  byteLength (text.take c)

def boundary : List Char -> Nat -> Option Nat
  | _, 0 => some 0
  | [], _ + 1 => none
  | c :: rest, b + 1 =>
      if c.utf8Size ≤ b + 1 then
        (boundary rest (b + 1 - c.utf8Size)).map (· + 1)
      else none

/-- `&text[i..j]`. -/
def slice (text : List Char) (i j : Nat) : Option (List Char) :=
  (boundary text i).bind (fun first =>
    (boundary text j).bind (fun last =>
      if i ≤ j then some ((text.drop first).take (last - first)) else none))

@[simp] theorem byteOf_zero (text : List Char) : byteOf text 0 = 0 := by
  simp [byteOf, byteLength]

@[simp] theorem byteOf_nil (c : Nat) : byteOf [] c = 0 := by
  simp [byteOf, byteLength]

@[simp] theorem byteOf_cons_succ (a : Char) (text : List Char) (c : Nat) :
    byteOf (a :: text) (c + 1) = a.utf8Size + byteOf text c := by
  simp [byteOf, byteLength]

theorem byteOf_length (text : List Char) : byteOf text text.length = byteLength text := by
  rw [byteOf, List.take_length]

variable {c : Nat}

theorem byteOf_mono (text : List Char) {d : Nat} (h : c ≤ d) :
    byteOf text c ≤ byteOf text d := by
  induction text generalizing c d with
  | nil => simp
  | cons a text ih =>
      cases c with
      | zero => simp
      | succ c =>
          cases d with
          | zero => omega
          | succ d =>
              rw [byteOf_cons_succ, byteOf_cons_succ]
              exact Nat.add_le_add_left (ih (Nat.le_of_succ_le_succ h)) _

theorem boundary_byteOf (text : List Char) (h : c ≤ text.length) :
    boundary text (byteOf text c) = some c := by
  induction text generalizing c with
  | nil =>
      rw [List.length_nil, Nat.le_zero] at h
      rw [h]
      rfl
  | cons a text ih =>
      cases c with
      | zero => simp [boundary]
      | succ c =>
          have hpos := Char.utf8Size_pos a
          obtain ⟨b, hb⟩ : exists b, a.utf8Size + byteOf text c = b + 1 :=
            ⟨a.utf8Size + byteOf text c - 1, by omega⟩
          rw [byteOf_cons_succ, hb, boundary, if_pos (by omega),
            show b + 1 - a.utf8Size = byteOf text c by omega,
            ih (Nat.le_of_succ_le_succ h)]
          rfl

theorem slice_byteOf (text : List Char) {d : Nat} (hcd : c ≤ d)
    (hd : d ≤ text.length) :
    slice text (byteOf text c) (byteOf text d) =
      some ((text.drop c).take (d - c)) := by
  rw [slice, boundary_byteOf text (Nat.le_trans hcd hd), boundary_byteOf text hd]
  simp [byteOf_mono text hcd]

section

variable [CharTables]

/-!
# The loop
-/

inductive Halt where
  | running
  | offBoundary
  deriving DecidableEq, Repr

/-- `is_space`. -/
def isSpaceSlice (text : List Char) (c : Nat) : Option Bool :=
  (slice text (byteOf text c) (byteLength text)).map
    (fun rest => rest.head?.any CharTables.isWhitespace)

def windowStop (text : List Char) (size start : Nat) : Option Nat :=
  let stop := min (start + size) text.length
  if stop < text.length then
    (List.findM? (isSpaceSlice text)
      (List.range' (start + size / 2) (stop - (start + size / 2))).reverse).map
        (fun cut => cut.getD stop)
  else some stop

def nextWindow (text : List Char) (overlap start stop : Nat) : Option Nat :=
  let next := max (stop - overlap) (start + 1)
  (List.findM? (isSpaceSlice text) (List.range' next (stop - next))).map
    (fun space => (space.map (· + 1)).getD stop)

def rounds (text : List Char) (size overlap : Nat) :
    Nat -> Nat -> Except Halt (List (List Char))
  | 0, _ => Except.error Halt.running
  | fuel + 1, start =>
      match windowStop text size start with
      | none => Except.error Halt.offBoundary
      | some stop =>
          match slice text (byteOf text start) (byteOf text stop) with
          | none => Except.error Halt.offBoundary
          | some window =>
              if text.length ≤ stop then Except.ok [trim window]
              else
                match nextWindow text overlap start stop with
                | none => Except.error Halt.offBoundary
                | some next =>
                    (rounds text size overlap fuel next).map (trim window :: ·)

/-- `chunk_text`, stopped after so many rounds. -/
def chunkTextIn (fuel : Nat) (text : List Char) (size overlap : Nat) :
    Except Halt (List (List Char)) :=
  if text.length ≤ size ∨ size = 0 then Except.ok [text]
  else rounds text size overlap fuel 0

theorem isSpaceSlice_eq (text : List Char) {c : Nat} (h : c ≤ text.length) :
    isSpaceSlice text c = some (isSpaceAt text c) := by
  rw [isSpaceSlice, ← byteOf_length, slice_byteOf text h (Nat.le_refl _),
    List.take_of_length_le (by simp)]
  simp [isSpaceAt, List.head?_drop]

theorem findM_isSpaceSlice (text : List Char) {places : List Nat}
    (h : forall c, c ∈ places -> c ≤ text.length) :
    List.findM? (isSpaceSlice text) places = some (places.find? (isSpaceAt text)) := by
  induction places with
  | nil => rfl
  | cons c places ih =>
      have hrest := ih (fun d hd => h d (List.mem_cons_of_mem _ hd))
      rw [List.findM?, isSpaceSlice_eq text (h c List.mem_cons_self), hrest,
        List.find?_cons]
      cases isSpaceAt text c with
      | true | false => rfl

theorem windowStop_eq (text : List Char) (size start : Nat) :
    windowStop text size start = some (windowEnd text size start) := by
  simp only [windowStop, windowEnd]
  split
  · rw [findM_isSpaceSlice]
    · rfl
    · intro c hc
      rw [List.mem_reverse, List.mem_range'_1] at hc
      omega
  · rfl

theorem nextWindow_eq (text : List Char) (overlap start : Nat) {stop : Nat}
    (h : stop ≤ text.length) :
    nextWindow text overlap start stop =
      some (nextStart text overlap start stop) := by
  simp only [nextWindow, nextStart]
  rw [findM_isSpaceSlice, Option.map_some]
  · split
    · next hspace =>
        rw [hspace]
        rfl
    · next hnone =>
        rw [hnone]
        rfl
  · intro c hc
    rw [List.mem_range'_1] at hc
    omega

/-!
# One window
-/

theorem windowEnd_le (text : List Char) (size start : Nat) :
    windowEnd text size start ≤ min (start + size) text.length := by
  simp only [windowEnd]
  split
  · cases hfind : (List.range' (start + size / 2)
        (min (start + size) text.length - (start + size / 2))).reverse.find?
          (isSpaceAt text) with
    | none => exact Nat.le_refl _
    | some c =>
        have hc := List.mem_of_find?_eq_some hfind
        rw [List.mem_reverse, List.mem_range'_1] at hc
        rw [Option.getD_some]
        omega
  · exact Nat.le_refl _

variable {start : Nat}

theorem le_windowEnd (text : List Char) (size : Nat) (h : start ≤ text.length) :
    min (start + size / 2) text.length ≤ windowEnd text size start := by
  simp only [windowEnd]
  split
  · cases hfind : (List.range' (start + size / 2)
        (min (start + size) text.length - (start + size / 2))).reverse.find?
          (isSpaceAt text) with
    | none =>
        rw [Option.getD_none]
        omega
    | some c =>
        have hc := List.mem_of_find?_eq_some hfind
        rw [List.mem_reverse, List.mem_range'_1] at hc
        rw [Option.getD_some]
        omega
  · omega

theorem nextStart_cases (text : List Char) (overlap start stop : Nat) :
    nextStart text overlap start stop = stop ∨
      start + 1 < nextStart text overlap start stop ∧
        nextStart text overlap start stop ≤ stop := by
  simp only [nextStart]
  split
  · next space hfind =>
      have hspace := List.mem_of_find?_eq_some hfind
      rw [List.mem_range'_1] at hspace
      omega
  · exact Or.inl rfl

theorem rounds_succ (text : List Char) (size overlap fuel : Nat)
    (h : start ≤ text.length) :
    rounds text size overlap (fuel + 1) start =
      if text.length ≤ windowEnd text size start then
        Except.ok [trim ((text.drop start).take (windowEnd text size start - start))]
      else
        (rounds text size overlap fuel
          (nextStart text overlap start (windowEnd text size start))).map
            (trim ((text.drop start).take (windowEnd text size start - start)) :: ·) := by
  have hle := windowEnd_le text size start
  have hge := le_windowEnd text size h
  rw [rounds, windowStop_eq]
  simp only []
  rw [slice_byteOf text (by omega) (by omega)]
  simp only []
  rw [nextWindow_eq text overlap start (by omega)]

/-!
# Progress
-/

/-- A window of one character is not cut at whitespace before the last character. -/
def Advances (text : List Char) (size : Nat) : Prop :=
  size = 1 -> forall i, i + 1 < text.length -> isSpaceAt text i = false

variable {text : List Char} {size : Nat}

theorem lt_windowEnd (hsize : 1 ≤ size) (h : Advances text size)
    (hstart : start < text.length) :
    start < windowEnd text size start := by
  have hge := le_windowEnd text size (Nat.le_of_lt hstart)
  by_cases hone : size = 1
  · subst hone
    simp only [windowEnd]
    split
    · next hlt =>
        cases hfind : (List.range' (start + 1 / 2)
            (min (start + 1) text.length - (start + 1 / 2))).reverse.find?
              (isSpaceAt text) with
        | none =>
            rw [Option.getD_none]
            omega
        | some c =>
            have hspace := List.find?_some hfind
            have hc := List.mem_of_find?_eq_some hfind
            rw [List.mem_reverse, List.mem_range'_1] at hc
            rw [h rfl c (by omega)] at hspace
            cases hspace
    · omega
  · omega

variable {overlap : Nat}

theorem lt_nextStart (h : start < windowEnd text size start) :
    start < nextStart text overlap start (windowEnd text size start) ∧
      nextStart text overlap start (windowEnd text size start) ≤
        windowEnd text size start := by
  rcases nextStart_cases text overlap start (windowEnd text size start) with
    heq | ⟨hlt, hle⟩
  · omega
  · omega

theorem rounds_eq (hsize : 1 ≤ size) (h : Advances text size) {fuel : Nat}
    (hstart : start < text.length) (hfuel : text.length ≤ start + fuel) :
    rounds text size overlap fuel start =
      Except.ok (windows text size overlap fuel start) := by
  induction fuel generalizing start with
  | zero => omega
  | succ fuel ih =>
      have hend := lt_windowEnd hsize h hstart
      obtain ⟨hnext, hle⟩ : start < nextStart text overlap start
          (windowEnd text size start) ∧ nextStart text overlap start
            (windowEnd text size start) ≤ windowEnd text size start :=
        lt_nextStart hend
      rw [rounds_succ text size overlap fuel (Nat.le_of_lt hstart), windows]
      split
      · rfl
      · next hmore =>
          rw [ih (by omega) (by omega)]
          rfl

theorem rounds_stuck {i : Nat} (hlast : i + 1 < text.length)
    (hspace : isSpaceAt text i = true) (fuel : Nat) :
    forall start, start ≤ i ->
      rounds text 1 overlap fuel start = Except.error Halt.running := by
  induction fuel with
  | zero =>
      intro start _
      rfl
  | succ fuel ih =>
      intro start hstart
      have hwindow : windowEnd text 1 start =
          if isSpaceAt text start = true then start else start + 1 := by
        have hmin : min (start + 1) text.length = start + 1 := by omega
        simp only [windowEnd, hmin]
        rw [if_pos (by omega), show start + 1 / 2 = start by omega,
          Nat.add_sub_cancel_left]
        by_cases hword : isSpaceAt text start = true
        · simp [hword]
        · simp [hword]
      have hnext : nextStart text overlap start (windowEnd text 1 start) =
          windowEnd text 1 start := by
        rcases nextStart_cases text overlap start (windowEnd text 1 start) with
          heq | ⟨hlt, hle⟩
        · exact heq
        · have hmost := windowEnd_le text 1 start
          omega
      rw [rounds_succ text 1 overlap fuel (by omega), hnext, hwindow]
      split
      · rw [if_neg (by omega), ih start hstart]
        rfl
      · next hword =>
          have hne : start ≠ i := by
            rintro rfl
            exact hword hspace
          rw [if_neg (by omega), ih (start + 1) (by omega)]
          rfl

/-!
# What the windows cover
-/

/-- A window from `start`, trimmed to the text from `first` to `last`. -/
structure Span where
  start : Nat
  first : Nat
  last : Nat
  deriving DecidableEq, Repr

def Span.chunk (text : List Char) (s : Span) : List Char :=
  (text.drop s.first).take (s.last - s.first)

/-- The span lies in the text, is trimmed of whitespace only and has at most so many
characters. -/
structure Span.Within (text : List Char) (size : Nat) (s : Span) : Prop where
  start_le : s.start ≤ s.first
  first_le : s.first ≤ s.last
  last_le : s.last ≤ text.length
  short : s.last - s.first ≤ size
  trimmed : forall i, s.start ≤ i -> i < s.first -> isSpaceAt text i = true

/-- Spans in the order of their starts that hold every character from a start on
that is no whitespace. -/
structure Covers (text : List Char) (size start : Nat) (spans : List Span) : Prop where
  within : forall s, s ∈ spans -> s.Within text size
  after : forall s, s ∈ spans -> start ≤ s.start
  ordered : spans.Pairwise (fun s t => s.start < t.start)
  covered : forall i, start ≤ i -> i < text.length -> isSpaceAt text i = false ->
    exists s, s ∈ spans ∧ s.first ≤ i ∧ i < s.last

theorem trim_split (text : List Char) :
    exists before after, text = before ++ trim text ++ after ∧
      (forall c, c ∈ before -> CharTables.isWhitespace c = true) ∧
      forall c, c ∈ after -> CharTables.isWhitespace c = true := by
  refine ⟨text.takeWhile CharTables.isWhitespace,
    ((text.dropWhile CharTables.isWhitespace).reverse.takeWhile
      CharTables.isWhitespace).reverse, ?_, ?_, ?_⟩
  · rw [trim, List.append_assoc, ← List.reverse_append,
      List.takeWhile_append_dropWhile, List.reverse_reverse,
      List.takeWhile_append_dropWhile]
  · exact fun c hc => List.mem_takeWhile_imp hc
  · exact fun c hc => List.mem_takeWhile_imp (List.mem_reverse.mp hc)

theorem isSpaceAt_of_mem {list : List Char} {i k : Nat}
    (hlist : forall c, c ∈ list -> CharTables.isWhitespace c = true)
    (hk : k < list.length) (h : text[i]? = list[k]?) :
    isSpaceAt text i = true := by
  rw [isSpaceAt, h, List.getElem?_eq_getElem hk, Option.any_some]
  exact hlist _ (List.getElem_mem hk)

theorem span_of_window {stop : Nat} (hstart : start ≤ stop)
    (hstop : stop ≤ text.length) (hsize : stop ≤ start + size) :
    exists s : Span, s.start = start ∧
      trim ((text.drop start).take (stop - start)) = s.chunk text ∧
      s.Within text size ∧
      forall i, start ≤ i -> i < stop -> isSpaceAt text i = false ->
        s.first ≤ i ∧ i < s.last := by
  obtain ⟨before, after, hsplit, hbefore, hafter⟩ :=
    trim_split ((text.drop start).take (stop - start))
  generalize trim ((text.drop start).take (stop - start)) = chunk at hsplit
  have hlength : before.length + chunk.length + after.length = stop - start := by
    have hcount := congrArg List.length hsplit
    rw [List.length_take, List.length_drop, List.length_append,
      List.length_append] at hcount
    omega
  have hdrop : text.drop start = before ++ (chunk ++ (after ++ text.drop stop)) := by
    have hwhole := List.take_append_drop (stop - start) (text.drop start)
    rw [hsplit, List.drop_drop, Nat.add_sub_cancel' hstart] at hwhole
    rw [← hwhole]
    simp only [List.append_assoc]
  have hat : forall k, text[start + k]? =
      (before ++ (chunk ++ (after ++ text.drop stop)))[k]? := by
    intro k
    rw [← hdrop, List.getElem?_drop]
  have hspace : forall k, k < before.length -> isSpaceAt text (start + k) = true := by
    intro k hk
    exact isSpaceAt_of_mem hbefore hk
      ((hat k).trans (List.getElem?_append_left hk))
  refine ⟨⟨start, start + before.length, start + before.length + chunk.length⟩, rfl,
    ?_, ?_, ?_⟩
  · rw [Span.chunk, Nat.add_sub_cancel_left, ← List.drop_drop, hdrop,
      List.drop_left, List.take_left]
  · refine ⟨by simp, by simp, ?_, ?_, ?_⟩
    · simp only []
      omega
    · simp only []
      omega
    · intro i hi hfirst
      obtain ⟨k, rfl⟩ := Nat.exists_eq_add_of_le hi
      exact hspace k (Nat.lt_of_add_lt_add_left hfirst)
  · intro i hi hlt hword
    obtain ⟨k, rfl⟩ := Nat.exists_eq_add_of_le hi
    have hfirst : before.length ≤ k := by
      by_contra hk
      rw [hspace k (Nat.lt_of_not_le hk)] at hword
      cases hword
    have hlast : k < before.length + chunk.length := by
      by_contra hk
      have hafterAt : isSpaceAt text (start + k) = true := by
        refine isSpaceAt_of_mem (k := k - before.length - chunk.length) hafter
          (by omega) ((hat k).trans ?_)
        rw [List.getElem?_append_right hfirst, List.getElem?_append_right (by omega),
          List.getElem?_append_left (by omega)]
      rw [hafterAt] at hword
      cases hword
    simp only []
    omega

theorem covers_windows (hsize : 1 ≤ size) (h : Advances text size) {fuel : Nat}
    (hstart : start < text.length) (hfuel : text.length ≤ start + fuel) :
    exists spans, windows text size overlap fuel start =
        spans.map (Span.chunk text) ∧
      Covers text size start spans := by
  induction fuel generalizing start with
  | zero => omega
  | succ fuel ih =>
      have hend := lt_windowEnd hsize h hstart
      have hmost := windowEnd_le text size start
      have hlong : windowEnd text size start ≤ text.length := by omega
      have hwide : windowEnd text size start ≤ start + size := by omega
      obtain ⟨s, hs, hchunk, hwithin, hholds⟩ :=
        span_of_window (Nat.le_of_lt hend) hlong hwide
      obtain ⟨hnext, hle⟩ : start < nextStart text overlap start
          (windowEnd text size start) ∧ nextStart text overlap start
            (windowEnd text size start) ≤ windowEnd text size start :=
        lt_nextStart hend
      rw [windows]
      split
      · next hdone =>
          refine ⟨[s], by rw [hchunk]; rfl, ?_⟩
          constructor
          · intro t ht
            rw [List.mem_singleton.mp ht]
            exact hwithin
          · intro t ht
            rw [List.mem_singleton.mp ht, hs]
          · exact List.pairwise_singleton _ s
          · intro i hi hlt hword
            exact ⟨s, List.mem_singleton_self s,
              hholds i hi (Nat.lt_of_lt_of_le hlt hdone) hword⟩
      · next hmore =>
          have hinside : nextStart text overlap start (windowEnd text size start) <
              text.length := by
            omega
          obtain ⟨spans, hspans, hcovers⟩ := ih hinside (by omega)
          refine ⟨s :: spans, by rw [hspans, hchunk]; rfl, ?_⟩
          constructor
          · intro t ht
            rcases List.mem_cons.mp ht with rfl | ht
            · exact hwithin
            · exact hcovers.within t ht
          · intro t ht
            rcases List.mem_cons.mp ht with rfl | ht
            · exact Nat.le_of_eq hs.symm
            · exact Nat.le_trans (Nat.le_of_lt hnext) (hcovers.after t ht)
          · refine List.pairwise_cons.mpr ⟨?_, hcovers.ordered⟩
            intro t ht
            rw [hs]
            exact Nat.lt_of_lt_of_le hnext (hcovers.after t ht)
          · intro i hi hlt hword
            by_cases hthis : i < windowEnd text size start
            · exact ⟨s, List.mem_cons_self, hholds i hi hthis hword⟩
            · obtain ⟨t, ht, hin⟩ := hcovers.covered i (by omega) hlt hword
              exact ⟨t, List.mem_cons_of_mem _ ht, hin⟩

/-- Chunks in the order of their starts, of at most so many characters, that hold
every character that is no whitespace. -/
def Chunked (text : List Char) (size : Nat) (chunks : List (List Char)) : Prop :=
  exists spans, chunks = spans.map (Span.chunk text) ∧ Covers text size 0 spans

theorem chunked_whole (h : text.length ≤ size) :
    Chunked text size [text] := by
  refine ⟨[⟨0, 0, text.length⟩], ?_, ?_⟩
  · simp [Span.chunk]
  · constructor
    · intro s hs
      rw [List.mem_singleton.mp hs]
      exact ⟨Nat.le_refl 0, Nat.zero_le _, Nat.le_refl _, h,
        fun i _ hi => absurd hi (Nat.not_lt_zero i)⟩
    · exact fun s _ => Nat.zero_le _
    · exact List.pairwise_singleton _ _
    · exact fun i hi hlt _ => ⟨_, List.mem_singleton_self _, hi, hlt⟩

theorem chunkTextIn_eq (hsize : 1 ≤ size) (h : Advances text size) :
    chunkTextIn (text.length + 1) text size overlap =
      Except.ok (chunkText text size overlap) := by
  unfold chunkTextIn chunkText
  split
  · rfl
  · next hlong =>
      exact rounds_eq hsize h (by omega) (by omega)

/-- The loop ends, in bounds, with the chunks of the text exactly when no window of
one character is cut at whitespace. -/
theorem chunk_text_covers (text : List Char) {size : Nat} (overlap : Nat)
    (hsize : 1 ≤ size) :
    (exists fuel chunks, chunkTextIn fuel text size overlap = Except.ok chunks ∧
      Chunked text size chunks) ↔ Advances text size := by
  constructor
  · rintro ⟨fuel, chunks, hchunks, -⟩ rfl i hlast
    by_contra hspace
    rw [chunkTextIn, if_neg (by omega),
      rounds_stuck hlast (Bool.eq_true_of_not_eq_false hspace) fuel 0 (Nat.zero_le i)]
      at hchunks
    cases hchunks
  · intro h
    refine ⟨text.length + 1, chunkText text size overlap, chunkTextIn_eq hsize h, ?_⟩
    unfold chunkText
    split
    · next hshort => exact chunked_whole (by omega)
    · next hlong => exact covers_windows hsize h (by omega) (by omega)

end

section

attribute [local instance] EntityGraph.asciiTables

/-- Two words in Cyrillic, of two bytes a character, in windows of six characters
that share three. -/
theorem chunk_text_covers_words :
    exists fuel chunks,
      chunkTextIn fuel "дума дума".toList 6 3 = Except.ok chunks ∧
        Chunked "дума дума".toList 6 chunks :=
  (chunk_text_covers "дума дума".toList 3 (by decide)).mpr (fun h => by cases h)

/-- In windows of one character the loop never leaves the space of `a b`. -/
theorem chunk_text_stuck :
    (forall fuel, chunkTextIn fuel "a b".toList 1 0 = Except.error Halt.running) ∧
      ¬ forall (text : List Char) (size overlap : Nat), 1 ≤ size ->
        exists fuel chunks, chunkTextIn fuel text size overlap = Except.ok chunks ∧
          Chunked text size chunks := by
  have hstuck : forall fuel,
      chunkTextIn fuel "a b".toList 1 0 = Except.error Halt.running := by
    intro fuel
    rw [chunkTextIn, if_neg (by decide)]
    exact rounds_stuck (i := 1) (by decide) (by decide) fuel 0 (by decide)
  refine ⟨hstuck, ?_⟩
  intro hall
  obtain ⟨fuel, chunks, hchunks, -⟩ := hall "a b".toList 1 0 (by decide)
  rw [hstuck fuel] at hchunks
  cases hchunks

end

end Vectors
end PostCortex
