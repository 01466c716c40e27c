import Mathlib.Algebra.Group.Nat.Defs
import PostCortex.Core.Message
import PostCortex.Parsing.Numerals

/-!
# Content ids of messages

`core/message.rs`: the id `message:<seq>` of a message in the vector index, and
the position that such an id, or the id of a chunk of the message, names.
-/

namespace PostCortex
namespace Core

open Parsing

/-- The number of values of a `u64`. -/
def u64Values : Nat :=
  18446744073709551616

/-- The digits of `str::parse::<u64>`. -/
def digitsToU64 (digits : List Char) : Option Nat :=
  if digits ≠ [] ∧ digits.all Char.isDigit = true ∧ value digits < u64Values then
    some (value digits)
  else none

/-- `str::parse::<u64>`. -/
def parseU64 : List Char -> Option Nat
  | [] => none
  | c :: rest => if c = '+' then digitsToU64 rest else digitsToU64 (c :: rest)

def contentIdPrefix : List Char :=
  ['m', 'e', 's', 's', 'a', 'g', 'e', ':']

def stripPrefix (common text : List Char) : Option (List Char) :=
  if common.isPrefixOf text then some (text.drop common.length) else none

def seqOfContentId (contentId : String) : Option Nat :=
  (stripPrefix contentIdPrefix contentId.toList).bind
    (fun rest => parseU64 (rest.takeWhile (fun c => c != '#')))

theorem stripPrefix_append (common rest : List Char) :
    stripPrefix common (common ++ rest) = some rest := by
  rw [stripPrefix, if_pos (List.isPrefixOf_iff_prefix.mpr (List.prefix_append _ _)),
    List.drop_left]

theorem stripPrefix_eq_some {common text rest : List Char}
    (h : stripPrefix common text = some rest) : text = common ++ rest := by
  unfold stripPrefix at h
  split at h
  · next hprefix =>
    cases h
    exact (List.prefix_iff_eq_append.mp (List.isPrefixOf_iff_prefix.mp hprefix)).symm
  · cases h

theorem messageContentId_toList (seq : Nat) :
    (messageContentId seq).toList = contentIdPrefix ++ Nat.toDigits 10 seq := by
  have hdigits : (toString seq).toList = Nat.toDigits 10 seq := by
    rw [Nat.toString_eq_ofList_toDigits, String.toList_ofList]
  rw [messageContentId, String.toList_append, hdigits]
  rfl

theorem messageContentId_inj {m n : Nat}
    (h : messageContentId m = messageContentId n) : m = n := by
  have hlist := congrArg String.toList h
  rw [messageContentId_toList, messageContentId_toList] at hlist
  have hdigits := List.append_cancel_left hlist
  have hvalue := congrArg value hdigits
  rwa [value_toDigits, value_toDigits] at hvalue

theorem digit_ne {c : Char} (h : c.isDigit = true) : c ≠ '#' ∧ c ≠ '+' := by
  constructor
  · rintro rfl
    exact absurd h (by decide)
  · rintro rfl
    exact absurd h (by decide)

theorem parseU64_toDigits {seq : Nat} (h : seq < u64Values) :
    parseU64 (Nat.toDigits 10 seq) = some seq := by
  obtain ⟨hne, hall⟩ := digits_toDigits seq
  have hdigits : digitsToU64 (Nat.toDigits 10 seq) = some seq := by
    have hvalue : value (Nat.toDigits 10 seq) < u64Values := by
      rwa [value_toDigits]
    rw [digitsToU64, if_pos ⟨hne, List.all_eq_true.mpr hall, hvalue⟩, value_toDigits]
  cases htext : Nat.toDigits 10 seq with
  | nil => exact absurd htext hne
  | cons c rest =>
      rw [htext] at hdigits hall
      rw [parseU64, if_neg (digit_ne (hall c List.mem_cons_self)).2, hdigits]

theorem takeWhile_toDigits (seq : Nat) :
    (Nat.toDigits 10 seq).takeWhile (fun c => c != '#') = Nat.toDigits 10 seq := by
  rw [List.takeWhile_eq_self_iff]
  intro c hc
  exact bne_iff_ne.mpr (digit_ne ((digits_toDigits seq).2 c hc)).1

theorem seqOf_messageContentId {seq : Nat} (h : seq < u64Values) :
    seqOfContentId (messageContentId seq) = some seq := by
  rw [seqOfContentId, messageContentId_toList, stripPrefix_append, Option.bind_some,
    takeWhile_toDigits, parseU64_toDigits h]

theorem hash_not_mem_messageContentId (seq : Nat) :
    '#' ∉ (messageContentId seq).toList := by
  rw [messageContentId_toList, List.mem_append]
  intro h
  rcases h with h | h
  · exact absurd h (by decide)
  · exact (digit_ne ((digits_toDigits seq).2 _ h)).1 rfl

theorem digitsToU64_lt {digits : List Char} {n : Nat}
    (h : digitsToU64 digits = some n) : n < u64Values := by
  unfold digitsToU64 at h
  split at h
  · next hfits =>
    cases h
    exact hfits.2.2
  · cases h

theorem seqOfContentId_lt {contentId : String} {seq : Nat}
    (h : seqOfContentId contentId = some seq) : seq < u64Values := by
  rw [seqOfContentId, Option.bind_eq_some_iff] at h
  obtain ⟨rest, _, hparse⟩ := h
  cases htext : rest.takeWhile (fun c => c != '#') with
  | nil =>
      rw [htext] at hparse
      cases hparse
  | cons c digits =>
      rw [htext, parseU64] at hparse
      split at hparse
      · exact digitsToU64_lt hparse
      · exact digitsToU64_lt hparse

end Core
end PostCortex
