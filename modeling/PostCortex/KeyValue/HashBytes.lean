import Mathlib.Algebra.Group.Nat.Defs
import Mathlib.Data.List.Basic

/-!
# The bytes fed to a hasher

Numbers of a fixed width, lowest byte first, and texts, which end in a byte that no
text has.  What was written first can be told from what follows.
-/

namespace PostCortex
namespace KeyValue

/-- The last `width` bytes of a number, lowest first. -/
def littleEndian : Nat -> Nat -> List UInt8
  | 0, _ => []
  | width + 1, n => UInt8.ofNat n :: littleEndian width (n / 256)

theorem length_littleEndian (width n : Nat) :
    (littleEndian width n).length = width := by
  induction width generalizing n with
  | zero =>
      rfl
  | succ width ih =>
      simp [littleEndian, ih]

theorem littleEndian_inj {width m n : Nat} (hm : m < 256 ^ width)
    (hn : n < 256 ^ width) (h : littleEndian width m = littleEndian width n) :
    m = n := by
  induction width generalizing m n with
  | zero =>
      rw [Nat.pow_zero] at hm hn
      omega
  | succ width ih =>
      rw [Nat.pow_succ] at hm hn
      obtain ⟨hfirst, hrest⟩ := List.cons_eq_cons.mp h
      have hquotients : m / 256 = n / 256 :=
        ih (by omega) (by omega) hrest
      have hlast : m % 256 = n % 256 := by
        simpa using congrArg UInt8.toNat hfirst
      omega

theorem littleEndian_append_inj {width m n : Nat} {xs ys : List UInt8}
    (hm : m < 256 ^ width) (hn : n < 256 ^ width)
    (h : littleEndian width m ++ xs = littleEndian width n ++ ys) :
    m = n ∧ xs = ys := by
  obtain ⟨hnumber, hrest⟩ := List.append_inj h (by
    rw [length_littleEndian, length_littleEndian])
  exact ⟨littleEndian_inj hm hn hnumber, hrest⟩

theorem littleEndian_add (low high n : Nat) :
    littleEndian (low + high) n =
      littleEndian low n ++ littleEndian high (n / 256 ^ low) := by
  induction low generalizing n with
  | zero =>
      simp [littleEndian]
  | succ low ih =>
      rw [Nat.succ_add, littleEndian, littleEndian, ih, List.cons_append,
        Nat.div_div_eq_div_mul, ← Nat.pow_succ']

/-!
# Texts
-/

def utf8 (s : String) : List UInt8 :=
  s.toByteArray.data.toList

theorem utf8_inj {s t : String} (h : utf8 s = utf8 t) : s = t :=
  String.toByteArray_inj.mp (ByteArray.ext (Array.toList_inj.mp h))

theorem utf8_append (s t : String) : utf8 (s ++ t) = utf8 s ++ utf8 t := by
  simp [utf8, String.toByteArray_append]

def terminator : UInt8 :=
  0xff

theorem terminator_notMem_char (c : Char) :
    terminator ∉ String.utf8EncodeChar c := by
  have hofNat : forall n, n < 255 -> terminator ≠ UInt8.ofNat n := by
    intro n hn heq
    have hvalue := congrArg UInt8.toNat heq
    rw [UInt8.toNat_ofNat'] at hvalue
    have hterminator : terminator.toNat = 255 := rfl
    omega
  unfold String.utf8EncodeChar
  dsimp only
  split
  · simp only [List.mem_cons, List.not_mem_nil, or_false]
    exact hofNat _ (by omega)
  · split
    · simp only [List.mem_cons, List.not_mem_nil, or_false, not_or]
      exact ⟨hofNat _ (by omega), hofNat _ (by omega)⟩
    · split
      · simp only [List.mem_cons, List.not_mem_nil, or_false, not_or]
        exact ⟨hofNat _ (by omega), hofNat _ (by omega), hofNat _ (by omega)⟩
      · simp only [List.mem_cons, List.not_mem_nil, or_false, not_or]
        exact ⟨hofNat _ (by omega), hofNat _ (by omega), hofNat _ (by omega),
          hofNat _ (by omega)⟩

theorem terminator_notMem_utf8 (s : String) : terminator ∉ utf8 s := by
  have hvalid := s.isValidUTF8
  cases hvalid with
  | intro m hm =>
      unfold utf8
      rw [hm]
      intro hmem
      rw [List.utf8Encode, List.toList_data_toByteArray, List.mem_flatMap] at hmem
      obtain ⟨c, -, hc⟩ := hmem
      exact terminator_notMem_char c hc

def strBytes (s : String) : List UInt8 :=
  utf8 s ++ [terminator]

theorem split_at_mark {item : Type} {mark : item} {xs ys us vs : List item}
    (hxs : mark ∉ xs) (hys : mark ∉ ys) (h : xs ++ mark :: us = ys ++ mark :: vs) :
    xs = ys ∧ us = vs := by
  rcases List.append_eq_append_iff.mp h with ⟨zs, rfl, hrest⟩ | ⟨zs, rfl, hrest⟩
  · cases zs with
    | nil => exact ⟨(List.append_nil xs).symm, (List.cons.inj hrest).2⟩
    | cons z zs =>
        exact absurd (by simp [(List.cons.inj hrest).1]) hys
  · cases zs with
    | nil => exact ⟨List.append_nil ys, (List.cons.inj hrest).2.symm⟩
    | cons z zs =>
        exact absurd (by simp [(List.cons.inj hrest).1]) hxs

theorem strBytes_append_inj {s t : String} {us vs : List UInt8}
    (h : strBytes s ++ us = strBytes t ++ vs) :
    s = t ∧ us = vs := by
  unfold strBytes at h
  rw [List.append_assoc, List.append_assoc] at h
  obtain ⟨htext, hrest⟩ := split_at_mark (terminator_notMem_utf8 s)
    (terminator_notMem_utf8 t) h
  exact ⟨utf8_inj htext, hrest⟩

end KeyValue
end PostCortex
