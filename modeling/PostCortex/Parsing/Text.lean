import Mathlib.Algebra.GroupWithZero.Nat
import Mathlib.Data.List.TakeWhile
import PostCortex.KeyValue.ByteKeys

/-!
# Texts that are read byte by byte

The bytes of a text one character after the other.  The characters below 128 are their
own bytes and no byte of any other character is below 128, so a reader that looks for
such characters only never stops inside a character.
-/

namespace PostCortex
namespace Parsing

open PostCortex.KeyValue

def encode (cs : List Char) : List UInt8 :=
  cs.flatMap String.utf8EncodeChar

theorem bytesOf_eq (s : String) : bytesOf s = encode s.toList := by
  have hs : s.toByteArray = s.toList.utf8Encode := by
    rw [← String.toByteArray_ofList, String.ofList_toList]
  rw [bytesOf, String.toUTF8_eq_toByteArray, hs, List.utf8Encode,
    List.toList_data_toByteArray]
  rfl

theorem textOf_encode (cs : List Char) : textOf (encode cs) = some (String.ofList cs) := by
  have hbytes := bytesOf_eq (String.ofList cs)
  rw [String.toList_ofList] at hbytes
  rw [← hbytes, textOf_bytesOf]

@[simp]
theorem encode_nil : encode [] = [] :=
  rfl

theorem encode_append (as bs : List Char) : encode (as ++ bs) = encode as ++ encode bs := by
  simp [encode]

theorem encode_cons (c : Char) (cs : List Char) :
    encode (c :: cs) = String.utf8EncodeChar c ++ encode cs := by
  simp [encode]

def Ascii (c : Char) : Prop :=
  c.toNat < 128

instance (c : Char) : Decidable (Ascii c) :=
  inferInstanceAs (Decidable (c.toNat < 128))

variable {c : Char}

theorem encodeChar_ascii (h : Ascii c) :
    String.utf8EncodeChar c = [c.toUInt8] := by
  have hval : c.val.toNat < 128 := h
  have hsize : c.utf8Size = 1 := by
    rw [Char.utf8Size_eq_one_iff, UInt32.le_iff_toNat_le]
    have hmax : (127 : UInt32).toNat = 127 := rfl
    omega
  exact String.utf8EncodeChar_eq_singleton hsize

theorem encode_cons_ascii (h : Ascii c) (cs : List Char) :
    encode (c :: cs) = c.toUInt8 :: encode cs := by
  rw [encode_cons, encodeChar_ascii h, List.singleton_append]

theorem toUInt8_toNat (h : Ascii c) : c.toUInt8.toNat = c.toNat := by
  have hval : c.toNat < 128 := h
  have hmod : c.toUInt8.toNat = c.toNat % 256 :=
    UInt32.toNat_toUInt8 c.val
  omega

variable {d : Char}

theorem toUInt8_inj (hc : Ascii c) (hd : Ascii d) (h : c.toUInt8 = d.toUInt8) :
    c = d := by
  have hnat := congrArg UInt8.toNat h
  rw [toUInt8_toNat hc, toUInt8_toNat hd] at hnat
  exact Char.toNat_inj.mp hnat

theorem encodeChar_other (h : ¬ Ascii c) {b : UInt8}
    (hb : b ∈ String.utf8EncodeChar c) : 128 ≤ b.toNat := by
  have hval : ¬ c.val.toNat ≤ 127 := fun hle => h (Nat.lt_succ_of_le hle)
  have hofNat : forall n, 128 ≤ n % 256 -> 128 ≤ (UInt8.ofNat n).toNat := by
    intro n hn
    rw [UInt8.toNat_ofNat']
    exact hn
  unfold String.utf8EncodeChar at hb
  dsimp only at hb
  rw [if_neg hval] at hb
  split at hb
  · simp only [List.mem_cons, List.not_mem_nil, or_false] at hb
    rcases hb with rfl | rfl <;> exact hofNat _ (by omega)
  · split at hb
    · simp only [List.mem_cons, List.not_mem_nil, or_false] at hb
      rcases hb with rfl | rfl | rfl <;> exact hofNat _ (by omega)
    · simp only [List.mem_cons, List.not_mem_nil, or_false] at hb
      rcases hb with rfl | rfl | rfl | rfl <;> exact hofNat _ (by omega)

theorem encodeChar_ne (hd : Ascii d) (hne : c ≠ d) {b : UInt8}
    (hb : b ∈ String.utf8EncodeChar c) : b ≠ d.toUInt8 := by
  by_cases hc : Ascii c
  · rw [encodeChar_ascii hc, List.mem_singleton] at hb
    intro h
    exact hne (toUInt8_inj hc hd (hb.symm.trans h))
  · intro h
    have hle := encodeChar_other hc hb
    have hlt : d.toNat < 128 := hd
    rw [h, toUInt8_toNat hd] at hle
    omega

theorem encode_head (c : Char) (cs : List Char) :
    exists b rest, encode (c :: cs) = b :: rest ∧ b ∈ String.utf8EncodeChar c := by
  cases hbytes : String.utf8EncodeChar c with
  | nil => exact absurd hbytes String.utf8EncodeChar_ne_nil
  | cons b bytes =>
      exact ⟨b, bytes ++ encode cs, by rw [encode_cons, hbytes, List.cons_append],
        List.mem_cons_self⟩

theorem head_encode (hd : Ascii d) (cs : List Char) :
    (encode cs).head? = some d.toUInt8 ↔ cs.head? = some d := by
  cases cs with
  | nil => simp
  | cons c cs =>
      by_cases hc : c = d
      · rw [hc, encode_cons_ascii hd]
        simp
      · obtain ⟨b, rest, hbytes, hb⟩ := encode_head c cs
        have hne := encodeChar_ne hd hc hb
        simp [hbytes, hne, hc]

theorem takeWhile_encode {p : UInt8 -> Bool} {q : Char -> Bool}
    (hp : forall b : UInt8, p b = true -> b.toNat < 128)
    (hq : forall c, Ascii c -> q c = p c.toUInt8)
    (hother : forall c, ¬ Ascii c -> q c = false) (cs : List Char) :
    (encode cs).takeWhile p = encode (cs.takeWhile q) := by
  induction cs with
  | nil => rfl
  | cons c cs ih =>
      by_cases hc : Ascii c
      · rw [encode_cons_ascii hc, List.takeWhile_cons, List.takeWhile_cons, ← hq c hc]
        cases hqc : q c with
        | false => rfl
        | true =>
            simp only [if_true]
            rw [encode_cons_ascii hc, ih]
      · obtain ⟨b, rest, hbytes, hmem⟩ := encode_head c cs
        have hle := encodeChar_other hc hmem
        have hb : ¬ p b = true := by
          intro hpb
          have hlt := hp b hpb
          omega
        rw [List.takeWhile_cons_of_neg (by simp [hother c hc]), hbytes,
          List.takeWhile_cons_of_neg hb]
        rfl

/-!
# Sizes
-/

theorem utf8ByteSize_eq (s : String) : s.utf8ByteSize = (encode s.toList).length := by
  rw [← length_bytesOf, bytesOf_eq]

/-- `join` of a slice of texts. -/
def joinWith (sep : String) : List String -> String
  | [] => ""
  | [x] => x
  | x :: y :: rest => x ++ sep ++ joinWith sep (y :: rest)

theorem size_joinWith (sep : String) (xs : List String) :
    (joinWith sep xs).utf8ByteSize =
      (xs.map String.utf8ByteSize).sum + sep.utf8ByteSize * (xs.length - 1) := by
  induction xs with
  | nil => simp [joinWith]
  | cons x rest ih =>
      cases rest with
      | nil => simp [joinWith]
      | cons y rest =>
          rw [joinWith, String.utf8ByteSize_append, String.utf8ByteSize_append, ih]
          simp only [List.map_cons, List.sum_cons, List.length_cons, Nat.add_sub_cancel,
            Nat.mul_succ]
          omega

end Parsing
end PostCortex
