import Mathlib.Algebra.Group.Nat.Defs
import Mathlib.Data.List.Basic

/-!
# Numerals of a fixed width

Decimal numerals with zeros before them.  Numerals of one width are in the
order of their numbers, and every padded numeral is read back.
-/

namespace PostCortex
namespace KeyValue

/-- The last `width` decimal digits of a number. -/
def fixedDigits : Nat -> Nat -> List Char
  | 0, _ => []
  | width + 1, n => fixedDigits width (n / 10) ++ [Nat.digitChar (n % 10)]

/-- The digits of a number with zeros before them, `width` at least. -/
def paddedDigits (width n : Nat) : List Char :=
  List.replicate (width - (Nat.toDigits 10 n).length) '0' ++ Nat.toDigits 10 n

theorem length_fixedDigits (width n : Nat) :
    (fixedDigits width n).length = width := by
  induction width generalizing n with
  | zero =>
      rfl
  | succ width ih =>
      simp [fixedDigits, ih]

theorem fixedDigits_zero (width : Nat) :
    fixedDigits width 0 = List.replicate width '0' := by
  induction width with
  | zero =>
      rfl
  | succ width ih =>
      rw [fixedDigits, Nat.zero_div, ih, List.replicate_succ']
      rfl

theorem append_lt_append {xs ys : List Char} (hlength : xs.length = ys.length)
    (h : xs < ys) (us vs : List Char) :
    xs ++ us < ys ++ vs := by
  induction xs generalizing ys with
  | nil =>
      cases ys with
      | nil => exact absurd h (List.lt_irrefl _)
      | cons y ys => cases hlength
  | cons x xs ih =>
      cases ys with
      | nil => cases hlength
      | cons y ys =>
          rw [List.cons_append, List.cons_append, List.cons_lt_cons_iff]
          rcases List.cons_lt_cons_iff.mp h with hxy | ⟨hxy, hrest⟩
          · exact Or.inl hxy
          · exact Or.inr ⟨hxy, ih (Nat.succ.inj hlength) hrest⟩

theorem digitChar_lt : forall n, n < 10 -> forall m, m < n ->
    Nat.digitChar m < Nat.digitChar n := by
  decide

variable {width m n : Nat}

theorem fixedDigits_lt (hmn : m < n) (hn : n < 10 ^ width) :
    fixedDigits width m < fixedDigits width n := by
  induction width generalizing m n with
  | zero =>
      rw [Nat.pow_zero] at hn
      omega
  | succ width ih =>
      rw [fixedDigits, fixedDigits]
      rw [Nat.pow_succ] at hn
      by_cases htens : m / 10 < n / 10
      · refine append_lt_append ?_ (ih htens (by omega)) _ _
        rw [length_fixedDigits, length_fixedDigits]
      · have hsame : m / 10 = n / 10 := by omega
        rw [hsame]
        apply List.append_left_lt
        rw [List.cons_lt_cons_iff]
        exact Or.inl (digitChar_lt _ (by omega) _ (by omega))

theorem fixedDigits_lt_iff (hm : m < 10 ^ width) (hn : n < 10 ^ width) :
    fixedDigits width m < fixedDigits width n ↔ m < n := by
  constructor
  · intro h
    by_contra hge
    rcases Nat.lt_or_eq_of_le (Nat.not_lt.mp hge) with hlt | rfl
    · exact List.lt_asymm h (fixedDigits_lt hlt hm)
    · exact List.lt_irrefl _ h
  · intro h
    exact fixedDigits_lt h hn

theorem paddedDigits_eq (hn : n < 10 ^ (width + 1)) :
    paddedDigits (width + 1) n = fixedDigits (width + 1) n := by
  induction width generalizing n with
  | zero =>
      rw [paddedDigits, Nat.toDigits_of_lt_base (by omega)]
      simp [fixedDigits, Nat.mod_eq_of_lt (show n < 10 by omega)]
  | succ width ih =>
      rw [fixedDigits]
      by_cases hsmall : n < 10
      · rw [paddedDigits, Nat.toDigits_of_lt_base hsmall,
          Nat.div_eq_of_lt hsmall, Nat.mod_eq_of_lt hsmall, fixedDigits_zero]
        rfl
      · have htens : n / 10 < 10 ^ (width + 1) := by
          rw [Nat.pow_succ] at hn
          omega
        rw [← ih htens, paddedDigits, paddedDigits,
          Nat.toDigits_of_base_le (by omega) (by omega), List.length_append,
          List.length_singleton, Nat.add_sub_add_right, List.append_assoc]

theorem ofDigitChars_paddedDigits (width n : Nat) :
    Nat.ofDigitChars 10 (paddedDigits width n) 0 = n := by
  rw [paddedDigits, Nat.ofDigitChars_append, Nat.ofDigitChars_replicate_zero,
    Nat.mul_zero, Nat.ofDigitChars_ten_toDigits]

theorem paddedDigits_inj (h : paddedDigits width m = paddedDigits width n) :
    m = n := by
  rw [← ofDigitChars_paddedDigits width m, h, ofDigitChars_paddedDigits]

end KeyValue
end PostCortex
