import Mathlib.Algebra.Group.Nat.Defs
import Mathlib.Data.List.Basic

/-!
# Machine integers that index lists

Signed integers of 64 bits with checked arithmetic, and what Python's indexes and
slices select.  For a list that fits into memory the bounds of a slice, clamped with
signed arithmetic, never overflow and select what Python selects.
-/

namespace PostCortex
namespace Numeric

structure Isize where
  val : Int
  lower : -9223372036854775808 ≤ val
  upper : val < 9223372036854775808
  deriving DecidableEq

inductive Panic where
  | overflow
  | outOfRange
  deriving DecidableEq, Repr

namespace Isize

def zero : Isize :=
  ⟨0, by decide, by decide⟩

def checked (n : Int) : Except Panic Isize :=
  if h : -9223372036854775808 ≤ n ∧ n < 9223372036854775808 then
    Except.ok ⟨n, h.1, h.2⟩
  else Except.error Panic.overflow

def add (a b : Isize) : Except Panic Isize :=
  checked (a.val + b.val)

def max (a b : Isize) : Isize :=
  if a.val ≤ b.val then b else a

def min (a b : Isize) : Isize :=
  if a.val ≤ b.val then a else b

def ofUsize (n : Nat) : Isize where
  val := Int.bmod n 18446744073709551616
  lower := by
    have h := Int.le_bmod (x := (n : Int)) (m := 18446744073709551616) (by decide)
    omega
  upper := by
    have h := Int.bmod_lt (x := (n : Int)) (m := 18446744073709551616) (by decide)
    omega

/-- `a as usize`, which wraps. -/
def toUsize (a : Isize) : Nat :=
  (a.val % 18446744073709551616).toNat

def unsignedAbs (a : Isize) : Nat :=
  a.val.natAbs

end Isize

/-- `a - b` of unsigned integers. -/
def usizeSub (a b : Nat) : Except Panic Nat :=
  if b ≤ a then Except.ok (a - b) else Except.error Panic.overflow

section

variable {item : Type}

/-- `&xs[s..e]`. -/
def sliceRange (xs : List item) (s e : Nat) : Except Panic (List item) :=
  if s ≤ e ∧ e ≤ xs.length then Except.ok ((xs.drop s).take (e - s))
  else Except.error Panic.outOfRange

/-!
# Python's indexes and slices
-/

def pyIndex (xs : List item) (i : Int) : Option item :=
  if 0 ≤ i then xs[i.toNat]?
  else if 0 ≤ xs.length + i then xs[(xs.length + i).toNat]?
  else none

/-- A bound of a slice, counted from the end when it is negative and clamped to the
list. -/
def pyBound (length : Nat) (i : Int) : Int :=
  if i < 0 then max (length + i) 0 else min i length

def pySlice (xs : List item) (start stop : Option Int) : List item :=
  (xs.zipIdx.filter (fun p =>
    (start.map (pyBound xs.length)).getD 0 ≤ p.2 ∧
      p.2 < (stop.map (pyBound xs.length)).getD xs.length)).map Prod.fst

end

end Numeric
end PostCortex
