import Mathlib.Algebra.Group.Nat.Defs
import PostCortex.Core.ContextUpdate

/-!
# The text of an id

How an id is printed and read back is the `uuid` crate's; `hyphenatedText` is
its hyphenated form.
-/

namespace PostCortex
namespace Core

class UuidText where
  toText : Uuid -> String
  parseStr : String -> Except String Uuid

/-- Ids are printed in 36 characters and read back. -/
class LawfulUuidText [UuidText] : Prop where
  parse_toText : forall id,
    UuidText.parseStr (UuidText.toText id) = Except.ok id
  length_toText : forall id, (UuidText.toText id).length = 36

section

variable [UuidText] [LawfulUuidText]

theorem toText_inj {a b : Uuid} (h : UuidText.toText a = UuidText.toText b) :
    a = b := by
  have hparse := LawfulUuidText.parse_toText a
  rw [h, LawfulUuidText.parse_toText b] at hparse
  cases hparse
  rfl

end

/-!
# The hyphenated form
-/

/-- The lowest `k` hexadecimal digits of a number. -/
def hexDigits : Nat -> Nat -> List Char
  | 0, _ => []
  | k + 1, n => hexDigits k (n / 16) ++ [Nat.digitChar (n % 16)]

def hexValue (c : Char) : Nat :=
  if c.toNat < 58 then c.toNat - 48 else c.toNat - 87

def hexNumber (digits : List Char) : Nat :=
  digits.foldl (fun n c => 16 * n + hexValue c) 0

def hyphenate (digits : List Char) : List Char :=
  digits.take 8 ++ '-' :: ((digits.drop 8).take 4 ++
    '-' :: ((digits.drop 12).take 4 ++ '-' :: ((digits.drop 16).take 4 ++
      '-' :: digits.drop 20)))

def hyphenated (id : Uuid) : String :=
  String.ofList (hyphenate (hexDigits 32 id.toNat))

def parseHyphenated (s : String) : Except String Uuid :=
  let id := BitVec.ofNat 128 (hexNumber (s.toList.filter (· != '-')))
  if hyphenated id = s then Except.ok id else Except.error "invalid length"

@[reducible] def hyphenatedText : UuidText where
  toText := hyphenated
  parseStr := parseHyphenated

theorem hexDigit_value : forall n, n < 16 ->
    hexValue (Nat.digitChar n) = n ∧ Nat.digitChar n ≠ '-' := by
  decide

theorem hexNumber_hexDigits (k n : Nat) :
    hexNumber (hexDigits k n) = n % 16 ^ k := by
  induction k generalizing n with
  | zero =>
      simp [hexDigits, hexNumber, Nat.mod_one]
  | succ k ih =>
      have hvalue := (hexDigit_value (n % 16) (Nat.mod_lt n (by omega))).1
      have hbegins := ih (n / 16)
      simp only [hexNumber] at hbegins
      rw [hexDigits, hexNumber, List.foldl_append, hbegins]
      simp only [List.foldl_cons, List.foldl_nil, hvalue]
      rw [Nat.pow_succ', Nat.mod_mul]
      omega

theorem hexDigits_filter (k n : Nat) :
    (hexDigits k n).filter (· != '-') = hexDigits k n := by
  induction k generalizing n with
  | zero =>
      rfl
  | succ k ih =>
      have hdigit := (hexDigit_value (n % 16) (Nat.mod_lt n (by omega))).2
      rw [hexDigits, List.filter_append, ih]
      simp [hdigit]

theorem hyphenate_filter (digits : List Char) :
    (hyphenate digits).filter (· != '-') = digits.filter (· != '-') := by
  have h20 : digits = digits.take 8 ++ ((digits.drop 8).take 4 ++
      ((digits.drop 12).take 4 ++ ((digits.drop 16).take 4 ++
        digits.drop 20))) := by
    have hsplit : forall n, digits.drop n =
        (digits.drop n).take 4 ++ digits.drop (n + 4) := by
      intro n
      rw [← List.drop_drop, List.take_append_drop]
    rw [← hsplit 16, ← hsplit 12, ← hsplit 8, List.take_append_drop]
  conv => rhs; rw [h20]
  simp [hyphenate, List.filter_append]

theorem parse_hyphenated (id : Uuid) :
    parseHyphenated (hyphenated id) = Except.ok id := by
  have hnumber : hexNumber
      ((hyphenated id).toList.filter (· != '-')) = id.toNat := by
    rw [hyphenated, String.toList_ofList, hyphenate_filter, hexDigits_filter,
      hexNumber_hexDigits]
    exact Nat.mod_eq_of_lt id.isLt
  simp [parseHyphenated, hnumber]

theorem length_hexDigits (k n : Nat) :
    (hexDigits k n).length = k := by
  induction k generalizing n with
  | zero =>
      rfl
  | succ k ih =>
      simp [hexDigits, ih]

theorem length_hyphenate {digits : List Char} (h : digits.length = 32) :
    (hyphenate digits).length = 36 := by
  simp [hyphenate, h]

theorem length_hyphenated (id : Uuid) :
    (hyphenated id).length = 36 := by
  rw [hyphenated, String.length_ofList]
  exact length_hyphenate (length_hexDigits 32 id.toNat)

theorem lawful_hyphenatedText :
    @LawfulUuidText hyphenatedText :=
  letI := hyphenatedText
  ⟨parse_hyphenated, length_hyphenated⟩

end Core
end PostCortex
