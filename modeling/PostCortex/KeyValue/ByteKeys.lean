import Mathlib.Data.List.TakeWhile
import PostCortex.KeyValue.Database

/-!
# Byte keys

Keys that are bytes are in the order of their bytes.  The keys that begin alike
are those from the common beginning up to a bound that is computed from it, and
a cursor over keys in order goes to the first one that is not before a target.
-/

namespace PostCortex
namespace KeyValue

abbrev ByteKey : Type :=
  List UInt8

def bytesOf (s : String) : ByteKey :=
  s.toUTF8.data.toList

theorem bytesOf_append (a b : String) : bytesOf (a ++ b) = bytesOf a ++ bytesOf b := by
  simp [bytesOf]

theorem length_bytesOf (s : String) : (bytesOf s).length = s.utf8ByteSize := by
  rw [bytesOf, String.toUTF8_eq_toByteArray, Array.length_toList,
    ← String.size_toByteArray]
  rfl

def textOf (key : ByteKey) : Option String :=
  String.fromUTF8? ⟨key.toArray⟩

theorem textOf_bytesOf (s : String) : textOf (bytesOf s) = some s := by
  have hbytes : (⟨(bytesOf s).toArray⟩ : ByteArray) = s.toByteArray := by
    simp [bytesOf]
  rw [textOf, hbytes, String.fromUTF8?, dif_pos s.isValidUTF8]
  rfl

/-!
# Bounds
-/

/-- The bytes in reverse, with the last one below the largest raised and those
after it dropped. -/
def raiseLast : List UInt8 -> Option (List UInt8)
  | [] => none
  | last :: rest => if last < 255 then some ((last + 1) :: rest) else raiseLast rest

def upperBound (start : ByteKey) : Option ByteKey :=
  (raiseLast start.reverse).map List.reverse

theorem raiseLast_append (bytes : List UInt8) (b : UInt8) :
    raiseLast (bytes ++ [b]) =
      ((raiseLast bytes).map (fun raised => raised ++ [b])).or
        (if b < 255 then some [b + 1] else none) := by
  induction bytes with
  | nil =>
      rw [List.nil_append, raiseLast]
      simp only [raiseLast]
      rfl
  | cons c rest ih =>
      rw [List.cons_append, raiseLast, raiseLast]
      split
      · rfl
      · exact ih

theorem upperBound_cons (b : UInt8) (rest : ByteKey) :
    upperBound (b :: rest) =
      ((upperBound rest).map (fun bound => b :: bound)).or
        (if b < 255 then some [b + 1] else none) := by
  rw [upperBound, List.reverse_cons, raiseLast_append, upperBound]
  cases raiseLast rest.reverse with
  | none =>
      simp only [Option.map_none, Option.none_or]
      split
      · rfl
      · rfl
  | some raised => simp

def Below (bound : Option ByteKey) (key : ByteKey) : Prop :=
  forall u, u ∈ bound -> compare key u = Ordering.lt

instance (bound : Option ByteKey) (key : ByteKey) : Decidable (Below bound key) :=
  decidable_of_iff ((bound.all (fun u => compare key u == Ordering.lt)) = true)
    (by simp [Below, Option.all_eq_true])

theorem compare_cons_lt {b c : UInt8} {xs ys : ByteKey} :
    compare (b :: xs) (c :: ys) = Ordering.lt ↔
      b < c ∨ b = c ∧ compare xs ys = Ordering.lt := by
  rw [List.compare_cons_cons, Ordering.then_eq_lt, Std.compare_eq_lt,
    Std.LawfulEqOrd.compare_eq_iff_eq]

theorem lt_next {b c : UInt8} (h : b < 255) : c < b + 1 ↔ c < b ∨ c = b := by
  have hone : (1 : UInt8).toNat = 1 := rfl
  have hmax : (255 : UInt8).toNat = 255 := rfl
  rw [UInt8.lt_iff_toNat_lt] at h
  rw [UInt8.lt_iff_toNat_lt, UInt8.lt_iff_toNat_lt, ← UInt8.toNat_inj,
    UInt8.toNat_add]
  omega

theorem below_cons {b c : UInt8} {start key : ByteKey} :
    Below (upperBound (b :: start)) (c :: key) ↔
      c < b ∨ c = b ∧ Below (upperBound start) key := by
  rw [upperBound_cons]
  cases upperBound start with
  | some bound =>
      simp only [Below, Option.map_some, Option.some_or, Option.mem_def,
        Option.some.injEq, forall_eq', compare_cons_lt]
  | none =>
      by_cases hroom : b < 255
      · have hshort : ¬ compare key [] = Ordering.lt := by
          cases key <;> simp
        simp only [Below, Option.map_none, Option.none_or, if_pos hroom,
          Option.mem_def, Option.some.injEq, forall_eq', compare_cons_lt,
          lt_next hroom, hshort, and_false, or_false]
        simp
      · -- no byte is larger
        have hle : c < b ∨ c = b := by
          have hc := c.toNat_lt
          have hmax : (255 : UInt8).toNat = 255 := rfl
          rw [UInt8.lt_iff_toNat_lt] at hroom
          rw [UInt8.lt_iff_toNat_lt, ← UInt8.toNat_inj]
          omega
        simp [Below, hroom, hle]

theorem between_iff (start key : ByteKey) :
    ¬ compare key start = Ordering.lt ∧ Below (upperBound start) key ↔
      start <+: key := by
  induction start generalizing key with
  | nil =>
      have hnone : upperBound [] = none := rfl
      cases key with
      | nil => simp [hnone, Below, Std.ReflOrd.compare_self]
      | cons c key => simp [hnone, Below]
  | cons b start ih =>
      cases key with
      | nil => simp
      | cons c key =>
          rw [compare_cons_lt, below_cons, List.cons_prefix_cons, ← ih key]
          by_cases heq : c = b
          · have hself : ¬ b < b := UInt8.lt_irrefl b
            simp [heq, hself]
          · have hne : ¬ b = c := fun h => heq h.symm
            simp [heq, hne]

theorem compare_append (common xs ys : ByteKey) :
    compare (common ++ xs) (common ++ ys) = compare xs ys := by
  induction common with
  | nil => rfl
  | cons b rest ih =>
      have hself : compare b b = Ordering.eq := Std.ReflOrd.compare_self
      rw [List.cons_append, List.cons_append, List.compare_cons_cons, hself,
        Ordering.eq_then, ih]

theorem begins_between {common key ys : ByteKey}
    (hfrom : ¬ compare key common = Ordering.lt)
    (hto : compare key (common ++ ys) = Ordering.lt) :
    common <+: key := by
  induction common generalizing key with
  | nil => exact List.nil_prefix
  | cons b rest ih =>
      cases key with
      | nil => exact absurd rfl hfrom
      | cons c key =>
          rw [List.cons_append, compare_cons_lt] at hto
          rw [compare_cons_lt, not_or] at hfrom
          obtain ⟨rfl, hrest⟩ := hto.resolve_left hfrom.1
          rw [List.cons_prefix_cons]
          exact ⟨rfl, ih (fun h => hfrom.2 ⟨rfl, h⟩) hrest⟩

/-!
# Cursors
-/

section

variable {key : Type} [Ord key]

def seek (keys : List key) (target : key) : List key :=
  keys.dropWhile (fun k => compare k target == Ordering.lt)

theorem seek_forward [Std.TransOrd key] {before rest : List key} {k target : key}
    (hsorted : (before ++ k :: rest).Pairwise
      (fun x y => compare x y = Ordering.lt))
    (htarget : compare k target = Ordering.lt) :
    seek (before ++ k :: rest) target = seek rest target := by
  have hbefore : forall x, x ∈ before ++ [k] ->
      (compare x target == Ordering.lt) = true := by
    intro x hx
    rw [beq_iff_eq]
    rcases List.mem_append.mp hx with hx | hx
    · have hlt := (List.pairwise_append.mp hsorted).2.2 x hx k List.mem_cons_self
      exact Std.TransCmp.lt_trans hlt htarget
    · rwa [List.mem_singleton.mp hx]
  rw [seek, seek, List.append_cons, List.dropWhile_append_of_pos hbefore]

theorem mem_seek [Std.TransOrd key] {keys : List key} {target k : key}
    (hsorted : keys.Pairwise (fun x y => compare x y = Ordering.lt)) :
    k ∈ seek keys target ↔ k ∈ keys ∧ ¬ compare k target = Ordering.lt := by
  induction keys with
  | nil => simp [seek]
  | cons first rest ih =>
      obtain ⟨hfirst, hrest⟩ := List.pairwise_cons.mp hsorted
      have hstep : seek (first :: rest) target =
          if compare first target == Ordering.lt then seek rest target
          else first :: rest :=
        List.dropWhile_cons
      rw [hstep, List.mem_cons]
      split
      · next hlt =>
        rw [ih hrest]
        constructor
        · exact fun h => ⟨Or.inr h.1, h.2⟩
        · rintro ⟨rfl | hmem, hnot⟩
          · exact absurd (beq_iff_eq.mp hlt) hnot
          · exact ⟨hmem, hnot⟩
      · next hnot =>
        rw [beq_iff_eq] at hnot
        rw [List.mem_cons]
        refine ⟨fun h => ⟨h, ?_⟩, fun h => h.1⟩
        rcases h with rfl | hmem
        · exact hnot
        · exact fun hlt => hnot (Std.TransCmp.lt_trans (hfirst k hmem) hlt)

theorem seek_suffix (keys : List key) (target : key) :
    exists skipped, keys = skipped ++ seek keys target ∧
      forall x, x ∈ skipped -> compare x target = Ordering.lt := by
  refine ⟨keys.takeWhile (fun k => compare k target == Ordering.lt), ?_, ?_⟩
  · exact List.takeWhile_append_dropWhile.symm
  · intro x hx
    have htaken := List.mem_takeWhile_imp hx
    exact beq_iff_eq.mp htaken

end

end KeyValue
end PostCortex
